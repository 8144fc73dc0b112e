/-
Page table entries and the addresses of `walk`, as arithmetic.

`PA2PTE(pa) | flags` keeps both: the address is a page boundary below `2 ^ 56`, so its
frame number stands clear of the ten flag bits.  The three indices of a canonical address
determine its page.
-/
import SystemN.Mm.Pagetable

namespace SystemN

/-! ### Entries -/

/-- The masks of the flags only look at the ten low bits. -/
theorem and_eq_mod_and {x m : Nat} (hm : m < 1024) : x &&& m = x % 1024 &&& m := by
  have hself : m % 2 ^ 10 = m := Nat.mod_eq_of_lt hm
  have hmod : x % 2 ^ 10 &&& m = x &&& m := by
    rw [← Nat.and_two_pow_sub_one_eq_mod x 10, Nat.and_assoc, Nat.and_comm (2 ^ 10 - 1),
      Nat.and_two_pow_sub_one_eq_mod m 10, hself]
  exact hmod.symm

theorem pa2pte_eq {pa : Nat} (hlt : pa < 2 ^ 56) : pa2pte pa = pa / 4096 * 1024 := by
  simp only [pa2pte, u64, pageShift, Nat.shiftRight_eq_div_pow, Nat.shiftLeft_eq]
  omega

theorem pte2pa_eq {pte : Nat} (hlt : pte < 2 ^ 62) : pte2pa pte = pte / 1024 * 4096 := by
  simp only [pte2pa, u64, Nat.shiftRight_eq_div_pow, Nat.shiftLeft_eq]
  omega

theorem pa2pte_or {pa f : Nat} (hlt : pa < 2 ^ 56) (hf : f < 1024) :
    pa2pte pa ||| f = pa / 4096 * 1024 + f := by
  have hor := Nat.two_pow_add_eq_or_of_lt (i := 10) hf (pa / 4096)
  rw [pa2pte_eq hlt, Nat.mul_comm]
  exact hor.symm

section Entry

variable {pa f : Nat} (hmod : pa % 4096 = 0) (hlt : pa < 2 ^ 56) (hf : f < 1024)
include hlt hf

theorem pte_lt : pa2pte pa ||| f < 2 ^ 64 := by
  rw [pa2pte_or hlt hf]
  omega

/-- A mask of flag bits sees the flags of an entry. -/
theorem pte_and {m : Nat} (hm : m < 1024) : (pa2pte pa ||| f) &&& m = f &&& m := by
  rw [and_eq_mod_and hm, pa2pte_or hlt hf]
  congr 1
  omega

theorem pteFlags_pte : pteFlags (pa2pte pa ||| f) = f := by
  rw [pteFlags, pte_and hlt hf (by decide)]
  exact (Nat.and_two_pow_sub_one_eq_mod f 10).trans (Nat.mod_eq_of_lt hf)

include hmod in
/-- **The address survives the entry.** -/
theorem pte2pa_pte : pte2pa (pa2pte pa ||| f) = pa := by
  rw [pa2pte_or hlt hf, pte2pa_eq (by omega)]
  omega

end Entry

/-! ### Indices -/

theorem vpnLevel_eq (va level : Nat) : vpnLevel va level = va / 2 ^ (12 + 9 * level) % 512 := by
  rw [vpnLevel, Nat.shiftRight_eq_div_pow]
  exact Nat.and_two_pow_sub_one_eq_mod _ 9

theorem vpnLevel_lt (va level : Nat) : vpnLevel va level < pteCount := by
  rw [vpnLevel_eq]
  exact Nat.mod_lt _ (by decide)

/-- An index of a table, as a number below `PTE_COUNT`. -/
def vpn (va level : Nat) : Fin pteCount := ⟨vpnLevel va level, vpnLevel_lt va level⟩

@[simp] theorem vpn_val (va level : Nat) : (vpn va level : Nat) = vpnLevel va level := rfl

/-- **Three indices determine the page** of a canonical address. -/
theorem page_eq_of_vpn_eq {va va' : Nat} (hva : Mm.Canonical va) (hva' : Mm.Canonical va')
    (h₀ : vpn va 0 = vpn va' 0) (h₁ : vpn va 1 = vpn va' 1) (h₂ : vpn va 2 = vpn va' 2) :
    va / pageSize = va' / pageSize := by
  simp only [vpn, Fin.mk.injEq, vpnLevel_eq] at h₀ h₁ h₂
  simp only [Mm.Canonical, pageSize] at *
  omega

theorem vpn_congr {va va' : Nat} (h : va / pageSize = va' / pageSize) (level : Nat) :
    vpn va level = vpn va' level := by
  have hdiv : ∀ a : Nat, a / 2 ^ (12 + 9 * level) = a / pageSize / 2 ^ (9 * level) := fun a => by
    rw [Nat.div_div_eq_div_mul, Nat.pow_add]
  simp only [vpn, vpnLevel_eq, hdiv, h]

end SystemN
