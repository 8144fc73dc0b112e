/-
What `buddy_allocator_init` leaves behind.

The base it computes is a page boundary at or below `USER_END`, the managed pages
fill the room from there to `USER_END` exactly, and the blocks it files tile them.
The population loop advances by at least a page each round, so it ends within
`num_pages` rounds.
-/
import SystemN.Proofs.Mm.Mem

namespace SystemN.Mm

open Tiling Chain

/-! ### The population loop -/

theorem initOrder_le (curr physEnd : Nat) : ∀ o, initOrder curr physEnd o ≤ o := by
  intro o
  induction o with
  | zero => exact Nat.le_refl _
  | succ o ih =>
      rw [initOrder]
      split
      · exact Nat.le_succ_of_le ih
      · exact Nat.le_refl _

/-- The order chosen fits, if a single page does. -/
theorem initOrder_fits {curr physEnd : Nat} (hend : physEnd ≤ userEnd)
    (hpage : curr + pageSize ≤ physEnd) :
    ∀ o ≤ maxOrder, curr + (pageSize <<< initOrder curr physEnd o) ≤ physEnd := by
  intro o ho
  induction o with
  | zero => simpa [initOrder] using hpage
  | succ o ih =>
      rw [initOrder]
      split
      · exact ih (Nat.le_of_succ_le ho)
      · rename_i hc
        have hpow : pageSize <<< (o + 1) ≤ 2 ^ 22 := by
          rw [Nat.shiftLeft_eq, show pageSize = 2 ^ 12 by norm_num, ← Nat.pow_add]
          exact Nat.pow_le_pow_right (by norm_num) (by simp only [maxOrder] at ho; omega)
        have hfit : ¬ physEnd < u64 (curr + (pageSize <<< (o + 1))) := fun h => hc (Or.inl h)
        simp only [userEnd, pageSize] at hend hpage hpow hfit ⊢
        rw [u64, Nat.mod_eq_of_lt (by omega)] at hfit
        omega

theorem shift_sub_one (curr o : Nat) :
    curr &&& ((pageSize <<< o) - 1) = curr % 2 ^ (12 + o) := by
  have hpow : pageSize <<< o = 2 ^ (12 + o) := by rw [Nat.shiftLeft_eq, Nat.pow_add]
  rw [hpow, Nat.and_two_pow_sub_one_eq_mod]

/-- The block is aligned to its order, absolutely. -/
theorem initOrder_dvd {curr physEnd : Nat} (hpage : pageSize ∣ curr) :
    ∀ o, 2 ^ (12 + initOrder curr physEnd o) ∣ curr := by
  intro o
  induction o with
  | zero => simpa [initOrder] using hpage
  | succ o ih =>
      rw [initOrder]
      split
      · exact ih
      · rename_i hc
        have hzero : curr &&& ((pageSize <<< (o + 1)) - 1) = 0 := by
          by_contra hne
          exact hc (Or.inr hne)
        rw [shift_sub_one] at hzero
        exact Nat.dvd_of_mod_eq_zero hzero

/-- No larger order is aligned and fits. -/
theorem le_initOrder {curr physEnd j : Nat} (hend : physEnd ≤ userEnd) (hd : 2 ^ (12 + j) ∣ curr)
    (hfit : curr + (pageSize <<< j) ≤ physEnd) : ∀ o, j ≤ o → j ≤ initOrder curr physEnd o := by
  intro o
  induction o with
  | zero => exact fun h => h.trans (Nat.zero_le _)
  | succ o ih =>
      intro hj
      rw [initOrder]
      rcases Nat.eq_or_lt_of_le hj with rfl | hlt
      · have hwrap : u64 (curr + (pageSize <<< (o + 1))) = curr + (pageSize <<< (o + 1)) :=
          Nat.mod_eq_of_lt (by simp only [userEnd] at hend; omega)
        rw [hwrap, shift_sub_one, Nat.mod_eq_zero_of_dvd hd, if_neg (by omega)]
      · split
        · exact ih (by omega)
        · omega

/-- The population loop files the blocks `initOrder` chooses. -/
def FiledByInit (base : Nat) (fl : Nat → List Nat) : Prop :=
  ∀ o ≤ maxOrder, ∀ h ∈ fl o, initOrder (base + h * pageSize) userEnd maxOrder = o

theorem FiledByInit.cons {base h o : Nat} {fl : Nat → List Nat} (hf : FiledByInit base fl)
    (ho : initOrder (base + h * pageSize) userEnd maxOrder = o) :
    FiledByInit base (Function.update fl o (h :: fl o)) := by
  intro x hx i hi
  rcases eq_or_ne x o with rfl | hxo
  · rw [Function.update_self] at hi
    rcases List.mem_cons.mp hi with rfl | hi
    · exact ho
    · exact hf x hx i hi
  · rw [Function.update_of_ne hxo] at hi
    exact hf x hx i hi

theorem populate_spec (base : Nat) :
    ∀ (fuel i : Nat) (s : Mm) (fl : Nat → List Nat), s.buddyBasePhys = base →
      base + s.numPages * pageSize = userEnd → i ≤ s.numPages → s.numPages - i ≤ fuel →
      Buddy.Inv i s.pages s.freeLists fl 0 0 → FiledByInit base fl →
      ∃ s' fl', populate userEnd fuel (base + i * pageSize) s = .ok s' ∧
        BuddyInv s' fl' 0 0 ∧ SameStatics s s' ∧ s'.mem = s.mem ∧ FiledByInit base fl' := by
  intro fuel
  induction fuel with
  | zero =>
      intro i s fl hb htop hi hfuel hinv hfiled
      obtain rfl : i = s.numPages := by omega
      refine ⟨s, fl, ?_, hinv, SameStatics.refl s, rfl, hfiled⟩
      rw [populate, htop, if_neg (by simp only [userEnd, pageSize]; norm_num)]
  | succ fuel ih =>
      intro i s fl hb htop hi hfuel hinv hfiled
      have hwrap : u64 (base + i * pageSize + pageSize) = base + i * pageSize + pageSize :=
        Nat.mod_eq_of_lt (by simp only [userEnd, pageSize] at htop ⊢; omega)
      rw [populate, hwrap]
      by_cases hroom : base + i * pageSize + pageSize ≤ userEnd
      · rw [if_pos hroom]
        set o := initOrder (base + i * pageSize) userEnd maxOrder with ho
        have hole : o ≤ maxOrder := initOrder_le _ _ _
        have hfit := initOrder_fits (Nat.le_refl userEnd) hroom maxOrder (Nat.le_refl _)
        rw [← ho, Nat.shiftLeft_eq] at hfit
        have hpos := Nat.two_pow_pos o
        have hin : i < s.numPages := by simp only [userEnd, pageSize] at htop hroom; omega
        have hidx : s.pageIdx (base + i * pageSize) = i := by
          unfold pageIdx
          rw [hb, sub64_of_le (by omega) (by simp only [userEnd, pageSize] at htop ⊢; omega)]
          simp
        rw [getPageStruct_ok (by rw [hidx]; exact hin), ok_bind, hidx]
        have hnext : u64 (base + i * pageSize + pageSize <<< o) = base + (i + 2 ^ o) * pageSize := by
          rw [u64, Nat.shiftLeft_eq, Nat.mod_eq_of_lt (by simp only [userEnd, pageSize] at hfit ⊢; omega)]
          ring
        rw [hnext]
        have hle : i + 2 ^ o ≤ s.numPages := by
          have : (i + 2 ^ o) * pageSize ≤ s.numPages * pageSize := by
            rw [Nat.add_mul, Nat.mul_comm (2 ^ o)]
            omega
          exact Nat.le_of_mul_le_mul_right this (by norm_num)
        have hfiled' := hfiled.cons ho.symm
        obtain ⟨s', fl', hs', hi', hst, hmem, hfiled''⟩ :=
          ih (i + 2 ^ o) (s.pushFree 0 i o) _ hb htop hle
            (by show s.numPages - (i + 2 ^ o) ≤ fuel; omega) (hinv.extend hole) hfiled'
        exact ⟨s', fl', hs', hi', ⟨hst.1, hst.2, hst.3, hst.4⟩, hmem, hfiled''⟩
      · rw [if_neg hroom]
        have : i = s.numPages := by simp only [userEnd, pageSize] at htop hroom; omega
        subst this
        exact ⟨s, fl, rfl, hinv, SameStatics.refl s, rfl, hfiled⟩

/-! ### The whole of it -/

/-- Where `early_alloc` puts the kernel page table. -/
def initTable (L : Layout) : Nat := alignUp L.kernelEnd

/-- How many records `page_array` is given room for. -/
def initEstimate (L : Layout) : Nat :=
  (userEnd - (initTable L + pageSize)) / (pageSize + sizeofPage)

/-- The first managed page. -/
def initBase (L : Layout) : Nat :=
  initTable L + pageSize + alignUp (initEstimate L * sizeofPage)

/-- The memory after the two `memset`s. -/
def initMem (L : Layout) (m : Nat → UInt8) : Nat → UInt8 :=
  zeroed (zeroed m (initTable L) pageSize) (initTable L + pageSize) (initEstimate L * sizeofPage)

/-- The page table lies between the image and the first managed page. -/
theorem initTable_bounds {L : Layout} (hL : L.kernelEnd + pageSize ≤ userEnd) :
    L.kernelEnd ≤ initTable L ∧ initTable L + pageSize ≤ userEnd ∧ initTable L % pageSize = 0 := by
  have hmod := alignUp_mod L.kernelEnd
  have hlt := @alignUp_lt L.kernelEnd
  have hle := @le_alignUp L.kernelEnd (by simp only [userEnd, pageSize] at hL ⊢; omega)
  unfold initTable
  simp only [userEnd, pageSize] at *
  omega

theorem initBase_bounds {L : Layout} (hL : L.kernelEnd + pageSize ≤ userEnd) :
    initTable L + pageSize ≤ initBase L ∧ initBase L ≤ userEnd ∧ initBase L % pageSize = 0 ∧
      initTable L + pageSize + initEstimate L * sizeofPage ≤ initBase L ∧
      initEstimate L * sizeofPage < 2 ^ 32 := by
  obtain ⟨-, htop, hmod⟩ := initTable_bounds hL
  have hest : initEstimate L * (pageSize + sizeofPage) ≤ userEnd - (initTable L + pageSize) :=
    Nat.div_mul_le_self _ _
  have hmodA := alignUp_mod (initEstimate L * sizeofPage)
  have hltA := @alignUp_lt (initEstimate L * sizeofPage)
  have hleA := @le_alignUp (initEstimate L * sizeofPage)
    (by simp only [userEnd, pageSize, sizeofPage] at hest ⊢; omega)
  unfold initBase
  simp only [userEnd, pageSize, sizeofPage] at *
  omega

/-- The statics as the two `early_alloc` calls and the count of the pages leave them. -/
def initStatics (L : Layout) (m : Nat → UInt8) : Mm where
  vaOffset := 0
  buddyBasePhys := initBase L
  numPages := (userEnd - initBase L) / pageSize
  pageArray := initTable L + pageSize
  pages := fun _ => ⟨0, false, none⟩
  freeLists := fun _ => none
  mem := initMem L m
  derefs := []

theorem earlyAlloc_first {s : Mm} (h : s.buddyBasePhys = 0) (kernelEnd size : Nat) :
    s.earlyAlloc kernelEnd size
      = (alignUp kernelEnd, { s with buddyBasePhys := u64 (alignUp kernelEnd + alignUp size) }) := by
  unfold earlyAlloc
  rw [if_pos h]

theorem earlyAlloc_next {s : Mm} (h : s.buddyBasePhys ≠ 0) (kernelEnd size : Nat) :
    s.earlyAlloc kernelEnd size
      = (s.buddyBasePhys, { s with buddyBasePhys := u64 (s.buddyBasePhys + alignUp size) }) := by
  unfold earlyAlloc
  rw [if_neg h]

/-- Up to the population loop, `buddy_allocator_init` computes `initStatics`. -/
theorem buddyAllocatorInit_eq {L : Layout} (hL : L.kernelEnd + pageSize ≤ userEnd)
    (m : Nat → UInt8) :
    buddyAllocatorInit L m
      = (populate userEnd (initStatics L m).numPages (initBase L) (initStatics L m) >>= fun s =>
          .ok (initTable L, s)) := by
  obtain ⟨hlo, htop, hmod⟩ := initTable_bounds hL
  obtain ⟨hb1, hb2, hb3, hb4, hb5⟩ := initBase_bounds hL
  have hpage : alignUp pageSize = pageSize := alignUp_of_mod (by norm_num) (by norm_num)
  have hbase1 : u64 (initTable L + pageSize) = initTable L + pageSize :=
    Nat.mod_eq_of_lt (by simp only [userEnd, pageSize] at htop ⊢; omega)
  have hest : sub64 userEnd (initTable L + pageSize) / (pageSize + sizeofPage) = initEstimate L := by
    rw [sub64_of_le htop (by norm_num)]
    rfl
  have hlen : u64 (initEstimate L * sizeofPage) = initEstimate L * sizeofPage :=
    Nat.mod_eq_of_lt (by omega)
  have hbase2 : u64 (initTable L + pageSize + alignUp (initEstimate L * sizeofPage)) = initBase L :=
    Nat.mod_eq_of_lt (by
      show initBase L < 2 ^ 64
      simp only [userEnd] at hb2
      omega)
  have hbase3 : alignUp (initBase L) = initBase L :=
    alignUp_of_mod hb3 (by simp only [userEnd, pageSize] at hb2 ⊢; omega)
  have hnum : sub64 userEnd (initBase L) / pageSize = (userEnd - initBase L) / pageSize := by
    rw [sub64_of_le hb2 (by norm_num)]
  have hne : initTable L + pageSize ≠ 0 := by simp only [pageSize]; omega
  unfold buddyAllocatorInit
  rw [earlyAlloc_first rfl]
  simp only [hpage]
  rw [show alignUp L.kernelEnd = initTable L from rfl, hbase1, memset_eq _ _ _ (by norm_num), ok_bind]
  simp only [setMem, hest]
  rw [earlyAlloc_next hne]
  simp only [hlen, hbase2]
  rw [memset_eq _ _ _ hb5, ok_bind]
  simp only [hbase3, hnum]
  rfl

/-- **`buddy_allocator_init` establishes the invariant**, with nothing handed out. -/
theorem buddyAllocatorInit_spec {L : Layout} (hL : L.kernelEnd + pageSize ≤ userEnd)
    (m : Nat → UInt8) :
    ∃ s fl, buddyAllocatorInit L m = .ok (initTable L, s) ∧ BuddyInv s fl 0 0 ∧
      SameStatics (initStatics L m) s ∧ s.mem = initMem L m ∧ FiledByInit (initBase L) fl := by
  obtain ⟨hb1, hb2, hb3, -, -⟩ := initBase_bounds hL
  have htop : initBase L + (initStatics L m).numPages * pageSize = userEnd := by
    show initBase L + (userEnd - initBase L) / pageSize * pageSize = userEnd
    simp only [userEnd, pageSize] at *
    omega
  have hnone : FiledByInit (initBase L) fun _ => [] := by
    intro o _ h hh
    cases hh
  obtain ⟨s, fl, hs, hi, hst, hmem, hfiled⟩ := populate_spec (initBase L)
    (initStatics L m).numPages 0 (initStatics L m) (fun _ => []) rfl htop (Nat.zero_le _)
    (Nat.le_refl _) (Buddy.Inv.empty (fun _ => rfl) (fun _ => rfl)) hnone
  rw [Nat.zero_mul, Nat.add_zero] at hs
  refine ⟨s, fl, ?_, hi, hst, hmem, hfiled⟩
  rw [buddyAllocatorInit_eq hL, hs, ok_bind]

theorem region_of_init {L : Layout} (hL : L.kernelEnd + pageSize ≤ userEnd) {m : Nat → UInt8}
    {s : Mm} (hs : SameStatics (initStatics L m) s) : Region s := by
  obtain ⟨hb1, hb2, hb3, -, -⟩ := initBase_bounds hL
  refine Region.congr (s := initStatics L m) ⟨?_, hb3, ?_⟩ hs
  · show 0 < initBase L
    simp only [pageSize] at hb1
    omega
  · show initBase L + (userEnd - initBase L) / pageSize * pageSize ≤ userEnd
    simp only [userEnd, pageSize] at *
    omega

/-- With no room for the page table below `USER_END` the length of `page_array` wraps around,
and the `memset` of it never ends. -/
theorem buddyAllocatorInit_diverge {L : Layout} (hL : userEnd < L.kernelEnd + pageSize)
    (m : Nat → UInt8) : buddyAllocatorInit L m = .error .diverge := by
  have hin := L.inMemory
  have hmod := alignUp_mod L.kernelEnd
  have hlt := @alignUp_lt L.kernelEnd
  have hle := @le_alignUp L.kernelEnd (by simp only [userEnd, pageSize] at hin ⊢; omega)
  -- the table takes the last page, or the one behind it
  have hkp : alignUp L.kernelEnd = userEnd := by
    simp only [userEnd, pageSize] at *
    omega
  have hpage : alignUp pageSize = pageSize := alignUp_of_mod (by norm_num) (by norm_num)
  unfold buddyAllocatorInit
  rw [earlyAlloc_first rfl]
  simp only [hpage, hkp]
  rw [memset_eq _ _ _ (by norm_num), ok_bind, memset_diverge _ _ _ (by norm_num [sub64, setMem])]
  rfl

end SystemN.Mm
