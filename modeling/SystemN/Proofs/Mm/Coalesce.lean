/-
Whether freeing everything brings the initial blocks back.

`buddy_allocator_init` chooses blocks that are aligned in physical memory, and
`free_pages` merges blocks that are a pair relative to `buddy_base_phys`.  The two agree
when the base is a multiple of the largest block: then every block is a multiple of its
size from the base, no two buddies are on one list, and such a tiling of all the pages
has nothing but blocks of the largest order.  They agree as well, for want of a run that
gets so far, when the pages are one block.  For any other base a run of four calls leaves
other blocks than it found.
-/
import SystemN.Proofs.Mm.Partition
import Mathlib.Data.Nat.Factorization.Basic

namespace SystemN.Mm

open Tiling Chain

variable {fl : Nat → List Nat} {live : Multiset Block} {s : Mm} {L : Layout} {m : Nat → UInt8}

/-! ### The blocks of a list -/

/-- Block `h` is on the free list of order `o`. -/
def OnFreeList (s : Mm) (o h : Nat) : Prop :=
  ∃ xs, IsChain (fun i => (s.pages i).next) (s.freeLists o) xs ∧ h ∈ xs

theorem onFreeList_iff {hand : Multiset Block} (hi : BuddyInv s fl live hand) {o h : Nat}
    (ho : o ≤ maxOrder) : OnFreeList s o h ↔ h ∈ fl o := by
  constructor
  · rintro ⟨xs, hxs, hmem⟩
    rwa [hxs.unique (hi.chain o ho)] at hmem
  · exact fun hmem => ⟨fl o, hi.chain o ho, hmem⟩

theorem eq_nil_of_none {hand : Multiset Block} (hi : BuddyInv s fl live hand) {o : Nat}
    (ho : o ≤ maxOrder) (hnone : s.freeLists o = none) : fl o = [] := by
  have hchain := hi.chain o ho
  rwa [hnone, isChain_none] at hchain

/-! ### Coalesced lists -/

/-- All blocks are aligned, and no two buddies are free. -/
structure Coalesced (fl : Nat → List Nat) (live : Multiset Block) : Prop where
  freeDvd : ∀ o ≤ maxOrder, ∀ h ∈ fl o, 2 ^ o ∣ h
  liveDvd : ∀ B ∈ live, 2 ^ B.2 ∣ B.1
  apart : ∀ o < maxOrder, ∀ h ∈ fl o, h ^^^ 2 ^ o ∉ fl o

/-- Taking the first block of a list. -/
theorem update_tail_subset {o h : Nat} {r : List Nat} (hfl : fl o = h :: r) (x : Nat) :
    Function.update fl o r x ⊆ fl x := by
  intro y hy
  rcases eq_or_ne x o with rfl | hxo
  · rw [Function.update_self] at hy
    rw [hfl]
    exact List.mem_cons_of_mem h hy
  · rwa [Function.update_of_ne hxo] at hy

namespace Coalesced

/-- Taking blocks off the lists. -/
theorem subset {fl' : Nat → List Nat} (hc : Coalesced fl live) (hsub : ∀ o, fl' o ⊆ fl o) :
    Coalesced fl' live where
  freeDvd o ho h hh := hc.freeDvd o ho h (hsub o hh)
  liveDvd := hc.liveDvd
  apart o ho h hh hb := hc.apart o ho h (hsub o hh) (hsub o hb)

theorem alloc {order o h : Nat} {t : List Nat} (hc : Coalesced fl live) (ho : o ≤ maxOrder)
    (hle : order ≤ o) (hempty : ∀ x, order ≤ x → x < o → fl x = []) (hfl : fl o = h :: t) :
    Coalesced (Buddy.splitLists h order (o - order) (Function.update fl o t))
      ((h, order) ::ₘ live) := by
  have hh : 2 ^ o ∣ h := hc.freeDvd o ho h (by simp [hfl])
  have hsub : ∀ x, Function.update fl o t x ⊆ fl x := update_tail_subset hfl
  refine ⟨?_, ?_, ?_⟩
  · intro x hx y hy
    rcases Buddy.mem_splitLists.mp hy with ⟨-, hlt, rfl⟩ | hy
    · exact Nat.dvd_add ((Nat.pow_dvd_pow 2 (by omega)).trans hh) (Nat.dvd_refl _)
    · exact hc.freeDvd x hx y (hsub x hy)
  · intro B hB
    rcases Multiset.mem_cons.mp hB with rfl | hB
    · exact (Nat.pow_dvd_pow 2 hle).trans hh
    · exact hc.liveDvd B hB
  · intro x hx y hy hb
    by_cases hin : order ≤ x ∧ x < o
    · -- a list that was empty holds the upper half alone
      have hone : ∀ z, z ∈ Buddy.splitLists h order (o - order) (Function.update fl o t) x →
          z = h + 2 ^ x := by
        intro z hz
        rcases Buddy.mem_splitLists.mp hz with ⟨-, -, rfl⟩ | hz
        · rfl
        · have := hsub x hz
          rw [hempty x hin.1 hin.2] at this
          cases this
      exact xor_ne y x ((hone _ hb).trans (hone y hy).symm)
    · rcases Buddy.mem_splitLists.mp hy with ⟨h1, h2, -⟩ | hy
      · exact hin ⟨h1, by omega⟩
      · rcases Buddy.mem_splitLists.mp hb with ⟨h1, h2, -⟩ | hb
        · exact hin ⟨h1, by omega⟩
        · exact hc.apart x hx y (hsub x hy) (hsub x hb)

end Coalesced

/-- Merging takes blocks off the lists, and keeps the block in hand aligned. -/
theorem merges_subset {fl fl' : Nat → List Nat} {B B' : Block} (hm : Buddy.Merges fl B fl' B')
    (hB : 2 ^ B.2 ∣ B.1) : (∀ o, fl' o ⊆ fl o) ∧ 2 ^ B'.2 ∣ B'.1 := by
  induction hm with
  | refl => exact ⟨fun o => List.Subset.refl _, hB⟩
  | @step fl fl' B' c k hk hb _ ih =>
      obtain ⟨hsub, hdvd⟩ := ih (pairHead_dvd hB)
      refine ⟨fun o => List.Subset.trans (hsub o) ?_, hdvd⟩
      rcases eq_or_ne o k with rfl | hok
      · rw [Function.update_self]
        exact List.erase_subset
      · rw [Function.update_of_ne hok]
        exact List.Subset.refl _

theorem Coalesced.free {fl' : Nat → List Nat} {B : Block} {c k : Nat}
    (hc : Coalesced fl (B ::ₘ live)) (hm : Buddy.Merges fl B fl' (c, k))
    (hstop : k < maxOrder → c ^^^ 2 ^ k ∉ fl' k) :
    Coalesced (Function.update fl' k (c :: fl' k)) live := by
  obtain ⟨hsub, hdvd⟩ := merges_subset hm (hc.liveDvd B (Multiset.mem_cons_self B live))
  have hc' := hc.subset hsub
  refine ⟨?_, fun C hC => hc.liveDvd C (Multiset.mem_cons_of_mem hC), ?_⟩
  · intro o ho h hh
    rcases eq_or_ne o k with rfl | hok
    · rw [Function.update_self] at hh
      rcases List.mem_cons.mp hh with rfl | hh
      · exact hdvd
      · exact hc'.freeDvd o ho h hh
    · rw [Function.update_of_ne hok] at hh
      exact hc'.freeDvd o ho h hh
  · intro o ho h hh hb
    rcases eq_or_ne o k with rfl | hok
    · rw [Function.update_self] at hh hb
      rcases List.mem_cons.mp hh with rfl | hh
      · exact hstop ho ((List.mem_cons.mp hb).resolve_left (xor_ne h o))
      · rcases List.mem_cons.mp hb with hb | hb
        · -- the block that is filed would be the buddy of one on the list
          refine hstop ho ?_
          rw [← hb, xor_xor_two_pow]
          exact hh
        · exact hc'.apart o ho h hh hb
    · rw [Function.update_of_ne hok] at hh hb
      exact hc'.apart o ho h hh hb

/-! ### Steps of a run, with the lists they leave -/

theorem handedOut_cons (s : Mm) (B : Nat × Nat) (live : Multiset (Nat × Nat)) :
    handedOut s (B ::ₘ live) = (s.pageIdx B.1, B.2) ::ₘ handedOut s live :=
  Multiset.map_cons _ _ _

/-- A block is where its index says. -/
theorem RunInv.addr_of_pageIdx (hi : RunInv s live) {B : Nat × Nat} (hB : B ∈ live) :
    B.1 = s.buddyBasePhys + s.pageIdx B.1 * pageSize := by
  obtain ⟨h, hlt, haddr⟩ := hi.addr B hB
  have hidx : s.pageIdx B.1 = h := by
    rw [haddr]
    exact hi.region.pageIdx_head hlt
  rw [hidx]
  exact haddr

/-- `alloc_pages` takes the first block of the first list that is not empty, and splits it. -/
theorem RunInv.allocPages_lists (hi : RunInv s live) (hinv : BuddyInv s fl (handedOut s live) 0)
    {order : Nat} (ho : order ≤ maxOrder) :
    (s.allocPages order = .ok (0, s) ∧ ∀ o, order ≤ o → o ≤ maxOrder → fl o = []) ∨
    ∃ o h t a s', order ≤ o ∧ o ≤ maxOrder ∧ (∀ x, order ≤ x → x < o → fl x = []) ∧
      fl o = h :: t ∧ s.allocPages order = .ok (a, s') ∧ a ≠ 0 ∧ SameStatics s s' ∧
      s.pageIdx a = h ∧
      BuddyInv s' (Buddy.splitLists h order (o - order) (Function.update fl o t))
        (handedOut s' ((a, order) ::ₘ live)) 0 := by
  rcases Mm.allocPages_lists hi.region hinv ho with
    ⟨hnull, hnone⟩ | ⟨o, h, t, a, s', h1, h2, hnone, hfl, hcall, hall⟩
  · exact Or.inl ⟨hnull, fun x h1 h2 => eq_nil_of_none hinv h2 (hnone x h1 h2)⟩
  · have hpos := hi.region.pos
    have hlt : h < s.numPages :=
      Nat.lt_of_lt_of_le (Nat.lt_add_of_pos_right (Nat.two_pow_pos order)) hall.fits
    have haddr := hall.addr
    have hidx : s.pageIdx a = h := by
      rw [haddr]
      exact hi.region.pageIdx_head hlt
    refine Or.inr ⟨o, h, t, a, s', h1, h2, fun x h3 h4 => ?_, hfl, hcall, by omega, hall.statics,
      hidx, ?_⟩
    · exact eq_nil_of_none hinv (by omega) (hnone x h3 h4)
    · rw [handedOut_congr hall.statics, handedOut_cons, hidx]
      exact hall.inv

/-- `free_pages`, if it does not halt, merges the block as far as it goes and files it. -/
theorem RunInv.freePages_lists {B : Nat × Nat} (hi : RunInv s (B ::ₘ live))
    (hinv : BuddyInv s fl (handedOut s (B ::ₘ live)) 0) :
    s.freePages B.1 = .error .halt ∨
    ∃ s' fl' c k, s.freePages B.1 = .ok s' ∧ k ≤ maxOrder ∧
      Buddy.Merges fl (s.pageIdx B.1, B.2) fl' (c, k) ∧
      (k < maxOrder → c ^^^ 2 ^ k ∉ fl' k ∧ c ^^^ 2 ^ k < s.numPages) ∧ SameStatics s s' ∧
      BuddyInv s' (Function.update fl' k (c :: fl' k)) (handedOut s' live) 0 := by
  obtain ⟨hlt, hne⟩ := hi.addr_lt (Multiset.mem_cons_self B live)
  rw [handedOut_cons] at hinv
  rcases Mm.freePages_lists hi.region hinv hlt rfl hne with
    hhalt | ⟨s', fl', c, k, hcall, hk, hmerges, hstop, hi', hst, -⟩
  · exact Or.inl hhalt
  · refine Or.inr ⟨s', fl', c, k, hcall, hk, hmerges, hstop, hst, ?_⟩
    rw [handedOut_congr hst]
    exact hi'

/-- The merges it makes are those that lead to a block whose buddy is managed and not free. -/
theorem RunInv.freePages_of_merges {B : Nat × Nat} (hi : RunInv s (B ::ₘ live))
    (hinv : BuddyInv s fl (handedOut s (B ::ₘ live)) 0) {fl' : Nat → List Nat} {c k : Nat}
    (hk : k ≤ maxOrder) (hmerges : Buddy.Merges fl (s.pageIdx B.1, B.2) fl' (c, k))
    (hstop : k < maxOrder → c ^^^ 2 ^ k ∉ fl' k ∧ c ^^^ 2 ^ k < s.numPages) :
    ∃ s', s.freePages B.1 = .ok s' ∧ SameStatics s s' ∧
      BuddyInv s' (Function.update fl' k (c :: fl' k)) (handedOut s' live) 0 := by
  obtain ⟨hlt, hne⟩ := hi.addr_lt (Multiset.mem_cons_self B live)
  rw [handedOut_cons] at hinv
  obtain ⟨s', hcall, hst, hi'⟩ := Mm.freePages_of_merges hi.region hinv hlt rfl hne hk hmerges hstop
  refine ⟨s', hcall, hst, ?_⟩
  rw [handedOut_congr hst]
  exact hi'

/-- **Coalesced lists stay coalesced**, through any run. -/
theorem AllocRun.coalesced (hrun : AllocRun L m s live)
    (hinit : ∀ kp s₀, buddyAllocatorInit L m = .ok (kp, s₀) →
      ∃ fl, BuddyInv s₀ fl 0 0 ∧ Coalesced fl 0) :
    ∃ fl, BuddyInv s fl (handedOut s live) 0 ∧ Coalesced fl (handedOut s live) := by
  induction hrun with
  | init v h =>
      obtain ⟨fl, hi, hc⟩ := hinit _ _ h
      exact ⟨fl, hi, hc⟩
  | @alloc s s' live order a hrun ho hcall ih =>
      obtain ⟨fl, hi, hc⟩ := ih
      rcases hrun.runInv.allocPages_lists hi ho with
        ⟨hnull, -⟩ | ⟨o, h, t, a', t', h1, h2, hnone, hfl, hok, hne, hst, hidx, hi'⟩
      · rw [hnull] at hcall
        obtain ⟨rfl, rfl⟩ : 0 = a ∧ s = s' := by simpa using hcall
        rw [if_pos rfl]
        exact ⟨fl, hi, hc⟩
      · rw [hok] at hcall
        obtain ⟨rfl, rfl⟩ : a' = a ∧ t' = s' := by simpa using hcall
        rw [if_neg hne]
        refine ⟨_, hi', ?_⟩
        rw [handedOut_congr hst, handedOut_cons, hidx]
        exact hc.alloc h2 h1 hnone hfl
  | @free s s' live B hrun hcall ih =>
      obtain ⟨fl, hi, hc⟩ := ih
      rcases hrun.runInv.freePages_lists hi with
        hhalt | ⟨t, fl', c, k, hok, -, hmerges, hstop, hst, hi'⟩
      · rw [hhalt] at hcall
        cases hcall
      · rw [hok] at hcall
        obtain rfl : t = s' := by simpa using hcall
        rw [handedOut_cons] at hc
        refine ⟨_, hi', ?_⟩
        rw [handedOut_congr hst]
        exact hc.free hmerges fun hlt => (hstop hlt).1

/-! ### The initial blocks -/

/-- The blocks the population loop chooses, seen from the end of the managed pages. -/
structure InitBlocks (n : Nat) (fl : Nat → List Nat) : Prop where
  dvd : ∀ o ≤ maxOrder, ∀ h ∈ fl o, 2 ^ o ∣ n - h
  largest : ∀ o ≤ maxOrder, ∀ h ∈ fl o, ∀ j ≤ maxOrder, 2 ^ j ∣ n - h → j ≤ o

/-- `USER_END` is a multiple of the largest block, so a page is as aligned as the number of pages
behind it. -/
theorem page_dvd_iff {base n h j : Nat} (htop : base + n * pageSize = userEnd) (hh : h ≤ n)
    (hj : j ≤ maxOrder) : 2 ^ (12 + j) ∣ base + h * pageSize ↔ 2 ^ j ∣ n - h := by
  have hsum : base + h * pageSize + (n - h) * pageSize = userEnd := by
    rw [← htop, Nat.add_assoc, ← Nat.add_mul, Nat.add_sub_cancel' hh]
  have hend : 2 ^ (12 + j) ∣ userEnd :=
    (Nat.pow_dvd_pow 2 (show 12 + j ≤ 22 by simp only [maxOrder] at hj; omega)).trans (by decide)
  have hscale : 2 ^ (12 + j) ∣ (n - h) * pageSize ↔ 2 ^ j ∣ n - h := by
    rw [show pageSize = 2 ^ 12 by norm_num, Nat.pow_add, Nat.mul_comm (n - h)]
    exact Nat.mul_dvd_mul_iff_left (Nat.two_pow_pos 12)
  rw [← hscale]
  constructor
  · intro hd
    rw [← hsum] at hend
    exact (Nat.dvd_add_right hd).mp hend
  · intro hd
    rw [← hsum] at hend
    exact (Nat.dvd_add_left hd).mp hend

theorem FiledByInit.initBlocks {base : Nat} (hf : FiledByInit base fl) (hi : BuddyInv s fl 0 0)
    (htop : base + s.numPages * pageSize = userEnd) (hpage : pageSize ∣ base) :
    InitBlocks s.numPages fl := by
  have hdvd : ∀ h, pageSize ∣ base + h * pageSize := fun h =>
    Nat.dvd_add hpage (Nat.dvd_mul_left _ _)
  refine ⟨?_, ?_⟩
  · intro o ho h hh
    have hlt := hi.free_lt ho hh
    have hd : 2 ^ (12 + initOrder (base + h * pageSize) userEnd maxOrder) ∣ base + h * pageSize :=
      initOrder_dvd (hdvd h) maxOrder
    rw [hf o ho h hh] at hd
    exact (page_dvd_iff htop hlt.le ho).mp hd
  · intro o ho h hh j hj hd
    have hlt := hi.free_lt ho hh
    have hle : 2 ^ j ≤ s.numPages - h := Nat.le_of_dvd (by omega) hd
    have hfit : base + h * pageSize + (pageSize <<< j) ≤ userEnd := by
      have hmul : (h + 2 ^ j) * pageSize ≤ s.numPages * pageSize :=
        Nat.mul_le_mul_right _ (by omega)
      rw [Nat.add_mul, Nat.mul_comm (2 ^ j)] at hmul
      rw [Nat.shiftLeft_eq, ← htop]
      omega
    have := le_initOrder (Nat.le_refl userEnd) ((page_dvd_iff htop hlt.le hj).mpr hd) hfit maxOrder hj
    rwa [hf o ho h hh] at this

/-- What is known of a boot. -/
theorem exists_initBlocks {kp : Nat} (hinit : buddyAllocatorInit L m = .ok (kp, s)) :
    s.buddyBasePhys + s.numPages * pageSize = userEnd ∧
      ∃ fl, BuddyInv s fl 0 0 ∧ InitBlocks s.numPages fl := by
  rcases Nat.lt_or_ge userEnd (L.kernelEnd + pageSize) with hL | hL
  · rw [buddyAllocatorInit_diverge hL] at hinit
    cases hinit
  · obtain ⟨t, fl, ht, hi, hst, -, hf⟩ := buddyAllocatorInit_spec hL m
    rw [ht] at hinit
    obtain ⟨-, rfl⟩ : initTable L = kp ∧ t = s := by simpa using hinit
    obtain ⟨-, hle, hmod, -, -⟩ := initBase_bounds hL
    have htop : initBase L + t.numPages * pageSize = userEnd := by
      rw [hst.numPages]
      show initBase L + (userEnd - initBase L) / pageSize * pageSize = userEnd
      simp only [userEnd, pageSize] at hle hmod ⊢
      omega
    refine ⟨?_, fl, hi, hf.initBlocks hi htop (Nat.dvd_of_mod_eq_zero hmod)⟩
    rw [hst.base]
    exact htop

/-! ### Where the blocks fit -/

theorem tiling_filed (hi : BuddyInv s fl 0 0) : IsTiling s.numPages (filed maxOrder fl) := by
  have := hi.tiling
  rwa [Buddy.allBlocks, zero_add, zero_add] at this

/-- Blocks of order `k` fit: no larger one has room, and they fill the pages. -/
structure Fits (n k : Nat) : Prop where
  le : k ≤ maxOrder
  dvd : 2 ^ k ∣ n
  top : k = maxOrder ∨ n = 2 ^ k

theorem Fits.order_le {k : Nat} (hk : Fits s.numPages k) (hi : BuddyInv s fl 0 0) {o h : Nat}
    (ho : o ≤ maxOrder) (hh : h ∈ fl o) : o ≤ k := by
  rcases hk.top with rfl | hn
  · exact ho
  · have hmem : (h, o) ∈ filed maxOrder fl := (mem_filed (B := (h, o))).mpr ⟨ho, hh⟩
    have hend : h + 2 ^ o ≤ s.numPages := (tiling_filed hi).end_le hmem
    refine (Nat.pow_le_pow_iff_right (by norm_num : 1 < 2)).mp ?_
    omega

theorem InitBlocks.uniform {k : Nat} (hb : InitBlocks s.numPages fl) (hi : BuddyInv s fl 0 0)
    (hk : Fits s.numPages k) : ∀ h, ∀ o ≤ maxOrder, h ∈ fl o → o = k ∧ 2 ^ k ∣ h := by
  intro h
  -- the block before a block ends on a multiple of the size
  induction h using Nat.strong_induction_on with
  | _ h ih =>
      intro o ho hh
      have hd : 2 ^ k ∣ h := by
        rcases Nat.eq_zero_or_pos h with rfl | hpos
        · exact Nat.dvd_zero _
        · have hmem : (h, o) ∈ filed maxOrder fl := (mem_filed (B := (h, o))).mpr ⟨ho, hh⟩
          obtain ⟨⟨c, j⟩, hC, hbefore⟩ := (tiling_filed hi).exists_before hmem hpos
          obtain ⟨hj, hc⟩ := mem_filed.mp hC
          simp only at hbefore hj hc
          have hcpos := Nat.two_pow_pos j
          obtain ⟨rfl, hcd⟩ := ih c (by omega) j hj hc
          rw [← hbefore]
          exact Nat.dvd_add hcd (Nat.dvd_refl _)
      have hdn : 2 ^ k ∣ s.numPages - h := Nat.dvd_sub hk.dvd hd
      exact ⟨Nat.le_antisymm (hk.order_le hi ho hh) (hb.largest o ho h hh k hk.le hdn), hd⟩

theorem InitBlocks.coalesced {k : Nat} (hb : InitBlocks s.numPages fl) (hi : BuddyInv s fl 0 0)
    (hk : Fits s.numPages k) : Coalesced fl 0 where
  freeDvd o ho h hh := by
    obtain ⟨rfl, hd⟩ := hb.uniform hi hk h o ho hh
    exact hd
  liveDvd B hB := absurd hB (Multiset.notMem_zero B)
  apart o ho h hh hmem := by
    obtain ⟨rfl, hd⟩ := hb.uniform hi hk h o ho.le hh
    rcases hk.top with rfl | hn
    · exact Nat.lt_irrefl _ ho
    · -- the only block has no buddy
      have h1 := hi.free_lt ho.le hh
      have h2 := hi.free_lt ho.le hmem
      rw [hn] at h1 h2
      have hz : h = 0 := Nat.eq_zero_of_dvd_of_lt hd h1
      rw [hz, Nat.zero_xor] at h2
      exact Nat.lt_irrefl _ h2

/-- With nothing handed out, coalesced lists hold the blocks of the one order that fits. -/
theorem Coalesced.mem_iff {k : Nat} (hc : Coalesced fl 0) (hi : BuddyInv s fl 0 0)
    (hk : Fits s.numPages k) {o h : Nat} (ho : o ≤ maxOrder) :
    h ∈ fl o ↔ o = k ∧ 2 ^ k ∣ h ∧ h < s.numPages := by
  have ht := tiling_filed hi
  have hal : ∀ B ∈ filed maxOrder fl, 2 ^ B.2 ∣ B.1 := by
    intro B hB
    obtain ⟨hle, hmem⟩ := mem_filed.mp hB
    exact hc.freeDvd B.2 hle B.1 hmem
  have hall : ∀ B ∈ filed maxOrder fl, B.2 = k := by
    refine ht.uniform hal ?_ hk.dvd ?_
    · intro B hB
      obtain ⟨hle, hmem⟩ := mem_filed.mp hB
      exact hk.order_le hi hle hmem
    · intro B hB hlt hbuddy
      obtain ⟨-, hmem⟩ := mem_filed.mp hB
      obtain ⟨-, hmem'⟩ := mem_filed.mp hbuddy
      exact hc.apart B.2 (Nat.lt_of_lt_of_le hlt hk.le) B.1 hmem hmem'
  rw [← ht.uniform_mem hal hall h o, mem_filed]
  exact ⟨fun hh => ⟨ho, hh⟩, And.right⟩

theorem AllocRun.numPages_eq {kp : Nat} {s₀ : Mm} (hinit : buddyAllocatorInit L m = .ok (kp, s₀))
    (hrun : AllocRun L m s live) : s.numPages = s₀.numPages := by
  induction hrun with
  | init v h =>
      rw [hinit] at h
      obtain ⟨-, rfl⟩ := Prod.mk.inj (Except.ok.inj h)
      rfl
  | @alloc s s' live order a hrun ho hcall ih =>
      obtain ⟨fl, hi⟩ := hrun.runInv.inv
      rcases hrun.runInv.allocPages_lists hi ho with
        ⟨hnull, -⟩ | ⟨_, _, _, _, t', -, -, -, -, hok, -, hst, -, -⟩
      · rw [hnull] at hcall
        obtain ⟨-, rfl⟩ := Prod.mk.inj (Except.ok.inj hcall)
        exact ih
      · rw [hok] at hcall
        obtain ⟨-, rfl⟩ := Prod.mk.inj (Except.ok.inj hcall)
        exact hst.numPages.trans ih
  | @free s s' live B hrun hcall ih =>
      obtain ⟨fl, hi⟩ := hrun.runInv.inv
      rcases hrun.runInv.freePages_lists hi with hhalt | ⟨t, _, _, _, hok, -, -, -, hst, -⟩
      · rw [hhalt] at hcall
        cases hcall
      · rw [hok] at hcall
        obtain rfl := Except.ok.inj hcall
        exact hst.numPages.trans ih

/-- Where the blocks fit, freeing everything brings the initial blocks back. -/
theorem AllocRun.free_lists_eq {kp k : Nat} {s₀ : Mm}
    (hinit : buddyAllocatorInit L m = .ok (kp, s₀)) (hk : Fits s₀.numPages k)
    (hrun : AllocRun L m s 0) {o : Nat} (ho : o ≤ maxOrder) (h : Nat) :
    OnFreeList s o h ↔ OnFreeList s₀ o h := by
  obtain ⟨-, fl₀, hi₀, hb⟩ := exists_initBlocks hinit
  have hcoal : ∀ kp t, buddyAllocatorInit L m = .ok (kp, t) →
      ∃ fl, BuddyInv t fl 0 0 ∧ Coalesced fl 0 := by
    intro kp' t ht
    rw [hinit] at ht
    obtain ⟨-, rfl⟩ := Prod.mk.inj (Except.ok.inj ht)
    exact ⟨fl₀, hi₀, hb.coalesced hi₀ hk⟩
  obtain ⟨fl, hi, hc⟩ := hrun.coalesced hcoal
  have hn := hrun.numPages_eq hinit
  rw [onFreeList_iff hi ho, onFreeList_iff hi₀ ho, hc.mem_iff hi (hn ▸ hk) ho,
    (hb.coalesced hi₀ hk).mem_iff hi₀ hk ho, hn]

/-! ### Where they do not fit -/

/-- The pages are an odd number of blocks of order `t`, and more than one. -/
structure Unfit (n t : Nat) : Prop where
  lt : t < maxOrder
  rem : n % 2 ^ (t + 1) = 2 ^ t
  more : 2 ^ t < n

theorem fits_or_unfit (n : Nat) : (∃ k, Fits n k) ∨ ∃ t, Unfit n t := by
  by_cases hd : 2 ^ maxOrder ∣ n
  · exact Or.inl ⟨maxOrder, Nat.le_refl _, hd, Or.inl rfl⟩
  · have hne : n ≠ 0 := by
      rintro rfl
      exact hd (Nat.dvd_zero _)
    obtain ⟨t, q, ⟨r, rfl⟩, rfl⟩ := Nat.exists_eq_two_pow_mul_odd hne
    have ht : t < maxOrder := by
      by_contra hle
      exact hd (Dvd.dvd.mul_right (Nat.pow_dvd_pow 2 (Nat.not_lt.mp hle)) _)
    have hpos := Nat.two_pow_pos t
    rcases Nat.eq_zero_or_pos r with rfl | hr
    · exact Or.inl ⟨t, ht.le, Nat.dvd_mul_right _ _, Or.inr (by simp)⟩
    · refine Or.inr ⟨t, ht, ?_, ?_⟩
      · have heq : 2 ^ t * (2 * r + 1) = 2 ^ t + 2 ^ (t + 1) * r := by ring
        rw [heq, Nat.add_mul_mod_self_left]
        exact Nat.mod_eq_of_lt (Nat.pow_lt_pow_right (by norm_num) (Nat.lt_succ_self t))
      · exact (Nat.lt_mul_iff_one_lt_right hpos).mpr (by omega)

theorem exists_fits_iff {n : Nat} : (∃ k, Fits n k) ↔ 2 ^ maxOrder ∣ n ∨ ∃ t, n = 2 ^ t := by
  constructor
  · rintro ⟨k, -, hd, rfl | hn⟩
    · exact Or.inl hd
    · exact Or.inr ⟨k, hn⟩
  · rintro (hd | ⟨t, rfl⟩)
    · exact ⟨maxOrder, Nat.le_refl _, hd, Or.inl rfl⟩
    · rcases Nat.le_total t maxOrder with hle | hge
      · exact ⟨t, hle, Nat.dvd_refl _, Or.inr rfl⟩
      · exact ⟨maxOrder, Nat.le_refl _, Nat.pow_dvd_pow 2 hge, Or.inl rfl⟩

namespace InitBlocks

variable {t : Nat}

/-- There is one block of order `t`, at the base.  The others are larger, and start in the middle
of a pair. -/
theorem unfit (hb : InitBlocks s.numPages fl) (hi : BuddyInv s fl 0 0) (hu : Unfit s.numPages t) :
    ∀ h, ∀ o ≤ maxOrder, h ∈ fl o → (h = 0 ∧ o = t) ∨ (h % 2 ^ (t + 1) = 2 ^ t ∧ t < o) := by
  have hpos := Nat.two_pow_pos t
  have ht := hu.lt
  have hrem := hu.rem
  intro h
  induction h using Nat.strong_induction_on with
  | _ h ih =>
      intro o ho hh
      rcases Nat.eq_zero_or_pos h with rfl | hhpos
      · refine Or.inl ⟨rfl, Nat.le_antisymm ?_ ?_⟩
        · by_contra hlt
          have hd := (Nat.pow_dvd_pow 2 (show t + 1 ≤ o by omega)).trans (hb.dvd o ho 0 hh)
          rw [Nat.sub_zero] at hd
          rw [Nat.mod_eq_zero_of_dvd hd] at hrem
          omega
        · refine hb.largest o ho 0 hh t ht.le ?_
          rw [Nat.sub_zero, ← Nat.div_add_mod s.numPages (2 ^ (t + 1)), hrem]
          exact Nat.dvd_add (Dvd.dvd.mul_right (Nat.pow_dvd_pow 2 (Nat.le_succ t)) _) (Nat.dvd_refl _)
      · have hmem : (h, o) ∈ filed maxOrder fl := (mem_filed (B := (h, o))).mpr ⟨ho, hh⟩
        obtain ⟨⟨c, j⟩, hC, hbefore⟩ := (tiling_filed hi).exists_before hmem hhpos
        obtain ⟨hj, hc⟩ := mem_filed.mp hC
        simp only at hbefore hj hc
        have hjpos := Nat.two_pow_pos j
        have hmod : h % 2 ^ (t + 1) = 2 ^ t := by
          rw [← hbefore]
          rcases ih c (by omega) j hj hc with ⟨rfl, rfl⟩ | ⟨hcm, hlt⟩
          · rw [Nat.zero_add]
            exact Nat.mod_eq_of_lt (Nat.pow_lt_pow_right (by norm_num) (Nat.lt_succ_self j))
          · have hz : 2 ^ j % 2 ^ (t + 1) = 0 := Nat.mod_eq_zero_of_dvd (Nat.pow_dvd_pow 2 hlt)
            rw [Nat.add_mod, hz, Nat.add_zero, Nat.mod_mod, hcm]
        refine Or.inr ⟨hmod, ?_⟩
        refine hb.largest o ho h hh (t + 1) ht ?_
        exact Nat.dvd_of_mod_eq_zero (Nat.sub_mod_eq_zero_of_mod_eq (hrem.trans hmod.symm))

/-- The list of order `t` holds the one block at the base. -/
theorem mem_unfit (hb : InitBlocks s.numPages fl) (hi : BuddyInv s fl 0 0) (hu : Unfit s.numPages t)
    (h : Nat) : h ∈ fl t ↔ h = 0 := by
  constructor
  · intro hh
    rcases hb.unfit hi hu h t hu.lt.le hh with ⟨hz, -⟩ | ⟨-, hlt⟩
    · exact hz
    · exact absurd hlt (Nat.lt_irrefl t)
  · rintro rfl
    have hn : 0 < s.numPages := (Nat.two_pow_pos t).trans hu.more
    obtain ⟨⟨c, j⟩, hC, hcov⟩ := (tiling_filed hi).exists_covers hn
    obtain ⟨hj, hc⟩ := mem_filed.mp hC
    obtain rfl : c = 0 := Nat.le_zero.mp hcov.1
    rcases hb.unfit hi hu 0 j hj hc with ⟨-, rfl⟩ | ⟨hz, -⟩
    · exact hc
    · rw [Nat.zero_mod] at hz
      exact absurd hz.symm (Nat.two_pow_pos t).ne'

/-- There is a larger block as well. -/
theorem exists_larger (hb : InitBlocks s.numPages fl) (hi : BuddyInv s fl 0 0)
    (hu : Unfit s.numPages t) : ∃ o ≤ maxOrder, t < o ∧ fl o ≠ [] := by
  obtain ⟨⟨c, j⟩, hC, hcov⟩ := (tiling_filed hi).exists_covers hu.more
  obtain ⟨hj, hc⟩ := mem_filed.mp hC
  rcases hb.unfit hi hu c j hj hc with ⟨rfl, rfl⟩ | ⟨-, hlt⟩
  · have hcov2 : 2 ^ j < 0 + 2 ^ j := hcov.2
    omega
  · exact ⟨j, hj, hlt, List.ne_nil_of_mem hc⟩

end InitBlocks

/-- A first request for order `t` gets the block at the base. -/
theorem exists_oneTaken {kp t : Nat} {s₀ : Mm} {fl₀ : Nat → List Nat}
    (hinit : buddyAllocatorInit L m = .ok (kp, s₀)) (hi₀ : BuddyInv s₀ fl₀ 0 0)
    (ht : t ≤ maxOrder) (hmem : ∀ h, h ∈ fl₀ t ↔ h = 0) :
    ∃ s a, AllocRun L m s ((a, t) ::ₘ 0) ∧ SameStatics { s₀ with vaOffset := vaOffsetConst } s ∧
      s.pageIdx a = 0 ∧
      BuddyInv s (Function.update fl₀ t []) (handedOut s ((a, t) ::ₘ 0)) 0 := by
  have hzero : 0 ∈ fl₀ t := (hmem 0).mpr rfl
  have hrun := AllocRun.init vaOffsetConst hinit
  have hinv : BuddyInv { s₀ with vaOffset := vaOffsetConst } fl₀
      (handedOut { s₀ with vaOffset := vaOffsetConst } 0) 0 := hi₀
  rcases hrun.runInv.allocPages_lists hinv ht with
    ⟨-, hnone⟩ | ⟨o, h, r, a, s, hle, -, hnone, hfl, hcall, hne, hst, hidx, hi⟩
  · rw [hnone t (Nat.le_refl t) ht] at hzero
    cases hzero
  · obtain rfl : t = o := by
      by_contra hto
      rw [hnone t (Nat.le_refl t) (by omega)] at hzero
      cases hzero
    obtain rfl : h = 0 := (hmem h).mp (by rw [hfl]; exact List.mem_cons_self)
    obtain rfl : r = [] := by
      have hnd := hi₀.nodup ht
      rw [hfl] at hnd
      refine List.eq_nil_iff_forall_not_mem.mpr fun x hx => ?_
      obtain rfl : x = 0 := (hmem x).mp (by rw [hfl]; exact List.mem_cons_of_mem 0 hx)
      exact (List.nodup_cons.mp hnd).1 hx
    rw [Nat.sub_self, Buddy.splitLists] at hi
    have hrun' := hrun.alloc ht hcall
    rw [if_neg hne] at hrun'
    refine ⟨s, a, hrun', hst, ?_, hi⟩
    rw [pageIdx_congr hst]
    exact hidx

/-- Two blocks of order `t` have been handed out: the one at the base, at `a`, and the lower part of
a larger one, page `h` at address `b`. -/
structure TwoTaken (L : Layout) (m : Nat → UInt8) (s₀ s : Mm) (t a b h : Nat) (fl : Nat → List Nat) :
    Prop where
  run : AllocRun L m s ((b, t) ::ₘ (a, t) ::ₘ 0)
  inv : BuddyInv s fl (handedOut s ((b, t) ::ₘ (a, t) ::ₘ 0)) 0
  numPages : s.numPages = s₀.numPages
  base : s.pageIdx a = 0
  head : s.pageIdx b = h
  rem : h % 2 ^ (t + 1) = 2 ^ t
  list : ∀ x, x ∈ fl t ↔ x = h + 2 ^ t
  above : ∀ x ∈ fl (t + 1), x % 2 ^ (t + 1) = 2 ^ t

/-- A second request splits a larger block. -/
theorem exists_twoTaken {kp t : Nat} {s₀ : Mm} {fl₀ : Nat → List Nat}
    (hinit : buddyAllocatorInit L m = .ok (kp, s₀)) (hi₀ : BuddyInv s₀ fl₀ 0 0)
    (hb : InitBlocks s₀.numPages fl₀) (hu : Unfit s₀.numPages t) :
    ∃ s a b h fl, TwoTaken L m s₀ s t a b h fl := by
  have ht := hu.lt
  obtain ⟨s₁, a, hrun₁, hst₁, hidx₁, hi₁⟩ :=
    exists_oneTaken hinit hi₀ ht.le (hb.mem_unfit hi₀ hu)
  set fl₁ := Function.update fl₀ t [] with hfl₁
  have hself : fl₁ t = [] := Function.update_self ..
  have hother : ∀ x, x ≠ t → fl₁ x = fl₀ x := fun x hx => Function.update_of_ne hx ..
  rcases hrun₁.runInv.allocPages_lists hi₁ ht.le with
    ⟨-, hnone⟩ | ⟨o, h, r, b, s, hle, ho, -, hfl, hcall, hne, hst, hidx, hi⟩
  · obtain ⟨j, hj, hlt, hnil⟩ := hb.exists_larger hi₀ hu
    refine absurd ?_ hnil
    rw [← hother j hlt.ne']
    exact hnone j hlt.le hj
  · have hto : t < o := by
      refine Nat.lt_of_le_of_ne hle ?_
      rintro rfl
      rw [hself] at hfl
      cases hfl
    have hrem : h % 2 ^ (t + 1) = 2 ^ t := by
      have hmem : h ∈ fl₀ o := by
        rw [← hother o hto.ne', hfl]
        exact List.mem_cons_self
      rcases hb.unfit hi₀ hu h o ho hmem with ⟨-, rfl⟩ | ⟨hrem, -⟩
      · exact absurd hto (Nat.lt_irrefl _)
      · exact hrem
    have hsub : ∀ x, Function.update fl₁ o r x ⊆ fl₁ x := update_tail_subset hfl
    have hrun := hrun₁.alloc ht.le hcall
    rw [if_neg hne] at hrun
    refine ⟨s, a, b, h, _, hrun, hi, hst.numPages.trans hst₁.numPages, ?_, ?_, hrem, ?_, ?_⟩
    · rw [pageIdx_congr hst]
      exact hidx₁
    · rw [pageIdx_congr hst]
      exact hidx
    · intro x
      rw [Buddy.mem_splitLists]
      constructor
      · rintro (⟨-, -, hx⟩ | hx)
        · exact hx
        · have hnil := hsub t hx
          rw [hself] at hnil
          cases hnil
      · exact fun hx => Or.inl ⟨Nat.le_refl t, by omega, hx⟩
    · intro x hx
      rcases Buddy.mem_splitLists.mp hx with ⟨-, -, rfl⟩ | hx
      · rw [Nat.add_mod_right]
        exact hrem
      · have hx₀ := hsub _ hx
        rw [hother _ (Nat.succ_ne_self t)] at hx₀
        rcases hb.unfit hi₀ hu x (t + 1) ht hx₀ with ⟨-, hbad⟩ | ⟨hx, -⟩
        · exact absurd hbad (Nat.succ_ne_self t)
        · exact hx

/-- Giving back the split block leaves it on its list: its buddy is part of another one. -/
theorem TwoTaken.freeSplit {t a b h : Nat} {s₀ : Mm} (htt : TwoTaken L m s₀ s t a b h fl)
    (ht : t < maxOrder) :
    ∃ s', AllocRun L m s' ((a, t) ::ₘ 0) ∧ SameStatics s s' ∧
      BuddyInv s' (Function.update fl t (h :: fl t)) (handedOut s' ((a, t) ::ₘ 0)) 0 := by
  have hpos := Nat.two_pow_pos t
  have hodd : h / 2 ^ t % 2 = 1 := by
    rw [← Nat.mod_mul_right_div_self, ← Nat.pow_succ, htt.rem, Nat.div_self hpos]
  have hbuddy : h ^^^ 2 ^ t = h - 2 ^ t := xor_of_upper hodd
  have hlt : h < s.numPages := by
    have := htt.inv.free_lt ht.le ((htt.list (h + 2 ^ t)).mpr rfl)
    omega
  obtain ⟨s', hcall, hst, hi⟩ := htt.run.runInv.freePages_of_merges htt.inv ht.le
    (by rw [htt.head]; exact Buddy.Merges.refl fl (h, t)) fun _ => by
      rw [hbuddy, htt.list]
      omega
  exact ⟨s', htt.run.free hcall, hst, hi⟩

/-- Giving back the block at the base merges it with the split block at most. -/
theorem TwoTaken.freeBase {t a b h : Nat} {s₀ : Mm} (htt : TwoTaken L m s₀ s t a b h fl)
    (hu : Unfit s₀.numPages t) : ∃ s', AllocRun L m s' 0 ∧ OnFreeList s' t (h + 2 ^ t) := by
  have ht := hu.lt
  have hpos := Nat.two_pow_pos t
  have hin : h + 2 ^ t ∈ fl t := (htt.list _).mpr rfl
  have hlt : h + 2 ^ t < s.numPages := htt.inv.free_lt ht.le hin
  have hhpos : 0 < h := by
    refine Nat.pos_of_ne_zero ?_
    rintro rfl
    have hrem := htt.rem
    rw [Nat.zero_mod] at hrem
    omega
  obtain ⟨s₁, hrun₁, hst₁, hi₁⟩ := htt.freeSplit ht
  have hidx₁ : s₁.pageIdx a = 0 := (pageIdx_congr hst₁ a).trans htt.base
  have hnum₁ := hst₁.numPages
  have hmore : 2 ^ t < s.numPages := htt.numPages ▸ hu.more
  set fl₁ := Function.update fl t (h :: fl t) with hfl₁
  have hself : fl₁ t = h :: fl t := Function.update_self ..
  have hother : fl₁ (t + 1) = fl (t + 1) := Function.update_of_ne (Nat.succ_ne_self t) ..
  by_cases hh : h = 2 ^ t
  · -- the split block is the buddy, and the union has none
    have hmem : 0 ^^^ 2 ^ t ∈ fl₁ t := by
      rw [Nat.zero_xor, hself, hh]
      exact List.mem_cons_self
    have hpair : pairHead 0 t = 0 := by simp [pairHead]
    have hmerges := Buddy.Merges.step ht hmem (Buddy.Merges.refl _ _)
    rw [hpair] at hmerges
    obtain ⟨s₂, hcall, -, hi₂⟩ := hrun₁.runInv.freePages_of_merges hi₁ (show t + 1 ≤ maxOrder from ht)
      (by rw [hidx₁]; exact hmerges) fun _ => by
        rw [Function.update_of_ne (Nat.succ_ne_self t), hother, Nat.zero_xor]
        refine ⟨fun hbad => ?_, ?_⟩
        · have hrem := htt.above _ hbad
          rw [Nat.mod_self] at hrem
          omega
        · rw [hnum₁, Nat.pow_succ]
          omega
    refine ⟨s₂, hrun₁.free hcall, (onFreeList_iff hi₂ ht.le).mpr ?_⟩
    rw [Function.update_of_ne (Nat.succ_ne_self t).symm, Function.update_self, hself, Nat.zero_xor,
      ← hh, List.erase_cons_head]
    rw [← hh] at hin
    exact hin
  · obtain ⟨s₂, hcall, -, hi₂⟩ := hrun₁.runInv.freePages_of_merges hi₁ ht.le
      (by rw [hidx₁]; exact Buddy.Merges.refl fl₁ (0, t)) fun _ => by
        rw [Nat.zero_xor, hnum₁]
        refine ⟨fun hbad => ?_, hmore⟩
        rw [hself] at hbad
        rcases List.mem_cons.mp hbad with hbad | hbad
        · exact hh hbad.symm
        · have := (htt.list _).mp hbad
          omega
    refine ⟨s₂, hrun₁.free hcall, (onFreeList_iff hi₂ ht.le).mpr ?_⟩
    rw [Function.update_self, hself]
    exact List.mem_cons_of_mem 0 (List.mem_cons_of_mem h hin)

/-- Where the blocks do not fit, some run ends with other free blocks than it started with. -/
theorem exists_other_block {kp t : Nat} {s₀ : Mm} (hinit : buddyAllocatorInit L m = .ok (kp, s₀))
    (hu : Unfit s₀.numPages t) :
    ∃ s h, AllocRun L m s 0 ∧ OnFreeList s t h ∧ ¬OnFreeList s₀ t h := by
  obtain ⟨-, fl₀, hi₀, hb⟩ := exists_initBlocks hinit
  obtain ⟨s, a, b, h, fl, htt⟩ := exists_twoTaken hinit hi₀ hb hu
  obtain ⟨s', hrun, hfree⟩ := htt.freeBase hu
  refine ⟨s', h + 2 ^ t, hrun, hfree, ?_⟩
  rw [onFreeList_iff hi₀ hu.lt.le, hb.mem_unfit hi₀ hu]
  have hpos := Nat.two_pow_pos t
  omega

/-! ### Requests -/

/-- A request for `order` gets a block. -/
def Succeeds (s : Mm) (order : Nat) : Prop := ∃ a s', s.allocPages order = .ok (a, s') ∧ a ≠ 0

/-- It does if there is a block that is large enough. -/
theorem RunInv.succeeds_iff (hi : RunInv s live) {order : Nat} (ho : order ≤ maxOrder) :
    Succeeds s order ↔ ∃ o, order ≤ o ∧ o ≤ maxOrder ∧ ∃ h, OnFreeList s o h := by
  obtain ⟨fl, hinv⟩ := hi.inv
  rcases hi.allocPages_lists hinv ho with
    ⟨hnull, hnone⟩ | ⟨o, h, r, a, s', h1, h2, -, hfl, hcall, hne, -, -, -⟩
  · constructor
    · rintro ⟨a, s', hcall, hne⟩
      rw [hnull] at hcall
      obtain ⟨rfl, -⟩ := Prod.mk.inj (Except.ok.inj hcall)
      exact absurd rfl hne
    · rintro ⟨o, h1, h2, h, hfree⟩
      rw [onFreeList_iff hinv h2, hnone o h1 h2] at hfree
      cases hfree
  · refine ⟨fun _ => ⟨o, h1, h2, h, ?_⟩, fun _ => ⟨a, s', hcall, hne⟩⟩
    rw [onFreeList_iff hinv h2, hfl]
    exact List.mem_cons_self

theorem not_succeeds {order : Nat} (ho : maxOrder < order) : ¬Succeeds s order := by
  rintro ⟨a, s', hcall, hne⟩
  rw [allocPages, if_pos ho] at hcall
  obtain ⟨rfl, -⟩ := Prod.mk.inj (Except.ok.inj hcall)
  exact hne rfl

/-! ### The condition -/

/-- In state `s` the free blocks are those of `s₀`, and what could be had then can be had now. -/
structure FreeAgain (s₀ s : Mm) : Prop where
  blocks : ∀ o ≤ maxOrder, ∀ h, OnFreeList s o h ↔ OnFreeList s₀ o h
  request : ∀ order, Succeeds s₀ order → Succeeds s order

theorem freeAgain_of_blocks {s₀ : Mm} {live₀ : Multiset Block} (hi₀ : RunInv s₀ live₀)
    (hi : RunInv s live) (hb : ∀ o ≤ maxOrder, ∀ h, OnFreeList s o h ↔ OnFreeList s₀ o h) :
    FreeAgain s₀ s := by
  refine ⟨hb, fun order hs => ?_⟩
  rcases Nat.lt_or_ge maxOrder order with hlt | hle
  · exact absurd hs (not_succeeds hlt)
  · obtain ⟨o, h1, h2, h, hfree⟩ := (hi₀.succeeds_iff hle).mp hs
    exact (hi.succeeds_iff hle).mpr ⟨o, h1, h2, h, (hb o h2 h).mpr hfree⟩

/-- **Freeing everything brings the initial blocks back**, in every run that gets so far, if and only
if the base is a multiple of the largest block or the pages are one block. -/
theorem buddyAllocatorInit_coalesces_iff {kp : Nat} {s₀ : Mm}
    (hinit : buddyAllocatorInit L m = .ok (kp, s₀)) :
    (∀ s, AllocRun L m s 0 → FreeAgain s₀ s) ↔
      pageSize <<< maxOrder ∣ s₀.buddyBasePhys ∨ ∃ t, s₀.numPages = 2 ^ t := by
  obtain ⟨htop, -⟩ := exists_initBlocks hinit
  have hbase : pageSize <<< maxOrder ∣ s₀.buddyBasePhys ↔ 2 ^ maxOrder ∣ s₀.numPages := by
    have hdvd := page_dvd_iff htop (Nat.zero_le _) (Nat.le_refl maxOrder)
    rw [Nat.zero_mul, Nat.add_zero, Nat.sub_zero] at hdvd
    rw [← hdvd]
    exact Iff.rfl
  rw [hbase, ← exists_fits_iff]
  constructor
  · intro hall
    rcases fits_or_unfit s₀.numPages with hfits | ⟨t, hu⟩
    · exact hfits
    · obtain ⟨s, h, hrun, hfree, hnot⟩ := exists_other_block hinit hu
      exact absurd (((hall s hrun).blocks t hu.lt.le h).mp hfree) hnot
  · rintro ⟨k, hk⟩ s hrun
    refine freeAgain_of_blocks (runInv_init hinit) hrun.runInv fun o ho h => ?_
    exact hrun.free_lists_eq hinit hk ho h

/-- The boot of a small kernel. -/
theorem exists_init_smallLayout :
    ∃ kp s₀, buddyAllocatorInit smallLayout (fun _ => 0) = .ok (kp, s₀) ∧ s₀.numPages = 32623 := by
  obtain ⟨s₀, fl, hs, -, hst, -⟩ := buddyAllocatorInit_spec smallLayout_fits fun _ => 0
  have hnum : (userEnd - initBase smallLayout) / pageSize = 32623 := by decide
  exact ⟨_, s₀, hs, hst.numPages.trans hnum⟩

theorem coalesces_iff_smallLayout :
    ∃ kp s₀, buddyAllocatorInit smallLayout (fun _ => 0) = .ok (kp, s₀) ∧
      ((∀ s, AllocRun smallLayout (fun _ => 0) s 0 → FreeAgain s₀ s) ↔
        pageSize <<< maxOrder ∣ s₀.buddyBasePhys ∨ ∃ t, s₀.numPages = 2 ^ t) := by
  obtain ⟨kp, s₀, hinit, -⟩ := exists_init_smallLayout
  exact ⟨kp, s₀, hinit, buddyAllocatorInit_coalesces_iff hinit⟩

/-- With an odd number of pages, two pages taken and given back leave another page on list 0. -/
theorem other_block_smallLayout :
    ∃ kp s₀ s h, buddyAllocatorInit smallLayout (fun _ => 0) = .ok (kp, s₀) ∧
      AllocRun smallLayout (fun _ => 0) s 0 ∧ OnFreeList s 0 h ∧ ¬OnFreeList s₀ 0 h ∧
      ¬FreeAgain s₀ s := by
  obtain ⟨kp, s₀, hinit, hnum⟩ := exists_init_smallLayout
  have hu : Unfit s₀.numPages 0 := by
    rw [hnum]
    exact ⟨by decide, by decide, by decide⟩
  obtain ⟨s, h, hrun, hfree, hnot⟩ := exists_other_block hinit hu
  refine ⟨kp, s₀, s, h, hinit, hrun, hfree, hnot, fun hagain => ?_⟩
  exact hnot ((hagain.blocks 0 (by decide) h).mp hfree)

end SystemN.Mm
