/-
When `free_pages` comes back.

The merge loop asks `get_page_struct` about the buddy of the block it has in hand, and
that halts on an index past the end.  The buddy's index is the block's with one bit
flipped, and `num_pages` need not be a multiple of anything, so the buddy of a block near
the end may not be there.  Whether the loop gets so far depends on the records of the
buddies below: it goes on only past one that is free and of the same order.  None of the
records it looks at later is changed by the merges before.
-/
import SystemN.Proofs.Mm.Partition

namespace SystemN.Mm

open Tiling

variable {fl : Nat → List Nat} {live : Multiset Block} {s s' : Mm} {c k : Nat}

/-- Record `i` is that of a free block of order `k`. -/
def IsFreeOf (s : Mm) (i k : Nat) : Prop := (s.pages i).isFree = true ∧ (s.pages i).order = k

/-- Every buddy that merging the block at `c` of order `k` gets to is a managed page. -/
def MergesInRange (s : Mm) (c k : Nat) : Prop :=
  ∀ j, k ≤ j → j < maxOrder →
    (∀ i, k ≤ i → i < j → IsFreeOf s (mergedHead c k i ^^^ 2 ^ i) i) →
    mergedHead c k j ^^^ 2 ^ j < s.numPages

theorem mergesInRange_top : MergesInRange s c maxOrder := fun _ h1 h2 _ =>
  absurd h2 (Nat.not_lt.mpr h1)

theorem MergesInRange.first (h : MergesInRange s c k) (hk : k < maxOrder) :
    c ^^^ 2 ^ k < s.numPages := by
  have := h k (Nat.le_refl k) hk fun i h1 h2 => absurd h2 (Nat.not_lt.mpr h1)
  rwa [mergedHead_self] at this

/-- A buddy that cannot be merged with is the last one. -/
theorem mergesInRange_of_stop (hin : c ^^^ 2 ^ k < s.numPages) (hstop : ¬IsFreeOf s (c ^^^ 2 ^ k) k) :
    MergesInRange s c k := by
  intro j hj _ hall
  rcases Nat.eq_or_lt_of_le hj with rfl | hlt
  · rwa [mergedHead_self]
  · have := hall k (Nat.le_refl k) hlt
    rw [mergedHead_self] at this
    exact absurd this hstop

/-- A merge leaves the records alone that the next rounds look at. -/
theorem Merged.isFreeOf_iff {addr' : Nat} (h : Merged s fl live c k addr' s') {j : Nat} (hj : k < j) :
    IsFreeOf s' (mergedHead c k j ^^^ 2 ^ j) j ↔ IsFreeOf s (mergedHead c k j ^^^ 2 ^ j) j := by
  obtain ⟨horder, hfree⟩ := h.records (mergedHead c k j ^^^ 2 ^ j)
  rw [if_neg (mergedHead_xor_ne c hj)] at hfree
  unfold IsFreeOf
  rw [horder, hfree]

theorem Merged.mergesInRange_iff {addr' : Nat} (h : Merged s fl live c k addr' s')
    (hin : c ^^^ 2 ^ k < s.numPages) (hfree : IsFreeOf s (c ^^^ 2 ^ k) k) :
    MergesInRange s c k ↔ MergesInRange s' (pairHead c k) (k + 1) := by
  have hnum := h.statics.numPages
  constructor
  · intro hall j hj hmax hrec
    rw [mergedHead_pairHead c hj, hnum]
    refine hall j (by omega) hmax fun i hi hij => ?_
    rcases Nat.eq_or_lt_of_le hi with rfl | hlt
    · rwa [mergedHead_self]
    · have := hrec i hlt hij
      rw [mergedHead_pairHead c hlt] at this
      exact (h.isFreeOf_iff hlt).mp this
  · intro hall j hj hmax hrec
    rcases Nat.eq_or_lt_of_le hj with rfl | hlt
    · rwa [mergedHead_self]
    · rw [← mergedHead_pairHead c hlt, ← hnum]
      refine hall j hlt hmax fun i hi hij => ?_
      rw [mergedHead_pairHead c hi]
      exact (h.isFreeOf_iff hi).mpr (hrec i (by omega) hij)

/-- **The merge loop** comes back if and only if every buddy it gets to is a managed page. -/
theorem mergeLoop_ok_iff :
    ∀ (m : Nat) (s : Mm) (fl : Nat → List Nat) (addr : Nat), m ≤ maxOrder → Region s →
      addr < 2 ^ 64 → BuddyInv s fl live {(s.pageIdx addr, maxOrder - m)} →
      HeadRec s (s.pageIdx addr) (maxOrder - m) →
      ((∃ r, mergeLoop m addr s = .ok r) ↔ MergesInRange s (s.pageIdx addr) (maxOrder - m)) := by
  intro m
  induction m with
  | zero =>
      intro s fl addr _ _ _ _ _
      exact ⟨fun _ => mergesInRange_top, fun _ => ⟨_, rfl⟩⟩
  | succ m ih =>
      intro s fl addr hm hr haddr hi hhead
      have hk1 : maxOrder - (m + 1) + 1 = maxOrder - m := by omega
      have hkle : maxOrder - (m + 1) ≤ maxOrder := Nat.sub_le _ _
      rcases mergeLoop_step rfl hm hr haddr hi hhead with ⟨hout, hhalt⟩ | ⟨hin, hnot, hstop⟩ |
        ⟨hin, hmem, addr', s₂, hgo, hmerged⟩
      · refine ⟨fun ⟨r, hr⟩ => ?_, fun hall => ?_⟩
        · rw [hhalt] at hr
          cases hr
        · exact absurd (hall.first (by omega)) (Nat.not_lt.mpr hout)
      · refine ⟨fun _ => mergesInRange_of_stop hin fun hfree => ?_, fun _ => ⟨_, hstop⟩⟩
        exact hnot (hi.buddy_mem hfree.1 hfree.2)
      · obtain ⟨horder, hfree⟩ := hi.freeRec _ hkle _ hmem
        have hi₂ := hmerged.inv
        have hhead₂ := hmerged.headRec
        rw [hk1] at hi₂ hhead₂
        rw [hgo, hmerged.mergesInRange_iff hin ⟨hfree, horder⟩, hk1, ← hmerged.head]
        exact ih s₂ _ addr' (by omega) (hr.congr hmerged.statics) hmerged.addr hi₂ hhead₂

/-- **`free_pages`** of a block that is handed out. -/
theorem freePages_ok_iff (hr : Region s) {B : Block} (hi : BuddyInv s fl (B ::ₘ live) 0) {addr : Nat}
    (haddr : addr < 2 ^ 64) (hidx : s.pageIdx addr = B.1) (hne : addr ≠ 0) :
    (∃ s', s.freePages addr = .ok s') ↔ MergesInRange s B.1 B.2 := by
  obtain ⟨hle, s₁, hback, heq⟩ := freePages_start hi hidx hne
  have hk : maxOrder - (maxOrder - B.2) = B.2 := by omega
  have hi₁ := hback.inv
  have hhead₁ := hback.headRec
  rw [← hk] at hi₁ hhead₁
  have hloop := mergeLoop_ok_iff (maxOrder - B.2) s₁ fl addr (Nat.sub_le _ _)
    (hr.congr hback.statics) haddr hi₁ hhead₁
  rw [hk, hback.head] at hloop
  -- the buddies are not the page that is freed
  have hrec : MergesInRange s₁ B.1 B.2 ↔ MergesInRange s B.1 B.2 := by
    have hsame : ∀ i, B.2 ≤ i → (IsFreeOf s₁ (mergedHead B.1 B.2 i ^^^ 2 ^ i) i ↔
        IsFreeOf s (mergedHead B.1 B.2 i ^^^ 2 ^ i) i) := by
      intro i hi
      unfold IsFreeOf
      rw [hback.records _ (mergedHead_xor_ne_self B.1 hi)]
    unfold MergesInRange
    rw [hback.statics.numPages]
    refine forall_congr' fun j => forall_congr' fun hj => forall_congr' fun _ => ?_
    refine imp_congr_left (forall_congr' fun i => forall_congr' fun hi => ?_)
    rw [hsame i hi]
  rw [← hrec, ← hloop, heq]
  constructor
  · rintro ⟨s', hs'⟩
    rw [bind_eq_ok] at hs'
    obtain ⟨r, hr', -⟩ := hs'
    exact ⟨r, hr'⟩
  · rintro ⟨r, hr'⟩
    rcases mergeLoop_spec (maxOrder - B.2) s₁ fl addr (Nat.sub_le _ _) (hr.congr hback.statics)
        haddr hi₁ hhead₁ with hhalt | ⟨a, k, s₂, fl₂, hs₂, -, -, hi₂, -⟩
    · rw [hhalt] at hr'
      cases hr'
    · have hin : s₂.pageIdx a < s₂.numPages :=
        hi₂.tiling.head_lt (Buddy.mem_allBlocks_of_hand (Multiset.mem_singleton_self _))
      rw [hs₂, ok_bind]
      simp only
      rw [getPageStruct_ok hin]
      exact ⟨_, rfl⟩

/-- Where the pages are a multiple of the largest block every merge stays in range. -/
theorem mergesInRange_of_dvd (hdvd : 2 ^ maxOrder ∣ s.numPages) (hc : c < s.numPages) :
    MergesInRange s c k := by
  intro j hkj hj _
  obtain ⟨q, hq⟩ := hdvd
  have hdiv : (mergedHead c k j ^^^ 2 ^ j) / 2 ^ maxOrder = c / 2 ^ maxOrder := by
    obtain ⟨d, hd⟩ := Nat.exists_eq_add_of_le hj.le
    have hsmall : 2 ^ j / 2 ^ maxOrder = 0 := Nat.div_eq_of_lt (Nat.pow_lt_pow_right (by norm_num) hj)
    rw [Nat.xor_div_two_pow, hsmall, Nat.xor_zero, hd, Nat.pow_add, ← Nat.div_div_eq_div_mul,
      ← Nat.div_div_eq_div_mul, mergedHead_div c hkj]
  rw [hq] at hc ⊢
  have hcq : c / 2 ^ maxOrder < q := Nat.div_lt_of_lt_mul hc
  rw [← hdiv, Nat.div_lt_iff_lt_mul (Nat.two_pow_pos maxOrder)] at hcq
  rwa [Nat.mul_comm]

/-! ### Runs -/

theorem RunInv.freePages_ok_iff {live : Multiset (Nat × Nat)} {B : Nat × Nat}
    (hi : RunInv s (B ::ₘ live)) :
    (∃ s', s.freePages B.1 = .ok s') ↔ MergesInRange s (s.pageIdx B.1) B.2 := by
  obtain ⟨fl, hinv⟩ := hi.inv
  obtain ⟨hlt, hne⟩ := hi.addr_lt (Multiset.mem_cons_self B live)
  have hcons : handedOut s (B ::ₘ live) = (s.pageIdx B.1, B.2) ::ₘ handedOut s live :=
    Multiset.map_cons _ _ _
  rw [hcons] at hinv
  exact Mm.freePages_ok_iff hi.region hinv hlt rfl hne

theorem RunInv.freePages_ne_diverge {live : Multiset (Nat × Nat)} {B : Nat × Nat}
    (hi : RunInv s (B ::ₘ live)) : s.freePages B.1 ≠ .error .diverge := by
  obtain ⟨fl, hinv⟩ := hi.inv
  obtain ⟨hlt, hne⟩ := hi.addr_lt (Multiset.mem_cons_self B live)
  have hcons : handedOut s (B ::ₘ live) = (s.pageIdx B.1, B.2) ::ₘ handedOut s live :=
    Multiset.map_cons _ _ _
  rw [hcons] at hinv
  rcases freePages_spec hi.region hinv hlt rfl hne with hhalt | ⟨s', -, hok, -⟩
  · rw [hhalt]
    simp
  · rw [hok]
    simp

/-- **Freeing a live block** always ends, and ends without a halt if and only if no merge of the
loop asks about a page past the end. -/
theorem AllocRun.free_ok_iff {L : Layout} {m : Nat → UInt8} {live : Multiset (Nat × Nat)}
    {B : Nat × Nat} (hrun : AllocRun L m s (B ::ₘ live)) :
    s.freePages B.1 ≠ .error .diverge ∧
      ((∃ s', s.freePages B.1 = .ok s') ↔ MergesInRange s (s.pageIdx B.1) B.2) :=
  ⟨hrun.runInv.freePages_ne_diverge, hrun.runInv.freePages_ok_iff⟩

/-- With a base at a multiple of the largest block nothing halts. -/
theorem AllocRun.free_ok {L : Layout} {m : Nat → UInt8} {live : Multiset (Nat × Nat)}
    {B : Nat × Nat} (hrun : AllocRun L m s (B ::ₘ live)) (hdvd : 2 ^ maxOrder ∣ s.numPages) :
    ∃ s', s.freePages B.1 = .ok s' := by
  rw [hrun.runInv.freePages_ok_iff]
  obtain ⟨h, hlt, haddr⟩ := hrun.runInv.addr B (Multiset.mem_cons_self B live)
  refine mergesInRange_of_dvd hdvd ?_
  rw [haddr, hrun.runInv.region.pageIdx_head hlt]
  exact hlt

/-! ### One page -/

/-- With nothing handed out there is a page to allocate. -/
theorem exists_alloc (hr : Region s) (hi : BuddyInv s fl 0 0) (hn : 0 < s.numPages) :
    ∃ h a s' fl', s.allocPages 0 = .ok (a, s') ∧ Allocated s 0 0 a s' h fl' := by
  rcases allocPages_spec hr hi (Nat.zero_le maxOrder) with ⟨-, hempty⟩ | hsome
  · obtain ⟨B, hB, -⟩ := hi.tiling.exists_covers hn
    have hfree : B ∈ filed maxOrder fl := by simpa [Buddy.allBlocks] using hB
    obtain ⟨ho, hmem⟩ := mem_filed.mp hfree
    have hchain := hi.chain B.2 ho
    rw [hempty B.2 (Nat.zero_le _) ho, Chain.isChain_none] at hchain
    rw [hchain] at hmem
    cases hmem
  · exact hsome

/-- The first page that is allocated. -/
theorem exists_run_page {L : Layout} (hL : L.kernelEnd + pageSize ≤ userEnd) (m : Nat → UInt8)
    (hn : initBase L + pageSize ≤ userEnd) :
    ∃ s a, AllocRun L m s {(a, 0)} ∧ s.numPages = (userEnd - initBase L) / pageSize := by
  obtain ⟨s, fl, hs, hi, hst, -⟩ := buddyAllocatorInit_spec hL m
  have hr := region_of_init hL hst
  have hpos : 0 < s.numPages := by
    rw [hst.numPages]
    exact Nat.div_pos (by omega) (by norm_num)
  have hinit := AllocRun.init vaOffsetConst hs
  obtain ⟨h, a, t, fl', hcall, hall⟩ :=
    exists_alloc (s := { s with vaOffset := vaOffsetConst }) ⟨hr.1, hr.2, hr.3⟩ hi hpos
  have hrun := hinit.alloc (by decide) hcall
  have hne : a ≠ 0 := by
    have hbase : 0 < s.buddyBasePhys := hr.pos
    have haddr : a = s.buddyBasePhys + h * pageSize := hall.addr
    omega
  rw [if_neg hne] at hrun
  exact ⟨t, a, hrun, hall.statics.numPages.trans hst.numPages⟩

theorem free_ok_smallLayout :
    ∃ s a, AllocRun smallLayout (fun _ => 0) s {(a, 0)} ∧ s.freePages a ≠ .error .diverge ∧
      ((∃ s', s.freePages a = .ok s') ↔ MergesInRange s (s.pageIdx a) 0) := by
  obtain ⟨s, a, hrun, -⟩ := exists_run_page smallLayout_fits (fun _ => 0) (by decide)
  have hrun' : AllocRun smallLayout (fun _ => 0) s ((a, 0) ::ₘ 0) := hrun
  exact ⟨s, a, hrun, AllocRun.free_ok_iff hrun'⟩

/-- An image that leaves one page behind `page_array`. -/
def onePageLayout : Layout where
  textEnd := 0x80004000
  rodataEnd := 0x80006000
  kernelEnd := 0x87ffd000
  textStart_le := by decide
  textEnd_le := by decide
  rodataStart_le := by decide
  rodataEnd_le := by decide
  dataStart_le := by decide
  inMemory := by decide

/-- Freeing the only page halts: its buddy would be page 1. -/
theorem free_halts_onePage :
    ∃ s a, AllocRun onePageLayout (fun _ => 0) s {(a, 0)} ∧ s.freePages a = .error .halt := by
  obtain ⟨s, a, hrun, hn⟩ := exists_run_page (L := onePageLayout) (by decide) (fun _ => 0) (by decide)
  have hn1 : s.numPages = 1 := hn.trans (by decide)
  have hi : RunInv s ((a, 0) ::ₘ 0) := hrun.runInv
  obtain ⟨h, hlt, haddr⟩ := hi.addr (a, 0) (Multiset.mem_cons_self _ _)
  obtain rfl : h = 0 := by omega
  refine ⟨s, a, hrun, ?_⟩
  have hnot : ¬∃ s', s.freePages a = .ok s' := by
    intro hok
    have hrange : MergesInRange s (s.pageIdx a) 0 := hi.freePages_ok_iff.mp hok
    have hin := hrange.first (by decide)
    have ha : a = s.buddyBasePhys + 0 * pageSize := haddr
    rw [hn1, ha, hi.region.pageIdx_head hlt] at hin
    exact absurd hin (by decide)
  cases hfree : s.freePages a with
  | ok s' => exact absurd ⟨s', hfree⟩ hnot
  | error e =>
      cases e with
      | halt => rfl
      | diverge => exact absurd hfree hi.freePages_ne_diverge

end SystemN.Mm
