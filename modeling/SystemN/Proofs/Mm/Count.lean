/-
The number of free pages.

A page is free when a block on a free list covers it.  The blocks handed out and the free
ones tile the managed pages, so the two numbers of pages add up to `num_pages`, and the
number of free ones is known from the blocks handed out alone.
-/
import SystemN.Proofs.Mm.Coalesce
import Mathlib.Data.Set.Card

namespace SystemN.Mm

open Tiling Chain

variable {s s' : Mm} {live live' : Multiset (Nat × Nat)}

/-- Page `i` lies in a free block. -/
def FreePage (s : Mm) (i : Nat) : Prop := ∃ o ≤ maxOrder, ∃ h, OnFreeList s o h ∧ Covers i (h, o)

/-- How many pages are free. -/
noncomputable def freeCount (s : Mm) : Nat := {i | FreePage s i}.ncard

theorem freeCount_congr (hpages : s'.pages = s.pages) (hlists : s'.freeLists = s.freeLists) :
    freeCount s' = freeCount s := by
  unfold freeCount FreePage OnFreeList
  rw [hpages, hlists]

/-- The number of pages in these blocks. -/
def pageCount (live : Multiset (Nat × Nat)) : Nat := (live.map fun B => 2 ^ B.2).sum

theorem pageCount_add : pageCount (live + live') = pageCount live + pageCount live' := by
  rw [pageCount, Multiset.map_add, Multiset.sum_add]
  rfl

theorem pageCount_pages (h : ∀ B ∈ live, B.2 = 0) : pageCount live = Multiset.card live := by
  have hone : live.map (fun B => 2 ^ B.2) = Multiset.replicate (Multiset.card live) 1 := by
    rw [Multiset.eq_replicate, Multiset.card_map]
    refine ⟨rfl, fun n hn => ?_⟩
    obtain ⟨B, hB, rfl⟩ := Multiset.mem_map.mp hn
    rw [h B hB, pow_zero]
  rw [pageCount, hone, Multiset.sum_replicate, smul_eq_mul, mul_one]

/-- Pages as blocks of order 0. -/
def pageBlocks (fs : List Nat) : Multiset (Nat × Nat) := ↑(fs.map fun f => (f, 0))

theorem pageBlocks_cons (f : Nat) (fs : List Nat) :
    pageBlocks (f :: fs) = (f, 0) ::ₘ pageBlocks fs := rfl

theorem mem_pageBlocks {fs : List Nat} {B : Nat × Nat} :
    B ∈ pageBlocks fs ↔ B.1 ∈ fs ∧ B.2 = 0 := by
  unfold pageBlocks
  rw [Multiset.mem_coe, List.mem_map]
  constructor
  · rintro ⟨f, hf, rfl⟩
    exact ⟨hf, rfl⟩
  · intro ⟨hf, hzero⟩
    exact ⟨B.1, hf, Prod.ext rfl hzero.symm⟩

theorem pageCount_pageBlocks (fs : List Nat) : pageCount (pageBlocks fs) = fs.length := by
  rw [pageCount_pages fun B hB => (mem_pageBlocks.mp hB).2, pageBlocks, Multiset.coe_card,
    List.length_map]

theorem pageCount_handedOut (s : Mm) (live : Multiset (Nat × Nat)) :
    pageCount (handedOut s live) = pageCount live := by
  rw [pageCount, handedOut, Multiset.map_map]
  rfl

theorem freePage_iff_filed {fl : Nat → List Nat} {out : Multiset Block} (hi : BuddyInv s fl out 0)
    (i : Nat) : FreePage s i ↔ 0 < (filed maxOrder fl).countP (Covers i) := by
  rw [Multiset.countP_pos]
  constructor
  · intro ⟨o, ho, h, hfree, hcov⟩
    exact ⟨(h, o), mem_filed.mpr ⟨ho, (onFreeList_iff hi ho).mp hfree⟩, hcov⟩
  · intro ⟨B, hB, hcov⟩
    obtain ⟨ho, hmem⟩ := mem_filed.mp hB
    exact ⟨B.2, ho, B.1, (onFreeList_iff hi ho).mpr hmem, hcov⟩

/-- Two blocks that are handed out have no page in common. -/
theorem RunInv.cons_disjoint {A B : Nat × Nat} (hi : RunInv s (A ::ₘ live)) (hB : B ∈ live) {i : Nat}
    (hA : Covers i (s.pageIdx A.1, A.2)) : ¬Covers i (s.pageIdx B.1, B.2) := by
  obtain ⟨fl, hinv⟩ := hi.inv
  rw [handedOut_cons] at hinv
  have htiling := hinv.tiling
  rw [Buddy.allBlocks_live] at htiling
  refine htiling.cons_disjoint (Buddy.mem_allBlocks_of_live ?_) hA
  exact Multiset.mem_map_of_mem (fun B => (s.pageIdx B.1, B.2)) hB

/-- No block is handed out twice. -/
theorem RunInv.nodup (hi : RunInv s live) : live.Nodup := by
  rw [Multiset.nodup_iff_ne_cons_cons]
  rintro A rest rfl
  have hcov : Covers (s.pageIdx A.1) (s.pageIdx A.1, A.2) := covers_head _
  exact hi.cons_disjoint (Multiset.mem_cons_self A rest) hcov hcov

/-- A page is free when no block handed out covers it. -/
theorem RunInv.freePage_iff (hi : RunInv s live) {i : Nat} (hlt : i < s.numPages) :
    FreePage s i ↔ ∀ B ∈ live, ¬Covers i (s.pageIdx B.1, B.2) := by
  obtain ⟨fl, hinv⟩ := hi.inv
  have hcount := hinv.tiling i
  rw [Buddy.allBlocks, zero_add, Multiset.countP_add, if_pos hlt] at hcount
  rw [freePage_iff_filed hinv]
  constructor
  · intro hpos B hB hcov
    have hlive : 0 < (handedOut s live).countP (Covers i) :=
      Multiset.countP_pos.mpr ⟨_, Multiset.mem_map_of_mem _ hB, hcov⟩
    omega
  · intro hnone
    have hlive : (handedOut s live).countP (Covers i) = 0 := by
      rw [Multiset.countP_eq_zero]
      intro C hC
      obtain ⟨B, hB, rfl⟩ := Multiset.mem_map.mp hC
      exact hnone B hB
    omega

theorem RunInv.freePage_lt (hi : RunInv s live) {i : Nat} (h : FreePage s i) : i < s.numPages := by
  obtain ⟨fl, hinv⟩ := hi.inv
  obtain ⟨B, hB, hcov⟩ := Multiset.countP_pos.mp ((freePage_iff_filed hinv i).mp h)
  have htiling := hinv.tiling
  rw [Buddy.allBlocks, zero_add] at htiling
  exact lt_of_lt_of_le hcov.2 (htiling.end_le (Multiset.mem_add.mpr (Or.inr hB)))

/-- **Every managed page is free or handed out.** -/
theorem RunInv.freeCount_add (hi : RunInv s live) : freeCount s + pageCount live = s.numPages := by
  obtain ⟨fl, hinv⟩ := hi.inv
  have htiling := hinv.tiling
  rw [Buddy.allBlocks, zero_add] at htiling
  have hle : ∀ B ∈ filed maxOrder fl, B.1 + 2 ^ B.2 ≤ s.numPages :=
    fun B hB => htiling.end_le (Multiset.mem_add.mpr (Or.inr hB))
  have hset : {i | FreePage s i}
      = ((Finset.range s.numPages).filter fun i => 0 < (filed maxOrder fl).countP (Covers i)) := by
    ext i
    refine (freePage_iff_filed hinv i).trans ?_
    rw [Finset.mem_coe, Finset.mem_filter, Finset.mem_range]
    exact ⟨fun hpos => ⟨hi.freePage_lt ((freePage_iff_filed hinv i).mpr hpos), hpos⟩, And.right⟩
  have hone : ∀ i ∈ Finset.range s.numPages, (filed maxOrder fl).countP (Covers i)
      = if 0 < (filed maxOrder fl).countP (Covers i) then 1 else 0 := by
    intro i hi'
    have hcount := htiling i
    rw [Multiset.countP_add, if_pos (Finset.mem_range.mp hi')] at hcount
    split
    · omega
    · omega
  have hfree : freeCount s = pageCount (filed maxOrder fl) := by
    rw [freeCount, hset, Set.ncard_coe_finset, Finset.card_filter, ← Finset.sum_congr rfl hone,
      sum_countP hle, pageCount]
  rw [hfree, ← pageCount_handedOut s live, add_comm, ← pageCount_add]
  exact htiling.sum_size

end SystemN.Mm
