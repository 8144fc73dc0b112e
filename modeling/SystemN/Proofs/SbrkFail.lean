/-
`sys_sbrk` when memory runs out.

The loop that grows the heap returns from the middle: what it has mapped so far stays mapped,
and a frame that `map_page` had no table for stays allocated.  So a call that fails leaves
things as they were in one case only, when there was no page to begin with.

Whether it fails is known before it starts.  It takes a frame for every page and a table for
every path to one of them that the tree does not have, and each of these is one free page.
-/
import SystemN.Proofs.Sbrk

namespace SystemN

open Mm Tiling

variable {ω : Type} [DecidableEq ω] {roots : ω → Option Nat} {o : ω} {s s' : Mm}
  {live : Multiset (Nat × Nat)}

namespace Kernel

/-! ### What the loop takes -/

section Taken

variable {va n f : Nat} {fs lost : List Nat} {tabs : Multiset (Nat × Nat)}

/-- Every frame and every table was a free page. -/
theorem Grown.freeCount (hrun : RunInv s live) (h : Grown roots o va s live fs lost tabs s') :
    Mm.freeCount s' + (fs ++ lost).length + Multiset.card tabs = Mm.freeCount s := by
  have hold := hrun.freeCount_add
  have hnew := h.owned.run.freeCount_add
  rw [h.statics.numPages, pageCount_add, pageCount_add, pageCount_pageBlocks, pageCount_pages h.pages] at hnew
  omega

/-- **Whether the loop comes through** depends on the number of free pages. -/
theorem GrowEnd.ok_iff (hrun : RunInv s live) {ok : Bool} (h : GrowEnd roots o va n s live (ok, s')) :
    ok = true ↔ n + missing s.mem roots o (rangePaths va n) ≤ Mm.freeCount s := by
  have halong := alongRange_rangePaths va n
  cases h with
  | @mapped fs tabs _ hg hn =>
      have hcount := hg.freeCount hrun
      rw [List.append_nil, hn] at hcount
      have hmore := (hg.more _ (halong.mono (by rw [List.append_nil, hn]))).count
      have hnone : missing s'.mem roots o (rangePaths va n) = 0 := by
        rw [missing, Finset.card_eq_zero, Finset.filter_eq_empty_iff]
        intro p hp
        obtain ⟨i, hi, k, hk, rfl⟩ := mem_rangePaths.mp hp
        exact hg.way i (hn.symm ▸ hi) k hk
      exact ⟨fun _ => by omega, fun _ => rfl⟩
  | @noFrame fs tabs _ hg hn hnone _ =>
      have hcount := hg.freeCount hrun
      rw [hg.owned.run.freeCount_of_noPage hnone, List.append_nil] at hcount
      have hmore := (hg.more _ (halong.mono (by rw [List.append_nil]; exact hn.le))).count
      exact ⟨fun hok => absurd hok Bool.false_ne_true, fun hle => by omega⟩
  | @noTable fs f tabs _ hg hn hnone =>
      obtain ⟨hdry, k, hk, hmissing⟩ := hnone
      have hcount := hg.freeCount hrun
      rw [hg.owned.run.freeCount_of_noPage hdry, List.length_append, List.length_singleton] at hcount
      have hmore := (hg.more _ (halong.mono (by rw [List.length_append]; exact hn))).count
      have hpos : 0 < missing s'.mem roots o (rangePaths va n) := by
        rw [missing, Finset.card_pos]
        exact ⟨_, Finset.mem_filter.mpr ⟨halong.mem fs.length hn k hk, hmissing⟩⟩
      exact ⟨fun hok => absurd hok Bool.false_ne_true, fun hle => by omega⟩

/-- The frames that hold data: managed pages that are neither free nor tables. -/
def DataFrame (roots : ω → Option Nat) (s : Mm) (pa : Nat) : Prop :=
  ∃ i < s.numPages, pa = s.buddyBasePhys + i * pageSize ∧ ¬FreePage s i ∧ ¬IsTable s.mem roots pa

/-- A frame the loop has taken is a data frame now, and was none before. -/
theorem Grown.dataFrame (hown : Owned roots s live) (h : Grown roots o va s live fs lost tabs s')
    (hf : f ∈ fs ++ lost) : DataFrame roots s' f ∧ ¬DataFrame roots s f := by
  obtain ⟨rest, hrest⟩ := Multiset.exists_cons_of_mem (mem_pageBlocks.mpr ⟨hf, rfl⟩ : (f, 0) ∈ _)
  have hrun := h.owned.run
  rw [hrest, Multiset.cons_add] at hrun
  have hself := Multiset.mem_cons_self (f, 0) (rest + (tabs + live))
  obtain ⟨i, hi, haddr⟩ := hrun.addr _ hself
  have hidx : s'.pageIdx f = i := by
    rw [show f = _ from haddr]
    exact hrun.region.pageIdx_head hi
  have hcov : Covers i (s'.pageIdx f, 0) := by
    rw [hidx]
    exact covers_head (i, 0)
  have hother : ∀ B ∈ tabs + live, ¬Covers i (s'.pageIdx B.1, B.2) :=
    fun B hB => hrun.cons_disjoint (Multiset.mem_add.mpr (Or.inr hB)) hcov
  constructor
  · refine ⟨i, hi, haddr, fun hfree => ?_, fun htable => ?_⟩
    · exact (hrun.freePage_iff hi).mp hfree _ hself hcov
    · rcases (h.isTable f).mp htable with hold | htab
      · rcases hown.held f hold with hbelow | hlive
        · have hbase := h.statics.base
          simp only [pageSize] at hbelow haddr
          omega
        · exact hother _ (Multiset.mem_add.mpr (Or.inr hlive)) hcov
      · exact hother _ (Multiset.mem_add.mpr (Or.inl htab)) hcov
  · intro ⟨j, hj, haddr', hnotfree, _⟩
    have hij : j = i := by
      rw [← hidx, pageIdx_congr h.statics, haddr']
      exact (hown.run.region.pageIdx_head hj).symm
    subst hij
    apply hnotfree
    rw [hown.run.freePage_iff hj]
    intro B hB hcovB
    refine hother B (Multiset.mem_add.mpr (Or.inr hB)) ?_
    rwa [pageIdx_congr h.statics]

end Taken

/-! ### The call -/

variable {k k' : Kernel} {p size : Nat}

/-- How many pages the heap is to grow by. -/
def sbrkPages (P : Proc) (size : Nat) : Nat := (askedBrk P size - alignUp P.heapEnd) / pageSize

/-- There is a free page for each of them, and for each table that is missing on the way to them. -/
def SbrkFits (roots : ω → Option Nat) (o : ω) (k : Kernel) (p size : Nat) : Prop :=
  sbrkPages (k.procs p) size + missing k.mm.mem roots o
    (rangePaths (alignUp (k.procs p).heapEnd) (sbrkPages (k.procs p) size)) ≤ Mm.freeCount k.mm

/-- What a call that fails should leave as it was. -/
structure Unchanged (roots : ω → Option Nat) (p : Nat) (k k' : Kernel) : Prop where
  heapEnd : (k'.procs p).heapEnd = (k.procs p).heapEnd
  translate : ∀ va, k'.mm.translate (k.procs p).pagetable va = k.mm.translate (k.procs p).pagetable va
  frames : ∀ pa, DataFrame roots k'.mm pa ↔ DataFrame roots k.mm pa

omit [DecidableEq ω] in
theorem Unchanged.refl (roots : ω → Option Nat) (p : Nat) (k : Kernel) : Unchanged roots p k k :=
  ⟨rfl, fun _ => rfl, fun _ => Iff.rfl⟩

/-- The loop of a call that asks for more. -/
theorem grow_cases (h : Owned roots k.mm live) (hroot : roots o = some (k.procs p).pagetable)
    (htaken : ¬Declined k p size) (hpos : isPos (alignUp size) = true) :
    ∃ r, resize (k.procs p).pagetable (alignUp size) (alignUp (k.procs p).heapEnd)
        (askedBrk (k.procs p) size) k.mm = .ok r ∧
      GrowEnd roots o (alignUp (k.procs p).heapEnd) (sbrkPages (k.procs p) size) k.mm live r := by
  unfold Declined at htaken
  push Not at htaken
  obtain ⟨-, -, -, hhigh⟩ := htaken
  have hold := alignUp_mod (k.procs p).heapEnd
  have hadd := alignUp_mod size
  rw [resize, if_pos hpos]
  unfold sbrkPages
  rcases Nat.lt_or_ge (askedBrk (k.procs p) size) (alignUp (k.procs p).heapEnd) with hlt | hle
  · -- the sum has wrapped round
    rw [Nat.sub_eq_zero_of_le hlt.le, Nat.zero_div]
    refine ⟨(true, k.mm), ?_, .mapped (Grown.refl h _) rfl⟩
    rw [growLoop, if_neg (Nat.not_lt.mpr hlt.le)]
    rfl
  · have hend : alignUp (k.procs p).heapEnd + (askedBrk (k.procs p) size
        - alignUp (k.procs p).heapEnd) / pageSize * pageSize = askedBrk (k.procs p) size := by
      unfold askedBrk at *
      simp only [u64, pageSize] at *
      omega
    refine growLoop_cases hroot (lt_of_le_of_lt hhigh (by decide)) h hend ?_
    simp only [userHeapEnd, userStackBase, userEndVa, userStackSize, pageSize, pageRounds] at *
    omega

/-- The result of a call that moves the end of the heap is no -1. -/
theorem alignUp_ne_minusOne (x : Nat) : alignUp x ≠ minusOne := by
  have hmod := alignUp_mod x
  intro heq
  rw [heq] at hmod
  exact absurd hmod (by decide)

/-- A call that does not ask for more never fails. -/
theorem sysSbrk_shrink_ne (htaken : ¬Declined k p size) (hneg : isPos (alignUp size) = false) :
    k.sysSbrk p size ≠ .ok (minusOne, k') := by
  rw [sysSbrk_taken htaken, resize, if_neg (by rw [hneg]; exact Bool.false_ne_true)]
  cases shrinkLoop (k.procs p).pagetable (alignUp (k.procs p).heapEnd) pageRounds
      (askedBrk (k.procs p) size) k.mm with
  | error e =>
      intro hcall
      cases hcall
  | ok mm =>
      intro hcall
      exact alignUp_ne_minusOne _ (congrArg Prod.fst (Except.ok.inj hcall))

/-- **A call that runs out of memory** has changed something. -/
theorem sysSbrk_fails (h : Owned roots k.mm live) (hroot : roots o = some (k.procs p).pagetable)
    (htaken : ¬Declined k p size) (hpos : isPos (alignUp size) = true)
    (hfree : Mm.freeCount k.mm ≠ 0) (hfits : ¬SbrkFits roots o k p size) :
    ∃ k', k.sysSbrk p size = .ok (minusOne, k') ∧ ¬Unchanged roots p k k' := by
  obtain ⟨⟨ok, mm⟩, hcall, hend⟩ := grow_cases h hroot htaken hpos
  have hok := hend.ok_iff h.run
  obtain rfl : ok = false := Bool.eq_false_iff.mpr fun ht => hfits (hok.mp ht)
  refine ⟨k.setMm mm, by rw [sysSbrk_taken htaken, hcall]; rfl, fun hsame => ?_⟩
  have htook : ∀ {fs lost tabs f}, Grown roots o (alignUp (k.procs p).heapEnd) k.mm live fs lost tabs mm →
      f ∉ fs ++ lost := by
    intro fs lost tabs f hg hf
    obtain ⟨hnow, hbefore⟩ := hg.dataFrame h hf
    exact hbefore ((hsame.frames f).mp hnow)
  cases hend with
  | @noFrame fs tabs _ hg hn hnone hfirst =>
      cases fs with
      | nil =>
          apply hfree
          rw [← hfirst rfl]
          exact hg.owned.run.freeCount_of_noPage hnone
      | cons f fs => exact htook hg List.mem_cons_self
  | @noTable fs f tabs _ hg hn hnone =>
      exact htook hg (List.mem_append.mpr (Or.inr (List.mem_singleton_self f)))

/-- **`sys_sbrk` is atomic on failure** just when it fails in its checks, or shrinks, or finds no
page at all, or does not run out of pages. -/
theorem sysSbrk_atomic_iff (h : Owned roots k.mm live) (hroot : roots o = some (k.procs p).pagetable)
    (size : Nat) :
    (∀ k', k.sysSbrk p size = .ok (minusOne, k') → Unchanged roots p k k') ↔
      Declined k p size ∨ isPos (alignUp size) = false ∨ Mm.freeCount k.mm = 0 ∨
        SbrkFits roots o k p size := by
  constructor
  · intro hatomic
    by_contra hnot
    push Not at hnot
    obtain ⟨htaken, hpos, hfree, hfits⟩ := hnot
    obtain ⟨k', hcall, hchanged⟩ :=
      sysSbrk_fails h hroot htaken (Bool.eq_true_of_not_eq_false hpos) hfree hfits
    exact hchanged (hatomic k' hcall)
  · intro hcond k' hcall
    by_cases htaken : Declined k p size
    · rw [sysSbrk_declined htaken] at hcall
      obtain rfl := congrArg Prod.snd (Except.ok.inj hcall)
      exact Unchanged.refl roots p k
    · cases hpos : isPos (alignUp size) with
      | false => exact absurd hcall (sysSbrk_shrink_ne htaken hpos)
      | true =>
          obtain ⟨⟨ok, mm⟩, hloop, hend⟩ := grow_cases h hroot htaken hpos
          have hok := hend.ok_iff h.run
          rw [sysSbrk_taken htaken, hloop] at hcall
          cases ok with
          | true => exact absurd (congrArg Prod.fst (Except.ok.inj hcall)) (alignUp_ne_minusOne _)
          | false =>
              obtain rfl : k.setMm mm = k' := congrArg Prod.snd (Except.ok.inj hcall)
              have hzero : Mm.freeCount k.mm = 0 := by
                rcases hcond with hd | hneg | hzero | hfits
                · exact absurd hd htaken
                · rw [hpos] at hneg
                  cases hneg
                · exact hzero
                · exact absurd (hok.mpr hfits) Bool.false_ne_true
              -- nothing could be taken
              cases hend with
              | @noFrame fs tabs _ hg hn hnone hfirst =>
                  have hcount := hg.freeCount h.run
                  rw [List.append_nil] at hcount
                  have hnil : fs = [] := List.eq_nil_of_length_eq_zero (by omega)
                  rw [hfirst hnil]
                  exact Unchanged.refl roots p k
              | @noTable fs f tabs _ hg hn hnone =>
                  have hcount := hg.freeCount h.run
                  rw [List.length_append, List.length_singleton] at hcount
                  omega

/-! ### More than there is -/

omit [DecidableEq ω] in
/-- Others may have taken any number of pages. -/
theorem exists_taken (h : Owned roots s live) {j : Nat} (hj : j ≤ Mm.freeCount s) :
    ∃ t live', Owned roots t live' ∧ Mm.freeCount t + j = Mm.freeCount s := by
  induction j with
  | zero => exact ⟨s, live, h, rfl⟩
  | succ j ih =>
      obtain ⟨t, live', ht, hcount⟩ := ih (Nat.le_of_succ_le hj)
      rcases ht.run.allocPage with ⟨-, hnone⟩ | ⟨a, t', -, -, hnew⟩
      · rw [ht.run.freeCount_of_noPage hnone] at hcount
        omega
      · have hone := hnew.freeCount ht.run
        exact ⟨t', _, hnew.owned ht, by omega⟩

theorem not_declined_heapKernel (mm : Mm) (root : Nat) : ¬Declined (heapKernel mm root) 1 0x100000 := by
  show ¬(1 = 0 ∨ 0x100000 = 0 ∨ u64 (alignUp 0x10000 + alignUp 0x100000) < 0x10000 ∨
    userHeapEnd < u64 (alignUp 0x10000 + alignUp 0x100000))
  decide

theorem sbrkPages_heapKernel (mm : Mm) (root : Nat) :
    sbrkPages ((heapKernel mm root).procs 1) 0x100000 = 256 := by
  show (u64 (alignUp 0x10000 + alignUp 0x100000) - alignUp 0x10000) / pageSize = 256
  decide

/-- A hundred pages are left. -/
theorem exists_short_heapKernel :
    ∃ mm root live, Owned (fun _ : Unit => some root) (heapKernel mm root).mm live ∧
      Mm.freeCount (heapKernel mm root).mm = 100 := by
  obtain ⟨mm, root, howned, -, hnum⟩ := exists_heapKernel
  have hcount := howned.run.freeCount_add
  rw [hnum] at hcount
  have hone : pageCount ({(root, 0)} : Multiset (Nat × Nat)) = 1 := rfl
  have hfree : Mm.freeCount (heapKernel mm root).mm = 32622 := by omega
  obtain ⟨t, live, ht, hleft⟩ := exists_taken (j := 32522) howned (by omega)
  rw [hfree] at hleft
  have hleft' : Mm.freeCount t = 100 := by omega
  exact ⟨t, root, live, ht, hleft'⟩

theorem sysSbrk_atomic_heapKernel :
    ∃ mm root, ((∀ k', (heapKernel mm root).sysSbrk 1 0x100000 = .ok (minusOne, k') →
        Unchanged (fun _ : Unit => some root) 1 (heapKernel mm root) k') ↔
      Declined (heapKernel mm root) 1 0x100000 ∨ isPos (alignUp 0x100000) = false ∨
        Mm.freeCount (heapKernel mm root).mm = 0 ∨
        SbrkFits (fun _ : Unit => some root) () (heapKernel mm root) 1 0x100000) := by
  obtain ⟨mm, root, live, howned, -⟩ := exists_short_heapKernel
  exact ⟨mm, root, sysSbrk_atomic_iff howned rfl 0x100000⟩

/-- 256 pages are asked for: the call fails, and keeps what it has taken. -/
theorem sysSbrk_keeps_heapKernel :
    ∃ mm root live k', Owned (fun _ : Unit => some root) (heapKernel mm root).mm live ∧
      (heapKernel mm root).sysSbrk 1 0x100000 = .ok (minusOne, k') ∧
      ¬Unchanged (fun _ : Unit => some root) 1 (heapKernel mm root) k' := by
  obtain ⟨mm, root, live, howned, hfree⟩ := exists_short_heapKernel
  have hfits : ¬SbrkFits (fun _ : Unit => some root) () (heapKernel mm root) 1 0x100000 := by
    unfold SbrkFits
    rw [hfree, sbrkPages_heapKernel]
    omega
  have hpos : isPos (alignUp 0x100000) = true := by decide
  obtain ⟨k', hcall, hchanged⟩ := sysSbrk_fails (o := ()) howned rfl (not_declined_heapKernel mm root)
    hpos (by rw [hfree]; decide) hfits
  exact ⟨mm, root, live, k', howned, hcall, hchanged⟩

end Kernel

end SystemN
