/-
Growing the heap and shrinking it again.

`ALIGN_UP` rounds `n` and `-n` in the same direction, up.  The heap grows by the pages that `n`
bytes take part of, and shrinks by those they fill.  For whole pages the two are the same, and
the shrinking loop then meets the frames the growing loop has put in, in the same order; for any
other `n` one page is left.

What is taken for tables stays taken, and is counted apart.
-/
import SystemN.Proofs.SbrkFail
import SystemN.Proofs.Mm.Frees

namespace SystemN

open Mm Tiling

variable {ω : Type} [DecidableEq ω] {roots : ω → Option Nat} {o : ω} {s s' : Mm}
  {live : Multiset (Nat × Nat)}

namespace Kernel

/-! ### Pages mapped and unmapped again -/

section Ranges

variable {L : ω → Nat → Option (Nat × Nat)} {va : Nat}

/-- The frames behind pages that were not mapped are those they are mapped to. -/
theorem frames_mapRange {fs : List Nat} : ∀ {L : ω → Nat → Option (Nat × Nat)} {va : Nat},
    fs.length ≤ 2 ^ 27 → (∀ i < fs.length, L o (va + i * pageSize) = none) →
      Mm.frames (mapRange L o va fs) o va fs.length = fs := by
  induction fs with
  | nil => exact fun _ _ => rfl
  | cons f fs ih =>
      intro L va hlen hnone
      rw [List.length_cons] at hlen
      have hother : ∀ i < fs.length, vpage (va + pageSize + i * pageSize) ≠ vpage va := by
        intro i hi hpage
        rw [← add_succ_pages] at hpage
        have hzero := vpage_inj (j := 0) (by omega) (by norm_num)
          (hpage.trans (by rw [Nat.zero_mul, Nat.add_zero]))
        omega
      have hfirst : mapRange L o va (f :: fs) o va = some (f, mapFlags heapPerm) := by
        have hva := hnone 0 (Nat.succ_pos _)
        have hout : ¬(o = o ∧ ∃ i < fs.length, vpage va = vpage (va + pageSize + i * pageSize)) := by
          rintro ⟨-, i, hi, hpage⟩
          exact hother i hi hpage.symm
        rw [Nat.zero_mul, Nat.add_zero] at hva
        rw [mapRange, mapRange_outside hout, mapLeaf, if_pos ⟨rfl, rfl⟩, hva]
        rfl
      have hrest : Mm.frames (mapRange L o va (f :: fs)) o (va + pageSize) fs.length = fs := by
        refine ih (Nat.le_of_succ_le hlen) fun i hi => ?_
        rw [mapLeaf, if_neg fun hc => hother i hi hc.2, ← add_succ_pages]
        exact hnone (i + 1) (Nat.succ_lt_succ hi)
      rw [List.length_cons, frames_succ, hfirst, hrest]
      rfl

/-- Unmapping what was mapped over holes. -/
theorem unmapRange_mapRange {fs : List Nat}
    (hnone : ∀ i < fs.length, ∀ va', vpage va' = vpage (va + i * pageSize) → L o va' = none) :
    unmapRange (mapRange L o va fs) o va fs.length = L := by
  funext o' va'
  by_cases hin : o' = o ∧ ∃ i < fs.length, vpage va' = vpage (va + i * pageSize)
  · rw [unmapRange, if_pos hin]
    obtain ⟨rfl, i, hi, hpage⟩ := hin
    exact (hnone i hi va' hpage).symm
  · rw [unmapRange_outside hin, mapRange_outside hin]

end Ranges

omit [DecidableEq ω] in
/-- The tables that are there now and were not before. -/
theorem ncard_newTables {tabs : Multiset (Nat × Nat)} (h : Owned roots s live)
    (hrun : RunInv s' (tabs + live)) (hst : SameStatics s s') (hpages : ∀ B ∈ tabs, B.2 = 0)
    (htables : ∀ n, IsTable s'.mem roots n ↔ IsTable s.mem roots n ∨ (n, 0) ∈ tabs) :
    {n | IsTable s'.mem roots n ∧ ¬IsTable s.mem roots n}.ncard = Multiset.card tabs := by
  have hnodup : (tabs.map Prod.fst).Nodup := by
    refine Multiset.Nodup.map_on (fun A hA B hB hAB => Prod.ext hAB ?_) ?_
    · rw [hpages A hA, hpages B hB]
    · exact (Multiset.nodup_add.mp hrun.nodup).1
  have hold : ∀ {n}, (n, 0) ∈ tabs → ¬IsTable s.mem roots n := by
    intro n hn htable
    rcases h.held n htable with hbelow | hlive
    · have hle := hrun.base_le (Multiset.mem_add.mpr (Or.inl hn))
      rw [hst.base] at hle
      simp only [pageSize] at *
      omega
    · exact Multiset.disjoint_left.mp (Multiset.nodup_add.mp hrun.nodup).2.2 hn hlive
  have hset : {n | IsTable s'.mem roots n ∧ ¬IsTable s.mem roots n} = ((tabs.map Prod.fst).toFinset : Set Nat) := by
    ext n
    rw [Finset.mem_coe, Multiset.mem_toFinset, Multiset.mem_map]
    constructor
    · rintro ⟨hnow, hbefore⟩
      exact ⟨(n, 0), ((htables n).mp hnow).resolve_left hbefore, rfl⟩
    · rintro ⟨B, hB, rfl⟩
      have hmem : (B.1, 0) ∈ tabs := by
        rw [← hpages B hB]
        exact hB
      exact ⟨(htables B.1).mpr (Or.inr hmem), hold hmem⟩
  rw [hset, Set.ncard_coe_finset, Multiset.toFinset_card_of_nodup hnodup, Multiset.card_map]

/-! ### The two calls -/

variable {k k₁ : Kernel} {p n r : Nat}

/-- What the second call should bring back.  The tables that the first one has added stay. -/
structure Restored (roots : ω → Option Nat) (p : Nat) (k k₂ : Kernel) : Prop where
  heapEnd : (k₂.procs p).heapEnd = (k.procs p).heapEnd
  translate : ∀ va, k₂.mm.translate (k.procs p).pagetable va = k.mm.translate (k.procs p).pagetable va
  free : Mm.freeCount k₂.mm + {n | IsTable k₂.mm.mem roots n ∧ ¬IsTable k.mm.mem roots n}.ncard
    = Mm.freeCount k.mm

/-- The call succeeds, and brings everything back. -/
def ShrinksBack (roots : ω → Option Nat) (p n : Nat) (k k₁ : Kernel) : Prop :=
  ∃ r k₂, k₁.sysSbrk p (2 ^ 64 - n) = .ok (r, k₂) ∧ r ≠ minusOne ∧ Restored roots p k k₂

/-- The size of the second call is no positive one. -/
theorem alignUp_neg (hpos : 0 < n) (hlt : n < 2 ^ 63) :
    alignUp (2 ^ 64 - n) = (2 ^ 64 - n / pageSize * pageSize) % 2 ^ 64 ∧
      isPos (alignUp (2 ^ 64 - n)) = false := by
  have heq : alignUp (2 ^ 64 - n) = (2 ^ 64 - n / pageSize * pageSize) % 2 ^ 64 := by
    simp only [alignUp, u64, pageSize]
    omega
  refine ⟨heq, ?_⟩
  rw [heq]
  simp only [isPos, pageSize, Bool.and_eq_false_iff, decide_eq_false_iff_not]
  omega

/-- What a first call that succeeds has done. -/
structure GrewBy (roots : ω → Option Nat) (o : ω) (live : Multiset (Nat × Nat)) (p n : Nat)
    (k k₁ : Kernel) (fs : List Nat) (tabs : Multiset (Nat × Nat)) : Prop where
  proc : k₁.procs p = { k.procs p with heapEnd := newBrk (k.procs p) n }
  heap : HeapOk (k₁.procs p)
  named : p ≠ 0
  pages : (k.procs p).heapEnd + fs.length * pageSize = newBrk (k.procs p) n
  length : fs.length = (n + pageSize - 1) / pageSize
  grown : Grown roots o (k.procs p).heapEnd k.mm live fs [] tabs k₁.mm

theorem grewBy_of_ok (h : Owned roots k.mm live) (hroot : roots o = some (k.procs p).pagetable)
    (hheap : HeapOk (k.procs p)) (hpos : 0 < n) (hlt : n < 2 ^ 63)
    (hcall : k.sysSbrk p n = .ok (r, k₁)) (hok : r ≠ minusOne) :
    ∃ fs tabs, GrewBy roots o live p n k k₁ fs tabs := by
  have hacc : ¬SbrkRefused k p n := by
    intro href
    rw [sysSbrk_refused hheap href] at hcall
    exact hok (congrArg Prod.fst (Except.ok.inj hcall)).symm
  have htaken := hacc
  unfold SbrkRefused at htaken
  push Not at htaken
  obtain ⟨hp, -, hlow, hhigh⟩ := htaken
  have haligned := hheap.aligned
  have htop := hheap.top
  -- the end has moved up by the pages
  have hsum : alignUp n = (n + pageSize - 1) / pageSize * pageSize := by
    simp only [alignUp, u64, pageSize]
    omega
  have hnew : newBrk (k.procs p) n = (k.procs p).heapEnd + (n + pageSize - 1) / pageSize * pageSize := by
    unfold newBrk at *
    rw [hsum] at *
    simp only [u64, userHeapEnd, userStackBase, userEndVa, userStackSize, pageSize] at *
    omega
  have hsign : isPos (alignUp n) = true := by
    rw [hsum]
    simp only [isPos, Bool.and_eq_true, decide_eq_true_eq]
    simp only [userHeapEnd, userStackBase, userEndVa, userStackSize, pageSize] at *
    omega
  have hbound : newBrk (k.procs p) n < 2 ^ 64 := lt_of_le_of_lt hhigh (by decide)
  obtain ⟨⟨ok, mm⟩, hloop, hend⟩ := growLoop_cases hroot hbound h hnew.symm
    (show (n + pageSize - 1) / pageSize < pageRounds by
      simp only [userHeapEnd, userStackBase, userEndVa, userStackSize, pageSize, pageRounds] at *
      omega)
  rw [sysSbrk_accepted hheap hacc, resize, if_pos hsign, hloop] at hcall
  cases hend with
  | noFrame => exact absurd (congrArg Prod.fst (Except.ok.inj hcall)).symm hok
  | noTable => exact absurd (congrArg Prod.fst (Except.ok.inj hcall)).symm hok
  | @mapped fs tabs _ hg hn =>
      obtain rfl := congrArg Prod.snd (Except.ok.inj hcall)
      have hproc : ((sbrkEnd k p n (true, mm)).2).procs p
          = { k.procs p with heapEnd := newBrk (k.procs p) n } := moveBrk_procs k p _ mm
      refine ⟨fs, tabs, hproc, ?_, hp, ?_, hn, hg⟩
      · rw [hproc]
        exact ⟨hheap.start, (newBrk_cases hheap hhigh).1, hlow, hhigh⟩
      · rw [hn, hnew]

section GrewBy

variable {fs : List Nat} {tabs : Multiset (Nat × Nat)} (hg : GrewBy roots o live p n k k₁ fs tabs)
  (hpos : 0 < n) (hlt : n < 2 ^ 63)
include hg hpos hlt

/-- Where the heap ends after the second call, if that succeeds. -/
theorem GrewBy.newBrk_back : newBrk (k₁.procs p) (2 ^ 64 - n)
    = (k.procs p).heapEnd + if n % pageSize = 0 then 0 else pageSize := by
  have hpages := hg.pages
  have hlen := hg.length
  have htop := hg.heap.top
  rw [hg.proc] at htop ⊢
  unfold newBrk at htop ⊢
  rw [(alignUp_neg hpos hlt).1]
  dsimp only at htop ⊢
  unfold newBrk at hpages
  rw [← hpages] at htop ⊢
  rw [hlen] at htop ⊢
  simp only [u64, userHeapEnd, userStackBase, userEndVa, userStackSize, pageSize] at *
  split
  · omega
  · omega

/-- The second call passes its checks, and unmaps pages. -/
theorem GrewBy.call_back (hheap : HeapOk (k.procs p)) : k₁.sysSbrk p (2 ^ 64 - n) =
    (shrinkLoop (k.procs p).pagetable (newBrk (k.procs p) n) pageRounds
      (newBrk (k₁.procs p) (2 ^ 64 - n)) k₁.mm).map fun mm =>
        sbrkEnd k₁ p (2 ^ 64 - n) (true, mm) := by
  have hback := hg.newBrk_back hpos hlt
  have hpages := hg.pages
  have hlen := hg.length
  have hle := hheap.le
  have htop := hg.heap.top
  have hp := hg.named
  have hstart : (k₁.procs p).heapStart = (k.procs p).heapStart := by rw [hg.proc]
  have hend : (k₁.procs p).heapEnd = newBrk (k.procs p) n := by rw [hg.proc]
  have htable : (k₁.procs p).pagetable = (k.procs p).pagetable := by rw [hg.proc]
  have hacc : ¬SbrkRefused k₁ p (2 ^ 64 - n) := by
    unfold SbrkRefused
    rw [hback, hstart]
    rw [hend, ← hpages, hlen] at htop
    split
    · omega
    · simp only [pageSize] at *
      omega
  rw [sysSbrk_accepted hg.heap hacc, resize, (alignUp_neg hpos hlt).2, if_neg Bool.false_ne_true, hend,
    htable]
  cases shrinkLoop (k.procs p).pagetable (newBrk (k.procs p) n) pageRounds
      (newBrk (k₁.procs p) (2 ^ 64 - n)) k₁.mm with
  | error e => rfl
  | ok mm => rfl

/-- Part of a page is left. -/
theorem GrewBy.not_back (hheap : HeapOk (k.procs p)) (hmod : n % pageSize ≠ 0) :
    ¬ShrinksBack roots p n k k₁ := by
  intro ⟨r, k₂, hcall, _, hback⟩
  rw [hg.call_back hpos hlt hheap] at hcall
  cases hloop : shrinkLoop (k.procs p).pagetable (newBrk (k.procs p) n) pageRounds
      (newBrk (k₁.procs p) (2 ^ 64 - n)) k₁.mm with
  | error e =>
      rw [hloop] at hcall
      cases hcall
  | ok mm =>
      rw [hloop] at hcall
      obtain rfl := congrArg Prod.snd (Except.ok.inj hcall)
      have hend : (((sbrkEnd k₁ p (2 ^ 64 - n) (true, mm)).2).procs p).heapEnd
          = newBrk (k₁.procs p) (2 ^ 64 - n) := congrArg Proc.heapEnd (moveBrk_procs k₁ p _ mm)
      have heq := hend.symm.trans hback.heapEnd
      rw [hg.newBrk_back hpos hlt, if_neg hmod] at heq
      simp only [pageSize] at heq
      omega

end GrewBy

/-- What the shrinking loop leaves when it meets all the pages of the growing one. -/
theorem restored_of_cleared {fs : List Nat} {tabs : Multiset (Nat × Nat)} {mm : Mm}
    (h : Owned roots k.mm live) (hroot : roots o = some (k.procs p).pagetable)
    (hg : GrewBy roots o live p n k k₁ fs tabs)
    (hleaf : leafOf mm.mem roots = leafOf k.mm.mem roots) (hpaged : Paged roots mm)
    (htables : ∀ q, IsTable mm.mem roots q ↔ IsTable k₁.mm.mem roots q)
    (hfreed : Freed k₁.mm fs mm) (hrun : RunInv mm (tabs + live)) :
    Restored roots p k (k₁.moveBrk p (k.procs p).heapEnd mm) := by
  have hst : SameStatics k.mm mm := hg.grown.statics.trans hfreed.statics
  have hend : ((k₁.moveBrk p (k.procs p).heapEnd mm).procs p).heapEnd = (k.procs p).heapEnd := by
    rw [moveBrk_procs]
  refine ⟨hend, fun va => ?_, ?_⟩
  · refine translate_congr h.paged hpaged hroot fun _ => ?_
    exact congrFun (congrFun hleaf o) va
  · have hnew := ncard_newTables h hrun hst hg.grown.pages fun q =>
      (htables q).trans (hg.grown.isTable q)
    have hcount := h.run.freeCount_add
    have hcount' := hrun.freeCount_add
    rw [pageCount_add, pageCount_pages hg.grown.pages, hst.numPages] at hcount'
    show Mm.freeCount mm + {q | IsTable mm.mem roots q ∧ ¬IsTable k.mm.mem roots q}.ncard = _
    rw [hnew]
    omega

/-- **Growing and shrinking** by the same number of bytes brings everything back if and only if they
are whole pages, and the frees do not ask about pages past the end. -/
theorem sysSbrk_round_trip_iff (h : Owned roots k.mm live) (hroot : roots o = some (k.procs p).pagetable)
    (hheap : HeapOk (k.procs p))
    (hempty : ∀ va, (k.procs p).heapEnd ≤ va → va < userHeapEnd →
      k.mm.translate (k.procs p).pagetable va = none)
    (hpos : 0 < n) (hlt : n < 2 ^ 63) (hcall : k.sysSbrk p n = .ok (r, k₁)) (hok : r ≠ minusOne) :
    ShrinksBack roots p n k k₁ ↔ n % pageSize = 0 ∧
      FreesInRange (Mm.frames (leafOf k₁.mm.mem roots) o (k.procs p).heapEnd (n / pageSize)) k₁.mm := by
  obtain ⟨fs, tabs, hg⟩ := grewBy_of_ok h hroot hheap hpos hlt hcall hok
  by_cases hmod : n % pageSize = 0
  · have hlen : n / pageSize = fs.length := by
      rw [hg.length]
      simp only [pageSize] at *
      omega
    have hpages := hg.pages
    have htop := hg.heap.top
    rw [hg.proc] at htop
    dsimp only at htop
    rw [← hpages] at htop
    have hshort : fs.length < 2 ^ 27 := by
      simp only [userHeapEnd, userStackBase, userEndVa, userStackSize, pageSize] at htop
      omega
    -- there was nothing where the frames have gone
    have hnone : ∀ i < fs.length, ∀ va, vpage va = vpage ((k.procs p).heapEnd + i * pageSize) →
        leafOf k.mm.mem roots o va = none := by
      intro i hi va hpage
      have hmul : i * pageSize + pageSize ≤ fs.length * pageSize := by
        rw [← Nat.succ_mul]
        exact Nat.mul_le_mul_right _ hi
      have hva : (k.procs p).heapEnd + i * pageSize < userHeapEnd := by
        simp only [pageSize] at hmul htop ⊢
        omega
      have htr := hempty _ (Nat.le_add_right _ _) hva
      rw [translate_eq h.tables hroot (Or.inl (hva.trans (by decide))), Option.map_eq_none_iff] at htr
      rw [leafOf_vpage hpage]
      exact htr
    have hframes : Mm.frames (leafOf k₁.mm.mem roots) o (k.procs p).heapEnd fs.length = fs := by
      rw [hg.grown.leaf]
      exact frames_mapRange hshort.le fun i hi => hnone i hi _ rfl
    have hrun := hg.grown.owned.run
    rw [List.append_nil] at hrun
    have hback : newBrk (k₁.procs p) (2 ^ 64 - n) = (k.procs p).heapEnd := by
      rw [hg.newBrk_back hpos hlt, if_pos hmod, Nat.add_zero]
    have hcalls := hg.call_back hpos hlt hheap
    rw [hback] at hcalls
    rw [hlen, hframes]
    rcases shrinkLoop_cases hroot (lt_of_le_of_lt (hpages ▸ htop) (by decide)) hg.grown.owned.paged hpages
        (show fs.length < pageRounds by simp only [pageRounds]; omega) hshort.le with
      ⟨mm, hloop, hc⟩ | ⟨e, hloop, j, hj, pa, f, t, hleaf, hfreed, hfail⟩
    · rw [hloop] at hcalls
      have hfreed := hc.freed
      rw [hframes] at hfreed
      obtain ⟨hrange, hrun'⟩ := hfreed.runInv hrun
      refine ⟨fun _ => ⟨hmod, hrange⟩, fun _ => ⟨_, _, hcalls, ?_, ?_⟩⟩
      · have hmod' := hg.heap.aligned
        intro heq
        rw [show (k₁.procs p).heapEnd = minusOne from heq] at hmod'
        exact absurd hmod' (by decide)
      · have hleaf : leafOf mm.mem roots = leafOf k.mm.mem roots := by
          rw [hc.leaf, hg.grown.leaf]
          exact unmapRange_mapRange hnone
        have hres := restored_of_cleared h hroot hg hleaf hc.paged hc.isTable hfreed hrun'
        rw [← hback] at hres
        exact hres
    · rw [hloop] at hcalls
      constructor
      · intro ⟨r', k₂, hcall', _, _⟩
        rw [hcalls] at hcall'
        cases hcall'
      · intro ⟨_, hrange⟩
        obtain ⟨rest, hsplit⟩ := exists_frames_split hj hleaf
        rw [hframes] at hsplit
        rw [hsplit] at hrange hrun
        obtain ⟨t', hfree⟩ := hrange.next hfreed hrun
        rw [hfail] at hfree
        cases hfree
  · exact ⟨fun hb => absurd hb (hg.not_back hpos hlt hheap hmod), fun hc => absurd hc.1 hmod⟩

/-! ### One byte, and one page -/

/-- A call for which there is room succeeds. -/
theorem sysSbrk_succeeds {size : Nat} (h : Owned roots k.mm live)
    (hroot : roots o = some (k.procs p).pagetable) (htaken : ¬Declined k p size)
    (hpos : isPos (alignUp size) = true) (hfits : SbrkFits roots o k p size) :
    ∃ k₁, k.sysSbrk p size = .ok (alignUp (k.procs p).heapEnd, k₁) := by
  obtain ⟨⟨ok, mm⟩, hloop, hend⟩ := grow_cases h hroot htaken hpos
  obtain rfl := (hend.ok_iff h.run).mpr hfits
  rw [sysSbrk_taken htaken, hloop]
  exact ⟨_, rfl⟩

omit [DecidableEq ω] in
theorem missing_rangePaths_le (m : Nat → UInt8) (roots : ω → Option Nat) (o : ω) (va n : Nat) :
    missing m roots o (rangePaths va n) ≤ 2 * n := by
  calc missing m roots o (rangePaths va n) ≤ (rangePaths va n).card := Finset.card_filter_le _ _
    _ ≤ (Finset.range n ×ˢ Finset.range 2).card := Finset.card_image_le
    _ = 2 * n := by rw [Finset.card_product, Finset.card_range, Finset.card_range, mul_comm]

/-- With an empty heap and nearly all pages free, up to a page can be had. -/
theorem exists_grown_heapKernel (hpos : 0 < n) (hle : n ≤ pageSize) :
    ∃ mm root k₁, Owned (fun _ : Unit => some root) (heapKernel mm root).mm {(root, 0)} ∧
      (∀ va, 0x10000 ≤ va → va < userHeapEnd → (heapKernel mm root).mm.translate root va = none) ∧
      (heapKernel mm root).sysSbrk 1 n = .ok (0x10000, k₁) := by
  obtain ⟨mm, root, howned, hleaf, hnum⟩ := exists_heapKernel
  have halign : alignUp n = pageSize := by
    simp only [alignUp, u64, pageSize] at *
    omega
  have hasked : askedBrk ((heapKernel mm root).procs 1) n = 0x11000 := by
    show u64 (alignUp 0x10000 + alignUp n) = 0x11000
    rw [halign]
    decide
  have htaken : ¬Declined (heapKernel mm root) 1 n := by
    rw [Declined, hasked]
    show ¬(1 = 0 ∨ n = 0 ∨ 0x11000 < 0x10000 ∨ userHeapEnd < 0x11000)
    simp only [userHeapEnd, userStackBase, userEndVa, userStackSize, pageSize]
    omega
  have hfits : SbrkFits (fun _ : Unit => some root) () (heapKernel mm root) 1 n := by
    have hpages : sbrkPages ((heapKernel mm root).procs 1) n = 1 := by
      rw [sbrkPages, hasked]
      show (0x11000 - alignUp 0x10000) / pageSize = 1
      decide
    have hmissing := missing_rangePaths_le (heapKernel mm root).mm.mem (fun _ : Unit => some root) ()
      (alignUp ((heapKernel mm root).procs 1).heapEnd) 1
    have hcount := howned.run.freeCount_add
    rw [hnum] at hcount
    have hone : pageCount ({(root, 0)} : Multiset (Nat × Nat)) = 1 := rfl
    unfold SbrkFits
    rw [hpages]
    omega
  obtain ⟨k₁, hcall⟩ := sysSbrk_succeeds (o := ()) howned rfl htaken (by rw [halign]; decide) hfits
  have hold : alignUp ((heapKernel mm root).procs 1).heapEnd = 0x10000 :=
    (by decide : alignUp 0x10000 = 0x10000)
  rw [hold] at hcall
  refine ⟨mm, root, k₁, howned, fun va _ hva => ?_, hcall⟩
  rw [translate_eq howned.tables (o := ()) rfl (Or.inl (hva.trans (by decide))), hleaf]
  rfl

theorem sysSbrk_round_trip_heapKernel :
    ∃ mm root k₁, (heapKernel mm root).sysSbrk 1 4096 = .ok (0x10000, k₁) ∧
      (ShrinksBack (fun _ : Unit => some root) 1 4096 (heapKernel mm root) k₁ ↔
        4096 % pageSize = 0 ∧ FreesInRange (Mm.frames (leafOf k₁.mm.mem fun _ : Unit => some root) ()
          0x10000 (4096 / pageSize)) k₁.mm) := by
  obtain ⟨mm, root, k₁, howned, hempty, hcall⟩ := exists_grown_heapKernel (n := 4096) (by decide) (by decide)
  exact ⟨mm, root, k₁, hcall, sysSbrk_round_trip_iff howned rfl (heapOk_heapKernel mm root) hempty
    (by decide) (by decide) hcall (by decide)⟩

/-- One byte takes a page, and giving it back takes none away. -/
theorem sysSbrk_byte_heapKernel :
    ∃ mm root k₁, Owned (fun _ : Unit => some root) (heapKernel mm root).mm {(root, 0)} ∧
      HeapOk ((heapKernel mm root).procs 1) ∧
      (∀ va, 0x10000 ≤ va → va < userHeapEnd → (heapKernel mm root).mm.translate root va = none) ∧
      (heapKernel mm root).sysSbrk 1 1 = .ok (0x10000, k₁) ∧
      ¬ShrinksBack (fun _ : Unit => some root) 1 1 (heapKernel mm root) k₁ := by
  obtain ⟨mm, root, k₁, howned, hempty, hcall⟩ := exists_grown_heapKernel (n := 1) (by decide) (by decide)
  have hheap := heapOk_heapKernel mm root
  obtain ⟨fs, tabs, hg⟩ := grewBy_of_ok (o := ()) howned rfl hheap (by decide) (by decide) hcall (by decide)
  exact ⟨mm, root, k₁, howned, hheap, hempty, hcall, hg.not_back (by decide) (by decide) hheap (by decide)⟩

end Kernel

end SystemN
