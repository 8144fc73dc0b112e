/-
System calls and stores, of one process among others.

`sys_sbrk` and `sys_munmap` take pages from the process and give it blank ones, and what they give
back to the allocator was the process's own.  A store goes to a page of the process whose table is
loaded, whether it is user code that stores or `copy_to_user`.  So what the processes see is
`Confined`: the others see what they saw, and the process itself sees nothing of theirs.

`Serves` says so of everything that is done for a process.  What is done without touching memory is
`Quiet`.

`sys_munmap` does not check its range.  Above `USER_END_VA` it would free pages of the kernel, so the
range is taken to lie below.
-/
import SystemN.Proofs.Isolation
import SystemN.Proofs.Munmap
import SystemN.Proofs.Resume
import SystemN.Proofs.UserCopy

namespace SystemN

open Mm Radix Spaces

variable {L : Layout} {p root : Nat} {s' : Mm} {S : Snub} {live : Multiset (Nat × Nat)}
  {taken given fl : Nat → List Nat} {roots : Option Nat → Option Nat} {New : UInt8 → Prop}

/-! ### What a record says -/

namespace Proc

variable {v w : Proc}

/-- The number, the address space and the frame of a process, and whether it is an idle one. -/
def space (v : Proc) : Proc :=
  { zero with
    pid := v.pid
    isIdle := v.isIdle
    tf := v.tf
    pagetable := v.pagetable
    heapStart := v.heapStart
    heapEnd := v.heapEnd }

/-- The record of a process without its state, which others write when they wake it. -/
def stateless (v : Proc) : Proc := { v with state := .unused }

theorem space_eq_iff : v.space = w.space ↔ v.isIdle = w.isIdle ∧ v.tf = w.tf ∧
    v.pagetable = w.pagetable ∧ v.heapStart = w.heapStart ∧ v.heapEnd = w.heapEnd ∧ v.pid = w.pid := by
  simp only [space, mk.injEq, true_and, and_true]
  tauto

end Proc

/-! ### The loops -/

namespace Kernel

theorem vpage_low {va : Nat} (hlow : va < userEndVa) : vpage va < userEndVa / pageSize := by
  simp only [vpage, userEndVa, pageSize] at *
  omega

/-- The pages from `lo` to `hi`. -/
def pagesIn (lo hi : Nat) : Set PageNo := {n | lo ≤ n * pageSize ∧ n * pageSize < hi}

theorem pagesIn_empty {lo hi : Nat} (h : hi ≤ lo) : pagesIn lo hi = ∅ :=
  Set.eq_empty_of_forall_notMem fun _ hn => absurd (hn.1.trans_lt hn.2) (Nat.not_lt.mpr h)

/-- The first page, and the others. -/
theorem pagesIn_cons {va hi : Nat} (halign : va % pageSize = 0) (hlow : va < userEndVa) (hlt : va < hi) :
    {pageNo va} ∪ pagesIn (va + pageSize) hi = pagesIn va hi := by
  ext n
  have hn := n.isLt
  simp only [Set.mem_union, Set.mem_singleton_iff, pagesIn, Set.mem_ofPred_eq, Fin.ext_iff, pageNo, vpage]
  simp only [pageSize, userEndVa] at *
  omega

/-- The next page of a loop that stays below `USER_END_VA`. -/
theorem next_page {va : Nat} (halign : va % pageSize = 0) (hlow : va < userEndVa) :
    u64 (va + pageSize) = va + pageSize ∧ (va + pageSize) % pageSize = 0 := by
  simp only [u64, pageSize, userEndVa] at *
  omega

/-- **The loop that maps pages**: up to `mid` there are pages now, and the new ones are blank. -/
theorem growLoop_pages (hroot : roots (some p) = some root) {newBrk : Nat} (htop : newBrk ≤ userEndVa)
    {fuel : Nat} : ∀ {va : Nat} {S : Snub} {live : Multiset (Nat × Nat)} {ok : Bool},
      Isolated L roots S live taken given fl → va % pageSize = 0 →
      growLoop root newBrk fuel va S.mm = .ok (ok, s') →
      ∃ live' mid, Isolated L roots { S with mm := s' } live' taken given fl ∧
        (ok = true → mid = newBrk) ∧ (ok = false → va ≤ mid ∧ mid < newBrk ∧ mid % pageSize = 0) ∧
        userViews roots s'.mem = fill (userViews roots S.mm.mem) (some p) (pagesIn va mid)
          (blankPage, mapFlags heapPerm) := by
  induction fuel with
  | zero =>
      intro va S live ok h halign hcall
      cases hcall
  | succ fuel ih =>
      intro va S live ok h halign hcall
      rw [growLoop] at hcall
      split at hcall
      swap
      · next hge =>
        obtain ⟨rfl, rfl⟩ := Prod.mk.inj (Except.ok.inj hcall)
        exact ⟨live, newBrk, h, fun _ => rfl, by simp, by
          rw [pagesIn_empty (Nat.le_of_not_lt hge), fill_empty]⟩
      next hlt =>
      have hlow := hlt.trans_le htop
      have hstop : ∀ {s' : Mm}, userViews roots s'.mem = userViews roots S.mm.mem →
          userViews roots s'.mem = fill (userViews roots S.mm.mem) (some p) (pagesIn va va)
            (blankPage, mapFlags heapPerm) := fun hsame => by
        rw [pagesIn_empty le_rfl, fill_empty, hsame]
      rcases h.stocked.run.allocPage with ⟨hnull, -⟩ | ⟨a, s, halloc, hne, hnew⟩
      · rw [hnull, ok_bind] at hcall
        obtain ⟨rfl, rfl⟩ := Prod.mk.inj (Except.ok.inj hcall)
        exact ⟨live, va, h, by simp, fun _ => ⟨le_rfl, hlt, halign⟩, hstop rfl⟩
      · rw [halloc, ok_bind] at hcall
        dsimp only at hcall
        rw [if_neg hne] at hcall
        obtain ⟨⟨ok', t⟩, hmap, hrest⟩ := bind_eq_ok.mp hcall
        obtain ⟨live', hi, hviews⟩ := h.mapUser hnew.filled hroot (vpage_low hlow) (by decide) (by decide)
          (by decide) hmap
        cases ok' with
        | false =>
            obtain ⟨rfl, rfl⟩ := Prod.mk.inj (Except.ok.inj hrest)
            exact ⟨live', va, hi, by simp, fun _ => ⟨le_rfl, hlt, halign⟩, hstop hviews⟩
        | true =>
            obtain ⟨hwrap, halign'⟩ := next_page halign hlow
            have hloop : growLoop root newBrk fuel (va + pageSize) t = .ok (ok, s') := by
              rw [← hwrap]
              exact hrest
            obtain ⟨live₂, mid, hi₂, hok, hfail, hviews₂⟩ := ih (S := { S with mm := t }) hi halign' hloop
            have hmid : va < mid := by
              cases ok with
              | true => rwa [hok rfl]
              | false => exact lt_of_lt_of_le (Nat.lt_add_of_pos_right (by decide)) (hfail rfl).1
            refine ⟨live₂, mid, hi₂, hok, fun hf => ?_, ?_⟩
            · exact ⟨hmid.le, (hfail hf).2⟩
            · rw [hviews₂, hviews, if_pos rfl, Isolated.contents_zero hnew.zero, fill_fill,
                pagesIn_cons halign hlow hmid]

/-- **The loop that unmaps pages.** -/
theorem shrinkLoop_pages (hroot : roots (some p) = some root) {oldBrk : Nat}
    (htop : oldBrk ≤ userEndVa) {fuel : Nat} :
    ∀ {va : Nat} {S : Snub} {live : Multiset (Nat × Nat)},
      Isolated L roots S live taken given fl → va % pageSize = 0 →
      shrinkLoop root oldBrk fuel va S.mm = .ok s' →
      ∃ live', Isolated L roots { S with mm := s' } live' taken given fl ∧
        userViews roots s'.mem = clear (userViews roots S.mm.mem) (some p) (pagesIn va oldBrk) := by
  induction fuel with
  | zero =>
      intro va S live h halign hcall
      cases hcall
  | succ fuel ih =>
      intro va S live h halign hcall
      rw [shrinkLoop] at hcall
      split at hcall
      swap
      · next hge =>
        obtain rfl := Except.ok.inj hcall
        exact ⟨live, h, by rw [pagesIn_empty (Nat.le_of_not_lt hge), clear_empty]⟩
      next hlt =>
      have hlow := hlt.trans_le htop
      obtain ⟨⟨ok, t⟩, hunmap, hrest⟩ := bind_eq_ok.mp hcall
      obtain ⟨live', hi, hviews, -⟩ := h.unmapUser hroot (vpage_low hlow) hunmap
      obtain ⟨hwrap, halign'⟩ := next_page halign hlow
      have hloop : shrinkLoop root oldBrk fuel (va + pageSize) t = .ok s' := by
        rw [← hwrap]
        exact hrest
      obtain ⟨live₂, hi₂, hviews₂⟩ := ih (S := { S with mm := t }) hi halign' hloop
      refine ⟨live₂, hi₂, ?_⟩
      rw [hviews₂, hviews, clear_clear, pagesIn_cons halign hlow hlt]

/-- **The loop of `sys_munmap`** stops at the first page that is not mapped. -/
theorem munmapLoop_pages (hroot : roots (some p) = some root) {last : Nat} (htop : last ≤ userEndVa)
    {fuel : Nat} : ∀ {va : Nat} {S : Snub} {live : Multiset (Nat × Nat)} {ok : Bool},
      Isolated L roots S live taken given fl → va % pageSize = 0 →
      munmapLoop root last fuel va S.mm = .ok (ok, s') →
      ∃ live' mid, Isolated L roots { S with mm := s' } live' taken given fl ∧
        (ok = true → mid = last) ∧ (ok = false → va ≤ mid ∧ mid < last ∧ mid % pageSize = 0) ∧
        (∀ n ∈ pagesIn va mid, userViews roots S.mm.mem (some p) n ≠ none) ∧
        userViews roots s'.mem = clear (userViews roots S.mm.mem) (some p) (pagesIn va mid) := by
  induction fuel with
  | zero =>
      intro va S live ok h halign hcall
      cases hcall
  | succ fuel ih =>
      intro va S live ok h halign hcall
      rw [munmapLoop] at hcall
      split at hcall
      swap
      · next hge =>
        obtain ⟨rfl, rfl⟩ := Prod.mk.inj (Except.ok.inj hcall)
        have hempty := pagesIn_empty (Nat.le_of_not_lt hge)
        exact ⟨live, last, h, fun _ => rfl, by simp, by simp [hempty], by rw [hempty, clear_empty]⟩
      next hlt =>
      have hlow := hlt.trans_le htop
      obtain ⟨⟨ok', t⟩, hunmap, hrest⟩ := bind_eq_ok.mp hcall
      obtain ⟨live', hi, hviews, hmapped⟩ := h.unmapUser hroot (vpage_low hlow) hunmap
      cases ok' with
      | false =>
          obtain ⟨rfl, rfl⟩ := Prod.mk.inj (Except.ok.inj hrest)
          have hempty : pagesIn va va = ∅ := pagesIn_empty le_rfl
          have hnone : userViews roots S.mm.mem (some p) (pageNo va) = none := by
            by_contra hne
            exact Bool.false_ne_true (hmapped.mpr hne)
          refine ⟨live', va, hi, by simp, fun _ => ⟨le_rfl, hlt, halign⟩, by simp [hempty], ?_⟩
          rw [hviews, hempty, clear_empty, clear_single, put_none hnone]
      | true =>
          obtain ⟨hwrap, halign'⟩ := next_page halign hlow
          have hloop : munmapLoop root last fuel (va + pageSize) t = .ok (ok, s') := by
            rw [← hwrap]
            exact hrest
          obtain ⟨live₂, mid, hi₂, hok, hfail, hwas, hviews₂⟩ := ih (S := { S with mm := t }) hi halign' hloop
          have hmid : va < mid := by
            cases ok with
            | true => rwa [hok rfl]
            | false => exact lt_of_lt_of_le (Nat.lt_add_of_pos_right (by decide)) (hfail rfl).1
          refine ⟨live₂, mid, hi₂, hok, fun hf => ⟨hmid.le, (hfail hf).2⟩, fun n hn => ?_, ?_⟩
          · rw [← pagesIn_cons halign hlow hmid] at hn
            rcases hn with rfl | hn
            · exact hmapped.mp rfl
            · have hold := hwas n hn
              rw [hviews, clear] at hold
              split at hold
              · exact absurd rfl hold
              · exact hold
          · rw [hviews₂, hviews, clear_clear, pagesIn_cons halign hlow hmid]

/-- **The loops of `sys_sbrk`**, in either direction: the heap ends at `mid` now. -/
theorem resize_pages {P : Proc} {size : Nat} {ok : Bool} (h : Isolated L roots S live taken given fl)
    (hroot : roots (some p) = some root) (hheap : HeapOk P) (hnew : newBrk P size ≤ userHeapEnd)
    (hcall : resize root (alignUp size) P.heapEnd (newBrk P size) S.mm = .ok (ok, s')) :
    ∃ live' mid, Isolated L roots { S with mm := s' } live' taken given fl ∧
      (ok = true → mid = newBrk P size) ∧ (ok = false → P.heapEnd ≤ mid ∧ mid < newBrk P size) ∧
      mid % pageSize = 0 ∧ mid ≤ userHeapEnd ∧
      userViews roots s'.mem = fill (clear (userViews roots S.mm.mem) (some p) (pagesIn mid P.heapEnd))
        (some p) (pagesIn P.heapEnd mid) (blankPage, mapFlags heapPerm) := by
  have hend : userHeapEnd ≤ userEndVa := by decide
  obtain ⟨halign, -, hcases⟩ := newBrk_cases hheap hnew
  unfold resize at hcall
  rcases hcases with ⟨hpos, hle⟩ | ⟨hpos, hle⟩
  · rw [if_pos hpos] at hcall
    obtain ⟨live', mid, hi, hok, hfail, hviews⟩ :=
      growLoop_pages hroot (hnew.trans hend) h hheap.aligned hcall
    have hmid : P.heapEnd ≤ mid ∧ mid ≤ newBrk P size ∧ mid % pageSize = 0 := by
      cases ok with
      | true => exact ⟨hok rfl ▸ hle, (hok rfl).le, hok rfl ▸ halign⟩
      | false => exact ⟨(hfail rfl).1, (hfail rfl).2.1.le, (hfail rfl).2.2⟩
    refine ⟨live', mid, hi, hok, fun hf => ⟨hmid.1, (hfail hf).2.1⟩, hmid.2.2, hmid.2.1.trans hnew, ?_⟩
    rw [hviews, pagesIn_empty hmid.1, clear_empty]
  · rw [if_neg (by rw [hpos]; decide)] at hcall
    obtain ⟨t, hshrink, ht⟩ := bind_eq_ok.mp hcall
    obtain ⟨rfl, rfl⟩ := Prod.mk.inj (Except.ok.inj ht)
    obtain ⟨live', hi, hviews⟩ := shrinkLoop_pages hroot (hheap.top.trans hend) h halign hshrink
    refine ⟨live', newBrk P size, hi, fun _ => rfl, by simp, halign, hnew, ?_⟩
    rw [hviews, pagesIn_empty hle, fill_empty]

/-! ### What is done for a process -/

variable {k k' k₁ : Kernel} {size addr r : Nat}

/-- Memory has not been touched, and of the records at most those of `p` and of idle processes. -/
structure Quiet (p : Nat) (k k' : Kernel) : Prop where
  snub : k'.snub = k.snub
  layout : k'.layout = k.layout
  kernelPagetable : k'.kernelPagetable = k.kernelPagetable
  spaces : ∀ q, Proc.space (k'.procs q) = Proc.space (k.procs q)
  records : ∀ q ≠ p, (k.procs q).isIdle = false →
    Proc.stateless (k'.procs q) = Proc.stateless (k.procs q)
  frames : ∀ tf, (tf = (k.procs p).tf → (k.procs p).isIdle = true) → k'.frames tf = k.frames tf
  uartIn : k'.uartIn ⊆ k.uartIn

/-- Something has been done for the process `p`, and the other processes have not noticed.  Of the
bytes that it sees now, those it did not see before are `New`. -/
structure Serves (New : UInt8 → Prop) (roots : Option Nat → Option Nat) (p : Nat)
    (taken given fl : Nat → List Nat) (k k' : Kernel) : Prop where
  isolated : ∃ live', Isolated k'.layout roots k'.snub live' taken given fl
  confined : Confined New (some p) (userViews roots k.mm.mem) (userViews roots k'.mm.mem)
  layout : k'.layout = k.layout
  kernelPagetable : k'.kernelPagetable = k.kernelPagetable
  tables : ∀ q, (k'.procs q).pagetable = (k.procs q).pagetable
  heaps : ∀ q, HeapOk (k.procs q) → HeapOk (k'.procs q)
  starts : ∀ q, (k'.procs q).heapStart = (k.procs q).heapStart ∧ (k'.procs q).pid = (k.procs q).pid
  tfs : ∀ q, (k'.procs q).tf = (k.procs q).tf
  idles : ∀ q, (k'.procs q).isIdle = (k.procs q).isIdle
  records : ∀ q ≠ p, (k.procs q).isIdle = false →
    Proc.stateless (k'.procs q) = Proc.stateless (k.procs q)
  frames : ∀ tf, (tf = (k.procs p).tf → (k.procs p).isIdle = true) → k'.frames tf = k.frames tf
  uartIn : k'.uartIn ⊆ k.uartIn

theorem Quiet.trans (h : Quiet p k k₁) (h' : Quiet p k₁ k') : Quiet p k k' where
  snub := h'.snub.trans h.snub
  layout := h'.layout.trans h.layout
  kernelPagetable := h'.kernelPagetable.trans h.kernelPagetable
  spaces q := (h'.spaces q).trans (h.spaces q)
  records q hq hidle := by
    have hidle' := (Proc.space_eq_iff.mp (h.spaces q)).1
    exact (h'.records q hq (hidle'.trans hidle)).trans (h.records q hq hidle)
  frames tf htf := by
    obtain ⟨hidle, hp, -⟩ := Proc.space_eq_iff.mp (h.spaces p)
    exact (h'.frames tf (by rwa [hp, hidle])).trans (h.frames tf htf)
  uartIn := List.Subset.trans h'.uartIn h.uartIn

/-- What is neither in memory nor about a process. -/
theorem Quiet.of_eq (hsnub : k'.snub = k.snub) (hlayout : k'.layout = k.layout)
    (hkp : k'.kernelPagetable = k.kernelPagetable) (hprocs : k'.procs = k.procs)
    (hframes : k'.frames = k.frames) (huart : k'.uartIn = k.uartIn) : Quiet p k k' :=
  ⟨hsnub, hlayout, hkp, fun q => by rw [hprocs], fun q _ _ => by rw [hprocs], fun tf _ => by rw [hframes],
    fun c hc => huart ▸ hc⟩

theorem Quiet.refl (k : Kernel) : Quiet p k k := .of_eq rfl rfl rfl rfl rfl rfl

/-- A write to the record of a process, which has its address space where it was. -/
theorem Quiet.setProc {q : Nat} {v : Proc} (hspace : Proc.space v = Proc.space (k.procs q))
    (hq : q = p ∨ (k.procs q).isIdle = true ∨ Proc.stateless v = Proc.stateless (k.procs q)) :
    Quiet p k (k.setProc q v) := by
  refine ⟨rfl, rfl, rfl, fun q' => ?_, fun q' hne hidle => ?_, fun _ _ => rfl, List.Subset.refl _⟩
  · by_cases h : q' = q
    · subst h
      simpa [Kernel.setProc] using hspace
    · simp [Kernel.setProc, h]
  · by_cases h : q' = q
    · subst h
      rcases hq with rfl | hidle' | hsame
      · exact absurd rfl hne
      · rw [hidle] at hidle'
        cases hidle'
      · simpa [Kernel.setProc] using hsame
    · simp [Kernel.setProc, h]

theorem Quiet.setState (q : Nat) (st : ProcState) : Quiet p k (k.setState q st) :=
  .setProc rfl (Or.inr (Or.inr rfl))

/-- The frame of the process itself. -/
theorem Quiet.setFrame {tf : Nat} (f : TrapFrame)
    (htf : tf = (k.procs p).tf ∧ (k.procs p).isIdle = false ∨ f = k.frames tf) :
    Quiet p k (k.setFrame tf f) := by
  refine ⟨rfl, rfl, rfl, fun _ => rfl, fun _ _ _ => rfl, fun tf' hne => ?_, List.Subset.refl _⟩
  by_cases h : tf' = tf
  · subst h
    rcases htf with ⟨htf, hidle⟩ | hf
    · rw [hne htf] at hidle
      cases hidle
    · simpa [Kernel.setFrame] using hf
  · simp [Kernel.setFrame, h]

/-- The result of a system call goes to the frame of its caller. -/
theorem Quiet.setA0 (h : Quiet p k k') (hidle : (k.procs p).isIdle = false) (v : Nat) :
    Quiet p k (k'.setA0 p v) :=
  h.trans (.setFrame _ (Or.inl ⟨rfl, (Proc.space_eq_iff.mp (h.spaces p)).1.trans hidle⟩))

/-- What is quiet serves the process. -/
theorem Serves.of_quiet (h : Isolated k.layout roots k.snub live taken given fl) (hq : Quiet p k k') :
    Serves New roots p taken given fl k k' where
  isolated := ⟨live, by rwa [hq.snub, hq.layout]⟩
  confined := by
    rw [show k'.mm = k.mm from congrArg Snub.mm hq.snub]
    exact Confined.refl _ _ _
  layout := hq.layout
  kernelPagetable := hq.kernelPagetable
  tables q := (Proc.space_eq_iff.mp (hq.spaces q)).2.2.1
  heaps q hheap := by
    obtain ⟨-, -, -, hstart, hend, -⟩ := Proc.space_eq_iff.mp (hq.spaces q)
    refine ⟨?_, ?_, ?_, ?_⟩
    · rw [hstart]
      exact hheap.start
    · rw [hend]
      exact hheap.aligned
    · rw [hstart, hend]
      exact hheap.le
    · rw [hend]
      exact hheap.top
  starts q := by
    obtain ⟨-, -, -, hstart, -, hpid⟩ := Proc.space_eq_iff.mp (hq.spaces q)
    exact ⟨hstart, hpid⟩
  tfs q := (Proc.space_eq_iff.mp (hq.spaces q)).2.1
  idles q := (Proc.space_eq_iff.mp (hq.spaces q)).1
  records := hq.records
  frames := hq.frames
  uartIn := hq.uartIn

theorem Serves.refl (h : Isolated k.layout roots k.snub live taken given fl) :
    Serves New roots p taken given fl k k := .of_quiet h (.refl k)

theorem Serves.trans (h : Serves New roots p taken given fl k k₁)
    (h' : Serves New roots p taken given fl k₁ k') : Serves New roots p taken given fl k k' where
  isolated := h'.isolated
  confined := h.confined.trans h'.confined
  layout := h'.layout.trans h.layout
  kernelPagetable := h'.kernelPagetable.trans h.kernelPagetable
  tables q := (h'.tables q).trans (h.tables q)
  heaps q hq := h'.heaps q (h.heaps q hq)
  starts q := ⟨(h'.starts q).1.trans (h.starts q).1, (h'.starts q).2.trans (h.starts q).2⟩
  tfs q := (h'.tfs q).trans (h.tfs q)
  idles q := (h'.idles q).trans (h.idles q)
  records q hq hidle :=
    (h'.records q hq ((h.idles q).trans hidle)).trans (h.records q hq hidle)
  frames tf htf := (h'.frames tf (by rwa [h.tfs, h.idles])).trans (h.frames tf htf)
  uartIn := List.Subset.trans h'.uartIn h.uartIn

theorem Serves.mono {New' : UInt8 → Prop} (h : Serves New roots p taken given fl k k')
    (hsub : ∀ b, New b → New' b) : Serves New' roots p taken given fl k k' :=
  { h with confined := h.confined.mono hsub }

theorem Serves.quiet (h : Serves New roots p taken given fl k k₁) (hq : Quiet p k₁ k') :
    Serves New roots p taken given fl k k' := by
  obtain ⟨live', h'⟩ := h.isolated
  exact h.trans (.of_quiet h' hq)

theorem Serves.setA0 (h : Serves New roots p taken given fl k k') (hidle : (k.procs p).isIdle = false)
    (v : Nat) : Serves New roots p taken given fl k (k'.setA0 p v) :=
  h.quiet ((Quiet.refl k').setA0 ((h.idles p).trans hidle) v)

/-- Memory has changed for the process, and nothing else. -/
theorem Serves.of_memory {mm : Mm} (hi : ∃ live', Isolated k.layout roots { k.snub with mm := mm } live' taken given fl)
    (hc : Confined New (some p) (userViews roots k.mm.mem) (userViews roots mm.mem)) :
    Serves New roots p taken given fl k (k.setMm mm) :=
  ⟨hi, hc, rfl, rfl, fun _ => rfl, fun _ h => h, fun _ => ⟨rfl, rfl⟩, fun _ => rfl, fun _ => rfl,
    fun _ _ _ => rfl, fun _ _ => rfl, List.Subset.refl _⟩

/-! ### The calls -/

/-- **`sys_sbrk`**, for every size. -/
theorem sysSbrk_serves (h : Isolated k.layout roots k.snub live taken given fl)
    (hroot : roots (some p) = some (k.procs p).pagetable) (hheap : HeapOk (k.procs p)) (hzero : New 0)
    (hcall : k.sysSbrk p size = .ok (r, k')) : Serves New roots p taken given fl k k' := by
  by_cases hrefused : SbrkRefused k p size
  · rw [sysSbrk_refused hheap hrefused] at hcall
    obtain ⟨-, rfl⟩ := Prod.mk.inj (Except.ok.inj hcall)
    exact Serves.refl h
  · obtain ⟨r', k₁, hcall', hsafe⟩ | ⟨e, n, hstop, -⟩ := sysSbrk_bounds h.owned hroot hheap size
    swap
    · rw [hstop] at hcall
      cases hcall
    obtain ⟨rfl, rfl⟩ := Prod.mk.inj (Except.ok.inj (hcall'.symm.trans hcall))
    rw [sysSbrk_accepted hheap hrefused] at hcall
    have hnew : newBrk (k.procs p) size ≤ userHeapEnd :=
      Nat.le_of_not_lt fun hc => hrefused (Or.inr (Or.inr (Or.inr hc)))
    cases hresize : resize (k.procs p).pagetable (alignUp size) (k.procs p).heapEnd
        (newBrk (k.procs p) size) k.mm with
    | error e =>
        rw [hresize] at hcall
        cases hcall
    | ok b =>
        rw [hresize] at hcall
        have hend := Except.ok.inj hcall
        obtain ⟨live', mid, hi, -, -, -, -, hviews⟩ := resize_pages h hroot hheap hnew hresize
        have hmm : Serves New roots p taken given fl k (k.setMm b.2) :=
          .of_memory ⟨live', hi⟩ (by
            rw [hviews]
            exact Confined.clear.trans (Confined.fill fun _ => hzero))
        obtain rfl : (sbrkEnd k p size b).2 = k₁ := congrArg Prod.snd hend
        unfold sbrkEnd at hsafe ⊢
        split
        · next hok =>
          rw [if_pos hok] at hsafe
          have hne : ∀ q ≠ p, ((k.setMm b.2).setProc p { (k.setMm b.2).procs p with
              heapEnd := newBrk (k.procs p) size }).procs q = k.procs q := fun q hq => by
            simp [setProc, setMm, hq]
          have hself : ((k.setMm b.2).setProc p { (k.setMm b.2).procs p with
              heapEnd := newBrk (k.procs p) size }).procs p =
                { k.procs p with heapEnd := newBrk (k.procs p) size } := by
            simp [setProc, setMm]
          refine ⟨hmm.isolated, hmm.confined, rfl, rfl, fun q => ?_, fun q hq => ?_, fun q => ?_, fun q => ?_,
            fun q => ?_, fun q hq _ => by rw [hne q hq], fun _ _ => rfl, List.Subset.refl _⟩
          · by_cases hq : q = p
            · rw [hq, hself]
            · rw [hne q hq]
          · by_cases hp : q = p
            · rw [hp]
              exact hsafe.heap
            · rwa [hne q hp]
          · by_cases hq : q = p
            · rw [hq, hself]
              exact ⟨rfl, rfl⟩
            · rw [hne q hq]
              exact ⟨rfl, rfl⟩
          all_goals
            by_cases hq : q = p
            · rw [hq, hself]
            · rw [hne q hq]
        · exact hmm

/-- **`sys_munmap`** of a range in the user's part of the address space. -/
theorem sysMunmap_serves (h : Isolated k.layout roots k.snub live taken given fl)
    (hroot : roots (some p) = some (k.procs p).pagetable) (hrange : addr + size ≤ userEndVa)
    (hcall : k.sysMunmap p addr size = .ok (r, k')) :
    Serves New roots p taken given fl k k' := by
  unfold sysMunmap at hcall
  split at hcall
  · obtain ⟨-, rfl⟩ := Prod.mk.inj (Except.ok.inj hcall)
    exact Serves.refl h
  · next hargs =>
    obtain ⟨⟨ok, mm⟩, hloop, hk⟩ := bind_eq_ok.mp hcall
    obtain ⟨-, rfl⟩ := Prod.mk.inj (Except.ok.inj hk)
    have htop : alignUp (u64 (addr + size)) ≤ userEndVa := by
      simp only [alignUp, u64, userEndVa, pageSize] at *
      omega
    have halign : addr % pageSize = 0 := by
      by_contra hne
      exact hargs (Or.inr (Or.inr hne))
    obtain ⟨live', mid, hi, -, -, -, hviews⟩ := munmapLoop_pages hroot htop h halign hloop
    refine .of_memory ⟨live', hi⟩ ?_
    rw [hviews]
    exact Confined.clear

/-! ### Stores -/

variable {o : Option Nat} {va pa f : Nat} {c : UInt8}

/-- A byte that user code can reach is a byte of one of its pages. -/
theorem userPage_of_translate (h : Isolated L roots S live taken given fl) (ho : roots o = some root)
    (htr : S.mm.translate root va = some (pa, f)) (huser : f &&& pteU ≠ 0) :
    ∃ pa₀, userPages (leafOf S.mm.mem roots) o (pageNo va) = some (pa₀, f) ∧
      pa = pa₀ + va % pageSize := by
  by_cases hva : Canonical va
  · rw [translate_eq h.owned.tables ho hva] at htr
    obtain ⟨⟨pa₀, f₀⟩, hleaf, hat⟩ := Option.map_eq_some_iff.mp htr
    obtain ⟨rfl, rfl⟩ := Prod.mk.inj hat
    refine ⟨pa₀, userPages_eq_some.mpr ⟨?_, huser⟩, rfl⟩
    rwa [leafOf_vpage (vpage_pageNo (pageNo va))]
  · rw [Mm.translate, if_neg hva] at htr
    cases htr

/-- Below `USER_END_VA` all that is mapped is open to user code. -/
theorem user_of_low (h : Isolated L roots S live taken given fl) (ho : roots o = some root)
    (hlow : va < userEndVa) (htr : S.mm.translate root va = some (pa, f)) : f &&& pteU ≠ 0 := by
  have hcanon : Canonical va := by
    simp only [Canonical, userEndVa] at *
    omega
  rw [translate_eq h.owned.tables ho hcanon] at htr
  obtain ⟨⟨pa₀, f₀⟩, hleaf, hat⟩ := Option.map_eq_some_iff.mp htr
  obtain ⟨-, rfl⟩ := Prod.mk.inj hat
  exact (h.userEntry_of_low (vpage_low hlow) hleaf).user

/-- A byte is stored through the table of the process `p`, in a page of user code: of that page it is
one byte. -/
theorem store_view (h : Isolated L roots S live taken given fl) (ho : roots (some p) = some root)
    (htr : S.mm.translate root va = some (pa, f)) (huser : f &&& pteU ≠ 0) :
    ∃ b b' : PageBytes, userViews roots S.mm.mem (some p) (pageNo va) = some (b, f) ∧
      Isolated L roots { S with mm := S.mm.setMem (Function.update S.mm.mem pa c) } live taken given fl ∧
      userViews roots (Function.update S.mm.mem pa c) =
        put (userViews roots S.mm.mem) (some p) (pageNo va) (some (b', f)) ∧
      ∀ d : Fin pageSize, b' d = if d.val = va % pageSize then c else b d := by
  obtain ⟨pa₀, hpage, rfl⟩ := userPage_of_translate h ho htr huser
  have hin : InPage pa₀ (pa₀ + va % pageSize) :=
    ⟨Nat.le_add_right _ _, Nat.add_lt_add_left (Nat.mod_lt _ (by decide)) _⟩
  set m := Function.update S.mm.mem (pa₀ + va % pageSize) c with hm
  have hsame : ∀ x, ¬InPage pa₀ x → m x = S.mm.mem x := by
    intro x hx
    rw [hm, Function.update_of_ne]
    rintro rfl
    exact hx hin
  obtain ⟨hi, hviews⟩ : Isolated L roots { S with mm := S.mm.setMem m } live taken given fl ∧
      userViews roots m = put (userViews roots S.mm.mem) (some p) (pageNo va)
        (some (contents m pa₀, f)) :=
    h.write hpage ⟨⟨rfl, rfl, rfl, rfl⟩, rfl, rfl⟩ rfl hsame
  refine ⟨contents S.mm.mem pa₀, contents m pa₀, view_of_some _ hpage, hi, hviews, fun d => ?_⟩
  by_cases hd : d.val = va % pageSize
  · rw [if_pos hd, contents, hm, hd, Function.update_self]
  · rw [if_neg hd, contents, hm, Function.update_of_ne fun heq => hd (Nat.add_left_cancel heq)]
    rfl

/-- **A store of one byte** through the table of `o`, to a page of user code. -/
theorem store_serves (h : Isolated k.layout roots k.snub live taken given fl)
    (ho : roots o = some root) (hp : o = none ∨ o = some p) (htr : k.mm.translate root va = some (pa, f))
    (huser : f &&& pteU ≠ 0) (hnew : New c) :
    Serves New roots p taken given fl k (k.setMm (k.mm.setMem (Function.update k.mm.mem pa c))) := by
  obtain ⟨pa₀, hpage, -⟩ := userPage_of_translate h ho htr huser
  obtain rfl : o = some p := hp.resolve_left (h.userEntry hpage).owner
  obtain ⟨b, b', hb, hi, hviews, hb'⟩ := store_view (c := c) h ho htr huser
  have hconf : Confined New (some p) (userViews roots k.snub.mm.mem)
      (userViews roots (Function.update k.snub.mm.mem pa c)) := by
    rw [hviews]
    refine Confined.write hb fun d => ?_
    rw [hb' d]
    split
    · exact Or.inl hnew
    · exact Or.inr rfl
  exact .of_memory ⟨live, hi⟩ hconf

/-- **User code stores a byte.** -/
theorem userStore_serves (h : Isolated k.layout roots k.snub live taken given fl)
    (ho : roots o = some k.satpRoot) (hp : o = none ∨ o = some p) (hstore : k.userStore va c = some k') :
    Serves (· = c) roots p taken given fl k k' := by
  obtain ⟨pa, haccess, rfl⟩ := Option.map_eq_some_iff.mp hstore
  unfold userAccess at haccess
  split at haccess
  · next pa' f htr =>
    split at haccess
    · next hflags =>
      obtain rfl := Option.some.inj haccess
      exact store_serves h ho hp htr hflags.1 rfl
    · cases haccess
  · cases haccess

/-- **A copy to user memory.** -/
theorem storeUser_serves (ho : roots o = some root) (hp : o = none ∨ o = some p) {bytes : List UInt8} :
    ∀ {va : Nat} {k : Kernel} {live : Multiset (Nat × Nat)},
      Isolated k.layout roots k.snub live taken given fl → k.satpRoot = root →
      va + bytes.length ≤ userEndVa → (∀ c ∈ bytes, New c) → storeUser va bytes k = .ok k' →
      Serves New roots p taken given fl k k' := by
  induction bytes with
  | nil =>
      intro va k live h hroot hle hnew hcall
      obtain rfl := Except.ok.inj hcall
      exact Serves.refl h
  | cons c bytes ih =>
      intro va k live h hroot hle hnew hcall
      rw [List.length_cons] at hle
      obtain ⟨pa, haccess, hrest⟩ := bind_eq_ok.mp hcall
      unfold access at haccess
      split at haccess
      · next pa' f htr =>
        split at haccess
        · obtain rfl := Except.ok.inj haccess
          rw [hroot] at htr
          have huser := user_of_low h ho (by omega) htr
          have hone := store_serves h ho hp htr huser (hnew c List.mem_cons_self)
          obtain ⟨live', h'⟩ := hone.isolated
          exact hone.trans (ih h' hroot (by omega)
            (fun b hb => hnew b (List.mem_cons_of_mem _ hb)) hrest)
        · cases haccess
      · cases haccess

/-! ### System calls -/

theorem end_of_isUserAddr {len : Nat} (h : isUserAddr va len = true) : va + len ≤ userEndVa := by
  simp only [isUserAddr, userEndVa, Bool.and_eq_true, decide_eq_true_eq] at *
  omega

/-- What happens to the UART and to `sstatus` is quiet. -/
theorem quiet_uartPutsn {bytes : List UInt8} : ∀ {len : Nat} {k : Kernel},
    Quiet p k (k.uartPutsn bytes len).2 := by
  induction bytes with
  | nil => exact fun {_ k} => .refl k
  | cons c bytes ih =>
      intro len k
      cases len with
      | zero => exact .refl k
      | succ len =>
          rw [uartPutsn]
          split
          · exact .refl k
          · have hputc : Quiet p k (k.uartPutc c) := .of_eq rfl rfl rfl rfl rfl rfl
            have hrest : Quiet p (k.uartPutc c) ((k.uartPutc c).uartPutsn bytes len).2 := ih
            exact hputc.trans hrest

theorem copyFromUser_quiet {n : Nat} {b : Option (List UInt8) × Kernel}
    (hcall : k.copyFromUser addr n = .ok b) : Quiet p k b.2 := by
  unfold copyFromUser at hcall
  split at hcall
  · obtain rfl := Except.ok.inj hcall
    exact .refl k
  · obtain ⟨bytes, -, hk⟩ := bind_eq_ok.mp hcall
    obtain rfl := Except.ok.inj hk
    exact .of_eq rfl rfl rfl rfl rfl rfl

theorem sysWrite_quiet {fd : Nat} (hcall : k.sysWrite fd addr size = .ok (r, k')) : Quiet p k k' := by
  unfold sysWrite at hcall
  split at hcall
  · obtain ⟨-, rfl⟩ := Prod.mk.inj (Except.ok.inj hcall)
    exact .refl k
  · obtain ⟨⟨bytes, k₁⟩, hcopy, hrest⟩ := bind_eq_ok.mp hcall
    have hquiet : Quiet p k k₁ := copyFromUser_quiet hcopy
    cases bytes with
    | none =>
        obtain ⟨-, rfl⟩ := Prod.mk.inj (Except.ok.inj hrest)
        exact hquiet
    | some bytes =>
        obtain ⟨-, rfl⟩ := Prod.mk.inj (Except.ok.inj hrest)
        exact hquiet.trans quiet_uartPutsn

/-- **`sys_read`** brings bytes that were typed. -/
theorem sysRead_serves {fd : Nat} (h : Isolated k.layout roots k.snub live taken given fl)
    (ho : roots (some p) = some k.satpRoot) (htyped : ∀ c ∈ k.uartIn, New (crToLf c))
    (hcall : k.sysRead fd addr size = .ok (r, k')) : Serves New roots p taken given fl k k' := by
  unfold sysRead at hcall
  split at hcall
  · obtain ⟨-, rfl⟩ := Prod.mk.inj (Except.ok.inj hcall)
    exact .refl h
  · obtain ⟨⟨bytes, k₁⟩, hgets, hrest⟩ := bind_eq_ok.mp hcall
    rw [uartGets, uartGetsLoop_eq] at hgets
    split at hgets
    · cases hgets
    · next n _ =>
      obtain ⟨rfl, rfl⟩ := Prod.mk.inj (Except.ok.inj hgets)
      have hecho : Quiet p k (k.echoed n) :=
        ⟨rfl, rfl, rfl, fun _ => rfl, fun _ _ _ => rfl, fun _ _ => rfl, List.drop_subset n k.uartIn⟩
      have hquiet : Quiet p k (k.echoed n).setSum := hecho.trans (.of_eq rfl rfl rfl rfl rfl rfl)
      obtain ⟨⟨ok, k₂⟩, hcopy, hend⟩ := bind_eq_ok.mp hrest
      obtain rfl : k₂ = k' := by
        dsimp only at hend
        split at hend
        · exact (Prod.mk.inj (Except.ok.inj hend)).2
        · exact (Prod.mk.inj (Except.ok.inj hend)).2
      unfold copyToUser at hcopy
      split at hcopy
      · obtain ⟨-, rfl⟩ := Prod.mk.inj (Except.ok.inj hcopy)
        exact .of_quiet h hecho
      · next haddr =>
        obtain ⟨k₃, hstore, hk⟩ := bind_eq_ok.mp hcopy
        obtain ⟨-, rfl⟩ := Prod.mk.inj (Except.ok.inj hk)
        rw [Bool.not_eq_true', Bool.not_eq_false] at haddr
        have hle := end_of_isUserAddr haddr
        have hnew : ∀ c ∈ (k.uartIn.take n).map crToLf, New c := by
          intro c hc
          obtain ⟨b, hb, rfl⟩ := List.mem_map.mp hc
          exact htyped b (List.mem_of_mem_take hb)
        have hserves : Serves New roots p taken given fl (k.echoed n).setSum k₃ :=
          storeUser_serves ho (Or.inr rfl) h rfl hle hnew hstore
        exact ((Serves.of_quiet h hquiet).trans hserves).quiet (.of_eq rfl rfl rfl rfl rfl rfl)

theorem sysSleepMs_quiet {ms : Nat} {clock : Nat → Nat} (hcall : k.sysSleepMs p ms clock = .ok (r, k')) :
    Quiet p k k' := by
  unfold sysSleepMs at hcall
  split at hcall
  · obtain ⟨-, rfl⟩ := Prod.mk.inj (Except.ok.inj hcall)
    exact .refl k
  · obtain ⟨nodes, -, hk⟩ := bind_eq_ok.mp hcall
    obtain ⟨-, rfl⟩ := Prod.mk.inj (Except.ok.inj hk)
    have hsleep : Quiet p k ((k.setState p .sleeping).setNodes nodes) :=
      (Quiet.setState p .sleeping).trans (.of_eq rfl rfl rfl rfl rfl rfl)
    exact hsleep.trans (.setProc rfl (Or.inl rfl))

/-- A call of `munmap` is for a range of the user's part of the address space. -/
def UnmapsOwn (k : Kernel) (p : Nat) : Prop :=
  k.reg p 17 % 2 ^ 32 = SYS_munmap → k.reg p 10 + k.reg p 11 ≤ userEndVa

/-- **A system call** of the process `p`, whose table is loaded. -/
theorem syscallHandler_serves {clock : Nat → Nat} (h : Isolated k.layout roots k.snub live taken given fl)
    (hroot : roots (some p) = some (k.procs p).pagetable) (hsatp : k.satpRoot = (k.procs p).pagetable)
    (hheap : HeapOk (k.procs p)) (hidle : (k.procs p).isIdle = false)
    (hunmap : k.UnmapsOwn p) (hzero : New 0) (htyped : ∀ c ∈ k.uartIn, New (crToLf c))
    (hcall : k.syscallHandler p clock = .ok k') :
    Serves New roots p taken given fl k k' := by
  have hneeds : ∀ {k₁ : Kernel} (b : Bool), Quiet p k₁ (k₁.setNeedsSched b) :=
    fun _ => .of_eq rfl rfl rfl rfl rfl rfl
  unfold syscallHandler at hcall
  split at hcall
  · obtain ⟨⟨r, k₁⟩, hsys, hk⟩ := bind_eq_ok.mp hcall
    obtain rfl := Except.ok.inj hk
    exact .of_quiet h ((sysWrite_quiet hsys).setA0 hidle r)
  · obtain ⟨⟨r, k₁⟩, hsys, hk⟩ := bind_eq_ok.mp hcall
    obtain rfl := Except.ok.inj hk
    exact (sysRead_serves h (hsatp ▸ hroot) htyped hsys).setA0 hidle r
  · obtain rfl := Except.ok.inj hcall
    exact .of_quiet h ((Quiet.setState p .zombie).trans (hneeds true))
  · obtain rfl := Except.ok.inj hcall
    exact .of_quiet h ((Quiet.refl k).setA0 hidle _)
  · obtain rfl := Except.ok.inj hcall
    exact .of_quiet h (hneeds true)
  · obtain ⟨⟨r, k₁⟩, hsys, hk⟩ := bind_eq_ok.mp hcall
    obtain rfl := Except.ok.inj hk
    exact .of_quiet h (((sysSleepMs_quiet hsys).setA0 hidle r).trans (hneeds true))
  · obtain ⟨⟨r, k₁⟩, hsys, hk⟩ := bind_eq_ok.mp hcall
    obtain rfl := Except.ok.inj hk
    exact (sysSbrk_serves h hroot hheap hzero hsys).setA0 hidle r
  · next hnum =>
    obtain ⟨⟨r, k₁⟩, hsys, hk⟩ := bind_eq_ok.mp hcall
    obtain rfl := Except.ok.inj hk
    exact (sysMunmap_serves h hroot (hunmap hnum) hsys).setA0 hidle r
  · obtain rfl := Except.ok.inj hcall
    exact .of_quiet h ((Quiet.refl k).setA0 hidle _)

end Kernel

end SystemN
