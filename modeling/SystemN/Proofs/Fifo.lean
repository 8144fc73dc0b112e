/-
The run queue is first in, first out.

`timer_handle` moves the sleepers that are due to the end of the run queue, and
`schedule` takes the process at its front and puts the outgoing one at its end.  So
along a run of yields and timer interrupts a waiting process moves up one place with
each call of `schedule`, whoever is woken in between: the run lemma keeps the part of the
old queue that is left at the front of the new one.  Where nobody is woken, the current
process and the run queue together are the same list, turned by one place at each call.

What the states of the processes are plays no part in this, only that the queues are well
formed and that the current process is in neither of them.
-/
import SystemN.Proofs.SchedRun

namespace SystemN.Kernel

open Rings SchedView

variable {k k₀ k₁ k' : Kernel} {runs sleeps : List Nat} {t : Trap}

/-! ### `timer_handle` -/

/--
**`timer_handle` wakes those that are due.**  For any two queues and any clock the loop ends after
a round for each sleeper and one more, and a larger bound changes nothing.  The sleepers that are
due at the second reading have then gone to the end of the run queue, in their order, and the
others stay in theirs; nothing else of the kernel has changed but the states of those woken,
`needs_sched` and `stimecmp`.
-/
theorem timerHandle_wakes_due (clock : Nat → Nat) (h : Queues k.nodes runs sleeps) :
    ∃ k', (∀ rounds, sleeps.length < rounds → k.timerHandleIn rounds clock = .ok k') ∧
      Queues k'.nodes (runs ++ sleeps.filter (due (clock 1) k.view))
        (sleeps.filter fun p => !due (clock 1) k.view p) ∧
      Woke (k.writeStimecmp (u64 (clock 0 + timerInterval)))
        (sleeps.filter (due (clock 1) k.view)) k' := by
  obtain ⟨v, hv⟩ : ∃ v, v = u64 (clock 0 + timerInterval) := ⟨_, rfl⟩
  obtain ⟨k', hcall, hspec⟩ :=
    wakeSleepersIn_spec (k := k.writeStimecmp v) (clock 1) h (Nat.lt_succ_self sleeps.length)
  rw [view_writeStimecmp] at hspec
  rw [← hv]
  refine ⟨k', fun rounds hrounds => ?_, hspec⟩
  rw [timerHandleIn, ← hv]
  exact wakeSleepersIn_mono hrounds hcall

/-- Two sleepers, of which the first is due at time 5000. -/
theorem timerHandle_wakes_twoProcs :
    ∃ (k k' : Kernel), Queues k.nodes [] [1, 2] ∧
      (∀ rounds, 2 < rounds → k.timerHandleIn rounds (fun _ => 5000) = .ok k') ∧
      Queues k'.nodes [1] [2] := by
  have hempty := (setupIdleProc_spec (k := twoProcs) 0).1
  obtain ⟨nodes₁, -, hq₁⟩ := hempty.add_sleep (p := 1) List.not_mem_nil List.not_mem_nil
  obtain ⟨nodes₂, -, hq₂⟩ := hq₁.add_sleep (p := 2) List.not_mem_nil (by decide)
  let k : Kernel := { twoProcs with
    nodes := nodes₂, procs := fun p => { Proc.zero with sleepUntil := 4000 * p } }
  obtain ⟨k', hcall, hq, -⟩ := timerHandle_wakes_due (k := k) (fun _ => 5000) hq₂
  exact ⟨k, k', hq₂, hcall, hq⟩

/-! ### The end of a trap -/

/-- Two queues that the traps of a CPU keep in order: the current process is in neither, and the
idle process is in neither. -/
structure Fifo (v : SchedView) (runs sleeps : List Nat) : Prop where
  queues : Queues v.nodes runs sleeps
  curr : v.curr ≠ 0 ∧ v.curr ∉ runs ∧ v.curr ∉ sleeps
  users : ∀ p, p ∈ runs ∨ p ∈ sleeps → p ≠ 0 ∧ v.isIdle p = false
  idle : v.idle ≠ 0 ∧ v.isIdle v.idle = true
  /-- Every process has been given a pid. -/
  count : sleeps.length ≤ v.nextPid

namespace Fifo

variable {v : SchedView}

theorem idle_notMem (h : Fifo v runs sleeps) : v.idle ∉ runs ∧ v.idle ∉ sleeps := by
  have hnot : ∀ p, p ∈ runs ∨ p ∈ sleeps → v.idle ≠ p := by
    rintro p hp rfl
    have hfalse := (h.users _ hp).2
    rw [h.idle.2] at hfalse
    cases hfalse
  exact ⟨fun hm => hnot _ (.inl hm) rfl, fun hm => hnot _ (.inr hm) rfl⟩

end Fifo

/-- **`schedule`** takes the process at the front. -/
theorem schedule_fifo {q : Nat} {rest : List Nat} (h : Fifo k.view (q :: rest) sleeps) :
    ∃ k', k.schedule = .ok k' ∧ Fifo k'.view (rest ++ outgoing k.view) sleeps ∧
      k'.view.curr = q ∧ k'.view.isIdle = k.view.isIdle ∧ k'.view.sleepUntil = k.view.sleepUntil := by
  obtain ⟨hzero, hruns, hsleeps⟩ := h.curr
  obtain ⟨k', hcall, hq, hview⟩ := schedule_spec h.queues fun _ => ⟨hruns, hsleeps⟩
  refine ⟨k', hcall, ?_, by rw [hview], by rw [hview], by rw [hview]⟩
  have hout : ∀ p, p ∈ outgoing k.view → p = k.view.curr ∧ k.view.isIdle p = false := by
    intro p hp
    unfold outgoing at hp
    split at hp
    · cases hp
    · next hidle =>
      obtain rfl := List.mem_singleton.mp hp
      exact ⟨rfl, by simpa using hidle⟩
  have hrest : q ∉ rest := (List.nodup_cons.mp h.queues.runs_nodup).1
  rw [hview]
  refine ⟨hq, ⟨(h.users q (.inl List.mem_cons_self)).1, fun hm => ?_, ?_⟩, ?_, h.idle, h.count⟩
  · rcases List.mem_append.mp hm with hm | hm
    · exact hrest hm
    · exact hruns ((hout q hm).1 ▸ List.mem_cons_self)
  · exact h.queues.disjoint q List.mem_cons_self
  · rintro p (hp | hp)
    · rcases List.mem_append.mp hp with hp | hp
      · exact h.users p (.inl (List.mem_cons_of_mem q hp))
      · obtain ⟨rfl, hidle⟩ := hout p hp
        exact ⟨hzero, hidle⟩
    · exact h.users p (.inr hp)

theorem schedule_fifo_nil (h : Fifo k.view [] sleeps) :
    ∃ k', k.schedule = .ok k' ∧ Fifo k'.view [] sleeps ∧ k'.view.isIdle = k.view.isIdle ∧
      k'.view.sleepUntil = k.view.sleepUntil := by
  obtain ⟨k', hcall, hview⟩ := schedule_none h.queues
  refine ⟨k', hcall, ?_, by rw [hview], by rw [hview]⟩
  rw [hview]
  refine ⟨h.queues, ?_, h.users, h.idle, h.count⟩
  dsimp only
  split
  · exact h.curr
  · exact ⟨h.idle.1, h.idle_notMem⟩

/-! ### Yields and timer interrupts -/

/-- A yield of the current process, as `trap_vector` hands it over. -/
structure IsYield (k : Kernel) (t : Trap) : Prop where
  user : (k.procs k.cpu.proc).isIdle = false
  code : scauseCode t.scause = scauseUserEcall ∨ scauseCode t.scause = scauseSupervisorEcall
  frame : t.frame.scause = t.scause
  number : (k.trapEntry t).reg k.cpu.proc 17 % 2 ^ 32 = SYS_yield

/-- A timer interrupt, whoever is current. -/
structure IsTick (t : Trap) : Prop where
  cause : isTimer t.scause = true
  frame : t.frame.scause = t.scause

/-- The state in which `trap_handler` comes to its `end:`. -/
def atEnd (k : Kernel) (t : Trap) : Except Stop Kernel :=
  let k := k.trapEntry t
  if (k.procs k.cpu.proc).isIdle then k.timerHandle t.clock
  else k.switchCode t.tf k.cpu.proc t.clock

theorem IsTick.split (h : IsTick t) :
    isIrq t.scause = true ∧ scauseCode t.scause = scauseTimerInterrupt := by
  have hcause := h.cause
  simpa only [isTimer, Bool.and_eq_true, beq_iff_eq] using hcause

theorem trapEntry_frame : (k.trapEntry t).frames t.tf = t.frame := Function.update_self ..

/-- These traps come to the `end:` of the handler. -/
theorem takeTrap_eq (hzero : k.cpu.proc ≠ 0) (ht : IsYield k t ∨ IsTick t) :
    k.takeTrap t = k.atEnd t >>= trapEnd := by
  have hproc : (k.trapEntry t).cpu.proc = k.cpu.proc := rfl
  have hprocs : (k.trapEntry t).procs = k.procs := rfl
  have hcause : (k.trapEntry t).hart.scause = t.scause := rfl
  have hframe : ¬(scauseCode t.frame.scause = 5 ∧ (!isIrq t.frame.scause) = true) := by
    rcases ht with ht | ht
    · rw [ht.frame]
      rintro ⟨hcode, -⟩
      rcases ht.code with h | h
      · rw [h] at hcode
        cases hcode
      · rw [h] at hcode
        cases hcode
    · rw [ht.frame, ht.split.1]
      exact fun hcon => by cases hcon.2
  unfold takeTrap trapHandler atEnd
  dsimp only
  rw [hproc, hprocs, hcause, trapEntry_frame]
  by_cases hidle : (k.procs k.cpu.proc).isIdle = true
  · have htick : isTimer t.scause = true := by
      rcases ht with ht | ht
      · rw [ht.user] at hidle
        cases hidle
      · exact ht.cause
    rw [if_pos ⟨hzero, hidle⟩, if_pos htick, if_pos hidle]
  · rw [if_neg fun hcon => hidle hcon.2, if_neg hframe, if_neg hzero, if_neg hidle]

theorem atEnd_yield (ht : IsYield k t) :
    ∃ k₁, k.atEnd t = .ok k₁ ∧ k₁.view = { k.view with needsSched := true } := by
  have hnum := ht.number
  have hidle : ¬((k.trapEntry t).procs (k.trapEntry t).cpu.proc).isIdle = true := by
    rw [show ((k.trapEntry t).procs (k.trapEntry t).cpu.proc).isIdle = _ from ht.user]
    exact Bool.false_ne_true
  have hview : (k.trapEntry t).view = k.view := rfl
  have hproc : (k.trapEntry t).cpu.proc = k.cpu.proc := rfl
  have hcause : (k.trapEntry t).hart.scause = t.scause := rfl
  unfold atEnd
  dsimp only
  rw [if_neg hidle, hproc]
  generalize k.trapEntry t = k₂ at *
  have hreg : (k₂.setFrame t.tf { k₂.frames t.tf with
      sepc := u64 ((k₂.frames t.tf).sepc + 4) }).reg k.cpu.proc 17 = k₂.reg k.cpu.proc 17 := by
    unfold reg setFrame
    by_cases htf : (k₂.procs k.cpu.proc).tf = t.tf
    · simp [htf]
    · simp [htf]
  have hcall : k₂.switchCode t.tf k.cpu.proc t.clock = k₂.ecall t.tf k.cpu.proc t.clock := by
    unfold switchCode
    rw [hcause]
    rcases ht.code with h | h
    · rw [h]
      rfl
    · rw [h]
      rfl
  rw [hcall, ecall, syscallHandler, hreg, hnum]
  refine ⟨_, rfl, ?_⟩
  rw [view_setNeedsSched, view_setFrame, hview]

theorem atEnd_tick (ht : IsTick t) : k.atEnd t = (k.trapEntry t).timerHandle t.clock := by
  have hcause : (k.trapEntry t).hart.scause = t.scause := rfl
  unfold atEnd
  dsimp only
  split
  · rfl
  · rw [switchCode, hcause, ht.split.2]
    exact if_pos ht.split.1

/-- The traps that the runs below consist of. -/
def YieldOrTick (k : Kernel) (t : Trap) : Prop := IsYield k t ∨ IsTick t

/-- **Up to the `end:`** sleepers may have joined the run queue at its end, and a yield asks for
`schedule`. -/
theorem atEnd_fifo (h : Fifo k.view runs sleeps) (ht : YieldOrTick k t) :
    ∃ k₁ woken sleeps', k.atEnd t = .ok k₁ ∧ Fifo k₁.view (runs ++ woken) sleeps' ∧
      k₁.view.curr = k.view.curr ∧ k₁.view.isIdle = k.view.isIdle ∧
      k₁.view.sleepUntil = k.view.sleepUntil ∧ (IsYield k t → k₁.view.needsSched = true) ∧
      (IsYield k t ∨ (∀ p ∈ sleeps, t.clock 1 < k.view.sleepUntil p) → woken = [] ∧ sleeps' = sleeps) := by
  by_cases hyield : IsYield k t
  · obtain ⟨k₁, hcall, hview⟩ := atEnd_yield hyield
    refine ⟨k₁, [], sleeps, hcall, ?_, by rw [hview], by rw [hview], by rw [hview],
      fun _ => by rw [hview], fun _ => ⟨rfl, rfl⟩⟩
    rw [hview, List.append_nil]
    exact ⟨h.queues, h.curr, h.users, h.idle, h.count⟩
  · have htick := ht.resolve_left hyield
    have hentry : (k.trapEntry t).view = k.view := rfl
    obtain ⟨k₁, hcall, hq, hwoke⟩ := wakeSleepersIn_spec
      (k := (k.trapEntry t).writeStimecmp (u64 (t.clock 0 + timerInterval))) (t.clock 1) h.queues
      (Nat.lt_succ_of_le h.count)
    have hcall' : k.atEnd t = .ok k₁ := by
      rw [atEnd_tick htick, timerHandle_eq]
      exact hcall
    have hview := hwoke.view
    rw [view_writeStimecmp, hentry] at hview hq
    have hmem : ∀ p, p ∈ sleeps.filter (due (t.clock 1) k.view) → p ∈ sleeps :=
      fun p => List.mem_of_mem_filter
    refine ⟨k₁, sleeps.filter (due (t.clock 1) k.view), sleeps.filter fun p => !due (t.clock 1) k.view p,
      hcall', ?_, by rw [hview], by rw [hview], by rw [hview], fun hy => absurd hy hyield, fun hnone => ?_⟩
    · rw [hview]
      refine ⟨hq, ⟨h.curr.1, fun hm => ?_, fun hm => h.curr.2.2 (List.mem_of_mem_filter hm)⟩, ?_,
        h.idle, (List.length_filter_le _ sleeps).trans h.count⟩
      · rcases List.mem_append.mp hm with hm | hm
        · exact h.curr.2.1 hm
        · exact h.curr.2.2 (hmem _ hm)
      · rintro p (hp | hp)
        · rcases List.mem_append.mp hp with hp | hp
          · exact h.users p (.inl hp)
          · exact h.users p (.inr (hmem p hp))
        · exact h.users p (.inr (List.mem_of_mem_filter hp))
    · have hlate := hnone.resolve_left hyield
      have hnot : ∀ p ∈ sleeps, due (t.clock 1) k.view p = false := fun p hp =>
        decide_eq_false (not_le.mpr (hlate p hp))
      refine ⟨List.filter_eq_nil_iff.mpr fun p hp => by simp [hnot p hp],
        List.filter_eq_self.mpr fun p hp => by simp [hnot p hp]⟩

/-- **The end of a trap** that calls `schedule`. -/
theorem trapEnd_fifo (h : Fifo k.view runs sleeps) (hneeds : k.cpu.needsSched = true) :
    ∃ k' runs', k.trapEnd = .ok k' ∧ Fifo k'.view runs' sleeps ∧
      k'.view.isIdle = k.view.isIdle ∧ k'.view.sleepUntil = k.view.sleepUntil ∧
      ∀ q rest, runs = q :: rest → k'.view.curr = q ∧ runs' = rest ++ outgoing k.view := by
  have hcall : k.trapEnd = (k.setNeedsSched false).schedule := if_pos hneeds
  have h' : Fifo (k.setNeedsSched false).view runs sleeps :=
    ⟨h.queues, h.curr, h.users, h.idle, h.count⟩
  cases runs with
  | nil =>
      obtain ⟨k', hk', hf, hidle, hsleep⟩ := schedule_fifo_nil h'
      exact ⟨k', [], hcall.trans hk', hf, hidle, hsleep, nofun⟩
  | cons q rest =>
      obtain ⟨k', hk', hf, hcurr, hidle, hsleep⟩ := schedule_fifo h'
      refine ⟨k', _, hcall.trans hk', hf, hidle, hsleep, ?_⟩
      rintro q' rest' heq
      obtain ⟨rfl, rfl⟩ := List.cons.inj heq
      exact ⟨hcurr, rfl⟩

theorem trapEnd_quiet (hneeds : k.cpu.needsSched = false) : k.trapEnd = .ok k :=
  if_neg (by rw [hneeds]; exact Bool.false_ne_true)

/-- None of these traps halts. -/
theorem takeTrap_fifo (h : Fifo k.view runs sleeps) (ht : YieldOrTick k t) :
    ∃ k', k.takeTrap t = .ok k' := by
  obtain ⟨k₁, woken, sleeps', hend, h₁, -⟩ := atEnd_fifo h ht
  rw [takeTrap_eq h.curr.1 ht, hend, ok_bind]
  cases hneeds : k₁.cpu.needsSched with
  | false => exact ⟨k₁, trapEnd_quiet hneeds⟩
  | true =>
      obtain ⟨k', -, hk', -⟩ := trapEnd_fifo h₁ hneeds
      exact ⟨k', hk'⟩

/-! ### Runs -/

/-- The runs of traps that are `allowed`, with the processes that the calls of `schedule` have made
current, in the order of the calls. -/
inductive FifoRun (allowed : Kernel → Trap → Prop) (k₀ : Kernel) : List Nat → Kernel → Prop
  | start : FifoRun allowed k₀ [] k₀
  | stay {ds : List Nat} {k k₁ k' : Kernel} {t : Trap} (hrun : FifoRun allowed k₀ ds k)
      (ht : allowed k t) (hend : k.atEnd t = .ok k₁) (hneeds : k₁.cpu.needsSched = false)
      (hcall : k.takeTrap t = .ok k') : FifoRun allowed k₀ ds k'
  | call {ds : List Nat} {k k₁ k' : Kernel} {t : Trap} (hrun : FifoRun allowed k₀ ds k)
      (ht : allowed k t) (hend : k.atEnd t = .ok k₁) (hneeds : k₁.cpu.needsSched = true)
      (hcall : k.takeTrap t = .ok k') : FifoRun allowed k₀ (ds ++ [k'.cpu.proc]) k'

/-- What `ds` calls of `schedule` have left of a run queue that held `runs`. -/
structure InOrder (runs ds : List Nat) (k : Kernel) : Prop where
  queue : ∃ tail sleeps, Fifo k.view (runs.drop ds.length ++ tail) sleeps
  /-- The first calls have made the processes of the queue current, one after the other. -/
  dispatched : ∀ i, i < ds.length → i < runs.length → ds[i]? = runs[i]?
  last : ∀ q, ds.getLast? = some q → k.cpu.proc = q

theorem FifoRun.inOrder {ds : List Nat} (h : Fifo k₀.view runs sleeps)
    (hrun : FifoRun YieldOrTick k₀ ds k) : InOrder runs ds k := by
  induction hrun with
  | start => exact ⟨⟨[], sleeps, by simpa using h⟩, fun i hi => by simp at hi, nofun⟩
  | @stay ds k k₁ k' t hrun ht hend hneeds hcall ih =>
      obtain ⟨tail, sleeps₁, hf⟩ := ih.queue
      obtain ⟨k₂, woken, sleeps', hend', h₂, hcurr, -⟩ := atEnd_fifo hf ht
      obtain rfl := Except.ok.inj (hend'.symm.trans hend)
      rw [takeTrap_eq hf.curr.1 ht, hend, ok_bind, trapEnd_quiet hneeds] at hcall
      obtain rfl := Except.ok.inj hcall
      refine ⟨⟨tail ++ woken, sleeps', ?_⟩, ih.dispatched, fun q hq => ?_⟩
      · rwa [← List.append_assoc]
      · exact hcurr.trans (ih.last q hq)
  | @call ds k k₁ k' t hrun ht hend hneeds hcall ih =>
      obtain ⟨tail, sleeps₁, hf⟩ := ih.queue
      obtain ⟨k₂, woken, sleeps', hend', h₂, hcurr, -⟩ := atEnd_fifo hf ht
      obtain rfl := Except.ok.inj (hend'.symm.trans hend)
      obtain ⟨k₃, runs', hcall', h₃, -, -, hfront⟩ := trapEnd_fifo h₂ hneeds
      rw [takeTrap_eq hf.curr.1 ht, hend, ok_bind, hcall'] at hcall
      obtain rfl := Except.ok.inj hcall
      have hlen : (ds ++ [k₃.cpu.proc]).length = ds.length + 1 := by simp
      have hlast : ∀ q, (ds ++ [k₃.cpu.proc]).getLast? = some q → k₃.cpu.proc = q := fun q hq => by
        simpa using hq
      by_cases hn : ds.length < runs.length
      · -- a process of the old queue is at the front
        obtain ⟨hcurr₃, rfl⟩ := hfront runs[ds.length] (runs.drop (ds.length + 1) ++ (tail ++ woken)) (by
          rw [List.append_assoc, List.drop_eq_getElem_cons hn, List.cons_append])
        refine ⟨⟨tail ++ woken ++ outgoing k₂.view, sleeps', ?_⟩, fun i hi hir => ?_, hlast⟩
        · rw [hlen]
          simpa using h₃
        · rw [hlen] at hi
          by_cases hlt : i < ds.length
          · rw [List.getElem?_append_left hlt]
            exact ih.dispatched i hlt hir
          · obtain rfl : i = ds.length := by omega
            rw [List.getElem?_concat_length, List.getElem?_eq_getElem hir]
            exact congrArg some hcurr₃
      · have hnil : runs.drop (ds.length + 1) = [] := List.drop_eq_nil_of_le (by omega)
        refine ⟨⟨runs', sleeps', ?_⟩, fun i hi hir => ?_, hlast⟩
        · rw [hlen, hnil]
          exact h₃
        · have hlt : i < ds.length := by omega
          rw [List.getElem?_append_left hlt]
          exact ih.dispatched i hlt hir

/-- The current process and the run queue behind it are a list that each call of `schedule` turns by
one place, while nobody is woken. -/
structure Turning (cyc : List Nat) (sleeps : List Nat) (k₀ : Kernel) (ds : List Nat) (k : Kernel) :
    Prop where
  queue : ∃ runs, Fifo k.view runs sleeps ∧ k.view.curr :: runs = cyc.rotate ds.length
  dispatched : ∀ j, j < ds.length → ds[j]? = cyc[(j + 1) % cyc.length]?
  isIdle : k.view.isIdle = k₀.view.isIdle
  sleepUntil : k.view.sleepUntil = k₀.view.sleepUntil

/-- Its turn never comes to the idle process. -/
theorem Turning.user {cyc ds : List Nat} (h : Turning cyc sleeps k₀ ds k)
    (husers : ∀ p ∈ cyc, k₀.view.isIdle p = false) : k.view.isIdle k.view.curr = false := by
  obtain ⟨queue, -, hturn⟩ := h.queue
  have hmem : k.view.curr ∈ cyc.rotate ds.length := by
    rw [← hturn]
    exact List.mem_cons_self
  rw [h.isIdle]
  exact husers _ (List.mem_rotate.mp hmem)

/-- The current process and those that wait are users. -/
theorem Fifo.users_cons {v : SchedView} (h : Fifo v runs sleeps) (huser : v.isIdle v.curr = false) :
    ∀ p ∈ v.curr :: runs, v.isIdle p = false := by
  intro p hp
  rcases List.mem_cons.mp hp with rfl | hp
  · exact huser
  · exact (h.users p (.inl hp)).2

/-- A yield, or a timer interrupt at which none of `sleeps` is due. -/
def YieldOrQuietTick (sleeps : List Nat) (k : Kernel) (t : Trap) : Prop :=
  IsYield k t ∨ IsTick t ∧ ∀ p ∈ sleeps, t.clock 1 < k.view.sleepUntil p

theorem YieldOrQuietTick.allowed (h : YieldOrQuietTick sleeps k t) : YieldOrTick k t :=
  h.imp id And.left

theorem FifoRun.turning {ds : List Nat} (h : Fifo k₀.view runs sleeps)
    (huser : k₀.view.isIdle k₀.view.curr = false) (hne : runs ≠ [])
    (hrun : FifoRun (YieldOrQuietTick sleeps) k₀ ds k) :
    Turning (k₀.view.curr :: runs) sleeps k₀ ds k := by
  have husers := h.users_cons huser
  induction hrun with
  | start => exact ⟨⟨runs, h, by simp⟩, fun j hj => by simp at hj, rfl, rfl⟩
  | @stay ds k k₁ k' t hrun ht hend hneeds hcall ih =>
      obtain ⟨queue, hf, hturn⟩ := ih.queue
      obtain ⟨k₂, woken, sleeps', hend', h₂, hcurr, hidle, hsleep, -, hnone⟩ := atEnd_fifo hf ht.allowed
      obtain ⟨rfl, rfl⟩ := hnone (ht.imp id And.right)
      obtain rfl := Except.ok.inj (hend'.symm.trans hend)
      rw [takeTrap_eq hf.curr.1 ht.allowed, hend, ok_bind, trapEnd_quiet hneeds] at hcall
      obtain rfl := Except.ok.inj hcall
      rw [List.append_nil] at h₂
      exact ⟨⟨queue, h₂, by rw [hcurr, hturn]⟩, ih.dispatched, hidle.trans ih.isIdle,
        hsleep.trans ih.sleepUntil⟩
  | @call ds k k₁ k' t hrun ht hend hneeds hcall ih =>
      obtain ⟨queue, hf, hturn⟩ := ih.queue
      obtain ⟨k₂, woken, sleeps', hend', h₂, hcurr, hidle, hsleep, -, hnone⟩ := atEnd_fifo hf ht.allowed
      obtain ⟨rfl, rfl⟩ := hnone (ht.imp id And.right)
      obtain rfl := Except.ok.inj (hend'.symm.trans hend)
      obtain ⟨k₃, runs', hcall', h₃, hidle₃, hsleep₃, hfront⟩ := trapEnd_fifo h₂ hneeds
      rw [takeTrap_eq hf.curr.1 ht.allowed, hend, ok_bind, hcall'] at hcall
      obtain rfl := Except.ok.inj hcall
      rw [List.append_nil] at hfront
      have hcurr_idle : k₂.view.isIdle k₂.view.curr = false := by
        rw [hidle, hcurr]
        exact ih.user husers
      have hlen : (k.view.curr :: queue).length = (k₀.view.curr :: runs).length := by
        rw [hturn, List.length_rotate]
      cases queue with
      | nil =>
          have hpos := List.length_pos_iff.mpr hne
          simp only [List.length_cons, List.length_nil] at hlen
          omega
      | cons q rest =>
          obtain ⟨hq, rfl⟩ := hfront q rest rfl
          have hrot : k₃.view.curr :: (rest ++ outgoing k₂.view)
              = (k₀.view.curr :: runs).rotate (ds.length + 1) := by
            rw [← List.rotate_rotate, ← hturn, hq, outgoing, hcurr_idle, hcurr]
            rfl
          refine ⟨⟨_, h₃, ?_⟩, fun j hj => ?_, (hidle₃.trans hidle).trans ih.isIdle,
            (hsleep₃.trans hsleep).trans ih.sleepUntil⟩
          · rw [hrot, List.length_append, List.length_singleton]
          · rw [List.length_append, List.length_singleton] at hj
            by_cases hlt : j < ds.length
            · rw [List.getElem?_append_left hlt]
              exact ih.dispatched j hlt
            · obtain rfl : j = ds.length := by omega
              have hhead := congrArg (fun l => l[0]?) hrot
              rw [List.getElem?_rotate (by simp), Nat.zero_add] at hhead
              rw [List.getElem?_concat_length, ← hhead]
              rfl

/-- Between two traps the processes and the queues are in such an order. -/
theorem Fifo.of_settled {ps : List Nat} {v : SchedView} (h : Settled ps v runs sleeps) :
    Fifo v runs sleeps where
  queues := h.queues
  curr := by
    by_cases hps : v.curr ∈ ps
    · have hrunning := h.curr_running hps
      exact ⟨(h.procs _ hps).1, h.notMem_runs (by simp [hrunning]), h.notMem_sleeps (by simp [hrunning])⟩
    · exact ⟨by rw [h.curr_mem.resolve_right hps]; exact h.idle.1,
        fun hm => hps ((h.runs_iff _).mp hm).1, fun hm => hps ((h.sleeps_iff _).mp hm).1⟩
  users := by
    rintro p (hp | hp)
    · exact h.procs p ((h.runs_iff p).mp hp).1
    · exact h.procs p ((h.sleeps_iff p).mp hp).1
  idle := h.idle
  count := h.sleeps_length

/-- The yield that a process makes with any registers but `a7`. -/
def yieldTrap (k : Kernel) : Trap where
  tf := (k.procs k.cpu.proc).tf
  frame := ⟨fun _ => SYS_yield, 0, 0, scauseUserEcall, 0⟩
  scause := scauseUserEcall
  clock _ := 0

theorem isYield_yieldTrap (huser : k.view.isIdle k.view.curr = false) : IsYield k k.yieldTrap where
  user := huser
  code := .inl rfl
  frame := rfl
  number := by
    have hframe : (k.trapEntry k.yieldTrap).frames (k.procs k.cpu.proc).tf = k.yieldTrap.frame :=
      trapEntry_frame
    show ((k.trapEntry k.yieldTrap).frames (k.procs k.cpu.proc).tf).regs 17 % 2 ^ 32 = SYS_yield
    rw [hframe]
    rfl

/-- What the order of the run queue promises. -/
structure Dispatches (k₀ : Kernel) (runs sleeps : List Nat) : Prop where
  /-- No yield and no timer interrupt halts. -/
  returns : ∀ ds k t, FifoRun YieldOrTick k₀ ds k → YieldOrTick k t → ∃ k', k.takeTrap t = .ok k'
  /-- The process at position `i` becomes current at call `i + 1` of `schedule`, and not before. -/
  inTurn : ∀ ds k i p, FifoRun YieldOrTick k₀ ds k → runs[i]? = some p →
    (ds.length ≤ i → k.cpu.proc ≠ p) ∧ (ds.length = i + 1 → k.cpu.proc = p) ∧
      (i < ds.length → ds[i]? = some p)
  /-- While nobody is woken the current process and those waiting take turns, and there is always
  another yield. -/
  cyclic : k₀.view.isIdle k₀.view.curr = false → runs ≠ [] →
    ∀ ds k, FifoRun (YieldOrQuietTick sleeps) k₀ ds k →
      (∀ j, j < ds.length → ds[j]? = (k₀.cpu.proc :: runs)[(j + 1) % (runs.length + 1)]?) ∧
        some k.cpu.proc = (k₀.cpu.proc :: runs)[ds.length % (runs.length + 1)]? ∧
        (∃ t, IsYield k t) ∧ ∀ t, IsYield k t → ∃ k', k.takeTrap t = .ok k' ∧
          FifoRun (YieldOrQuietTick sleeps) k₀ (ds ++ [k'.cpu.proc]) k'

/--
**First in, first out.**  From any two queues in order, whatever the states of the processes, along
every run of yields and timer interrupts.
-/
theorem Fifo.dispatches (h : Fifo k₀.view runs sleeps) : Dispatches k₀ runs sleeps where
  returns ds k t hrun ht := by
    obtain ⟨tail, sleeps', hf⟩ := (hrun.inOrder h).queue
    exact takeTrap_fifo hf ht
  inTurn ds k i p hrun hp := by
    have ho := hrun.inOrder h
    obtain ⟨hi, rfl⟩ := List.getElem?_eq_some_iff.mp hp
    have hat : i < ds.length → ds[i]? = some runs[i] := fun hlt =>
      (ho.dispatched i hlt hi).trans hp
    refine ⟨fun hle => ?_, fun hlen => ?_, hat⟩
    · obtain ⟨tail, sleeps', hf⟩ := ho.queue
      rintro heq
      refine hf.curr.2.1 (List.mem_append_left _ ?_)
      rw [show k.view.curr = runs[i] from heq, List.mem_drop_iff_getElem]
      exact ⟨i - ds.length, by omega, by congr 1; omega⟩
    · refine ho.last _ ?_
      rw [List.getLast?_eq_getElem?, hlen]
      exact hat (by omega)
  cyclic huser hne ds k hrun := by
    have hturn := hrun.turning h huser hne
    obtain ⟨queue, hf, hrot⟩ := hturn.queue
    have hcurr : some k.cpu.proc = (k₀.cpu.proc :: runs)[ds.length % (runs.length + 1)]? := by
      have hhead := congrArg (fun l => l[0]?) hrot
      rw [List.getElem?_rotate (by simp), Nat.zero_add] at hhead
      exact hhead
    have huser' := hturn.user (h.users_cons huser)
    refine ⟨hturn.dispatched, hcurr, ⟨_, isYield_yieldTrap huser'⟩, fun t ht => ?_⟩
    obtain ⟨k₁, -, -, hend, -, -, -, -, hneeds, -⟩ := atEnd_fifo hf (Or.inl ht)
    obtain ⟨k', hk'⟩ := takeTrap_fifo hf (Or.inl ht)
    exact ⟨k', hk', .call hrun (.inl ht) hend (hneeds ht) hk'⟩

/-- The shell runs and the other process waits. -/
theorem dispatches_twoProcs :
    ∃ k₀, twoProcs.startQueues 0xffffffff80003000 shellProc [otherProc] = .ok k₀ ∧
      Dispatches k₀ [otherProc] [] := by
  obtain ⟨k₀, hstart, hsettled⟩ := startQueues_settled twoProcs_booting
  exact ⟨k₀, hstart, (Fifo.of_settled hsettled).dispatches⟩

end SystemN.Kernel
