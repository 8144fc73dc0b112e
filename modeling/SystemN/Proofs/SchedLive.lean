/-
Processes that have left for good, and processes that sleep.

`schedule` switches to the idle process without putting the outgoing one back, so a
process that yields while no other one waits is lost, and so is one that has exited.
The invariant of `SchedRun` is kept here for the processes that are `live`, a list
that only shrinks: what is not in it is never written again.  That needs one
condition only, the one a sleeper needs too: that no process goes to sleep while
another one waits.
-/
import SystemN.Proofs.SchedRun

namespace SystemN.Kernel

open Rings SchedView

variable {k k' k₁ k₂ : Kernel} {ps live runs sleeps : List Nat} {p q : Nat} {t : Trap}

/-! ### `schedule`, by its branches -/

theorem requeue_cases {old : Nat} (hk : k.requeue old = .ok k') :
    (k.procs old).isIdle = true ∧ k' = k ∨
      (k.procs old).isIdle = false ∧ ∃ nodes,
        listAddTail k.nodes (.qNode old) .runQueue = .ok nodes ∧
          k' = (k.setState old .runnable).setNodes nodes := by
  unfold requeue at hk
  cases hidle : (k.procs old).isIdle with
  | true =>
      rw [hidle] at hk
      exact Or.inl ⟨rfl, (Except.ok.inj hk).symm⟩
  | false =>
      rw [hidle] at hk
      simp only [Bool.not_false, if_true] at hk
      rw [bind_eq_ok] at hk
      obtain ⟨nodes, hadd, hk⟩ := hk
      exact Or.inr ⟨rfl, nodes, hadd, (Except.ok.inj hk).symm⟩

/-- What `schedule` does: it dispatches the first process of the run queue, or turns to the idle
process, or does nothing. -/
theorem schedule_cases (hk : k.schedule = .ok k') :
    (∃ q nodes k₁, (k.nodes .runQueue).next = some (.qNode q) ∧
        listDel k.nodes (.qNode q) = .ok nodes ∧
        ((k.setNodes nodes).setState q .running).requeue k.cpu.proc = .ok k₁ ∧
        k' = k₁.dispatch k.cpu.proc q) ∨
      ((k.procs k.cpu.proc).isIdle = false ∧ k' = k.runIdle k.cpu.proc) ∨
      (k.procs k.cpu.proc).isIdle = true ∧ k' = k := by
  unfold schedule at hk
  dsimp only at hk
  rw [bind_eq_ok] at hk
  obtain ⟨node, hnode, hk⟩ := hk
  split at hk
  · rw [bind_eq_ok] at hk
    obtain ⟨q, hq, hk⟩ := hk
    rw [bind_eq_ok] at hk
    obtain ⟨nodes, hdel, hk⟩ := hk
    rw [bind_eq_ok] at hk
    obtain ⟨k₁, hre, hk⟩ := hk
    refine Or.inl ⟨q, nodes, k₁, ?_, hdel, hre, (Except.ok.inj hk).symm⟩
    cases node with
    | runQueue => cases hq
    | sleepQueue => cases hq
    | qNode p =>
        obtain rfl := Except.ok.inj hq
        cases hnext : (k.nodes .runQueue).next with
        | none =>
            rw [hnext] at hnode
            cases hnode
        | some x =>
            rw [hnext] at hnode
            exact congrArg some (Except.ok.inj hnode)
  · cases hidle : (k.procs k.cpu.proc).isIdle with
    | true =>
        rw [hidle] at hk
        exact Or.inr (Or.inr ⟨rfl, (Except.ok.inj hk).symm⟩)
    | false =>
        rw [hidle] at hk
        exact Or.inr (Or.inl ⟨rfl, (Except.ok.inj hk).symm⟩)

/-- What `schedule` does not touch. -/
structure Untouched (v v' : SchedView) : Prop where
  idle : v'.idle = v.idle
  sleepUntil : v'.sleepUntil = v.sleepUntil

/-- **Frame**: `schedule` writes the states of two processes at most, the one that leaves and the
one that comes. -/
theorem schedule_frame (hk : k.schedule = .ok k') :
    Untouched k.view k'.view ∧
      ∀ p, (p = k.view.curr → k.view.isIdle p = true) →
        (k.nodes .runQueue).next ≠ some (.qNode p) → k'.view.state p = k.view.state p := by
  rcases schedule_cases hk with ⟨q, nodes, k₁, hnext, -, hre, rfl⟩ | ⟨-, rfl⟩ | ⟨-, rfl⟩
  · rw [view_dispatch]
    have hview : ((k.setNodes nodes).setState q .running).view = { k.view with
        nodes := nodes, state := Function.update k.view.state q .running } := by
      rw [view_setState, view_setNodes]
    have hq : ∀ p, (k.nodes .runQueue).next ≠ some (.qNode p) → p ≠ q := by
      rintro p hp rfl
      exact hp hnext
    rcases requeue_cases hre with ⟨-, rfl⟩ | ⟨hidle, nodes', -, rfl⟩
    · rw [hview]
      refine ⟨⟨rfl, rfl⟩, fun p _ hp => ?_⟩
      exact Function.update_of_ne (hq p hp) ..
    · have hidle' : k.view.isIdle k.view.curr = false := by
        have : ((k.setNodes nodes).setState q .running).view.isIdle k.view.curr = false := hidle
        rwa [hview] at this
      rw [view_setNodes, view_setState, hview]
      refine ⟨⟨rfl, rfl⟩, fun p hc hp => ?_⟩
      have hpc : p ≠ k.view.curr := by
        rintro rfl
        rw [hc rfl] at hidle'
        cases hidle'
      exact (Function.update_of_ne hpc ..).trans (Function.update_of_ne (hq p hp) ..)
  · rw [view_runIdle]
    exact ⟨⟨rfl, rfl⟩, fun _ _ _ => rfl⟩
  · exact ⟨⟨rfl, rfl⟩, fun _ _ _ => rfl⟩

/-! ### What a system call does to the scheduler -/

/-- The effects of the system call `num` of `p`, with argument `arg` and at the clock `now`, on
what the scheduler sees. -/
inductive CallEffect (v : SchedView) (p num arg now : Nat) : SchedView → Prop where
  | quiet (hexit : num ≠ SYS_exit) (hyield : num ≠ SYS_yield) (hsleep : num ≠ SYS_sleep_ms) :
      CallEffect v p num arg now v
  | exit (hnum : num = SYS_exit) :
      CallEffect v p num arg now
        { v with state := Function.update v.state p .zombie, needsSched := true }
  | yield (hexit : num ≠ SYS_exit) (hsleep : num = SYS_sleep_ms → ¬ValidSleep arg) :
      CallEffect v p num arg now { v with needsSched := true }
  | sleep (hnum : num = SYS_sleep_ms) (hvalid : ValidSleep arg) (nodes : Node → Links Node)
      (hadd : listAddTail v.nodes (.qNode p) .sleepQueue = .ok nodes) :
      CallEffect v p num arg now { v with
        nodes := nodes
        state := Function.update v.state p .sleeping
        sleepUntil := Function.update v.sleepUntil p (u64 (now + msToTime arg))
        needsSched := true }

theorem sysSleepMs_cases {ms : Nat} {clock : Nat → Nat} {r : Nat × Kernel}
    (hk : k.sysSleepMs p ms clock = .ok r) :
    ¬ValidSleep ms ∧ r = (minusOne, k) ∨
      ValidSleep ms ∧ r.1 = 0 ∧ ∃ nodes,
        listAddTail k.nodes (.qNode p) .sleepQueue = .ok nodes ∧
          r.2.view = { k.view with
            nodes := nodes
            state := Function.update k.view.state p .sleeping
            sleepUntil := Function.update k.view.sleepUntil p (u64 (clock 0 + msToTime ms)) } := by
  unfold sysSleepMs at hk
  split at hk
  · rename_i hbad
    refine Or.inl ⟨fun hv => ?_, (Except.ok.inj hk).symm⟩
    have := hv.1
    have := hv.2
    omega
  · rename_i hgood
    rw [bind_eq_ok] at hk
    obtain ⟨nodes, hadd, hk⟩ := hk
    obtain rfl := Except.ok.inj hk
    refine Or.inr ⟨⟨fun h0 => hgood (Or.inl h0), ?_⟩, rfl, nodes, hadd, ?_⟩
    · by_contra hmax
      exact hgood (Or.inr (by omega))
    · rw [view_setSleepUntil, view_setNodes, view_setState]

theorem syscallHandler_effect {clock : Nat → Nat} (hk : k.syscallHandler p clock = .ok k') :
    CallEffect k.view p (k.reg p 17 % 2 ^ 32) (k.reg p 10) (clock 0) k'.view := by
  have hquiet : ∀ {n}, k'.view = k.view → n ≠ SYS_exit → n ≠ SYS_yield → n ≠ SYS_sleep_ms →
      CallEffect k.view p n (k.reg p 10) (clock 0) k'.view := by
    intro n hv h1 h2 h3
    rw [hv]
    exact .quiet h1 h2 h3
  unfold syscallHandler at hk
  split at hk
  · rename_i hnum
    rw [bind_eq_ok] at hk
    obtain ⟨⟨r, k₁⟩, hcall, hk⟩ := hk
    obtain rfl := Except.ok.inj hk
    rw [hnum]
    exact hquiet ((view_setA0 r).trans (view_sysWrite hcall)) (by simp) (by simp) (by simp)
  · rename_i hnum
    rw [bind_eq_ok] at hk
    obtain ⟨⟨r, k₁⟩, hcall, hk⟩ := hk
    obtain rfl := Except.ok.inj hk
    rw [hnum]
    exact hquiet ((view_setA0 r).trans (view_sysRead hcall)) (by simp) (by simp) (by simp)
  · rename_i hnum
    obtain rfl := Except.ok.inj hk
    rw [view_setNeedsSched, view_setState]
    exact .exit hnum
  · rename_i hnum
    obtain rfl := Except.ok.inj hk
    rw [hnum]
    exact hquiet (view_setA0 _) (by simp) (by simp) (by simp)
  · rename_i hnum
    obtain rfl := Except.ok.inj hk
    rw [view_setNeedsSched, hnum]
    exact .yield (by simp) (by simp)
  · rename_i hnum
    rw [bind_eq_ok] at hk
    obtain ⟨⟨r, k₁⟩, hcall, hk⟩ := hk
    obtain rfl := Except.ok.inj hk
    rw [view_setNeedsSched, view_setA0, hnum]
    rcases sysSleepMs_cases hcall with ⟨hbad, hr⟩ | ⟨hvalid, -, nodes, hadd, hview⟩
    · obtain ⟨-, rfl⟩ := Prod.mk.inj hr
      exact .yield (by simp) fun _ => hbad
    · rw [hview]
      exact .sleep rfl hvalid nodes hadd
  · rename_i hnum
    rw [bind_eq_ok] at hk
    obtain ⟨⟨r, k₁⟩, hcall, hk⟩ := hk
    obtain rfl := Except.ok.inj hk
    rw [hnum]
    exact hquiet ((view_setA0 r).trans (view_sysSbrk hcall)) (by simp) (by simp) (by simp)
  · rename_i hnum
    rw [bind_eq_ok] at hk
    obtain ⟨⟨r, k₁⟩, hcall, hk⟩ := hk
    obtain rfl := Except.ok.inj hk
    rw [hnum]
    exact hquiet ((view_setA0 r).trans (view_sysMunmap hcall)) (by simp) (by simp) (by simp)
  · rename_i h1 h2 h3 h4 h5 h6 h7 h8
    obtain rfl := Except.ok.inj hk
    exact hquiet (view_setA0 _) h3 h5 h6

/-- An environment call, from either mode. -/
def IsEcall (t : Trap) : Prop :=
  scauseCode t.scause = scauseUserEcall ∨ scauseCode t.scause = scauseSupervisorEcall

/-- The trap is the system call `num` of the current process. -/
def Calls (k : Kernel) (t : Trap) (num : Nat) : Prop :=
  (k.procs k.cpu.proc).isIdle = false ∧ IsEcall t ∧
    (k.trapEntry t).reg k.cpu.proc 17 % 2 ^ 32 = num

/-- The argument of a system call. -/
def callArg (k : Kernel) (t : Trap) : Nat := (k.trapEntry t).reg k.cpu.proc 10

theorem ecall_effect {tf : Nat} {clock : Nat → Nat} (hk : k.ecall tf p clock = .ok k') :
    CallEffect k.view p (k.reg p 17 % 2 ^ 32) (k.reg p 10) (clock 0) k'.view := by
  have hreg : ∀ i, (k.setFrame tf { k.frames tf with
      sepc := u64 ((k.frames tf).sepc + 4) }).reg p i = k.reg p i := by
    intro i
    unfold reg setFrame
    by_cases htf : (k.procs p).tf = tf
    · simp [htf]
    · simp [htf]
  have := syscallHandler_effect (k := k.setFrame tf { k.frames tf with
    sepc := u64 ((k.frames tf).sepc + 4) }) hk
  rwa [hreg, hreg, view_setFrame] at this

/-- What a trap runs before the end of `trap_handler`: the timer, a system call or nothing. -/
theorem takeTrap_parts (hcurr : k.cpu.proc ≠ 0) (hk : k.takeTrap t = .ok k') :
    ∃ k₂ : Kernel, k₂.trapEnd = .ok k' ∧
      (isTimer t.scause = true ∧ (k.trapEntry t).timerHandle t.clock = .ok k₂ ∨
        (∀ num, ¬Calls k t num) ∧ k₂ = k.trapEntry t ∨
        (k.procs k.cpu.proc).isIdle = false ∧ IsEcall t ∧
          (k.trapEntry t).ecall t.tf k.cpu.proc t.clock = .ok k₂) := by
  unfold takeTrap trapHandler at hk
  dsimp only at hk
  split at hk
  · split at hk
    · rename_i htimer
      rw [bind_eq_ok] at hk
      obtain ⟨k₂, hk₂, hend⟩ := hk
      exact ⟨k₂, hend, Or.inl ⟨htimer, hk₂⟩⟩
    · cases hk
  · rename_i hidle
    split at hk
    · cases hk
    · split at hk
      · rename_i h0
        exact absurd h0 hcurr
      · rw [bind_eq_ok] at hk
        obtain ⟨k₂, hcase, hend⟩ := hk
        refine ⟨k₂, hend, ?_⟩
        have hidle' : (k.procs k.cpu.proc).isIdle = false := by
          have : ¬(k.procs k.cpu.proc).isIdle = true := fun hi => hidle ⟨hcurr, hi⟩
          simpa using this
        unfold switchCode at hcase
        split at hcase
        · rename_i hcode
          exact Or.inr (Or.inr ⟨hidle', Or.inl hcode, hcase⟩)
        · rename_i hcode
          exact Or.inr (Or.inr ⟨hidle', Or.inr hcode, hcase⟩)
        · rename_i hcode
          have hcode' : scauseCode t.scause = scauseTimerInterrupt := hcode
          split at hcase
          · rename_i hirq
            refine Or.inl ⟨?_, hcase⟩
            have hirq' : isIrq t.scause = true := hirq
            simp [isTimer, hcode', hirq']
          · refine Or.inr (Or.inl ⟨fun num hc => ?_, (Except.ok.inj hcase).symm⟩)
            rcases hc.2.1 with h | h
            · rw [hcode'] at h
              cases h
            · rw [hcode'] at h
              cases h
        · cases hcase
        · cases hcase
        · cases hcase

/-- And what the scheduler sees of it. -/
theorem takeTrap_cases (hcurr : k.cpu.proc ≠ 0) (hk : k.takeTrap t = .ok k') :
    ∃ k₁ k₂ : Kernel, k₁.view = k.view ∧ k₂.trapEnd = .ok k' ∧
      (isTimer t.scause = true ∧ k₁.timerHandle t.clock = .ok k₂ ∨
        (∀ num, ¬Calls k t num) ∧ k₂.view = k.view ∨
        ∃ num, Calls k t num ∧
          CallEffect k.view k.cpu.proc num (k.callArg t) (t.clock 0) k₂.view) := by
  obtain ⟨k₂, hend, hcase⟩ := takeTrap_parts hcurr hk
  refine ⟨k.trapEntry t, k₂, rfl, hend, ?_⟩
  rcases hcase with htimer | ⟨hno, rfl⟩ | ⟨hidle, hcode, hcall⟩
  · exact Or.inl htimer
  · exact Or.inr (Or.inl ⟨hno, rfl⟩)
  · exact Or.inr (Or.inr ⟨_, ⟨hidle, hcode, rfl⟩, ecall_effect hcall⟩)

/-! ### The end of a trap -/

theorem mem_forget {l : List Nat} {P : Nat → Prop} (h : ∀ q, q ∈ l ↔ q ∈ live ∧ P q) (hp : p ∉ l)
    (q : Nat) : q ∈ l ↔ q ∈ live.filter (· ≠ p) ∧ P q := by
  have hmem : q ∈ live.filter (· ≠ p) ↔ q ∈ live ∧ q ≠ p := by simp
  rw [hmem]
  constructor
  · intro hq
    obtain ⟨hl, hP⟩ := (h q).mp hq
    refine ⟨⟨hl, ?_⟩, hP⟩
    intro heq
    rw [heq] at hq
    exact hp hq
  · intro ⟨⟨hl, _⟩, hP⟩
    exact (h q).mpr ⟨hl, hP⟩

/-- A process in no queue that is not current is no longer live. -/
theorem Settled.forget {v : SchedView} (h : Settled live v runs sleeps) (hr : p ∉ runs)
    (hs : p ∉ sleeps) (hc : p ≠ v.curr) : Settled (live.filter (· ≠ p)) v runs sleeps := by
  have hmem : ∀ q, q ∈ live.filter (· ≠ p) ↔ q ∈ live ∧ q ≠ p := by simp
  refine ⟨⟨h.queues, mem_forget h.runs_iff hr, mem_forget h.sleeps_iff hs, fun q hq => ?_,
    fun q hq => ?_, ?_, fun hm => ?_, fun q hq => ?_, h.idle, ?_⟩, fun hm => ?_, h.not_needed⟩
  · exact h.used q ((hmem q).mp hq).1
  · exact h.running q ((hmem q).mp hq).1
  · rcases h.curr_mem with hi | hl
    · exact Or.inl hi
    · exact Or.inr ((hmem _).mpr ⟨hl, hc.symm⟩)
  · exact h.curr_ne ((hmem _).mp hm).1
  · exact h.procs q ((hmem q).mp hq).1
  · exact (List.length_filter_le _ live).trans h.count
  · exact h.curr_running ((hmem _).mp hm).1

theorem schedule_empty (h : Inv live k.view [] sleeps) (hc : k.view.curr ∈ live) :
    k.schedule = .ok (k.runIdle k.cpu.proc) := by
  have hnext : (k.nodes .runQueue).next = some .runQueue := h.queues.run.head_next
  have hflag : (k.procs k.cpu.proc).isIdle = false := (h.procs _ hc).2
  simp only [schedule, hnext, follow, ok_bind, ne_eq, not_true_eq_false, if_false, hflag,
    Bool.not_false, if_true, pure, Except.pure]

/-- With an empty run queue `schedule` loses a process that is running. -/
theorem schedule_lose (h : Inv live k.view [] sleeps) (hc : k.view.curr ∈ live)
    (hs : k.view.curr ∉ sleeps) :
    ∃ k', k.schedule = .ok k' ∧ Inv (live.filter (· ≠ k.view.curr)) k'.view [] sleeps ∧
      k'.view.curr = k.view.idle ∧ k'.view.needsSched = k.view.needsSched := by
  refine ⟨_, schedule_empty h hc, ?_⟩
  rw [view_runIdle]
  have hmem : ∀ q, q ∈ live.filter (· ≠ k.view.curr) ↔ q ∈ live ∧ q ≠ k.view.curr := by simp
  refine ⟨⟨h.queues, mem_forget h.runs_iff List.not_mem_nil, mem_forget h.sleeps_iff hs,
    fun q hq => ?_, fun q hq hrun => ?_, Or.inl rfl, fun hm => ?_, fun q hq => ?_, h.idle, ?_⟩,
    rfl, rfl⟩
  · exact h.used q ((hmem q).mp hq).1
  · exact absurd (h.running q ((hmem q).mp hq).1 hrun) ((hmem q).mp hq).2
  · exact absurd ((hmem _).mp hm).1 h.idle_notMem
  · exact h.procs q ((hmem q).mp hq).1
  · exact (List.length_filter_le _ live).trans h.count

/-- The states of processes that are no longer live. -/
theorem schedule_keeps (h : Inv live k.view runs sleeps) (hk : k.schedule = .ok k') :
    Untouched k.view k'.view ∧ ∀ p, p ∉ live → k'.view.state p = k.view.state p := by
  obtain ⟨hkept, hstate⟩ := schedule_frame hk
  refine ⟨hkept, fun p hp => hstate p ?_ ?_⟩
  · rintro rfl
    exact h.curr_isIdle.mpr hp
  · have hnext : (k.nodes .runQueue).next = some (after .runQueue (runs.map .qNode)) :=
      h.queues.run.head_next
    rw [hnext]
    cases runs with
    | nil => simp
    | cons q rest =>
        have hq : q ∈ live := ((h.runs_iff q).mp List.mem_cons_self).1
        intro heq
        obtain rfl : q = p := by simpa using heq
        exact hp hq

/-- **The end of a trap**: a process that has stopped running may be lost, and no other one. -/
theorem trapEnd_live (h : Inv live k.view runs sleeps)
    (hstay : k.view.needsSched = false → k.view.curr ∈ live →
      k.view.state k.view.curr = .running)
    (hleave : k.view.needsSched = true → k.view.curr ∈ live → runs ≠ [] →
      k.view.state k.view.curr ≠ .sleeping) (hk : k.trapEnd = .ok k') :
    ∃ live' runs', Settled live' k'.view runs' sleeps ∧ (∀ p ∈ live', p ∈ live) ∧
      Untouched k.view k'.view ∧ ∀ p, p ∉ live → k'.view.state p = k.view.state p := by
  unfold trapEnd at hk
  by_cases hn : k.view.needsSched = true
  · rw [if_pos (show k.cpu.needsSched = true from hn)] at hk
    have hinv : Inv live (k.setNeedsSched false).view runs sleeps :=
      ⟨h.queues, h.runs_iff, h.sleeps_iff, h.used, h.running, h.curr_mem, h.curr_ne, h.procs,
        h.idle, h.count⟩
    have hframe : Untouched k.view k'.view ∧ ∀ p, p ∉ live → k'.view.state p = k.view.state p := by
      obtain ⟨⟨hidle, hsleep⟩, hstate⟩ := schedule_keeps hinv hk
      exact ⟨⟨hidle, hsleep⟩, hstate⟩
    cases runs with
    | cons q rest =>
        have hleave' := fun hm => hleave hn hm (List.cons_ne_nil q rest)
        obtain ⟨k₁, hk₁, hinv', hcurr, hstate, hneeds⟩ := schedule_next hinv hleave'
        obtain rfl : k₁ = k' := Except.ok.inj (hk₁.symm.trans hk)
        refine ⟨live, _, ⟨hinv', fun _ => ?_, hneeds⟩, fun _ hp => hp, hframe⟩
        rw [hcurr]
        exact hstate
    | nil =>
        by_cases hlost : k.view.curr ∈ live ∧ k.view.state k.view.curr = .running
        · have hs : k.view.curr ∉ sleeps := h.notMem_sleeps (by simp [hlost.2])
          obtain ⟨k₁, hk₁, hinv', hcurr, hneeds⟩ := schedule_lose hinv hlost.1 hs
          obtain rfl : k₁ = k' := Except.ok.inj (hk₁.symm.trans hk)
          refine ⟨_, [], ⟨hinv', fun hm => ?_, hneeds⟩, fun p hp => (List.mem_filter.mp hp).1,
            hframe⟩
          rw [hcurr] at hm
          exact absurd (List.mem_filter.mp hm).1 hinv.idle_notMem
        · have hleave' : k.view.curr ∈ live → k.view.state k.view.curr ≠ .running :=
            fun hm hrun => hlost ⟨hm, hrun⟩
          obtain ⟨k₁, hk₁, hinv', hcurr, hstate, hneeds⟩ := schedule_idle hinv hleave'
          obtain rfl : k₁ = k' := Except.ok.inj (hk₁.symm.trans hk)
          refine ⟨live, [], ⟨hinv', fun hm => ?_, hneeds⟩, fun _ hp => hp, hframe⟩
          rw [hcurr] at hm
          exact absurd hm hinv.idle_notMem
  · rw [if_neg (show ¬k.cpu.needsSched = true from hn)] at hk
    obtain rfl := Except.ok.inj hk
    have hn' : k.view.needsSched = false := by simpa using hn
    exact ⟨live, runs, ⟨h, hstay hn', hn'⟩, fun _ hp => hp, ⟨rfl, rfl⟩, fun _ _ => rfl⟩

/-- The end of a trap in which the current process stops running, with nobody waiting. -/
theorem trapEnd_alone (h : Inv live k.view [] sleeps) (hn : k.view.needsSched = true)
    (hst : k.view.state k.view.curr ≠ .running)
    (hk : k.trapEnd = .ok k') :
    Settled live k'.view [] sleeps ∧ k'.view.curr = k.view.idle ∧
      k'.view.state = k.view.state ∧ Untouched k.view k'.view := by
  unfold trapEnd at hk
  rw [if_pos (show k.cpu.needsSched = true from hn)] at hk
  have hinv : Inv live (k.setNeedsSched false).view [] sleeps :=
    ⟨h.queues, h.runs_iff, h.sleeps_iff, h.used, h.running, h.curr_mem, h.curr_ne, h.procs,
      h.idle, h.count⟩
  obtain ⟨⟨hidle, hsleep⟩, -⟩ := schedule_keeps hinv hk
  obtain ⟨k₁, hk₁, hinv', hcurr, hstate, hneeds⟩ := schedule_idle hinv fun _ => hst
  obtain rfl : k₁ = k' := Except.ok.inj (hk₁.symm.trans hk)
  refine ⟨⟨hinv', fun hm => ?_, hneeds⟩, hcurr, hstate, ⟨hidle, hsleep⟩⟩
  rw [hcurr] at hm
  exact absurd hm hinv.idle_notMem

/-! ### One trap -/

/-- No other process waits when one goes to sleep. -/
def SleepsAlone (k : Kernel) (t : Trap) : Prop :=
  Calls k t SYS_sleep_ms → ValidSleep (k.callArg t) → listEmpty k.nodes .runQueue = true

/-- What a trap leaves as it is: processes that are no longer live, and sleepers whose time has
not come. -/
structure Carries (live sleeps : List Nat) (v : SchedView) (t : Trap) (live' sleeps' : List Nat)
    (v' : SchedView) : Prop where
  sub : ∀ p ∈ live', p ∈ live
  idle : v'.idle = v.idle
  gone : ∀ p, p ∉ live → v'.state p = v.state p
  asleep : ∀ p ∈ sleeps, (isTimer t.scause = true → t.clock 1 < v.sleepUntil p) →
    p ∈ sleeps' ∧ v'.sleepUntil p = v.sleepUntil p

theorem curr_ne_zero (h : Inv live k.view runs sleeps) : k.cpu.proc ≠ 0 := by
  rcases h.curr_mem with hi | hl
  · rw [show k.cpu.proc = k.view.idle from hi]
    exact h.idle.1
  · exact (h.procs _ hl).1

theorem Calls.mem {num : Nat} (hcall : Calls k t num) (h : Inv live k.view runs sleeps) :
    k.view.curr ∈ live := by
  by_contra hm
  have hidle : (k.procs k.cpu.proc).isIdle = true := h.curr_isIdle.mpr hm
  rw [hcall.1] at hidle
  cases hidle

theorem Calls.not_timer {num : Nat} (hcall : Calls k t num) : ¬isTimer t.scause = true := by
  intro ht
  have hcode : scauseCode t.scause = scauseTimerInterrupt := by
    simp only [isTimer, Bool.and_eq_true, beq_iff_eq] at ht
    exact ht.2
  rcases hcall.2.1 with h | h
  · rw [hcode] at h
    cases h
  · rw [hcode] at h
    cases h

theorem Calls.unique {num num' : Nat} (hcall : Calls k t num) (hcall' : Calls k t num') :
    num = num' := hcall.2.2.symm.trans hcall'.2.2

/-- What a system call does, before the end of its trap. -/
theorem Calls.effect {num : Nat} (hcall : Calls k t num) (h : Inv live k.view runs sleeps)
    (hk : k.takeTrap t = .ok k') :
    ∃ k₂ : Kernel, k₂.trapEnd = .ok k' ∧
      CallEffect k.view k.cpu.proc num (k.callArg t) (t.clock 0) k₂.view := by
  obtain ⟨k₁, k₂, -, hend, hcase⟩ := takeTrap_cases (curr_ne_zero h) hk
  rcases hcase with ⟨ht, -⟩ | ⟨hno, -⟩ | ⟨num', hcall', heff⟩
  · exact absurd ht hcall.not_timer
  · exact absurd hcall (hno num)
  · rw [hcall.unique hcall']
    exact ⟨k₂, hend, heff⟩

/-- A process that exits. -/
theorem exit_inv (h : Settled live k.view runs sleeps) (hc : k.view.curr ∈ live) :
    Inv live { k.view with
      state := Function.update k.view.state k.view.curr .zombie
      needsSched := true } runs sleeps :=
  leave_inv h hc h.queues (Or.inl ⟨rfl, rfl⟩)

/-- The process that goes to sleep, with nobody waiting, is at the end of the sleep queue. -/
theorem sleep_inv {nodes : Node → Links Node} (deadline : Nat) (h : Settled live k.view runs sleeps)
    (hc : k.view.curr ∈ live)
    (hadd : listAddTail k.view.nodes (.qNode k.view.curr) .sleepQueue = .ok nodes) :
    Inv live { k.view with
      nodes := nodes
      state := Function.update k.view.state k.view.curr .sleeping
      sleepUntil := Function.update k.view.sleepUntil k.view.curr deadline
      needsSched := true } runs
      (sleeps ++ [k.view.curr]) := by
  have hruns : k.view.curr ∉ runs := h.notMem_runs (h.curr_ne hc)
  have hsleeps : k.view.curr ∉ sleeps := h.notMem_sleeps (by simp [h.curr_running hc])
  obtain ⟨nodes', hadd', hq⟩ := h.queues.add_sleep hruns hsleeps
  rw [hadd] at hadd'
  obtain rfl := Except.ok.inj hadd'
  exact leave_inv h hc hq (Or.inr ⟨rfl, rfl⟩)

/-- **Step lemma**: a trap in which nobody goes to sleep beside a waiting process. -/
theorem takeTrap_live (h : Settled live k.view runs sleeps) (hgood : SleepsAlone k t)
    (hk : k.takeTrap t = .ok k') :
    ∃ live' runs' sleeps', Settled live' k'.view runs' sleeps' ∧
      Carries live sleeps k.view t live' sleeps' k'.view := by
  obtain ⟨k₁, k₂, hk₁, hend, hcase⟩ := takeTrap_cases (curr_ne_zero h.toInv) hk
  have hsleeping : ∀ p ∈ sleeps, p ∈ live := fun p hp => ((h.sleeps_iff p).mp hp).1
  have hsame : k₂.view = k.view → ∃ live' runs' sleeps', Settled live' k'.view runs' sleeps' ∧
      Carries live sleeps k.view t live' sleeps' k'.view := by
    intro hquiet
    rw [← hquiet] at h
    obtain ⟨live', runs', hset, hsub, hkept, hgone⟩ := trapEnd_live h.toInv
      (fun _ => h.curr_running) (fun _ hm _ => by simp [h.curr_running hm]) hend
    rw [hquiet] at hkept hgone
    exact ⟨live', runs', sleeps, hset, hsub, hkept.idle, hgone, fun p hp _ =>
      ⟨hp, by rw [hkept.sleepUntil]⟩⟩
  rcases hcase with ⟨ht, htimer⟩ | ⟨-, hquiet⟩ | ⟨num, hcall, heff⟩
  · have hcurr : k₁.view.curr ∉ sleeps := by
      rw [hk₁]
      intro hm
      obtain ⟨hl, hst⟩ := (h.sleeps_iff _).mp hm
      rw [h.curr_running hl] at hst
      cases hst
    obtain ⟨k₃, hk₃, hinv, hview, hstate⟩ := timerHandle_spec t.clock (by rw [hk₁]; exact h.toInv)
      hcurr
    obtain rfl : k₃ = k₂ := Except.ok.inj (hk₃.symm.trans htimer)
    rw [hk₁] at hinv hview hstate hcurr
    have hrunning : k₃.view.curr ∈ live → k₃.view.state k₃.view.curr = .running := by
      have hc : k₃.view.curr = k.view.curr := by rw [hview]
      rw [hc, hstate _ hcurr]
      exact h.curr_running
    obtain ⟨live', runs', hset, hsub, hkept, hgone⟩ := trapEnd_live hinv (fun _ => hrunning)
      (fun _ hm _ => by simp [hrunning hm]) hend
    refine ⟨live', runs', _, hset, hsub, ?_, fun p hp => ?_, fun p hp hlate => ?_⟩
    · rw [hkept.idle, hview]
    · exact (hgone p hp).trans (hstate p fun hs => hp (hsleeping p hs))
    · have hlate' : ¬k.view.sleepUntil p ≤ t.clock 1 := not_le.mpr (hlate ht)
      refine ⟨List.mem_filter.mpr ⟨hp, by simp [due, hlate']⟩, ?_⟩
      rw [hkept.sleepUntil, hview]
  · exact hsame hquiet
  · -- a system call
    have hc := hcall.mem h.toInv
    have hrun : k.view.state k.view.curr = .running := h.curr_running hc
    have hother : ∀ p, p ∉ live → p ≠ k.view.curr := by
      rintro p hp rfl
      exact hp hc
    change CallEffect k.view k.view.curr num (k.callArg t) (t.clock 0) k₂.view at heff
    generalize hv : k₂.view = v at heff
    cases heff with
    | quiet => exact hsame hv
    | exit hnum =>
        have hinv : Inv live k₂.view runs sleeps := by
          rw [hv]
          exact exit_inv h hc
        obtain ⟨live', runs', hset, hsub, hkept, hgone⟩ := trapEnd_live hinv
          (fun hn => by simp [hv] at hn) (fun _ _ _ => by simp [hv]) hend
        refine ⟨live', runs', sleeps, hset, hsub, by rw [hkept.idle, hv], fun p hp => ?_,
          fun p hp _ => ⟨hp, ?_⟩⟩
        · rw [hgone p hp, hv]
          exact Function.update_of_ne (hother p hp) ..
        · rw [hkept.sleepUntil, hv]
    | yield hexit hsleep =>
        have hinv : Inv live k₂.view runs sleeps := by
          rw [hv]
          exact ⟨h.queues, h.runs_iff, h.sleeps_iff, h.used, h.running, h.curr_mem, h.curr_ne,
            h.procs, h.idle, h.count⟩
        obtain ⟨live', runs', hset, hsub, hkept, hgone⟩ := trapEnd_live hinv
          (fun hn => by simp [hv] at hn) (fun _ _ _ => by simp [hv, hrun]) hend
        refine ⟨live', runs', sleeps, hset, hsub, by rw [hkept.idle, hv], fun p hp => ?_,
          fun p hp _ => ⟨hp, ?_⟩⟩
        · rw [hgone p hp, hv]
        · rw [hkept.sleepUntil, hv]
    | sleep hnum hvalid nodes hadd =>
        have hnil : runs = [] := by
          rw [hnum] at hcall
          exact (listEmpty_iff h.toInv).mp (hgood hcall hvalid)
        have hinv : Inv live k₂.view runs (sleeps ++ [k.view.curr]) := by
          rw [hv]
          exact sleep_inv _ h hc hadd
        obtain ⟨live', runs', hset, hsub, hkept, hgone⟩ := trapEnd_live hinv
          (fun hn => by simp [hv] at hn) (fun _ _ hne => absurd hnil hne) hend
        refine ⟨live', runs', _, hset, hsub, by rw [hkept.idle, hv], fun p hp => ?_,
          fun p hp _ => ⟨?_, ?_⟩⟩
        · rw [hgone p hp, hv]
          exact Function.update_of_ne (hother p hp) ..
        · exact List.mem_append_left _ hp
        · have hpc : p ≠ k.view.curr := by
            rintro rfl
            exact h.notMem_sleeps (by simp [hrun]) hp
          rw [hkept.sleepUntil, hv]
          exact Function.update_of_ne hpc ..

/-- A process that exits with nobody waiting is gone. -/
theorem takeTrap_exit (h : Settled live k.view [] sleeps) (hcall : Calls k t SYS_exit)
    (hk : k.takeTrap t = .ok k') :
    Settled (live.filter (· ≠ k.view.curr)) k'.view [] sleeps ∧
      k'.view.state k.view.curr = .zombie ∧ k'.view.idle = k.view.idle := by
  have hc := hcall.mem h.toInv
  obtain ⟨k₂, hend, heff⟩ := hcall.effect h.toInv hk
  change CallEffect k.view k.view.curr _ (k.callArg t) (t.clock 0) k₂.view at heff
  generalize hv : k₂.view = v at heff
  cases heff with
  | quiet hexit => exact absurd rfl hexit
  | yield hexit => exact absurd rfl hexit
  | sleep hnum => exact absurd hnum (by simp)
  | exit _ =>
      have hinv : Inv live k₂.view [] sleeps := by
        rw [hv]
        exact exit_inv h hc
      obtain ⟨hset, hcurr, hstate, hkept⟩ :=
        trapEnd_alone hinv (by rw [hv]) (by simp [hv]) hend
      have hs : k.view.curr ∉ sleeps := h.notMem_sleeps (by simp [h.curr_running hc])
      refine ⟨Settled.forget hset List.not_mem_nil hs ?_, ?_, ?_⟩
      · intro heq
        rw [heq, hcurr] at hc
        rw [hv] at hc
        exact h.idle_notMem hc
      · rw [hstate, hv]
        exact Function.update_self ..
      · rw [hkept.idle, hv]

/-- A process that goes to sleep with nobody waiting is on the sleep queue. -/
theorem takeTrap_sleep (h : Settled live k.view [] sleeps) (hcall : Calls k t SYS_sleep_ms)
    (hvalid : ValidSleep (k.callArg t)) (hk : k.takeTrap t = .ok k') :
    Settled live k'.view [] (sleeps ++ [k.view.curr]) ∧
      k'.view.sleepUntil k.view.curr = u64 (t.clock 0 + msToTime (k.callArg t)) := by
  have hc := hcall.mem h.toInv
  obtain ⟨k₂, hend, heff⟩ := hcall.effect h.toInv hk
  change CallEffect k.view k.view.curr _ (k.callArg t) (t.clock 0) k₂.view at heff
  generalize hv : k₂.view = v at heff
  cases heff with
  | quiet _ _ hsleep => exact absurd rfl hsleep
  | exit hnum => exact absurd hnum (by simp)
  | yield _ hsleep => exact absurd hvalid (hsleep rfl)
  | sleep _ _ nodes hadd =>
      have hinv : Inv live k₂.view [] (sleeps ++ [k.view.curr]) := by
        rw [hv]
        exact sleep_inv _ h hc hadd
      obtain ⟨hset, -, -, hkept⟩ := trapEnd_alone hinv (by rw [hv]) (by simp [hv]) hend
      refine ⟨hset, ?_⟩
      rw [hkept.sleepUntil, hv]
      exact Function.update_self ..

/-! ### Runs -/

/-- The states that traps which meet the condition `good` lead to from `k`. -/
inductive Traps (good : Kernel → Trap → Prop) (k : Kernel) : Kernel → Prop where
  | refl : Traps good k k
  | trap {k₁ k₂ : Kernel} {t : Trap} (h : Traps good k k₁) (hgood : good k₁ t)
      (hk : k₁.takeTrap t = .ok k₂) : Traps good k k₂

variable {good : Kernel → Trap → Prop}

theorem SchedRun.settled_live (hsub : ∀ k t, good k t → SleepsAlone k t) (h : SchedRun good ps k) :
    ∃ live runs sleeps, Settled live k.view runs sleeps := by
  induction h with
  | start h hk =>
      obtain ⟨k', hk', hset⟩ := startQueues_settled h
      obtain rfl := Except.ok.inj (hk'.symm.trans hk)
      exact ⟨_, _, _, hset⟩
  | trap _ hgood hk ih =>
      obtain ⟨live, runs, sleeps, hset⟩ := ih
      obtain ⟨live', runs', sleeps', hset', -⟩ := takeTrap_live hset (hsub _ _ hgood) hk
      exact ⟨live', runs', sleeps', hset'⟩

/-- A process that is no longer live never is again, and its state stays what it is. -/
theorem Traps.gone (hsub : ∀ k t, good k t → SleepsAlone k t)
    (h : Settled live k.view runs sleeps) (hp : p ∉ live) (htraps : Traps good k k') :
    ∃ live' runs' sleeps', Settled live' k'.view runs' sleeps' ∧ p ∉ live' ∧
      k'.view.idle = k.view.idle ∧ k'.view.state p = k.view.state p := by
  induction htraps with
  | refl => exact ⟨live, runs, sleeps, h, hp, rfl, rfl⟩
  | trap _ hgood hk ih =>
      obtain ⟨live₁, runs₁, sleeps₁, h₁, hp₁, hidle₁, hst₁⟩ := ih
      obtain ⟨live₂, runs₂, sleeps₂, h₂, hc⟩ := takeTrap_live h₁ (hsub _ _ hgood) hk
      exact ⟨live₂, runs₂, sleeps₂, h₂, fun hm => hp₁ (hc.sub p hm), hc.idle.trans hidle₁,
        (hc.gone p hp₁).trans hst₁⟩

/-- A process that will not run again. -/
structure Gone (k : Kernel) (p : Nat) : Prop where
  zombie : (k.procs p).state = .zombie
  notCurrent : k.cpu.proc ≠ p
  notQueued : ∃ runs : List Nat, IsRing k.nodes .runQueue (runs.map .qNode) ∧ p ∉ runs

/-- No other process waits when one exits or goes to sleep. -/
def LeavesAlone (k : Kernel) (t : Trap) : Prop :=
  SleepsAlone k t ∧ (Calls k t SYS_exit → listEmpty k.nodes .runQueue = true)

/-- **Exit is final** in a run in which processes exit, and go to sleep, with nobody waiting. -/
theorem SchedRun.exit_final (hrun : SchedRun LeavesAlone ps k) (hexit : Calls k t SYS_exit)
    (halone : LeavesAlone k t) (hk : k.takeTrap t = .ok k₁) (hlater : Traps LeavesAlone k₁ k₂) :
    Gone k₂ k.cpu.proc := by
  obtain ⟨live, runs, sleeps, hset⟩ := hrun.settled_live fun _ _ h => h.1
  obtain rfl := (listEmpty_iff hset.toInv).mp (halone.2 hexit)
  obtain ⟨hset₁, hzombie, hidle₁⟩ := takeTrap_exit hset hexit hk
  have hp : k.view.curr ∉ live.filter (· ≠ k.view.curr) := by simp
  obtain ⟨live₂, runs₂, sleeps₂, hset₂, hp₂, hidle₂, hst₂⟩ :=
    hlater.gone (fun _ _ h => h.1) hset₁ hp
  refine ⟨hst₂.trans hzombie, ?_, runs₂, hset₂.queues.run, ?_⟩
  · intro hcurr
    have hne : k.view.curr ≠ k.view.idle := by
      intro heq
      have hm := hexit.mem hset.toInv
      rw [heq] at hm
      exact hset.idle_notMem hm
    rcases hset₂.curr_mem with hi | hl
    · exact hne (hcurr.symm.trans (hi.trans (hidle₂.trans hidle₁)))
    · rw [show k₂.view.curr = k.view.curr from hcurr] at hl
      exact hp₂ hl
  · exact fun hm => hp₂ ((hset₂.runs_iff _).mp hm).1

/-- A trap that does not run `timer_handle` with a clock that has reached the deadline. -/
def Before (deadline : Nat) (t : Trap) : Prop := isTimer t.scause = true → t.clock 1 < deadline

/-- A sleeper sleeps on as long as its deadline has not been reached. -/
theorem Traps.asleep {deadline : Nat} (h : Settled live k.view runs sleeps) (hp : p ∈ sleeps)
    (hdue : k.view.sleepUntil p = deadline)
    (htraps : Traps (fun k t => SleepsAlone k t ∧ Before deadline t) k k') :
    ∃ live' runs' sleeps', Settled live' k'.view runs' sleeps' ∧ p ∈ sleeps' ∧
      k'.view.sleepUntil p = deadline := by
  induction htraps with
  | refl => exact ⟨live, runs, sleeps, h, hp, hdue⟩
  | trap _ hgood hk ih =>
      obtain ⟨live₁, runs₁, sleeps₁, h₁, hp₁, hdue₁⟩ := ih
      obtain ⟨live₂, runs₂, sleeps₂, h₂, hc⟩ := takeTrap_live h₁ hgood.1 hk
      obtain ⟨hp₂, hdue₂⟩ := hc.asleep p hp₁ fun ht => by
        rw [hdue₁]
        exact hgood.2 ht
      exact ⟨live₂, runs₂, sleeps₂, h₂, hp₂, hdue₂.trans hdue₁⟩

/-- **No early wake-up** in a run in which processes go to sleep with nobody waiting: a process
whose `sys_sleep_ms` returned 0 is not current again before a `timer_handle` at its deadline. -/
theorem SchedRun.no_early_wakeup {k₀ : Kernel} (hrun : SchedRun SleepsAlone ps k)
    (hsleep : Calls k t SYS_sleep_ms) (halone : SleepsAlone k t)
    (hret : (k.trapEntry t).sysSleepMs k.cpu.proc (k.callArg t) t.clock = .ok (0, k₀))
    (hfits : t.clock 0 + msToTime (k.callArg t) < 2 ^ 64) (hk : k.takeTrap t = .ok k₁)
    (hlater : Traps (fun k' t' => SleepsAlone k' t' ∧
      Before (t.clock 0 + msToTime (k.callArg t)) t') k₁ k₂) :
    k₂.cpu.proc ≠ k.cpu.proc := by
  obtain ⟨live, runs, sleeps, hset⟩ := hrun.settled_live fun _ _ h => h
  have hvalid : ValidSleep (k.callArg t) := by
    rcases sysSleepMs_cases hret with ⟨-, hr⟩ | ⟨hvalid, -⟩
    · exact absurd (Prod.mk.inj hr).1 (by decide)
    · exact hvalid
  obtain rfl := (listEmpty_iff hset.toInv).mp (halone hsleep hvalid)
  obtain ⟨hset₁, hdue₁⟩ := takeTrap_sleep hset hsleep hvalid hk
  have hdue : k₁.view.sleepUntil k.view.curr = t.clock 0 + msToTime (k.callArg t) :=
    hdue₁.trans (Nat.mod_eq_of_lt hfits)
  obtain ⟨live₂, runs₂, sleeps₂, hset₂, hp₂, -⟩ :=
    hlater.asleep hset₁ (List.mem_append_right _ (List.mem_singleton.mpr rfl)) hdue
  intro hcurr
  obtain ⟨hlive, hsleeping⟩ := (hset₂.sleeps_iff _).mp hp₂
  have hc : k₂.view.curr = k.view.curr := hcurr
  rw [← hc] at hlive hsleeping
  rw [hset₂.curr_running hlive] at hsleeping
  cases hsleeping

/-! ### The shell, alone and with another process -/

/-- The system call `num` with argument `arg` of the process whose frame is at `tf`. -/
def userCall (tf num arg : Nat) : Trap := { shellCall num arg with tf := tf }

/-- A timer interrupt on the idle process. -/
def idleTick (now : Nat) : Trap where
  tf := 0
  frame := TrapFrame.zero
  scause := scauseIrqBit + scauseTimerInterrupt
  clock _ := now

theorem shell_booting : Booting twoProcs ([] ++ [shellProc]) where
  nodup := by decide
  procs := fun p hp => twoProcs_booting.procs p (List.mem_append_right [otherProc] hp)
  idle := twoProcs_booting.idle
  count := by decide
  needsSched := rfl

/-- A call of the shell, alone, and then a tick of the idle process. -/
theorem shell_then_idle (num arg now : Nat)
    (hrun : (do
      let k ← twoProcs.startQueues 0xffffffff80003000 shellProc []
      let k₁ ← k.takeTrap (shellCall num arg)
      let k₂ ← k₁.takeTrap (idleTick now)
      pure (((k.procs k.cpu.proc).isIdle, listEmpty k.nodes .runQueue),
        ((k.trapEntry (shellCall num arg)).reg k.cpu.proc 17 % 2 ^ 32, k.callArg (shellCall num arg)),
        (k₁.procs k₁.cpu.proc).isIdle, (k₂.procs k₂.cpu.proc).isIdle)) =
          Except.ok ((false, true), (num, arg), true, true)) :
    ∃ k k₁ k₂, twoProcs.startQueues 0xffffffff80003000 shellProc [] = .ok k ∧
      Calls k (shellCall num arg) num ∧ k.callArg (shellCall num arg) = arg ∧
      listEmpty k.nodes .runQueue = true ∧ k.takeTrap (shellCall num arg) = .ok k₁ ∧
      (∀ n, ¬Calls k₁ (idleTick now) n) ∧ k₁.takeTrap (idleTick now) = .ok k₂ := by
  rw [bind_eq_ok] at hrun
  obtain ⟨k, hstart, hrun⟩ := hrun
  rw [bind_eq_ok] at hrun
  obtain ⟨k₁, hcall, hrun⟩ := hrun
  rw [bind_eq_ok] at hrun
  obtain ⟨k₂, htick, hrun⟩ := hrun
  obtain ⟨hk, hrun⟩ := Prod.mk.inj (Except.ok.inj hrun)
  obtain ⟨hidle, hempty⟩ := Prod.mk.inj hk
  obtain ⟨hargs, hrun⟩ := Prod.mk.inj hrun
  obtain ⟨hnum, harg⟩ := Prod.mk.inj hargs
  have hidle₁ := (Prod.mk.inj hrun).1
  refine ⟨k, k₁, k₂, hstart, ⟨hidle, ?_, hnum⟩, harg, hempty, hcall, fun n hn => ?_, htick⟩
  · exact Or.inl rfl
  · rw [hn.1] at hidle₁
    cases hidle₁

theorem exit_final_shell :
    ∃ k k₁ k₂, Calls k (shellCall SYS_exit 0) SYS_exit ∧
      k.takeTrap (shellCall SYS_exit 0) = .ok k₁ ∧ k₁.takeTrap (idleTick 6000) = .ok k₂ ∧
      Gone k₂ k.cpu.proc := by
  obtain ⟨k, k₁, k₂, hstart, hcall, -, hempty, hk₁, hidle, hk₂⟩ :=
    shell_then_idle SYS_exit 0 6000 rfl
  have halone : LeavesAlone k (shellCall SYS_exit 0) := ⟨fun _ _ => hempty, fun _ => hempty⟩
  have halone₁ : LeavesAlone k₁ (idleTick 6000) :=
    ⟨fun h => absurd h (hidle _), fun h => absurd h (hidle _)⟩
  exact ⟨k, k₁, k₂, hcall, hk₁, hk₂,
    SchedRun.exit_final (.start shell_booting hstart) hcall halone hk₁ (.trap .refl halone₁ hk₂)⟩

/-- A process that exits while another one waits is made `RUNNABLE` again. -/
theorem exit_revived :
    ∃ ps k k₁, SchedRun (fun _ _ => True) ps k ∧ Calls k (shellCall SYS_exit 0) SYS_exit ∧
      k.takeTrap (shellCall SYS_exit 0) = .ok k₁ ∧ k.cpu.proc = shellProc ∧
      (k₁.procs shellProc).state = .runnable ∧ ¬Gone k₁ k.cpu.proc := by
  have hrun : (do
      let k ← twoProcs.startQueues 0xffffffff80003000 shellProc [otherProc]
      let k₁ ← k.takeTrap (shellCall SYS_exit 0)
      pure (k.cpu.proc, (k.procs k.cpu.proc).isIdle,
        (k.trapEntry (shellCall SYS_exit 0)).reg k.cpu.proc 17 % 2 ^ 32,
        (k₁.procs shellProc).state)) =
        Except.ok (shellProc, false, SYS_exit, ProcState.runnable) := rfl
  rw [bind_eq_ok] at hrun
  obtain ⟨k, hstart, hrun⟩ := hrun
  rw [bind_eq_ok] at hrun
  obtain ⟨k₁, hcall, hrun⟩ := hrun
  obtain ⟨hcurr, hrun⟩ := Prod.mk.inj (Except.ok.inj hrun)
  obtain ⟨hidle, hrun⟩ := Prod.mk.inj hrun
  obtain ⟨hnum, hstate⟩ := Prod.mk.inj hrun
  refine ⟨_, k, k₁, .start twoProcs_booting hstart, ⟨hidle, Or.inl rfl, hnum⟩, hcall, hcurr,
    hstate, fun h => ?_⟩
  have hzombie := h.zombie
  rw [hcurr, hstate] at hzombie
  cases hzombie

theorem no_early_wakeup_shell :
    ∃ k k₁ k₂, Calls k (shellCall SYS_sleep_ms 1000) SYS_sleep_ms ∧
      k.takeTrap (shellCall SYS_sleep_ms 1000) = .ok k₁ ∧ k₁.takeTrap (idleTick 6000) = .ok k₂ ∧
      k₂.cpu.proc ≠ k.cpu.proc := by
  obtain ⟨k, k₁, k₂, hstart, hcall, harg, hempty, hk₁, hidle, hk₂⟩ :=
    shell_then_idle SYS_sleep_ms 1000 6000 rfl
  have hret : (do
      let k ← twoProcs.startQueues 0xffffffff80003000 shellProc []
      let r ← (k.trapEntry (shellCall SYS_sleep_ms 1000)).sysSleepMs k.cpu.proc
        (k.callArg (shellCall SYS_sleep_ms 1000)) (shellCall SYS_sleep_ms 1000).clock
      pure r.1) = Except.ok 0 := rfl
  rw [hstart, ok_bind, bind_eq_ok] at hret
  obtain ⟨⟨r, k₀⟩, hret, hr⟩ := hret
  obtain rfl : r = 0 := Except.ok.inj hr
  have hdeadline : (shellCall SYS_sleep_ms 1000).clock 0 +
      msToTime (k.callArg (shellCall SYS_sleep_ms 1000)) = 10005000 := by
    rw [harg]
    rfl
  refine ⟨k, k₁, k₂, hcall, hk₁, hk₂, SchedRun.no_early_wakeup (.start shell_booting hstart) hcall
    (fun _ _ => hempty) hret ?_ hk₁ (.trap .refl ⟨fun h => absurd h (hidle _), fun _ => ?_⟩ hk₂)⟩
  · rw [hdeadline]
    norm_num
  · rw [hdeadline]
    change 6000 < 10005000
    norm_num

/-- A process that goes to sleep while another one waits runs again when that one yields. -/
theorem sleeper_runs :
    ∃ ps k k₀ k₁ k₂, SchedRun (fun _ _ => True) ps k ∧
      Calls k (shellCall SYS_sleep_ms 1000) SYS_sleep_ms ∧
      (k.trapEntry (shellCall SYS_sleep_ms 1000)).sysSleepMs k.cpu.proc 1000
        (shellCall SYS_sleep_ms 1000).clock = .ok (0, k₀) ∧
      k.takeTrap (shellCall SYS_sleep_ms 1000) = .ok k₁ ∧
      isTimer (userCall (otherProc + 0x1000) SYS_yield 0).scause = false ∧
      k₁.takeTrap (userCall (otherProc + 0x1000) SYS_yield 0) = .ok k₂ ∧
      k₂.cpu.proc = k.cpu.proc := by
  have hrun : (do
      let k ← twoProcs.startQueues 0xffffffff80003000 shellProc [otherProc]
      let r ← (k.trapEntry (shellCall SYS_sleep_ms 1000)).sysSleepMs k.cpu.proc 1000
        (shellCall SYS_sleep_ms 1000).clock
      let k₁ ← k.takeTrap (shellCall SYS_sleep_ms 1000)
      let k₂ ← k₁.takeTrap (userCall (otherProc + 0x1000) SYS_yield 0)
      pure (r.1, (k.procs k.cpu.proc).isIdle,
        (k.trapEntry (shellCall SYS_sleep_ms 1000)).reg k.cpu.proc 17 % 2 ^ 32,
        k.cpu.proc, k₂.cpu.proc)) =
        Except.ok (0, false, SYS_sleep_ms, shellProc, shellProc) := rfl
  rw [bind_eq_ok] at hrun
  obtain ⟨k, hstart, hrun⟩ := hrun
  rw [bind_eq_ok] at hrun
  obtain ⟨⟨r, k₀⟩, hret, hrun⟩ := hrun
  rw [bind_eq_ok] at hrun
  obtain ⟨k₁, hk₁, hrun⟩ := hrun
  rw [bind_eq_ok] at hrun
  obtain ⟨k₂, hk₂, hrun⟩ := hrun
  obtain ⟨hr, hrun⟩ := Prod.mk.inj (Except.ok.inj hrun)
  obtain ⟨hidle, hrun⟩ := Prod.mk.inj hrun
  obtain ⟨hnum, hrun⟩ := Prod.mk.inj hrun
  obtain ⟨hcurr, hcurr₂⟩ := Prod.mk.inj hrun
  obtain rfl : r = 0 := hr
  refine ⟨_, k, k₀, k₁, k₂, .start twoProcs_booting hstart, ⟨hidle, Or.inl rfl, hnum⟩, hret, hk₁,
    by decide, hk₂, ?_⟩
  rw [hcurr, hcurr₂]

end SystemN.Kernel
