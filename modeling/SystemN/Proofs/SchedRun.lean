/-
Runs of one CPU: from the queues `create_proc` and `shell_init` leave, any traps.

The scheduler puts the outgoing process back on the run queue without looking at its
state, and does not put it back when nothing else can run.  So the queues and the
states agree along a run as long as no process goes to sleep while another one
waits, and none yields while no other one waits; the run lemma below is about those
traps, and the counterexample is the first one that is not.
-/
import SystemN.Proofs.Sched
import SystemN.Proofs.Syscall
import SystemN.Proofs.Mm.Partition

namespace SystemN.Kernel

open Rings SchedView

variable {k k' : Kernel} {ps runs sleeps : List Nat} {p : Nat}

/-! ### System calls that leave the scheduler alone -/

theorem view_of_masked (h : k'.masked = k.masked) : k'.view = k.view := by
  change k'.masked.view = k.masked.view
  rw [h]

theorem view_sysWrite {fd a n : Nat} {r : Nat × Kernel} (h : k.sysWrite fd a n = .ok r) :
    r.2.view = k.view := view_of_masked (masked_of_bare (bare_sysWrite h))

theorem view_sysRead {fd a n : Nat} {r : Nat × Kernel} (h : k.sysRead fd a n = .ok r) :
    r.2.view = k.view := view_of_masked (masked_of_bare (bare_sysRead h))

theorem view_sysSbrk {p size : Nat} {r : Nat × Kernel} (h : k.sysSbrk p size = .ok r) :
    r.2.view = k.view := view_of_masked (masked_of_bare (bare_sysSbrk h))

theorem view_sysMunmap {p addr size : Nat} {r : Nat × Kernel}
    (h : k.sysMunmap p addr size = .ok r) : r.2.view = k.view :=
  view_of_masked (masked_of_bare (bare_sysMunmap h))

/-! ### One trap -/

/-- The state at the end of a handler: the current process is running unless `schedule` is going
to be called, and then it is one `schedule` deals with. -/
structure Ready (ps : List Nat) (v : SchedView) (runs sleeps : List Nat) : Prop
    extends Inv ps v runs sleeps where
  stay : v.needsSched = false → v.curr ∈ ps → v.state v.curr = .running
  leave : v.needsSched = true → v.curr ∈ ps →
    v.state v.curr ≠ if runs = [] then .running else .sleeping

theorem Ready.of_settled (h : Settled ps k.view runs sleeps) (hv : k'.view = k.view) :
    Ready ps k'.view runs sleeps := by
  rw [hv]
  refine ⟨h.toInv, fun _ => h.curr_running, fun hn => ?_⟩
  rw [h.not_needed] at hn
  cases hn

theorem Ready.of_needed {v : SchedView} (h : Inv ps v runs sleeps) (hn : v.needsSched = true)
    (hleave : v.curr ∈ ps → v.state v.curr ≠ if runs = [] then .running else .sleeping) :
    Ready ps v runs sleeps := by
  refine ⟨h, fun hf => ?_, fun _ => hleave⟩
  rw [hn] at hf
  cases hf

/-- **The end of a trap**: `schedule` leaves the processes settled. -/
theorem trapEnd_spec (h : Ready ps k.view runs sleeps) :
    ∃ k' runs', k.trapEnd = .ok k' ∧ Settled ps k'.view runs' sleeps := by
  unfold trapEnd
  by_cases hn : k.view.needsSched = true
  · rw [if_pos (show k.cpu.needsSched = true from hn)]
    have hinv : Inv ps (k.setNeedsSched false).view runs sleeps :=
      ⟨h.queues, h.runs_iff, h.sleeps_iff, h.used, h.running, h.curr_mem, h.curr_ne, h.procs,
        h.idle, h.count⟩
    have hleave := h.leave hn
    cases runs with
    | nil =>
        obtain ⟨k', hk', hinv', hcurr, hstate, hneeds⟩ := schedule_idle hinv (by simpa using hleave)
        refine ⟨k', [], hk', hinv', fun hm => ?_, hneeds⟩
        rw [hcurr] at hm
        exact absurd hm hinv.idle_notMem
    | cons q rest =>
        obtain ⟨k', hk', hinv', hcurr, hstate, hneeds⟩ := schedule_next hinv (by simpa using hleave)
        exact ⟨k', _, hk', hinv', fun _ => by rw [hcurr]; exact hstate, hneeds⟩
  · have hn' : k.view.needsSched = false := by simpa using hn
    rw [if_neg (show ¬k.cpu.needsSched = true from hn)]
    exact ⟨k, runs, rfl, h.toInv, h.stay hn', hn'⟩

/-- **A timer interrupt** leaves the current process running, and asks for `schedule` only if
somebody has been woken. -/
theorem timerHandle_ready (clock : Nat → Nat) (h : Settled ps k.view runs sleeps) :
    ∃ k' runs' sleeps', k.timerHandle clock = .ok k' ∧ Ready ps k'.view runs' sleeps' := by
  have hcurr : k.view.curr ∉ sleeps := by
    intro hm
    obtain ⟨hps, hst⟩ := (h.sleeps_iff _).mp hm
    rw [h.curr_running hps] at hst
    cases hst
  obtain ⟨k', hk', hinv, hview, hstate⟩ := timerHandle_spec clock h.toInv hcurr
  have hrunning : k'.view.curr ∈ ps → k'.view.state k'.view.curr = .running := by
    have hc : k'.view.curr = k.view.curr := by rw [hview]
    rw [hc, hstate _ hcurr]
    exact h.curr_running
  refine ⟨k', _, _, hk', hinv, fun _ => hrunning, fun hn hm => ?_⟩
  rw [hrunning hm]
  have hany : sleeps.any (due (clock 1) k.view) = true := by
    rw [hview, h.not_needed] at hn
    simpa using hn
  obtain ⟨q, hq, hdue⟩ := List.any_eq_true.mp hany
  have hne : runs ++ sleeps.filter (due (clock 1) k.view) ≠ [] := by
    intro hnil
    have := (List.append_eq_nil_iff.mp hnil).2
    exact List.filter_eq_nil_iff.mp this q hq hdue
  rw [if_neg hne]
  exact fun hc => by cases hc

/-- The current process stops running, and is in `sleeps'` if it has gone to sleep. -/
theorem leave_inv {nodes : Node → Links Node} {st : ProcState} {sleeps' : List Nat}
    {needsSched : Bool} {sleepUntil : Nat → Nat} {v : SchedView} (h : Settled ps v runs sleeps)
    (hps : v.curr ∈ ps) (hq : Queues nodes runs sleeps')
    (hst : st = .zombie ∧ sleeps' = sleeps ∨ st = .sleeping ∧ sleeps' = sleeps ++ [v.curr]) :
    Inv ps { v with
      nodes := nodes
      needsSched := needsSched
      state := Function.update v.state v.curr st
      sleepUntil := sleepUntil } runs sleeps' := by
  have hrunning := h.curr_running hps
  refine ⟨hq, ?_, ?_, ?_, ?_, h.curr_mem, ?_, h.procs, h.idle, h.count⟩
  · intro p
    by_cases hp : p = v.curr
    · subst hp
      have hne : v.curr ∉ runs := h.notMem_runs (h.curr_ne hps)
      rcases hst with ⟨rfl, -⟩ | ⟨rfl, -⟩
      · simp [hne]
      · simp [hne]
    · simpa [hp] using h.runs_iff p
  · intro p
    by_cases hp : p = v.curr
    · subst hp
      have hne : v.curr ∉ sleeps := h.notMem_sleeps (by simp [hrunning])
      rcases hst with ⟨rfl, rfl⟩ | ⟨rfl, rfl⟩
      · simp [hne]
      · simp [hps]
    · rcases hst with ⟨-, rfl⟩ | ⟨-, rfl⟩
      · simpa [hp] using h.sleeps_iff p
      · simpa [hp] using h.sleeps_iff p
  · intro p hmem
    by_cases hp : p = v.curr
    · subst hp
      rcases hst with ⟨rfl, -⟩ | ⟨rfl, -⟩
      · simp
      · simp
    · simpa [hp] using h.used p hmem
  · intro p hmem
    by_cases hp : p = v.curr
    · exact fun _ => hp
    · simpa [hp] using h.running p hmem
  · intro _
    rcases hst with ⟨rfl, -⟩ | ⟨rfl, -⟩
    · simp
    · simp

/-- An argument `sys_sleep_ms` accepts. -/
def ValidSleep (ms : Nat) : Prop := ms ≠ 0 ∧ ms ≤ maxSleepMs

/-- A system call after which `schedule` treats its caller as its state demands: no other process
waits if the caller goes to sleep, and one does if the caller only yields. -/
def Fits (k : Kernel) (p : Nat) : Prop :=
  (k.reg p 17 % 2 ^ 32 = SYS_yield → listEmpty k.nodes .runQueue = false) ∧
    (k.reg p 17 % 2 ^ 32 = SYS_sleep_ms →
      (listEmpty k.nodes .runQueue = true ↔ ValidSleep (k.reg p 10)))

theorem listEmpty_iff (h : Inv ps k.view runs sleeps) :
    listEmpty k.nodes .runQueue = true ↔ runs = [] := by
  have hempty : listEmpty k.nodes .runQueue = true ↔ runs.map Node.qNode = [] :=
    listEmpty_ring h.queues.run
  rw [hempty, List.map_eq_nil_iff]

theorem sysSleepMs_ready {ms : Nat} {clock : Nat → Nat} {r : Nat × Kernel}
    (h : Settled ps k.view runs sleeps) (hps : k.view.curr ∈ ps)
    (hfit : listEmpty k.nodes .runQueue = true ↔ ValidSleep ms)
    (hk : k.sysSleepMs k.view.curr ms clock = .ok r) :
    ∃ sleeps', Ready ps (r.2.setNeedsSched true).view runs sleeps' := by
  unfold sysSleepMs at hk
  rw [listEmpty_iff h.toInv] at hfit
  split at hk
  · rename_i hbad
    obtain rfl := Except.ok.inj hk
    refine ⟨sleeps, Ready.of_needed ⟨h.queues, h.runs_iff, h.sleeps_iff, h.used, h.running,
      h.curr_mem, h.curr_ne, h.procs, h.idle, h.count⟩ rfl fun _ => ?_⟩
    have hne : runs ≠ [] := fun hnil => by
      obtain ⟨h0, hmax⟩ := hfit.mp hnil
      omega
    have hrun : k.view.state k.view.curr = .running := h.curr_running hps
    simp [hne, hrun]
  · rename_i hgood
    have hnil : runs = [] := hfit.mpr ⟨fun h0 => hgood (Or.inl h0), by
      by_contra hmax
      exact hgood (Or.inr (by omega))⟩
    rw [bind_eq_ok] at hk
    obtain ⟨nodes', hadd, hk⟩ := hk
    obtain rfl := Except.ok.inj hk
    have hruns : k.view.curr ∉ runs := h.notMem_runs (h.curr_ne hps)
    have hsleeps : k.view.curr ∉ sleeps := h.notMem_sleeps (by simp [h.curr_running hps])
    obtain ⟨nodes'', hadd', hq⟩ := h.queues.add_sleep hruns hsleeps
    obtain rfl : nodes'' = nodes' := by
      have : listAddTail k.nodes (.qNode k.view.curr) .sleepQueue = .ok nodes' := hadd
      rw [show k.view.nodes = k.nodes from rfl, this] at hadd'
      exact (Except.ok.inj hadd').symm
    refine ⟨sleeps ++ [k.view.curr], Ready.of_needed ?_ rfl fun _ => ?_⟩
    · rw [view_setNeedsSched, view_setSleepUntil, view_setNodes, view_setState]
      exact leave_inv h hps hq (Or.inr ⟨rfl, rfl⟩)
    · rw [if_pos hnil, view_setNeedsSched, view_setSleepUntil, view_setNodes, view_setState]
      simp

/-- **A system call** of the current process. -/
theorem syscallHandler_ready {clock : Nat → Nat} (h : Settled ps k.view runs sleeps)
    (hps : k.view.curr ∈ ps) (hfit : k.Fits k.view.curr)
    (hk : k.syscallHandler k.view.curr clock = .ok k') :
    ∃ sleeps', Ready ps k'.view runs sleeps' := by
  have hrun : k.view.state k.view.curr = .running := h.curr_running hps
  have hsame : ∀ {k' : Kernel}, k'.view = k.view → ∃ sleeps', Ready ps k'.view runs sleeps' :=
    fun hv => ⟨sleeps, Ready.of_settled h hv⟩
  unfold syscallHandler at hk
  split at hk
  · rw [bind_eq_ok] at hk
    obtain ⟨⟨r, k₁⟩, hcall, hk⟩ := hk
    obtain rfl := Except.ok.inj hk
    exact hsame ((view_setA0 r).trans (view_sysWrite hcall))
  · rw [bind_eq_ok] at hk
    obtain ⟨⟨r, k₁⟩, hcall, hk⟩ := hk
    obtain rfl := Except.ok.inj hk
    exact hsame ((view_setA0 r).trans (view_sysRead hcall))
  · -- exit
    obtain rfl := Except.ok.inj hk
    refine ⟨sleeps, Ready.of_needed ?_ rfl fun _ => ?_⟩
    · rw [view_setNeedsSched, view_setState]
      exact leave_inv h hps h.queues (Or.inl ⟨rfl, rfl⟩)
    · rw [view_setNeedsSched, view_setState]
      by_cases hnil : runs = []
      · simp [hnil]
      · simp [hnil]
  · obtain rfl := Except.ok.inj hk
    exact hsame (view_setA0 _)
  · -- yield
    rename_i hnum
    obtain rfl := Except.ok.inj hk
    have hne : runs ≠ [] := fun hnil => by
      have := hfit.1 hnum
      rw [(listEmpty_iff h.toInv).mpr hnil] at this
      cases this
    refine ⟨sleeps, Ready.of_needed ⟨h.queues, h.runs_iff, h.sleeps_iff, h.used, h.running,
      h.curr_mem, h.curr_ne, h.procs, h.idle, h.count⟩ rfl fun _ => ?_⟩
    rw [if_neg hne]
    simp [hrun]
  · rename_i hnum
    rw [bind_eq_ok] at hk
    obtain ⟨⟨r, k₁⟩, hcall, hk⟩ := hk
    obtain rfl := Except.ok.inj hk
    exact sysSleepMs_ready h hps (hfit.2 hnum) hcall
  · rw [bind_eq_ok] at hk
    obtain ⟨⟨r, k₁⟩, hcall, hk⟩ := hk
    obtain rfl := Except.ok.inj hk
    exact hsame ((view_setA0 r).trans (view_sysSbrk hcall))
  · rw [bind_eq_ok] at hk
    obtain ⟨⟨r, k₁⟩, hcall, hk⟩ := hk
    obtain rfl := Except.ok.inj hk
    exact hsame ((view_setA0 r).trans (view_sysMunmap hcall))
  · obtain rfl := Except.ok.inj hk
    exact hsame (view_setA0 _)

/-- A trap on which `schedule` does what the state of the current process demands. -/
def FitsTrap (k : Kernel) (t : Trap) : Prop :=
  (k.procs k.cpu.proc).isIdle = false →
    scauseCode t.scause = scauseUserEcall ∨ scauseCode t.scause = scauseSupervisorEcall →
      (k.trapEntry t).Fits k.cpu.proc

theorem ecall_ready {tf : Nat} {clock : Nat → Nat} (h : Settled ps k.view runs sleeps)
    (hps : k.view.curr ∈ ps) (hfit : k.Fits k.view.curr)
    (hk : k.ecall tf k.view.curr clock = .ok k') :
    ∃ sleeps', Ready ps k'.view runs sleeps' := by
  have hreg : ∀ p i, (k.setFrame tf { k.frames tf with
      sepc := u64 ((k.frames tf).sepc + 4) }).reg p i = k.reg p i := by
    intro p i
    unfold reg setFrame
    by_cases htf : (k.procs p).tf = tf
    · simp [htf]
    · simp [htf]
  refine syscallHandler_ready (k := k.setFrame tf { k.frames tf with
    sepc := u64 ((k.frames tf).sepc + 4) }) h hps ?_ hk
  unfold Fits at hfit ⊢
  rw [hreg, hreg]
  exact hfit

/-- **Step lemma**: a trap that fits keeps the processes settled. -/
theorem takeTrap_settled {t : Trap} (h : Settled ps k.view runs sleeps) (hfit : k.FitsTrap t)
    (hk : k.takeTrap t = .ok k') : ∃ runs' sleeps', Settled ps k'.view runs' sleeps' := by
  have hentry : (k.trapEntry t).view = k.view := rfl
  unfold takeTrap at hk
  rw [← hentry] at h
  have hfit' : ((k.trapEntry t).procs (k.trapEntry t).cpu.proc).isIdle = false →
      scauseCode (k.trapEntry t).hart.scause = scauseUserEcall ∨
        scauseCode (k.trapEntry t).hart.scause = scauseSupervisorEcall →
      (k.trapEntry t).Fits (k.trapEntry t).view.curr := hfit
  generalize k.trapEntry t = k₁ at h hk hfit'
  have hend : ∀ {k₂ : Kernel} {runs sleeps}, Ready ps k₂.view runs sleeps → k₂.trapEnd = .ok k' →
      ∃ runs' sleeps', Settled ps k'.view runs' sleeps' := by
    intro k₂ runs sleeps hready hend
    obtain ⟨k₃, runs', hk₃, hsettled⟩ := trapEnd_spec hready
    rw [hk₃] at hend
    obtain rfl := Except.ok.inj hend
    exact ⟨runs', sleeps, hsettled⟩
  have htimer : ∀ {k₂ : Kernel}, k₁.timerHandle t.clock = .ok k₂ → k₂.trapEnd = .ok k' →
      ∃ runs' sleeps', Settled ps k'.view runs' sleeps' := by
    intro k₂ hk₂ hend₂
    obtain ⟨k₃, runs', sleeps', hk₃, hready⟩ := timerHandle_ready t.clock h
    rw [hk₃] at hk₂
    obtain rfl := Except.ok.inj hk₂
    exact hend hready hend₂
  unfold trapHandler at hk
  dsimp only at hk
  by_cases hps : k₁.view.curr ∈ ps
  · have hidle : (k₁.procs k₁.cpu.proc).isIdle = false := (h.procs _ hps).2
    have hzero : k₁.cpu.proc ≠ 0 := (h.procs _ hps).1
    rw [if_neg (by simp [hidle])] at hk
    split at hk
    · cases hk
    · rw [bind_eq_ok] at hk
      obtain ⟨k₂, hcase, hk⟩ := hk
      unfold switchCode at hcase
      split at hcase
      · rename_i hcode
        obtain ⟨sleeps', hready⟩ := ecall_ready h hps (hfit' hidle (Or.inl hcode)) hcase
        exact hend hready hk
      · rename_i hcode
        obtain ⟨sleeps', hready⟩ := ecall_ready h hps (hfit' hidle (Or.inr hcode)) hcase
        exact hend hready hk
      · split at hcase
        · exact htimer hcase hk
        · obtain rfl := Except.ok.inj hcase
          exact hend (Ready.of_settled h rfl) hk
      · cases hcase
      · cases hcase
      · cases hcase
  · have hidle : (k₁.procs k₁.cpu.proc).isIdle = true := h.curr_isIdle.mpr hps
    have hzero : k₁.cpu.proc ≠ 0 := by
      have : k₁.cpu.proc = k₁.view.idle := h.curr_mem.resolve_right hps
      rw [this]
      exact h.idle.1
    rw [if_pos ⟨hzero, hidle⟩] at hk
    split at hk
    · rw [bind_eq_ok] at hk
      obtain ⟨k₂, hk₂, hk⟩ := hk
      exact htimer hk₂ hk
    · cases hk

/-! ### The start -/

theorem enqueue_spec (hq : Queues k.nodes runs sleeps) (hr : p ∉ runs) (hs : p ∉ sleeps) :
    ∃ k', k.enqueue p = .ok k' ∧ Queues k'.nodes (runs ++ [p]) sleeps ∧
      k'.view = { k.view with
        nodes := k'.nodes, state := Function.update k.view.state p .runnable } := by
  obtain ⟨nodes', hadd, hq'⟩ := hq.add_run hr hs
  have hadd' : listAddTail (k.setState p .runnable).nodes (.qNode p) .runQueue = .ok nodes' := hadd
  refine ⟨(k.setState p .runnable).setNodes nodes', ?_, hq', ?_⟩
  · simp only [enqueue, hadd', ok_bind, pure, Except.pure]
  · rw [view_setNodes, view_setState]
    rfl

/-- The last steps of any number of `create_proc` calls. -/
theorem enqueue_all (qs : List Nat) :
    ∀ (runs : List Nat) (k : Kernel), Queues k.nodes runs [] → (runs ++ qs).Nodup →
      ∃ k', qs.foldlM enqueue k = .ok k' ∧ Queues k'.nodes (runs ++ qs) [] ∧
        k'.view = { k.view with
          nodes := k'.nodes
          state := fun p => if p ∈ qs then .runnable else k.view.state p } := by
  induction qs with
  | nil =>
      intro runs k hq _
      refine ⟨k, rfl, by simpa using hq, ?_⟩
      simp only [List.not_mem_nil, if_false]
      rfl
  | cons q qs ih =>
      intro runs k hq hnodup
      have hfree : q ∉ runs := by
        intro hm
        exact (List.nodup_append.mp hnodup).2.2 q hm q List.mem_cons_self rfl
      obtain ⟨k₁, henq, hq₁, hview₁⟩ := enqueue_spec hq hfree List.not_mem_nil
      obtain ⟨k', hall, hq', hview'⟩ := ih (runs ++ [q]) k₁ hq₁ (by simpa using hnodup)
      refine ⟨k', ?_, by simpa using hq', ?_⟩
      · rw [List.foldlM_cons, henq, ok_bind, hall]
      · rw [hview', hview₁]
        dsimp only
        congr 1
        funext p
        by_cases hp : p = q
        · subst hp
          simp
        · simp [hp]

/-- What `create_proc` promises of the processes `ps`, and the state of the CPU it finds. -/
structure Booting (k : Kernel) (ps : List Nat) : Prop where
  nodup : ps.Nodup
  procs : ∀ p ∈ ps, p ≠ 0 ∧ p ≠ k.idleProc ∧ (k.procs p).isIdle = false
  idle : k.idleProc ≠ 0
  count : ps.length ≤ k.nextPid
  needsSched : k.cpu.needsSched = false

/-- The state `s_mode_main` prepares: empty queues, and the idle process. -/
theorem setupIdleProc_spec (stack : Nat) :
    Queues (k.initQueues.setupIdleProc stack).nodes [] [] ∧
      (k.initQueues.setupIdleProc stack).view.isIdle =
        Function.update k.view.isIdle k.idleProc true ∧
      (k.initQueues.setupIdleProc stack).view.idle = k.view.idle ∧
      (k.initQueues.setupIdleProc stack).view.needsSched = k.view.needsSched ∧
      (k.initQueues.setupIdleProc stack).view.nextPid = k.view.nextPid := by
  have hnodes : (k.initQueues.setupIdleProc stack).nodes =
      Function.update (listHeadInit (listHeadInit k.nodes .runQueue) .sleepQueue)
        (.qNode k.idleProc) ⟨none, none⟩ := by
    unfold setupIdleProc
    dsimp only
    split
    · rfl
    · rfl
  have hisIdle : (k.initQueues.setupIdleProc stack).view.isIdle =
      Function.update k.view.isIdle k.idleProc true := by
    have hprocs : ∃ v : Proc, v.isIdle = true ∧ (k.initQueues.setupIdleProc stack).procs =
        Function.update k.procs k.idleProc v := by
      unfold setupIdleProc
      dsimp only
      split
      · exact ⟨_, rfl, rfl⟩
      · exact ⟨_, rfl, rfl⟩
    obtain ⟨v, hv, hprocs⟩ := hprocs
    funext q
    simp only [view, hprocs]
    by_cases hq : q = k.idleProc
    · subst hq
      simp [hv]
    · simp [hq]
  refine ⟨⟨?_, ?_, by simp⟩, hisIdle, ?_, ?_, ?_⟩
  · rw [hnodes]
    refine IsRing.frame (listHeadInit_ring k.nodes .runQueue) fun x hx => ?_
    obtain rfl : x = .runQueue := by simpa using hx
    rw [Function.update_of_ne (by simp), listHeadInit_of_ne (by simp)]
  · rw [hnodes]
    refine IsRing.frame (listHeadInit_ring (listHeadInit k.nodes .runQueue) .sleepQueue) fun x hx => ?_
    obtain rfl : x = .sleepQueue := by simpa using hx
    rw [Function.update_of_ne (by simp)]
  · unfold setupIdleProc
    dsimp only
    split
    · rfl
    · rfl
  · unfold setupIdleProc
    dsimp only
    split
    · rfl
    · rfl
  · unfold setupIdleProc
    dsimp only
    split
    · rfl
    · rfl

/-- `shell_init` takes the last process off the queue again and runs it. -/
theorem makeCurrent_spec {shell : Nat} {qs : List Nat} (hq : Queues k.nodes (qs ++ [shell]) []) :
    ∃ k', k.makeCurrent shell = .ok k' ∧ Queues k'.nodes qs [] ∧
      k'.view = { k.view with
        nodes := k'.nodes
        state := Function.update k.view.state shell .running
        curr := shell } := by
  obtain ⟨nodes', hdel, hq'⟩ := hq.del_run
  rw [List.append_nil] at hq'
  let k₁ := (k.setNodes nodes').setState shell .running
  refine ⟨(k₁.setProc shell { k₁.procs shell with boundCpu := 0 }).setCurr shell, ?_, hq', ?_⟩
  · simp only [makeCurrent, hdel, ok_bind, pure, Except.pure, k₁]
  · rw [view_setCurr, view_setProc (by rfl) (by rfl) (by rfl)]
    simp only [k₁, view_setState, view_setNodes]
    rfl

/-- **The start is settled**: the created processes wait, and the shell runs. -/
theorem startQueues_settled {stack shell : Nat} {qs : List Nat} (h : Booting k (qs ++ [shell])) :
    ∃ k', k.startQueues stack shell qs = .ok k' ∧ Settled (qs ++ [shell]) k'.view qs [] := by
  obtain ⟨hq₀, hisIdle, hidle, hneeds, hpid⟩ := setupIdleProc_spec (k := k) stack
  have hnodup := h.nodup
  obtain ⟨k₁, hall, hq₁, hview₁⟩ := enqueue_all qs [] _ hq₀ (List.nodup_append.mp hnodup).1
  have hshell : shell ∉ qs := fun hm =>
    (List.nodup_append.mp hnodup).2.2 shell hm shell (List.mem_singleton.mpr rfl) rfl
  rw [List.nil_append] at hq₁
  obtain ⟨k₂, henq, hq₂, hview₂⟩ := enqueue_spec hq₁ hshell List.not_mem_nil
  obtain ⟨k₃, hcur, hq₃, hview₃⟩ := makeCurrent_spec hq₂
  refine ⟨k₃, ?_, ⟨⟨by rw [hview₃]; exact hq₃, ?_, ?_, ?_, ?_, ?_, ?_, ?_, ?_, ?_⟩, ?_, ?_⟩⟩
  · simp only [startQueues, hall, ok_bind, henq, hcur]
  all_goals rw [hview₃, hview₂, hview₁]
  · intro p
    by_cases hp : p = shell
    · subst hp
      simp [hshell]
    · by_cases hpq : p ∈ qs
      · simp [hp, hpq]
      · simp [hp, hpq]
  · intro p
    by_cases hp : p = shell
    · subst hp
      simp
    · by_cases hpq : p ∈ qs
      · simp [hp, hpq]
      · simp [hp, hpq]
  · intro p hmem
    by_cases hp : p = shell
    · subst hp
      simp
    · have hpq : p ∈ qs := by simpa [hp] using hmem
      simp [hp, hpq]
  · intro p hmem
    by_cases hp : p = shell
    · exact fun _ => hp
    · have hpq : p ∈ qs := by simpa [hp] using hmem
      simp [hp, hpq]
  · exact Or.inr (by simp)
  · intro _
    simp
  · intro p hmem
    obtain ⟨h0, hne, hf⟩ := h.procs p hmem
    refine ⟨h0, ?_⟩
    simp only [hisIdle, Function.update_of_ne hne]
    exact hf
  · simp only [hisIdle, hidle]
    exact ⟨h.idle, Function.update_self ..⟩
  · simp only [hpid]
    exact h.count
  · intro _
    simp
  · simp only [hneeds]
    exact h.needsSched

/-! ### Runs -/

/-- Runs of a CPU in which every trap meets the condition `good`. -/
inductive SchedRun (good : Kernel → Trap → Prop) : List Nat → Kernel → Prop where
  | start {k k' : Kernel} {stack shell : Nat} {qs : List Nat} (h : Booting k (qs ++ [shell]))
      (hk : k.startQueues stack shell qs = .ok k') : SchedRun good (qs ++ [shell]) k'
  | trap {ps : List Nat} {k k' : Kernel} {t : Trap} (hrun : SchedRun good ps k) (hgood : good k t)
      (hk : k.takeTrap t = .ok k') : SchedRun good ps k'

/-- The states of the processes `ps` agree with the queues they are on.  A queue that is a ring
holds each of its nodes once. -/
structure StatesAgree (ps : List Nat) (k : Kernel) (runs sleeps : List Nat) : Prop where
  runQueue : IsRing k.nodes .runQueue (runs.map .qNode)
  sleepQueue : IsRing k.nodes .sleepQueue (sleeps.map .qNode)
  disjoint : ∀ p ∈ runs, p ∉ sleeps
  members : ∀ p, p ∈ runs ∨ p ∈ sleeps → p ∈ ps
  runnable : ∀ p ∈ ps, (k.procs p).state = .runnable ↔ p ∈ runs
  sleeping : ∀ p ∈ ps, (k.procs p).state = .sleeping ↔ p ∈ sleeps
  running : ∀ p ∈ ps, (k.procs p).state = .running ↔ p = k.cpu.proc
  zombie : ∀ p ∈ ps, (k.procs p).state = .zombie → p ∉ runs ∧ p ∉ sleeps
  notLost : ∀ p ∈ ps, (k.procs p).state ≠ .zombie → p = k.cpu.proc ∨ p ∈ runs ∨ p ∈ sleeps

theorem Settled.agree (h : Settled ps k.view runs sleeps) : StatesAgree ps k runs sleeps := by
  refine ⟨h.queues.run, h.queues.sleep, h.queues.disjoint, ?_, ?_, ?_, ?_, ?_, ?_⟩
  · rintro p (hp | hp)
    · exact ((h.runs_iff p).mp hp).1
    · exact ((h.sleeps_iff p).mp hp).1
  · intro p hp
    exact ⟨fun hst => (h.runs_iff p).mpr ⟨hp, hst⟩, fun hm => ((h.runs_iff p).mp hm).2⟩
  · intro p hp
    exact ⟨fun hst => (h.sleeps_iff p).mpr ⟨hp, hst⟩, fun hm => ((h.sleeps_iff p).mp hm).2⟩
  · intro p hp
    refine ⟨h.running p hp, ?_⟩
    rintro rfl
    exact h.curr_running hp
  · intro p _ hst
    have hst' : k.view.state p = .zombie := hst
    exact ⟨h.notMem_runs (by simp [hst']), h.notMem_sleeps (by simp [hst'])⟩
  · intro p hp hst
    cases hv : k.view.state p with
    | unused => exact absurd hv (h.used p hp)
    | sleeping => exact Or.inr (Or.inr ((h.sleeps_iff p).mpr ⟨hp, hv⟩))
    | runnable => exact Or.inr (Or.inl ((h.runs_iff p).mpr ⟨hp, hv⟩))
    | running => exact Or.inl (h.running p hp hv)
    | zombie => exact absurd hv hst

theorem SchedRun.settled (h : SchedRun FitsTrap ps k) :
    ∃ runs sleeps, Settled ps k.view runs sleeps := by
  induction h with
  | start h hk =>
      obtain ⟨k', hk', hsettled⟩ := startQueues_settled h
      rw [hk'] at hk
      obtain rfl := Except.ok.inj hk
      exact ⟨_, _, hsettled⟩
  | trap _ hgood hk ih =>
      obtain ⟨runs, sleeps, hsettled⟩ := ih
      exact takeTrap_settled hsettled hgood hk

/-- **Run lemma**: along a run of traps that fit, the states of the processes agree with the
queues in every state reached. -/
theorem SchedRun.states_agree (h : SchedRun FitsTrap ps k) :
    ∃ runs sleeps, StatesAgree ps k runs sleeps := by
  obtain ⟨runs, sleeps, hsettled⟩ := h.settled
  exact ⟨runs, sleeps, Settled.agree hsettled⟩

/-! ### Two processes -/

@[simp] abbrev shellProc : Nat := 0xffffffff80200000
@[simp] abbrev otherProc : Nat := 0xffffffff80200100

/-- A kernel in which `create_proc` has returned two processes, at these addresses. -/
def twoProcs : Kernel where
  layout := Mm.smallLayout
  symbols := ⟨0xffffffff80001000, 0xffffffff80002000⟩
  snub := Snub.snubInit (Mm.reset fun _ => 0)
  kernelPagetable := 0x80100000
  nextPid := 2
  procs p := { Proc.zero with tf := p + 0x1000 }
  frames _ := TrapFrame.zero
  nodes _ := ⟨none, none⟩
  cpu := ⟨0, false, 0⟩
  hart := ⟨0, .trapVector, 0, 0, 0, 0, Context.zero⟩
  uartIn := []
  uartOut := []

theorem twoProcs_booting : Booting twoProcs ([otherProc] ++ [shellProc]) where
  nodup := by decide
  procs := by
    intro p hp
    simp only [List.mem_append, List.mem_singleton] at hp
    rcases hp with rfl | rfl
    · exact ⟨by decide, by decide, rfl⟩
    · exact ⟨by decide, by decide, rfl⟩
  idle := by decide
  count := by decide
  needsSched := rfl

/-- The shell's system call `num` with argument `arg`, from user mode. -/
def shellCall (num arg : Nat) : Trap where
  tf := shellProc + 0x1000
  frame := ⟨fun i => if i = 17 then num else if i = 10 then arg else 0, 0x100, 0, 8, 0⟩
  scause := 8
  clock _ := 5000

/-- The state after the shell's call, with the other process waiting. -/
def afterCall (num arg : Nat) : Except Stop Kernel := do
  let k ← twoProcs.startQueues 0xffffffff80003000 shellProc [otherProc]
  k.takeTrap (shellCall num arg)

/-- With another process waiting, a sleeper is made `RUNNABLE` and put on the run queue while the
sleep queue still holds it. -/
theorem sleep_breaks_agreement :
    ∃ ps k, SchedRun (fun _ _ => True) ps k ∧ ¬∃ runs sleeps, StatesAgree ps k runs sleeps := by
  have hrun : (do
      let k ← afterCall SYS_sleep_ms 1000
      pure ((k.nodes .sleepQueue).next, (k.procs shellProc).state)) =
        Except.ok (some (Node.qNode shellProc), ProcState.runnable) := rfl
  rw [bind_eq_ok] at hrun
  obtain ⟨k', hcall, hk'⟩ := hrun
  obtain ⟨hnext, hstate⟩ := Prod.mk.inj (Except.ok.inj hk')
  unfold afterCall at hcall
  rw [bind_eq_ok] at hcall
  obtain ⟨k, hstart, htrap⟩ := hcall
  refine ⟨_, k', .trap (.start twoProcs_booting hstart) trivial htrap, ?_⟩
  rintro ⟨runs, sleeps, h⟩
  have hrunning : shellProc ∈ runs := (h.runnable shellProc (by simp)).mp hstate
  have hfirst := h.sleepQueue.head_next
  rw [hnext] at hfirst
  cases sleeps with
  | nil => simp at hfirst
  | cons q rest =>
      obtain rfl : shellProc = q := by simpa using hfirst
      exact h.disjoint shellProc hrunning List.mem_cons_self

/-- A yield with another process waiting is a trap that fits. -/
theorem states_agree_after_yield :
    ∃ k, afterCall SYS_yield 0 = .ok k ∧
      ∃ runs sleeps, StatesAgree ([otherProc] ++ [shellProc]) k runs sleeps := by
  have hrun : (do
      let k ← twoProcs.startQueues 0xffffffff80003000 shellProc [otherProc]
      let k' ← k.takeTrap (shellCall SYS_yield 0)
      pure (listEmpty (k.trapEntry (shellCall SYS_yield 0)).nodes .runQueue,
        (k.trapEntry (shellCall SYS_yield 0)).reg k.cpu.proc 17, k'.cpu.proc)) =
        Except.ok (false, SYS_yield, otherProc) := rfl
  rw [bind_eq_ok] at hrun
  obtain ⟨k, hstart, hrun⟩ := hrun
  rw [bind_eq_ok] at hrun
  obtain ⟨k', htrap, hk'⟩ := hrun
  obtain ⟨hempty, hk'⟩ := Prod.mk.inj (Except.ok.inj hk')
  have hnum := (Prod.mk.inj hk').1
  refine ⟨k', by rw [afterCall, hstart, ok_bind, htrap], ?_⟩
  refine SchedRun.states_agree (.trap (.start twoProcs_booting hstart) ?_ htrap)
  intro _ _
  refine ⟨fun _ => hempty, fun hsleep => ?_⟩
  rw [hnum] at hsleep
  cases hsleep

end SystemN.Kernel
