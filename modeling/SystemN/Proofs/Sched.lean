/-
The queues of a CPU and the states of its processes.

`SchedView` is the part of the kernel state the scheduler looks at, and `Inv` what
ties it together: the two queues are rings, a process is on the run queue when it
is `RUNNABLE` and on the sleep queue when it is `SLEEPING`, and only the current
process can be `RUNNING`.  In the middle of a trap the current process may have
gone to sleep or have exited; `Settled` adds that it has not.  Each operation is
described by what it does to a view, and the memory system calls by not changing it.
-/
import SystemN.Trap
import SystemN.Start
import SystemN.Proofs.List

namespace SystemN

open Rings

/-- What the scheduler reads and writes. -/
structure SchedView where
  nodes : Node → Links Node
  curr : Nat
  needsSched : Bool
  idle : Nat
  nextPid : Nat
  state : Nat → ProcState
  isIdle : Nat → Bool
  sleepUntil : Nat → Nat

namespace Kernel

def view (k : Kernel) : SchedView where
  nodes := k.nodes
  curr := k.cpu.proc
  needsSched := k.cpu.needsSched
  idle := k.idleProc
  nextPid := k.nextPid
  state p := (k.procs p).state
  isIdle p := (k.procs p).isIdle
  sleepUntil p := (k.procs p).sleepUntil

variable {k : Kernel} {p q : Nat} {st : ProcState}

@[simp] theorem setProc_procs (v : Proc) : (k.setProc p v).procs = Function.update k.procs p v := rfl

/-- One field of all processes, after a write to one of them. -/
theorem field_setProc {α : Type} (f : Proc → α) (v : Proc) :
    (fun q => f ((k.setProc p v).procs q)) = Function.update (fun q => f (k.procs q)) p (f v) := by
  funext q
  exact Function.apply_update (fun _ => f) k.procs p v q

theorem view_setProc_eq (v : Proc) :
    (k.setProc p v).view = { k.view with
      state := Function.update k.view.state p v.state
      isIdle := Function.update k.view.isIdle p v.isIdle
      sleepUntil := Function.update k.view.sleepUntil p v.sleepUntil } := by
  unfold view
  rw [field_setProc Proc.state, field_setProc Proc.isIdle, field_setProc Proc.sleepUntil]
  rfl

/-- A write to the other fields of a process is not seen by the scheduler. -/
theorem view_setProc {v : Proc} (h1 : v.state = (k.procs p).state)
    (h2 : v.isIdle = (k.procs p).isIdle) (h3 : v.sleepUntil = (k.procs p).sleepUntil) :
    (k.setProc p v).view = k.view := by
  have hs : Function.update k.view.state p v.state = k.view.state := by
    rw [h1]
    exact Function.update_eq_self p _
  have hi : Function.update k.view.isIdle p v.isIdle = k.view.isIdle := by
    rw [h2]
    exact Function.update_eq_self p _
  have hu : Function.update k.view.sleepUntil p v.sleepUntil = k.view.sleepUntil := by
    rw [h3]
    exact Function.update_eq_self p _
  rw [view_setProc_eq, hs, hi, hu]

@[simp] theorem view_setMm (m : Mm) : (k.setMm m).view = k.view := rfl

@[simp] theorem view_setFrame (tf : Nat) (f : TrapFrame) : (k.setFrame tf f).view = k.view := rfl

@[simp] theorem view_setA0 (v : Nat) : (k.setA0 p v).view = k.view := rfl

@[simp] theorem view_loadPagetable (pt : Nat) : (k.loadPagetable pt).view = k.view := rfl

@[simp] theorem view_writeStvec (v : Stvec) : (k.writeStvec v).view = k.view := rfl

@[simp] theorem view_writeSscratch (v : Nat) : (k.writeSscratch v).view = k.view := rfl

@[simp] theorem view_writeSstatus (v : Nat) : (k.writeSstatus v).view = k.view := rfl

@[simp] theorem view_writeStimecmp (v : Nat) : (k.writeStimecmp v).view = k.view := rfl

@[simp] theorem view_swtch (old new : Nat) : (k.swtch old new).view = k.view :=
  view_setProc (k := k) (p := old) rfl rfl rfl

@[simp] theorem view_setNodes (nodes : Node → Links Node) :
    (k.setNodes nodes).view = { k.view with nodes := nodes } := rfl

@[simp] theorem view_setCurr : (k.setCurr p).view = { k.view with curr := p } := rfl

@[simp] theorem view_setNeedsSched (b : Bool) :
    (k.setNeedsSched b).view = { k.view with needsSched := b } := rfl

@[simp] theorem view_setState :
    (k.setState p st).view = { k.view with state := Function.update k.view.state p st } := by
  have hi : Function.update k.view.isIdle p (k.procs p).isIdle = k.view.isIdle :=
    Function.update_eq_self p _
  have hu : Function.update k.view.sleepUntil p (k.procs p).sleepUntil = k.view.sleepUntil :=
    Function.update_eq_self p _
  unfold setState
  rw [view_setProc_eq]
  simp only [hi, hu]

@[simp] theorem view_setSleepUntil (t : Nat) :
    (k.setProc p { k.procs p with sleepUntil := t }).view =
      { k.view with sleepUntil := Function.update k.view.sleepUntil p t } := by
  have hs : Function.update k.view.state p (k.procs p).state = k.view.state :=
    Function.update_eq_self p _
  have hi : Function.update k.view.isIdle p (k.procs p).isIdle = k.view.isIdle :=
    Function.update_eq_self p _
  rw [view_setProc_eq]
  simp only [hs, hi]

end Kernel

namespace SchedView

variable {nodes : Node → Links Node} {v : SchedView} {ps runs sleeps pre post : List Nat} {p : Nat}

theorem qNode_injective : Function.Injective Node.qNode := fun _ _ h => Node.qNode.inj h

@[simp] theorem qNode_mem_map : Node.qNode p ∈ runs.map .qNode ↔ p ∈ runs :=
  List.mem_map_of_injective qNode_injective

/-! ### The two queues -/

/-- The two queues of a CPU hold `runs` and `sleeps`. -/
structure Queues (nodes : Node → Links Node) (runs sleeps : List Nat) : Prop where
  run : IsRing nodes .runQueue (runs.map .qNode)
  sleep : IsRing nodes .sleepQueue (sleeps.map .qNode)
  disjoint : ∀ p ∈ runs, p ∉ sleeps

namespace Queues

variable (h : Queues nodes runs sleeps)

include h

theorem runs_nodup : runs.Nodup := List.Nodup.of_map _ (List.nodup_cons.mp h.run.nodup).2

theorem sleeps_nodup : sleeps.Nodup := List.Nodup.of_map _ (List.nodup_cons.mp h.sleep.nodup).2

/-- The rings have no node in common. -/
theorem notMem_run {y : Node} (hy : y ∈ Node.sleepQueue :: sleeps.map .qNode) :
    y ∉ Node.runQueue :: runs.map .qNode := by
  rcases List.mem_cons.mp hy with rfl | hy
  · simp
  · obtain ⟨p, hp, rfl⟩ := List.mem_map.mp hy
    simpa using fun hr => h.disjoint p hr hp

theorem notMem_sleep {y : Node} (hy : y ∈ Node.runQueue :: runs.map .qNode) :
    y ∉ Node.sleepQueue :: sleeps.map .qNode := fun hs => h.notMem_run hs hy

/-- `list_add_tail` of a process that is in neither queue to the run queue. -/
theorem add_run (hr : p ∉ runs) (hs : p ∉ sleeps) :
    ∃ nodes', listAddTail nodes (.qNode p) .runQueue = .ok nodes' ∧
      Queues nodes' (runs ++ [p]) sleeps := by
  obtain ⟨nodes', hadd, hring, hframe⟩ := listAddTail_ring (.qNode p) h.run (by simpa using hr)
  refine ⟨nodes', hadd, by simpa using hring, h.sleep.frame fun y hy => ?_, ?_⟩
  · refine hframe y ?_ (h.notMem_run hy)
    rintro rfl
    exact hs (by simpa using hy)
  · intro q hq hqs
    rcases List.mem_append.mp hq with hq | hq
    · exact h.disjoint q hq hqs
    · rw [List.mem_singleton.mp hq] at hqs
      exact hs hqs

/-- And to the sleep queue. -/
theorem add_sleep (hr : p ∉ runs) (hs : p ∉ sleeps) :
    ∃ nodes', listAddTail nodes (.qNode p) .sleepQueue = .ok nodes' ∧
      Queues nodes' runs (sleeps ++ [p]) := by
  obtain ⟨nodes', hadd, hring, hframe⟩ :=
    listAddTail_ring (.qNode p) h.sleep (by simpa using hs)
  refine ⟨nodes', hadd, h.run.frame fun y hy => ?_, by simpa using hring, ?_⟩
  · refine hframe y ?_ (h.notMem_sleep hy)
    rintro rfl
    exact hr (by simpa using hy)
  · intro q hq hqs
    rcases List.mem_append.mp hqs with hqs | hqs
    · exact h.disjoint q hq hqs
    · rw [List.mem_singleton.mp hqs] at hq
      exact hr hq

omit h in
/-- `list_del` of a process on the run queue. -/
theorem del_run (h : Queues nodes (pre ++ p :: post) sleeps) :
    ∃ nodes', listDel nodes (.qNode p) = .ok nodes' ∧ Queues nodes' (pre ++ post) sleeps := by
  have hrun := h.run
  rw [List.map_append, List.map_cons] at hrun
  obtain ⟨nodes', hdel, hring, -, hframe⟩ := listDel_ring hrun
  refine ⟨nodes', hdel, by simpa using hring, h.sleep.frame fun y hy => ?_, ?_⟩
  · have := h.notMem_run hy
    rw [List.map_append, List.map_cons] at this
    exact hframe y this
  · intro q hq
    refine h.disjoint q ?_
    simp only [List.mem_append, List.mem_cons] at hq ⊢
    tauto

omit h in
/-- `list_del` of a process on the sleep queue. -/
theorem del_sleep (h : Queues nodes runs (pre ++ p :: post)) :
    ∃ nodes', listDel nodes (.qNode p) = .ok nodes' ∧ Queues nodes' runs (pre ++ post) := by
  have hsleep := h.sleep
  rw [List.map_append, List.map_cons] at hsleep
  obtain ⟨nodes', hdel, hring, -, hframe⟩ := listDel_ring hsleep
  refine ⟨nodes', hdel, h.run.frame fun y hy => ?_, by simpa using hring, ?_⟩
  · have := h.notMem_sleep hy
    rw [List.map_append, List.map_cons] at this
    exact hframe y this
  · intro q hq hqs
    refine h.disjoint q hq ?_
    simp only [List.mem_append, List.mem_cons] at hqs ⊢
    tauto

end Queues

/-! ### Queues and states -/

/-- The processes `ps` and the queues agree, at any point of a trap. -/
structure Inv (ps : List Nat) (v : SchedView) (runs sleeps : List Nat) : Prop where
  queues : Queues v.nodes runs sleeps
  runs_iff : ∀ p, p ∈ runs ↔ p ∈ ps ∧ v.state p = .runnable
  sleeps_iff : ∀ p, p ∈ sleeps ↔ p ∈ ps ∧ v.state p = .sleeping
  used : ∀ p ∈ ps, v.state p ≠ .unused
  running : ∀ p ∈ ps, v.state p = .running → p = v.curr
  curr_mem : v.curr = v.idle ∨ v.curr ∈ ps
  curr_ne : v.curr ∈ ps → v.state v.curr ≠ .runnable
  procs : ∀ p ∈ ps, p ≠ 0 ∧ v.isIdle p = false
  idle : v.idle ≠ 0 ∧ v.isIdle v.idle = true
  count : ps.length ≤ v.nextPid

/-- The processes and the queues agree between two traps. -/
structure Settled (ps : List Nat) (v : SchedView) (runs sleeps : List Nat) : Prop
    extends Inv ps v runs sleeps where
  curr_running : v.curr ∈ ps → v.state v.curr = .running
  not_needed : v.needsSched = false

namespace Inv

variable (h : Inv ps v runs sleeps)

include h

theorem curr_isIdle : v.isIdle v.curr = true ↔ v.curr ∉ ps := by
  constructor
  · intro hi hmem
    rw [(h.procs _ hmem).2] at hi
    cases hi
  · intro hmem
    rcases h.curr_mem with hc | hc
    · rw [hc]
      exact h.idle.2
    · exact absurd hc hmem

theorem idle_notMem : v.idle ∉ ps := by
  intro hm
  have := (h.procs _ hm).2
  rw [h.idle.2] at this
  cases this

theorem sleeps_length : sleeps.length ≤ v.nextPid := by
  have hsub : sleeps ⊆ ps := fun p hp => ((h.sleeps_iff p).mp hp).1
  exact ((List.Nodup.subperm h.queues.sleeps_nodup hsub).length_le).trans h.count

theorem notMem_runs (hst : v.state p ≠ .runnable) : p ∉ runs := fun hp => hst ((h.runs_iff p).mp hp).2

theorem notMem_sleeps (hst : v.state p ≠ .sleeping) : p ∉ sleeps :=
  fun hp => hst ((h.sleeps_iff p).mp hp).2

end Inv

end SchedView

open SchedView

namespace Kernel

variable {k : Kernel} {ps runs sleeps : List Nat} {p : Nat}

/-! ### `timer_handle` -/

/-- `k'` is `k` with other links, and with the processes `ws` made `RUNNABLE`. -/
def Woken (k : Kernel) (ws : List Nat) (k' : Kernel) : Prop :=
  k' = { k with
    nodes := k'.nodes
    procs := fun p => if p ∈ ws then { k.procs p with state := .runnable } else k.procs p }

namespace Woken

variable {k₁ k' : Kernel} {ws ws' : List Nat}

theorem refl (k : Kernel) : Woken k [] k := by
  simp [Woken]

theorem procs (h : Woken k ws k') :
    k'.procs = fun p => if p ∈ ws then { k.procs p with state := .runnable } else k.procs p := by
  rw [h]

theorem trans (h : Woken k ws k₁) (h' : Woken k₁ ws' k') : Woken k (ws ++ ws') k' := by
  have hprocs : (fun p => if p ∈ ws' then { k₁.procs p with state := .runnable } else k₁.procs p)
      = fun p => if p ∈ ws ++ ws' then { k.procs p with state := .runnable } else k.procs p := by
    funext p
    rw [h.procs]
    by_cases hp : p ∈ ws <;> by_cases hp' : p ∈ ws' <;> simp [hp, hp']
  unfold Woken
  rw [← hprocs]
  unfold Woken at h'
  rw [h', h]

theorem view (h : Woken k ws k') : k'.view = { k.view with
    nodes := k'.nodes
    state := fun p => if p ∈ ws then .runnable else k.view.state p } := by
  have hstate : (fun p => (k'.procs p).state) = fun p => if p ∈ ws then .runnable else k.view.state p := by
    funext p
    rw [h.procs]
    by_cases hp : p ∈ ws
    · simp [hp]
    · simp [hp, Kernel.view]
  have hidle : (fun p => (k'.procs p).isIdle) = k.view.isIdle := by
    funext p
    rw [h.procs]
    by_cases hp : p ∈ ws <;> simp [hp, Kernel.view]
  have hsleep : (fun p => (k'.procs p).sleepUntil) = k.view.sleepUntil := by
    funext p
    rw [h.procs]
    by_cases hp : p ∈ ws <;> simp [hp, Kernel.view]
  unfold Kernel.view at *
  rw [hstate, hidle, hsleep, h]
  rfl

end Woken

/-- **`wake`**: a sleeper moves to the end of the run queue. -/
theorem wake_spec {kept rest : List Nat} (h : Queues k.nodes runs (kept ++ p :: rest)) :
    ∃ k', k.wake p = .ok k' ∧ Queues k'.nodes (runs ++ [p]) (kept ++ rest) ∧ Woken k [p] k' := by
  obtain ⟨nodes₁, hdel, hq₁⟩ := h.del_sleep
  have hruns : p ∉ runs := fun hr => h.disjoint p hr (by simp)
  have hkept : p ∉ kept ++ rest := by
    have hnodup := h.sleeps_nodup
    rw [List.nodup_middle, List.nodup_cons] at hnodup
    exact hnodup.1
  obtain ⟨nodes₂, hadd, hq₂⟩ := hq₁.add_run hruns hkept
  have hnodes : ((k.setNodes nodes₁).setState p .runnable).nodes = nodes₁ := rfl
  refine ⟨((k.setNodes nodes₁).setState p .runnable).setNodes nodes₂, ?_, hq₂, ?_⟩
  · simp only [wake, hdel, ok_bind, hnodes, hadd, pure, Except.pure]
  · have hprocs : Function.update k.procs p { k.procs p with state := .runnable }
        = fun q => if q ∈ [p] then { k.procs q with state := .runnable } else k.procs q := by
      funext q
      by_cases hqp : q = p
      · subst hqp
        simp
      · simp [hqp]
    show _ = { k with nodes := nodes₂, procs := _ }
    rw [← hprocs]
    rfl

/-- Whether a sleeper is woken at `now`. -/
def due (now : Nat) (v : SchedView) (p : Nat) : Bool := v.sleepUntil p ≤ now

/-- **The wake-up loop**: of the sleepers that are left, those that are due go to the run queue
in their order, and the others stay in theirs. -/
theorem timerLoop_spec (now : Nat) (rest : List Nat) :
    ∀ (kept runs : List Nat) (k : Kernel) (fuel : Nat) (b : Bool), rest.length < fuel →
      Queues k.nodes runs (kept ++ rest) →
      ∃ k', timerLoop now fuel (after .sleepQueue (rest.map .qNode)) b k =
          .ok (b || rest.any (due now k.view), k') ∧
        Queues k'.nodes (runs ++ rest.filter (due now k.view))
          (kept ++ rest.filter fun p => !due now k.view p) ∧
        Woken k (rest.filter (due now k.view)) k' := by
  induction rest with
  | nil =>
      intro kept runs k fuel b hfuel h
      obtain ⟨fuel, rfl⟩ : ∃ n, fuel = n + 1 := ⟨fuel - 1, by omega⟩
      refine ⟨k, ?_, by simpa using h, Woken.refl k⟩
      have hnext := h.sleep.head_next
      simp [timerLoop, show (k.nodes .sleepQueue).next = _ from hnext, follow, pure, Except.pure]
  | cons p rest ih =>
      intro kept runs k fuel b hfuel h
      obtain ⟨fuel, rfl⟩ : ∃ n, fuel = n + 1 := ⟨fuel - 1, by omega⟩
      have hnext : (k.nodes (.qNode p)).next = some (after .sleepQueue (rest.map .qNode)) := by
        have hring := h.sleep
        rw [List.map_append, List.map_cons] at hring
        exact hring.element.2
      rw [List.length_cons] at hfuel
      by_cases hdue : (k.procs p).sleepUntil ≤ now
      · -- `p` is woken, and the loop goes on from the node read before
        obtain ⟨k₁, hwake, h₁, hwoken₁⟩ := wake_spec h
        have hsleep₁ : due now k₁.view = due now k.view := by
          unfold due
          rw [hwoken₁.view]
        obtain ⟨k', hloop, h', hwoken'⟩ := ih kept (runs ++ [p]) k₁ fuel true (by omega) h₁
        have hd : due now k.view p = true := decide_eq_true hdue
        rw [hsleep₁] at hloop h' hwoken'
        refine ⟨k', ?_, ?_, ?_⟩
        · simp [timerLoop, hnext, follow, Node.procOf, hdue, hwake, hloop, hd]
        · simpa [hd] using h'
        · rw [List.filter_cons_of_pos hd]
          exact hwoken₁.trans hwoken'
      · have hd : due now k.view p = false := decide_eq_false hdue
        obtain ⟨k', hloop, h', hwoken'⟩ :=
          ih (kept ++ [p]) runs k fuel b (by omega) (by simpa using h)
        refine ⟨k', ?_, ?_, ?_⟩
        · simp [timerLoop, hnext, follow, Node.procOf, hdue, hloop, hd]
        · simpa [hd] using h'
        · rwa [List.filter_cons_of_neg (by simp [hd])]

/-- `wakeSleepers` with any bound on the rounds of the loop. -/
def wakeSleepersIn (rounds : Nat) (k : Kernel) (now : Nat) : Except Stop Kernel := do
  let first ← follow (k.nodes .sleepQueue).next
  let (needSched, k) ← timerLoop now rounds first false k
  pure (if needSched then k.setNeedsSched true else k)

theorem wakeSleepers_eq (now : Nat) : k.wakeSleepers now = k.wakeSleepersIn (k.nextPid + 1) now := rfl

/-- What `timer_handle` leaves when it wakes `ws`: the links, the states of `ws` and, if there are
any, `needs_sched`. -/
structure Woke (k : Kernel) (ws : List Nat) (k' : Kernel) : Prop where
  cpu : k'.cpu = { k.cpu with needsSched := k.cpu.needsSched || !ws.isEmpty }
  procs : ∀ p, k'.procs p = if p ∈ ws then { k.procs p with state := .runnable } else k.procs p
  rest : k' = { k with nodes := k'.nodes, cpu := k'.cpu, procs := k'.procs }

theorem Woke.view {ws : List Nat} {k' : Kernel} (h : Woke k ws k') : k'.view = { k.view with
    nodes := k'.nodes
    state := fun p => if p ∈ ws then .runnable else k.view.state p
    needsSched := k.view.needsSched || !ws.isEmpty } := by
  have hw : Woken { k with cpu := k'.cpu } ws k' := by
    unfold Woken
    rw [← funext h.procs]
    exact h.rest
  rw [hw.view, Kernel.view, h.cpu]
  rfl

/-- The sleepers that are due are woken. -/
theorem wakeSleepersIn_spec (now : Nat) (h : Queues k.nodes runs sleeps) {rounds : Nat}
    (hrounds : sleeps.length < rounds) :
    ∃ k', k.wakeSleepersIn rounds now = .ok k' ∧
      Queues k'.nodes (runs ++ sleeps.filter (due now k.view))
        (sleeps.filter fun p => !due now k.view p) ∧
      Woke k (sleeps.filter (due now k.view)) k' := by
  obtain ⟨k', hloop, h', hwoken⟩ := timerLoop_spec now sleeps [] runs k rounds false hrounds h
  have hfirst : (k.nodes .sleepQueue).next = some (after .sleepQueue (sleeps.map .qNode)) :=
    h.sleep.head_next
  rw [Bool.false_or] at hloop
  have hrun : k.wakeSleepersIn rounds now =
      .ok (if sleeps.any (due now k.view) then k'.setNeedsSched true else k') := by
    simp only [wakeSleepersIn, hfirst, follow, ok_bind, hloop]
    rfl
  have hcpu : k'.cpu = k.cpu := by rw [hwoken]
  have hany : (!(sleeps.filter (due now k.view)).isEmpty) = sleeps.any (due now k.view) := by
    rw [Bool.eq_iff_iff]
    simp [List.filter_eq_nil_iff]
  refine ⟨_, hrun, ?_⟩
  cases hb : sleeps.any (due now k.view) with
  | true =>
      rw [if_pos rfl]
      refine ⟨h', ?_, congrFun hwoken.procs, ?_⟩
      · rw [hany, hb, Bool.or_true, ← hcpu]
        rfl
      · rw [hwoken]
        rfl
  | false =>
      rw [if_neg Bool.false_ne_true]
      refine ⟨h', ?_, congrFun hwoken.procs, ?_⟩
      · rw [hany, hb, Bool.or_false, hcpu]
      · rw [hwoken]

/-- `timer_handle` with any bound on the rounds of its loop. -/
def timerHandleIn (rounds : Nat) (k : Kernel) (clock : Nat → Nat) : Except Stop Kernel :=
  (k.writeStimecmp (u64 (clock 0 + timerInterval))).wakeSleepersIn rounds (clock 1)

theorem writeStimecmp_wakeSleepers (v now : Nat) :
    (k.writeStimecmp v).wakeSleepers now = (k.writeStimecmp v).wakeSleepersIn (k.nextPid + 1) now :=
  wakeSleepers_eq now

theorem timerHandle_eq (clock : Nat → Nat) :
    k.timerHandle clock = k.timerHandleIn (k.nextPid + 1) clock := by
  rw [timerHandle, timerHandleIn, writeStimecmp_wakeSleepers]

/-- More rounds than the loop needs change nothing. -/
theorem timerLoop_mono (now : Nat) {r : Bool × Kernel} (fuel : Nat) :
    ∀ (pos : Node) (b : Bool) (k : Kernel), timerLoop now fuel pos b k = .ok r →
      ∀ fuel', fuel ≤ fuel' → timerLoop now fuel' pos b k = .ok r := by
  induction fuel with
  | zero => exact fun pos b k h => nomatch h
  | succ fuel ih =>
      intro pos b k h fuel' hle
      obtain ⟨fuel', rfl⟩ : ∃ n, fuel' = n + 1 := ⟨fuel' - 1, by omega⟩
      rw [timerLoop, bind_eq_ok] at h
      obtain ⟨tmp, htmp, h⟩ := h
      rw [timerLoop, htmp, ok_bind]
      by_cases hpos : pos = .sleepQueue
      · rwa [if_pos hpos] at h ⊢
      · rw [if_neg hpos, bind_eq_ok] at h
        obtain ⟨p, hp, h⟩ := h
        rw [if_neg hpos, hp, ok_bind]
        by_cases hdue : (k.procs p).sleepUntil ≤ now
        · rw [if_pos hdue, bind_eq_ok] at h
          obtain ⟨k₁, hwake, h⟩ := h
          rw [if_pos hdue, hwake, ok_bind]
          exact ih _ _ _ h _ (by omega)
        · rw [if_neg hdue] at h ⊢
          exact ih _ _ _ h _ (by omega)

theorem wakeSleepersIn_mono {now rounds rounds' : Nat} {k' : Kernel} (hle : rounds ≤ rounds')
    (h : k.wakeSleepersIn rounds now = .ok k') : k.wakeSleepersIn rounds' now = .ok k' := by
  rw [wakeSleepersIn, bind_eq_ok] at h ⊢
  obtain ⟨first, hfirst, h⟩ := h
  rw [bind_eq_ok] at h
  obtain ⟨r, hloop, h⟩ := h
  exact ⟨first, hfirst, bind_eq_ok.mpr ⟨r, timerLoop_mono now _ _ _ _ hloop _ hle, h⟩⟩

/-- The processes and the queues agree after sleepers have been woken. -/
theorem inv_woken {v : SchedView} {nodes : Node → Links Node} {d : Nat → Bool} {needsSched : Bool}
    (h : Inv ps v runs sleeps) (hcurr : v.curr ∉ sleeps)
    (hq : Queues nodes (runs ++ sleeps.filter d) (sleeps.filter fun p => !d p)) :
    Inv ps { v with
      nodes := nodes
      state := fun p => if p ∈ sleeps.filter d then .runnable else v.state p
      needsSched := needsSched } (runs ++ sleeps.filter d) (sleeps.filter fun p => !d p) := by
  have hsleeping : ∀ p, p ∈ sleeps.filter d → p ∈ ps ∧ v.state p = .sleeping := fun p hp =>
    (h.sleeps_iff p).mp (List.mem_of_mem_filter hp)
  refine ⟨hq, ?_, ?_, ?_, ?_, h.curr_mem, ?_, h.procs, h.idle, h.count⟩
  · intro p
    by_cases hp : p ∈ sleeps.filter d
    · simp [hp, (hsleeping p hp).1]
    · simp [hp, h.runs_iff p]
  · intro p
    by_cases hp : p ∈ sleeps.filter d
    · have hd : d p = true := (List.mem_filter.mp hp).2
      simp [hp, hd]
    · have hd : p ∈ sleeps → d p = false := fun hs => by
        simpa [hs] using hp
      simp only [hp, if_false, ← h.sleeps_iff p, List.mem_filter]
      exact ⟨And.left, fun hs => ⟨hs, by rw [hd hs]; rfl⟩⟩
  · intro p hps
    by_cases hp : p ∈ sleeps.filter d
    · simp [hp]
    · simpa [hp] using h.used p hps
  · intro p hps
    by_cases hp : p ∈ sleeps.filter d
    · simp [hp]
    · simpa [hp] using h.running p hps
  · have hnot : v.curr ∉ sleeps.filter d := fun hm => hcurr (List.mem_of_mem_filter hm)
    simpa [hnot] using h.curr_ne

/-- `timer_handle` between two traps. -/
theorem timerHandle_spec (clock : Nat → Nat) (h : Inv ps k.view runs sleeps)
    (hcurr : k.view.curr ∉ sleeps) :
    ∃ k', k.timerHandle clock = .ok k' ∧
      Inv ps k'.view (runs ++ sleeps.filter (due (clock 1) k.view))
        (sleeps.filter fun p => !due (clock 1) k.view p) ∧
      k'.view = { k.view with
        nodes := k'.view.nodes
        state := k'.view.state
        needsSched := k.view.needsSched || sleeps.any (due (clock 1) k.view) } ∧
      ∀ q, q ∉ sleeps → k'.view.state q = k.view.state q := by
  rw [timerHandle_eq, timerHandleIn]
  generalize u64 (clock 0 + timerInterval) = t
  obtain ⟨k', hcall, hq, hwoke⟩ := wakeSleepersIn_spec (k := k.writeStimecmp t) (clock 1) h.queues
    (Nat.lt_succ_of_le h.sleeps_length)
  have hview := hwoke.view
  rw [view_writeStimecmp] at hq hview
  refine ⟨k', hcall, ?_, ?_, fun q hs => ?_⟩
  · rw [hview]
    exact inv_woken h hcurr hq
  · have hany : (!(sleeps.filter (due (clock 1) k.view)).isEmpty) = sleeps.any (due (clock 1) k.view) := by
      rw [Bool.eq_iff_iff]
      simp [List.filter_eq_nil_iff]
    rw [hview, ← hany]
  · have hnot : q ∉ sleeps.filter (due (clock 1) k.view) := fun hm => hs (List.mem_of_mem_filter hm)
    rw [hview]
    exact if_neg hnot

/-! ### `schedule` -/

/-- What follows from the queues and the states when the first process of the run queue is
dispatched; `requeue` is the outgoing process, if it goes back to the run queue. -/
theorem dispatch_inv {v : SchedView} {nodes : Node → Links Node} {q : Nat} {rest : List Nat}
    (requeue : List Nat) (h : Inv ps v (q :: rest) sleeps) (hq : Queues nodes (rest ++ requeue) sleeps)
    (hre : requeue = if v.curr ∈ ps then [v.curr] else [])
    (hcurr : v.curr ∈ ps → v.state v.curr ≠ .sleeping) :
    Inv ps { v with
      nodes := nodes
      curr := q
      state := fun p =>
        if p = q then .running else if p ∈ requeue then .runnable else v.state p } (rest ++ requeue)
      sleeps := by
  obtain ⟨hqps, hqst⟩ := (h.runs_iff q).mp List.mem_cons_self
  have hqrest : q ∉ rest := (List.nodup_cons.mp h.queues.runs_nodup).1
  have hmem : ∀ p, p ∈ requeue ↔ p = v.curr ∧ v.curr ∈ ps := by
    intro p
    rw [hre]
    split
    · simp_all
    · simp_all
  have hqcurr : q ∉ requeue := by
    intro hc
    obtain ⟨rfl, hps⟩ := (hmem q).mp hc
    exact h.curr_ne hps hqst
  refine ⟨hq, ?_, ?_, ?_, ?_, Or.inr hqps, ?_, h.procs, h.idle, h.count⟩
  · intro p
    by_cases hpq : p = q
    · subst hpq
      simp [hqrest, hqcurr]
    · by_cases hpr : p ∈ requeue
      · obtain ⟨rfl, hps⟩ := (hmem p).mp hpr
        simp [hpq, hpr, hps]
      · have := h.runs_iff p
        simp only [List.mem_cons, hpq, false_or] at this
        simp [hpq, hpr, this]
  · intro p
    by_cases hpq : p = q
    · subst hpq
      simpa using h.queues.disjoint p List.mem_cons_self
    · by_cases hpr : p ∈ requeue
      · obtain ⟨rfl, hps⟩ := (hmem p).mp hpr
        simpa [hpq, hpr] using h.notMem_sleeps (hcurr hps)
      · simpa [hpq, hpr] using h.sleeps_iff p
  · intro p hp
    by_cases hpq : p = q
    · simp [hpq]
    · by_cases hpr : p ∈ requeue
      · simp [hpq, hpr]
      · simpa [hpq, hpr] using h.used p hp
  · intro p hp hrun
    by_contra hpq
    by_cases hpr : p ∈ requeue
    · simp [hpq, hpr] at hrun
    · simp only [hpq, hpr, if_false] at hrun
      have hpc := h.running p hp hrun
      exact hpr ((hmem p).mpr ⟨hpc, hpc ▸ hp⟩)
  · simp

@[simp] theorem view_dispatch (old new : Nat) :
    (k.dispatch old new).view = { k.view with curr := new } := by
  simp only [dispatch, view_swtch, view_writeSscratch, view_loadPagetable, view_writeStvec,
    view_setCurr]

@[simp] theorem view_runIdle (old : Nat) :
    (k.runIdle old).view = { k.view with curr := k.view.idle } := by
  unfold runIdle
  rw [view_swtch, view_loadPagetable, view_setProc (by rfl) (by rfl) (by rfl), view_setCurr]
  rfl

/-- The outgoing process, if it is not idle and in no queue, becomes `RUNNABLE`. -/
theorem requeue_spec {old : Nat} (hq : Queues k.nodes runs sleeps) (hr : old ∉ runs)
    (hs : old ∉ sleeps) (hidle : k.view.isIdle old = false) :
    ∃ k', k.requeue old = .ok k' ∧ Queues k'.nodes (runs ++ [old]) sleeps ∧
      k'.view = { k.view with
        nodes := k'.nodes, state := Function.update k.view.state old .runnable } := by
  obtain ⟨nodes', hadd, hq'⟩ := hq.add_run hr hs
  have hflag : (k.procs old).isIdle = false := hidle
  have hadd' : listAddTail (k.setState old .runnable).nodes (.qNode old) .runQueue = .ok nodes' := hadd
  refine ⟨(k.setState old .runnable).setNodes nodes', ?_, hq', ?_⟩
  · simp only [requeue, hflag, Bool.not_false, if_true, hadd', ok_bind, pure, Except.pure]
  · rw [view_setNodes, view_setState]
    rfl

theorem requeue_idle {old : Nat} (hidle : k.view.isIdle old = true) : k.requeue old = .ok k := by
  have hflag : (k.procs old).isIdle = true := hidle
  simp only [requeue, hflag, Bool.not_true, Bool.false_eq_true, if_false, pure, Except.pure]

/-- The process that `schedule` puts back on the run queue, if there is one. -/
def outgoing (v : SchedView) : List Nat := if v.isIdle v.curr then [] else [v.curr]

/-- **`schedule`** with a process waiting: it becomes current, and a current process that is not
idle goes to the end of the run queue, whatever state it is in. -/
theorem schedule_spec {q : Nat} {rest : List Nat} (hq : Queues k.nodes (q :: rest) sleeps)
    (hfree : k.view.isIdle k.view.curr = false → k.view.curr ∉ q :: rest ∧ k.view.curr ∉ sleeps) :
    ∃ k', k.schedule = .ok k' ∧ Queues k'.nodes (rest ++ outgoing k.view) sleeps ∧
      k'.view = { k.view with
        nodes := k'.nodes
        curr := q
        state := fun p =>
          if p = q then .running else if p ∈ outgoing k.view then .runnable else k.view.state p } := by
  have hnext : (k.nodes .runQueue).next = some (.qNode q) := hq.run.head_next
  have hqueues : Queues k.nodes ([] ++ q :: rest) sleeps := hq
  obtain ⟨nodes₁, hdel, hq₁⟩ := hqueues.del_run
  have hview : ((k.setNodes nodes₁).setState q .running).view = { k.view with
      nodes := nodes₁, state := Function.update k.view.state q .running } := by
    rw [view_setState, view_setNodes]
  have hrun : ∀ k₁, ((k.setNodes nodes₁).setState q .running).requeue k.cpu.proc = .ok k₁ →
      k.schedule = .ok (k₁.dispatch k.cpu.proc q) := by
    intro k₁ hre
    simp only [schedule, hnext, follow, ok_bind, ne_eq, reduceCtorEq, not_false_eq_true, if_true,
      Node.procOf, hdel, hre, pure, Except.pure]
  cases hidle : k.view.isIdle k.view.curr with
  | false =>
      obtain ⟨hruns, hsleeps⟩ := hfree hidle
      rw [List.mem_cons, not_or] at hruns
      obtain ⟨k₁, hre, hq₂, hview₁⟩ := requeue_spec (k := (k.setNodes nodes₁).setState q .running)
        hq₁ hruns.2 hsleeps (by rw [hview]; exact hidle)
      have hnodes : (k₁.dispatch k.cpu.proc q).nodes = k₁.nodes :=
        congrArg SchedView.nodes (view_dispatch (k := k₁) k.cpu.proc q)
      refine ⟨_, hrun k₁ hre, ?_, ?_⟩
      · rw [hnodes, outgoing, hidle]
        exact hq₂
      · rw [view_dispatch, hview₁, hview, hnodes, outgoing, hidle]
        dsimp only
        congr 1
        funext p
        by_cases hpc : p = k.view.curr
        · subst hpc
          simp [hruns.1]
        · by_cases hpq : p = q
          · subst hpq
            simp [hpc]
          · simp [hpc, hpq]
  | true =>
      have hnodes : (((k.setNodes nodes₁).setState q .running).dispatch k.cpu.proc q).nodes = nodes₁ := by
        have hnodes₁ : ((k.setNodes nodes₁).setState q .running).view.nodes = nodes₁ := by rw [hview]
        exact (congrArg SchedView.nodes (view_dispatch k.cpu.proc q)).trans hnodes₁
      refine ⟨_, hrun _ (requeue_idle (by rw [hview]; exact hidle)), ?_, ?_⟩
      · rw [hnodes, outgoing, hidle]
        simpa using hq₁
      · rw [view_dispatch, hview, hnodes, outgoing, hidle]
        dsimp only
        congr 1
        funext p
        by_cases hpq : p = q
        · simp [hpq]
        · simp [hpq]

/-- `schedule` with an empty run queue: the idle process takes over from another one. -/
theorem schedule_none (hq : Queues k.nodes [] sleeps) :
    ∃ k', k.schedule = .ok k' ∧
      k'.view = { k.view with curr := if k.view.isIdle k.view.curr then k.view.curr else k.view.idle } := by
  have hnext : (k.nodes .runQueue).next = some .runQueue := hq.run.head_next
  cases hidle : k.view.isIdle k.view.curr with
  | false =>
      have hflag : (k.procs k.cpu.proc).isIdle = false := hidle
      refine ⟨k.runIdle k.cpu.proc, ?_, view_runIdle _⟩
      simp only [schedule, hnext, follow, ok_bind, ne_eq, not_true_eq_false, if_false, hflag,
        Bool.not_false, if_true, pure, Except.pure]
  | true =>
      have hflag : (k.procs k.cpu.proc).isIdle = true := hidle
      refine ⟨k, ?_, rfl⟩
      simp only [schedule, hnext, follow, ok_bind, ne_eq, not_true_eq_false, if_false, hflag,
        Bool.not_true, Bool.false_eq_true, pure, Except.pure]

/-- `schedule` with a process waiting, between the handler and the end of a trap. -/
theorem schedule_next {q : Nat} {rest : List Nat} (h : Inv ps k.view (q :: rest) sleeps)
    (hcurr : k.view.curr ∈ ps → k.view.state k.view.curr ≠ .sleeping) :
    ∃ k', k.schedule = .ok k' ∧
      Inv ps k'.view (rest ++ if k.view.curr ∈ ps then [k.view.curr] else []) sleeps ∧
      k'.view.curr = q ∧ k'.view.state q = .running ∧ k'.view.needsSched = k.view.needsSched := by
  have hout : outgoing k.view = if k.view.curr ∈ ps then [k.view.curr] else [] := by
    unfold outgoing
    by_cases hps : k.view.curr ∈ ps
    · rw [if_pos hps, if_neg fun hidle => h.curr_isIdle.mp hidle hps]
    · rw [if_neg hps, if_pos (h.curr_isIdle.mpr hps)]
  obtain ⟨k', hrun, hq, hview⟩ := schedule_spec h.queues fun hidle => by
    have hps : k.view.curr ∈ ps := by
      by_contra hps
      rw [h.curr_isIdle.mpr hps] at hidle
      cases hidle
    exact ⟨h.notMem_runs (h.curr_ne hps), h.notMem_sleeps (hcurr hps)⟩
  refine ⟨k', hrun, ?_, by rw [hview], by rw [hview]; exact if_pos rfl, by rw [hview]⟩
  rw [hview, ← hout]
  exact dispatch_inv _ h hq hout hcurr

/-- `schedule` with an empty run queue: the idle process takes over from one that sleeps or has
exited. -/
theorem schedule_idle (h : Inv ps k.view [] sleeps)
    (hcurr : k.view.curr ∈ ps → k.view.state k.view.curr ≠ .running) :
    ∃ k', k.schedule = .ok k' ∧ Inv ps k'.view [] sleeps ∧ k'.view.curr = k.view.idle ∧
      k'.view.state = k.view.state ∧ k'.view.needsSched = k.view.needsSched := by
  obtain ⟨k', hrun, hview⟩ := schedule_none h.queues
  have hnew : k'.view.curr = k.view.idle := by
    rw [hview]
    by_cases hps : k.view.curr ∈ ps
    · exact if_neg fun hidle => h.curr_isIdle.mp hidle hps
    · exact (if_pos (h.curr_isIdle.mpr hps)).trans (h.curr_mem.resolve_right hps)
  refine ⟨k', hrun, ?_, hnew, by rw [hview], by rw [hview]⟩
  have hview' : k'.view = { k.view with curr := k.view.idle } := by
    rw [hview] at hnew ⊢
    exact congrArg (fun c => { k.view with curr := c }) hnew
  rw [hview']
  refine ⟨h.queues, h.runs_iff, h.sleeps_iff, h.used, fun p hp hrunning => ?_, Or.inl rfl, ?_,
    h.procs, h.idle, h.count⟩
  · obtain rfl := h.running p hp hrunning
    exact absurd hrunning (hcurr hp)
  · exact fun hm => absurd hm h.idle_notMem

end Kernel

end SystemN
