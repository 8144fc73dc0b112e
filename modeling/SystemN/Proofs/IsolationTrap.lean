/-
A trap, and what it does to the memory of the processes.

Whatever a trap does before `trap_handler` comes to its end is done for the current process; then
`schedule` may turn to another one.  It loads the table of that process with it, so that in each
state the table in `satp` is that of the current process, or the kernel's.  The queues need no more
than that nothing but processes can be found on them.
-/
import SystemN.Proofs.IsolationCalls
import SystemN.Proofs.IsolationCreate

namespace SystemN

open Mm Radix Spaces

namespace Kernel

variable {k k' k₁ : Kernel} {p q : Nat} {ps : List Nat} {t : Trap} {live : Multiset (Nat × Nat)}
  {taken given fl : Nat → List Nat} {roots : Option Nat → Option Nat} {New : UInt8 → Prop}

/-! ### The timer and the scheduler -/

theorem wake_quiet (hk : k.wake q = .ok k') : Quiet p k k' := by
  obtain ⟨nodes, -, hk⟩ := bind_eq_ok.mp hk
  obtain ⟨nodes', -, hk⟩ := bind_eq_ok.mp hk
  obtain rfl := Except.ok.inj hk
  have hdel : Quiet p k (k.setNodes nodes) := .of_eq rfl rfl rfl rfl rfl rfl
  exact (hdel.trans (.setState q .runnable)).trans (.of_eq rfl rfl rfl rfl rfl rfl)

theorem timerLoop_quiet {now fuel : Nat} : ∀ {pos : Node} {b : Bool} {k : Kernel} {r : Bool × Kernel},
    timerLoop now fuel pos b k = .ok r → Quiet p k r.2 := by
  induction fuel with
  | zero =>
      intro pos b k r hk
      cases hk
  | succ fuel ih =>
      intro pos b k r hk
      rw [timerLoop] at hk
      obtain ⟨tmp, -, hk⟩ := bind_eq_ok.mp hk
      split at hk
      · obtain rfl := Except.ok.inj hk
        exact .refl k
      · obtain ⟨q, -, hk⟩ := bind_eq_ok.mp hk
        split at hk
        · obtain ⟨k₁, hwake, hk⟩ := bind_eq_ok.mp hk
          exact (wake_quiet hwake).trans (ih hk)
        · exact ih hk

theorem timerHandle_quiet {clock : Nat → Nat} (hk : k.timerHandle clock = .ok k') : Quiet p k k' := by
  obtain ⟨first, -, hk⟩ := bind_eq_ok.mp hk
  obtain ⟨⟨b, k₁⟩, hloop, hk⟩ := bind_eq_ok.mp hk
  obtain rfl := Except.ok.inj hk
  have hstart : ∀ v, Quiet p k (k.writeStimecmp v) := fun _ => .of_eq rfl rfl rfl rfl rfl rfl
  have hwoken : Quiet p k k₁ := (hstart _).trans (timerLoop_quiet hloop)
  cases b with
  | true => exact hwoken.trans (.of_eq rfl rfl rfl rfl rfl rfl)
  | false => exact hwoken

/-- `swtch` saves the registers in the record of the process that leaves. -/
theorem swtch_quiet (new : Nat) : Quiet p k (k.swtch p new) := by
  have hsave : Quiet p k (k.setProc p { k.procs p with ctx := k.hart.ctx }) :=
    .setProc rfl (Or.inl rfl)
  exact hsave.trans (.of_eq rfl rfl rfl rfl rfl rfl)

/-- **`schedule`** writes the record of the current process, and that of the idle one. -/
theorem schedule_quiet (hidle : (k.procs k.idleProc).isIdle = true) (hk : k.schedule = .ok k') :
    Quiet k.cpu.proc k k' := by
  rcases schedule_cases hk with ⟨q, nodes, k₁, -, -, hre, rfl⟩ | ⟨-, rfl⟩ | ⟨-, rfl⟩
  · have hdel : Quiet k.cpu.proc k (k.setNodes nodes) := .of_eq rfl rfl rfl rfl rfl rfl
    have hnext := hdel.trans (.setState q .running)
    have hrequeue : Quiet k.cpu.proc k k₁ := by
      rcases requeue_cases hre with ⟨-, rfl⟩ | ⟨-, nodes', -, rfl⟩
      · exact hnext
      · exact (hnext.trans (.setState _ .runnable)).trans (.of_eq rfl rfl rfl rfl rfl rfl)
    have hload : Quiet k.cpu.proc k₁ ((((k₁.setCurr q).writeStvec .trapVector).loadPagetable
        (k₁.procs q).pagetable).writeSscratch (k₁.procs q).tf) := .of_eq rfl rfl rfl rfl rfl rfl
    exact (hrequeue.trans hload).trans (swtch_quiet q)
  · have hcurr : Quiet k.cpu.proc k (k.setCurr k.idleProc) := .of_eq rfl rfl rfl rfl rfl rfl
    have hidle' : ∀ v : Proc, v.space = (k.procs k.idleProc).space →
        Quiet k.cpu.proc k ((k.setCurr k.idleProc).setProc k.idleProc v) := fun v hv =>
      hcurr.trans (.setProc hv (Or.inr (Or.inl hidle)))
    have hload : ∀ k₁ : Kernel, Quiet k.cpu.proc k₁ (k₁.loadPagetable k₁.kernelPagetable) :=
      fun _ => .of_eq rfl rfl rfl rfl rfl rfl
    unfold runIdle
    refine Quiet.trans ?_ (swtch_quiet k.idleProc)
    refine Quiet.trans ?_ (hload _)
    exact hidle' _ rfl
  · exact .refl _

theorem quiet_trapEnd (hidle : (k.procs k.idleProc).isIdle = true) (hk : k.trapEnd = .ok k') :
    Quiet k.cpu.proc k k' := by
  unfold trapEnd at hk
  split at hk
  · have hsched : Quiet k.cpu.proc (k.setNeedsSched false) k' :=
      schedule_quiet (k := k.setNeedsSched false) hidle hk
    have hneeds : Quiet k.cpu.proc k (k.setNeedsSched false) := .of_eq rfl rfl rfl rfl rfl rfl
    exact hneeds.trans hsched
  · obtain rfl := Except.ok.inj hk
    exact .refl k

/-! ### The table that is loaded -/

/-- The table in `satp` and the frame in `sscratch` are those of the current process; the idle
process runs on the table of the kernel, `kp`. -/
structure Loaded (ps : List Nat) (kp : Nat) (v : SwitchView) : Prop where
  procs : ∀ p ∈ ps, p ≠ 0 ∧ v.isIdle p = false
  idle : v.idle ≠ 0 ∧ v.isIdle v.idle = true
  curr : v.curr ∈ ps ∨ v.curr = v.idle
  process : v.curr ∈ ps → v.satp = makeSatp (v.pagetable v.curr) ∧ v.sscratch = v.tf v.curr
  kernel : v.curr ∉ ps → v.satp = makeSatp kp

theorem Loaded.idle_notMem {kp : Nat} {v : SwitchView} (h : Loaded ps kp v) : v.idle ∉ ps := by
  intro hmem
  have hidle := (h.procs _ hmem).2
  rw [h.idle.2] at hidle
  cases hidle

theorem Loaded.curr_ne {kp : Nat} (h : Loaded ps kp k.switchView) : k.cpu.proc ≠ 0 := by
  rcases h.curr with hm | hi
  · exact (h.procs _ hm).1
  · rw [show k.cpu.proc = k.switchView.idle from hi]
    exact h.idle.1

theorem Loaded.mem_of_not_idle {kp : Nat} (h : Loaded ps kp k.switchView)
    (hidle : (k.procs k.cpu.proc).isIdle = false) : k.cpu.proc ∈ ps := by
  refine h.curr.resolve_right fun hi => ?_
  have hidle' : k.switchView.isIdle k.switchView.curr = false := hidle
  rw [hi, h.idle.2] at hidle'
  cases hidle'

theorem nodes_swtch (old new : Nat) : (k.swtch old new).nodes = k.nodes := by
  unfold swtch
  rfl

theorem nodes_dispatch (old new : Nat) : (k.dispatch old new).nodes = k.nodes := by
  unfold dispatch
  dsimp only
  rw [nodes_swtch]
  rfl

theorem nodes_runIdle (old : Nat) : (k.runIdle old).nodes = k.nodes := by
  unfold runIdle
  dsimp only
  rw [nodes_swtch]
  rfl

/-- **`schedule`** turns to a process with the table of that process, or to the idle one with the
kernel's. -/
theorem schedule_loaded (h : Loaded ps k.kernelPagetable k.switchView)
    (hc : Closed (OnQueue ps) k.nodes) (hk : k.schedule = .ok k') :
    Loaded ps k.kernelPagetable k'.switchView ∧ Closed (OnQueue ps) k'.nodes := by
  rcases schedule_cases hk with ⟨q, nodes, k₁, hnext, hdel, hre, rfl⟩ | ⟨hidle, rfl⟩ | ⟨hidle, rfl⟩
  · have hq : OnQueue ps (.qNode q) := (hc .runQueue onQueue_run).1 _ hnext
    have hstate : ((k.setNodes nodes).setState q .running).switchView = k.switchView :=
      switchView_setState (k := k.setNodes nodes) .running
    have hdel' := hc.listDel hq hdel
    have hk₁ : k₁.switchView = k.switchView ∧ Closed (OnQueue ps) k₁.nodes := by
      rcases requeue_cases hre with ⟨-, rfl⟩ | ⟨hold, nodes', hadd, rfl⟩
      · exact ⟨hstate, hdel'⟩
      · have hold' : (k.procs k.cpu.proc).isIdle = false := by
          have hview : ((k.setNodes nodes).setState q .running).switchView.isIdle k.cpu.proc = false :=
            hold
          rwa [hstate] at hview
        have hcurr : OnQueue ps (.qNode k.cpu.proc) := h.mem_of_not_idle hold'
        refine ⟨?_, hdel'.listAddTail hcurr onQueue_run hadd⟩
        exact (switchView_setState (k := (k.setNodes nodes).setState q .running) .runnable).trans hstate
    rw [switchView_dispatch, hk₁.1, nodes_dispatch]
    refine ⟨?_, hk₁.2⟩
    exact ⟨h.procs, h.idle, Or.inl hq, fun _ => ⟨rfl, rfl⟩, fun hn => absurd hq hn⟩
  · have hne : k.cpu.proc ≠ k.idleProc := by
      intro heq
      rw [heq, show (k.procs k.idleProc).isIdle = true from h.idle.2] at hidle
      cases hidle
    obtain ⟨satp, saved, ctx, hview, -⟩ := switchView_runIdle hne
    have hsatp : satp = makeSatp k.kernelPagetable := (congrArg SwitchView.satp hview).symm
    rw [hview, hsatp, nodes_runIdle]
    refine ⟨?_, hc⟩
    exact ⟨h.procs, h.idle, Or.inr rfl, fun hm => absurd hm h.idle_notMem, fun _ => rfl⟩
  · exact ⟨h, hc⟩

theorem trapEnd_loaded (h : Loaded ps k.kernelPagetable k.switchView)
    (hc : Closed (OnQueue ps) k.nodes) (hk : k.trapEnd = .ok k') :
    Loaded ps k.kernelPagetable k'.switchView ∧ Closed (OnQueue ps) k'.nodes := by
  unfold trapEnd at hk
  split at hk
  · exact schedule_loaded (k := k.setNeedsSched false) h hc hk
  · obtain rfl := Except.ok.inj hk
    exact ⟨h, hc⟩

/-! ### The invariant -/

/-- The tables of the kernel and of the processes `ps`. -/
def tableRoots (k : Kernel) (ps : List Nat) : Option Nat → Option Nat
  | none => some k.kernelPagetable
  | some p => if p ∈ ps then some (k.procs p).pagetable else none

theorem tableRoots_of_mem (hp : p ∈ ps) : k.tableRoots ps (some p) = some (k.procs p).pagetable :=
  if_pos hp

theorem tableRoots_of_notMem (hp : p ∉ ps) : k.tableRoots ps (some p) = none := if_neg hp

theorem tableRoots_congr (htables : ∀ q ∈ ps, (k'.procs q).pagetable = (k.procs q).pagetable)
    (hkp : k'.kernelPagetable = k.kernelPagetable) : k'.tableRoots ps = k.tableRoots ps := by
  funext o
  cases o with
  | none => exact congrArg some hkp
  | some q =>
      by_cases hq : q ∈ ps
      · rw [tableRoots_of_mem hq, tableRoots_of_mem hq, htables q hq]
      · rw [tableRoots_of_notMem hq, tableRoots_of_notMem hq]

/-- The processes `ps`, each with its tables, its heap and its frame. -/
structure Separated (ps : List Nat) (k : Kernel) (live : Multiset (Nat × Nat))
    (taken given fl : Nat → List Nat) : Prop where
  isolated : Isolated k.layout (k.tableRoots ps) k.snub live taken given fl
  objects : ∀ p ∈ ps, p ∈ given 4
  kstacks : ∀ p ∈ ps, ∃ kstack ∈ given 8, (k.procs p).tf = frameIn kstack
  frames : ∀ p ∈ ps, ∀ q ∈ ps, (k.procs p).tf = (k.procs q).tf → p = q
  heaps : ∀ p ∈ ps, HeapOk (k.procs p)

/-- And the current process with its table loaded. -/
structure SystemInv (ps : List Nat) (k : Kernel) (live : Multiset (Nat × Nat))
    (taken given fl : Nat → List Nat) : Prop extends Separated ps k live taken given fl where
  loaded : Loaded ps k.kernelPagetable k.switchView
  closed : Closed (OnQueue ps) k.nodes

/-- What is done for one process leaves the invariant. -/
theorem Separated.serves (h : Separated ps k live taken given fl)
    (hs : Serves New (k.tableRoots ps) p taken given fl k k') :
    k'.tableRoots ps = k.tableRoots ps ∧ ∃ live', Separated ps k' live' taken given fl := by
  have hroots : k'.tableRoots ps = k.tableRoots ps :=
    tableRoots_congr (fun q _ => hs.tables q) hs.kernelPagetable
  obtain ⟨live', hi⟩ := hs.isolated
  refine ⟨hroots, live', by rwa [hroots], h.objects, fun q hq => ?_, fun q hq q' hq' heq => ?_,
    fun q hq => hs.heaps q (h.heaps q hq)⟩
  · rw [hs.tfs]
    exact h.kstacks q hq
  · rw [hs.tfs, hs.tfs] at heq
    exact h.frames q hq q' hq' heq

theorem Separated.systemInv (h : Separated ps k live taken given fl)
    (hs : Serves New (k.tableRoots ps) p taken given fl k k')
    (hloaded : Loaded ps k'.kernelPagetable k'.switchView) (hclosed : Closed (OnQueue ps) k'.nodes) :
    ∃ live', SystemInv ps k' live' taken given fl := by
  obtain ⟨-, live', hsep⟩ := h.serves hs
  exact ⟨live', hsep, hloaded, hclosed⟩

/-- The loaded table, as one of all tables. -/
theorem SystemInv.satpRoot (h : SystemInv ps k live taken given fl) :
    ∃ o, k.tableRoots ps o = some k.satpRoot ∧ (o = none ∨ o = some k.cpu.proc) ∧
      (k.cpu.proc ∈ ps → o = some k.cpu.proc ∧ k.satpRoot = (k.procs k.cpu.proc).pagetable) := by
  have hpage : ∀ {o root}, k.tableRoots ps o = some root → IsPage root := fun ho =>
    h.isolated.owned.tables.page _ ⟨_, [], Nat.zero_le _, ho⟩
  by_cases hcurr : k.cpu.proc ∈ ps
  · have hroot := tableRoots_of_mem (k := k) hcurr
    have hsatp := satpRoot_eq (h.loaded.process hcurr).1 (hpage hroot)
    refine ⟨some k.cpu.proc, ?_, Or.inr rfl, fun _ => ⟨rfl, hsatp⟩⟩
    rw [hroot, hsatp]
    rfl
  · have hroot : k.tableRoots ps none = some k.kernelPagetable := rfl
    have hsatp := satpRoot_eq (h.loaded.kernel hcurr) (hpage hroot)
    refine ⟨none, ?_, Or.inl rfl, fun hm => absurd hm hcurr⟩
    rw [hroot, hsatp]

/-! ### One trap -/

/-- Where the registers are saved: `trap_vector` finds the frame in `sscratch`, and in `idle_loop`
`idle_trap_vector` saves none. -/
def SavesFrame (ps : List Nat) (k : Kernel) (t : Trap) : Prop :=
  if k.cpu.proc ∈ ps then t.tf = k.hart.sscratch else t.frame = k.frames t.tf

theorem trapEntry_reg (htf : t.tf = (k.procs p).tf) (i : Nat) : (k.trapEntry t).reg p i = t.frame.regs i := by
  have hown : ((k.trapEntry t).procs p).tf = t.tf := htf.symm
  have hframe : (k.trapEntry t).frames t.tf = t.frame := Function.update_self ..
  rw [reg, hown, hframe]

/-- Registers that do not ask for `munmap`. -/
theorem unmapsOwn_of_ne (htf : t.tf = (k.procs p).tf) (hnum : t.frame.regs 17 % 2 ^ 32 ≠ SYS_munmap) :
    (k.trapEntry t).UnmapsOwn p := by
  intro hmunmap
  rw [trapEntry_reg htf] at hmunmap
  exact absurd hmunmap hnum

/-- The registers go to the frame of the current process. -/
theorem SystemInv.ownFrame (h : SystemInv ps k live taken given fl) (hsaves : k.SavesFrame ps t) :
    t.tf = (k.procs k.cpu.proc).tf ∧ (k.procs k.cpu.proc).isIdle = false ∨
      t.frame = k.frames t.tf := by
  unfold SavesFrame at hsaves
  split at hsaves
  · next hcurr => exact Or.inl ⟨hsaves.trans (h.loaded.process hcurr).2, (h.loaded.procs _ hcurr).2⟩
  · exact Or.inr hsaves

theorem SystemInv.trapEntry_quiet (h : SystemInv ps k live taken given fl) (hsaves : k.SavesFrame ps t) :
    Quiet k.cpu.proc k (k.trapEntry t) := by
  have hframe : Quiet k.cpu.proc k (k.setFrame t.tf t.frame) := .setFrame _ (h.ownFrame hsaves)
  exact hframe.trans (.of_eq rfl rfl rfl rfl rfl rfl)

theorem reg_setSepc (tf i : Nat) (sepc : Nat) :
    (k.setFrame tf { k.frames tf with sepc := sepc }).reg p i = k.reg p i := by
  unfold reg setFrame
  by_cases htf : (k.procs p).tf = tf
  · simp [htf]
  · simp [htf]

/-- **An `ecall`** of the current process. -/
theorem SystemInv.ecall_serves {clock : Nat → Nat} (h : SystemInv ps k live taken given fl)
    (hcurr : k.cpu.proc ∈ ps) (hsaves : k.SavesFrame ps t)
    (hunmap : (k.trapEntry t).UnmapsOwn k.cpu.proc) (hzero : New 0)
    (htyped : ∀ c ∈ k.uartIn, New (crToLf c))
    (hcall : (k.trapEntry t).ecall t.tf k.cpu.proc clock = .ok k') :
    Serves New (k.tableRoots ps) k.cpu.proc taken given fl k k' ∧ Steady ps k k' := by
  have htf : t.tf = (k.procs k.cpu.proc).tf := by
    rw [SavesFrame, if_pos hcurr] at hsaves
    exact hsaves.trans (h.loaded.process hcurr).2
  have hidle : (k.procs k.cpu.proc).isIdle = false := (h.loaded.procs _ hcurr).2
  obtain ⟨f, hf⟩ : ∃ f, f = { (k.trapEntry t).frames t.tf with
      sepc := u64 (((k.trapEntry t).frames t.tf).sepc + 4) } := ⟨_, rfl⟩
  have hcall' : ((k.trapEntry t).setFrame t.tf f).syscallHandler k.cpu.proc clock = .ok k' := by
    rw [hf]
    exact hcall
  have hstep : Quiet k.cpu.proc (k.trapEntry t) ((k.trapEntry t).setFrame t.tf f) :=
    .setFrame f (Or.inl ⟨htf, hidle⟩)
  have hquiet := (h.trapEntry_quiet hsaves).trans hstep
  have hunmap' : ((k.trapEntry t).setFrame t.tf f).UnmapsOwn k.cpu.proc := by
    unfold UnmapsOwn at hunmap ⊢
    rw [hf, reg_setSepc, reg_setSepc, reg_setSepc]
    exact hunmap
  obtain ⟨o, -, -, hloaded⟩ := h.satpRoot
  have hserves : Serves New (k.tableRoots ps) k.cpu.proc taken given fl
      ((k.trapEntry t).setFrame t.tf f) k' :=
    syscallHandler_serves (k := (k.trapEntry t).setFrame t.tf f) h.isolated (tableRoots_of_mem hcurr)
      (hloaded hcurr).2 (h.heaps _ hcurr) hidle hunmap' hzero htyped hcall'
  refine ⟨(Serves.of_quiet h.isolated hquiet).trans hserves, ?_⟩
  have hentry : Steady ps k ((k.trapEntry t).setFrame t.tf f) := ⟨rfl, fun hc => hc⟩
  exact hentry.trans (syscallHandler_steady hcurr hcall')

/-- **Step lemma**: a trap serves the process that is current when it is taken, and afterwards the
table in `satp` is that of the process that is current then. -/
theorem SystemInv.takeTrap (h : SystemInv ps k live taken given fl) (hsaves : k.SavesFrame ps t)
    (hunmap : IsEcall t → (k.trapEntry t).UnmapsOwn k.cpu.proc) (hzero : New 0)
    (htyped : ∀ c ∈ k.uartIn, New (crToLf c)) (hcall : k.takeTrap t = .ok k') :
    Serves New (k.tableRoots ps) k.cpu.proc taken given fl k k' ∧
      ∃ live', SystemInv ps k' live' taken given fl := by
  obtain ⟨k₂, hend, hcase⟩ := takeTrap_parts h.loaded.curr_ne hcall
  have hentry : Steady ps k (k.trapEntry t) := trapEntry_steady
  have hmid : Serves New (k.tableRoots ps) k.cpu.proc taken given fl k k₂ ∧ Steady ps k k₂ := by
    rcases hcase with ⟨-, htimer⟩ | ⟨-, rfl⟩ | ⟨hidle, hcause, hecall⟩
    · exact ⟨.of_quiet h.isolated ((h.trapEntry_quiet hsaves).trans (timerHandle_quiet htimer)),
        hentry.trans (timerHandle_steady h.closed htimer)⟩
    · exact ⟨.of_quiet h.isolated (h.trapEntry_quiet hsaves), hentry⟩
    · exact h.ecall_serves (h.loaded.mem_of_not_idle hidle) hsaves (hunmap hcause) hzero htyped hecall
  obtain ⟨hserves, hsteady⟩ := hmid
  have hloaded : Loaded ps k₂.kernelPagetable k₂.switchView := by
    rw [hserves.kernelPagetable, hsteady.switchView]
    exact h.loaded
  have hproc : k₂.cpu.proc = k.cpu.proc := congrArg SwitchView.curr hsteady.switchView
  have hquiet : Quiet k.cpu.proc k₂ k' := hproc ▸ quiet_trapEnd hloaded.idle.2 hend
  obtain ⟨hloaded', hclosed'⟩ := trapEnd_loaded hloaded (hsteady.closed h.closed) hend
  have hall := hserves.quiet hquiet
  exact ⟨hall, h.systemInv hall (by rwa [hquiet.kernelPagetable]) hclosed'⟩

/-! ### User code -/

/-- **Step lemma**: user code stores a byte. -/
theorem SystemInv.userStore {va : Nat} {c : UInt8} (h : SystemInv ps k live taken given fl)
    (hstore : k.userStore va c = some k') :
    Serves (· = c) (k.tableRoots ps) k.cpu.proc taken given fl k k' ∧
      ∃ live', SystemInv ps k' live' taken given fl := by
  obtain ⟨o, ho, hp, -⟩ := h.satpRoot
  have hserves := userStore_serves h.isolated ho hp hstore
  refine ⟨hserves, h.systemInv hserves ?_ ?_⟩
  all_goals obtain ⟨pa, -, rfl⟩ := Option.map_eq_some_iff.mp hstore
  · exact h.loaded
  · exact h.closed

end Kernel

end SystemN
