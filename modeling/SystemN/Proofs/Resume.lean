/-
Dispatching: what the hart is set up for when it goes back to user mode.

`SwitchView` is what `swtch` and the code around it depend on: the control registers,
the current process, and of every process its frame, page table and saved context.
Until `schedule` is called a trap does not touch it.  `Switching` says that a process
that is not current has a context that leads back to its own frame, and that the one
that is current has `sscratch` and `satp` set up for it.  The queues need no more than
that nothing but processes can be found on them, so every trap is allowed.
-/
import SystemN.Resume
import SystemN.Proofs.SchedLive

namespace SystemN

/-- What a switch depends on. -/
structure SwitchView where
  satp : Nat
  stvec : Stvec
  sscratch : Nat
  ctx : Context
  curr : Nat
  idle : Nat
  idleLoop : Nat
  isIdle : Nat → Bool
  tf : Nat → Nat
  saved : Nat → Context
  pagetable : Nat → Nat
  kstack : Nat → Nat

namespace Kernel

open SchedView Rings

def switchView (k : Kernel) : SwitchView where
  satp := k.hart.satp
  stvec := k.hart.stvec
  sscratch := k.hart.sscratch
  ctx := k.hart.ctx
  curr := k.cpu.proc
  idle := k.idleProc
  idleLoop := k.symbols.idleLoop
  isIdle p := (k.procs p).isIdle
  tf p := (k.procs p).tf
  saved p := (k.procs p).ctx
  pagetable p := (k.procs p).pagetable
  kstack p := (k.procs p).kstack

variable {k k' k₁ k₂ : Kernel} {ps : List Nat} {p q : Nat} {t : Trap} {code : Code}

/-! ### What does not switch -/

/-- A field of the processes, after a write that leaves it alone. -/
theorem update_field {α : Type} {v : Proc} (f : Proc → α) (hf : f v = f (k.procs p)) :
    (fun q => f (Function.update k.procs p v q)) = fun q => f (k.procs q) := by
  funext q
  by_cases hq : q = p
  · subst hq
    simpa using hf
  · simp [hq]

/-- A write to the other fields of a process. -/
theorem switchView_setProc {v : Proc} (hidle : v.isIdle = (k.procs p).isIdle)
    (htf : v.tf = (k.procs p).tf) (hctx : v.ctx = (k.procs p).ctx)
    (hpagetable : v.pagetable = (k.procs p).pagetable) (hkstack : v.kstack = (k.procs p).kstack) :
    (k.setProc p v).switchView = k.switchView := by
  unfold switchView
  congr 1
  · exact update_field Proc.isIdle hidle
  · exact update_field Proc.tf htf
  · exact update_field Proc.ctx hctx
  · exact update_field Proc.pagetable hpagetable
  · exact update_field Proc.kstack hkstack

theorem switchView_setState (st : ProcState) : (k.setState p st).switchView = k.switchView :=
  switchView_setProc rfl rfl rfl rfl rfl

theorem switchView_of_masked (h : k'.masked = k.masked) : k'.switchView = k.switchView := by
  change k'.masked.switchView = k.masked.switchView
  rw [h]

/-- The nodes of the processes `ps` and of the two queues. -/
def OnQueue (ps : List Nat) : Node → Prop
  | .qNode p => p ∈ ps
  | .runQueue | .sleepQueue => True

theorem onQueue_run : OnQueue ps .runQueue := trivial

theorem onQueue_sleep : OnQueue ps .sleepQueue := trivial

/-- A part of a trap that does not switch, and keeps the queues to the processes `ps`. -/
structure Steady (ps : List Nat) (k k' : Kernel) : Prop where
  switchView : k'.switchView = k.switchView
  closed : Closed (OnQueue ps) k.nodes → Closed (OnQueue ps) k'.nodes

theorem Steady.trans (h : Steady ps k k₁) (h' : Steady ps k₁ k') : Steady ps k k' :=
  ⟨h'.switchView.trans h.switchView, fun hc => h'.closed (h.closed hc)⟩

theorem Steady.of_masked (h : k'.masked = k.masked) : Steady ps k k' := by
  refine ⟨switchView_of_masked h, fun hc => ?_⟩
  have hnodes : k'.nodes = k.nodes := by
    change k'.masked.nodes = k.masked.nodes
    rw [h]
  rwa [hnodes]

theorem wake_steady (hp : p ∈ ps) (hk : k.wake p = .ok k') : Steady ps k k' := by
  unfold wake at hk
  rw [bind_eq_ok] at hk
  obtain ⟨nodes₁, hdel, hk⟩ := hk
  rw [bind_eq_ok] at hk
  obtain ⟨nodes₂, hadd, hk⟩ := hk
  obtain rfl := Except.ok.inj hk
  have hnode : OnQueue ps (.qNode p) := hp
  refine ⟨switchView_setState (k := k.setNodes nodes₁) .runnable, fun hc => ?_⟩
  exact (hc.listDel hnode hdel).listAddTail hnode onQueue_run hadd

theorem timerLoop_steady (now : Nat) : ∀ (fuel : Nat) (pos : Node) (b : Bool) (k : Kernel)
    {r : Bool × Kernel}, Closed (OnQueue ps) k.nodes → OnQueue ps pos →
      timerLoop now fuel pos b k = .ok r → Steady ps k r.2 := by
  intro fuel
  induction fuel with
  | zero =>
      intro pos b k r _ _ hk
      cases hk
  | succ fuel ih =>
      intro pos b k r hc hpos hk
      rw [timerLoop, bind_eq_ok] at hk
      obtain ⟨tmp, htmp, hk⟩ := hk
      have htmp' : OnQueue ps tmp := (hc pos hpos).1 tmp (follow_eq_ok htmp)
      split at hk
      · obtain rfl := Except.ok.inj hk
        exact ⟨rfl, fun hc => hc⟩
      · rw [bind_eq_ok] at hk
        obtain ⟨p, hp, hk⟩ := hk
        have hmem : p ∈ ps := by
          cases pos with
          | runQueue => cases hp
          | sleepQueue => cases hp
          | qNode q =>
              obtain rfl := Except.ok.inj hp
              exact hpos
        split at hk
        · rw [bind_eq_ok] at hk
          obtain ⟨k₁, hwake, hk⟩ := hk
          have h₁ := wake_steady hmem hwake
          exact h₁.trans (ih tmp true k₁ (h₁.closed hc) htmp' hk)
        · exact ih tmp b k hc htmp' hk

theorem wakeSleepers_steady {now : Nat} (hc : Closed (OnQueue ps) k.nodes)
    (hk : k.wakeSleepers now = .ok k') : Steady ps k k' := by
  unfold wakeSleepers at hk
  rw [bind_eq_ok] at hk
  obtain ⟨first, hfirst, hk⟩ := hk
  rw [bind_eq_ok] at hk
  obtain ⟨⟨b, k₁⟩, hloop, hk⟩ := hk
  have hfirst' : OnQueue ps first := (hc .sleepQueue onQueue_sleep).1 first (follow_eq_ok hfirst)
  have h₁ := timerLoop_steady now _ first false k hc hfirst' hloop
  obtain rfl := Except.ok.inj hk
  cases b with
  | true => exact ⟨h₁.switchView, h₁.closed⟩
  | false => exact ⟨h₁.switchView, h₁.closed⟩

theorem timerHandle_steady {clock : Nat → Nat} (hc : Closed (OnQueue ps) k.nodes)
    (hk : k.timerHandle clock = .ok k') : Steady ps k k' := by
  have hset : ∀ v, Steady ps k (k.writeStimecmp v) := fun v => ⟨rfl, fun hc => hc⟩
  unfold timerHandle at hk
  exact (hset _).trans (wakeSleepers_steady ((hset _).closed hc) hk)

theorem sysSleepMs_steady {ms : Nat} {clock : Nat → Nat} {r : Nat × Kernel} (hp : p ∈ ps)
    (hk : k.sysSleepMs p ms clock = .ok r) : Steady ps k r.2 := by
  unfold sysSleepMs at hk
  split at hk
  · obtain rfl := Except.ok.inj hk
    exact ⟨rfl, fun hc => hc⟩
  · rw [bind_eq_ok] at hk
    obtain ⟨nodes, hadd, hk⟩ := hk
    obtain rfl := Except.ok.inj hk
    have hnode : OnQueue ps (.qNode p) := hp
    refine ⟨?_, fun hc => hc.listAddTail hnode onQueue_sleep hadd⟩
    have hstate : ((k.setState p .sleeping).setNodes nodes).switchView = k.switchView :=
      switchView_setState (k := k) .sleeping
    let v := { (k.setState p .sleeping).procs p with sleepUntil := u64 (clock 0 + msToTime ms) }
    have hdue : (((k.setState p .sleeping).setNodes nodes).setProc p v).switchView =
        ((k.setState p .sleeping).setNodes nodes).switchView :=
      switchView_setProc rfl rfl rfl rfl rfl
    exact hdue.trans hstate

theorem syscallHandler_steady {clock : Nat → Nat} (hp : p ∈ ps)
    (hk : k.syscallHandler p clock = .ok k') : Steady ps k k' := by
  have hmasked : ∀ {r : Nat × Kernel}, r.2.masked = k.masked → Steady ps k (r.2.setA0 p r.1) :=
    fun h => Steady.of_masked ((masked_setA0 _).trans h)
  unfold syscallHandler at hk
  split at hk
  · rw [bind_eq_ok] at hk
    obtain ⟨r, hcall, hk⟩ := hk
    obtain rfl := Except.ok.inj hk
    exact hmasked (masked_of_bare (bare_sysWrite hcall))
  · rw [bind_eq_ok] at hk
    obtain ⟨r, hcall, hk⟩ := hk
    obtain rfl := Except.ok.inj hk
    exact hmasked (masked_of_bare (bare_sysRead hcall))
  · obtain rfl := Except.ok.inj hk
    exact ⟨switchView_setState (k := k) .zombie, fun hc => hc⟩
  · obtain rfl := Except.ok.inj hk
    exact ⟨rfl, fun hc => hc⟩
  · obtain rfl := Except.ok.inj hk
    exact ⟨rfl, fun hc => hc⟩
  · rw [bind_eq_ok] at hk
    obtain ⟨r, hcall, hk⟩ := hk
    obtain rfl := Except.ok.inj hk
    have h := sysSleepMs_steady hp hcall
    exact ⟨h.switchView, h.closed⟩
  · rw [bind_eq_ok] at hk
    obtain ⟨r, hcall, hk⟩ := hk
    obtain rfl := Except.ok.inj hk
    exact hmasked (masked_of_bare (bare_sysSbrk hcall))
  · rw [bind_eq_ok] at hk
    obtain ⟨r, hcall, hk⟩ := hk
    obtain rfl := Except.ok.inj hk
    exact hmasked (masked_of_bare (bare_sysMunmap hcall))
  · obtain rfl := Except.ok.inj hk
    exact ⟨rfl, fun hc => hc⟩

/-! ### What switches -/

theorem switchView_saveCtx (c : Context) :
    (k.setProc p { k.procs p with ctx := c }).switchView =
      { k.switchView with saved := Function.update k.switchView.saved p c } := by
  unfold switchView
  congr 1
  · exact update_field Proc.isIdle rfl
  · exact update_field Proc.tf rfl
  · funext q
    by_cases hq : q = p
    · subst hq
      simp
    · simp [hq]
  · exact update_field Proc.pagetable rfl
  · exact update_field Proc.kstack rfl

/-- `swtch`: the registers are saved before the new ones are loaded. -/
theorem switchView_swtch (old new : Nat) :
    (k.swtch old new).switchView = { k.switchView with
      saved := Function.update k.switchView.saved old k.hart.ctx
      ctx := Function.update k.switchView.saved old k.hart.ctx new } := by
  have hsave := switchView_saveCtx (k := k) (p := old) k.hart.ctx
  have hctx : ((k.setProc old { k.procs old with ctx := k.hart.ctx }).procs new).ctx =
      Function.update k.switchView.saved old k.hart.ctx new := congrFun (congrArg SwitchView.saved hsave) new
  change { (k.setProc old { k.procs old with ctx := k.hart.ctx }).switchView with
    ctx := ((k.setProc old { k.procs old with ctx := k.hart.ctx }).procs new).ctx } = _
  rw [hsave, hctx]

theorem switchView_dispatch (old new : Nat) :
    (k.dispatch old new).switchView = { k.switchView with
      curr := new
      stvec := .trapVector
      satp := makeSatp (k.switchView.pagetable new)
      sscratch := k.switchView.tf new
      saved := Function.update k.switchView.saved old k.hart.ctx
      ctx := Function.update k.switchView.saved old k.hart.ctx new } := by
  unfold dispatch
  rw [switchView_swtch]
  rfl

/-- Switching to the idle process loads the start of `idle_loop`. -/
theorem switchView_runIdle {old : Nat} (hne : old ≠ k.idleProc) :
    ∃ satp saved ctx, (k.runIdle old).switchView = { k.switchView with
        curr := k.idleProc, satp := satp, saved := saved, ctx := ctx } ∧
      ctx.ra = k.symbols.idleLoop ∧ saved old = k.hart.ctx ∧
      ∀ p, p ≠ old → p ≠ k.idleProc → saved p = k.switchView.saved p := by
  let k₀ := k.setCurr k.idleProc
  let c : Context := { (k₀.procs k.idleProc).ctx with
    ra := k₀.symbols.idleLoop, sp := u64 ((k₀.procs k.idleProc).kstack + kstackSize) }
  let saved := Function.update (Function.update k.switchView.saved k.idleProc c) old k.hart.ctx
  have hview : (k.runIdle old).switchView = { k.switchView with
      curr := k.idleProc
      satp := makeSatp k.kernelPagetable
      saved := saved
      ctx := saved k.idleProc } := by
    let k₁ := k₀.setProc k.idleProc { k₀.procs k.idleProc with ctx := c }
    have hload : (k₁.loadPagetable k₁.kernelPagetable).switchView = { k.switchView with
        curr := k.idleProc
        satp := makeSatp k.kernelPagetable
        saved := Function.update k.switchView.saved k.idleProc c } := by
      change { k₁.switchView with satp := makeSatp k.kernelPagetable } = _
      rw [switchView_saveCtx (k := k₀)]
      rfl
    have hrun : k.runIdle old = (k₁.loadPagetable k₁.kernelPagetable).swtch old k.idleProc := rfl
    rw [hrun, switchView_swtch, hload]
    rfl
  refine ⟨_, saved, _, hview, ?_, ?_, ?_⟩
  · simp [saved, hne.symm, c, k₀, setCurr]
  · exact Function.update_self ..
  · intro p hp hpi
    simp [saved, hp, hpi]

/-! ### The invariant -/

/-- What is set up for switching to and from the processes `ps`. -/
structure Switching (code : Code) (ps : List Nat) (v : SwitchView) : Prop where
  procs : ∀ p ∈ ps, p ≠ 0 ∧ v.isIdle p = false
  idle : v.idle ≠ 0 ∧ v.isIdle v.idle = true
  idleLoop : code.depth v.idleLoop = none
  curr : v.curr ∈ ps ∨ v.curr = v.idle
  /-- A process that is not current has been left by a call of `swtch` in its own trap. -/
  saved : ∀ p ∈ ps, p ≠ v.curr → CallsSwtch code (v.tf p) (v.saved p)
  sscratch : v.curr ∈ ps → v.sscratch = v.tf v.curr
  satp : v.curr ∈ ps → v.satp = makeSatp (v.pagetable v.curr)
  stvec : v.curr ∈ ps → v.stvec = .trapVector

/-- And for the end of a trap: the registers are those of a call of `swtch` by the current
process, as far as it is not idle. -/
structure Leaving (code : Code) (ps : List Nat) (v : SwitchView) : Prop
    extends Switching code ps v where
  ctx : v.curr ∈ ps → CallsSwtch code (v.tf v.curr) v.ctx

/-- The parts of the view that no switch changes. -/
structure Fixed (v v' : SwitchView) : Prop where
  idle : v'.idle = v.idle
  idleLoop : v'.idleLoop = v.idleLoop
  tf : v'.tf = v.tf
  kstack : v'.kstack = v.kstack

theorem Switching.idle_notMem {v : SwitchView} (h : Switching code ps v) : v.idle ∉ ps := by
  intro hm
  have := (h.procs _ hm).2
  rw [h.idle.2] at this
  cases this

/-- Dispatching the process `q`. -/
theorem Leaving.dispatch {v : SwitchView} (h : Leaving code ps v) (hq : q ∈ ps) :
    Leaving code ps { v with
      curr := q
      stvec := .trapVector
      satp := makeSatp (v.pagetable q)
      sscratch := v.tf q
      saved := Function.update v.saved v.curr v.ctx
      ctx := Function.update v.saved v.curr v.ctx q } := by
  -- the process that leaves is saved, and the one that comes may be the same one
  have hsaved : ∀ p ∈ ps, CallsSwtch code (v.tf p) (Function.update v.saved v.curr v.ctx p) := by
    intro p hp
    by_cases hpc : p = v.curr
    · subst hpc
      simpa using h.ctx hp
    · simpa [hpc] using h.saved p hp hpc
  exact ⟨⟨h.procs, h.idle, h.idleLoop, Or.inl hq, fun p hp _ => hsaved p hp, fun _ => rfl,
    fun _ => rfl, fun _ => rfl⟩, fun _ => hsaved q hq⟩

/-- Switching from a process to the idle one. -/
theorem Leaving.runIdle {v : SwitchView} (h : Leaving code ps v) (hm : v.curr ∈ ps) {satp : Nat}
    {saved : Nat → Context} {ctx : Context} (hold : saved v.curr = v.ctx)
    (hother : ∀ p, p ≠ v.curr → p ≠ v.idle → saved p = v.saved p) :
    Leaving code ps { v with curr := v.idle, satp := satp, saved := saved, ctx := ctx } := by
  have hno : v.idle ∉ ps := h.idle_notMem
  have hsaved : ∀ p ∈ ps, CallsSwtch code (v.tf p) (saved p) := by
    intro p hp
    by_cases hpc : p = v.curr
    · rw [hpc, hold]
      exact h.ctx hm
    · have hpi : p ≠ v.idle := by
        rintro rfl
        exact hno hp
      rw [hother p hpc hpi]
      exact h.saved p hp hpc
  exact ⟨⟨h.procs, h.idle, h.idleLoop, Or.inr rfl, fun p hp _ => hsaved p hp,
    fun hi => absurd hi hno, fun hi => absurd hi hno, fun hi => absurd hi hno⟩,
    fun hi => absurd hi hno⟩

/-- **`schedule`**, as far as switching goes: it ends in a process of `ps`, or at the start of
`idle_loop`, or does nothing for the idle process. -/
theorem schedule_leaving (h : Leaving code ps k.switchView) (hc : Closed (OnQueue ps) k.nodes)
    (hk : k.schedule = .ok k') :
    Leaving code ps k'.switchView ∧ Closed (OnQueue ps) k'.nodes ∧
      Fixed k.switchView k'.switchView ∧
      (k.cpu.proc ∈ ps → k'.cpu.proc ∉ ps → k'.hart.ctx.ra = k'.symbols.idleLoop) ∧
      (k.cpu.proc ∉ ps → k'.cpu.proc ∉ ps → k' = k) := by
  rcases schedule_cases hk with ⟨q, nodes, k₁, hnext, hdel, hre, rfl⟩ | ⟨hidle, rfl⟩ | ⟨hidle, rfl⟩
  · have hq : OnQueue ps (.qNode q) := (hc .runQueue onQueue_run).1 _ hnext
    have hk₁ : k₁.switchView = k.switchView ∧ Closed (OnQueue ps) k₁.nodes := by
      have hstate : ((k.setNodes nodes).setState q .running).switchView = k.switchView :=
        switchView_setState (k := k.setNodes nodes) .running
      have hdel' := hc.listDel hq hdel
      rcases requeue_cases hre with ⟨-, rfl⟩ | ⟨hold, nodes', hadd, rfl⟩
      · exact ⟨hstate, hdel'⟩
      · have hcurr : OnQueue ps (.qNode k.cpu.proc) := by
          rcases h.curr with hm | hi
          · exact hm
          · have hold' : k.switchView.isIdle k.cpu.proc = false := by
              rw [← hstate]
              exact hold
            rw [show k.cpu.proc = k.switchView.idle from hi, h.idle.2] at hold'
            cases hold'
        refine ⟨?_, hdel'.listAddTail hcurr onQueue_run hadd⟩
        exact (switchView_setState (k := (k.setNodes nodes).setState q .running) .runnable).trans
          hstate
    have hview : (k₁.dispatch k.cpu.proc q).switchView = { k.switchView with
        curr := q
        stvec := .trapVector
        satp := makeSatp (k.switchView.pagetable q)
        sscratch := k.switchView.tf q
        saved := Function.update k.switchView.saved k.switchView.curr k.switchView.ctx
        ctx := Function.update k.switchView.saved k.switchView.curr k.switchView.ctx q } := by
      have hctx : k₁.hart.ctx = k.switchView.ctx := by
        change k₁.switchView.ctx = _
        rw [hk₁.1]
      rw [switchView_dispatch, hctx, hk₁.1]
      rfl
    have hcurr : (k₁.dispatch k.cpu.proc q).cpu.proc = q := rfl
    have hnodes : (k₁.dispatch k.cpu.proc q).nodes = k₁.nodes := by
      change (k₁.dispatch k.cpu.proc q).view.nodes = _
      rw [view_dispatch]
      rfl
    refine ⟨?_, by rw [hnodes]; exact hk₁.2, ?_, ?_, ?_⟩
    · rw [hview]
      exact h.dispatch hq
    · rw [hview]
      exact ⟨rfl, rfl, rfl, rfl⟩
    · intro _ hn
      rw [hcurr] at hn
      exact absurd hq hn
    · intro _ hn
      rw [hcurr] at hn
      exact absurd hq hn
  · -- a process hands over to the idle one
    have hmem : k.switchView.curr ∈ ps := by
      refine h.curr.resolve_right fun hi => ?_
      have hidle' : k.switchView.isIdle k.switchView.curr = false := hidle
      rw [hi, h.idle.2] at hidle'
      cases hidle'
    have hne : k.cpu.proc ≠ k.idleProc := by
      intro heq
      rw [show k.switchView.curr = k.switchView.idle from heq] at hmem
      exact h.idle_notMem hmem
    obtain ⟨satp, saved, ctx, hview, hra, hold, hother⟩ := switchView_runIdle hne
    have hcurr : (k.runIdle k.cpu.proc).cpu.proc = k.idleProc := rfl
    have hnodes : (k.runIdle k.cpu.proc).nodes = k.nodes := by
      change (k.runIdle k.cpu.proc).view.nodes = _
      rw [view_runIdle]
      rfl
    refine ⟨?_, by rw [hnodes]; exact hc, ?_, ?_, ?_⟩
    · rw [hview]
      exact h.runIdle hmem hold hother
    · rw [hview]
      exact ⟨rfl, rfl, rfl, rfl⟩
    · intro _ _
      change (k.runIdle k.cpu.proc).switchView.ctx.ra = (k.runIdle k.cpu.proc).switchView.idleLoop
      rw [hview]
      exact hra
    · intro hn _
      exact absurd hmem hn
  · refine ⟨h, hc, ⟨rfl, rfl, rfl, rfl⟩, fun hm hn => absurd hm hn, fun _ _ => rfl⟩

/-! ### One trap -/

theorem trapEntry_steady : Steady ps k (k.trapEntry t) := ⟨rfl, fun hc => hc⟩

/-- Up to the end of `trap_handler` a trap does not switch. -/
theorem takeTrap_steady (hcurr : k.cpu.proc ≠ 0)
    (hmem : (k.procs k.cpu.proc).isIdle = false → k.cpu.proc ∈ ps)
    (hc : Closed (OnQueue ps) k.nodes) (hk : k.takeTrap t = .ok k') :
    ∃ k₂, Steady ps k k₂ ∧ k₂.trapEnd = .ok k' := by
  obtain ⟨k₂, hend, hcase⟩ := takeTrap_parts hcurr hk
  refine ⟨k₂, (trapEntry_steady (t := t)).trans ?_, hend⟩
  rcases hcase with ⟨-, htimer⟩ | ⟨-, rfl⟩ | ⟨hidle, -, hcall⟩
  · exact timerHandle_steady hc htimer
  · exact ⟨rfl, fun hc => hc⟩
  · have hframe : ∀ f, Steady ps (k.trapEntry t) ((k.trapEntry t).setFrame t.tf f) :=
      fun f => ⟨rfl, fun hc => hc⟩
    exact (hframe _).trans (syscallHandler_steady (hmem hidle) hcall)

/-- What a trap does to the set-up for switching. -/
structure Switched (code : Code) (ps : List Nat) (k k' : Kernel) : Prop where
  leaving : Leaving code ps k'.switchView
  closed : Closed (OnQueue ps) k'.nodes
  fixed : Fixed k.switchView k'.switchView
  toIdle : k.cpu.proc ∈ ps → k'.cpu.proc ∉ ps → k'.hart.ctx.ra = k'.symbols.idleLoop
  stay : k.cpu.proc ∉ ps → k'.cpu.proc ∉ ps → k'.switchView = k.switchView

theorem trapEnd_switched (h : Leaving code ps k.switchView) (hc : Closed (OnQueue ps) k.nodes)
    (hk : k.trapEnd = .ok k') : Switched code ps k k' := by
  unfold trapEnd at hk
  split at hk
  · obtain ⟨h', hc', hfixed, hidle, hstay⟩ :=
      schedule_leaving (k := k.setNeedsSched false) h hc hk
    refine ⟨h', hc', hfixed, hidle, fun hn hn' => ?_⟩
    rw [hstay hn hn']
    rfl
  · obtain rfl := Except.ok.inj hk
    exact ⟨h, hc, ⟨rfl, rfl, rfl, rfl⟩, fun hm hn => absurd hm hn, fun _ _ => rfl⟩

/-- **A trap**, as far as switching goes. -/
theorem takeTrap_switched (h : Leaving code ps k.switchView) (hc : Closed (OnQueue ps) k.nodes)
    (hk : k.takeTrap t = .ok k') : Switched code ps k k' := by
  have hcurr : k.cpu.proc ≠ 0 := by
    rcases h.curr with hm | hi
    · exact (h.procs _ hm).1
    · rw [show k.cpu.proc = k.switchView.idle from hi]
      exact h.idle.1
  have hmem : (k.procs k.cpu.proc).isIdle = false → k.cpu.proc ∈ ps := by
    intro hidle
    refine h.curr.resolve_right fun hi => ?_
    have hidle' : k.switchView.isIdle k.switchView.curr = false := hidle
    rw [hi, h.idle.2] at hidle'
    cases hidle'
  obtain ⟨k₂, hsteady, hend⟩ := takeTrap_steady hcurr hmem hc hk
  have hv := hsteady.switchView
  have hs := trapEnd_switched (by rw [hv]; exact h) (hsteady.closed hc) hend
  have hc₂ : k₂.cpu.proc = k.cpu.proc := congrArg SwitchView.curr hv
  refine ⟨hs.leaving, hs.closed, ?_, ?_, ?_⟩
  · rw [← hv]
    exact hs.fixed
  · rw [← hc₂]
    exact hs.toIdle
  · rw [← hc₂, ← hv]
    exact hs.stay

/-! ### Runs -/

/-- What the hart has been set up for when it goes back to user mode. -/
structure Dispatched (k : Kernel) (frame : Option Nat) : Prop where
  sscratch : k.hart.sscratch = (k.procs k.cpu.proc).tf
  satp : k.hart.satp = makeSatp (k.procs k.cpu.proc).pagetable
  stvec : k.hart.stvec = .trapVector
  frame : ∀ tf, frame = some tf → tf = (k.procs k.cpu.proc).tf

/-- The state of a hart between two traps. -/
structure HartInv (code : Code) (ps : List Nat) (k : Kernel) (place : Place) : Prop where
  switching : Switching code ps k.switchView
  closed : Closed (OnQueue ps) k.nodes
  user : ∀ frame, place = .user frame → k.cpu.proc ∈ ps ∧ Dispatched k frame
  idle : place = .idle → k.cpu.proc = k.idleProc

/-- A trap ends where the process that is current now was interrupted, or in `idle_loop`. -/
theorem resume_inv {k'' : Kernel} {place : Place} (hs : Switched code ps k k')
    (hra : k'.cpu.proc ∉ ps → k'.hart.ctx.ra = k'.symbols.idleLoop)
    (hresume : k'.resume code = some (place, k'')) :
    HartInv code ps k'' place ∧ Fixed k'.switchView k''.switchView := by
  have hl := hs.leaving
  unfold resume at hresume
  by_cases hm : k'.cpu.proc ∈ ps
  · obtain ⟨d, hd, hsp⟩ := hl.ctx hm
    have hra' : k'.hart.ctx.ra ≠ k'.symbols.idleLoop := by
      intro heq
      have hd' : code.depth k'.hart.ctx.ra = some d := hd
      rw [heq, show code.depth k'.symbols.idleLoop = none from hl.idleLoop] at hd'
      cases hd'
    rw [if_neg hra', show code.depth k'.hart.ctx.ra = some d from hd] at hresume
    obtain ⟨rfl, rfl⟩ := Prod.mk.inj (Option.some.inj hresume)
    refine ⟨⟨hl.toSwitching, hs.closed, fun frame hf => ⟨hm, ?_⟩, fun hi => by cases hi⟩,
      ⟨rfl, rfl, rfl, rfl⟩⟩
    obtain rfl := Place.user.inj hf
    refine ⟨hl.sscratch hm, hl.satp hm, hl.stvec hm, fun tf htf => ?_⟩
    rw [← Option.some.inj htf]
    exact hsp
  · rw [if_pos (hra hm)] at hresume
    obtain ⟨rfl, rfl⟩ := Prod.mk.inj (Option.some.inj hresume)
    refine ⟨⟨?_, hs.closed, by simp, fun _ => hl.curr.resolve_left hm⟩,
      ⟨rfl, rfl, rfl, rfl⟩⟩
    -- `idle_loop` writes `stvec`, and no process is current
    exact ⟨hl.procs, hl.idle, hl.idleLoop, hl.curr, hl.saved, hl.sscratch, hl.satp,
      fun hc => absurd hc hm⟩

theorem Fixed.trans {v v' v'' : SwitchView} (h : Fixed v v') (h' : Fixed v' v'') : Fixed v v'' :=
  ⟨h'.idle.trans h.idle, h'.idleLoop.trans h.idleLoop, h'.tf.trans h.tf,
    h'.kstack.trans h.kstack⟩

/-- The registers of a call of `swtch` are those of the current process, if there is one. -/
theorem Switching.leaving {c : Context} (h : Switching code ps k.switchView)
    (hc : k.cpu.proc ∈ ps → CallsSwtch code (k.procs k.cpu.proc).tf c) :
    Leaving code ps (k.setCtx c).switchView :=
  ⟨⟨h.procs, h.idle, h.idleLoop, h.curr, h.saved, h.sscratch, h.satp, h.stvec⟩, hc⟩

/-- **Step lemma**. -/
theorem HartStep.inv {place place' : Place} (h : HartInv code ps k place)
    (hstep : HartStep code k place k' place') :
    HartInv code ps k' place' ∧ Fixed k.switchView k'.switchView := by
  have hsw := h.switching
  cases hstep with
  | @user frame t c k₁ _ _ hentry hc hk hresume =>
      obtain ⟨hm, hd⟩ := h.user frame rfl
      have htf : t.tf = (k.procs k.cpu.proc).tf := by
        unfold Enters at hentry
        rw [hd.stvec] at hentry
        exact hentry.trans hd.sscratch
      have hl : Leaving code ps (k.setCtx c).switchView := by
        refine hsw.leaving fun _ => ?_
        rw [← htf]
        exact hc hd.stvec
      have hs := takeTrap_switched hl h.closed hk
      obtain ⟨hinv, hfixed⟩ := resume_inv hs (hs.toIdle hm) hresume
      exact ⟨hinv, Fixed.trans ⟨hs.fixed.idle, hs.fixed.idleLoop, hs.fixed.tf, hs.fixed.kstack⟩
        hfixed⟩
  | @idleStay t c _ hentry hk hcurr =>
      have hidle := h.idle rfl
      have hno : k.cpu.proc ∉ ps := fun hm => hsw.idle_notMem (by rwa [hidle] at hm)
      have hs := takeTrap_switched (hsw.leaving (c := c) fun hm => absurd hm hno) h.closed hk
      refine ⟨⟨hs.leaving.toSwitching, hs.closed, by simp, fun _ => ?_⟩,
        ⟨hs.fixed.idle, hs.fixed.idleLoop, hs.fixed.tf, hs.fixed.kstack⟩⟩
      exact (hcurr.trans hidle).trans hs.fixed.idle.symm
  | @idleSwitch t c k₁ _ _ hentry hk hcurr hresume =>
      have hidle := h.idle rfl
      have hno : k.cpu.proc ∉ ps := fun hm => hsw.idle_notMem (by rwa [hidle] at hm)
      have hs := takeTrap_switched (hsw.leaving (c := c) fun hm => absurd hm hno) h.closed hk
      have hm : k₁.cpu.proc ∈ ps := by
        refine hs.leaving.curr.resolve_right fun hi => hcurr ?_
        exact (hi.trans hs.fixed.idle).trans hidle.symm
      obtain ⟨hinv, hfixed⟩ := resume_inv hs (fun hn => absurd hm hn) hresume
      exact ⟨hinv, Fixed.trans ⟨hs.fixed.idle, hs.fixed.idleLoop, hs.fixed.tf, hs.fixed.kstack⟩
        hfixed⟩

/-- **Run lemma**. -/
theorem HartRun.inv {k₀ : Kernel} {place : Place} (h₀ : HartInv code ps k₀ (.user none))
    (hrun : HartRun code k₀ k place) :
    HartInv code ps k place ∧ Fixed k₀.switchView k.switchView := by
  induction hrun with
  | start => exact ⟨h₀, ⟨rfl, rfl, rfl, rfl⟩⟩
  | step _ hstep ih =>
      obtain ⟨hinv, hfixed⟩ := HartStep.inv ih.1 hstep
      exact ⟨hinv, ih.2.trans hfixed⟩

/-- The processes `ps` when the shell is about to be started: all that wait can be resumed. -/
structure Launch (code : Code) (ps : List Nat) (k : Kernel) : Prop where
  procs : ∀ p ∈ ps, p ≠ 0 ∧ (k.procs p).isIdle = false
  idle : k.idleProc ≠ 0 ∧ (k.procs k.idleProc).isIdle = true
  /-- `idle_loop` starts behind no call of `swtch`. -/
  idleLoop : code.depth k.symbols.idleLoop = none
  curr : k.cpu.proc ∈ ps
  stvec : k.hart.stvec = .trapVector
  queues : Closed (OnQueue ps) k.nodes
  resumable : ∀ p ∈ ps, p ≠ k.cpu.proc → CallsSwtch code (k.procs p).tf (k.procs p).ctx

theorem switchView_writeSstatus (v : Nat) : (k.writeSstatus v).switchView = k.switchView := rfl

theorem switchView_jumpToUserShell :
    k.jumpToUserShell.switchView = { k.switchView with
      sscratch := k.switchView.tf k.switchView.curr
      satp := makeSatp (k.switchView.pagetable k.switchView.curr) } := by
  unfold jumpToUserShell clearSum setSum
  dsimp only
  rw [switchView_writeSstatus, switchView_writeSstatus]
  rfl

theorem nodes_jumpToUserShell : k.jumpToUserShell.nodes = k.nodes := by
  have hwrite : ∀ (k : Kernel) v, (k.writeSstatus v).nodes = k.nodes := fun _ _ => rfl
  unfold jumpToUserShell clearSum setSum
  dsimp only
  rw [hwrite, hwrite]
  rfl

theorem Launch.inv (h : Launch code ps k) : HartInv code ps k.jumpToUserShell (.user none) := by
  have hview := switchView_jumpToUserShell (k := k)
  refine ⟨?_, ?_, ?_, by simp⟩
  · rw [hview]
    exact ⟨h.procs, h.idle, h.idleLoop, Or.inl h.curr, h.resumable, fun _ => rfl, fun _ => rfl,
      fun _ => h.stvec⟩
  · rw [nodes_jumpToUserShell]
    exact h.queues
  · intro frame hf
    obtain rfl := Place.user.inj hf
    have hcurr : k.jumpToUserShell.switchView.curr ∈ ps := by
      rw [hview]
      exact h.curr
    have hd : ∀ v : SwitchView, k.jumpToUserShell.switchView = v →
        v.sscratch = v.tf v.curr ∧ v.satp = makeSatp (v.pagetable v.curr) ∧
          v.stvec = .trapVector → Dispatched k.jumpToUserShell none := by
      rintro v rfl ⟨h1, h2, h3⟩
      exact ⟨h1, h2, h3, by simp⟩
    exact ⟨hcurr, hd _ hview ⟨rfl, rfl, h.stvec⟩⟩

/-- Whenever the hart goes back to user mode, its control registers and the frame it has restored
are those of the current process. -/
theorem Launch.dispatched (h : Launch code ps k) {k' : Kernel} {frame : Option Nat}
    (hrun : HartRun code k.jumpToUserShell k' (.user frame)) : Dispatched k' frame :=
  ((HartRun.inv h.inv hrun).1.user frame rfl).2

/-! ### Booting -/

/-- The last step of `create_proc` puts a process on the queue and does nothing else. -/
theorem enqueue_steady (hp : p ∉ ps) (hk : k.enqueue p = .ok k')
    (hc : Closed (OnQueue ps) k.nodes) :
    k'.switchView = k.switchView ∧ Closed (OnQueue (ps ++ [p])) k'.nodes := by
  unfold enqueue at hk
  rw [bind_eq_ok] at hk
  obtain ⟨nodes, hadd, hk⟩ := hk
  obtain rfl := Except.ok.inj hk
  refine ⟨switchView_setState (k := k) .runnable, ?_⟩
  have hR : ∀ y, OnQueue (ps ++ [p]) y ↔ OnQueue ps y ∨ y = .qNode p := by
    intro y
    cases y with
    | runQueue => simp [OnQueue]
    | sleepQueue => simp [OnQueue]
    | qNode q => simp [OnQueue]
  have hnew : ¬OnQueue ps (.qNode p) := hp
  exact hc.extend hR hnew onQueue_run hadd

theorem enqueue_all_steady (qs : List Nat) : ∀ (ps : List Nat) (k k' : Kernel),
    (ps ++ qs).Nodup → Closed (OnQueue ps) k.nodes → qs.foldlM enqueue k = .ok k' →
      k'.switchView = k.switchView ∧ Closed (OnQueue (ps ++ qs)) k'.nodes := by
  induction qs with
  | nil =>
      intro ps k k' _ hc hk
      obtain rfl := Except.ok.inj hk
      exact ⟨rfl, by simpa using hc⟩
  | cons q qs ih =>
      intro ps k k' hnodup hc hk
      rw [List.foldlM_cons, bind_eq_ok] at hk
      obtain ⟨k₁, hq, hk⟩ := hk
      have hfree : q ∉ ps := fun hm =>
        (List.nodup_append.mp hnodup).2.2 q hm q List.mem_cons_self rfl
      obtain ⟨hview, hc₁⟩ := enqueue_steady hfree hq hc
      obtain ⟨hview', hc'⟩ := ih (ps ++ [q]) k₁ k' (by simpa using hnodup) hc₁ hk
      exact ⟨hview'.trans hview, by simpa using hc'⟩

/-- The state `s_mode_main` prepares has empty queues, and differs in the idle process only. -/
theorem setupIdleProc_launch (stack : Nat) :
    Closed (OnQueue []) (k.initQueues.setupIdleProc stack).nodes ∧
      (k.initQueues.setupIdleProc stack).idleProc = k.idleProc ∧
      (k.initQueues.setupIdleProc stack).symbols = k.symbols ∧
      (k.initQueues.setupIdleProc stack).hart = k.hart ∧
      ((k.initQueues.setupIdleProc stack).procs k.idleProc).isIdle = true ∧
      ∀ p, p ≠ k.idleProc → (k.initQueues.setupIdleProc stack).procs p = k.procs p := by
  have hnodes : (k.initQueues.setupIdleProc stack).nodes =
      Function.update (listHeadInit (listHeadInit k.nodes .runQueue) .sleepQueue)
        (.qNode k.idleProc) ⟨none, none⟩ := by
    unfold setupIdleProc
    dsimp only
    split
    · rfl
    · rfl
  have hprocs : ∃ v : Proc, v.isIdle = true ∧
      (k.initQueues.setupIdleProc stack).procs = Function.update k.procs k.idleProc v := by
    unfold setupIdleProc
    dsimp only
    split
    · exact ⟨_, rfl, rfl⟩
    · exact ⟨_, rfl, rfl⟩
  obtain ⟨v, hv, hprocs⟩ := hprocs
  refine ⟨?_, ?_, ?_, ?_, ?_, ?_⟩
  · rw [hnodes]
    intro x hx
    cases x with
    | runQueue => simp [listHeadInit, OnQueue]
    | sleepQueue => simp [listHeadInit, OnQueue]
    | qNode p => simp [OnQueue] at hx
  · unfold setupIdleProc
    dsimp only
    split
    · rfl
    · rfl
  · unfold setupIdleProc
    dsimp only
    split
    · rfl
    · rfl
  · unfold setupIdleProc
    dsimp only
    split
    · rfl
    · rfl
  · rw [hprocs, Function.update_self]
    exact hv
  · intro p hp
    rw [hprocs, Function.update_of_ne hp]

theorem makeCurrent_launch {shell : Nat} (hp : shell ∈ ps) (hk : k.makeCurrent shell = .ok k')
    (hc : Closed (OnQueue ps) k.nodes) :
    k'.switchView = { k.switchView with curr := shell } ∧ Closed (OnQueue ps) k'.nodes := by
  unfold makeCurrent at hk
  rw [bind_eq_ok] at hk
  obtain ⟨nodes, hdel, hk⟩ := hk
  obtain rfl := Except.ok.inj hk
  have hnode : OnQueue ps (.qNode shell) := hp
  refine ⟨?_, hc.listDel hnode hdel⟩
  have hstate : ((k.setNodes nodes).setState shell .running).switchView = k.switchView :=
    switchView_setState (k := k.setNodes nodes) .running
  rw [← hstate, ← switchView_setProc (k := (k.setNodes nodes).setState shell .running) (p := shell)
    (v := { ((k.setNodes nodes).setState shell .running).procs shell with boundCpu := 0 })
    rfl rfl rfl rfl rfl]
  rfl

/-- What switching depends on at the start is what `s_mode_main` has prepared. -/
theorem startQueues_steady {stack shell : Nat} {qs : List Nat} (hnodup : (qs ++ [shell]).Nodup)
    (hk : k.startQueues stack shell qs = .ok k') :
    k'.switchView = { (k.initQueues.setupIdleProc stack).switchView with curr := shell } ∧
      Closed (OnQueue (qs ++ [shell])) k'.nodes := by
  have hshell : shell ∉ qs := fun hm =>
    (List.nodup_append.mp hnodup).2.2 shell hm shell (List.mem_singleton.mpr rfl) rfl
  unfold startQueues at hk
  dsimp only at hk
  rw [bind_eq_ok] at hk
  obtain ⟨k₁, hall, hk⟩ := hk
  rw [bind_eq_ok] at hk
  obtain ⟨k₂, henq, hk⟩ := hk
  obtain ⟨hview₁, hc₁⟩ := enqueue_all_steady qs [] _ _ (List.nodup_append.mp hnodup).1
    (setupIdleProc_launch stack).1 hall
  obtain ⟨hview₂, hc₂⟩ := enqueue_steady hshell henq hc₁
  obtain ⟨hview, hc⟩ := makeCurrent_launch (List.mem_append_right _ (by simp)) hk hc₂
  rw [hview₂, hview₁] at hview
  exact ⟨hview, hc⟩

/-- **The start is a launch**, when the waiting processes can be resumed. -/
theorem startQueues_launch {stack shell : Nat} {qs : List Nat} (h : Booting k (qs ++ [shell]))
    (hidleLoop : code.depth k.symbols.idleLoop = none) (hstvec : k.hart.stvec = .trapVector)
    (hqs : ∀ q ∈ qs, CallsSwtch code (k.procs q).tf (k.procs q).ctx)
    (hk : k.startQueues stack shell qs = .ok k') : Launch code (qs ++ [shell]) k' := by
  obtain ⟨-, hidle₀, hsymbols₀, hhart₀, hisIdle₀, hprocs₀⟩ := setupIdleProc_launch (k := k) stack
  obtain ⟨hview, hc⟩ := startQueues_steady h.nodup hk
  -- what the view says of the processes is what `create_proc` has left
  have hold : ∀ p ∈ qs ++ [shell], (k.initQueues.setupIdleProc stack).procs p = k.procs p :=
    fun p hp => hprocs₀ p (h.procs p hp).2.1
  have hlaunch : ∀ v : SwitchView, k'.switchView = v →
      (∀ p ∈ qs ++ [shell], p ≠ 0 ∧ v.isIdle p = false) →
      (v.idle ≠ 0 ∧ v.isIdle v.idle = true) → code.depth v.idleLoop = none →
      v.curr ∈ qs ++ [shell] → v.stvec = .trapVector →
      (∀ p ∈ qs ++ [shell], p ≠ v.curr → CallsSwtch code (v.tf p) (v.saved p)) →
      Launch code (qs ++ [shell]) k' := by
    rintro v rfl h1 h2 h3 h4 h5 h6
    exact ⟨h1, h2, h3, h4, h5, hc, h6⟩
  refine hlaunch _ hview ?_ ?_ ?_ (List.mem_append_right _ (by simp)) ?_ ?_
  · intro p hp
    refine ⟨(h.procs p hp).1, ?_⟩
    change ((k.initQueues.setupIdleProc stack).procs p).isIdle = false
    rw [hold p hp]
    exact (h.procs p hp).2.2
  · change (k.initQueues.setupIdleProc stack).idleProc ≠ 0 ∧
      ((k.initQueues.setupIdleProc stack).procs
        (k.initQueues.setupIdleProc stack).idleProc).isIdle = true
    rw [hidle₀]
    exact ⟨h.idle, hisIdle₀⟩
  · change code.depth (k.initQueues.setupIdleProc stack).symbols.idleLoop = none
    rw [hsymbols₀]
    exact hidleLoop
  · change (k.initQueues.setupIdleProc stack).hart.stvec = .trapVector
    rw [hhart₀]
    exact hstvec
  · intro p hp hne
    change CallsSwtch code ((k.initQueues.setupIdleProc stack).procs p).tf
      ((k.initQueues.setupIdleProc stack).procs p).ctx
    rw [hold p hp]
    refine hqs p ?_
    have hne' : p ≠ shell := hne
    simpa [hne'] using hp

/-- **Dispatch consistency**: in every run behind `jump_to_user_shell`, whenever the hart goes back
to user mode, `sscratch`, `satp`, `stvec` and the frame it has restored are those of the current
process, when the processes that wait at the start can be resumed. -/
theorem HartRun.dispatch_consistent {k₀ : Kernel} {stack shell : Nat} {qs : List Nat}
    {frame : Option Nat} (hboot : Booting k₀ (qs ++ [shell]))
    (hidleLoop : code.depth k₀.symbols.idleLoop = none) (hstvec : k₀.hart.stvec = .trapVector)
    (hqs : ∀ q ∈ qs, CallsSwtch code (k₀.procs q).tf (k₀.procs q).ctx)
    (hstart : k₀.startQueues stack shell qs = .ok k)
    (hrun : HartRun code k.jumpToUserShell k' (.user frame)) : Dispatched k' frame :=
  (startQueues_launch hboot hidleLoop hstvec hqs hstart).dispatched hrun

/-! ### Two processes that can be resumed -/

@[simp] abbrev retAddr : Nat := 0xffffffff80000800

/-- Code with one call of `swtch`, 128 bytes below `trap_vector`. -/
def oneCall : Code where
  depth ra := if ra = retAddr then some 128 else none

/-- The registers at that call, in a trap with the frame `tf`. -/
def callAt (tf : Nat) : Context := ⟨retAddr, tf - 128, fun _ => 0⟩

theorem callsSwtch_callAt {tf : Nat} (hlo : 128 ≤ tf) (hhi : tf < 2 ^ 64) :
    CallsSwtch oneCall tf (callAt tf) := by
  have hdepth : oneCall.depth retAddr = some 128 := by simp [oneCall]
  refine ⟨128, hdepth, ?_⟩
  change u64 (tf - 128 + 128) = tf
  rw [Nat.sub_add_cancel hlo]
  exact Nat.mod_eq_of_lt hhi

/-- `twoProcs`, left in a call of `swtch` each. -/
def resumableProcs : Kernel :=
  { twoProcs with
    procs := fun p => { Proc.zero with tf := p + 0x1000, ctx := callAt (p + 0x1000) } }

theorem resumableProcs_booting : Booting resumableProcs ([otherProc] ++ [shellProc]) where
  nodup := twoProcs_booting.nodup
  procs := fun p hp => ⟨(twoProcs_booting.procs p hp).1, (twoProcs_booting.procs p hp).2.1, rfl⟩
  idle := twoProcs_booting.idle
  count := twoProcs_booting.count
  needsSched := rfl

/-- The shell yields, and the other process goes back to user mode with its own frame. -/
theorem dispatch_consistent_yield :
    ∃ k k', resumableProcs.startQueues 0xffffffff80003000 shellProc [otherProc] = .ok k ∧
      HartRun oneCall k.jumpToUserShell k' (.user (some (otherProc + 0x1000))) ∧
      Dispatched k' (some (otherProc + 0x1000)) := by
  have hrun : (do
      let k ← resumableProcs.startQueues 0xffffffff80003000 shellProc [otherProc]
      let k' ← (k.jumpToUserShell.setCtx (callAt (shellProc + 0x1000))).takeTrap
        (shellCall SYS_yield 0)
      pure ((k.jumpToUserShell.hart.stvec, k.jumpToUserShell.hart.sscratch), k'.hart.ctx.ra,
        k'.hart.ctx.sp, k'.symbols.idleLoop)) =
        Except.ok ((Stvec.trapVector, shellProc + 0x1000), retAddr, otherProc + 0xf80,
          0xffffffff80001000) := rfl
  rw [bind_eq_ok] at hrun
  obtain ⟨k, hstart, hrun⟩ := hrun
  rw [bind_eq_ok] at hrun
  obtain ⟨k', htrap, hrun⟩ := hrun
  obtain ⟨hentry, hrun⟩ := Prod.mk.inj (Except.ok.inj hrun)
  obtain ⟨hstvec, hsscratch⟩ := Prod.mk.inj hentry
  obtain ⟨hra, hrun⟩ := Prod.mk.inj hrun
  obtain ⟨hsp, hidleLoop⟩ := Prod.mk.inj hrun
  have hresume : k'.resume oneCall = some (.user (some (otherProc + 0x1000)), k') := by
    unfold resume
    rw [hra, hsp, hidleLoop]
    rfl
  have hcall : CallsSwtch oneCall (shellProc + 0x1000) (callAt (shellProc + 0x1000)) :=
    callsSwtch_callAt (by norm_num) (by norm_num)
  have hstep : HartStep oneCall k.jumpToUserShell (.user none) k'
      (.user (some (otherProc + 0x1000))) := by
    refine .user ?_ (fun _ => hcall) htrap hresume
    unfold Enters
    rw [hstvec]
    exact hsscratch.symm
  have hrun' : HartRun oneCall k.jumpToUserShell k' (.user (some (otherProc + 0x1000))) :=
    .step .start hstep
  refine ⟨k, k', hstart, hrun', HartRun.dispatch_consistent resumableProcs_booting rfl rfl ?_
    hstart hrun'⟩
  intro q hq
  obtain rfl := List.mem_singleton.mp hq
  change CallsSwtch oneCall (otherProc + 0x1000) (callAt (otherProc + 0x1000))
  exact callsSwtch_callAt (by norm_num) (by norm_num)

end Kernel

end SystemN
