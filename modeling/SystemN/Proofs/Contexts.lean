/-
What `swtch` can load for the processes that wait.

A process that has run is left by a call of `swtch`, and loading what that saved leads
back to its own trap frame.  A process that has not run has the context `create_proc`
gave it, and no return address.  The shell does not need one, as it is started without
`swtch`; every other process does.  So the law holds of the runs in which nothing but
the shell has been created, and of no others.
-/
import SystemN.Proofs.Create
import SystemN.Proofs.Resume

namespace SystemN.Kernel

open SchedView Rings

variable {k k' k₀ k₁ : Kernel} {ps : List Nat} {p q : Nat} {code : Code}

/-! ### Booting -/

/-- The state between two calls of `create_proc`, with the processes `ps` on the run queue. -/
structure Started (k₀ : Kernel) (ps : List Nat) (k : Kernel) : Prop where
  queues : Queues k.view.nodes ps []
  closed : Closed (OnQueue ps) k.nodes
  procs : ∀ p ∈ ps, p ≠ 0 ∧ p ≠ k.view.idle ∧ k.view.isIdle p = false ∧ k.view.state p = .runnable
  created : ∀ p ∈ ps, Created (k.switchView.kstack p) (k.switchView.tf p) (k.switchView.saved p)
  isIdle : k.view.isIdle k.view.idle = true
  idle : k.view.idle = k₀.view.idle
  count : ps.length ≤ k.view.nextPid
  needsSched : k.view.needsSched = k₀.view.needsSched
  stvec : k.switchView.stvec = k₀.switchView.stvec
  idleLoop : k.switchView.idleLoop = k₀.switchView.idleLoop

theorem Started.of_masked (h : Started k₀ ps k) (hm : k'.masked = k.masked) : Started k₀ ps k' := by
  have hview := view_of_masked hm
  have hswitch := switchView_of_masked hm
  have hnodes := nodes_of_masked hm
  refine ⟨?_, ?_, ?_, ?_, ?_, ?_, ?_, ?_, ?_, ?_⟩
  · rw [hview]; exact h.queues
  · rw [hnodes]; exact h.closed
  · rw [hview]; exact h.procs
  · rw [hswitch]; exact h.created
  · rw [hview]; exact h.isIdle
  · rw [hview]; exact h.idle
  · rw [hview]; exact h.count
  · rw [hview]; exact h.needsSched
  · rw [hswitch]; exact h.stvec
  · rw [hswitch]; exact h.idleLoop

theorem Started.init (stack : Nat) : Started k [] (k.initQueues.setupIdleProc stack) := by
  obtain ⟨hq, hisIdle, hidle, hneeds, -⟩ := setupIdleProc_spec (k := k) stack
  obtain ⟨hc, -, hsymbols, hhart, -, -⟩ := setupIdleProc_launch (k := k) stack
  refine ⟨hq, hc, by simp, by simp, ?_, hidle, Nat.zero_le _, hneeds, ?_, ?_⟩
  · rw [hisIdle, hidle]
    exact Function.update_self ..
  · exact congrArg Hart.stvec hhart
  · exact congrArg Symbols.idleLoop hsymbols

/-- A new process on no queue does not disturb the others. -/
theorem Started.withProc {v : Proc} (h : Started k₀ ps k) (hp : p ∉ ps) (hidle : p ≠ k.idleProc) :
    Started k₀ ps (k.withProc p v) := by
  have hne : ∀ q ∈ ps, q ≠ p := by
    rintro q hq rfl
    exact hp hq
  have hprocs : ∀ q, q ≠ p → (k.withProc p v).procs q = k.procs q := fun q hq =>
    Function.update_of_ne hq ..
  have hnodes : ∀ x, x ≠ .qNode p → (k.withProc p v).nodes x = k.nodes x := fun x hx =>
    Function.update_of_ne hx ..
  have hview : ∀ q, q ≠ p → (k.withProc p v).view.state q = k.view.state q ∧
      (k.withProc p v).view.isIdle q = k.view.isIdle q := by
    intro q hq
    exact ⟨congrArg Proc.state (hprocs q hq), congrArg Proc.isIdle (hprocs q hq)⟩
  refine ⟨⟨h.queues.run.frame fun x hx => hnodes x ?_, h.queues.sleep.frame fun x hx => hnodes x ?_,
    by simp⟩, ?_, ?_, ?_, ?_, h.idle, ?_, h.needsSched, h.stvec, h.idleLoop⟩
  · rintro rfl
    simp only [List.mem_cons, List.mem_map, reduceCtorEq, false_or] at hx
    obtain ⟨q, hq, heq⟩ := hx
    exact hne q hq (Node.qNode.inj heq)
  · rintro rfl
    simp at hx
  · intro x hx
    have hxp : x ≠ .qNode p := by
      rintro rfl
      exact hp hx
    rw [hnodes x hxp]
    exact h.closed x hx
  · intro q hq
    obtain ⟨h0, hi, hisIdle, hstate⟩ := h.procs q hq
    rw [(hview q (hne q hq)).1, (hview q (hne q hq)).2]
    exact ⟨h0, hi, hisIdle, hstate⟩
  · intro q hq
    have hc := h.created q hq
    change Created ((k.withProc p v).procs q).kstack ((k.withProc p v).procs q).tf
      ((k.withProc p v).procs q).ctx
    rw [hprocs q (hne q hq)]
    exact hc
  · change (k.withProc p v).view.isIdle k.idleProc = true
    rw [(hview _ hidle.symm).2]
    exact h.isIdle
  · exact Nat.le_succ_of_le h.count

theorem Started.enqueue {v : Proc} (h : Started k₀ ps k) (hp : p ∉ ps) (h0 : p ≠ 0)
    (hidle : p ≠ k.idleProc) (hisIdle : v.isIdle = false) (hv : Created v.kstack v.tf v.ctx)
    (hm : k₁.masked = (k.withProc p v).masked) (hk : k₁.enqueue p = .ok k') :
    Started k₀ (ps ++ [p]) k' := by
  have h₁ : Started k₀ ps k₁ := (h.withProc hp hidle).of_masked hm
  obtain ⟨k₂, hk₂, hq, hview⟩ := enqueue_spec h₁.queues hp List.not_mem_nil
  obtain rfl : k₂ = k' := Except.ok.inj (hk₂.symm.trans hk)
  obtain ⟨hswitch, hc⟩ := enqueue_steady hp hk h₁.closed
  have hself : (k.withProc p v).procs p = v := Function.update_self ..
  have hnew : Created (k₁.switchView.kstack p) (k₁.switchView.tf p) (k₁.switchView.saved p) := by
    rw [switchView_of_masked hm]
    change Created ((k.withProc p v).procs p).kstack ((k.withProc p v).procs p).tf
      ((k.withProc p v).procs p).ctx
    rw [hself]
    exact hv
  have hisIdle₁ : k₁.view.isIdle p = false := by
    rw [view_of_masked hm]
    exact (congrArg Proc.isIdle hself).trans hisIdle
  have hidle₁ : p ≠ k₁.view.idle := by
    rw [view_of_masked hm]
    exact hidle
  have hcount : (ps ++ [p]).length ≤ k₁.view.nextPid := by
    rw [view_of_masked hm]
    change _ ≤ k.view.nextPid + 1
    have := h.count
    simp only [List.length_append, List.length_singleton]
    omega
  have hv₂ : ∀ v : SchedView, k₂.view = v → Queues v.nodes (ps ++ [p]) [] →
      (∀ q ∈ ps ++ [p], q ≠ 0 ∧ q ≠ v.idle ∧ v.isIdle q = false ∧ v.state q = .runnable) →
      v.isIdle v.idle = true → v.idle = k₀.view.idle → (ps ++ [p]).length ≤ v.nextPid →
      v.needsSched = k₀.view.needsSched → Started k₀ (ps ++ [p]) k₂ := by
    rintro v rfl h1 h2 h3 h4 h5 h6
    refine ⟨h1, hc, h2, ?_, h3, h4, h5, h6, ?_, ?_⟩
    · intro q hq
      rw [hswitch]
      rcases List.mem_append.mp hq with hq | hq
      · exact h₁.created q hq
      · obtain rfl := List.mem_singleton.mp hq
        exact hnew
    · rw [hswitch]
      exact h₁.stvec
    · rw [hswitch]
      exact h₁.idleLoop
  refine hv₂ _ hview hq ?_ h₁.isIdle h₁.idle hcount h₁.needsSched
  intro q hq
  by_cases hqp : q = p
  · subst hqp
    exact ⟨h0, hidle₁, hisIdle₁, Function.update_self ..⟩
  · have hm : q ∈ ps := by simpa [hqp] using hq
    obtain ⟨h0, hi, hf, hstate⟩ := h₁.procs q hm
    refine ⟨h0, hi, hf, ?_⟩
    change Function.update k₁.view.state p .runnable q = .runnable
    rw [Function.update_of_ne hqp]
    exact hstate

/-- **Any number of calls of `create_proc`**. -/
theorem Boots.started {stack : Nat} (h : Boots k₀ stack ps k) : ps.Nodup ∧ Started k₀ ps k := by
  induction h with
  | init => exact ⟨List.nodup_nil, Started.init stack⟩
  | @create ps k binary size r _ hfresh hk ih =>
      obtain ⟨hnodup, hst⟩ := ih
      rcases createProc_cases hk with ⟨h0, hm⟩ | ⟨p, k₁, halloc, hp0, v, hisIdle, hout⟩
      · rw [if_pos h0]
        exact ⟨hnodup, hst.of_masked hm⟩
      · obtain ⟨hp, hidle⟩ := hfresh p k₁ halloc
        have hidle' : p ≠ k.idleProc := hidle
        rcases hout with ⟨h0, hm⟩ | ⟨hr, hcreated, k₂, hm, henq⟩
        · rw [if_pos h0]
          exact ⟨hnodup, (hst.withProc hp hidle').of_masked hm⟩
        · rw [hr, if_neg hp0]
          refine ⟨?_, hst.enqueue hp hp0 hidle' hisIdle hcreated hm henq⟩
          exact hnodup.append (List.nodup_singleton p) (by simpa using hp)

/-- The state behind `shell_init`, when `create_proc` has returned the processes `qs` before. -/
structure ShellStarted (k₀ : Kernel) (qs : List Nat) (k : Kernel) : Prop where
  settled : Settled (qs ++ [k.cpu.proc]) k.view qs []
  closed : Closed (OnQueue (qs ++ [k.cpu.proc])) k.nodes
  created : ∀ p ∈ qs ++ [k.cpu.proc],
    Created (k.switchView.kstack p) (k.switchView.tf p) (k.switchView.saved p)
  stvec : k.switchView.stvec = k₀.switchView.stvec
  idleLoop : k.switchView.idleLoop = k₀.switchView.idleLoop

/-- The scheduler's view once the last of the processes has been taken off the queue to run. -/
theorem Started.settled {qs : List Nat} {shell : Nat} {v : SchedView}
    (h : Started k₀ (qs ++ [shell]) k) (hnodup : (qs ++ [shell]).Nodup) (hidle : k₀.idleProc ≠ 0)
    (hneeds : k₀.cpu.needsSched = false) (hq : Queues v.nodes qs [])
    (hst : v.state = Function.update k.view.state shell .running) (hcurr : v.curr = shell)
    (hisIdle : v.isIdle = k.view.isIdle) (hidleP : v.idle = k.view.idle)
    (hpid : v.nextPid = k.view.nextPid) (hn : v.needsSched = k.view.needsSched) :
    Settled (qs ++ [shell]) v qs [] := by
  have hshell : shell ∉ qs := fun hm =>
    (List.nodup_append.mp hnodup).2.2 shell hm shell (List.mem_singleton.mpr rfl) rfl
  have hcases : ∀ p ∈ qs ++ [shell],
      (p = shell ∧ v.state p = .running) ∨ (p ∈ qs ∧ v.state p = .runnable) := by
    intro p hp
    rw [hst]
    by_cases hps : p = shell
    · subst hps
      exact Or.inl ⟨rfl, Function.update_self ..⟩
    · rw [Function.update_of_ne hps]
      exact Or.inr ⟨by simpa [hps] using hp, (h.procs p hp).2.2.2⟩
  refine ⟨⟨hq, ?_, ?_, ?_, ?_, ?_, ?_, ?_, ?_, ?_⟩, ?_, ?_⟩
  · intro p
    refine ⟨fun hp => ⟨List.mem_append_left _ hp, ?_⟩, fun ⟨hp, hrun⟩ => ?_⟩
    · rcases hcases p (List.mem_append_left _ hp) with ⟨rfl, -⟩ | ⟨-, hrun⟩
      · exact absurd hp hshell
      · exact hrun
    · rcases hcases p hp with ⟨-, hst⟩ | ⟨hp, -⟩
      · rw [hst] at hrun
        cases hrun
      · exact hp
  · intro p
    refine ⟨fun hp => absurd hp List.not_mem_nil, fun ⟨hp, hsleep⟩ => ?_⟩
    rcases hcases p hp with ⟨-, hst⟩ | ⟨-, hst⟩
    · rw [hst] at hsleep
      cases hsleep
    · rw [hst] at hsleep
      cases hsleep
  · intro p hp hun
    rcases hcases p hp with ⟨-, hst⟩ | ⟨-, hst⟩
    · rw [hst] at hun
      cases hun
    · rw [hst] at hun
      cases hun
  · intro p hp hrun
    rcases hcases p hp with ⟨hps, -⟩ | ⟨-, hst⟩
    · exact hps.trans hcurr.symm
    · rw [hst] at hrun
      cases hrun
  · exact Or.inr (by rw [hcurr]; simp)
  · intro _
    rw [hcurr, hst, Function.update_self]
    simp
  · intro p hp
    obtain ⟨h0, -, hf, -⟩ := h.procs p hp
    rw [hisIdle]
    exact ⟨h0, hf⟩
  · rw [hisIdle, hidleP]
    exact ⟨by rw [h.idle]; exact hidle, h.isIdle⟩
  · rw [hpid]
    exact h.count
  · intro _
    rw [hcurr, hst]
    exact Function.update_self ..
  · rw [hn, h.needsSched]
    exact hneeds

theorem Started.makeCurrent {qs : List Nat} {shell : Nat} (h : Started k₀ (qs ++ [shell]) k)
    (hnodup : (qs ++ [shell]).Nodup) (hidle : k₀.idleProc ≠ 0) (hneeds : k₀.cpu.needsSched = false)
    (hk : k.makeCurrent shell = .ok k') : k'.cpu.proc = shell ∧ ShellStarted k₀ qs k' := by
  obtain ⟨k₁, hk₁, hq, hview⟩ := makeCurrent_spec h.queues
  obtain rfl : k₁ = k' := Except.ok.inj (hk₁.symm.trans hk)
  obtain ⟨hswitch, hc⟩ := makeCurrent_launch (List.mem_append_right _ (by simp)) hk h.closed
  have hcurr : k₁.cpu.proc = shell := congrArg SchedView.curr hview
  refine ⟨hcurr, ?_⟩
  have hswitch' : ∀ v : SwitchView, k₁.switchView = v → v.kstack = k.switchView.kstack →
      v.tf = k.switchView.tf → v.saved = k.switchView.saved → v.stvec = k.switchView.stvec →
      v.idleLoop = k.switchView.idleLoop → ShellStarted k₀ qs k₁ := by
    rintro v rfl h1 h2 h3 h4 h5
    refine ⟨?_, ?_, ?_, h4.trans h.stvec, h5.trans h.idleLoop⟩
    · rw [hcurr, hview]
      exact h.settled hnodup hidle hneeds hq rfl rfl rfl rfl rfl rfl
    · rw [hcurr]
      exact hc
    · rw [hcurr, h1, h2, h3]
      exact h.created
  exact hswitch' _ hswitch rfl rfl rfl rfl rfl

/-- **`shell_init`**, behind any number of calls of `create_proc`. -/
theorem Boots.shellStarted {stack binary size : Nat} {qs : List Nat} (h : Boots k₀ stack qs k)
    (hidle : k₀.idleProc ≠ 0) (hneeds : k₀.cpu.needsSched = false) (hfresh : k.AllocsFresh qs)
    (hk : k.shellInit binary size = .ok k') (hshell : k'.cpu.proc ≠ 0) :
    ShellStarted k₀ qs k' := by
  unfold shellInit at hk
  rw [bind_eq_ok] at hk
  obtain ⟨⟨shell, k₁⟩, hcreate, hk⟩ := hk
  have hcurr : k'.cpu.proc = shell := by
    unfold Kernel.makeCurrent at hk
    rw [bind_eq_ok] at hk
    obtain ⟨nodes, -, hk⟩ := hk
    obtain rfl := Except.ok.inj hk
    rfl
  have hboots := Boots.create h hfresh hcreate
  rw [if_neg (by rw [← hcurr]; exact hshell)] at hboots
  obtain ⟨hnodup, hst⟩ := hboots.started
  exact (hst.makeCurrent hnodup hidle hneeds hk).2

/-! ### The shell alone -/

theorem view_jumpToUserShell : k.jumpToUserShell.view = k.view := by
  have hwrite : ∀ (k : Kernel) v, (k.writeSstatus v).view = k.view := fun _ _ => rfl
  unfold jumpToUserShell clearSum setSum
  dsimp only
  rw [hwrite, hwrite]
  rfl

theorem view_resume {place : Place} (h : k.resume code = some (place, k')) : k'.view = k.view := by
  unfold resume at h
  split at h
  · obtain ⟨-, rfl⟩ := Prod.mk.inj (Option.some.inj h)
    rfl
  · rw [Option.map_eq_some_iff] at h
    obtain ⟨d, -, heq⟩ := h
    obtain ⟨-, rfl⟩ := Prod.mk.inj heq
    rfl

/-- To the scheduler a step is a trap. -/
theorem HartStep.takeTrap {place place' : Place} (h : HartStep code k place k' place') :
    ∃ (c : Context) (t : Trap) (k₁ : Kernel), (k.setCtx c).takeTrap t = .ok k₁ ∧
      k'.view = k₁.view := by
  cases h with
  | user _ _ hk hresume => exact ⟨_, _, _, hk, view_resume hresume⟩
  | idleStay _ hk _ => exact ⟨_, _, _, hk, rfl⟩
  | idleSwitch _ hk _ hresume => exact ⟨_, _, _, hk, view_resume hresume⟩

/-- The scheduler settled, with no live process but `shell`. -/
def OnlyShell (shell : Nat) (k : Kernel) : Prop :=
  ∃ live runs sleeps, Settled live k.view runs sleeps ∧ ∀ p ∈ live, p = shell

/-- A live process that makes a system call is the shell, and then nobody waits. -/
theorem OnlyShell.sleepsAlone {shell : Nat} {live runs sleeps : List Nat} {t : Trap}
    (h : Settled live k.view runs sleeps) (hlive : ∀ p ∈ live, p = shell) : SleepsAlone k t := by
  intro hcall _
  have hcurr := hcall.mem h.toInv
  rw [listEmpty_iff h.toInv]
  refine List.eq_nil_iff_forall_not_mem.mpr fun p hp => ?_
  obtain ⟨hm, hst⟩ := (h.runs_iff p).mp hp
  rw [hlive p hm, ← hlive _ hcurr, h.curr_running hcurr] at hst
  cases hst

theorem OnlyShell.step {shell : Nat} {place place' : Place} (h : OnlyShell shell k)
    (hstep : HartStep code k place k' place') : OnlyShell shell k' := by
  obtain ⟨live, runs, sleeps, hset, hlive⟩ := h
  obtain ⟨c, t, k₁, hk, hview⟩ := HartStep.takeTrap hstep
  have hset' : Settled live (k.setCtx c).view runs sleeps := hset
  obtain ⟨live', runs', sleeps', hset₁, hc⟩ :=
    takeTrap_live hset' (OnlyShell.sleepsAlone hset' hlive) hk
  refine ⟨live', runs', sleeps', ?_, fun p hp => hlive p (hc.sub p hp)⟩
  rw [hview]
  exact hset₁

theorem HartRun.onlyShell {shell : Nat} {place : Place} (h : OnlyShell shell k₀)
    (hrun : HartRun code k₀ k place) : OnlyShell shell k := by
  induction hrun with
  | start => exact h
  | step _ hstep ih => exact ih.step hstep

/-! ### What can be resumed -/

/-- An address of the kernel's text, where the kernel runs. -/
def InText (L : Layout) (va : Nat) : Prop :=
  L.textStart + vaOffsetConst ≤ va ∧ va < L.textEnd + vaOffsetConst

/-- Compiled code is text, and uses no more stack than a process has below its trap frame. -/
structure FitsStack (L : Layout) (code : Code) : Prop where
  text : ∀ ra d, code.depth ra = some d → InText L ra
  depth : ∀ ra d, code.depth ra = some d → d ≤ kstackSize - sizeofTrapFrame

/-- The saved context of `p` can be loaded: it is a place in the text, with a stack pointer in the
kernel stack of `p`, from which the hart goes back to user mode with the frame of `p`. -/
structure Resumable (code : Code) (L : Layout) (k : Kernel) (p : Nat) : Prop where
  ra : InText L (k.procs p).ctx.ra
  sp : sub64 (k.procs p).ctx.sp (k.procs p).kstack < kstackSize
  resumes : (k.setCtx (k.procs p).ctx).resume code =
    some (.user (some (k.procs p).tf), k.setCtx (k.procs p).ctx)

/-- `p` is on the run queue. -/
def Queued (k : Kernel) (p : Nat) : Prop :=
  ∃ runs : List Nat, IsRing k.nodes .runQueue (runs.map .qNode) ∧ p ∈ runs

theorem Queued.mem {live runs sleeps : List Nat} (h : Queued k p)
    (hset : Settled live k.view runs sleeps) : p ∈ runs := by
  obtain ⟨runs', hring, hp⟩ := h
  have heq := hring.unique hset.queues.run
  have hm : Node.qNode p ∈ runs.map Node.qNode := heq ▸ List.mem_map_of_mem hp
  simpa using hm

/-- How far below the top of the stack a call of `swtch` is made. -/
theorem sub64_of_depth {sp kstack d top : Nat} (h : u64 (sp + d) = u64 (kstack + top))
    (hd : d ≤ top) (htop : top < 2 ^ 64) : sub64 sp kstack = top - d := by
  unfold sub64
  unfold u64 at h
  omega

theorem CallsSwtch.resumable {L : Layout} (hcode : FitsStack L code)
    (hidle : code.depth k.symbols.idleLoop = none)
    (hcall : CallsSwtch code (k.procs p).tf (k.procs p).ctx)
    (htf : (k.procs p).tf = u64 ((k.procs p).kstack + (kstackSize - sizeofTrapFrame))) :
    Resumable code L k p := by
  obtain ⟨d, hd, hsp⟩ := hcall
  have hdepth := hcode.depth _ _ hd
  refine ⟨hcode.text _ _ hd, ?_, ?_⟩
  · rw [sub64_of_depth (hsp.trans htf) hdepth (by norm_num)]
    norm_num
    omega
  · have hra : (k.procs p).ctx.ra ≠ k.symbols.idleLoop := by
      intro heq
      rw [heq, hidle] at hd
      cases hd
    unfold resume
    rw [if_neg (show (k.setCtx (k.procs p).ctx).hart.ctx.ra ≠
        (k.setCtx (k.procs p).ctx).symbols.idleLoop from hra),
      show code.depth (k.setCtx (k.procs p).ctx).hart.ctx.ra = some d from hd]
    change some (Place.user (some (u64 ((k.procs p).ctx.sp + d))), _) = _
    rw [hsp]

/-! ### Runs -/

theorem ShellStarted.launch (h : ShellStarted k₀ [] k) (hstvec : k₀.hart.stvec = .trapVector)
    (hidleLoop : code.depth k₀.symbols.idleLoop = none) : Launch code [k.cpu.proc] k := by
  have hset : Settled [k.cpu.proc] k.view [] [] := h.settled
  refine ⟨hset.procs, hset.idle, ?_, by simp, h.stvec.trans hstvec, h.closed, ?_⟩
  · rw [show k.symbols.idleLoop = k₀.symbols.idleLoop from h.idleLoop]
    exact hidleLoop
  · intro p hp hne
    exact absurd (List.mem_singleton.mp hp) hne

/-- With the shell alone, whoever is queued has run. -/
theorem ShellStarted.resumable {L : Layout} {place : Place} (h : ShellStarted k₀ [] k)
    (hstvec : k₀.hart.stvec = .trapVector) (hidleLoop : code.depth k₀.symbols.idleLoop = none)
    (hcode : FitsStack L code) (hrun : HartRun code k.jumpToUserShell k' place)
    (hp : Queued k' p) : Resumable code L k' p := by
  have hset : Settled [k.cpu.proc] k.view [] [] := h.settled
  have honly : OnlyShell k.cpu.proc k.jumpToUserShell := by
    refine ⟨[k.cpu.proc], [], [], ?_, fun p hp => List.mem_singleton.mp hp⟩
    rw [view_jumpToUserShell]
    exact hset
  obtain ⟨live, runs, sleeps, hset', hlive⟩ := HartRun.onlyShell honly hrun
  obtain ⟨hm, hst⟩ := (hset'.runs_iff p).mp (hp.mem hset')
  obtain rfl := hlive p hm
  have hne : k.cpu.proc ≠ k'.cpu.proc := by
    intro heq
    have hcurr : k'.view.curr = k.cpu.proc := heq.symm
    have hrunning := hset'.curr_running (by rw [hcurr]; exact hm)
    rw [hcurr, hst] at hrunning
    cases hrunning
  obtain ⟨hinv, hfixed⟩ := HartRun.inv (h.launch hstvec hidleLoop).inv hrun
  have hcall : CallsSwtch code (k'.procs k.cpu.proc).tf (k'.procs k.cpu.proc).ctx :=
    hinv.switching.saved _ (List.mem_singleton.mpr rfl) hne
  refine CallsSwtch.resumable hcode hinv.switching.idleLoop hcall ?_
  -- no switch moves a stack
  have hframe := (h.created k.cpu.proc (by simp)).frame
  have hview := switchView_jumpToUserShell (k := k)
  have htf : k'.switchView.tf = k.switchView.tf := by rw [hfixed.tf, hview]
  have hkstack : k'.switchView.kstack = k.switchView.kstack := by rw [hfixed.kstack, hview]
  change k'.switchView.tf k.cpu.proc = u64 (k'.switchView.kstack k.cpu.proc + _)
  rw [htf, hkstack]
  exact hframe

/-- A process that waits at the start has no return address. -/
theorem ShellStarted.not_resumable {L : Layout} {qs : List Nat} (h : ShellStarted k₀ qs k)
    (hq : q ∈ qs) : Queued k.jumpToUserShell q ∧ ¬Resumable code L k.jumpToUserShell q := by
  refine ⟨⟨qs, ?_, hq⟩, fun hr => ?_⟩
  · rw [nodes_jumpToUserShell]
    exact h.settled.queues.run
  · have hra := (h.created q (List.mem_append_left _ hq)).ra
    have hsaved : k.jumpToUserShell.switchView.saved = k.switchView.saved := by
      rw [switchView_jumpToUserShell]
    have htext : InText L (k.jumpToUserShell.switchView.saved q).ra := hr.ra
    rw [hsaved, hra] at htext
    have hlo : vaOffsetConst ≤ 0 := (Nat.le_add_left _ L.textStart).trans htext.1
    norm_num at hlo

/-- The law in the runs from one start: nothing but the shell may have been created. -/
theorem ShellStarted.resumable_iff {L : Layout} {qs : List Nat} (h : ShellStarted k₀ qs k)
    (hstvec : k₀.hart.stvec = .trapVector) (hidleLoop : code.depth k₀.symbols.idleLoop = none)
    (hcode : FitsStack L code) :
    (∀ k' place p, HartRun code k.jumpToUserShell k' place → Queued k' p →
      Resumable code L k' p) ↔ qs = [] := by
  constructor
  · intro hall
    refine List.eq_nil_iff_forall_not_mem.mpr fun q hq => ?_
    have hwait : Queued k.jumpToUserShell q ∧ ¬Resumable code L k.jumpToUserShell q :=
      h.not_resumable hq
    obtain ⟨hqueued, hnot⟩ := hwait
    exact hnot (hall _ _ q .start hqueued)
  · rintro rfl k' place p hrun hp
    exact h.resumable hstvec hidleLoop hcode hrun hp

/-- The same of a boot through `create_proc`. -/
theorem Boots.resumable_iff {L : Layout} {stack binary size : Nat} {qs : List Nat}
    (h : Boots k₀ stack qs k₁) (hidle : k₀.idleProc ≠ 0) (hneeds : k₀.cpu.needsSched = false)
    (hfresh : k₁.AllocsFresh qs) (hk : k₁.shellInit binary size = .ok k)
    (hshell : k.cpu.proc ≠ 0) (hstvec : k₀.hart.stvec = .trapVector)
    (hidleLoop : code.depth k₀.symbols.idleLoop = none) (hcode : FitsStack L code) :
    (∀ k' place p, HartRun code k.jumpToUserShell k' place → Queued k' p →
      Resumable code L k' p) ↔ qs = [] :=
  (h.shellStarted hidle hneeds hfresh hk hshell).resumable_iff hstvec hidleLoop hcode

/-- The start of `startQueues`, with processes as `create_proc` leaves them. -/
theorem startQueues_shellStarted {stack shell : Nat} {qs : List Nat}
    (h : Booting k₀ (qs ++ [shell]))
    (hcreated : ∀ p ∈ qs ++ [shell],
      Created (k₀.procs p).kstack (k₀.procs p).tf (k₀.procs p).ctx)
    (hk : k₀.startQueues stack shell qs = .ok k) : ShellStarted k₀ qs k := by
  have hsettled : ∃ k₁, k₀.startQueues stack shell qs = .ok k₁ ∧
      Settled (qs ++ [shell]) k₁.view qs [] := startQueues_settled h
  obtain ⟨k₁, hk₁, hset⟩ := hsettled
  obtain rfl : k₁ = k := Except.ok.inj (hk₁.symm.trans hk)
  obtain ⟨hswitch, hc⟩ := startQueues_steady h.nodup hk
  obtain ⟨-, -, hsymbols, hhart, -, hprocs⟩ := setupIdleProc_launch (k := k₀) stack
  have hcurr : k₁.cpu.proc = shell := congrArg SwitchView.curr hswitch
  have hv : ∀ v : SwitchView, k₁.switchView = v →
      (∀ p ∈ qs ++ [shell], Created (v.kstack p) (v.tf p) (v.saved p)) →
      v.stvec = k₀.switchView.stvec → v.idleLoop = k₀.switchView.idleLoop →
      ShellStarted k₀ qs k₁ := by
    rintro v rfl h1 h2 h3
    refine ⟨?_, ?_, ?_, h2, h3⟩
    · rw [hcurr]
      exact hset
    · rw [hcurr]
      exact hc
    · rw [hcurr]
      exact h1
  refine hv _ hswitch ?_ (congrArg Hart.stvec hhart) (congrArg Symbols.idleLoop hsymbols)
  intro p hp
  change Created ((k₀.initQueues.setupIdleProc stack).procs p).kstack
    ((k₀.initQueues.setupIdleProc stack).procs p).tf
    ((k₀.initQueues.setupIdleProc stack).procs p).ctx
  rw [hprocs p (h.procs p hp).2.1]
  exact hcreated p hp

/-- **Queued processes can be resumed**: of the runs from a start with the processes `qs` waiting,
as `create_proc` leaves them, the law holds if and only if there are none. -/
theorem HartRun.queued_resumable_iff {L : Layout} {stack shell : Nat} {qs : List Nat}
    (hboot : Booting k₀ (qs ++ [shell]))
    (hcreated : ∀ p ∈ qs ++ [shell],
      Created (k₀.procs p).kstack (k₀.procs p).tf (k₀.procs p).ctx)
    (hstvec : k₀.hart.stvec = .trapVector) (hidleLoop : code.depth k₀.symbols.idleLoop = none)
    (hcode : FitsStack L code) (hstart : k₀.startQueues stack shell qs = .ok k) :
    (∀ k' place p, HartRun code k.jumpToUserShell k' place → Queued k' p →
      Resumable code L k' p) ↔ qs = [] :=
  (startQueues_shellStarted hboot hcreated hstart).resumable_iff hstvec hidleLoop hcode

/-! ### Two processes as `create_proc` leaves them -/

/-- `twoProcs`, with their kernel stacks. -/
def createdProcs : Kernel :=
  { twoProcs with
    procs := fun p => { Proc.zero with
      kstack := p + 0x1000
      tf := p + 0x1000 + (kstackSize - sizeofTrapFrame)
      ctx := { Context.zero with sp := p + 0x1000 + (kstackSize - sizeofTrapFrame) } } }

theorem createdProcs_created (hp : p + 0x2000 < 2 ^ 64) :
    Created (createdProcs.procs p).kstack (createdProcs.procs p).tf (createdProcs.procs p).ctx := by
  refine ⟨?_, rfl, rfl⟩
  change p + 0x1000 + (kstackSize - sizeofTrapFrame) =
    u64 (p + 0x1000 + (kstackSize - sizeofTrapFrame))
  symm
  refine Nat.mod_eq_of_lt ?_
  norm_num at hp ⊢
  omega

theorem createdProcs_booting : Booting createdProcs ([otherProc] ++ [shellProc]) where
  nodup := twoProcs_booting.nodup
  procs := fun p hp => ⟨(twoProcs_booting.procs p hp).1, (twoProcs_booting.procs p hp).2.1, rfl⟩
  idle := twoProcs_booting.idle
  count := twoProcs_booting.count
  needsSched := rfl

theorem createdProcs_shell : Booting createdProcs ([] ++ [shellProc]) where
  nodup := shell_booting.nodup
  procs := fun p hp => createdProcs_booting.procs p (List.mem_append_right [otherProc] hp)
  idle := shell_booting.idle
  count := shell_booting.count
  needsSched := rfl

theorem oneCall_fits : FitsStack Mm.smallLayout oneCall := by
  have hdepth : ∀ ra d, oneCall.depth ra = some d → ra = retAddr ∧ d = 128 := by
    intro ra d h
    unfold oneCall at h
    dsimp only at h
    split at h
    · next hra => exact ⟨hra, (Option.some.inj h).symm⟩
    · cases h
  refine ⟨fun ra d h => ?_, fun ra d h => ?_⟩
  · obtain ⟨rfl, -⟩ := hdepth ra d h
    constructor
    · norm_num [Layout.textStart]
    · norm_num [Mm.smallLayout]
  · obtain ⟨-, rfl⟩ := hdepth ra d h
    norm_num

/-- The shell alone. -/
theorem queued_resumable_shell :
    ∃ k, createdProcs.startQueues 0xffffffff80003000 shellProc [] = .ok k ∧
      ∀ k' place p, HartRun oneCall k.jumpToUserShell k' place → Queued k' p →
        Resumable oneCall Mm.smallLayout k' p := by
  have hsettled : ∃ k, createdProcs.startQueues 0xffffffff80003000 shellProc [] = .ok k ∧
      Settled ([] ++ [shellProc]) k.view [] [] := startQueues_settled createdProcs_shell
  obtain ⟨k, hstart, -⟩ := hsettled
  refine ⟨k, hstart, (HartRun.queued_resumable_iff createdProcs_shell ?_ rfl rfl oneCall_fits
    hstart).mpr rfl⟩
  intro p hp
  obtain rfl := List.mem_singleton.mp hp
  exact createdProcs_created (by norm_num)

/-- A process that `create_proc` has put on the queue cannot be resumed: when the shell yields to
it, `swtch` returns to address 0. -/
theorem created_not_resumable :
    ∃ k k₁, createdProcs.startQueues 0xffffffff80003000 shellProc [otherProc] = .ok k ∧
      Booting createdProcs ([otherProc] ++ [shellProc]) ∧
      Created (createdProcs.procs otherProc).kstack (createdProcs.procs otherProc).tf
        (createdProcs.procs otherProc).ctx ∧
      Queued k.jumpToUserShell otherProc ∧
      ¬Resumable oneCall Mm.smallLayout k.jumpToUserShell otherProc ∧
      (k.jumpToUserShell.setCtx (callAt (shellProc + 0x1ee0))).takeTrap
        (userCall (shellProc + 0x1ee0) SYS_yield 0) = .ok k₁ ∧
      k₁.cpu.proc = otherProc ∧ k₁.hart.ctx.ra = 0 ∧ k₁.resume oneCall = none := by
  have hrun : (do
      let k ← createdProcs.startQueues 0xffffffff80003000 shellProc [otherProc]
      let k₁ ← (k.jumpToUserShell.setCtx (callAt (shellProc + 0x1ee0))).takeTrap
        (userCall (shellProc + 0x1ee0) SYS_yield 0)
      pure (k₁.cpu.proc, k₁.hart.ctx.ra, k₁.symbols.idleLoop)) =
        Except.ok (otherProc, 0, 0xffffffff80001000) := rfl
  rw [bind_eq_ok] at hrun
  obtain ⟨k, hstart, hrun⟩ := hrun
  rw [bind_eq_ok] at hrun
  obtain ⟨k₁, htrap, hrun⟩ := hrun
  obtain ⟨hcurr, hrun⟩ := Prod.mk.inj (Except.ok.inj hrun)
  obtain ⟨hra, hidleLoop⟩ := Prod.mk.inj hrun
  have hcreated : ∀ p ∈ [otherProc] ++ [shellProc], Created (createdProcs.procs p).kstack
      (createdProcs.procs p).tf (createdProcs.procs p).ctx := by
    intro p hp
    simp only [List.mem_append, List.mem_singleton] at hp
    rcases hp with rfl | rfl
    · exact createdProcs_created (by norm_num)
    · exact createdProcs_created (by norm_num)
  have hshell := startQueues_shellStarted createdProcs_booting hcreated hstart
  obtain ⟨hqueued, hnot⟩ := hshell.not_resumable (List.mem_singleton.mpr rfl)
  refine ⟨k, k₁, hstart, createdProcs_booting, hcreated _ (by simp), hqueued, hnot, htrap, hcurr,
    hra, ?_⟩
  have hdepth : oneCall.depth 0 = none := by simp [oneCall]
  unfold resume
  rw [hra, hidleLoop, hdepth]
  rfl

end SystemN.Kernel
