/-
The first entry to user mode.

`create_proc` gives the shell a frame with its entry point and its stack pointer, but
`jump_to_user_shell` does not look at either.  It loads the top of the stack, and leaves
`sepc` as it is: that is 0, which is `USER_START_VA`, unless a timer interrupt has come
since the timer was started.  Each trap leaves the interrupted address in `sepc`, and in
the kernel that is a kernel address.
-/
import SystemN.Proofs.Ecall
import SystemN.Proofs.ProgramImage
import SystemN.Proofs.TrapVec
import SystemN.Resume

namespace SystemN

open RiscV TrapVec

namespace Kernel

variable {k k' k₁ : Kernel} {p : Nat}

/-! ### The frame of the shell -/

/-- The frame `create_proc` writes. -/
def newFrame : TrapFrame :=
  { TrapFrame.zero with
    regs := Function.update TrapFrame.zero.regs 2 userStackTop
    sepc := userStartVa
    sstatus := sstatusSpie ||| sstatusSum }

/-- `p->tf` is a frame as `create_proc` writes it. -/
def HasNewFrame (k : Kernel) (p : Nat) : Prop := k.frames (k.procs p).tf = newFrame

theorem HasNewFrame.of_framesOf (h : k'.framesOf = k.framesOf) (hk : HasNewFrame k p) :
    HasNewFrame k' p := by
  have hframes : k'.frames = k.frames := congrArg Prod.fst h
  have howner : (k'.procs p).tf = (k.procs p).tf := congrFun (congrArg Prod.snd h) p
  unfold HasNewFrame
  rw [hframes, howner]
  exact hk

theorem hasNewFrame_set (k : Kernel) (v : Proc) :
    HasNewFrame ((k.setProc p v).setFrame v.tf newFrame) p := by
  have hself : ((k.setProc p v).setFrame v.tf newFrame).procs p = v := Function.update_self ..
  unfold HasNewFrame
  rw [hself]
  exact Function.update_self ..

theorem createKernelHalf_frame (h : k.createKernelHalf p = .ok (true, k')) : HasNewFrame k' p := by
  unfold createKernelHalf at h
  rw [bind_eq_ok] at h
  obtain ⟨⟨pagetable, mm⟩, -, h⟩ := h
  dsimp only at h
  split at h
  · cases Except.ok.inj h
  · rw [bind_eq_ok] at h
    obtain ⟨⟨kstack, snub⟩, -, h⟩ := h
    dsimp only at h
    split at h
    · cases Except.ok.inj h
    · rw [bind_eq_ok] at h
      obtain ⟨⟨ok, k₃⟩, -, h⟩ := h
      dsimp only at h
      split at h
      · cases Except.ok.inj h
      · rw [bind_eq_ok] at h
        obtain ⟨⟨ok', k₄⟩, -, h⟩ := h
        dsimp only at h
        split at h
        · cases Except.ok.inj h
        · obtain ⟨-, rfl⟩ := Prod.mk.inj (Except.ok.inj h)
          exact hasNewFrame_set k₄ _

theorem framesOf_createUserStack {va : Nat} {r : Bool × Kernel}
    (h : k.createUserStack p va = .ok r) : r.2.framesOf = k.framesOf := by
  unfold createUserStack at h
  dsimp only at h
  rw [bind_eq_ok] at h
  obtain ⟨⟨ustack, mm⟩, -, h⟩ := h
  have h₁ : (k.setProc p { k.procs p with heapStart := alignUp va, heapEnd := alignUp va }).framesOf =
      k.framesOf := framesOf_setProc rfl
  generalize k.setProc p { k.procs p with heapStart := alignUp va, heapEnd := alignUp va } = k₁
    at h h₁
  have h₂ : ((k₁.setMm mm).setProc p { k₁.procs p with ustack := ustack }).framesOf = k.framesOf :=
    (framesOf_setProc (k := k₁.setMm mm) (v := { k₁.procs p with ustack := ustack }) rfl).trans h₁
  dsimp only at h
  split at h
  · obtain rfl := Except.ok.inj h
    exact h₂
  · exact (framesOf_of_bare (bare_mapPage h)).trans h₂

theorem framesOf_enqueue (h : k.enqueue p = .ok k') : k'.framesOf = k.framesOf := by
  unfold enqueue at h
  dsimp only at h
  rw [bind_eq_ok] at h
  obtain ⟨nodes, -, h⟩ := h
  obtain rfl := Except.ok.inj h
  exact framesOf_setState (k := k) .runnable

theorem fail1_zero {r : Nat × Kernel} (h : k.fail1 p = .ok r) : r.1 = 0 := by
  unfold fail1 at h
  rw [bind_eq_ok] at h
  obtain ⟨k₁, -, h⟩ := h
  obtain rfl := Except.ok.inj h
  rfl

/-- A process that `create_proc` returns has its frame. -/
theorem createProc_frame {binary size : Nat} (h : k.createProc binary size = .ok (p, k'))
    (hp : p ≠ 0) : HasNewFrame k' p := by
  unfold createProc at h
  rw [bind_eq_ok] at h
  obtain ⟨⟨q, k₀⟩, -, h⟩ := h
  dsimp only at h
  split at h
  · exact absurd (Prod.mk.inj (Except.ok.inj h)).1.symm hp
  · rw [bind_eq_ok] at h
    obtain ⟨⟨ok, k₁⟩, hhalf, h⟩ := h
    dsimp only at h
    split at h
    · exact absurd (fail1_zero h) hp
    · next hok =>
      obtain rfl : ok = true := by simpa using hok
      have h₁ := createKernelHalf_frame hhalf
      rw [bind_eq_ok] at h
      obtain ⟨⟨va, k₂⟩, hload, h⟩ := h
      have h₂ := framesOf_of_bare (bare_loadBinary hload)
      cases va with
      | none => exact absurd (fail1_zero h) hp
      | some va =>
          rw [bind_eq_ok] at h
          obtain ⟨⟨ok₃, k₃⟩, hstack, h⟩ := h
          have h₃ := (framesOf_createUserStack hstack).trans h₂
          dsimp only at h
          split at h
          · exact absurd (fail1_zero h) hp
          · rw [bind_eq_ok] at h
            obtain ⟨k₄, hshared, h⟩ := h
            have h₄ := (framesOf_of_bare (bare_createShared hshared)).trans h₃
            rw [bind_eq_ok] at h
            obtain ⟨k₅, hqueue, h⟩ := h
            obtain ⟨rfl, rfl⟩ := Prod.mk.inj (Except.ok.inj h)
            exact h₁.of_framesOf ((framesOf_enqueue hqueue).trans h₄)

/-- The shell, once `shell_init` has made it current, has the frame `create_proc` has written. -/
theorem shellInit_frame {binary size : Nat} (h : k.shellInit binary size = .ok k')
    (hp : k'.cpu.proc ≠ 0) : HasNewFrame k' k'.cpu.proc := by
  unfold shellInit makeCurrent at h
  rw [bind_eq_ok] at h
  obtain ⟨⟨shell, k₁⟩, hcreate, h⟩ := h
  rw [bind_eq_ok] at h
  obtain ⟨nodes, -, h⟩ := h
  obtain rfl := Except.ok.inj h
  have hcurr : ((k₁.setNodes nodes).setState shell .running).framesOf = k₁.framesOf :=
    framesOf_setState (k := k₁.setNodes nodes) .running
  refine (createProc_frame hcreate hp).of_framesOf ((framesOf_setProc ?_).trans hcurr)
  rfl

end Kernel

/-! ### From `timer_init` to the first `sret` -/

namespace FirstEntry

open Kernel

/-- A hart at the end of `timer_init`: it runs the kernel, and no trap has been taken. -/
structure AtTimerInit (m : Machine) : Prop where
  mode : m.mode = .supervisor
  pc : kernelStartVa ≤ m.pc.toNat
  sepc : m.csrs .sepc = 0

/-- A step of the kernel's own code, none of which writes `sepc`. -/
structure KernelStep (m m' : Machine) : Prop where
  mode : m'.mode = m.mode
  pc : kernelStartVa ≤ m'.pc.toNat
  sepc : m'.csrs .sepc = m.csrs .sepc

/-- Which of its calls `s_mode_main` has behind it. -/
inductive Stage where
  | timerInit
  | setupIdleProc
  | shellInit
  deriving DecidableEq, Repr

/-- The phase between `timer_init` and the `write_csr` of `jump_to_user_shell`, with the number of
timer interrupts taken so far. -/
inductive BootPhase (stack binary size : Nat) (k₀ : Kernel) (m₀ : Machine) :
    Nat → Stage → Kernel → Machine → Prop where
  | start : BootPhase stack binary size k₀ m₀ 0 .timerInit k₀ m₀
  | step {n : Nat} {stage : Stage} {k : Kernel} {m m' : Machine}
      (hrun : BootPhase stack binary size k₀ m₀ n stage k m) (hstep : KernelStep m m') :
      BootPhase stack binary size k₀ m₀ n stage k m'
  | idle {n : Nat} {k : Kernel} {m : Machine}
      (hrun : BootPhase stack binary size k₀ m₀ n .timerInit k m) :
      BootPhase stack binary size k₀ m₀ n .setupIdleProc (k.setupIdleProc stack) m
  | shell {n : Nat} {k k' : Kernel} {m : Machine}
      (hrun : BootPhase stack binary size k₀ m₀ n .setupIdleProc k m)
      (hshell : k.shellInit binary size = .ok k') :
      BootPhase stack binary size k₀ m₀ n .shellInit k' m
  /-- Interrupts are enabled, and `trap_vector` and `timer_handle` run to their end. -/
  | tick {n : Nat} {stage : Stage} {k k' : Kernel} {m m' : Machine} {handler : Machine → Machine}
      {stval stvec : Word} {clock : Nat → Nat}
      (hrun : BootPhase stack binary size k₀ m₀ n stage k m)
      (henabled : m.csrs .sstatus &&& sie ≠ 0) (hobeys : Obeys handler)
      (htrip : roundTrip handler (m.trap timerCause stval stvec) = some m')
      (htimer : k.timerHandle clock = .ok k') :
      BootPhase stack binary size k₀ m₀ (n + 1) stage k' m'

/-- `jump_to_user_shell`: the control registers it writes, its `mv sp` and its `sret`. -/
def enterShell (k : Kernel) (m : Machine) : Machine :=
  let hart := k.jumpToUserShell.hart
  let m := m.setCsr .sstatus (BitVec.ofNat 64 hart.sstatus)
  let m := m.setCsr .sscratch (BitVec.ofNat 64 hart.sscratch)
  (m.set sp (BitVec.ofNat 64 userStackTop)).sret

/-- The hart starts in user mode with the `sepc` and the `sp` of the frame `f`. -/
structure StartsAt (f : TrapFrame) (m : Machine) : Prop where
  mode : m.mode = .user
  pc : m.pc = BitVec.ofNat 64 f.sepc
  sp : m.get TrapVec.sp = BitVec.ofNat 64 (f.regs 2)

/-! ### What a trap leaves in `sepc` -/

theorem roundTrip_sepc {handler : Machine → Machine} {m m' : Machine}
    (h : roundTrip handler m = some m') : m'.csrs .sepc = m'.pc := by
  unfold roundTrip at h
  split at h
  · split at h
    · rename_i hrun
      obtain rfl := Option.some.inj h
      obtain ⟨t, rfl⟩ := exec_eq_sret hrun
      rfl
    · cases h
  · cases h

/-- `sepc` is 0 until the first interrupt, and a kernel address from then on. -/
structure SepcInv (n : Nat) (m : Machine) : Prop where
  mode : m.mode = .supervisor
  pc : kernelStartVa ≤ m.pc.toNat
  untouched : n = 0 → m.csrs .sepc = 0
  interrupted : n ≠ 0 → kernelStartVa ≤ (m.csrs .sepc).toNat

variable {stack binary size n : Nat} {stage : Stage} {k₀ k : Kernel} {m₀ m m' : Machine}

theorem SepcInv.tick {handler : Machine → Machine} {stval stvec : Word} (h : SepcInv n m)
    (hobeys : Obeys handler) (htrip : roundTrip handler (m.trap timerCause stval stvec) = some m') :
    SepcInv (n + 1) m' := by
  obtain ⟨m'', hrun, hpc, hmode, -⟩ := trap_resumed hobeys m timerCause stval stvec
  obtain rfl : m'' = m' := Option.some.inj (hrun.symm.trans htrip)
  have hkernel : kernelStartVa ≤ m''.pc.toNat := by
    rw [hpc]
    exact h.pc
  refine ⟨hmode.trans h.mode, hkernel, fun h0 => absurd h0 (Nat.succ_ne_zero n), fun _ => ?_⟩
  rw [roundTrip_sepc htrip]
  exact hkernel

theorem BootPhase.sepc (h : BootPhase stack binary size k₀ m₀ n stage k m) (hinit : AtTimerInit m₀) :
    SepcInv n m := by
  induction h with
  | start => exact ⟨hinit.mode, hinit.pc, fun _ => hinit.sepc, fun h0 => absurd rfl h0⟩
  | step hrun hstep ih =>
      exact ⟨hstep.mode.trans ih.mode, hstep.pc, fun h0 => hstep.sepc.trans (ih.untouched h0),
        fun h0 => hstep.sepc ▸ ih.interrupted h0⟩
  | idle hrun ih => exact ih
  | shell hrun hshell ih => exact ih
  | tick hrun henabled hobeys htrip htimer ih => exact ih.tick hobeys htrip

/-! ### The frame stays as it is -/

theorem proc_timerLoop {now fuel : Nat} {pos : Node} {needSched : Bool} {r : Bool × Kernel}
    (hk : timerLoop now fuel pos needSched k = .ok r) : r.2.cpu.proc = k.cpu.proc := by
  induction fuel generalizing k pos needSched with
  | zero => cases hk
  | succ fuel ih =>
      rw [timerLoop, bind_eq_ok] at hk
      obtain ⟨tmp, -, hk⟩ := hk
      split at hk
      · obtain rfl := Except.ok.inj hk
        rfl
      · rw [bind_eq_ok] at hk
        obtain ⟨p, -, hk⟩ := hk
        split at hk
        · rw [bind_eq_ok] at hk
          obtain ⟨k₁, hwake, hk⟩ := hk
          refine (ih hk).trans ?_
          rw [wake, bind_eq_ok] at hwake
          obtain ⟨nodes, -, hwake⟩ := hwake
          rw [bind_eq_ok] at hwake
          obtain ⟨nodes', -, hwake⟩ := hwake
          obtain rfl := Except.ok.inj hwake
          rfl
        · exact ih hk

theorem proc_wakeSleepers {now : Nat} {k' : Kernel} (hk : k.wakeSleepers now = .ok k') :
    k'.cpu.proc = k.cpu.proc := by
  rw [wakeSleepers, bind_eq_ok] at hk
  obtain ⟨first, -, hk⟩ := hk
  rw [bind_eq_ok] at hk
  obtain ⟨⟨needSched, k₁⟩, hloop, hk⟩ := hk
  have hk₁ := proc_timerLoop hloop
  obtain rfl := Except.ok.inj hk
  cases needSched with
  | true => exact hk₁
  | false => exact hk₁

theorem proc_writeStimecmp (v : Nat) : (k.writeStimecmp v).cpu.proc = k.cpu.proc := rfl

theorem proc_timerHandle {clock : Nat → Nat} {k' : Kernel} (hk : k.timerHandle clock = .ok k') :
    k'.cpu.proc = k.cpu.proc := by
  rw [timerHandle] at hk
  exact (proc_wakeSleepers hk).trans (proc_writeStimecmp _)

/-- The shell has its frame from `create_proc`. -/
theorem BootPhase.frame (h : BootPhase stack binary size k₀ m₀ n stage k m)
    (hstage : stage = .shellInit) (hp : k.cpu.proc ≠ 0) : HasNewFrame k k.cpu.proc := by
  induction h with
  | start => cases hstage
  | step hrun hstep ih => exact ih hstage hp
  | idle hrun ih => cases hstage
  | shell hrun hshell ih => exact shellInit_frame hshell hp
  | tick hrun henabled hobeys htrip htimer ih =>
      have hframes := framesOf_timerHandle htimer
      have hproc := proc_timerHandle htimer
      rw [hproc] at hp ⊢
      exact (ih hstage hp).of_framesOf hframes

theorem enterShell_user (k : Kernel) (m : Machine) : (enterShell k m).mode = .user := by
  have hsstatus : k.jumpToUserShell.hart.sstatus =
      ((sstatusSpie &&& (2 ^ 64 - 1 - sstatusSpp)) ||| sstatusSum) &&& (2 ^ 64 - 1 - sstatusSum) := rfl
  have hmode : (enterShell k m).mode =
      modeOf (BitVec.ofNat 64 k.jumpToUserShell.hart.sstatus) := rfl
  rw [hmode, hsstatus]
  decide

/-- **The first entry**, exactly: the shell starts where its frame says if and only if no timer
interrupt has been taken. -/
theorem firstEntry_iff (hrun : BootPhase stack binary size k₀ m₀ n .shellInit k m)
    (hinit : AtTimerInit m₀) (hshell : k.cpu.proc ≠ 0) :
    StartsAt (k.frames (k.procs k.cpu.proc).tf) (enterShell k m) ↔ n = 0 := by
  have hinv := hrun.sepc hinit
  rw [show k.frames (k.procs k.cpu.proc).tf = newFrame from hrun.frame rfl hshell]
  have hpc : (enterShell k m).pc = m.csrs .sepc := rfl
  constructor
  · intro hstart
    by_contra hn
    have hsepc : m.csrs .sepc = 0 := hpc.symm.trans hstart.pc
    have := hinv.interrupted hn
    rw [hsepc] at this
    exact absurd this (by decide)
  · intro hn
    exact ⟨enterShell_user k m, hpc.trans (hinv.untouched hn), rfl⟩

/-! ### One tick -/

/-- The hart behind `timer_init`, in the middle of `s_mode_main`. -/
def bootContext : Machine where
  regs _ := 0#64
  csrs c := if c = .sstatus then sie else 0#64
  mem _ := 0#64
  mode := .supervisor
  pc := 0xffffffff80000100#64

theorem bootContext_atTimerInit : AtTimerInit bootContext := ⟨rfl, by decide, rfl⟩

theorem makeCurrent_ok {shell : Nat} (hr : Rings.IsRing k.nodes .runQueue [.qNode shell]) :
    ∃ k', k.makeCurrent shell = .ok k' ∧ k'.cpu.proc = shell := by
  obtain ⟨nodes, hdel, -⟩ := listDel_ring (show Rings.IsRing _ _ ([] ++ Node.qNode shell :: []) from hr)
  let k₁ := (k.setNodes nodes).setState shell .running
  refine ⟨(k₁.setProc shell { k₁.procs shell with boundCpu := 0 }).setCurr shell, ?_, rfl⟩
  simp only [makeCurrent, hdel, ok_bind, pure, Except.pure, k₁]

/-- Nobody sleeps yet. -/
theorem wakeSleepers_initQueues (v now : Nat) :
    (k.initQueues.writeStimecmp v).wakeSleepers now = .ok (k.initQueues.writeStimecmp v) := rfl

/-- A kernel in which the shell can be created, whatever the timer is set to. -/
theorem exists_shellInit :
    ∃ kp S, ∀ v, ∃ k, (((bootedKernel kp S).initQueues.writeStimecmp v).setupIdleProc 0).shellInit
      0xffffffff80001000 100 = .ok k ∧ k.cpu.proc ≠ 0 := by
  obtain ⟨kp, S, hS, hfree⟩ := exists_boot_smallLayout
  refine ⟨kp, S, fun v => ?_⟩
  obtain ⟨k₁, hk₁⟩ : ∃ k₁, k₁ = ((bootedKernel kp S).initQueues.writeStimecmp v).setupIdleProc 0 :=
    ⟨_, rfl⟩
  have hS₁ : mmInit Mm.smallLayout (fun _ => 0) = .ok (k₁.kernelPagetable, k₁.snub) := by
    rw [hk₁]
    exact hS
  have hfree₁ : 47 < Mm.freeCount k₁.mm := by
    rw [hk₁]
    exact Nat.lt_of_lt_of_le (by decide) hfree
  have hring : Rings.IsRing k₁.nodes .runQueue [] := by
    rw [hk₁]
    exact (setupIdleProc_spec (k := (bootedKernel kp S).writeStimecmp v) 0).1.run
  obtain ⟨p, k₂, hcreate, hp, hring₂⟩ := booted_create hS₁ hfree₁ (by rw [hk₁]; rfl) hring
  obtain ⟨k, hcur, hproc⟩ := makeCurrent_ok hring₂
  rw [← hk₁]
  refine ⟨k, ?_, by rw [hproc]; exact hp⟩
  rw [shellInit, hcreate, ok_bind]
  exact hcur

theorem firstEntry_iff_bootContext :
    ∃ k₀ k, BootPhase 0 0xffffffff80001000 100 k₀ bootContext 0 .shellInit k bootContext ∧
      (StartsAt (k.frames (k.procs k.cpu.proc).tf) (enterShell k bootContext) ↔ 0 = 0) := by
  obtain ⟨kp, S, hall⟩ := exists_shellInit
  obtain ⟨k, hshell, hp⟩ := hall 0
  have hrun : BootPhase 0 0xffffffff80001000 100 _ bootContext 0 .shellInit k bootContext :=
    .shell (.idle .start) hshell
  exact ⟨_, k, hrun, firstEntry_iff hrun bootContext_atTimerInit hp⟩

/-- With one timer interrupt the shell starts at the address the kernel was interrupted at. -/
theorem firstEntry_interrupted :
    ∃ k₀ k m, BootPhase 0 0xffffffff80001000 100 k₀ bootContext 1 .shellInit k m ∧
      (enterShell k m).pc = 0xffffffff80000100#64 ∧
      ¬StartsAt (k.frames (k.procs k.cpu.proc).tf) (enterShell k m) := by
  obtain ⟨kp, S, hall⟩ := exists_shellInit
  obtain ⟨k, hshell, hp⟩ := hall (u64 (0 + timerInterval))
  obtain ⟨m, htrip, hpc, -⟩ := trap_resumed clobber_obeys bootContext timerCause 0 0
  have htick : BootPhase 0 0xffffffff80001000 100 (bootedKernel kp S).initQueues bootContext 1
      .timerInit ((bootedKernel kp S).initQueues.writeStimecmp (u64 (0 + timerInterval))) m := by
    have htimer : (bootedKernel kp S).initQueues.timerHandle (fun _ => 0) =
        .ok ((bootedKernel kp S).initQueues.writeStimecmp (u64 (0 + timerInterval))) := by
      rw [timerHandle]
      exact wakeSleepers_initQueues _ 0
    exact .tick .start (by decide) clobber_obeys htrip htimer
  have hrun := BootPhase.shell (.idle htick) hshell
  have hentry : (enterShell k m).pc = 0xffffffff80000100#64 := (roundTrip_sepc htrip).trans hpc
  refine ⟨_, k, m, hrun, hentry, fun hstart => ?_⟩
  have hframe : k.frames (k.procs k.cpu.proc).tf = newFrame := hrun.frame rfl hp
  have hzero := hentry.symm.trans hstart.pc
  rw [hframe] at hzero
  exact absurd hzero (by decide)

end FirstEntry

end SystemN
