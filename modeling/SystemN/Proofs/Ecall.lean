/-
Which traps are system calls, and on which frame.

`trap_handler` is given a frame, but `syscall_handler` takes the number and the arguments
from `p->tf` and leaves the result there.  The two are the same for a trap from user mode;
for one from supervisor mode the frame is on the kernel stack.  And `switch (code)` has
lost the interrupt bit, which only the case of the timer looks at again.

So a trap that is handled as a system call is an `ecall`, served on its own frame, if and
only if its cause is no interrupt and its frame is `p->tf`.
-/
import SystemN.Proofs.SchedLive

namespace SystemN.Kernel

variable {k k' : Kernel} {p q : Nat} {clock : Nat → Nat}

/-! ### Who writes frames -/

/-- The frames, and which of them is whose. -/
def framesOf (k : Kernel) : (Nat → TrapFrame) × (Nat → Nat) := (k.frames, fun q => (k.procs q).tf)

theorem framesOf_setProc {v : Proc} (h : v.tf = (k.procs p).tf) :
    (k.setProc p v).framesOf = k.framesOf := by
  unfold framesOf
  rw [field_setProc Proc.tf, h]
  exact congrArg _ (Function.update_eq_self ..)

theorem framesOf_setState (st : ProcState) : (k.setState p st).framesOf = k.framesOf :=
  framesOf_setProc rfl

theorem framesOf_of_bare (h : k'.bare = k.bare) : k'.framesOf = k.framesOf := by
  have := congrArg framesOf h
  exact this

theorem framesOf_sysSleepMs {ms : Nat} {r : Nat × Kernel} (h : k.sysSleepMs p ms clock = .ok r) :
    r.2.framesOf = k.framesOf := by
  unfold sysSleepMs at h
  split at h
  · obtain rfl := Except.ok.inj h
    rfl
  · rw [bind_eq_ok] at h
    obtain ⟨nodes, -, h⟩ := h
    obtain rfl := Except.ok.inj h
    refine (framesOf_setProc (k := (k.setState p .sleeping).setNodes nodes) ?_).trans ?_
    · rfl
    · exact framesOf_setState (k := k) .sleeping

/-- What a system call of `p` leaves: the frames are as before, but for the result in `p->tf`. -/
structure Answered (k : Kernel) (p : Nat) (k' : Kernel) : Prop where
  owner : ∀ q, (k'.procs q).tf = (k.procs q).tf
  others : ∀ a, a ≠ (k.procs p).tf → k'.frames a = k.frames a
  sepc : (k'.frames (k.procs p).tf).sepc = (k.frames (k.procs p).tf).sepc

theorem Answered.of_framesOf (h : k'.framesOf = k.framesOf) : Answered k p k' := by
  have hframes : k'.frames = k.frames := congrArg Prod.fst h
  have howner : ∀ q, (k'.procs q).tf = (k.procs q).tf := congrFun (congrArg Prod.snd h)
  exact ⟨howner, fun a _ => congrFun hframes a, congrArg TrapFrame.sepc (congrFun hframes _)⟩

theorem Answered.setA0 (h : k'.framesOf = k.framesOf) (v : Nat) : Answered k p (k'.setA0 p v) := by
  have hframes : k'.frames = k.frames := congrArg Prod.fst h
  have howner : ∀ q, (k'.procs q).tf = (k.procs q).tf := congrFun (congrArg Prod.snd h)
  refine ⟨howner, fun a ha => ?_, ?_⟩
  · rw [← howner p] at ha
    exact (Function.update_of_ne ha ..).trans (congrFun hframes a)
  · rw [← howner p, ← hframes]
    have hself : (k'.setA0 p v).frames (k'.procs p).tf = { k'.frames (k'.procs p).tf with
        regs := Function.update (k'.frames (k'.procs p).tf).regs 10 v } := Function.update_self ..
    rw [hself]

theorem syscallHandler_answered (hk : k.syscallHandler p clock = .ok k') : Answered k p k' := by
  unfold syscallHandler at hk
  split at hk
  · rw [bind_eq_ok] at hk
    obtain ⟨⟨r, k₁⟩, hcall, hk⟩ := hk
    obtain rfl := Except.ok.inj hk
    exact .setA0 (framesOf_of_bare (bare_sysWrite hcall)) r
  · rw [bind_eq_ok] at hk
    obtain ⟨⟨r, k₁⟩, hcall, hk⟩ := hk
    obtain rfl := Except.ok.inj hk
    exact .setA0 (framesOf_of_bare (bare_sysRead hcall)) r
  · obtain rfl := Except.ok.inj hk
    exact .of_framesOf (framesOf_setState (k := k) .zombie)
  · obtain rfl := Except.ok.inj hk
    exact .setA0 rfl _
  · obtain rfl := Except.ok.inj hk
    exact .of_framesOf rfl
  · rw [bind_eq_ok] at hk
    obtain ⟨⟨r, k₁⟩, hcall, hk⟩ := hk
    obtain rfl := Except.ok.inj hk
    have := Answered.setA0 (p := p) (framesOf_sysSleepMs hcall) r
    exact ⟨this.owner, this.others, this.sepc⟩
  · rw [bind_eq_ok] at hk
    obtain ⟨⟨r, k₁⟩, hcall, hk⟩ := hk
    obtain rfl := Except.ok.inj hk
    exact .setA0 (framesOf_of_bare (bare_sysSbrk hcall)) r
  · rw [bind_eq_ok] at hk
    obtain ⟨⟨r, k₁⟩, hcall, hk⟩ := hk
    obtain rfl := Except.ok.inj hk
    exact .setA0 (framesOf_of_bare (bare_sysMunmap hcall)) r
  · obtain rfl := Except.ok.inj hk
    exact .setA0 rfl _

/-! ### The scheduler writes none -/

theorem framesOf_swtch (old new : Nat) : (k.swtch old new).framesOf = k.framesOf :=
  framesOf_setProc (k := k) rfl

theorem framesOf_dispatch (old new : Nat) : (k.dispatch old new).framesOf = k.framesOf :=
  framesOf_swtch old new

theorem framesOf_runIdle (old : Nat) : (k.runIdle old).framesOf = k.framesOf := by
  unfold runIdle
  rw [framesOf_swtch]
  exact framesOf_setProc (k := k.setCurr k.idleProc) rfl

theorem framesOf_requeue {old : Nat} (hk : k.requeue old = .ok k') : k'.framesOf = k.framesOf := by
  rcases requeue_cases hk with ⟨-, rfl⟩ | ⟨-, nodes, -, rfl⟩
  · rfl
  · exact framesOf_setState (k := k) .runnable

theorem framesOf_schedule (hk : k.schedule = .ok k') : k'.framesOf = k.framesOf := by
  rcases schedule_cases hk with ⟨q, nodes, k₁, -, -, hre, rfl⟩ | ⟨-, rfl⟩ | ⟨-, rfl⟩
  · rw [framesOf_dispatch, framesOf_requeue hre]
    exact framesOf_setState (k := k.setNodes nodes) .running
  · exact framesOf_runIdle k.cpu.proc
  · rfl

theorem framesOf_trapEnd (hk : k.trapEnd = .ok k') : k'.framesOf = k.framesOf := by
  unfold trapEnd at hk
  split at hk
  · exact framesOf_schedule (k := k.setNeedsSched false) hk
  · obtain rfl := Except.ok.inj hk
    rfl

theorem framesOf_wake (hk : k.wake p = .ok k') : k'.framesOf = k.framesOf := by
  unfold wake at hk
  rw [bind_eq_ok] at hk
  obtain ⟨nodes, -, hk⟩ := hk
  rw [bind_eq_ok] at hk
  obtain ⟨nodes', -, hk⟩ := hk
  obtain rfl := Except.ok.inj hk
  exact framesOf_setState (k := k.setNodes nodes) .runnable

theorem framesOf_timerLoop {now fuel : Nat} {pos : Node} {needSched : Bool} {r : Bool × Kernel}
    (hk : timerLoop now fuel pos needSched k = .ok r) : r.2.framesOf = k.framesOf := by
  induction fuel generalizing k pos needSched with
  | zero => cases hk
  | succ fuel ih =>
      rw [timerLoop, bind_eq_ok] at hk
      obtain ⟨tmp, -, hk⟩ := hk
      split at hk
      · obtain rfl := Except.ok.inj hk
        rfl
      · rw [bind_eq_ok] at hk
        obtain ⟨p, -, hk⟩ := hk
        split at hk
        · rw [bind_eq_ok] at hk
          obtain ⟨k₁, hwake, hk⟩ := hk
          exact (ih hk).trans (framesOf_wake hwake)
        · exact ih hk

theorem framesOf_wakeSleepers {now : Nat} (hk : k.wakeSleepers now = .ok k') :
    k'.framesOf = k.framesOf := by
  rw [wakeSleepers, bind_eq_ok] at hk
  obtain ⟨first, -, hk⟩ := hk
  rw [bind_eq_ok] at hk
  obtain ⟨⟨needSched, k₁⟩, hloop, hk⟩ := hk
  have hk₁ := framesOf_timerLoop hloop
  obtain rfl := Except.ok.inj hk
  cases needSched with
  | true => exact hk₁
  | false => exact hk₁

theorem framesOf_writeStimecmp (v : Nat) : (k.writeStimecmp v).framesOf = k.framesOf := rfl

theorem framesOf_timerHandle (hk : k.timerHandle clock = .ok k') : k'.framesOf = k.framesOf := by
  rw [timerHandle] at hk
  exact (framesOf_wakeSleepers hk).trans (framesOf_writeStimecmp _)

/-! ### A system call on its own frame -/

/-- An environment call, by its cause: no interrupt, with one of the two codes. -/
def EcallCause (scause : Nat) : Prop :=
  isIrq scause = false ∧
    (scauseCode scause = scauseUserEcall ∨ scauseCode scause = scauseSupervisorEcall)

/-- The kernel in which `p->tf` is `tf`. -/
def withTf (k : Kernel) (p tf : Nat) : Kernel := k.setProc p { k.procs p with tf := tf }

/-- A trap that is served as a system call on the frame `tf`, whatever `p->tf` is. -/
def serveOwn (k : Kernel) (tf : Nat) (clock : Nat → Nat) : Except Stop Kernel := do
  let p := k.cpu.proc
  let k' ← (k.withTf p tf).ecall tf p clock
  (k'.withTf p (k.procs p).tf).trapEnd

/-- The trap with the cause `c` and the frame `tf`, of a process whose `p->tf` is `ptf`. -/
structure TrapOf (k : Kernel) (c tf ptf : Nat) : Prop where
  scause : k.hart.scause = c
  /-- `trap_vector` saves the cause. -/
  saved : (k.frames tf).scause = c
  current : k.cpu.proc ≠ 0
  notIdle : (k.procs k.cpu.proc).isIdle = false
  owned : (k.procs k.cpu.proc).tf = ptf

/-- Only an `ecall` is a system call, on its own frame; what returns from another trap is the
timer, and the frames are as before. -/
structure OwnFrame (k : Kernel) (tf : Nat) (clock : Nat → Nat) : Prop where
  serves : EcallCause k.hart.scause → k.trapHandler tf clock = k.serveOwn tf clock
  steps : EcallCause k.hart.scause → ∀ k', k.trapHandler tf clock = .ok k' →
    (k'.frames tf).sepc = u64 ((k.frames tf).sepc + 4) ∧ ∀ a, a ≠ tf → k'.frames a = k.frames a
  others : ¬EcallCause k.hart.scause → ∀ k', k.trapHandler tf clock = .ok k' →
    (k.timerHandle clock >>= trapEnd) = .ok k' ∧ k'.frames = k.frames

theorem withTf_self : k.withTf p (k.procs p).tf = k := by
  have : Function.update k.procs p (k.procs p) = k.procs := Function.update_eq_self ..
  unfold withTf setProc
  rw [this]

/-- What is left of `trap_handler` for a process that is not idle. -/
theorem TrapOf.trapHandler {c tf ptf : Nat} (h : TrapOf k c tf ptf) (clock : Nat → Nat) :
    k.trapHandler tf clock =
      if scauseCode c = 5 ∧ !isIrq c then .error .halt else k.switchCode tf k.cpu.proc clock >>= trapEnd := by
  unfold Kernel.trapHandler
  simp only [h.saved, h.notIdle, h.current, Bool.false_eq_true, and_false, if_false]

/-- The code of an `ecall` leads to the system calls. -/
theorem TrapOf.ecall {c tf ptf : Nat} (h : TrapOf k c tf ptf)
    (hcode : scauseCode c = scauseUserEcall ∨ scauseCode c = scauseSupervisorEcall)
    (clock : Nat → Nat) :
    k.trapHandler tf clock = k.ecall tf k.cpu.proc clock >>= trapEnd := by
  have hne : ¬(scauseCode c = 5 ∧ !isIrq c) := by
    rintro ⟨h5, -⟩
    rw [h5] at hcode
    exact absurd hcode (by decide)
  rw [h.trapHandler, if_neg hne, switchCode, h.scause]
  rcases hcode with hcode | hcode
  · rw [hcode]
    rfl
  · rw [hcode]
    rfl

/-- Of the other codes, none but that of the timer returns. -/
theorem TrapOf.timer {c tf ptf : Nat} (h : TrapOf k c tf ptf)
    (hcode : ¬(scauseCode c = scauseUserEcall ∨ scauseCode c = scauseSupervisorEcall))
    (hk : k.trapHandler tf clock = .ok k') : (k.timerHandle clock >>= trapEnd) = .ok k' := by
  rw [h.trapHandler] at hk
  split at hk
  · cases hk
  · rename_i hirq
    rw [bind_eq_ok] at hk
    obtain ⟨k₁, hswitch, hend⟩ := hk
    unfold switchCode at hswitch
    rw [h.scause] at hswitch
    split at hswitch
    · rename_i hc
      exact absurd (Or.inl hc) hcode
    · rename_i hc
      exact absurd (Or.inr hc) hcode
    · rename_i hc
      have hset : isIrq c = true := by
        by_contra hclear
        exact hirq ⟨hc, by simpa using hclear⟩
      rw [if_pos hset] at hswitch
      rw [bind_eq_ok]
      exact ⟨k₁, hswitch, hend⟩
    · cases hswitch
    · cases hswitch
    · cases hswitch

theorem framesOf_timer_trapEnd (hk : (k.timerHandle clock >>= trapEnd) = .ok k') :
    k'.frames = k.frames := by
  rw [bind_eq_ok] at hk
  obtain ⟨k₁, htimer, hend⟩ := hk
  exact congrArg Prod.fst ((framesOf_trapEnd hend).trans (framesOf_timerHandle htimer))

/-- The frames after an `ecall` on `p->tf`. -/
theorem ecall_frames {tf : Nat} (htf : (k.procs p).tf = tf) (hk : k.ecall tf p clock = .ok k') :
    (k'.frames tf).sepc = u64 ((k.frames tf).sepc + 4) ∧ (k'.procs p).tf = tf ∧
      ∀ a, a ≠ tf → k'.frames a = k.frames a := by
  let k₁ := k.setFrame tf { k.frames tf with sepc := u64 ((k.frames tf).sepc + 4) }
  have hself : k₁.frames tf = { k.frames tf with sepc := u64 ((k.frames tf).sepc + 4) } :=
    Function.update_self ..
  have hown : (k₁.procs p).tf = tf := htf
  have h : Answered k₁ p k' := syscallHandler_answered hk
  obtain ⟨howner, hothers, hsepc⟩ := h
  rw [hown] at hothers hsepc
  refine ⟨hsepc.trans (congrArg TrapFrame.sepc hself), (howner p).trans hown, fun a ha => ?_⟩
  exact (hothers a ha).trans (Function.update_of_ne ha ..)

theorem ownFrame_of_user {c tf : Nat} (h : TrapOf k c tf tf)
    (hirq : scauseCode c = scauseUserEcall ∨ scauseCode c = scauseSupervisorEcall → isIrq c = false)
    (clock : Nat → Nat) : OwnFrame k tf clock := by
  refine ⟨fun hcall => ?_, fun hcall k' hk => ?_, fun hno k' hk => ?_⟩
  · rw [h.scause] at hcall
    have hself : k.withTf k.cpu.proc tf = k := by
      have := withTf_self (k := k) (p := k.cpu.proc)
      rwa [h.owned] at this
    rw [h.ecall hcall.2, serveOwn, hself, h.owned]
    cases hk : k.ecall tf k.cpu.proc clock with
    | error e => rfl
    | ok k' =>
        have hown := (ecall_frames h.owned hk).2.1
        have hself' : k'.withTf k.cpu.proc tf = k' := by
          have := withTf_self (k := k') (p := k.cpu.proc)
          rwa [hown] at this
        rw [ok_bind, ok_bind, hself']
  · rw [h.scause] at hcall
    rw [h.ecall hcall.2, bind_eq_ok] at hk
    obtain ⟨k₁, hserve, hend⟩ := hk
    obtain ⟨hsepc, -, hothers⟩ := ecall_frames h.owned hserve
    have hframes : k'.frames = k₁.frames := congrArg Prod.fst (framesOf_trapEnd hend)
    rw [hframes]
    exact ⟨hsepc, hothers⟩
  · rw [h.scause] at hno
    have htimer := h.timer (fun hcode => hno ⟨hirq hcode, hcode⟩) hk
    exact ⟨htimer, framesOf_timer_trapEnd htimer⟩

/-! ### Two frames -/

/-- The process at 1, with its frame at `ptf`, traps with the cause `c`; all registers are zero. -/
def zeroTrap (c ptf : Nat) : Kernel :=
  { twoProcs with
    procs := fun _ => { Proc.zero with tf := ptf }
    frames := fun _ => { TrapFrame.zero with scause := c }
    cpu := ⟨0, false, 1⟩
    hart := { twoProcs.hart with scause := c } }

theorem zeroTrap_of (c tf ptf : Nat) : TrapOf (zeroTrap c ptf) c tf ptf :=
  ⟨rfl, rfl, Nat.one_ne_zero, rfl, rfl⟩

/-- System call 0 does not exist: -1 goes to the frame of the process, the new `sepc` to the other. -/
theorem zeroTrap_run {c : Nat} (clock : Nat → Nat) (tf ptf : Nat)
    (hcode : scauseCode c = scauseUserEcall ∨ scauseCode c = scauseSupervisorEcall) :
    ∃ k', (zeroTrap c ptf).trapHandler tf clock = .ok k' ∧ (k'.frames tf).sepc = 4 ∧
      (k'.frames ptf).regs 10 = minusOne := by
  let f : TrapFrame := { TrapFrame.zero with sepc := 4, scause := c }
  let k₁ := (zeroTrap c ptf).setFrame tf f
  have hself : k₁.frames tf = f := Function.update_self ..
  have hnum : k₁.reg 1 17 % 2 ^ 32 = 0 := by
    unfold reg
    by_cases h : ptf = tf
    · rw [show (k₁.procs 1).tf = tf from h, hself]
      rfl
    · rw [show k₁.frames (k₁.procs 1).tf = _ from Function.update_of_ne h ..]
      rfl
  have hcall : (zeroTrap c ptf).ecall tf 1 clock = .ok (k₁.setA0 1 minusOne) := by
    have : k₁.syscallHandler 1 clock = .ok (k₁.setA0 1 minusOne) := by
      rw [syscallHandler, hnum]
      rfl
    exact this
  refine ⟨k₁.setA0 1 minusOne, ?_, ?_, ?_⟩
  · rw [(zeroTrap_of c tf ptf).ecall hcode]
    change (zeroTrap c ptf).ecall tf 1 clock >>= trapEnd = _
    rw [hcall]
    rfl
  · have hans : Answered k₁ 1 (k₁.setA0 1 minusOne) := .setA0 rfl minusOne
    by_cases h : tf = ptf
    · subst h
      exact hans.sepc.trans (congrArg TrapFrame.sepc hself)
    · exact (congrArg TrapFrame.sepc (hans.others tf h)).trans (congrArg TrapFrame.sepc hself)
  · have hresult : (k₁.setA0 1 minusOne).frames ptf = { k₁.frames ptf with
        regs := Function.update (k₁.frames ptf).regs 10 minusOne } := Function.update_self ..
    rw [hresult]
    exact Function.update_self (10 : Nat) minusOne (k₁.frames ptf).regs

/-- **Only an `ecall` is a system call, on its own frame**: exactly for the traps that do not have
the code of one, and for those that are no interrupt and have the frame of their process. -/
theorem trapHandler_ownFrame_iff (c tf ptf : Nat) :
    (∀ (k : Kernel) (clock : Nat → Nat), TrapOf k c tf ptf → OwnFrame k tf clock) ↔
      (scauseCode c = scauseUserEcall ∨ scauseCode c = scauseSupervisorEcall →
        isIrq c = false ∧ tf = ptf) := by
  constructor
  · intro hall hcode
    obtain ⟨k', hrun, hsepc, hresult⟩ := zeroTrap_run (fun _ => 0) tf ptf hcode
    have h := hall (zeroTrap c ptf) (fun _ => 0) (zeroTrap_of c tf ptf)
    have hirq : isIrq c = false := by
      by_contra hset
      have hframes := (h.others (fun hcall => hset hcall.1) k' hrun).2
      rw [hframes] at hsepc
      exact absurd hsepc (by simp [zeroTrap, TrapFrame.zero])
    refine ⟨hirq, ?_⟩
    by_contra hne
    have hsame := (h.steps ⟨hirq, hcode⟩ k' hrun).2 ptf (Ne.symm hne)
    rw [hsame] at hresult
    exact absurd hresult (by simp [zeroTrap, TrapFrame.zero])
  · intro hcond k clock hk
    by_cases hcode : scauseCode c = scauseUserEcall ∨ scauseCode c = scauseSupervisorEcall
    · obtain ⟨hirq, rfl⟩ := hcond hcode
      exact ownFrame_of_user hk (fun _ => hirq) clock
    · have hno : ¬EcallCause k.hart.scause := by
        rw [hk.scause]
        exact fun hcall => hcode hcall.2
      refine ⟨fun hcall => absurd hcall hno, fun hcall => absurd hcall hno, fun _ k' hrun => ?_⟩
      have htimer := hk.timer hcode hrun
      exact ⟨htimer, framesOf_timer_trapEnd htimer⟩

/-- An `ecall` of the kernel, with its frame on the stack, has its result put into `p->tf`, and the
interrupt with the code of an `ecall` is taken for one. -/
theorem ownFrame_violated :
    (∃ k', (zeroTrap 9 0x3000).trapHandler 0x2000 (fun _ => 0) = .ok k' ∧
        (k'.frames 0x3000).regs 10 = minusOne ∧ ¬OwnFrame (zeroTrap 9 0x3000) 0x2000 fun _ => 0) ∧
      ∃ k', (zeroTrap (2 ^ 63 + 8) 0x2000).trapHandler 0x2000 (fun _ => 0) = .ok k' ∧
        (k'.frames 0x2000).sepc = 4 ∧
          ¬OwnFrame (zeroTrap (2 ^ 63 + 8) 0x2000) 0x2000 fun _ => 0 := by
  constructor
  · obtain ⟨k', hrun, -, hresult⟩ := zeroTrap_run (c := 9) (fun _ => 0) 0x2000 0x3000
      (Or.inr rfl)
    refine ⟨k', hrun, hresult, fun h => ?_⟩
    have hsame := (h.steps ⟨rfl, Or.inr rfl⟩ k' hrun).2 0x3000 (by decide)
    rw [hsame] at hresult
    exact absurd hresult (by simp [zeroTrap, TrapFrame.zero])
  · obtain ⟨k', hrun, hsepc, -⟩ := zeroTrap_run (c := 2 ^ 63 + 8) (fun _ => 0) 0x2000 0x2000
      (Or.inl rfl)
    refine ⟨k', hrun, hsepc, fun h => ?_⟩
    have hno : ¬EcallCause (2 ^ 63 + 8) := fun hcall => absurd hcall.1 (by decide)
    have hframes := (h.others hno k' hrun).2
    rw [hframes] at hsepc
    exact absurd hsepc (by simp [zeroTrap, TrapFrame.zero])

end SystemN.Kernel
