/-
The trap handler, `trap/trap.c`.
-/
import SystemN.Syscall

namespace SystemN

/-! ### `user_syscall.h` -/

@[match_pattern, simp] abbrev SYS_write : Nat := 1
@[match_pattern, simp] abbrev SYS_exit : Nat := 2
@[match_pattern, simp] abbrev SYS_getpid : Nat := 3
@[match_pattern, simp] abbrev SYS_yield : Nat := 4
@[match_pattern, simp] abbrev SYS_read : Nat := 5
@[match_pattern, simp] abbrev SYS_sleep_ms : Nat := 6
@[match_pattern, simp] abbrev SYS_sbrk : Nat := 7
@[match_pattern, simp] abbrev SYS_munmap : Nat := 8

namespace Kernel

/-- `p->tf->regs[i]`. -/
def reg (k : Kernel) (p i : Nat) : Nat := (k.frames (k.procs p).tf).regs i

/-- `p->tf->regs[10] = v`. -/
def setA0 (k : Kernel) (p v : Nat) : Kernel :=
  let f := k.frames (k.procs p).tf
  k.setFrame (k.procs p).tf { f with regs := Function.update f.regs 10 v }

/-- `syscall_handler`; the number is an `int`. -/
def syscallHandler (k : Kernel) (p : Nat) (clock : Nat → Nat) : Except Stop Kernel :=
  match k.reg p 17 % 2 ^ 32 with
  | SYS_write => do
      let (r, k) ← k.sysWrite (k.reg p 10) (k.reg p 11) (k.reg p 12)
      pure (k.setA0 p r)
  | SYS_read => do
      let (r, k) ← k.sysRead (k.reg p 10) (k.reg p 11) (k.reg p 12)
      pure (k.setA0 p r)
  | SYS_exit => pure ((k.setState p .zombie).setNeedsSched true)
  | SYS_getpid => pure (k.setA0 p (sext32 (k.procs p).pid))
  | SYS_yield => pure (k.setNeedsSched true)
  | SYS_sleep_ms => do
      let (r, k) ← k.sysSleepMs p (k.reg p 10) clock
      pure ((k.setA0 p r).setNeedsSched true)
  | SYS_sbrk => do
      let (r, k) ← k.sysSbrk p (k.reg p 10)
      pure (k.setA0 p r)
  | SYS_munmap => do
      let (r, k) ← k.sysMunmap p (k.reg p 10) (k.reg p 11)
      pure (k.setA0 p r)
  | _ => pure (k.setA0 p minusOne)

/-- A timer interrupt, by its cause. -/
def isTimer (cause : Nat) : Bool := isIrq cause && scauseCode cause == scauseTimerInterrupt

/-- `end:` of `trap_handler`. -/
def trapEnd (k : Kernel) : Except Stop Kernel :=
  if k.cpu.needsSched then (k.setNeedsSched false).schedule else pure k

/-- An `ecall`: step over the instruction and serve it. -/
def ecall (k : Kernel) (tf p : Nat) (clock : Nat → Nat) : Except Stop Kernel :=
  let f := k.frames tf
  (k.setFrame tf { f with sepc := u64 (f.sepc + 4) }).syscallHandler p clock

/-- The `switch (code)` of `trap_handler`. -/
def switchCode (k : Kernel) (tf p : Nat) (clock : Nat → Nat) : Except Stop Kernel :=
  match scauseCode k.hart.scause with
  | scauseUserEcall => k.ecall tf p clock
  | scauseSupervisorEcall => k.ecall tf p clock
  | scauseTimerInterrupt => if isIrq k.hart.scause then k.timerHandle clock else pure k
  | scauseSupervisorIrq => .error .halt
  | scauseIllegalInstr => .error .halt
  | _ => .error .halt

/-- `trap_handler`. -/
def trapHandler (k : Kernel) (tf : Nat) (clock : Nat → Nat) : Except Stop Kernel := do
  let p := k.cpu.proc
  let cause := k.hart.scause
  if p ≠ 0 ∧ (k.procs p).isIdle then
    if isTimer cause then do
      let k ← k.timerHandle clock
      k.trapEnd
    else .error .halt
  else if scauseCode (k.frames tf).scause = 5 ∧ !isIrq (k.frames tf).scause then .error .halt
  else if p = 0 then
    if isTimer cause then k.timerHandle clock else .error .halt
  else do
    let k ← k.switchCode tf p clock
    k.trapEnd

end Kernel

/-- One trap, as the hardware and `trap_vector` hand it to `trap_handler`. -/
structure Trap where
  /-- The address passed in `a0`. -/
  tf : Nat
  /-- The registers saved there. -/
  frame : TrapFrame
  /-- The control register. -/
  scause : Nat
  /-- What the reads of the clock return. -/
  clock : Nat → Nat

namespace Kernel

/-- The state in which `trap_handler` is called. -/
def trapEntry (k : Kernel) (t : Trap) : Kernel :=
  let k := k.setFrame t.tf t.frame
  { k with hart := { k.hart with scause := t.scause } }

/-- A trap, from the interrupted context to the context the hart goes on in. -/
def takeTrap (k : Kernel) (t : Trap) : Except Stop Kernel :=
  (k.trapEntry t).trapHandler t.tf t.clock

end Kernel

end SystemN
