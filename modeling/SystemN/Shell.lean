/-
The shell, `shell.c`, with the system calls of `user.h`.

The shell runs in user mode, in the address space of its process.  Its variables but `n` are
arrays on its stack; where the compiler has put them are parameters.  A system call traps with
its number and its arguments in the registers, and its result is what the kernel has put into
`a0` of the trap frame.
-/
import SystemN.Trap

namespace SystemN

namespace Kernel

/-- The byte of user memory at `va`. -/
def userByte (k : Kernel) (va : Nat) : UInt8 :=
  match k.mm.translate k.satpRoot va with
  | some (pa, _) => k.mm.mem pa
  | none => 0

/-- The registers with which `syscall3` of `user_syscall.h` traps. -/
def withArgs (k : Kernel) (p num arg0 arg1 arg2 : Nat) : Kernel :=
  let f := k.frames (k.procs p).tf
  k.setFrame (k.procs p).tf { f with
    regs := Function.update (Function.update (Function.update (Function.update f.regs 17 num)
      10 arg0) 11 arg1) 12 arg2 }

/-- A system call of the process `p`. -/
def systemCall (k : Kernel) (p num arg0 arg1 arg2 : Nat) (clock : Nat → Nat) : Except Stop Kernel :=
  (k.withArgs p num arg0 arg1 arg2).syscallHandler p clock

end Kernel

@[simp] abbrev inputBufSize : Nat := 128

/-- `"yield"`. -/
def cmdYield : List UInt8 := [121, 105, 101, 108, 100]

/-- The loop of `streq`: byte `i` is next, `n` are left. -/
def streqLoop (s1 s2 : Nat → UInt8) : Nat → Nat → Bool
  | _, 0 => true
  | i, n + 1 => if s1 i = 0 ∨ s2 i = 0 ∨ s1 i ≠ s2 i then false else streqLoop s1 s2 (i + 1) n

/-- `streq`. -/
def streq (s1 s2 : Nat → UInt8) (n : Nat) : Bool := streqLoop s1 s2 0 n

/-- `n > 0` for the `int` that `read` is assigned to. -/
def isPosInt (r : Nat) : Bool := 0 < r % 2 ^ 32 && r % 2 ^ 32 < 2 ^ 31

/-- The process of the shell, and the addresses of its arrays. -/
structure Shell where
  proc : Nat
  buf : Nat
  prompt : Nat

/-- Where the shell is in its loop; `n` is the variable of that name, once it is known to be
positive. -/
inductive ShellPoint where
  | prompt
  | read
  | sleep (n : Nat)
  | compare (n : Nat)
  | yield (n : Nat)
  | echo (n : Nat)
  deriving DecidableEq, Repr

open Kernel in
/-- One statement of `user_shell_main`. -/
inductive ShellStep (S : Shell) : Kernel → ShellPoint → Kernel → ShellPoint → Prop where
  | prompt {k k' : Kernel} {clock : Nat → Nat}
      (h : k.systemCall S.proc SYS_write 1 S.prompt 2 clock = .ok k') : ShellStep S k .prompt k' .read
  /-- The end of the buffer is not where the size says, which is one byte more. -/
  | read {k k' : Kernel} {clock : Nat → Nat}
      (h : k.systemCall S.proc SYS_read 0 (S.buf + 2) (inputBufSize - 1) clock = .ok k') :
      ShellStep S k .read k'
        (if isPosInt (k'.reg S.proc 10) then .sleep (k'.reg S.proc 10 % 2 ^ 32) else .prompt)
  | sleep {n : Nat} {k k' : Kernel} {clock : Nat → Nat}
      (h : k.systemCall S.proc SYS_sleep_ms 1000 0 0 clock = .ok k') :
      ShellStep S k (.sleep n) k' (.compare n)
  | compare {n : Nat} {k : Kernel} :
      ShellStep S k (.compare n) k
        (if streq (fun i => k.userByte (S.buf + 2 + i)) (fun i => cmdYield.getD i 0) cmdYield.length
          then .yield n else .echo n)
  | yield {n : Nat} {k k' : Kernel} {clock : Nat → Nat}
      (h : k.systemCall S.proc SYS_yield 0 0 0 clock = .ok k') :
      ShellStep S k (.yield n) k' (.echo n)
  | echo {n : Nat} {k k' : Kernel} {clock : Nat → Nat}
      (h : k.systemCall S.proc SYS_write 1 S.buf (n + 2) clock = .ok k') :
      ShellStep S k (.echo n) k' .prompt

end SystemN
