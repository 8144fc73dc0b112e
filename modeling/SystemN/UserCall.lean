/-
A system call as user code makes it: `user_syscall.h`, `malloc` on top of it, and what becomes of the
registers of the caller.

`syscall` puts the number and the arguments in registers and executes `ecall`.  `trap_vector` saves
the registers in a `trap_frame_t`, `trap_handler` works on that, and `trap_vector` loads the
registers from it.  Here the frame in memory is that of `trap_handler`.
-/
import SystemN.Resume
import SystemN.TrapVec

namespace SystemN

open RiscV TrapVec

/-- `syscall`, up to its `ecall`; `u` are the registers of the caller. -/
def syscall (num arg0 arg1 arg2 arg3 arg4 arg5 : Word) (u : Machine) : Machine :=
  (((((((u.set 10 arg0).set 11 arg1).set 12 arg2).set 13 arg3).set 14 arg4).set 15 arg5).set 17 num)

def syscall2 (num arg0 arg1 : Word) : Machine → Machine := syscall num arg0 arg1 0 0 0 0

def syscall3 (num arg0 arg1 arg2 : Word) : Machine → Machine := syscall num arg0 arg1 arg2 0 0 0

/-! ### `user.h` -/

namespace User

/-- What `malloc` returns when `sbrk` has returned `mem`. -/
def malloc (mem : Nat) : Nat := if mem = minusOne then 0 else mem

end User

/-! ### The frame of the caller -/

/-- `F` is the `trap_frame_t` at `f`. -/
structure HoldsFrame (mem : Word → Word) (f : Word) (F : TrapFrame) : Prop where
  regs : ∀ r < 32, mem (f + BitVec.ofNat 64 (8 * r)) = BitVec.ofNat 64 (F.regs r)
  sepc : mem (f + 256#64) = BitVec.ofNat 64 F.sepc
  sstatus : mem (f + 264#64) = BitVec.ofNat 64 F.sstatus
  scause : mem (f + 272#64) = BitVec.ofNat 64 F.scause
  stval : mem (f + 280#64) = BitVec.ofNat 64 F.stval

namespace Kernel

/-- The kernel when `syscall_handler` is called. -/
def calling (k : Kernel) (t : Trap) : Kernel :=
  let k := k.trapEntry t
  let f := k.frames t.tf
  k.setFrame t.tf { f with sepc := u64 (f.sepc + 4) }

/-- The value that `syscall_handler` leaves in `p->tf->regs[10]`. -/
def answer (k : Kernel) (p : Nat) (clock : Nat → Nat) : Except Stop Nat :=
  match k.reg p 17 % 2 ^ 32 with
  | SYS_write => Prod.fst <$> k.sysWrite (k.reg p 10) (k.reg p 11) (k.reg p 12)
  | SYS_read => Prod.fst <$> k.sysRead (k.reg p 10) (k.reg p 11) (k.reg p 12)
  | SYS_exit => pure (k.reg p 10)
  | SYS_getpid => pure (sext32 (k.procs p).pid)
  | SYS_yield => pure (k.reg p 10)
  | SYS_sleep_ms => Prod.fst <$> k.sysSleepMs p (k.reg p 10) clock
  | SYS_sbrk => Prod.fst <$> k.sysSbrk p (k.reg p 10)
  | SYS_munmap => Prod.fst <$> k.sysMunmap p (k.reg p 10) (k.reg p 11)
  | _ => pure minusOne

end Kernel

end SystemN
