/-
A timer interrupt, from one instruction of a process to the same instruction.

A process does not ask for it and may be at any instruction, with anything in its registers.
`trap_vector` saves the registers in the frame of the process; `timer_handle` and `schedule` leave the
frame alone, and so does whoever runs next, for as long as it runs.  When `trap_vector` at last loads
the registers from the frame, the process goes on where it was, with its memory.

So much is as it should be.  But two registers are not loaded from where they were saved: the process
finds 0 in `t0` and the cause of the interrupt in `t1`.
-/
import SystemN.Proofs.World

namespace SystemN

open RiscV TrapVec

variable {u u' c s : Machine} {rest : List (Instr Label)} {cause f stval stvec : Word} {F : TrapFrame}

namespace Kernel

variable {k k' k₁ k₂ : Kernel} {p : Nat} {ps : List Nat} {t : Trap} {clock : Nat → Nat} {L : Layout}
  {m : Nat → UInt8} {stack : Nat} {x : Context}

end Kernel

end SystemN
