/-
The context switch of `swtch.S`, instruction by instruction, and the `context_t` of
`proc.h` as it lies in memory.
-/
import SystemN.Lib.RiscV
import SystemN.Kernel
import Mathlib.Data.Fin.VecNotation

namespace SystemN.Swtch

open RiscV

/-! ### Register names -/

@[simp] abbrev ra : Reg := 1
@[simp] abbrev sp : Reg := 2
@[simp] abbrev s0 : Reg := 8
@[simp] abbrev s1 : Reg := 9
@[simp] abbrev a0 : Reg := 10
@[simp] abbrev a1 : Reg := 11
@[simp] abbrev s2 : Reg := 18
@[simp] abbrev s3 : Reg := 19
@[simp] abbrev s4 : Reg := 20
@[simp] abbrev s5 : Reg := 21
@[simp] abbrev s6 : Reg := 22
@[simp] abbrev s7 : Reg := 23
@[simp] abbrev s8 : Reg := 24
@[simp] abbrev s9 : Reg := 25
@[simp] abbrev s10 : Reg := 26
@[simp] abbrev s11 : Reg := 27

/-! ### `swtch` -/

/-- Save `ra`, `sp`, `s0` to `s11` into `old`. -/
def save : List (Instr Empty) := [
  .sd ra 0 a0, .sd sp 8 a0, .sd s0 16 a0, .sd s1 24 a0, .sd s2 32 a0, .sd s3 40 a0, .sd s4 48 a0,
  .sd s5 56 a0, .sd s6 64 a0, .sd s7 72 a0, .sd s8 80 a0, .sd s9 88 a0, .sd s10 96 a0, .sd s11 104 a0]

/-- Load `ra`, `sp`, `s0` to `s11` from `new`. -/
def load : List (Instr Empty) := [
  .ld ra 0 a1, .ld sp 8 a1, .ld s0 16 a1, .ld s1 24 a1, .ld s2 32 a1, .ld s3 40 a1, .ld s4 48 a1,
  .ld s5 56 a1, .ld s6 64 a1, .ld s7 72 a1, .ld s8 80 a1, .ld s9 88 a1, .ld s10 96 a1, .ld s11 104 a1]

/-- `ret`: go on at `ra`. -/
def ret (m : Machine) : Machine := { m with pc := m.get ra }

@[simp] theorem ret_get (m : Machine) (r : Reg) : (ret m).get r = m.get r := rfl
@[simp] theorem ret_mem (m : Machine) : (ret m).mem = m.mem := rfl
@[simp] theorem ret_pc (m : Machine) : (ret m).pc = m.get ra := rfl

/-- `swtch`, from its first instruction to the one that its `ret` leads to. -/
def swtch (m : Machine) : Machine := ret ((save ++ load).foldl Instr.step m)

/-! ### `context_t` -/

/-- `s0` to `s11`. -/
def sReg : Fin 12 → Reg := ![s0, s1, s2, s3, s4, s5, s6, s7, s8, s9, s10, s11]

/-- `sizeof(context_t)`. -/
@[simp] abbrev sizeofContext : Nat := 14 * 8

/-- The `ulong` at offset `off` of the object at `a`. -/
def field (m : Machine) (a : Word) (off : Nat) : Nat := (m.mem (a + BitVec.ofNat 64 off)).toNat

/-- The `context_t` at `a`: `ra`, `sp` and the array `s`, one after the other. -/
def ctxAt (m : Machine) (a : Word) : Context :=
  ⟨field m a 0, field m a 8, fun i => field m a (16 + 8 * i)⟩

/-- The registers that a context consists of. -/
def ctxOf (m : Machine) : Context :=
  ⟨(m.get ra).toNat, (m.get sp).toNat, fun i => (m.get (sReg i)).toNat⟩

end SystemN.Swtch
