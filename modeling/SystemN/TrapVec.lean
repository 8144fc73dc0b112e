/-
The trap entry points of `trap/trap_vec.S`, instruction by instruction, and the part
of the C code that reads `tp`.
-/
import SystemN.Lib.RiscV

namespace SystemN.TrapVec

open RiscV

/-! ### Register names -/

@[simp] abbrev ra : Reg := 1
@[simp] abbrev sp : Reg := 2
@[simp] abbrev gp : Reg := 3
@[simp] abbrev tp : Reg := 4
@[simp] abbrev t0 : Reg := 5
@[simp] abbrev t1 : Reg := 6
@[simp] abbrev a0 : Reg := 10
@[simp] abbrev a1 : Reg := 11
@[simp] abbrev a2 : Reg := 12
@[simp] abbrev a3 : Reg := 13

/-- `sp`, `gp`, `tp` and `s0` to `s11`, which a C function gives back as it found them. -/
def calleeSaved : List Reg := [2, 3, 4, 8, 9, 18, 19, 20, 21, 22, 23, 24, 25, 26, 27]

/-! ### `trap_vector` -/

inductive Label where
  | fromUser
  | fromKernel
  | saveRegs
  | restoreKernelStack
  deriving DecidableEq, Repr

/-- `trap_vector`. -/
def trapVector : List (Instr Label) := [
  -- save trap cause early
  .csrr t1 .scause,
  -- check SPP bit in sstatus
  .csrr t0 .sstatus, .andi t0 t0 0x100#64, .beqz t0 .fromUser, .j .fromKernel,
  .label .fromUser,
  .csrr t0 .sscratch, .sd sp 16 t0, .mv sp t0, .j .saveRegs,
  .label .fromKernel,
  .addi sp sp (-288#64),
  .label .saveRegs,
  .sd 1 8 sp, .sd 3 24 sp, .sd 4 32 sp, .sd 5 40 sp, .sd 6 48 sp,
  .sd 7 56 sp, .sd 8 64 sp, .sd 9 72 sp, .sd 10 80 sp, .sd 11 88 sp,
  .sd 12 96 sp, .sd 13 104 sp, .sd 14 112 sp, .sd 15 120 sp, .sd 16 128 sp,
  .sd 17 136 sp, .sd 18 144 sp, .sd 19 152 sp, .sd 20 160 sp, .sd 21 168 sp,
  .sd 22 176 sp, .sd 23 184 sp, .sd 24 192 sp, .sd 25 200 sp, .sd 26 208 sp,
  .sd 27 216 sp, .sd 28 224 sp, .sd 29 232 sp, .sd 30 240 sp, .sd 31 248 sp,
  -- save CSRs
  .csrr t0 .sepc, .sd t0 256 sp, .csrr t0 .sstatus, .sd t0 264 sp, .sd t1 272 sp,
  .csrr t0 .stval, .sd t0 280 sp,
  .mv a0 sp, .call,
  .ld 1 8 sp, .ld 3 24 sp, .ld 4 32 sp, .ld 5 40 sp, .ld 6 48 sp,
  .ld 7 56 sp, .ld 8 64 sp, .ld 9 72 sp, .ld 10 80 sp, .ld 11 88 sp,
  .ld 12 96 sp, .ld 13 104 sp, .ld 14 112 sp, .ld 15 120 sp, .ld 16 128 sp,
  .ld 17 136 sp, .ld 18 144 sp, .ld 19 152 sp, .ld 20 160 sp, .ld 21 168 sp,
  .ld 22 176 sp, .ld 23 184 sp, .ld 24 192 sp, .ld 25 200 sp, .ld 26 208 sp,
  .ld 27 216 sp, .ld 28 224 sp, .ld 29 232 sp, .ld 30 240 sp, .ld 31 248 sp,
  -- restore CSRs
  .ld t0 256 sp, .csrw .sepc t0, .ld t0 264 sp, .csrw .sstatus t0,
  -- if we entered from kernel mode, deallocate trap frame
  .csrr t0 .sstatus, .andi t0 t0 0x100#64, .bnez t0 .restoreKernelStack,
  .ld sp 16 sp, .sret,
  .label .restoreKernelStack,
  .addi sp sp 288#64, .sret]

/-- More instructions than a way through `trap_vector` has. -/
def trapFuel : Nat := 100

/-- `trap_vector` up to its `call trap_handler`. -/
def enter (m : Machine) : Outcome Label := exec trapVector trapFuel trapVector m

/-- `trap_vector` around a `trap_handler`, up to its `sret`. -/
def roundTrip (handler : Machine → Machine) (m : Machine) : Option Machine :=
  match enter m with
  | .call c rest =>
      match exec trapVector trapFuel rest (handler c) with
      | .sret m' => some m'
      | _ => none
  | _ => none

/-! ### `idle_trap_vector` -/

/-- `idle_trap_vector`. -/
def idleTrapVector : List (Instr Label) := [
  .csrr a0 .scause, .csrr a1 .sepc, .csrr a2 .sstatus, .csrr a3 .stval,
  .call,
  .csrw .sepc a1, .csrw .sstatus a2, .sret]

/-- `idle_trap_vector` around a `trap_handler`, up to its `sret`. -/
def idleRoundTrip (handler : Machine → Machine) (m : Machine) : Option Machine :=
  match exec idleTrapVector trapFuel idleTrapVector m with
  | .call c rest =>
      match exec idleTrapVector trapFuel rest (handler c) with
      | .sret m' => some m'
      | _ => none
  | _ => none

/-! ### `curr_cpu` -/

/-- `curr_cpu()`: the value of `tp`. -/
def currCpu (m : Machine) : Word := m.get tp

/-- `sizeof(cpu_t)`. -/
def sizeofCpu : Nat := 64

/-- `&cpus[id]`, where `start` leaves `tp`. -/
def cpusEntry (cpus : Word) (id : Nat) : Word := cpus + BitVec.ofNat 64 (id * sizeofCpu)

end SystemN.TrapVec
