/-
From reset to S-mode, on every hart: `entry.S` and `start`.

All harts start at `_entry`, in M-mode, where addresses are physical.  Hart 0 sets up memory; the
others spin until it has set `allocator_ready`, and load the table that it has built.  `start` ends
with an `mret` to `s_mode_main` at its kernel address, with `tp` and `sp` moved up by `VA_OFFSET`,
so that from the next instruction on a hart finds its code, its stack and its `cpu_t` through that
table or not at all.
-/
import SystemN.Resume
import SystemN.TrapVec

namespace SystemN

open TrapVec (sizeofCpu)

/-! ### `proc.h` and `riscv.h` -/

@[simp] abbrev ncpu : Nat := 4

@[simp] abbrev mstatusMppMask : Nat := 3 <<< 11
@[simp] abbrev mstatusMppSMode : Nat := 1 <<< 11
@[simp] abbrev mstatusMie : Nat := 1 <<< 3
@[simp] abbrev mstatusMpie : Nat := 1 <<< 7
@[simp] abbrev sieStie : Nat := 1 <<< 5
@[simp] abbrev menvcfgFdt : Nat := 1 <<< 63
@[simp] abbrev mcounterenTime : Nat := 1 <<< 1

/-- The bytes of `_stack` that `entry.S` gives to each hart. -/
@[simp] abbrev bootStackSize : Nat := 4096

/-- The image of the kernel, with the physical addresses of what `start` refers to. -/
structure Image where
  layout : Layout
  /-- `_stack`. -/
  stack : Nat
  cpus : Nat
  trapVector : Nat
  sModeMain : Nat
  stack_data : layout.dataStart ≤ stack ∧ stack + ncpu * bootStackSize ≤ layout.kernelEnd
  cpus_data : layout.dataStart ≤ cpus ∧ cpus + ncpu * sizeofCpu ≤ layout.kernelEnd
  trapVector_text : layout.textStart ≤ trapVector ∧ trapVector < layout.textEnd
  sModeMain_text : layout.textStart ≤ sModeMain ∧ sModeMain < layout.textEnd
  /-- What lies above `KERNEL_END` is not mapped. -/
  fits : layout.kernelEnd ≤ kernelEndPhys

namespace Image

/-- The top of the stack of a hart. -/
def stackTop (I : Image) (hart : Nat) : Nat := u64 (I.stack + (hart + 1) * bootStackSize)

/-- `&cpus[hart_id]`. -/
def cpuOf (I : Image) (hart : Nat) : Nat := u64 (I.cpus + hart * sizeofCpu)

end Image

/-! ### One hart -/

inductive Privilege where
  | machine
  | supervisor
  | user
  deriving DecidableEq, Repr

/-- The privilege that `mret` returns to, by the field `MPP` of `mstatus`. -/
def mppOf (mstatus : Nat) : Privilege :=
  match (mstatus &&& mstatusMppMask) >>> 11 with
  | 0 => .user
  | 1 => .supervisor
  | _ => .machine

/-- What `mret` makes of `mstatus`: `MIE` gets the value of `MPIE`, `MPIE` is set, `MPP` is cleared. -/
def mretStatus (mstatus : Nat) : Nat :=
  ((mstatus &&& (2 ^ 64 - 1 - (mstatusMppMask ||| mstatusMie))) |||
    ((mstatus &&& mstatusMpie) >>> 4)) ||| mstatusMpie

/-- Where a hart is; on hart 0 `mm_init` is cut at its calls. -/
inductive Stage where
  /-- At `_entry`. -/
  | entry
  /-- At the start of `start`. -/
  | start
  | buddyInit
  | mapKernel
  | loadTable
  | snubInit
  | vaOffset
  /-- Before `allocator_ready = 1`. -/
  | ready
  /-- In the loop that waits for it. -/
  | wait
  /-- Behind that loop. -/
  | load
  /-- Before the control registers are written. -/
  | delegate
  /-- Before the `mret`. -/
  | drop
  /-- At `s_mode_main`. -/
  | supervisor
  /-- Hart 0 has set up its queues, and `create_proc` has made these processes. -/
  | processes (ps : List Nat)
  /-- They run. -/
  | running (ps : List Nat)

/-- The registers that `start` writes. -/
structure BootHart where
  stage : Stage
  mode : Privilege
  pc : Nat
  sp : Nat
  tp : Nat
  satp : Nat
  stvec : Nat
  medeleg : Nat
  mideleg : Nat
  pmpaddr0 : Nat
  pmpcfg0 : Nat
  /-- `sstatus` is part of it. -/
  mstatus : Nat
  sie : Nat
  menvcfg : Nat
  mcounteren : Nat
  mepc : Nat

namespace BootHart

variable (I : Image) (hart : Nat) (c : BootHart)

/-- `_entry`, up to `call start`. -/
def enter : BootHart := { c with sp := I.stackTop hart, stage := .start }

/-- `write_tp`, and the two ways on. -/
def takeCpu : BootHart :=
  { c with tp := I.cpuOf hart, stage := if hart = 0 then .buddyInit else .wait }

/-- `load_pagetable`. -/
def loadPagetable (pagetable : Nat) (next : Stage) : BootHart :=
  { c with satp := makeSatp pagetable, stage := next }

/-- From the writes of `medeleg` and `mideleg` to those of `tp` and `sp`. -/
def delegate : BootHart :=
  { c with
    medeleg := 0xffff
    mideleg := 0xffff
    pmpaddr0 := 2 ^ 64 - 1
    pmpcfg0 := 0x0f
    stvec := u64 (I.trapVector + vaOffsetConst)
    mstatus := ((c.mstatus &&& (2 ^ 64 - 1 - mstatusMppMask)) ||| mstatusMppSMode) ||| sstatusSie
    sie := c.sie ||| sieStie
    menvcfg := c.menvcfg ||| menvcfgFdt
    mcounteren := c.mcounteren ||| mcounterenTime
    mepc := u64 (I.sModeMain + vaOffsetConst)
    tp := u64 (I.cpuOf hart + vaOffsetConst)
    sp := u64 (c.sp + vaOffsetConst)
    stage := .drop }

def mret : BootHart :=
  { c with
    mode := mppOf c.mstatus
    pc := c.mepc
    mstatus := mretStatus c.mstatus
    stage := .supervisor }

end BootHart

/-! ### All harts -/

/-- What the harts share, as hart 0 finds it, and the harts. -/
structure Boot where
  allocatorReady : Bool
  kernel : Kernel
  /-- `cpus[i].id`. -/
  ids : Nat → Nat
  harts : Nat → BootHart

namespace Boot

def setHart (b : Boot) (hart : Nat) (c : BootHart) : Boot :=
  { b with harts := Function.update b.harts hart c }

@[simp] theorem setHart_self (b : Boot) (hart : Nat) (c : BootHart) :
    (b.setHart hart c).harts hart = c :=
  Function.update_self ..

theorem setHart_of_ne {b : Boot} {hart i : Nat} {c : BootHart} (h : i ≠ hart) :
    (b.setHart hart c).harts i = b.harts i :=
  Function.update_of_ne h ..

def setKernel (b : Boot) (k : Kernel) : Boot := { b with kernel := k }

/-- The hart goes on to the stage `next`. -/
def next (b : Boot) (hart : Nat) (next : Stage) : Boot :=
  b.setHart hart { b.harts hart with stage := next }

/-- The C variables have their first values, and the harts are at `_entry`. -/
structure AtReset (I : Image) (b : Boot) : Prop where
  allocatorReady : b.allocatorReady = false
  layout : b.kernel.layout = I.layout
  harts : ∀ i, (b.harts i).stage = .entry ∧ (b.harts i).mode = .machine ∧ (b.harts i).satp = 0

end Boot

namespace Kernel

/-- `s_mode_main` on hart 0, up to `shell_init`; `stack` is the address of `_stack`. -/
def setupHart (k : Kernel) (stack now : Nat) : Kernel :=
  (k.initQueues.timerInit now).setupIdleProc stack

end Kernel

end SystemN
