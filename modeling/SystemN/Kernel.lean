/-
The state of the kernel on one hart: `proc.h`, the control registers it writes, and
`uart.c`.

A `proc_t *` or a `trap_frame_t *` is the virtual address of the object; the objects
themselves are kept as records, keyed by that address, and not as bytes of memory.
`NULL` is 0.  The `q_node` of a process is in `nodes`, with the heads of the queues.
Spinlocks and `DEBUG_PRINT` are left out.
-/
import SystemN.Mm.Snub
import SystemN.List

namespace SystemN

open Rings (Links)

/-! ### `riscv.h`, `timer.h`, `trap/trap.h` -/

@[simp] abbrev sstatusSpp : Nat := 1 <<< 8
@[simp] abbrev sstatusSpie : Nat := 1 <<< 5
@[simp] abbrev sstatusSum : Nat := 1 <<< 18

@[simp] abbrev timeFreq : Nat := 10000000
@[simp] abbrev timerInterval : Nat := timeFreq / 100
@[simp] abbrev maxSleepMs : Nat := 60 * 1000

/-- `MS_TO_TIME`. -/
def msToTime (ms : Nat) : Nat := u64 (ms * (timeFreq / 1000))

@[simp] abbrev scauseIrqBit : Nat := 1 <<< 63

/-- `SCAUSE_CODE`. -/
def scauseCode (scause : Nat) : Nat := scause % 2 ^ 63

/-- The interrupt bit of a cause. -/
def isIrq (scause : Nat) : Bool := scause &&& scauseIrqBit != 0

@[match_pattern, simp] abbrev scauseSupervisorIrq : Nat := 1
@[match_pattern, simp] abbrev scauseIllegalInstr : Nat := 2
@[match_pattern, simp] abbrev scauseTimerInterrupt : Nat := 5
@[match_pattern, simp] abbrev scauseUserEcall : Nat := 8
@[match_pattern, simp] abbrev scauseSupervisorEcall : Nat := 9

/-- `UART0`. -/
@[simp] abbrev uart0 : Nat := 0x10000000 + vaOffsetConst

/-! ### `proc.h` -/

/-- `trap_frame_t`. -/
structure TrapFrame where
  regs : Nat → Nat
  sepc : Nat
  sstatus : Nat
  scause : Nat
  stval : Nat

/-- `sizeof(trap_frame_t)`. -/
@[simp] abbrev sizeofTrapFrame : Nat := 36 * 8

/-- A trap frame in zeroed memory. -/
def TrapFrame.zero : TrapFrame := ⟨fun _ => 0, 0, 0, 0, 0⟩

/-- `context_t`. -/
structure Context where
  ra : Nat
  sp : Nat
  s : Fin 12 → Nat

def Context.zero : Context := ⟨0, 0, fun _ => 0⟩

inductive ProcState where
  | unused
  | sleeping
  | runnable
  | running
  | zombie
  deriving DecidableEq, Repr

/-- `proc_t`, without its `q_node`; `pid` and `boundCpu` are the bit patterns of an `int`. -/
structure Proc where
  pid : Nat
  state : ProcState
  isIdle : Bool
  boundCpu : Nat
  sleepUntil : Nat
  tf : Nat
  ctx : Context
  pagetable : Nat
  heapStart : Nat
  heapEnd : Nat
  kstack : Nat
  ustack : Nat

/-- `sizeof(proc_t)`. -/
@[simp] abbrev sizeofProc : Nat := 200

/-- A process in zeroed memory. -/
def Proc.zero : Proc := ⟨0, .unused, false, 0, 0, 0, Context.zero, 0, 0, 0, 0, 0⟩

/-- `cpu_t`, without its lock state; the queues are in `nodes`. -/
structure Cpu where
  id : Nat
  needsSched : Bool
  /-- The current process. -/
  proc : Nat

/-- The addresses `stvec` is given. -/
inductive Stvec where
  | trapVector
  | idleTrapVector
  deriving DecidableEq, Repr

/-- The registers of the hart that the kernel's C code writes or saves. -/
structure Hart where
  satp : Nat
  stvec : Stvec
  sscratch : Nat
  sstatus : Nat
  scause : Nat
  stimecmp : Nat
  /-- `ra`, `sp` and `s0` to `s11`. -/
  ctx : Context

/-- Where the linker has put what the code takes the address of. -/
structure Symbols where
  idleLoop : Nat
  /-- `idle_procs`. -/
  idleProcs : Nat

/-- The state of the kernel, as one hart sees it. -/
structure Kernel where
  layout : Layout
  symbols : Symbols
  snub : Snub
  kernelPagetable : Nat
  nextPid : Nat
  procs : Nat → Proc
  frames : Nat → TrapFrame
  nodes : Node → Links Node
  cpu : Cpu
  hart : Hart
  /-- The characters that have not been read from the UART. -/
  uartIn : List UInt8
  /-- The characters sent to it, last one first. -/
  uartOut : List UInt8

namespace Kernel

/-- The page allocator. -/
def mm (k : Kernel) : Mm := k.snub.mm

def setMm (k : Kernel) (mm : Mm) : Kernel := { k with snub := { k.snub with mm := mm } }

def setSnub (k : Kernel) (s : Snub) : Kernel := { k with snub := s }

def setProc (k : Kernel) (p : Nat) (v : Proc) : Kernel :=
  { k with procs := Function.update k.procs p v }

def setFrame (k : Kernel) (tf : Nat) (f : TrapFrame) : Kernel :=
  { k with frames := Function.update k.frames tf f }

def setNodes (k : Kernel) (nodes : Node → Links Node) : Kernel := { k with nodes := nodes }

/-! The `write_csr` of each register. -/

def writeSatp (k : Kernel) (v : Nat) : Kernel := { k with hart := { k.hart with satp := v } }

def writeStvec (k : Kernel) (v : Stvec) : Kernel := { k with hart := { k.hart with stvec := v } }

def writeSscratch (k : Kernel) (v : Nat) : Kernel :=
  { k with hart := { k.hart with sscratch := v } }

def writeSstatus (k : Kernel) (v : Nat) : Kernel :=
  { k with hart := { k.hart with sstatus := v } }

def writeStimecmp (k : Kernel) (v : Nat) : Kernel :=
  { k with hart := { k.hart with stimecmp := v } }

def setCtx (k : Kernel) (c : Context) : Kernel := { k with hart := { k.hart with ctx := c } }

/-- `&idle_procs[c->id]`. -/
def idleProc (k : Kernel) : Nat := u64 (k.symbols.idleProcs + k.cpu.id * sizeofProc)

@[simp] theorem setMm_mm (k : Kernel) (m : Mm) : (k.setMm m).mm = m := rfl

/-! ### `uart.c` -/

/-- `uart_putc`. -/
def uartPutc (k : Kernel) (c : UInt8) : Kernel := { k with uartOut := c :: k.uartOut }

/-- `uart_puts`. -/
def uartPuts (k : Kernel) (s : String) : Kernel := s.toUTF8.toList.foldl uartPutc k

/-- One digit of `uart_puthex`. -/
def hexDigit (nibble : Nat) : UInt8 :=
  UInt8.ofNat (if nibble < 10 then 48 + nibble else 97 + nibble - 10)

/-- `uart_puthex`: the digits of all sixteen nibbles, highest first. -/
def uartPuthex (k : Kernel) (x : Nat) : Kernel :=
  (List.range 16).reverse.foldl (fun k i => k.uartPutc (hexDigit (x >>> (i * 4) &&& 0xf)))
    (k.uartPuts "0x")

/-- `uart_puts` of what an array holds; there is no result if it has no NUL. -/
def uartPutsArray (k : Kernel) : List UInt8 → Option Kernel
  | [] => none
  | c :: s => if c = 0 then some k else (k.uartPutc c).uartPutsArray s

/-- `buf[i] = c`; there is no result if `i` is outside the array. -/
def storeChar (buf : List UInt8) (i : Nat) (c : UInt8) : Option (List UInt8) :=
  if i < buf.length then some (buf.set i c) else none

/-- The loop of `uart_putlong`; its `int i` is one less than the first argument. -/
def putlongLoop : Nat → Nat → List UInt8 → Option (Nat × List UInt8)
  | 0, _, buf => some (0, buf)
  | i + 1, val, buf =>
      if 0 < val then do
        let buf ← storeChar buf i (UInt8.ofNat (48 + val % 10))
        putlongLoop i (val / 10) buf
      else some (i + 1, buf)

/-- `uart_putlong`, whose buffer starts with the characters in `buf`. -/
def uartPutlong (k : Kernel) (buf : Vector UInt8 21) (val : Nat) : Option Kernel := do
  let buf ← storeChar buf.toList 20 0
  if val = 0 then some (k.uartPutc 48)
  else
    let (i, buf) ← putlongLoop 20 val buf
    k.uartPutsArray (buf.drop i)

/-- `uart_putsn`: at most `len` characters of `s`, up to a NUL; with the number written. -/
def uartPutsn (k : Kernel) : List UInt8 → Nat → Nat × Kernel
  | [], _ => (0, k)
  | c :: s, len =>
      match len with
      | 0 => (0, k)
      | len + 1 =>
          if c = 0 then (0, k)
          else
            let (written, k) := (k.uartPutc c).uartPutsn s len
            (written + 1, k)

/-- `uart_getc`: it polls until a character is there. -/
def uartGetc (k : Kernel) : Except Stop (UInt8 × Kernel) :=
  match k.uartIn with
  | [] => .error .diverge
  | c :: rest => .ok (c, { k with uartIn := rest })

/-- The loop of `uart_gets`, with `n` characters of room left before the NUL. -/
def uartGetsLoop : Nat → Kernel → Except Stop (List UInt8 × Kernel)
  | 0, k => .ok ([], k)
  | n + 1, k => do
      let (c, k) ← k.uartGetc
      let c := if c = 13 then 10 else c
      let k := k.uartPutc c
      if c = 10 then pure ([c], k)
      else
        let (buf, k) ← uartGetsLoop n k
        pure (c :: buf, k)

/-- `uart_gets`: the characters stored before the NUL. -/
def uartGets (k : Kernel) (maxlen : Nat) : Except Stop (List UInt8 × Kernel) :=
  uartGetsLoop (maxlen - 1) k

end Kernel

end SystemN
