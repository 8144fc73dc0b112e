/-
The system calls, `syscall.c`, with `mm/user_copy.h`.

Arguments and results are the 64-bit values of the registers; `int` and `uint`
parameters take their low 32 bits.  An access of the kernel to user memory goes
through the table in `satp`; one that faults ends in the halt loop of
`trap_handler`.
-/
import SystemN.Sched

namespace SystemN

@[simp] abbrev maxlen : Nat := 64

/-- The value -1 of a `long`. -/
@[simp] abbrev minusOne : Nat := 2 ^ 64 - 1

/-- `size > 0` for a `long`. -/
def isPos (size : Nat) : Bool := 0 < size && size < 2 ^ 63

namespace Kernel

/-! ### `mm/user_copy.h` -/

/-- `is_user_addr`. -/
def isUserAddr (va len : Nat) : Bool := len != 0 && va < userEndVa && len < userEndVa - va

/-- The physical address behind the table in `satp`. -/
def satpRoot (k : Kernel) : Nat := (k.hart.satp &&& 0xFFFFFFFFFFF) <<< pageShift

/-- The physical address of a byte the kernel accesses with the permission `perm`. -/
def access (k : Kernel) (va perm : Nat) : Except Stop Nat :=
  match k.mm.translate k.satpRoot va with
  | some (pa, flags) => if flags &&& perm ≠ 0 then .ok pa else .error .halt
  | none => .error .halt

/-- `__builtin_memcpy` out of user memory. -/
def loadUser (k : Kernel) : Nat → Nat → Except Stop (List UInt8)
  | _, 0 => .ok []
  | va, n + 1 => do
      let pa ← k.access va pteR
      let rest ← k.loadUser (va + 1) n
      pure (k.mm.mem pa :: rest)

/-- `__builtin_memcpy` into user memory. -/
def storeUser (va : Nat) : List UInt8 → Kernel → Except Stop Kernel
  | [], k => .ok k
  | c :: buf, k => do
      let pa ← k.access va pteW
      storeUser (va + 1) buf (k.setMm (k.mm.setMem (Function.update k.mm.mem pa c)))

/-- `set_csr(sstatus, SSTATUS_SUM)`. -/
def setSum (k : Kernel) : Kernel := k.writeSstatus (k.hart.sstatus ||| sstatusSum)

/-- `clear_csr(sstatus, SSTATUS_SUM)`. -/
def clearSum (k : Kernel) : Kernel :=
  k.writeSstatus (k.hart.sstatus &&& (2 ^ 64 - 1 - sstatusSum))

/-- `copy_from_user`, with `none` for -1. -/
def copyFromUser (k : Kernel) (userSrc len : Nat) : Except Stop (Option (List UInt8) × Kernel) :=
  if !isUserAddr userSrc len then .ok (none, k)
  else do
    let k := k.setSum
    let buf ← k.loadUser userSrc len
    pure (some buf, k.clearSum)

/-- `copy_to_user`; `true` stands for 0, `false` for -1. -/
def copyToUser (k : Kernel) (userDst : Nat) (buf : List UInt8) : Except Stop (Bool × Kernel) :=
  if !isUserAddr userDst buf.length then .ok (false, k)
  else do
    let k ← storeUser userDst buf k.setSum
    pure (true, k.clearSum)

/-! ### `syscall.c` -/

/-- `sys_write`. -/
def sysWrite (k : Kernel) (fd userBuf len : Nat) : Except Stop (Nat × Kernel) :=
  if fd % 2 ^ 32 ≠ 1 ∧ fd % 2 ^ 32 ≠ 2 then .ok (minusOne, k)
  else do
    let len := len % 2 ^ 32
    let len := if maxlen < len then maxlen else len
    let (buf, k) ← k.copyFromUser userBuf len
    match buf with
    | none => pure (minusOne, k)
    | some buf =>
        let (written, k) := k.uartPutsn buf len
        pure (sext32 written, k)

/-- `sys_read`. -/
def sysRead (k : Kernel) (fd userBuf len : Nat) : Except Stop (Nat × Kernel) :=
  if fd % 2 ^ 32 ≠ 0 then .ok (minusOne, k)
  else do
    let len := len % 2 ^ 32
    let len := if maxlen < len then maxlen else len
    let (buf, k) ← k.uartGets len
    let (ok, k) ← k.copyToUser userBuf buf
    if !ok then pure (minusOne, k) else pure (sext32 buf.length, k)

/-- `sys_sleep_ms`; `clock 0` is what its `read_time()` returns. -/
def sysSleepMs (k : Kernel) (p ms : Nat) (clock : Nat → Nat) : Except Stop (Nat × Kernel) :=
  if ms = 0 ∨ maxSleepMs < ms then .ok (minusOne, k)
  else do
    let k := k.setState p .sleeping
    let nodes ← listAddTail k.nodes (.qNode p) .sleepQueue
    let k := k.setNodes nodes
    pure (0, k.setProc p { k.procs p with sleepUntil := u64 (clock 0 + msToTime ms) })

/-- The loop of `sys_sbrk` that maps new pages; `false` stands for its `return -1L`. -/
def growLoop (pagetable newBrk : Nat) : Nat → Nat → Mm → Except Stop (Bool × Mm)
  | 0, _, _ => .error .diverge
  | fuel + 1, va, s =>
      if va < newBrk then do
        let (pa, s) ← s.allocPage
        if pa = 0 then pure (false, s)
        else do
          let (ok, s) ← s.mapPage pagetable va pa (pteR ||| pteW ||| pteU)
          if !ok then pure (false, s) else growLoop pagetable newBrk fuel (u64 (va + pageSize)) s
      else pure (true, s)

/-- Its loop that unmaps pages, whatever `unmap_page` answers. -/
def shrinkLoop (pagetable oldBrk : Nat) : Nat → Nat → Mm → Except Stop Mm
  | 0, _, _ => .error .diverge
  | fuel + 1, va, s =>
      if va < oldBrk then do
        let (_, s) ← s.unmapPage pagetable va
        shrinkLoop pagetable oldBrk fuel (u64 (va + pageSize)) s
      else pure s

/-- More rounds of a loop over pages than there are pages. -/
@[simp] abbrev pageRounds : Nat := 2 ^ 52 + 1

/-- The two loops of `sys_sbrk`, by the sign of `size`. -/
def resize (pagetable size oldBrk newBrk : Nat) (s : Mm) : Except Stop (Bool × Mm) :=
  if isPos size then growLoop pagetable newBrk pageRounds oldBrk s
  else do
    let s ← shrinkLoop pagetable oldBrk pageRounds newBrk s
    pure (true, s)

/-- `sys_sbrk`. -/
def sysSbrk (k : Kernel) (p size : Nat) : Except Stop (Nat × Kernel) :=
  if p = 0 ∨ size = 0 then .ok (minusOne, k)
  else
    let oldBrk := alignUp (k.procs p).heapEnd
    let size := alignUp size
    let newBrk := u64 (oldBrk + size)
    if newBrk < (k.procs p).heapStart ∨ userHeapEnd < newBrk then .ok (minusOne, k)
    else do
      let (ok, mm) ← resize (k.procs p).pagetable size oldBrk newBrk k.mm
      let k := k.setMm mm
      if !ok then pure (minusOne, k)
      else pure (oldBrk, k.setProc p { k.procs p with heapEnd := newBrk })

/-- The loop of `sys_munmap`. -/
def munmapLoop (pagetable last : Nat) : Nat → Nat → Mm → Except Stop (Bool × Mm)
  | 0, _, _ => .error .diverge
  | fuel + 1, va, s =>
      if va < last then do
        let (ok, s) ← s.unmapPage pagetable va
        if !ok then pure (false, s) else munmapLoop pagetable last fuel (u64 (va + pageSize)) s
      else pure (true, s)

/-- `sys_munmap`. -/
def sysMunmap (k : Kernel) (p addr size : Nat) : Except Stop (Nat × Kernel) :=
  if p = 0 ∨ size = 0 ∨ addr % pageSize ≠ 0 then .ok (minusOne, k)
  else do
    let last := alignUp (u64 (addr + size))
    let (ok, mm) ← munmapLoop (k.procs p).pagetable last pageRounds addr k.mm
    pure (if ok then 0 else minusOne, k.setMm mm)

end Kernel

end SystemN
