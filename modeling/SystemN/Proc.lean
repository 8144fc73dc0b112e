/-
Processes: `proc.c`.

`create_proc` is one straight line with an exit after each call that can fail; every
exit after the first goes through `free_proc`.  The model cuts the line into its
paragraphs; one that answers `false` (or `none`) stands for `goto fail1`.
-/
import SystemN.Sched

namespace SystemN

/-- `memcpy`, byte by byte from the first one. -/
def memcpy (dst src : Nat) : Nat → (Nat → UInt8) → Nat → UInt8
  | 0, m => m
  | n + 1, m => memcpy (dst + 1) (src + 1) n (Function.update m dst (m src))

namespace Kernel

/-- `walk` of the kernel, as a step of the kernel state. -/
def walk (k : Kernel) (pagetable va : Nat) (alloc : Bool) : Except Stop (Nat × Kernel) := do
  let (pte, mm) ← Mm.walk Mm.allocPage pagetable va alloc k.mm
  pure (pte, k.setMm mm)

/-- `map_page`; `false` stands for -1. -/
def mapPage (k : Kernel) (pagetable va pa perm : Nat) : Except Stop (Bool × Kernel) := do
  let (ok, mm) ← k.mm.mapPage pagetable va pa perm
  pure (ok, k.setMm mm)

/-- The loop of `copy_kernel_mappings`, with `n` pages left.  A page it cannot copy is reported
and left out. -/
def copyLoop (dst src : Nat) : Nat → Nat → Kernel → Except Stop Kernel
  | 0, _, k => .ok k
  | n + 1, va, k => do
      let (srcPte, k) ← k.walk src va false
      let pte := k.mm.loadPte srcPte
      let k := if srcPte = 0 then k else k.setMm (k.mm.deref srcPte 8)
      let k ←
        if srcPte = 0 ∨ pte &&& pteV = 0 then
          pure (((k.uartPuts "copy_kernel_mappings: missing PTE at ").uartPuthex va).uartPutc 10)
        else do
          let (ok, k) ← k.mapPage dst va (pte2pa pte) (pteFlags pte)
          if ok then pure k
          else
            pure (((k.uartPuts "copy_kernel_mappings: map_page failed at ").uartPuthex va).uartPutc
              10)
      copyLoop dst src n (va + pageSize) k

/-- `copy_kernel_mappings`, over the pages from `KERNEL_START_VA` to `_kernel_end`. -/
def copyKernelMappings (k : Kernel) (dst src : Nat) : Except Stop Kernel :=
  copyLoop dst src ((k.layout.kernelEnd - kernelStart + pageSize - 1) / pageSize) kernelStartVa k

/-! ### `free_proc` -/

/-- `free_proc`. -/
def freeProc (k : Kernel) (p : Nat) : Except Stop Kernel :=
  if p = 0 then .ok k
  else do
    let nodes ←
      if listInQueue k.nodes (.qNode p) then listDel k.nodes (.qNode p) else pure k.nodes
    let k := k.setNodes nodes
    let mm ← if (k.procs p).ustack ≠ 0 then k.mm.freePage (k.procs p).ustack else pure k.mm
    let k := k.setMm mm
    let mm ← if (k.procs p).pagetable ≠ 0 then Mm.freePagetable (k.procs p).pagetable k.mm
      else pure k.mm
    let k := k.setMm mm
    let snub ← if (k.procs p).kstack ≠ 0 then k.snub.kfree (k.procs p).kstack else pure k.snub
    let k := k.setSnub snub
    let snub ← k.snub.kfree p
    pure (k.setSnub snub)

/-! ### `create_proc` -/

/-- `kzalloc(sizeof(proc_t))`: the record and the node in the new object are zero. -/
def allocProc (k : Kernel) : Except Stop (Nat × Kernel) := do
  let (p, snub) ← k.snub.kzalloc sizeofProc
  let k := k.setSnub snub
  if p = 0 then pure (0, k)
  else
    let k := k.setProc p Proc.zero
    pure (p, k.setNodes (Function.update k.nodes (.qNode p) ⟨none, none⟩))

/-- `p->pid = ATOMIC_INC_AND_FETCH(&next_pid)` and the field after it. -/
def initPid (k : Kernel) (p : Nat) : Kernel :=
  let k := { k with nextPid := k.nextPid + 1 }
  k.setProc p { k.procs p with pid := k.nextPid % 2 ^ 32, boundCpu := 2 ^ 32 - 1 }

/-- Map the object at `va` for the kernel; it is mapped where its page is. -/
def mapObject (k : Kernel) (p va : Nat) : Except Stop (Bool × Kernel) :=
  k.mapPage (k.procs p).pagetable va (k.mm.virtToPhys va) (pteR ||| pteW)

/-- The page table and the kernel stack. -/
def createKernelHalf (k : Kernel) (p : Nat) : Except Stop (Bool × Kernel) := do
  let (pagetable, mm) ← k.mm.allocPagetable
  let k := (k.setMm mm).setProc p { k.procs p with pagetable := pagetable }
  if pagetable = 0 then pure (false, k)
  else do
    let (kstack, snub) ← k.snub.kzalloc kstackSize
    let k := (k.setSnub snub).setProc p { k.procs p with kstack := kstack }
    if kstack = 0 then pure (false, k)
    else do
      let (ok, k) ← k.mapObject p p
      if !ok then pure (false, k)
      else do
        let (ok, k) ← k.mapObject p kstack
        if !ok then pure (false, k)
        else
          let tf := u64 (kstack + (kstackSize - sizeofTrapFrame))
          let f := { TrapFrame.zero with
            regs := Function.update TrapFrame.zero.regs 2 userStackTop
            sepc := userStartVa
            sstatus := sstatusSpie ||| sstatusSum }
          let ctx := { (k.procs p).ctx with sp := tf }
          pure (true, (k.setProc p { k.procs p with tf := tf, ctx := ctx }).setFrame tf f)

/-- The loop that loads the binary; it returns the address behind the last page. -/
def loadBinary (p : Nat) : Nat → Nat → Nat → Nat → Kernel → Except Stop (Option Nat × Kernel)
  | 0, _, _, _, _ => .error .diverge
  | fuel + 1, va, remaining, src, k =>
      if remaining = 0 then .ok (some va, k)
      else do
        let (userBinPa, mm) ← k.mm.allocPage
        let k := k.setMm mm
        if userBinPa = 0 then pure (none, k)
        else do
          let toCopy := if pageSize < remaining then pageSize else remaining
          let mm := k.mm.setMem (memcpy userBinPa (k.mm.virtToPhys src) toCopy k.mm.mem)
          let k := k.setMm ((mm.deref (mm.physToVirt userBinPa) toCopy).deref src toCopy)
          let (ok, k) ← k.mapPage (k.procs p).pagetable va userBinPa (pteR ||| pteX ||| pteU)
          if !ok then pure (none, k)
          else loadBinary p fuel (u64 (va + pageSize)) (remaining - toCopy) (u64 (src + toCopy)) k

/-- The heap bounds and the user stack. -/
def createUserStack (k : Kernel) (p va : Nat) : Except Stop (Bool × Kernel) := do
  let k := k.setProc p { k.procs p with heapStart := alignUp va, heapEnd := alignUp va }
  let (ustack, mm) ← k.mm.allocPage
  let k := (k.setMm mm).setProc p { k.procs p with ustack := ustack }
  if ustack = 0 then pure (false, k)
  else
    k.mapPage (k.procs p).pagetable (userStackTop - userStackSize) ustack (pteR ||| pteW ||| pteU)

/-- The mappings every process shares: the kernel image and the UART. -/
def createShared (k : Kernel) (p : Nat) : Except Stop Kernel := do
  let k ← k.copyKernelMappings (k.procs p).pagetable (k.mm.physToVirt k.kernelPagetable)
  let (ok, k) ← k.mapPage (k.procs p).pagetable uart0 (k.mm.virtToPhys uart0) (pteR ||| pteW)
  -- "map_page() failed for UART, halting..."
  if !ok then .error .halt else pure k

/-- The last step: `RUNNABLE`, at the end of the run queue. -/
def enqueue (k : Kernel) (p : Nat) : Except Stop Kernel := do
  let k := k.setState p .runnable
  let nodes ← listAddTail k.nodes (.qNode p) .runQueue
  pure (k.setNodes nodes)

/-- `goto fail1`: the process is freed and `NULL` returned. -/
def fail1 (k : Kernel) (p : Nat) : Except Stop (Nat × Kernel) := do
  let k ← k.freeProc p
  pure (0, k)

/-- `create_proc`: the new process, or `NULL`. -/
def createProc (k : Kernel) (binary binarySize : Nat) : Except Stop (Nat × Kernel) := do
  let (p, k) ← k.allocProc
  if p = 0 then pure (0, k)
  else do
    let k := k.initPid p
    let (ok, k) ← k.createKernelHalf p
    if !ok then k.fail1 p
    else do
      let (va, k) ← loadBinary p (binarySize / pageSize + 2) userStartVa binarySize binary k
      match va with
      | none => k.fail1 p
      | some va => do
          let (ok, k) ← k.createUserStack p va
          if !ok then k.fail1 p
          else do
            let k ← k.createShared p
            let k ← k.enqueue p
            pure (p, k)

end Kernel

end SystemN
