/-
Booting, `start.c`: the kernel page table, and the first steps in S-mode.
-/
import SystemN.Proc

namespace SystemN

/-! ### `setup_kernel_pagetable` and `mm_init` -/

/-- One loop of `setup_kernel_pagetable`: `n` pages from `pa`. -/
def mapRange (kernelPagetable perm : Nat) : Nat → Nat → Mm → Except Stop Mm
  | 0, _, s => .ok s
  | n + 1, pa, s => do
      let (ok, s) ← s.mapPage kernelPagetable (pa + vaOffsetConst) pa perm
      -- "map_page() failed for kernel ..., halting..."
      if !ok then .error .halt else mapRange kernelPagetable perm n (pa + pageSize) s

/-- The number of rounds of `for (pa = lo; pa < hi; pa += PAGE_SIZE)`. -/
def pagesIn (lo hi : Nat) : Nat := (hi - lo + pageSize - 1) / pageSize

/-- `setup_kernel_pagetable`. -/
def setupKernelPagetable (L : Layout) (kernelPagetable : Nat) (s : Mm) : Except Stop Mm := do
  let s ← mapRange kernelPagetable (pteR ||| pteX) (pagesIn L.textStart L.textEnd) L.textStart s
  let s ← mapRange kernelPagetable pteR (pagesIn L.rodataStart L.rodataEnd) L.rodataStart s
  let s ← mapRange kernelPagetable (pteR ||| pteW) (pagesIn L.dataStart kernelEndPhys) L.dataStart s
  let (ok, s) ← s.mapPage kernelPagetable uart0 (sub64 uart0 vaOffsetConst) (pteR ||| pteW)
  if !ok then .error .halt else pure s

/-- `mm_init`: the kernel page table, and the allocators as S-mode finds them. -/
def mmInit (L : Layout) (m : Nat → UInt8) : Except Stop (Nat × Snub) := do
  let (kernelPagetable, mm) ← Mm.buddyAllocatorInit L m
  let mm ← setupKernelPagetable L kernelPagetable mm
  let snub := Snub.snubInit mm
  pure (kernelPagetable, { snub with mm := { snub.mm with vaOffset := vaOffsetConst } })

namespace Kernel

/-! ### `s_mode_main` -/

/-- The queues of the CPU, empty. -/
def initQueues (k : Kernel) : Kernel :=
  k.setNodes (listHeadInit (listHeadInit k.nodes .runQueue) .sleepQueue)

/-- `timer_init`. -/
def timerInit (k : Kernel) (now : Nat) : Kernel :=
  k.writeStimecmp (u64 (now + timerInterval))

/-- `setup_idle_proc`; `stack` is the address of `_stack`. -/
def setupIdleProc (k : Kernel) (stack : Nat) : Kernel :=
  let idle := k.idleProc
  let kstack := stack + k.cpu.id * kstackSize
  let k := k.setProc idle { Proc.zero with
    isIdle := true
    state := .running
    pagetable := k.kernelPagetable
    kstack := kstack
    ctx := { Context.zero with ra := k.symbols.idleLoop, sp := kstack + kstackSize } }
  let k := k.setNodes (Function.update k.nodes (.qNode idle) ⟨none, none⟩)
  if k.cpu.id ≠ 0 then k.setCurr idle else k

/-- What `shell_init` does with the process it has created. -/
def makeCurrent (k : Kernel) (shell : Nat) : Except Stop Kernel := do
  let nodes ← listDel k.nodes (.qNode shell)
  let k := (k.setNodes nodes).setState shell .running
  pure ((k.setProc shell { k.procs shell with boundCpu := 0 }).setCurr shell)

/-- `shell_init`; the return value of `create_proc` is not checked. -/
def shellInit (k : Kernel) (binary size : Nat) : Except Stop Kernel := do
  let (shell, k) ← k.createProc binary size
  k.makeCurrent shell

/-- The queues of a CPU before the first trap: `create_proc` has put the processes `qs` on the
run queue, and then `shell_init` has created `shell` and made it current. -/
def startQueues (k : Kernel) (stack shell : Nat) (qs : List Nat) : Except Stop Kernel := do
  let k := k.initQueues.setupIdleProc stack
  let k ← qs.foldlM enqueue k
  let k ← k.enqueue shell
  k.makeCurrent shell

/-- `kzalloc` does not return the object of one of the processes `ps` again. -/
def AllocsFresh (k : Kernel) (ps : List Nat) : Prop :=
  ∀ p k', k.allocProc = .ok (p, k') → p ∉ ps ∧ p ≠ k.idleProc

/-- The states of hart 0 from the queues and the idle process on, through any number of calls of
`create_proc`; with the processes these have returned. -/
inductive Boots (k₀ : Kernel) (stack : Nat) : List Nat → Kernel → Prop where
  | init : Boots k₀ stack [] (k₀.initQueues.setupIdleProc stack)
  | create {ps : List Nat} {k : Kernel} {binary size : Nat} {r : Nat × Kernel}
      (h : Boots k₀ stack ps k) (hfresh : k.AllocsFresh ps)
      (hk : k.createProc binary size = .ok r) :
      Boots k₀ stack (if r.1 = 0 then ps else ps ++ [r.1]) r.2

end Kernel

end SystemN
