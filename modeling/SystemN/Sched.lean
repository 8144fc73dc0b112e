/-
The scheduler, `sched.c`, with `swtch.S` and the timer of `timer.h`.

`swtch` is the last thing `schedule` does, and the kernel goes on in the context it
loads; the model's `schedule` ends there, with that context in the registers.
-/
import SystemN.Kernel

namespace SystemN.Kernel

/-- `swtch`: save the registers in `old->ctx` and load those of `new->ctx`. -/
def swtch (k : Kernel) (old new : Nat) : Kernel :=
  let k := k.setProc old { k.procs old with ctx := k.hart.ctx }
  k.setCtx (k.procs new).ctx

/-- `load_pagetable`. -/
def loadPagetable (k : Kernel) (pagetable : Nat) : Kernel := k.writeSatp (makeSatp pagetable)

def setState (k : Kernel) (p : Nat) (st : ProcState) : Kernel :=
  k.setProc p { k.procs p with state := st }

def setCurr (k : Kernel) (p : Nat) : Kernel := { k with cpu := { k.cpu with proc := p } }

def setNeedsSched (k : Kernel) (b : Bool) : Kernel :=
  { k with cpu := { k.cpu with needsSched := b } }

/-- Put the outgoing process back on the run queue, unless it is idle. -/
def requeue (k : Kernel) (old : Nat) : Except Stop Kernel :=
  if !(k.procs old).isIdle then do
    let k := k.setState old .runnable
    let nodes ← listAddTail k.nodes (.qNode old) .runQueue
    pure (k.setNodes nodes)
  else pure k

/-- Switch to the process `new`. -/
def dispatch (k : Kernel) (old new : Nat) : Kernel :=
  let k := (k.setCurr new).writeStvec .trapVector
  let k := k.loadPagetable (k.procs new).pagetable
  let k := k.writeSscratch (k.procs new).tf
  k.swtch old new

/-- Switch to the idle process, at the start of its loop. -/
def runIdle (k : Kernel) (old : Nat) : Kernel :=
  let idle := k.idleProc
  let k := k.setCurr idle
  let ctx := { (k.procs idle).ctx with
    ra := k.symbols.idleLoop, sp := u64 ((k.procs idle).kstack + kstackSize) }
  let k := k.setProc idle { k.procs idle with ctx := ctx }
  let k := k.loadPagetable k.kernelPagetable
  k.swtch old idle

/-- `schedule`. -/
def schedule (k : Kernel) : Except Stop Kernel := do
  let old := k.cpu.proc
  let node ← follow (k.nodes .runQueue).next
  if node ≠ .runQueue then do
    -- next process found
    let new ← node.procOf
    let nodes ← listDel k.nodes (.qNode new)
    let k := (k.setNodes nodes).setState new .running
    let k ← k.requeue old
    pure (k.dispatch old new)
  else if !(k.procs old).isIdle then pure (k.runIdle old)
  else pure k

/-! ### `timer_handle` -/

/-- Wake `p`: take it off the sleep queue and put it at the end of the run queue. -/
def wake (k : Kernel) (p : Nat) : Except Stop Kernel := do
  let nodes ← listDel k.nodes (.qNode p)
  let k := (k.setNodes nodes).setState p .runnable
  let nodes ← listAddTail k.nodes (.qNode p) .runQueue
  pure (k.setNodes nodes)

/-- The `list_for_each_safe` loop over the sleep queue: `tmp` is read before the body changes
the lists.  A walk over more nodes than there are processes goes round. -/
def timerLoop (now : Nat) : Nat → Node → Bool → Kernel → Except Stop (Bool × Kernel)
  | 0, _, _, _ => .error .diverge
  | fuel + 1, pos, needSched, k => do
      let tmp ← follow (k.nodes pos).next
      if pos = .sleepQueue then pure (needSched, k)
      else do
        let p ← pos.procOf
        if (k.procs p).sleepUntil ≤ now then do
          let k ← k.wake p
          timerLoop now fuel tmp true k
        else timerLoop now fuel tmp needSched k

/-- What `timer_handle` does with the sleep queue. -/
def wakeSleepers (k : Kernel) (now : Nat) : Except Stop Kernel := do
  let first ← follow (k.nodes .sleepQueue).next
  let (needSched, k) ← timerLoop now (k.nextPid + 1) first false k
  pure (if needSched then k.setNeedsSched true else k)

/-- `timer_handle`; `clock i` is what the `i`-th `read_time()` of the trap returns. -/
def timerHandle (k : Kernel) (clock : Nat → Nat) : Except Stop Kernel :=
  (k.writeStimecmp (u64 (clock 0 + timerInterval))).wakeSleepers (clock 1)

end SystemN.Kernel
