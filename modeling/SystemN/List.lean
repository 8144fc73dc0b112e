/-
The intrusive lists of `list.h`.

The nodes are those of one CPU: the heads of its two queues, and the `q_node` of
each process, which is one node however many queues try to hold it.  A `NULL` link
can be stored but not followed.
-/
import SystemN.Types
import SystemN.Lib.Ring

namespace SystemN

open Rings (Links)

/-- The `list_node_t` objects of a CPU and its processes. -/
inductive Node where
  | runQueue
  | sleepQueue
  /-- `&p->q_node`. -/
  | qNode (p : Nat)
  deriving DecidableEq, Repr

/-- `container_of(node, proc_t, q_node)`.  What lies in front of a queue head is no process. -/
def Node.procOf : Node → Except Stop Nat
  | .qNode p => .ok p
  | .runQueue | .sleepQueue => .error .halt

section

variable {α : Type} [DecidableEq α]

def setPrev (nodes : α → Links α) (a : α) (v : Option α) : α → Links α :=
  Function.update nodes a { nodes a with prev := v }

def setNext (nodes : α → Links α) (a : α) (v : Option α) : α → Links α :=
  Function.update nodes a { nodes a with next := v }

/-- Follow a link.  The page fault on `NULL` ends in the halt loop of `trap_handler`. -/
def follow : Option α → Except Stop α
  | some a => .ok a
  | none => .error .halt

/-- `LIST_HEAD_INIT`. -/
def listHeadInit (nodes : α → Links α) (ptr : α) : α → Links α :=
  setPrev (setNext nodes ptr (some ptr)) ptr (some ptr)

/-- `list_add`. -/
def listAdd (nodes : α → Links α) (new head : α) : Except Stop (α → Links α) := do
  let nodes := setNext nodes new (nodes head).next
  let nodes := setPrev nodes new (some head)
  let next ← follow (nodes head).next
  let nodes := setPrev nodes next (some new)
  pure (setNext nodes head (some new))

/-- `list_add_tail`. -/
def listAddTail (nodes : α → Links α) (new head : α) : Except Stop (α → Links α) := do
  let nodes := setNext nodes new (some head)
  let nodes := setPrev nodes new (nodes head).prev
  let prev ← follow (nodes head).prev
  let nodes := setNext nodes prev (some new)
  pure (setPrev nodes head (some new))

/-- `list_del`. -/
def listDel (nodes : α → Links α) (entry : α) : Except Stop (α → Links α) := do
  let next ← follow (nodes entry).next
  let nodes := setPrev nodes next (nodes entry).prev
  let prev ← follow (nodes entry).prev
  let nodes := setNext nodes prev (nodes entry).next
  pure (setNext (setPrev nodes entry none) entry none)

/-- `list_empty`. -/
def listEmpty (nodes : α → Links α) (head : α) : Bool := (nodes head).next == some head

/-- `list_in_queue`. -/
def listInQueue (nodes : α → Links α) (node : α) : Bool :=
  (nodes node).next.isSome && (nodes node).prev.isSome

end

end SystemN
