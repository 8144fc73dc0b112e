/-
The page allocator on any number of harts.

In `Mm/Mem.lean` a call of `alloc_pages` or `free_pages` is one step.  Here it is cut at
the lock: `alloc_pages` releases it before it clears the block, and the clearing goes page
by page.  `Locked.Step` is the interleaving; `allocator` says what the calls do.
-/
import SystemN.Mm.Mem
import SystemN.Lib.Locked
import Mathlib.Data.Multiset.AddSub

namespace SystemN

namespace Mm

/-! ### The body of `alloc_pages` -/

/-- `takeBlock` up to `spin_unlock`: the block is not cleared yet. -/
def takeLocked (s : Mm) (order o block : Nat) : Except Stop (Nat × Mm) := do
  let s := s.derefPage s.vaOffset block
  let next := (s.pages block).next
  let s := (s.setPage block ⟨order, false, next⟩).setList o next
  let s ← splitLoop order block (o - order) s
  let addr ← s.pageAddr block
  pure (addr, s)

/-- The search loop; `none` is the way out behind it, to `return NULL`. -/
def allocLockedFrom (order : Nat) : Nat → Nat → Mm → Except Stop (Option Nat × Mm)
  | 0, _, s => .ok (none, s)
  | n + 1, o, s =>
      match s.freeLists o with
      | none => allocLockedFrom order n (o + 1) s
      | some block => do
          let (addr, s) ← s.takeLocked order o block
          pure (some addr, s)

/-- `alloc_pages` between `spin_lock` and `spin_unlock`. -/
def allocLocked (s : Mm) (order : Nat) : Except Stop (Option Nat × Mm) :=
  allocLockedFrom order (maxOrder + 1 - order) order s

/-- The part of `memset` that clears the page at `pa`. -/
def clearPage (s : Mm) (pa : Nat) : Mm :=
  (s.deref (s.physToVirt pa) pageSize).setMem fun a =>
    if pa ≤ a ∧ a < pa + pageSize then 0 else s.mem a

end Mm

namespace Harts

open Locked

/-! ### The calls -/

/-- A block is its address and the order that was asked for; `free_pages` is given the address
only. -/
inductive Call where
  | alloc (order : Nat)
  | free (block : Nat × Nat)

/-- The allocator, and the blocks each hart has been given and has not given back. -/
structure Shared (ι : Type*) where
  mm : Mm
  owned : ι → Multiset (Nat × Nat)

variable {ι : Type*} [DecidableEq ι]

/-- `alloc_pages` returns at once for an order above `MAX_ORDER`, and `free_pages` for `NULL`. -/
def early : Call → Option (Option Nat)
  | .alloc order => if maxOrder < order then some none else none
  | .free B => if B.1 = 0 then some none else none

/-- The calls that get to the lock: for any other order, and on a block the hart owns. -/
inductive Enter (h : ι) : Call → Shared ι → Shared ι → Prop
  | alloc {x : Shared ι} {order : Nat} (ho : order ≤ maxOrder) : Enter h (.alloc order) x x
  | free {x : Shared ι} {B : Nat × Nat} (hB : B ∈ x.owned h) (hne : B.1 ≠ 0) :
      Enter h (.free B) x { x with owned := Function.update x.owned h ((x.owned h).erase B) }

/-- The locked bodies; one that halts is not there.  The result is an address, or `none` for `NULL`
and for a `void` function. -/
inductive Body : Call → Shared ι → Option Nat → Shared ι → Prop
  | alloc {x : Shared ι} {order : Nat} {r : Option Nat} {mm : Mm}
      (hcall : x.mm.allocLocked order = .ok (r, mm)) : Body (.alloc order) x r { x with mm := mm }
  | free {x : Shared ι} {B : Nat × Nat} {mm : Mm} (hcall : x.mm.freePages B.1 = .ok mm) :
      Body (.free B) x none { x with mm := mm }

/-- Behind the unlock `alloc_pages` clears its block, from page 0 on. -/
def rest : Call → Option Nat → Option Nat
  | .alloc _, some _ => some 0
  | _, _ => none

/-- The address of page `i` of the block that is being cleared. -/
def clearAddr (addr i : Nat) : Nat := addr + i * pageSize

/-- Clearing page `i`. -/
def clear (c : Call) (r : Option Nat) (i : Nat) (x : Shared ι) : Option Nat × Shared ι :=
  match c, r with
  | .alloc order, some addr =>
      (if i + 1 < 2 ^ order then some (i + 1) else none,
        { x with mm := x.mm.clearPage (clearAddr addr i) })
  | _, _ => (none, x)

/-- A block that is returned belongs to the hart. -/
def leave (h : ι) (c : Call) (r : Option Nat) (x : Shared ι) : Shared ι :=
  match c, r with
  | .alloc order, some addr =>
      { x with owned := Function.update x.owned h ((addr, order) ::ₘ x.owned h) }
  | _, _ => x

/-- `alloc_pages` and `free_pages`, under `buddy_lock`. -/
def allocator : Component ι Call (Option Nat) Nat (Shared ι) where
  early := early
  enter := Enter
  body := Body
  rest := rest
  after := clear
  leave := leave

/-- What one call does when it is made alone; `none` stands for `NULL` again. -/
inductive Alone : Call → Mm → Option Nat → Mm → Prop
  | alloc {s s' : Mm} {order a : Nat} (hcall : s.allocPages order = .ok (a, s')) :
      Alone (.alloc order) s (if a = 0 then none else some a) s'
  | free {s s' : Mm} {B : Nat × Nat} (hcall : s.freePages B.1 = .ok s') : Alone (.free B) s none s'

end Harts

end SystemN
