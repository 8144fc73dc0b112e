/-
The slab allocator, `mm/snub.c`.

Objects are virtual addresses.  A free object holds the address of the next one in
its first eight bytes, so the free lists live in the memory of `Mm`; `NULL` is 0.
-/
import SystemN.Mm.Pagetable

namespace SystemN

@[simp] abbrev snubMinShift : Nat := 4
@[simp] abbrev snubMaxShift : Nat := 12
@[simp] abbrev snubNumClasses : Nat := snubMaxShift - snubMinShift + 1

/-- `snub_cache_t`, without its lock. -/
structure SnubCache where
  objectSize : Nat
  /-- The free list of objects. -/
  partialList : Nat
  deriving DecidableEq, Repr

/-- The page allocator with the `caches` above it. -/
structure Snub where
  mm : Mm
  caches : Nat → SnubCache

/-- The value of an `int` of this bit pattern, as the `ulong` it is extended to. -/
def sext32 (n : Nat) : Nat :=
  if n % 2 ^ 32 < 2 ^ 31 then n % 2 ^ 32 else n % 2 ^ 32 + (2 ^ 64 - 2 ^ 32)

/-- The loop of `size_to_idx`: `shift` is `SNUB_MAX_SHIFT + 1` less the rounds left. -/
def sizeToIdxLoop (size : Nat) : Nat → Nat
  | 0 => snubMaxShift + 1
  | n + 1 =>
      let shift := snubMaxShift + 1 - (n + 1)
      if 1 <<< shift < size then sizeToIdxLoop size n else shift

/-- `size_to_idx`, with `none` for -1. -/
def sizeToIdx (size : Nat) : Option Nat :=
  let shift := sizeToIdxLoop size snubNumClasses
  if snubMaxShift < shift then none else some (shift - snubMinShift)

namespace Snub

def setCache (s : Snub) (i head : Nat) : Snub :=
  { s with caches := Function.update s.caches i { s.caches i with partialList := head } }

/-- `*(void **)obj`. -/
def loadPtr (s : Snub) (obj : Nat) : Nat := s.mm.loadPte obj

/-- `*(void **)obj = v`. -/
def storePtr (s : Snub) (obj v : Nat) : Snub := { s with mm := s.mm.storePte obj v }

/-- `snub_init`. -/
def snubInit (mm : Mm) : Snub where
  mm := mm
  caches i := ⟨1 <<< (snubMinShift + i), 0⟩

/-- The loop that threads the objects of a new page: object `i` is next, `n` are left. -/
def threadObjs (page objectSize : Nat) : Nat → Nat → Nat → Snub → Nat × Snub
  | 0, _, head, s => (head, s)
  | n + 1, i, head, s =>
      let obj := u64 (page + i * objectSize)
      threadObjs page objectSize n (i + 1) obj (s.storePtr obj head)

/-- Give the empty cache `idx` a new page.  `PHYS_TO_VIRT` comes before the `NULL` check. -/
def refill (s : Snub) (idx : Nat) : Except Stop (Bool × Snub) := do
  let (pa, mm) ← s.mm.allocPage
  let s := { s with mm := mm }
  let page := s.mm.physToVirt pa
  if page = 0 then pure (false, s)
  else
    let objectSize := (s.caches idx).objectSize
    let (head, s) := threadObjs page objectSize (pageSize / objectSize) 0 0 s
    pure (true, s.setCache idx head)

/-- `kmalloc`. -/
def kmalloc (s : Snub) (size : Nat) : Except Stop (Nat × Snub) :=
  match sizeToIdx size with
  | none => .ok (0, s)
  | some idx => do
      let (refilled, s) ←
        if (s.caches idx).partialList = 0 then s.refill idx else pure (true, s)
      if !refilled then pure (0, s)
      else
        let obj := (s.caches idx).partialList
        let next := s.loadPtr obj
        pure (obj, { s with mm := s.mm.deref obj 8 }.setCache idx next)

/-- `kzalloc`. -/
def kzalloc (s : Snub) (size : Nat) : Except Stop (Nat × Snub) := do
  let (ptr, s) ← s.kmalloc size
  if ptr = 0 then pure (0, s)
  else do
    let m ← memset s.mm.mem (s.mm.virtToPhys ptr) 0 size
    pure (ptr, { s with mm := (s.mm.deref ptr size).setMem m })

/-- What `kfree` takes for the offset of `ptr` in its page: `page_idx` and its product with
`PAGE_SIZE` are of type `int`. -/
def kfreeDiff (s : Snub) (ptr : Nat) : Nat :=
  let offset := sub64 ptr s.mm.buddyBasePhys
  let pageIdx := offset / pageSize % 2 ^ 32
  let pageBase := u64 (s.mm.buddyBasePhys + sext32 (pageIdx * pageSize))
  sub64 ptr pageBase

/-- The class `kfree` guesses, from class `i` on with `n` classes left. -/
def kfreeClass (s : Snub) (diff : Nat) : Nat → Nat → Option Nat
  | 0, _ => none
  | n + 1, i =>
      if diff % (s.caches i).objectSize = 0 ∧ diff < pageSize then some i
      else kfreeClass s diff n (i + 1)

/-- `kfree`. -/
def kfree (s : Snub) (ptr : Nat) : Except Stop Snub :=
  match s.kfreeClass (s.kfreeDiff ptr) snubNumClasses 0 with
  | some i => .ok ((s.storePtr ptr (s.caches i).partialList).setCache i ptr)
  | none => do
      let mm ← s.mm.freePages (s.mm.virtToPhys ptr)
      pure { s with mm := mm }

end Snub

end SystemN
