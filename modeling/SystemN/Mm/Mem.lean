/-
The page allocator, `mm/mem.c`.

`Mm` holds the file's static variables, the physical memory, and a record of the
addresses the code has dereferenced so far.  A `page_t *` is the index it denotes
in `page_array`, whichever alias (physical or virtual) the code holds; what the
alias is matters only for `derefs`, where the address actually used is written
down.  The spinlock is left out: the functions here are the locked bodies.

The loops are recursions on the number of rounds left, so a run of the model is a
computation; where the C loop has no bound of its own the rounds are those after
which it can never end, and running out of them is `Stop.diverge`.
-/
import SystemN.Types

namespace SystemN

/-- `page_t`, with `next` an index of `page_array`. -/
structure Page where
  order : Nat
  isFree : Bool
  next : Option Nat
  deriving DecidableEq, Repr

/-- `sizeof(page_t)`. -/
@[simp] abbrev sizeofPage : Nat := 16

/-- The static variables of `mem.c` and the memory they describe. -/
structure Mm where
  vaOffset : Nat
  buddyBasePhys : Nat
  numPages : Nat
  /-- The physical address `page_array` holds. -/
  pageArray : Nat
  /-- The records of `page_array`. -/
  pages : Nat → Page
  freeLists : Nat → Option Nat
  /-- The bytes of physical memory. -/
  mem : Nat → UInt8
  /-- Address and length of every access the code has made through a pointer. -/
  derefs : List (Nat × Nat)

namespace Mm

/-- `PHYS_TO_VIRT`. -/
def physToVirt (s : Mm) (pa : Nat) : Nat := u64 (pa + s.vaOffset)

/-- `VIRT_TO_PHYS`. -/
def virtToPhys (s : Mm) (va : Nat) : Nat := sub64 va s.vaOffset

/-! ### Updates -/

/-- Record an access of `len` bytes at address `a`. -/
def deref (s : Mm) (a len : Nat) : Mm := { s with derefs := (a, len) :: s.derefs }

def setPage (s : Mm) (i : Nat) (p : Page) : Mm := { s with pages := Function.update s.pages i p }

def setList (s : Mm) (o : Nat) (h : Option Nat) : Mm :=
  { s with freeLists := Function.update s.freeLists o h }

def setMem (s : Mm) (m : Nat → UInt8) : Mm := { s with mem := m }

/-- The physical address `&page_array[i]`. -/
def pagePtr (s : Mm) (i : Nat) : Nat := s.pageArray + i * sizeofPage

/-- An access to record `i` of `page_array` through the pointer `&page_array[i] + off`. -/
def derefPage (s : Mm) (off i : Nat) : Mm := s.deref (u64 (s.pagePtr i + off)) sizeofPage

end Mm

/-! ### `memset` -/

/-- The loop of `memset`; `i` is a `uint`, so it goes back to zero after `2 ^ 32 - 1`. -/
def memsetLoop (dst : Nat) (c : UInt8) (n : Nat) : Nat → Nat → (Nat → UInt8) →
    Except Stop (Nat → UInt8)
  | 0, _, _ => .error .diverge
  | fuel + 1, i, m =>
      if i < n then memsetLoop dst c n fuel ((i + 1) % 2 ^ 32) (Function.update m (dst + i) c)
      else .ok m

/-- `memset`: `n` bytes from `dst`.  More than `2 ^ 32` rounds mean that `i` has come back. -/
def memset (m : Nat → UInt8) (dst : Nat) (c : UInt8) (n : Nat) : Except Stop (Nat → UInt8) :=
  memsetLoop dst c n (2 ^ 32) 0 m

namespace Mm

/-! ### Indices, addresses and buddies -/

/-- `get_page_struct`: the index of the record of the page at `pa`. -/
def getPageStruct (s : Mm) (pa : Nat) : Except Stop Nat :=
  let idx := sub64 pa s.buddyBasePhys / pageSize
  if s.numPages ≤ idx then .error .halt else .ok idx

/-- `page_addr`. -/
def pageAddr (s : Mm) (idx : Nat) : Except Stop Nat :=
  if s.numPages ≤ idx then .error .halt else .ok (u64 (s.buddyBasePhys + idx * pageSize))

/-- `buddy_of`. -/
def buddyOf (s : Mm) (addr order : Nat) : Nat :=
  let block := sub64 addr s.buddyBasePhys
  let size := pageSize <<< order
  let buddy := block ^^^ size
  u64 (buddy + s.buddyBasePhys)

/-- `early_alloc`: the address handed out and the state after it. -/
def earlyAlloc (s : Mm) (kernelEnd size : Nat) : Nat × Mm :=
  let size := alignUp size
  let base := if s.buddyBasePhys = 0 then alignUp kernelEnd else s.buddyBasePhys
  (base, { s with buddyBasePhys := u64 (base + size) })

/-- Make record `i` a free block of order `o` at the head of its list; `off` tells through
which alias the record is written. -/
def pushFree (s : Mm) (off i o : Nat) : Mm :=
  ((s.derefPage off i).setPage i ⟨o, true, s.freeLists o⟩).setList o (some i)

/-! ### `buddy_allocator_init` -/

/-- The inner loop of the population: the largest order at which `curr` is aligned and fits. -/
def initOrder (curr physEnd : Nat) : Nat → Nat
  | 0 => 0
  | order + 1 =>
      if physEnd < u64 (curr + (pageSize <<< (order + 1))) ∨
          curr &&& ((pageSize <<< (order + 1)) - 1) ≠ 0 then
        initOrder curr physEnd order
      else order + 1

/-- The loop that puts the initial blocks on the free lists. -/
def populate (physEnd : Nat) : Nat → Nat → Mm → Except Stop Mm
  | 0, curr, s => if u64 (curr + pageSize) ≤ physEnd then .error .diverge else .ok s
  | fuel + 1, curr, s =>
      if u64 (curr + pageSize) ≤ physEnd then do
        let order := initOrder curr physEnd maxOrder
        let pg ← s.getPageStruct curr
        populate physEnd fuel (u64 (curr + (pageSize <<< order))) (s.pushFree 0 pg order)
      else .ok s

/-- The statics before the first call, over a memory with any contents. -/
def reset (m : Nat → UInt8) : Mm where
  vaOffset := 0
  buddyBasePhys := 0
  numPages := 0
  pageArray := 0
  pages := fun _ => ⟨0, false, none⟩
  freeLists := fun _ => none
  mem := m
  derefs := []

/-- `buddy_allocator_init`, with the `kernel_pagetable` it allocates. -/
def buddyAllocatorInit (L : Layout) (m : Nat → UInt8) : Except Stop (Nat × Mm) := do
  let (kernelPagetable, s) := (reset m).earlyAlloc L.kernelEnd pageSize
  let m ← memset s.mem kernelPagetable 0 pageSize
  let s := s.setMem m
  let physStart := s.buddyBasePhys
  let physEnd := userEnd
  let perPageCost := pageSize + sizeofPage
  let estimatedPages := sub64 physEnd physStart / perPageCost
  let (pageArray, s) := s.earlyAlloc L.kernelEnd (u64 (estimatedPages * sizeofPage))
  let m ← memset s.mem pageArray 0 (u64 (estimatedPages * sizeofPage))
  let s := { s.setMem m with pageArray := pageArray, pages := fun _ => ⟨0, false, none⟩ }
  let s := { s with buddyBasePhys := alignUp s.buddyBasePhys }
  let physStart := s.buddyBasePhys
  let s := { s with numPages := sub64 userEnd s.buddyBasePhys / pageSize }
  let s := { s with freeLists := fun _ => none }
  let s ← populate physEnd s.numPages physStart s
  pure (kernelPagetable, s)

/-! ### `alloc_pages` -/

/-- The split loop: `curr` runs from `order + d` down to `order + 1`. -/
def splitLoop (order blockIdx : Nat) : Nat → Mm → Except Stop Mm
  | 0, s => .ok s
  | d + 1, s =>
      let curr := order + (d + 1)
      let buddyIdx := blockIdx + 2 ^ (curr - 1)
      if s.numPages ≤ buddyIdx then .error .halt
      else splitLoop order blockIdx d (s.pushFree s.vaOffset buddyIdx (curr - 1))

/-- The body of the search loop for a non-empty list: pop `block` off list `o`, split it down
to `order`, and zero what is handed out. -/
def takeBlock (s : Mm) (order o block : Nat) : Except Stop (Nat × Mm) := do
  let s := s.derefPage s.vaOffset block
  let next := (s.pages block).next
  let s := (s.setPage block ⟨order, false, next⟩).setList o next
  let s ← splitLoop order block (o - order) s
  let addr ← s.pageAddr block
  let m ← memset s.mem addr 0 (pageSize <<< order)
  pure (addr, (s.deref (s.physToVirt addr) (pageSize <<< order)).setMem m)

/-- The search loop: `n` lists are left, and `o` is the next one. -/
def allocFrom (order : Nat) : Nat → Nat → Mm → Except Stop (Nat × Mm)
  | 0, _, s => .ok (0, s)
  | n + 1, o, s =>
      match s.freeLists o with
      | none => allocFrom order n (o + 1) s
      | some block => s.takeBlock order o block

/-- `alloc_pages`: the physical address of a zeroed block, or `NULL`. -/
def allocPages (s : Mm) (order : Nat) : Except Stop (Nat × Mm) :=
  if maxOrder < order then .ok (0, s) else allocFrom order (maxOrder + 1 - order) order s

/-- `alloc_page`. -/
def allocPage (s : Mm) : Except Stop (Nat × Mm) := s.allocPages 0

/-! ### `free_pages` -/

/-- Where a `page_t **` points: at the head of the list, or at the `next` of a record. -/
inductive Link where
  | head
  | next (i : Nat)
  deriving DecidableEq, Repr

def readLink (s : Mm) (o : Nat) : Link → Option Nat
  | .head => s.freeLists o
  | .next i => (s.pages i).next

def writeLink (s : Mm) (o : Nat) (v : Option Nat) : Link → Mm
  | .head => s.setList o v
  | .next i => s.setPage i { s.pages i with next := v }

def derefLink (s : Mm) : Link → Mm
  | .head => s
  | .next i => s.derefPage 0 i

/-- `while (*p && *p != buddy) p = &(*p)->next;` -/
def findLink (o buddy : Nat) : Nat → Link → Mm → Except Stop (Link × Mm)
  | 0, _, _ => .error .diverge
  | fuel + 1, p, s =>
      let s := s.derefLink p
      match s.readLink o p with
      | none => .ok (p, s)
      | some q => if q = buddy then .ok (p, s) else findLink o buddy fuel (.next q) s

/-- Remove `buddy` from list `o`.  A walk of more than `num_pages` links goes round. -/
def unlink (s : Mm) (o buddy : Nat) : Except Stop Mm := do
  let (p, s) ← findLink o buddy (s.numPages + 1) .head s
  if s.readLink o p = some buddy then pure (s.writeLink o (s.pages buddy).next p) else pure s

/-- The merge loop: `order` is `MAX_ORDER` less the rounds left.  It returns the address and
the order of the merged block. -/
def mergeLoop : Nat → Nat → Mm → Except Stop (Nat × Nat × Mm)
  | 0, addr, s => .ok (addr, maxOrder, s)
  | n + 1, addr, s => do
      let order := maxOrder - (n + 1)
      let buddyAddr := s.buddyOf addr order
      let buddy ← s.getPageStruct buddyAddr
      let s := s.derefPage 0 buddy
      if !(s.pages buddy).isFree || (s.pages buddy).order != order then pure (addr, order, s)
      else do
        let s ← s.unlink order buddy
        let s := s.setPage buddy { s.pages buddy with isFree := false }
        mergeLoop n (if buddyAddr < addr then buddyAddr else addr) s

/-- `free_pages`. -/
def freePages (s : Mm) (addr : Nat) : Except Stop Mm :=
  if addr = 0 then .ok s
  else do
    let pg ← s.getPageStruct addr
    let s := s.derefPage 0 pg
    if (s.pages pg).isFree then pure s
    else do
      let order := (s.pages pg).order
      let s := s.setPage pg { s.pages pg with isFree := true }
      let (addr, order, s) ← mergeLoop (maxOrder - order) addr s
      let merged ← s.getPageStruct addr
      pure (s.pushFree 0 merged order)

/-- `free_page`. -/
def freePage (s : Mm) (ptr : Nat) : Except Stop Mm := s.freePages ptr

end Mm

end SystemN
