/-
The calls of both allocators with their locks.

`Mm/Mem.lean` and `Mm/Snub.lean` leave the spinlocks out: a call there is one step.  Here
it is a program, cut at every loop iteration and at every lock, and what is printed in
front of a halt loop is there too.  The bodies are the same; `Proofs/Mm/Calls.lean` says so.

`uart_lock` is taken in one place, when `page_addr` is given an index past the end.

`Step` runs such calls on any number of harts, over the spinlocks of `Spinlock.lean`.
-/
import SystemN.Mm.Snub
import SystemN.Spinlock
import SystemN.Lib.Program

namespace SystemN.Calls

open Programs

/-- The locks of `mem.c`, `snub.c` and `uart.c`. -/
inductive Lock where
  | cache (i : Nat)
  | buddy
  | uart
  deriving DecidableEq, Repr

/-- The order in which they are taken. -/
def Lock.rank : Lock → Nat
  | .cache _ => 0
  | .buddy => 1
  | .uart => 2

/-- What the harts share: the statics and the memory, and what has been printed. -/
structure Shared where
  snub : Snub
  uart : List Char

/-- A piece of a call. -/
abbrev Code := Prog Stop Lock Shared

/-- The allocators. -/
def snubPart : Prog.Part Shared Snub where
  get x := x.snub
  put x s := { x with snub := s }
  get_put _ _ := rfl
  put_put _ _ _ := rfl

/-- The page allocator alone. -/
def mmPart : Prog.Part Shared Mm where
  get x := x.snub.mm
  put x s := { x with snub := { x.snub with mm := s } }
  get_put _ _ := rfl
  put_put _ _ _ := rfl

/-- What is printed. -/
def uartPart : Prog.Part Shared (List Char) where
  get x := x.uart
  put x cs := { x with uart := cs }
  get_put _ _ := rfl
  put_put _ _ _ := rfl

def readSnub : Code Snub := snubPart.read

def modifySnub (f : Snub → Snub) : Code Unit := snubPart.modify f

def readMm : Code Mm := mmPart.read

def modifyMm (f : Mm → Mm) : Code Unit := mmPart.modify f

/-! ### `uart.c` -/

def uartPutc (c : Char) : Code Unit := uartPart.modify fun cs => cs ++ [c]

def uartPuts : List Char → Code Unit
  | [] => pure ()
  | c :: cs => do
      uartPutc c
      uartPuts cs

/-- `uart_putlong`: the decimal digits. -/
def uartPutlong (val : Nat) : Code Unit := uartPuts (Nat.toDigits 10 val)

/-! ### `mem.c` -/

def getPageStruct (pa : Nat) : Code Nat := do
  let s ← readMm
  let idx := sub64 pa s.buddyBasePhys / pageSize
  if s.numPages ≤ idx then do
    uartPuts "get_page_struct: INVALID idx: ".toList
    uartPutlong idx
    uartPutc '\n'
    Prog.stop .halt
  else pure idx

def pageAddr (idx : Nat) : Code Nat := do
  let s ← readMm
  if s.numPages ≤ idx then do
    Prog.acquire .uart
    uartPuts "page_addr: INVALID IDX ".toList
    uartPutlong idx
    uartPutc '\n'
    Prog.release .uart
    Prog.stop .halt
  else pure (u64 (s.buddyBasePhys + idx * pageSize))

/-- The loop of `memset`. -/
def memsetLoop (dst : Nat) (c : UInt8) (n : Nat) : Nat → Nat → Code Unit
  | 0, _ => Prog.stop .diverge
  | fuel + 1, i =>
      if i < n then do
        modifyMm fun s => s.setMem (Function.update s.mem (dst + i) c)
        memsetLoop dst c n fuel ((i + 1) % 2 ^ 32)
      else pure ()

/-- The split loop of `alloc_pages`. -/
def splitLoop (order blockIdx : Nat) : Nat → Code Unit
  | 0 => pure ()
  | d + 1 => do
      let curr := order + (d + 1)
      let buddyIdx := blockIdx + 2 ^ (curr - 1)
      let s ← readMm
      if s.numPages ≤ buddyIdx then do
        uartPuts "ERROR: buddy_idx out of bounds\n".toList
        Prog.stop .halt
      else do
        modifyMm fun s => s.pushFree s.vaOffset buddyIdx (curr - 1)
        splitLoop order blockIdx d

/-- The body of the search loop for a non-empty list. -/
def takeBlock (order o block : Nat) : Code Nat := do
  modifyMm fun s =>
    let s := s.derefPage s.vaOffset block
    let next := (s.pages block).next
    (s.setPage block ⟨order, false, next⟩).setList o next
  splitLoop order block (o - order)
  let addr ← pageAddr block
  Prog.release .buddy
  modifyMm fun s => s.deref (s.physToVirt addr) (pageSize <<< order)
  memsetLoop addr 0 (pageSize <<< order) (2 ^ 32) 0
  pure addr

/-- The search loop of `alloc_pages`. -/
def allocFrom (order : Nat) : Nat → Nat → Code Nat
  | 0, _ => do
      Prog.release .buddy
      pure 0
  | n + 1, o => do
      let s ← readMm
      match s.freeLists o with
      | none => allocFrom order n (o + 1)
      | some block => takeBlock order o block

def allocPages (order : Nat) : Code Nat :=
  if maxOrder < order then pure 0
  else do
    Prog.acquire .buddy
    allocFrom order (maxOrder + 1 - order) order

def allocPage : Code Nat := allocPages 0

/-- `while (*p && *p != buddy) p = &(*p)->next;` -/
def findLink (o buddy : Nat) : Nat → Mm.Link → Code Mm.Link
  | 0, _ => Prog.stop .diverge
  | fuel + 1, p => do
      modifyMm fun s => s.derefLink p
      let s ← readMm
      match s.readLink o p with
      | none => pure p
      | some q => if q = buddy then pure p else findLink o buddy fuel (.next q)

/-- Remove `buddy` from list `o`. -/
def unlink (o buddy : Nat) : Code Unit := do
  let s ← readMm
  let p ← findLink o buddy (s.numPages + 1) .head
  let s ← readMm
  if s.readLink o p = some buddy then modifyMm fun s => s.writeLink o (s.pages buddy).next p
  else pure ()

/-- The merge loop of `free_pages`. -/
def mergeLoop : Nat → Nat → Code (Nat × Nat)
  | 0, addr => pure (addr, maxOrder)
  | n + 1, addr => do
      let order := maxOrder - (n + 1)
      let s ← readMm
      let buddyAddr := s.buddyOf addr order
      let buddy ← getPageStruct buddyAddr
      modifyMm fun s => s.derefPage 0 buddy
      let s ← readMm
      if !(s.pages buddy).isFree || (s.pages buddy).order != order then pure (addr, order)
      else do
        unlink order buddy
        modifyMm fun s => s.setPage buddy { s.pages buddy with isFree := false }
        mergeLoop n (if buddyAddr < addr then buddyAddr else addr)

def freePages (addr : Nat) : Code Unit :=
  if addr = 0 then pure ()
  else do
    Prog.acquire .buddy
    let pg ← getPageStruct addr
    modifyMm fun s => s.derefPage 0 pg
    let s ← readMm
    if (s.pages pg).isFree then Prog.release .buddy
    else do
      let order := (s.pages pg).order
      modifyMm fun s => s.setPage pg { s.pages pg with isFree := true }
      let (addr, order) ← mergeLoop (maxOrder - order) addr
      let merged ← getPageStruct addr
      modifyMm fun s => s.pushFree 0 merged order
      Prog.release .buddy

/-! ### `snub.c` -/

/-- The loop that threads the objects of a new page. -/
def threadObjs (page objectSize : Nat) : Nat → Nat → Nat → Code Nat
  | 0, _, head => pure head
  | n + 1, i, head => do
      let obj := u64 (page + i * objectSize)
      modifySnub fun s => s.storePtr obj head
      threadObjs page objectSize n (i + 1) obj

/-- Give the empty cache `idx` a new page. -/
def refill (idx : Nat) : Code Bool := do
  let pa ← allocPage
  let s ← readSnub
  let page := s.mm.physToVirt pa
  if page = 0 then pure false
  else do
    let objectSize := (s.caches idx).objectSize
    let head ← threadObjs page objectSize (pageSize / objectSize) 0 0
    modifySnub fun s => s.setCache idx head
    pure true

/-- Take the first object of cache `idx`, which is not empty. -/
def takeObj (idx : Nat) : Code Nat := do
  let s ← readSnub
  let obj := (s.caches idx).partialList
  let next := s.loadPtr obj
  modifySnub fun s => { s with mm := s.mm.deref obj 8 }.setCache idx next
  Prog.release (.cache idx)
  pure obj

def kmalloc (size : Nat) : Code Nat :=
  match sizeToIdx size with
  | none => pure 0
  | some idx => do
      Prog.acquire (.cache idx)
      let s ← readSnub
      let refilled ← if (s.caches idx).partialList = 0 then refill idx else pure true
      if !refilled then do
        Prog.release (.cache idx)
        pure 0
      else takeObj idx

def kzalloc (size : Nat) : Code Nat := do
  let ptr ← kmalloc size
  if ptr = 0 then pure 0
  else do
    modifyMm fun s => s.deref ptr size
    let s ← readMm
    memsetLoop (s.virtToPhys ptr) 0 size (2 ^ 32) 0
    pure ptr

/-- The loop of `kfree` over the classes: class `i` is next, `n` are left. -/
def kfreeLoop (ptr diff : Nat) : Nat → Nat → Code Unit
  | 0, _ => do
      let s ← readSnub
      freePages (s.mm.virtToPhys ptr)
  | n + 1, i => do
      let s ← readSnub
      if diff % (s.caches i).objectSize = 0 ∧ diff < pageSize then do
        Prog.acquire (.cache i)
        modifySnub fun s => (s.storePtr ptr (s.caches i).partialList).setCache i ptr
        Prog.release (.cache i)
      else kfreeLoop ptr diff n (i + 1)

def kfree (ptr : Nat) : Code Unit := do
  let s ← readSnub
  kfreeLoop ptr (s.kfreeDiff ptr) snubNumClasses 0

/-! ### The calls -/

/-- A call, with any arguments. -/
inductive Call where
  | kmalloc (size : Nat)
  | kfree (ptr : Nat)
  | allocPages (order : Nat)
  | freePages (addr : Nat)
  deriving DecidableEq, Repr

/-- What the call does; its result is of no interest here. -/
def Call.code : Call → Code Unit
  | .kmalloc size => do
      let _ ← Calls.kmalloc size
  | .kfree ptr => Calls.kfree ptr
  | .allocPages order => do
      let _ ← Calls.allocPages order
  | .freePages addr => Calls.freePages addr

/-! ### Any number of harts -/

open Spinlock (Pc Outcome exec track)

/-- The lock that `spin_lock` is to take. -/
def wanted : Pc Lock → Option Lock
  | .testDepth _ l => some l
  | .readCsr _ l => some l
  | .save _ l _ => some l
  | .clearSie _ l => some l
  | .incDepth _ l => some l
  | .testAndSet l => some l
  | .compareExchange l => some l
  | _ => none

/-- The harts `ι`. -/
structure System (ι : Type*) where
  spin : Spinlock.State ι Lock
  /-- The unfinished calls of each hart.  The first one runs; the others wait for it, or for the
  scheduler. -/
  calls : ι → List (Code Unit)
  shared : Shared

variable {ι : Type*} [DecidableEq ι]

/-- The hart is between two steps of spinlock code and holds no lock. -/
structure System.Free (s : System ι) (h : ι) : Prop where
  call : s.spin.call h = none
  held : s.spin.held h = []

/-- A step of the call that runs on the hart `h`. -/
inductive Step (s : System ι) (h : ι) : System ι → Prop where
  | act (upd : Shared → Shared) (next : Shared → Code Unit) (rest : List (Code Unit))
      (hc : s.calls h = .act upd next :: rest) (hs : s.spin.call h = none) :
      Step s h { s with
        calls := Function.update s.calls h (next s.shared :: rest)
        shared := upd s.shared }
  | lock (l : Lock) (next : Code Unit) (rest : List (Code Unit))
      (hc : s.calls h = .lock l next :: rest) (hs : s.spin.call h = none) :
      Step s h { s with
        spin := { s.spin with
          call := Function.update s.spin.call h (some (Spinlock.spinLock l)) }
        calls := Function.update s.calls h (next :: rest) }
  | unlock (l : Lock) (next : Code Unit) (rest : List (Code Unit))
      (hc : s.calls h = .unlock l next :: rest) (hs : s.spin.call h = none) :
      Step s h { s with
        spin := { s.spin with
          call := Function.update s.spin.call h (some (Spinlock.spinUnlock l)) }
        calls := Function.update s.calls h (next :: rest) }
  /-- A step inside `spin_lock` or `spin_unlock`. -/
  | spin (pc : Pc Lock) (out : Outcome Lock) (c : Spinlock.LockCpu) (locks : Lock → Bool)
      (hs : s.spin.call h = some pc) (hexec : exec pc (s.spin.cpus h) s.spin.locks = (out, c, locks)) :
      Step s h { s with
        spin := { s.spin with
          cpus := Function.update s.spin.cpus h c
          locks := locks
          call := Function.update s.spin.call h out.call
          held := Function.update s.spin.held h (track pc s.spin.locks (s.spin.held h)) } }
  /-- A loop that does not end.  In a halt loop there are no steps. -/
  | loop (rest : List (Code Unit)) (hc : s.calls h = .stop .diverge :: rest)
      (hs : s.spin.call h = none) : Step s h s
  | ret (rest : List (Code Unit)) (hc : s.calls h = .ret () :: rest) (hs : s.spin.call h = none) :
      Step s h { s with calls := Function.update s.calls h rest }

/-- What else happens on the hart `h`, only while it holds no lock: interrupts are off
otherwise. -/
inductive Event (s : System ι) (h : ι) : System ι → Prop where
  /-- A call is entered, perhaps by the code that has interrupted another one. -/
  | enter (call : Call) (hfree : s.Free h) :
      Event s h { s with calls := Function.update s.calls h (call.code :: s.calls h) }
  /-- The hart goes on with another one of its calls. -/
  | switch (calls : List (Code Unit)) (hcalls : calls.Perm (s.calls h)) (hfree : s.Free h) :
      Event s h { s with calls := Function.update s.calls h calls }
  /-- A write to `sstatus`. -/
  | other (v : RiscV.Word) (hfree : s.Free h) :
      Event s h { s with
        spin := { s.spin with
          cpus := Function.update s.spin.cpus h { s.spin.cpus h with csr := v }
          before := Function.update s.spin.before h (Spinlock.enabled v) } }

/-- Runs from a state with no call, over any memory. -/
inductive Run : System ι → Prop where
  | init {s : System ι} (hspin : Spinlock.Initial s.spin) (hcalls : ∀ h, s.calls h = []) : Run s
  | step {s s' : System ι} {h : ι} (hrun : Run s) (hstep : Step s h s') : Run s'
  | event {s s' : System ι} {h : ι} (hrun : Run s) (hevent : Event s h s') : Run s'

/-- The hart `h` is in `spin_lock(l)` and has not got the lock yet. -/
def System.Waits (s : System ι) (h : ι) (l : Lock) : Prop :=
  ∃ pc, s.spin.call h = some pc ∧ wanted pc = some l

/-- It is in the loop of `spin_lock`, and the lock is taken. -/
def System.Spins (s : System ι) (h : ι) (l : Lock) : Prop :=
  s.spin.call h = some (.testAndSet l) ∧ s.spin.locks l = true

end SystemN.Calls
