/-
Page tables, `mm/pagetable.c`.

A `pte_t *` is an address; an access through it goes to the physical memory behind
it and is written down in `derefs`.  `walk` takes the page allocator as an argument,
so that it can be studied over any behaviour of `alloc_page`; the kernel runs it
over `Mm.allocPage`.

`translate` at the end is not part of the kernel: it is what the hardware does with
a table that `satp` points at.
-/
import SystemN.Mm.Mem
import SystemN.Lib.Bytes

namespace SystemN

/-! ### `mm/pagetable.h` and the page table macros of `mm/mem.h` -/

@[simp] abbrev pteV : Nat := 1 <<< 0
@[simp] abbrev pteR : Nat := 1 <<< 1
@[simp] abbrev pteW : Nat := 1 <<< 2
@[simp] abbrev pteX : Nat := 1 <<< 3
@[simp] abbrev pteU : Nat := 1 <<< 4
@[simp] abbrev pteA : Nat := 1 <<< 6
@[simp] abbrev pteD : Nat := 1 <<< 7

@[simp] abbrev pageShift : Nat := 12
@[simp] abbrev pteCount : Nat := 512

/-- `PTE2PA`. -/
def pte2pa (pte : Nat) : Nat := u64 ((pte >>> 10) <<< 12)

/-- `PA2PTE`. -/
def pa2pte (pa : Nat) : Nat := u64 ((pa >>> pageShift) <<< 10)

/-- `PTE_FLAGS`. -/
def pteFlags (pte : Nat) : Nat := pte &&& 0x3FF

/-- `MAKE_SATP`. -/
def makeSatp (pgtbl : Nat) : Nat := (8 <<< 60) ||| ((pgtbl >>> pageShift) &&& 0xFFFFFFFFFFF)

/-- `vpn_level`. -/
def vpnLevel (va level : Nat) : Nat := (va >>> (pageShift + 9 * level)) &&& 0x1FF

/-- What a caller of `walk` relies on for its page tables: an address or `NULL`, and the
allocator after the call. -/
abbrev AllocPage := Mm → Except Stop (Nat × Mm)

namespace Mm

/-- `*pte`. -/
def loadPte (s : Mm) (pte : Nat) : Nat := Bytes.loadLE s.mem (s.virtToPhys pte) 8

/-- `*pte = v`. -/
def storePte (s : Mm) (pte v : Nat) : Mm :=
  (s.deref pte 8).setMem (Bytes.storeLE s.mem (s.virtToPhys pte) 8 v)

/-- `&pagetable[idx]`. -/
def pteAddr (pagetable idx : Nat) : Nat := u64 (pagetable + 8 * idx)

/-! ### `walk` -/

/-- The loop of `walk`: `level` rounds are left. -/
def walkLoop (allocPage : AllocPage) (va : Nat) (alloc : Bool) :
    Nat → Nat → Mm → Except Stop (Nat × Mm)
  | 0, pagetable, s => .ok (pteAddr pagetable (vpnLevel va 0), s)
  | level + 1, pagetable, s =>
      let idx := vpnLevel va (level + 1)
      let pte := pteAddr pagetable idx
      let s := s.deref pte 8
      if s.loadPte pte &&& pteV ≠ 0 then
        walkLoop allocPage va alloc level (s.physToVirt (pte2pa (s.loadPte pte))) s
      else if !alloc then .ok (0, s)
      else do
        let (newPg, s) ← allocPage s
        if newPg = 0 then pure (0, s)
        else
          let s := s.storePte pte (pa2pte newPg ||| pteV)
          walkLoop allocPage va alloc level (s.physToVirt newPg) s

/-- `walk`: the address of the last-level entry, or `NULL`. -/
def walk (allocPage : AllocPage) (pagetable va : Nat) (alloc : Bool) (s : Mm) :
    Except Stop (Nat × Mm) :=
  walkLoop allocPage va alloc 2 pagetable s

/-! ### `map_page` and `unmap_page` -/

/-- `map_page`: `true` stands for 0, `false` for -1. -/
def mapPageWith (allocPage : AllocPage) (pagetable va pa perm : Nat) (s : Mm) :
    Except Stop (Bool × Mm) := do
  let pagetable := s.physToVirt pagetable
  let (pte, s) ← walk allocPage pagetable va true s
  if pte = 0 then pure (false, s)
  else
    let s := s.deref pte 8
    if s.loadPte pte &&& pteV = 0 then
      pure (true, s.storePte pte (pa2pte pa ||| perm ||| pteV ||| pteA ||| pteD))
    else pure (true, s)

/-- `map_page` over the page allocator. -/
def mapPage (pagetable va pa perm : Nat) (s : Mm) : Except Stop (Bool × Mm) :=
  mapPageWith Mm.allocPage pagetable va pa perm s

/-- `unmap_page`: `true` stands for 0, `false` for -1. -/
def unmapPage (pagetable va : Nat) (s : Mm) : Except Stop (Bool × Mm) := do
  let pagetable := s.physToVirt pagetable
  let (pte, s) ← walk Mm.allocPage pagetable va false s
  if pte = 0 then pure (false, s)
  else
    let s := s.deref pte 8
    if s.loadPte pte &&& pteV = 0 then pure (false, s)
    else do
      let pa := pte2pa (s.loadPte pte)
      let s ← s.freePage pa
      pure (true, s.storePte pte 0)

/-! ### Whole tables -/

/-- `alloc_pagetable`. -/
def allocPagetableWith (allocPage : AllocPage) (s : Mm) : Except Stop (Nat × Mm) := allocPage s

/-- `alloc_pagetable` over the page allocator. -/
def allocPagetable (s : Mm) : Except Stop (Nat × Mm) := allocPagetableWith Mm.allocPage s

/-- `free_pagetable`.  The calls are nested as deep as `fuel`; a table has at most `2 ^ 52`
different addresses, so more nested calls than that mean that one table contains itself. -/
def freePagetableLoop : Nat → Nat → Mm → Except Stop Mm
  | 0, _, _ => .error .diverge
  | fuel + 1, pagetable, s => do
      let pagetable := s.physToVirt pagetable
      let s ← (List.range pteCount).foldlM (fun s i => do
        let s := s.deref (pteAddr pagetable i) 8
        let pte := s.loadPte (pteAddr pagetable i)
        if pte &&& pteV ≠ 0 ∧ pte &&& (pteR ||| pteW ||| pteX) = 0 then
          freePagetableLoop fuel (pte2pa pte) s
        else pure s) s
      s.freePage pagetable

def freePagetable (pagetable : Nat) (s : Mm) : Except Stop Mm :=
  freePagetableLoop (2 ^ 52 + 1) pagetable s

/-! ### What the hardware makes of a table -/

/-- Entry `idx` of the table page at physical address `table`. -/
def entryAt (s : Mm) (table idx : Nat) : Nat := Bytes.loadLE s.mem (table + 8 * idx) 8

/-- An address whose bits 63 to 39 are copies of bit 38; the others fault. -/
def Canonical (va : Nat) : Prop := va < 2 ^ 38 ∨ 2 ^ 64 - 2 ^ 38 ≤ va ∧ va < 2 ^ 64

instance (va : Nat) : Decidable (Canonical va) := inferInstanceAs (Decidable (_ ∨ _))

/-- The hardware walk from the page at `table`, with `level` levels below it: the leaf entry
and its level.  An entry with one of `R`, `W`, `X` is a leaf wherever it stands. -/
def leafFrom (s : Mm) (va : Nat) : Nat → Nat → Option (Nat × Nat)
  | level, table =>
      let pte := s.entryAt table (vpnLevel va level)
      if pte &&& pteV = 0 then none
      else if pte &&& (pteR ||| pteW ||| pteX) ≠ 0 then some (pte, level)
      else match level with
        | 0 => none
        | level + 1 => leafFrom s va level (pte2pa pte)

/-- What `va` translates to under the table at physical address `root`: a physical address and
the flags of the leaf. -/
def translate (s : Mm) (root va : Nat) : Option (Nat × Nat) :=
  if Canonical va then
    (s.leafFrom va 2 root).map fun (pte, level) =>
      (pte2pa pte + va % (pageSize <<< (9 * level)), pteFlags pte)
  else none

end Mm

end SystemN
