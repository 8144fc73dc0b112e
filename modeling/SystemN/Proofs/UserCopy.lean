/-
What `sys_write` and `sys_read` do with the address a process hands them.

`is_user_addr` looks at numbers only, and the table has holes below `USER_END_VA`: the
page under the stack, the heap that is not mapped, what `munmap` took away, and the text,
which is not writable.  A copy goes ahead on any of them.  The first byte that is not
mapped is a page fault in supervisor mode, for which `trap_handler` has no case but the
one that halts.

So the two calls are safe if and only if the copy is refused on the numbers, or every byte
is mapped for the user.  How many bytes `sys_read` copies depends on what is typed.
-/
import SystemN.Proofs.SchedRun
import SystemN.Proofs.Mm.Refine

namespace SystemN

/-! ### Mapped bytes -/

namespace Mm

/-- Byte `va` is mapped for user mode in the table at `root`, with the permission `perm`. -/
def UserMapped (s : Mm) (root va perm : Nat) : Prop :=
  ∃ pa flags, s.translate root va = some (pa, flags) ∧ flags &&& pteU ≠ 0 ∧ flags &&& perm ≠ 0

/-- The byte at physical address `pa` is mapped for user mode somewhere. -/
def UserByte (s : Mm) (root pa : Nat) : Prop :=
  ∃ va flags, s.translate root va = some (pa, flags) ∧ flags &&& pteU ≠ 0

/-- No byte of the table is mapped for user mode: what it says does not depend on those bytes. -/
def TableApart (s : Mm) (root : Nat) : Prop :=
  ∀ m : Nat → UInt8, (∀ a, ¬UserByte s root a → m a = s.mem a) →
    ∀ va, (s.setMem m).translate root va = s.translate root va

/-- What a table says does not depend on memory outside of its pages. -/
theorem translate_setMem {s : Mm} {root : Nat} (hT : Tables s.mem (theRoot root)) {m : Nat → UInt8}
    (hsame : SameTables s.mem m (theRoot root)) (va : Nat) :
    (s.setMem m).translate root va = s.translate root va := by
  by_cases hva : Canonical va
  · have hT' : Tables (s.setMem m).mem (theRoot root) := hT.congr hsame
    have hleaf : leafOf (s.setMem m).mem (theRoot root) () va = leafOf s.mem (theRoot root) () va :=
      hsame.leafOf () va
    rw [translate_eq (o := ()) hT rfl hva, translate_eq (o := ()) hT' rfl hva, hleaf]
  · rw [translate, translate, if_neg hva, if_neg hva]

/-- That is so if the user's pages are not among the pages of the table. -/
theorem tableApart_of_tables {s : Mm} {root : Nat} (hT : Tables s.mem (theRoot root))
    (hpages : ∀ a, UserByte s root a → ∀ n, OwnPage s root n → ¬InPage n a) :
    TableApart s root := by
  intro m hm va
  have hsame : SameTables s.mem m (theRoot root) := by
    intro n hn a ha
    exact hm a fun hbyte => hpages a hbyte n hn ha
  exact translate_setMem hT hsame va

end Mm

namespace Kernel

open Mm

variable {k : Kernel}

/-! ### A page fault halts -/

/-- `trap_handler` has no case for a load page fault (13) or a store page fault (15): it halts,
whatever process is current. -/
theorem trapHandler_pageFault (h : k.hart.scause = 13 ∨ k.hart.scause = 15) (tf : Nat)
    (clock : Nat → Nat) : k.trapHandler tf clock = .error .halt := by
  have htimer : isTimer k.hart.scause = false := by rcases h with h | h <;> rw [h] <;> decide
  unfold trapHandler
  simp only [htimer, Bool.false_eq_true, if_false]
  split
  · rfl
  · split
    · rfl
    · split
      · rfl
      · unfold switchCode
        rcases h with h | h <;> rw [h] <;> rfl

/-! ### The table in `satp` -/

/-- `satp` holds the page of the table. -/
theorem satpRoot_eq {root : Nat} (hsatp : k.hart.satp = makeSatp root) (hroot : IsPage root) :
    k.satpRoot = root := by
  have hmask : (0xFFFFFFFFFFF : Nat) = 2 ^ 44 - 1 := by norm_num
  have hmode : (8 <<< 60) &&& (2 ^ 44 - 1) = 0 := by decide
  have haligned := hroot.aligned
  have hlt := hroot.lt
  unfold satpRoot
  rw [hsatp, makeSatp, hmask, Nat.and_or_distrib_right, hmode, Nat.zero_or,
    Nat.and_two_pow_sub_one_eq_mod, Nat.and_two_pow_sub_one_eq_mod, Nat.mod_mod,
    Nat.shiftRight_eq_div_pow, Nat.shiftLeft_eq]
  simp only [pageSize, pageShift] at *
  omega

/-! ### The copies

`loadTrace` and `storeTrace` are the addresses the two copies access, up to and with the one
that faults.
-/

def loadTrace (k : Kernel) : Nat → Nat → List Nat
  | _, 0 => []
  | va, n + 1 =>
      va :: match k.access va pteR with
        | .ok _ => k.loadTrace (va + 1) n
        | .error _ => []

def storeTrace (va : Nat) : List UInt8 → Kernel → List Nat
  | [], _ => []
  | c :: buf, k =>
      va :: match k.access va pteW with
        | .ok pa => storeTrace (va + 1) buf (k.setMm (k.mm.setMem (Function.update k.mm.mem pa c)))
        | .error _ => []

theorem mem_loadTrace {va n a : Nat} (h : a ∈ k.loadTrace va n) : ∃ i < n, a = va + i := by
  induction n generalizing va with
  | zero => cases h
  | succ n ih =>
      rw [loadTrace] at h
      rcases List.mem_cons.mp h with rfl | h
      · exact ⟨0, Nat.succ_pos n, rfl⟩
      · cases hacc : k.access va pteR with
        | ok pa =>
            rw [hacc] at h
            obtain ⟨i, hi, rfl⟩ := ih h
            exact ⟨i + 1, Nat.succ_lt_succ hi, by omega⟩
        | error e =>
            rw [hacc] at h
            cases h

theorem mem_storeTrace {buf : List UInt8} {va a : Nat} (h : a ∈ storeTrace va buf k) :
    ∃ i < buf.length, a = va + i := by
  induction buf generalizing va k with
  | nil => cases h
  | cons c buf ih =>
      rw [storeTrace] at h
      rcases List.mem_cons.mp h with rfl | h
      · exact ⟨0, Nat.succ_pos _, rfl⟩
      · cases hacc : k.access va pteW with
        | ok pa =>
            rw [hacc] at h
            obtain ⟨i, hi, rfl⟩ := ih h
            exact ⟨i + 1, Nat.succ_lt_succ hi, by omega⟩
        | error e =>
            rw [hacc] at h
            cases h

theorem access_ok {va perm : Nat} (h : UserMapped k.mm k.satpRoot va perm) :
    ∃ pa, k.access va perm = .ok pa ∧ UserByte k.mm k.satpRoot pa := by
  obtain ⟨pa, flags, htr, hU, hperm⟩ := h
  refine ⟨pa, ?_, va, flags, htr, hU⟩
  unfold access
  rw [htr]
  exact if_pos hperm

theorem loadUser_ok {va n : Nat} (h : ∀ i < n, UserMapped k.mm k.satpRoot (va + i) pteR) :
    ∃ buf, k.loadUser va n = .ok buf := by
  induction n generalizing va with
  | zero => exact ⟨[], rfl⟩
  | succ n ih =>
      obtain ⟨pa, hacc, -⟩ := access_ok (h 0 (Nat.succ_pos n))
      have htail : ∀ i < n, UserMapped k.mm k.satpRoot (va + 1 + i) pteR := by
        intro i hi
        have := h (i + 1) (Nat.succ_lt_succ hi)
        rwa [Nat.add_comm i 1, ← Nat.add_assoc] at this
      obtain ⟨buf, hbuf⟩ := ih htail
      refine ⟨k.mm.mem pa :: buf, ?_⟩
      rw [loadUser, show k.access va pteR = .ok pa from hacc, ok_bind, hbuf, ok_bind]
      rfl

/-- A copy into user memory does not change what the table says. -/
theorem storeUser_ok {s : Mm} {root : Nat} (hapart : TableApart s root) :
    ∀ (buf : List UInt8) (va : Nat) (k : Kernel) (m : Nat → UInt8), k.satpRoot = root →
      k.mm = s.setMem m → (∀ a, ¬UserByte s root a → m a = s.mem a) →
      (∀ i < buf.length, UserMapped s root (va + i) pteW) → ∃ k', storeUser va buf k = .ok k' := by
  intro buf
  induction buf with
  | nil => exact fun va k m _ _ _ _ => ⟨k, rfl⟩
  | cons c buf ih =>
      intro va k m hroot hmm hm h
      obtain ⟨pa, flags, htr, hU, hperm⟩ := h 0 (Nat.succ_pos _)
      have hacc : k.access va pteW = .ok pa := by
        unfold access
        rw [hroot, hmm, hapart m hm, ← Nat.add_zero va, htr]
        exact if_pos hperm
      rw [storeUser, hacc, ok_bind]
      refine ih (va + 1) _ (Function.update k.mm.mem pa c) hroot ?_ ?_ ?_
      · rw [setMm_mm, hmm]
        rfl
      · intro a ha
        have hne : a ≠ pa := by
          rintro rfl
          exact ha ⟨va, flags, htr, hU⟩
        rw [Function.update_of_ne hne, hmm]
        exact hm a ha
      · intro i hi
        have := h (i + 1) (Nat.succ_lt_succ hi)
        rwa [Nat.add_comm i 1, ← Nat.add_assoc] at this

theorem loadTrace_of_ok {va n : Nat} {buf : List UInt8} (h : k.loadUser va n = .ok buf) :
    ∀ i < n, va + i ∈ k.loadTrace va n := by
  induction n generalizing va buf with
  | zero => exact fun i hi => absurd hi (Nat.not_lt_zero i)
  | succ n ih =>
      rw [loadUser, bind_eq_ok] at h
      obtain ⟨pa, hacc, h⟩ := h
      rw [bind_eq_ok] at h
      obtain ⟨rest, hrest, -⟩ := h
      intro i hi
      rw [loadTrace, hacc]
      cases i with
      | zero => exact List.mem_cons_self
      | succ i =>
          have := ih hrest i (Nat.lt_of_succ_lt_succ hi)
          rw [Nat.add_assoc, Nat.add_comm 1 i] at this
          exact List.mem_cons_of_mem _ this

theorem storeTrace_of_ok {buf : List UInt8} {va : Nat} {k' : Kernel}
    (h : storeUser va buf k = .ok k') : ∀ i < buf.length, va + i ∈ storeTrace va buf k := by
  induction buf generalizing va k with
  | nil => exact fun i hi => absurd hi (Nat.not_lt_zero i)
  | cons c buf ih =>
      rw [storeUser, bind_eq_ok] at h
      obtain ⟨pa, hacc, h⟩ := h
      intro i hi
      rw [storeTrace, hacc]
      cases i with
      | zero => exact List.mem_cons_self
      | succ i =>
          have := ih h i (Nat.lt_of_succ_lt_succ hi)
          rw [Nat.add_assoc, Nat.add_comm 1 i] at this
          exact List.mem_cons_of_mem _ this

/-- The numbers are refused, or every byte is mapped. -/
def CopySafe (s : Mm) (root va n perm : Nat) : Prop :=
  isUserAddr va n = false ∨ ∀ i < n, UserMapped s root (va + i) perm

/-! ### `sys_write` -/

/-- How many bytes the two calls copy at most. -/
def copyLen (len : Nat) : Nat := if maxlen < len % 2 ^ 32 then maxlen else len % 2 ^ 32

theorem copyLen_eq (len : Nat) : copyLen len = min (len % 2 ^ 32) maxlen := by
  unfold copyLen
  split
  · omega
  · omega

theorem copyLen_le (len : Nat) : copyLen len ≤ min len maxlen := by
  rw [copyLen_eq]
  have := Nat.mod_le len (2 ^ 32)
  omega

theorem sext32_of_lt {n : Nat} (h : n < 2 ^ 31) : sext32 n = n := by
  unfold sext32
  rw [Nat.mod_eq_of_lt (by omega), if_pos h]

/-- The addresses `sys_write` accesses in user memory. -/
def sysWriteTrace (k : Kernel) (fd userBuf len : Nat) : List Nat :=
  if (fd % 2 ^ 32 ≠ 1 ∧ fd % 2 ^ 32 ≠ 2) ∨ isUserAddr userBuf (copyLen len) = false then []
  else k.setSum.loadTrace userBuf (copyLen len)

/-- `sys_write` accesses user memory only where it is mapped for that, and answers -1 otherwise. -/
structure SysWriteSafe (k : Kernel) (p fd userBuf len : Nat) : Prop where
  mapped : ∀ a ∈ k.sysWriteTrace fd userBuf len, UserMapped k.mm (k.procs p).pagetable a pteR
  refused : (∃ i < copyLen len, ¬UserMapped k.mm (k.procs p).pagetable (userBuf + i) pteR) →
    ∃ k', k.sysWrite fd userBuf len = .ok (minusOne, k')
  returns : k.sysWrite fd userBuf len ≠ .error .halt

theorem sysWrite_refused {fd userBuf len : Nat}
    (h : (fd % 2 ^ 32 ≠ 1 ∧ fd % 2 ^ 32 ≠ 2) ∨ isUserAddr userBuf (copyLen len) = false) :
    k.sysWrite fd userBuf len = .ok (minusOne, k) := by
  unfold sysWrite
  by_cases hfd : fd % 2 ^ 32 ≠ 1 ∧ fd % 2 ^ 32 ≠ 2
  · rw [if_pos hfd]
  · have hnum := h.resolve_left hfd
    rw [if_neg hfd]
    simp only
    rw [show (if maxlen < len % 2 ^ 32 then maxlen else len % 2 ^ 32) = copyLen len from rfl,
      copyFromUser, hnum]
    rfl

/-- Accepted, it returns if and only if the copy does. -/
theorem sysWrite_accepted {fd userBuf len : Nat}
    (h : ¬((fd % 2 ^ 32 ≠ 1 ∧ fd % 2 ^ 32 ≠ 2) ∨ isUserAddr userBuf (copyLen len) = false)) :
    (∃ buf r, k.setSum.loadUser userBuf (copyLen len) = .ok buf ∧
      k.sysWrite fd userBuf len = .ok r) ∨
    ∃ e, k.setSum.loadUser userBuf (copyLen len) = .error e ∧
      k.sysWrite fd userBuf len = .error e := by
  rw [not_or] at h
  have hnum : isUserAddr userBuf (copyLen len) = true := by simpa using h.2
  unfold sysWrite
  rw [if_neg h.1]
  simp only
  rw [show (if maxlen < len % 2 ^ 32 then maxlen else len % 2 ^ 32) = copyLen len from rfl,
    copyFromUser, hnum]
  simp only [Bool.not_true, Bool.false_eq_true, if_false]
  cases hload : k.setSum.loadUser userBuf (copyLen len) with
  | ok buf => exact Or.inl ⟨buf, _, rfl, rfl⟩
  | error e => exact Or.inr ⟨e, rfl, rfl⟩

theorem sysWrite_safe_iff {p : Nat} (hsatp : k.hart.satp = makeSatp (k.procs p).pagetable)
    (hroot : IsPage (k.procs p).pagetable) (fd userBuf len : Nat) :
    k.SysWriteSafe p fd userBuf len ↔
      (fd % 2 ^ 32 ≠ 1 ∧ fd % 2 ^ 32 ≠ 2) ∨
        CopySafe k.mm (k.procs p).pagetable userBuf (copyLen len) pteR := by
  by_cases hno : (fd % 2 ^ 32 ≠ 1 ∧ fd % 2 ^ 32 ≠ 2) ∨ isUserAddr userBuf (copyLen len) = false
  · have hcall := sysWrite_refused (k := k) hno
    refine ⟨fun _ => hno.imp_right Or.inl, fun _ => ⟨?_, fun _ => ⟨k, hcall⟩, ?_⟩⟩
    · rw [sysWriteTrace, if_pos hno]
      intro a ha
      cases ha
    · rw [hcall]
      exact fun h => nomatch h
  · have hsum : k.setSum.satpRoot = (k.procs p).pagetable := satpRoot_eq (k := k) hsatp hroot
    have htrace : k.sysWriteTrace fd userBuf len = k.setSum.loadTrace userBuf (copyLen len) :=
      if_neg hno
    constructor
    · intro hs
      refine Or.inr (Or.inr ?_)
      by_contra hhole
      rw [not_forall] at hhole
      obtain ⟨i, hi⟩ := hhole
      rw [Classical.not_imp] at hi
      obtain ⟨k', hret⟩ := hs.refused ⟨i, hi⟩
      rcases sysWrite_accepted (k := k) hno with ⟨buf, r, hload, -⟩ | ⟨e, -, herr⟩
      · -- the copy has accessed every byte
        refine hi.2 (hs.mapped _ ?_)
        rw [htrace]
        exact loadTrace_of_ok hload i hi.1
      · rw [hret] at herr
        cases herr
    · intro hsafe
      have hall : ∀ i < copyLen len,
          UserMapped k.mm (k.procs p).pagetable (userBuf + i) pteR := by
        rcases hsafe with hfd | hnum | hall
        · exact absurd (Or.inl hfd) hno
        · exact absurd (Or.inr hnum) hno
        · exact hall
      refine ⟨?_, ?_, ?_⟩
      · rw [htrace]
        intro a ha
        obtain ⟨i, hi, rfl⟩ := mem_loadTrace ha
        exact hall i hi
      · rintro ⟨i, hi, hnot⟩
        exact absurd (hall i hi) hnot
      · have hmapped : ∀ i < copyLen len,
            UserMapped k.setSum.mm k.setSum.satpRoot (userBuf + i) pteR := by
          rw [hsum]
          exact hall
        obtain ⟨buf, hbuf⟩ := loadUser_ok hmapped
        rcases sysWrite_accepted (k := k) hno with ⟨buf, r, -, hret⟩ | ⟨e, herr, -⟩
        · rw [hret]
          exact fun h => nomatch h
        · rw [hbuf] at herr
          cases herr

/-! ### `sys_read` -/

/-- How many of the characters `cs` make up what `uart_gets` returns, with room for `n`; `none` if it
goes on waiting. -/
def getsLen : Nat → List UInt8 → Option Nat
  | 0, _ => some 0
  | _ + 1, [] => none
  | n + 1, c :: cs => if c = 13 ∨ c = 10 then some 1 else (getsLen n cs).map (· + 1)

/-- What `uart_gets` makes of a character. -/
def crToLf (c : UInt8) : UInt8 := if c = 13 then 10 else c

/-- The state once `n` characters have been read and echoed. -/
def echoed (k : Kernel) (n : Nat) : Kernel :=
  { k with
    uartIn := k.uartIn.drop n
    uartOut := ((k.uartIn.take n).map crToLf).reverse ++ k.uartOut }

/-- `uart_gets` waits, or returns that many characters. -/
theorem uartGetsLoop_eq (n : Nat) (k : Kernel) :
    uartGetsLoop n k = match getsLen n k.uartIn with
      | none => .error .diverge
      | some m => .ok ((k.uartIn.take m).map crToLf, k.echoed m) := by
  induction n generalizing k with
  | zero => rfl
  | succ n ih =>
      rw [uartGetsLoop, uartGetc]
      cases hin : k.uartIn with
      | nil => rfl
      | cons c cs =>
          simp only
          rw [ok_bind]
          simp only
          rw [getsLen]
          have hget : ∀ m, (({ k with uartIn := cs } : Kernel).uartPutc (crToLf c)).echoed m =
              k.echoed (m + 1) := by
            intro m
            simp [echoed, uartPutc, hin]
          by_cases hc : c = 13 ∨ c = 10
          · have hnl : crToLf c = 10 := by
              rcases hc with rfl | rfl <;> rfl
            rw [if_pos hc, show (if c = 13 then 10 else c) = crToLf c from rfl, if_pos hnl]
            have := hget 0
            rw [show ∀ k : Kernel, k.echoed 0 = k from fun _ => rfl] at this
            rw [this]
            rfl
          · have hnl : ¬crToLf c = 10 := by
              rw [not_or] at hc
              rw [crToLf, if_neg hc.1]
              exact hc.2
            rw [if_neg hc, show (if c = 13 then 10 else c) = crToLf c from rfl, if_neg hnl, ih]
            have hrest : (({ k with uartIn := cs } : Kernel).uartPutc (crToLf c)).uartIn = cs := rfl
            rw [hrest]
            cases hlen : getsLen n cs with
            | none => rfl
            | some m =>
                simp only [Option.map_some, ok_bind, pure, Except.pure, hget]
                rfl

/-- The characters are there. -/
theorem getsLen_le_length {n m : Nat} {cs : List UInt8} (h : getsLen n cs = some m) :
    m ≤ cs.length := by
  induction n generalizing m cs with
  | zero =>
      obtain rfl := Option.some.inj h
      exact Nat.zero_le _
  | succ n ih =>
      cases cs with
      | nil => cases h
      | cons c cs =>
          rw [getsLen] at h
          split at h
          · obtain rfl := Option.some.inj h
            simp
          · obtain ⟨m', hm', rfl⟩ := Option.map_eq_some_iff.mp h
            exact Nat.succ_le_succ (ih hm')

/-- `uart_gets` leaves memory and `satp` alone. -/
theorem uartGetsLoop_cases (n : Nat) :
    (getsLen n k.uartIn = none ∧ uartGetsLoop n k = .error .diverge) ∨
    ∃ buf k', getsLen n k.uartIn = some buf.length ∧ uartGetsLoop n k = .ok (buf, k') ∧
      k'.snub = k.snub ∧ k'.hart = k.hart := by
  rw [uartGetsLoop_eq]
  cases hlen : getsLen n k.uartIn with
  | none => exact Or.inl ⟨rfl, rfl⟩
  | some m =>
      refine Or.inr ⟨(k.uartIn.take m).map crToLf, k.echoed m, ?_, rfl, rfl, rfl⟩
      rw [List.length_map, List.length_take_of_le (getsLen_le_length hlen)]

/-- The addresses `sys_read` accesses in user memory. -/
def sysReadTrace (k : Kernel) (fd userBuf len : Nat) : List Nat :=
  if fd % 2 ^ 32 ≠ 0 then []
  else match k.uartGets (copyLen len) with
    | .error _ => []
    | .ok (buf, k) =>
        if isUserAddr userBuf buf.length = false then [] else storeTrace userBuf buf k.setSum

/-- The number of bytes `sys_read` copies, if it gets so far. -/
def ReadsBytes (k : Kernel) (fd len n : Nat) : Prop :=
  fd % 2 ^ 32 = 0 ∧ getsLen (copyLen len - 1) k.uartIn = some n

/-- `sys_read` accesses user memory only where it is mapped for that, answers -1 if there is a byte
to copy that is not, and does not halt, unless the user's pages are part of the table. -/
structure SysReadSafe (k : Kernel) (p fd userBuf len : Nat) : Prop where
  mapped : ∀ a ∈ k.sysReadTrace fd userBuf len, UserMapped k.mm (k.procs p).pagetable a pteW
  refused : ∀ n, k.ReadsBytes fd len n →
    (∃ i < n, ¬UserMapped k.mm (k.procs p).pagetable (userBuf + i) pteW) →
    ∃ k', k.sysRead fd userBuf len = .ok (minusOne, k')
  returns : TableApart k.mm (k.procs p).pagetable → k.sysRead fd userBuf len ≠ .error .halt

/-- What `sys_read` does: it refuses `fd`, waits, refuses the numbers, or returns if and only if the
copy does. -/
theorem sysRead_cases (fd userBuf len : Nat) :
    ((∀ n, ¬k.ReadsBytes fd len n) ∧ k.sysReadTrace fd userBuf len = [] ∧
      k.sysRead fd userBuf len ≠ .error .halt) ∨
    ∃ buf k', k.ReadsBytes fd len buf.length ∧ k'.snub = k.snub ∧ k'.hart = k.hart ∧
      ((isUserAddr userBuf buf.length = false ∧ k.sysReadTrace fd userBuf len = [] ∧
          k.sysRead fd userBuf len = .ok (minusOne, k')) ∨
        isUserAddr userBuf buf.length = true ∧
          k.sysReadTrace fd userBuf len = storeTrace userBuf buf k'.setSum ∧
          ((∃ t r, storeUser userBuf buf k'.setSum = .ok t ∧ k.sysRead fd userBuf len = .ok r) ∨
            ∃ e, storeUser userBuf buf k'.setSum = .error e ∧
              k.sysRead fd userBuf len = .error e)) := by
  by_cases hfd : fd % 2 ^ 32 ≠ 0
  · refine Or.inl ⟨fun n hn => hfd hn.1, if_pos hfd, ?_⟩
    rw [sysRead, if_pos hfd]
    exact fun h => nomatch h
  · rw [sysReadTrace, sysRead, if_neg hfd, if_neg hfd]
    simp only
    rw [show (if maxlen < len % 2 ^ 32 then maxlen else len % 2 ^ 32) = copyLen len from rfl,
      uartGets]
    rcases uartGetsLoop_cases (k := k) (copyLen len - 1) with
      ⟨hlen, hloop⟩ | ⟨buf, k', hlen, hloop, hsnub, hhart⟩
    · rw [hloop]
      refine Or.inl ⟨fun n hn => ?_, rfl, fun h => nomatch h⟩
      have := hn.2
      rw [hlen] at this
      cases this
    · rw [hloop, ok_bind]
      refine Or.inr ⟨buf, k', ⟨not_not.mp hfd, hlen⟩, hsnub, hhart, ?_⟩
      simp only
      rw [copyToUser]
      cases hnum : isUserAddr userBuf buf.length with
      | false => exact Or.inl ⟨rfl, rfl, rfl⟩
      | true =>
          simp only [Bool.not_true, Bool.false_eq_true, Bool.true_eq_false, if_false]
          refine Or.inr ⟨trivial, trivial, ?_⟩
          cases hstore : storeUser userBuf buf k'.setSum with
          | ok t => exact Or.inl ⟨t, _, rfl, rfl⟩
          | error e => exact Or.inr ⟨e, rfl, rfl⟩

theorem sysRead_safe_iff {p : Nat} (hsatp : k.hart.satp = makeSatp (k.procs p).pagetable)
    (hroot : IsPage (k.procs p).pagetable) (fd userBuf len : Nat) :
    k.SysReadSafe p fd userBuf len ↔
      ∀ n, k.ReadsBytes fd len n → CopySafe k.mm (k.procs p).pagetable userBuf n pteW := by
  rcases sysRead_cases (k := k) fd userBuf len with
    ⟨hno, htrace, hret⟩ | ⟨buf, k', hreads, hsnub, hhart, hcall⟩
  · refine ⟨fun _ n hn => absurd hn (hno n), fun _ => ⟨?_, fun n hn => absurd hn (hno n), fun _ => hret⟩⟩
    rw [htrace]
    intro a ha
    cases ha
  · have hone : ∀ n, k.ReadsBytes fd len n → n = buf.length := fun n hn =>
      Option.some.inj (hn.2.symm.trans hreads.2)
    rcases hcall with ⟨hnum, htrace, hret⟩ | ⟨hnum, htrace, hcopy⟩
    · refine ⟨fun _ n hn => ?_, fun _ => ⟨?_, fun n _ _ => ⟨k', hret⟩, fun _ => ?_⟩⟩
      · rw [hone n hn]
        exact Or.inl hnum
      · rw [htrace]
        intro a ha
        cases ha
      · rw [hret]
        exact fun h => nomatch h
    · constructor
      · intro hs n hn
        rw [hone n hn]
        refine Or.inr ?_
        by_contra hhole
        rw [not_forall] at hhole
        obtain ⟨i, hi⟩ := hhole
        rw [Classical.not_imp] at hi
        obtain ⟨t, hret⟩ := hs.refused _ hreads ⟨i, hi⟩
        rcases hcopy with ⟨t', r, hstore, -⟩ | ⟨e, -, herr⟩
        · refine hi.2 (hs.mapped _ ?_)
          rw [htrace]
          exact storeTrace_of_ok hstore i hi.1
        · rw [hret] at herr
          cases herr
      · intro hsafe
        have hall : ∀ i < buf.length,
            UserMapped k.mm (k.procs p).pagetable (userBuf + i) pteW := by
          rcases hsafe _ hreads with hbad | hall
          · rw [hnum] at hbad
            cases hbad
          · exact hall
        refine ⟨?_, ?_, fun hapart => ?_⟩
        · rw [htrace]
          intro a ha
          obtain ⟨i, hi, rfl⟩ := mem_storeTrace ha
          exact hall i hi
        · rintro n hn ⟨i, hi, hnot⟩
          rw [hone n hn] at hi
          exact absurd (hall i hi) hnot
        · have hmm : k'.setSum.mm = k.mm.setMem k.mm.mem := by
            change k'.snub.mm = k.snub.mm
            rw [hsnub]
          have hsum : k'.setSum.satpRoot = (k.procs p).pagetable := by
            refine satpRoot_eq ?_ hroot
            change k'.hart.satp = _
            rw [hhart]
            exact hsatp
          obtain ⟨t, hstore⟩ := storeUser_ok hapart buf userBuf k'.setSum k.mm.mem hsum hmm
            (fun _ _ => rfl) hall
          rcases hcopy with ⟨t', r, -, hret⟩ | ⟨e, herr, -⟩
          · rw [hret]
            exact fun h => nomatch h
          · rw [hstore] at herr
            cases herr

/-- **The two calls are safe** if and only if the copy they make is refused on its numbers, or every
byte of it is mapped for the user with the permission it needs. -/
theorem userCopy_safe_iff {p : Nat} (hsatp : k.hart.satp = makeSatp (k.procs p).pagetable)
    (hroot : IsPage (k.procs p).pagetable) (fd userBuf len : Nat) :
    (k.SysWriteSafe p fd userBuf len ↔
      (fd % 2 ^ 32 ≠ 1 ∧ fd % 2 ^ 32 ≠ 2) ∨
        CopySafe k.mm (k.procs p).pagetable userBuf (copyLen len) pteR) ∧
    (k.SysReadSafe p fd userBuf len ↔
      ∀ n, k.ReadsBytes fd len n → CopySafe k.mm (k.procs p).pagetable userBuf n pteW) :=
  ⟨sysWrite_safe_iff hsatp hroot fd userBuf len, sysRead_safe_iff hsatp hroot fd userBuf len⟩

/-! ### A process with one page of text -/

/-- The tables of a process that has a page of text at 0, and nothing else. -/
def textTable : Nat → UInt8 :=
  putEntry
    (putEntry (putEntry (fun _ => 0) 0x80200000 0 (pa2pte 0x80201000 ||| pteV)) 0x80201000 0
      (pa2pte 0x80202000 ||| pteV))
    0x80202000 0 (pa2pte 0x80203000 ||| pteR ||| pteX ||| pteU ||| pteV ||| pteA ||| pteD)

/-- `twoProcs` over these tables, with a newline waiting at the UART. -/
def textProcs : Kernel :=
  { twoProcs with
    snub := Snub.snubInit (Mm.reset textTable)
    procs := fun p => { Proc.zero with tf := p + 0x1000, pagetable := 0x80200000 }
    hart := { twoProcs.hart with satp := makeSatp 0x80200000 }
    uartIn := [10] }

theorem isPage_textTable : IsPage 0x80200000 := ⟨by decide, by decide, by decide⟩

theorem userCopy_safe_iff_textProcs :
    (textProcs.SysWriteSafe shellProc 1 0x10 8 ↔
      (1 % 2 ^ 32 ≠ 1 ∧ 1 % 2 ^ 32 ≠ 2) ∨
        CopySafe textProcs.mm (textProcs.procs shellProc).pagetable 0x10 (copyLen 8) pteR) ∧
    (textProcs.SysReadSafe shellProc 1 0x10 8 ↔
      ∀ n, textProcs.ReadsBytes 1 8 n →
        CopySafe textProcs.mm (textProcs.procs shellProc).pagetable 0x10 n pteW) :=
  userCopy_safe_iff rfl isPage_textTable 1 0x10 8

/-- A write from a page that is not mapped halts the kernel, and so does a read into the text. -/
theorem userCopy_halts :
    textProcs.sysWrite 1 0x5000 8 = .error .halt ∧ textProcs.sysRead 0 0x10 8 = .error .halt ∧
      ¬textProcs.SysWriteSafe shellProc 1 0x5000 8 ∧ ¬textProcs.SysReadSafe shellProc 0 0x10 8 := by
  have hwrite : textProcs.sysWrite 1 0x5000 8 = .error .halt := rfl
  have hread : textProcs.sysRead 0 0x10 8 = .error .halt := rfl
  refine ⟨hwrite, hread, fun hs => hs.returns hwrite, fun hs => ?_⟩
  have htext : textProcs.mm.translate (textProcs.procs shellProc).pagetable (0x10 + 0) =
      some (0x80203010, 0xdb) := rfl
  obtain ⟨k', hret⟩ := hs.refused 1 ⟨rfl, rfl⟩ ⟨0, Nat.one_pos, fun hmapped => by
    obtain ⟨pa, flags, htr, -, hperm⟩ := hmapped
    rw [htext] at htr
    obtain ⟨-, rfl⟩ := Prod.mk.inj (Option.some.inj htr)
    exact hperm (by decide)⟩
  rw [hread] at hret
  cases hret

end Kernel

end SystemN
