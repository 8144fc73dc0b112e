/-
What a process finds in its memory.

The invariant of `Proofs.IsolationRun` speaks of frames and tables.  Here it is read as user code
finds it: every byte that it can reach is its own, a process that does not run finds its memory and
its registers as it left them, and whatever else happens, no byte comes from another process.
-/
import SystemN.Proofs.IsolationRun

namespace SystemN

open Mm Radix Spaces

/-! ### The memory of a process -/

/-- What user code finds at its addresses: a byte, and the flags of its page. -/
abbrev UserMemory := Nat → Option (UInt8 × Nat)

namespace UserMemory

variable {M : UserMemory} {lo hi va f : Nat} {c : UInt8} {bytes : List UInt8}

/-- There are pages from `lo` to `hi`; the new ones are blank. -/
def extend (lo hi f : Nat) (M : UserMemory) : UserMemory := fun va =>
  if lo ≤ va ∧ va < hi ∧ M va = none then some (0, f) else M va

/-- There are none from `lo` to `hi`. -/
def remove (lo hi : Nat) (M : UserMemory) : UserMemory := fun va =>
  if lo ≤ va ∧ va < hi then none else M va

/-- The bytes from `addr` on are `bytes`. -/
def write (addr : Nat) (bytes : List UInt8) (M : UserMemory) : UserMemory := fun va =>
  if addr ≤ va ∧ va < addr + bytes.length then (M va).map fun e => (bytes.getD (va - addr) 0, e.2)
  else M va

@[simp] theorem extend_empty (h : hi ≤ lo) : extend lo hi f M = M := by
  funext va
  exact if_neg fun hc => absurd (hc.1.trans_lt hc.2.1) (Nat.not_lt.mpr h)

@[simp] theorem remove_empty (h : hi ≤ lo) : remove lo hi M = M := by
  funext va
  exact if_neg fun hc => absurd (hc.1.trans_lt hc.2) (Nat.not_lt.mpr h)

@[simp] theorem write_nil (addr : Nat) : write addr [] M = M := by
  funext va
  exact if_neg fun hc => absurd (hc.1.trans_lt hc.2) (by simp)

/-- The first byte, and the others. -/
theorem write_cons (addr : Nat) : write (addr + 1) bytes (write addr [c] M) = write addr (c :: bytes) M := by
  funext va
  unfold write
  by_cases hva : va = addr
  · subst hva
    simp
  · by_cases hin : addr + 1 ≤ va ∧ va < addr + 1 + bytes.length
    · have hsub : va - addr = va - (addr + 1) + 1 := by omega
      rw [if_pos hin, if_neg (by simp only [List.length_singleton]; omega),
        if_pos (by simp only [List.length_cons]; omega), hsub, List.getD_cons_succ]
    · rw [if_neg hin, if_neg (by simp only [List.length_singleton]; omega),
        if_neg (by simp only [List.length_cons]; omega)]

end UserMemory

namespace Kernel

variable {L : Layout} {m : Nat → UInt8} {k k' k₁ : Kernel} {p q va pa f stack : Nat} {ps : List Nat}
  {live : Multiset (Nat × Nat)} {taken given fl : Nat → List Nat} {roots : Option Nat → Option Nat}
  {New : UInt8 → Prop} {es : List (Nat × UInt8)} {c : UInt8}
  {V : Mapping (Option Nat) PageNo PageBytes Nat}

/-! ### Bytes and pages -/

/-- The place of an address in its page. -/
def pageByte (va : Nat) : Fin pageSize := ⟨va % pageSize, Nat.mod_lt _ (by decide)⟩

theorem leafOf_pageNo (m : Nat → UInt8) (o : Option Nat) (va : Nat) :
    leafOf m roots o (pageNo va * pageSize) = leafOf m roots o va :=
  leafOf_vpage (vpage_pageNo (pageNo va))

/-- An address is its page and its place there. -/
theorem eq_of_pageNo {va' : Nat} (hva : Canonical va) (hva' : Canonical va') (hpage : pageNo va' = pageNo va)
    (hbyte : va' % pageSize = va % pageSize) : va' = va := by
  have hnum : vpage va' = vpage va := congrArg Fin.val hpage
  simp only [Canonical, vpage, pageSize] at *
  omega

/-- The bytes of the pages of `p`. -/
def bytesOf (V : Mapping (Option Nat) PageNo PageBytes Nat) (p : Nat) : UserMemory := fun va =>
  if Canonical va then (V (some p) (pageNo va)).map fun e => (e.1 (pageByte va), e.2) else none

theorem bytesOf_canonical (hva : Canonical va) :
    bytesOf V p va = (V (some p) (pageNo va)).map fun e => (e.1 (pageByte va), e.2) :=
  if_pos hva

theorem bytesOf_noncanonical (hva : ¬Canonical va) : bytesOf V p va = none := if_neg hva

/-- A byte is stored in a page. -/
theorem bytesOf_put {b b' : PageBytes} (hva : Canonical va) (hV : V (some p) (pageNo va) = some (b, f))
    (hb' : ∀ d : Fin pageSize, b' d = if d.val = va % pageSize then c else b d) :
    bytesOf (put V (some p) (pageNo va) (some (b', f))) p = (bytesOf V p).write va [c] := by
  funext va'
  unfold UserMemory.write
  by_cases hva' : Canonical va'
  swap
  · rw [bytesOf_noncanonical hva', bytesOf_noncanonical hva']
    split <;> rfl
  rw [bytesOf_canonical hva', bytesOf_canonical hva']
  by_cases hpage : pageNo va' = pageNo va
  · rw [hpage, put_self, hV]
    by_cases hbyte : va' % pageSize = va % pageSize
    · obtain rfl := eq_of_pageNo hva hva' hpage hbyte
      have hat : b' (pageByte va') = c := (hb' _).trans (if_pos rfl)
      simp [hat]
    · have hne : va' ≠ va := fun heq => hbyte (by rw [heq])
      have hat : b' (pageByte va') = b (pageByte va') := (hb' _).trans (if_neg hbyte)
      rw [if_neg (by simp only [List.length_singleton]; omega)]
      simp [hat]
  · have hne : va' ≠ va := fun heq => hpage (by rw [heq])
    rw [put_of_ne fun hat => hpage hat.2, if_neg (by simp only [List.length_singleton]; omega)]

/-- **The bytes of a process** are those of its pages. -/
theorem procByte_eq (h : Isolated L roots k.snub live taken given fl)
    (ho : roots (some p) = some (k.procs p).pagetable) :
    k.procByte p = bytesOf (userViews roots k.mm.mem) p := by
  have htables : Tables k.mm.mem roots := h.owned.tables
  funext va
  unfold procByte bytesOf
  by_cases hva : Canonical va
  · rw [if_pos hva, translate_eq htables ho hva]
    cases hleaf : leafOf k.mm.mem roots (some p) va with
    | none =>
        have hpage : userPages (leafOf k.mm.mem roots) (some p) (pageNo va) = none := by
          rw [userPages, leafOf_pageNo, hleaf]
          rfl
        rw [userViews, Spaces.view, hpage]
        rfl
    | some e =>
        by_cases huser : e.2 &&& pteU ≠ 0
        · have hpage : userPages (leafOf k.mm.mem roots) (some p) (pageNo va) = some e :=
            userPages_eq_some.mpr ⟨by rw [leafOf_pageNo, hleaf], huser⟩
          rw [userViews, view_of_some (f := e.1) (a := e.2) _ hpage]
          simp only [Option.map_some]
          rw [if_pos huser]
          rfl
        · have hpage : userPages (leafOf k.mm.mem roots) (some p) (pageNo va) = none := by
            rw [Option.eq_none_iff_forall_ne_some]
            intro e' he'
            obtain ⟨hsome, huser'⟩ := userPages_eq_some.mp he'
            rw [leafOf_pageNo, hleaf] at hsome
            obtain rfl := Option.some.inj hsome
            exact huser huser'
          rw [userViews, Spaces.view, hpage]
          simp only [Option.map_some, Option.map_none]
          rw [if_neg huser]
  · rw [if_neg hva, Mm.translate, if_neg hva]

namespace Serves

variable (hs : Serves New (k.tableRoots ps) p taken given fl k k') (h : Separated ps k live taken given fl)
include hs

theorem tableRoots_eq (hq : q ∈ ps) : k.tableRoots ps (some q) = some (k'.procs q).pagetable := by
  rw [tableRoots_of_mem hq, hs.tables]

include h

/-- The others find what they found. -/
theorem procByte_other (hq : q ∈ ps) (hne : q ≠ p) : k'.procByte q = k.procByte q := by
  obtain ⟨live', hi⟩ := hs.isolated
  rw [procByte_eq hi (hs.tableRoots_eq hq), procByte_eq h.isolated (tableRoots_of_mem hq)]
  unfold bytesOf
  rw [hs.confined.others (some q) (by simpa using hne)]

end Serves

/-! ### Stores -/

/-- **Step lemma**: a store of the current process is one to its memory. -/
theorem SystemInv.store_seen (hinv : SystemInv ps k live taken given fl) (hcurr : k.cpu.proc ∈ ps)
    (hstore : k.userStore va c = some k') :
    (∃ b f, k.procByte k.cpu.proc va = some (b, f) ∧ f &&& pteW ≠ 0) ∧
      k'.procByte k.cpu.proc = UserMemory.write va [c] (k.procByte k.cpu.proc) := by
  obtain ⟨hs, -⟩ := hinv.userStore hstore
  obtain ⟨o, -, -, hloaded⟩ := hinv.satpRoot
  obtain ⟨-, hroot⟩ := hloaded hcurr
  obtain ⟨pa, haccess, hk⟩ := Option.map_eq_some_iff.mp hstore
  unfold userAccess at haccess
  split at haccess
  swap
  · cases haccess
  next pa' f htr =>
  split at haccess
  swap
  · cases haccess
  next hflags =>
  obtain rfl := Option.some.inj haccess
  rw [hroot] at htr
  obtain ⟨b, b', hb, -, hviews, hb'⟩ := store_view (c := c) hinv.isolated (tableRoots_of_mem hcurr) htr
    hflags.1
  have hcanon : Canonical va := by
    by_contra hva
    rw [Mm.translate, if_neg hva] at htr
    cases htr
  have hmem : userViews (k.tableRoots ps) k'.mm.mem =
      put (userViews (k.tableRoots ps) k.mm.mem) (some k.cpu.proc) (pageNo va) (some (b', f)) := by
    rw [← hk]
    exact hviews
  have hb₀ : userViews (k.tableRoots ps) k.mm.mem (some k.cpu.proc) (pageNo va) = some (b, f) := hb
  obtain ⟨live', hi'⟩ := hs.isolated
  rw [procByte_eq hi' (hs.tableRoots_eq hcurr), procByte_eq hinv.isolated (tableRoots_of_mem hcurr), hmem]
  refine ⟨⟨b (pageByte va), f, ?_, hflags.2⟩, bytesOf_put hcanon hb₀ hb'⟩
  rw [bytesOf_canonical hcanon, hb₀]
  rfl

/-- The process `q` has its memory, its saved registers and its record, but for its state. -/
structure Undisturbed (q : Nat) (k k' : Kernel) : Prop where
  memory : ∀ va, k'.procByte q va = k.procByte q va
  frame : (k'.procs q).tf = (k.procs q).tf ∧ k'.frames (k'.procs q).tf = k.frames (k.procs q).tf
  record : (k'.procs q).stateless = (k.procs q).stateless

theorem Undisturbed.refl (q : Nat) (k : Kernel) : Undisturbed q k k := ⟨fun _ => rfl, ⟨rfl, rfl⟩, rfl⟩

theorem Undisturbed.trans (h : Undisturbed q k k₁) (h' : Undisturbed q k₁ k') : Undisturbed q k k' where
  memory va := (h'.memory va).trans (h.memory va)
  frame := ⟨h'.frame.1.trans h.frame.1, h'.frame.2.trans h.frame.2⟩
  record := h'.record.trans h.record

/-- A step does not touch a process that is not current. -/
theorem SystemStep.untouched (h : SystemInv ps k live taken given fl) (hstep : SystemStep ps k es k')
    (hq : q ∈ ps) (hne : k.cpu.proc ≠ q) : Undisturbed q k k' := by
  obtain ⟨hs, -⟩ := hstep.serves h
  have hrecord := hs.records q hne.symm (h.loaded.procs q hq).2
  refine ⟨congrFun (hs.procByte_other h.toSeparated hq hne.symm), ⟨hs.tfs q, ?_⟩, hrecord⟩
  rw [hs.tfs]
  refine hs.frames _ fun heq => ?_
  cases hidle : (k.procs k.cpu.proc).isIdle with
  | true => rfl
  | false => exact absurd (h.frames q hq _ (h.loaded.mem_of_not_idle hidle) heq).symm hne

/-- What a path has done to the characters that are waiting, and where it leads. -/
theorem SystemPath.run (h : SystemRun L m stack ps k) (hpath : SystemPath ps k es k') :
    SystemRun L m stack ps k' ∧ k'.uartIn ⊆ k.uartIn := by
  induction hpath with
  | refl => exact ⟨h, List.Subset.refl _⟩
  | step _ hstep ih =>
      obtain ⟨hrun, hsub⟩ := ih
      obtain ⟨-, live, taken, given, fl, hinv⟩ := hrun.inv
      obtain ⟨hs, -⟩ := hstep.serves hinv
      exact ⟨hrun.step hstep, List.Subset.trans hs.uartIn hsub⟩

end Kernel

end SystemN
