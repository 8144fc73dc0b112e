/-
The stack of a process, as a page of memory.

The page of the stack is mapped to a frame that no table lies in, so what is stored on the stack
does not change the translation of any address.  A copy to the stack therefore always arrives,
and the bytes can be loaded again from where it has put them.
-/
import SystemN.Proofs.ProgramImage
import SystemN.Proofs.SysWrite
import SystemN.Proofs.SysRead

namespace SystemN

open Mm

/-! ### The page -/

/-- The stack page is mapped to the frame `pa` for user mode to read and write, and no store to the
frame changes the table. -/
structure StackPage (s : Mm) (root pa : Nat) : Prop where
  mapped : ∀ i < pageSize,
    s.translate root (userStackBase + i) = some (pa + i, mapFlags (pteR ||| pteW ||| pteU))
  apart : ∀ m : Nat → UInt8, (∀ a, (∀ i < pageSize, a ≠ pa + i) → m a = s.mem a) →
    ∀ va, (s.setMem m).translate root va = s.translate root va

theorem StackPage.setMem {s : Mm} {root pa : Nat} (h : StackPage s root pa) {m : Nat → UInt8}
    (hm : ∀ a, (∀ i < pageSize, a ≠ pa + i) → m a = s.mem a) : StackPage (s.setMem m) root pa := by
  refine ⟨fun i hi => (h.apart m hm _).trans (h.mapped i hi), fun m' hm' va => ?_⟩
  rw [h.apart m hm va]
  exact h.apart m' (fun a ha => (hm' a ha).trans (hm a ha)) va

theorem Kernel.StackApart.stackPage {s : Mm} {root : Nat} (h : Kernel.StackApart root s)
    (hT : Tables s.mem (theRoot root)) : ∃ pa, StackPage s root pa := by
  obtain ⟨pa, hleaf, hapart⟩ := h
  refine ⟨pa, fun i hi => ?_, fun m hm va => ?_⟩
  · have hpage : (userStackBase + i) / pageSize = userStackBase / pageSize := by
      simp only [userStackBase, userEndVa, userStackSize, pageSize] at *
      omega
    have hoff : (userStackBase + i) % pageSize = i := by
      simp only [userStackBase, userEndVa, userStackSize, pageSize] at *
      omega
    have hlow : userStackBase + i < 2 ^ 38 := by
      simp only [userStackBase, userEndVa, userStackSize, pageSize] at *
      omega
    rw [Mm.translate_eq hT (o := ()) rfl (Or.inl hlow), leafOf_congr_va hpage, hleaf,
      Option.map_some, hoff]
  · have hsame : SameTables s.mem m (theRoot root) := by
      intro n hn a ha
      refine hm a fun i hi heq => ?_
      exact hapart n hn i hi (heq ▸ ha)
    exact translate_setMem hT hsame va

namespace Kernel

variable {k k' : Kernel} {p pa o n m va binary size : Nat} {bytes : List UInt8}
  {live : Multiset (Nat × Nat)} {taken given fl : Nat → List Nat}

/-- The stack of the process whose table is loaded is mapped. -/
def HasStack (k : Kernel) : Prop := ∃ pa, StackPage k.mm k.satpRoot pa

/-- **A process that `create_proc` has made** has a stack once its table is loaded. -/
theorem createProc_hasStack (h : Prepared k live taken given fl)
    (hsrc : Source k live fl binary size) (hpos : 0 < size) (hle : size ≤ userHeapEnd)
    (hcall : k.createProc binary size = .ok (p, k')) (hp : p ≠ 0) :
    (k'.loadPagetable (k'.procs p).pagetable).HasStack := by
  rcases createProc_outcome h hsrc hpos hle with
    ⟨hnull, -⟩ | ⟨root, p', k₁, live₁, -, hspace, hstack, -, -, hends⟩
  · exact absurd (hnull _ hcall) hp
  · rw [hends] at hcall
    obtain ⟨k₂, hq, hpair⟩ := bind_eq_ok.mp hcall
    obtain ⟨rfl, rfl⟩ := Prod.mk.inj (Except.ok.inj hpair)
    obtain ⟨hmm, htable, -, -⟩ := enqueue_eq_ok hq
    rw [htable, hspace.table]
    have hroot : (k₂.loadPagetable root).satpRoot = root :=
      satpRoot_eq rfl (hspace.space.owned.tables.page root ⟨(), [], by decide, rfl⟩)
    have hpage := hstack.stackPage hspace.space.owned.tables
    rw [← hmm] at hpage
    unfold HasStack
    rw [hroot]
    exact hpage

/-! ### Loads and stores -/

/-- Memory with `bytes` from `a` on. -/
def storeAt (mem : Nat → UInt8) (a : Nat) (bytes : List UInt8) : Nat → UInt8 := fun x =>
  if a ≤ x ∧ x < a + bytes.length then bytes.getD (x - a) 0 else mem x

theorem storeAt_nil (mem : Nat → UInt8) (a : Nat) : storeAt mem a [] = mem := by
  funext x
  exact if_neg (by simp)

theorem storeAt_cons (mem : Nat → UInt8) (a : Nat) (c : UInt8) (bytes : List UInt8) :
    storeAt mem a (c :: bytes) = storeAt (Function.update mem a c) (a + 1) bytes := by
  funext x
  simp only [storeAt, List.length_cons]
  by_cases hx : x = a
  · subst hx
    rw [if_pos ⟨Nat.le_refl x, by omega⟩, if_neg (by omega), Function.update_self, Nat.sub_self]
    rfl
  · rw [Function.update_of_ne hx]
    by_cases hin : a ≤ x ∧ x < a + (bytes.length + 1)
    · rw [if_pos hin, if_pos (by omega), show x - a = x - (a + 1) + 1 by omega]
      rfl
    · rw [if_neg hin, if_neg (by omega)]

theorem storeAt_outside (mem : Nat → UInt8) {a x : Nat} (h : x < a ∨ a + bytes.length ≤ x) :
    storeAt mem a bytes x = mem x := if_neg (by omega)

theorem storeAt_inside (mem : Nat → UInt8) (a : Nat) {i : Nat} (h : i < bytes.length) :
    storeAt mem a bytes (a + i) = bytes.getD i 0 := by
  rw [storeAt, if_pos ⟨Nat.le_add_right a i, by omega⟩, Nat.add_sub_cancel_left]

/-- A store in the page leaves it as it is mapped. -/
theorem StackPage.storeAt (h : StackPage k.mm k.satpRoot pa) (ho : o + bytes.length ≤ pageSize) :
    StackPage (k.mm.setMem (storeAt k.mm.mem (pa + o) bytes)) k.satpRoot pa := by
  refine h.setMem fun a ha => storeAt_outside _ ?_
  by_contra hin
  exact ha (a - pa) (by omega) (by omega)

/-- A copy to the stack arrives. -/
theorem storeUser_stack (bytes : List UInt8) (h : StackPage k.mm k.satpRoot pa)
    (ho : o + bytes.length ≤ pageSize) :
    storeUser (userStackBase + o) bytes k =
      .ok (k.setMm (k.mm.setMem (storeAt k.mm.mem (pa + o) bytes))) := by
  induction bytes generalizing o k with
  | nil =>
      rw [storeAt_nil]
      rfl
  | cons c bytes ih =>
      rw [List.length_cons] at ho
      have hacc : k.access (userStackBase + o) pteW = .ok (pa + o) := by
        unfold access
        rw [h.mapped o (by omega)]
        exact if_pos (by decide)
      have hpage : StackPage (k.mm.setMem (Function.update k.mm.mem (pa + o) c)) k.satpRoot pa :=
        h.setMem fun a ha => Function.update_of_ne (ha o (by omega)) ..
      rw [storeUser, hacc, ok_bind, storeAt_cons, Nat.add_assoc]
      exact ih (k := k.setMm (k.mm.setMem (Function.update k.mm.mem (pa + o) c))) hpage (by omega)

theorem userByte_stack (h : StackPage k.mm k.satpRoot pa) (ho : o < pageSize) :
    k.userByte (userStackBase + o) = k.mm.mem (pa + o) := by
  rw [userByte, h.mapped o ho]

theorem readable_stack (h : StackPage k.mm k.satpRoot pa) (ho : o + n ≤ pageSize) :
    k.Readable (userStackBase + o) n := by
  intro i hi
  rw [Nat.add_assoc]
  exact ⟨pa + (o + i), _, h.mapped (o + i) (by omega), by decide, by decide⟩

/-- An array on the stack is in the page. -/
theorem exists_stack_offset (hlow : userStackBase ≤ va) (hhigh : va + n ≤ userStackTop) :
    ∃ o, va = userStackBase + o ∧ o + n ≤ pageSize := by
  obtain ⟨o, rfl⟩ := Nat.exists_eq_add_of_le hlow
  refine ⟨o, rfl, ?_⟩
  simp only [userStackBase, userStackTop, userEndVa, userStackSize, pageSize] at *
  omega

theorem HasStack.readable (h : k.HasStack) (hlow : userStackBase ≤ va)
    (hhigh : va + n ≤ userStackTop) : k.Readable va n := by
  obtain ⟨pa, hpage⟩ := h
  obtain ⟨o, rfl, ho⟩ := exists_stack_offset hlow hhigh
  exact readable_stack hpage ho

/-- A range that does not end with the stack is accepted. -/
theorem isUserAddr_stack (hm : 0 < m) (ho : o + m < pageSize) :
    isUserAddr (userStackBase + o) m = true := by
  refine isUserAddr_iff.mpr ⟨hm, ?_⟩
  simp only [userStackBase, userEndVa, userStackSize, pageSize] at *
  omega

/-- The bytes that have been stored, and those elsewhere on the stack. -/
theorem userBytes_storeAt (h : StackPage k.mm k.satpRoot pa) (ho : o + bytes.length ≤ pageSize)
    (hmm : k'.mm = k.mm.setMem (storeAt k.mm.mem (pa + o) bytes)) (hroot : k'.satpRoot = k.satpRoot) :
    k'.userBytes (userStackBase + o) bytes.length = bytes ∧
      ∀ o' n, o' + n ≤ o → k'.userBytes (userStackBase + o') n = k.userBytes (userStackBase + o') n := by
  have hpage : StackPage k'.mm k'.satpRoot pa := by
    rw [hmm, hroot]
    exact StackPage.storeAt h ho
  have hmem : k'.mm.mem = storeAt k.mm.mem (pa + o) bytes := congrArg Mm.mem hmm
  constructor
  · apply List.ext_getElem
    · simp
    · intro i h1 h2
      simp only [userBytes, List.getElem_map, List.getElem_range, Nat.add_assoc]
      rw [userByte_stack hpage (by omega), hmem, ← Nat.add_assoc, storeAt_inside _ _ h2,
        List.getD_eq_getElem?_getD, List.getElem?_eq_getElem h2, Option.getD_some]
  · intro o' n hle
    unfold userBytes
    refine List.map_congr_left fun i hi => ?_
    have hi' := List.mem_range.mp hi
    rw [Nat.add_assoc, userByte_stack hpage (by omega), userByte_stack h (by omega), hmem,
      storeAt_outside _ (by omega)]

end Kernel

end SystemN
