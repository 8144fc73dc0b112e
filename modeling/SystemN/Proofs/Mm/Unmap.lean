/-
`unmap_page`, whatever frame it finds.

`free_page` writes no byte of a table, so what `unmap_page` does to the translations does not
depend on whose the frame is: it may be a page of the kernel, or be free already.  The
allocator's part is told apart from it, by `Freed`.
-/
import SystemN.Proofs.Mm.Owned

namespace SystemN.Mm

open Radix

variable {s s' t : Mm}

/-! ### The allocator's part of the state -/

/-- The records and the free lists are the same. -/
structure SameAllocator (s s' : Mm) : Prop where
  statics : SameStatics s s'
  pages : s'.pages = s.pages
  freeLists : s'.freeLists = s.freeLists

namespace SameAllocator

theorem refl (s : Mm) : SameAllocator s s := ⟨SameStatics.refl s, rfl, rfl⟩

theorem trans (h : SameAllocator s t) (h' : SameAllocator t s') : SameAllocator s s' :=
  ⟨h.statics.trans h'.statics, h'.pages.trans h.pages, h'.freeLists.trans h.freeLists⟩

theorem storePte (s : Mm) (pte v : Nat) : SameAllocator s (s.storePte pte v) :=
  ⟨⟨rfl, rfl, rfl, rfl⟩, rfl, rfl⟩

end SameAllocator

theorem Traced.sameAllocator (h : Traced s s') : SameAllocator s s' := by
  obtain ⟨d, rfl⟩ := h
  exact ⟨⟨rfl, rfl, rfl, rfl⟩, rfl, rfl⟩

/-- `free_page` has been called on these frames, in this order and once for each, and nothing else
has happened to the allocator. -/
inductive Freed : Mm → List Nat → Mm → Prop where
  | nil {s s' : Mm} (h : SameAllocator s s') : Freed s [] s'
  | cons {s t t' s' : Mm} {pa : Nat} {frames : List Nat} (h : SameAllocator s t)
      (hfree : t.freePage pa = .ok t') (hrest : Freed t' frames s') : Freed s (pa :: frames) s'

theorem Freed.append {frames frames' : List Nat} (h : Freed s frames t) (h' : Freed t frames' s') :
    Freed s (frames ++ frames') s' := by
  induction h with
  | nil h =>
      cases h' with
      | nil h' => exact .nil (h.trans h')
      | cons hsame hfree hrest => exact .cons (h.trans hsame) hfree hrest
  | cons hsame hfree _ ih => exact .cons hsame hfree (ih h')

/-! ### The tables' part -/

section Paged

variable {ω : Type} {roots : ω → Option Nat} {o : ω} {root n va : Nat}

/-- The tables are well formed; whose their pages are is left open. -/
structure Paged (roots : ω → Option Nat) (s : Mm) : Prop where
  inSpace : s.InSpace
  tables : Tables s.mem roots

theorem Owned.paged {live : Multiset (Nat × Nat)} (h : Owned roots s live) : Paged roots s :=
  ⟨h.inSpace, h.tables⟩

theorem Paged.congr (h : Paged roots s) (hst : SameStatics s s') (hmem : s'.mem = s.mem) :
    Paged roots s' := by
  refine ⟨h.inSpace.congr hst, ?_⟩
  rw [hmem]
  exact h.tables

variable [DecidableEq ω]

/-- The entry of a page is cleared. -/
theorem Paged.clear (h : Paged roots s) (hn : tableAt s.mem roots o (vpnPath va 0) = some n) :
    Paged roots (s.storePte (pteAddr (s.physToVirt n) (vpnLevel va 0)) 0) ∧
      leafOf (s.storePte (pteAddr (s.physToVirt n) (vpnLevel va 0)) 0).mem roots
        = unmapLeaf (leafOf s.mem roots) o va ∧
      ∀ q, IsTable (s.storePte (pteAddr (s.physToVirt n) (vpnLevel va 0)) 0).mem roots q ↔
        IsTable s.mem roots q := by
  have hpage := h.tables.page n (isNode_of_nodeAt hn (le_refl 2))
  have hmem := storePte_mem h.inSpace hpage va 0 0
  refine ⟨⟨h.inSpace.congr ⟨rfl, rfl, rfl, rfl⟩, ?_⟩, ?_, fun q => ?_⟩
  · rw [hmem]
    exact h.tables.write hn rfl (by norm_num) fun h0 => absurd (Nat.zero_and _) h0
  · funext o' va'
    rw [hmem, leafOf_write h.tables hn rfl (by norm_num)]
    unfold unmapLeaf
    by_cases hpage : o' = o ∧ vpage va' = vpage va
    · rw [if_pos hpage, if_pos ⟨hpage.1, vpnPath_iff.mpr hpage.2⟩, pteLeaf_zero]
    · rw [if_neg hpage, if_neg fun hc => hpage ⟨hc.1, vpnPath_iff.mp hc.2⟩]
  · rw [hmem]
    exact isTable_write h.tables hn rfl

/-- A page that has no entry is unmapped already. -/
theorem unmapLeaf_none {L : ω → Nat → Option (Nat × Nat)}
    (hL : ∀ va', vpage va' = vpage va → L o va' = L o va) (hnone : L o va = none) :
    unmapLeaf L o va = L := by
  funext o' va'
  unfold unmapLeaf
  split
  · next hpage =>
    obtain ⟨rfl, hva⟩ := hpage
    rw [hL va' hva, hnone]
  · rfl

/-- What has come of a call of `unmap_page`. -/
structure Unmapped (roots : ω → Option Nat) (o : ω) (va : Nat) (s s' : Mm) : Prop where
  paged : Paged roots s'
  leaf : leafOf s'.mem roots = unmapLeaf (leafOf s.mem roots) o va
  isTable : ∀ q, IsTable s'.mem roots q ↔ IsTable s.mem roots q
  freed : Freed s ((leafOf s.mem roots o va).map Prod.fst).toList s'

/-- **`unmap_page`**, when it comes back. -/
theorem Paged.unmapPage (h : Paged roots s) (hroot : roots o = some root) {ok : Bool}
    (hcall : Mm.unmapPage root va s = .ok (ok, s')) :
    ok = (leafOf s.mem roots o va).isSome ∧ Unmapped roots o va s s' := by
  obtain ⟨t, htr, ⟨hnone, hres⟩ | ⟨n, pa, f, hn, hsome, hres⟩⟩ :=
    unmapPage_cases h.inSpace h.tables hroot va
  · obtain ⟨rfl, rfl⟩ := Prod.mk.inj (Except.ok.inj (hres.symm.trans hcall))
    rw [hnone]
    refine ⟨rfl, h.congr htr.later.statics htr.mem, ?_, fun q => ?_, ?_⟩
    · rw [htr.mem]
      exact (unmapLeaf_none (fun _ hva => leafOf_vpage hva) hnone).symm
    · rw [htr.mem]
    · rw [hnone]
      exact .nil htr.sameAllocator
  · rw [hres, bind_eq_ok] at hcall
    obtain ⟨t', hfree, hcall⟩ := hcall
    obtain ⟨rfl, rfl⟩ := Prod.mk.inj (Except.ok.inj hcall)
    obtain ⟨hlater, hmem⟩ := freePages_frame hfree
    have hmem' : t'.mem = s.mem := hmem.trans htr.mem
    have hst : SameStatics s t' := htr.later.statics.trans hlater.statics
    have hn' : tableAt t'.mem roots o (vpnPath va 0) = some n := by rwa [hmem']
    have hclear := (h.congr hst hmem').clear hn'
    rw [hmem', hst.physToVirt] at hclear
    rw [hsome]
    refine ⟨rfl, hclear.1, hclear.2.1, hclear.2.2, ?_⟩
    rw [hsome]
    exact .cons htr.sameAllocator hfree (.nil (SameAllocator.storePte t' _ _))

/-! ### A range of pages -/

/-- The translations once `n` pages from `va` on are unmapped. -/
def unmapRange (L : ω → Nat → Option (Nat × Nat)) (o : ω) (va n : Nat) :
    ω → Nat → Option (Nat × Nat) := fun o' va' =>
  if o' = o ∧ ∃ i < n, vpage va' = vpage (va + i * pageSize) then none else L o' va'

/-- The frames behind these pages, in their order. -/
def frames (L : ω → Nat → Option (Nat × Nat)) (o : ω) (va n : Nat) : List Nat :=
  (List.range n).flatMap fun i => ((L o (va + i * pageSize)).map Prod.fst).toList

variable {L : ω → Nat → Option (Nat × Nat)}

theorem unmapRange_zero : unmapRange L o va 0 = L := by
  funext o' va'
  rw [unmapRange, if_neg]
  intro ⟨_, i, hi, _⟩
  exact absurd hi (Nat.not_lt_zero i)

theorem add_succ_pages (va i : Nat) : va + (i + 1) * pageSize = va + pageSize + i * pageSize := by
  rw [Nat.succ_mul]
  omega

theorem unmapRange_succ (n : Nat) :
    unmapRange (unmapLeaf L o va) o (va + pageSize) n = unmapRange L o va (n + 1) := by
  funext o' va'
  unfold unmapRange unmapLeaf
  by_cases ho : o' = o
  · by_cases hrest : ∃ i < n, vpage va' = vpage (va + pageSize + i * pageSize)
    · obtain ⟨i, hi, hva⟩ := hrest
      have hva' : vpage va' = vpage (va + (i + 1) * pageSize) := by rwa [add_succ_pages]
      rw [if_pos ⟨ho, i, hi, hva⟩, if_pos ⟨ho, i + 1, Nat.succ_lt_succ hi, hva'⟩]
    · rw [if_neg fun hc => hrest hc.2]
      by_cases hfirst : vpage va' = vpage va
      · have hva' : vpage va' = vpage (va + 0 * pageSize) := by rwa [Nat.zero_mul]
        rw [if_pos ⟨ho, hfirst⟩, if_pos ⟨ho, 0, Nat.zero_lt_succ n, hva'⟩]
      · rw [if_neg fun hc => hfirst hc.2, if_neg]
        intro ⟨_, i, hi, hva⟩
        cases i with
        | zero =>
            rw [Nat.zero_mul] at hva
            exact hfirst hva
        | succ i =>
            rw [add_succ_pages] at hva
            exact hrest ⟨i, Nat.lt_of_succ_lt_succ hi, hva⟩
  · rw [if_neg fun hc => ho hc.1, if_neg fun hc => ho hc.1, if_neg fun hc => ho hc.1]

omit [DecidableEq ω] in
theorem frames_succ (n : Nat) :
    frames L o va (n + 1) = ((L o va).map Prod.fst).toList ++ frames L o (va + pageSize) n := by
  unfold frames
  rw [List.range_succ_eq_map, List.flatMap_cons, List.flatMap_map, Nat.zero_mul]
  congr 1
  apply List.flatMap_congr
  intro i _
  rw [add_succ_pages]

omit [DecidableEq ω] in
/-- The frame of one page among those of all. -/
theorem exists_frames_split {j n pa f : Nat} (hj : j < n) (hL : L o (va + j * pageSize) = some (pa, f)) :
    ∃ rest, frames L o va n = frames L o va j ++ pa :: rest := by
  obtain ⟨d, rfl⟩ := Nat.exists_eq_add_of_lt hj
  unfold frames
  rw [add_assoc, List.range_add, List.flatMap_append, List.range_succ_eq_map, List.map_cons,
    List.flatMap_cons, Nat.add_zero, hL]
  exact ⟨_, rfl⟩

/-- Unmapping a page leaves the frames of the other pages. -/
theorem frames_unmapLeaf {n : Nat} (hne : ∀ i < n, vpage (va + pageSize + i * pageSize) ≠ vpage va) :
    frames (unmapLeaf L o va) o (va + pageSize) n = frames L o (va + pageSize) n := by
  apply List.flatMap_congr
  intro i hi
  have hi' := hne i (List.mem_range.mp hi)
  rw [unmapLeaf, if_neg fun hc => hi' hc.2]

/-- As many pages as have different numbers. -/
theorem vpage_inj {i j : Nat} (hi : i < 2 ^ 27) (hj : j < 2 ^ 27)
    (h : vpage (va + i * pageSize) = vpage (va + j * pageSize)) : i = j := by
  simp only [vpage, pageSize, Nat.add_mul_div_right _ _ (show 0 < 4096 by norm_num)] at h
  omega

/-- What has come of unmapping `n` pages. -/
structure Cleared (roots : ω → Option Nat) (o : ω) (va n : Nat) (s s' : Mm) : Prop where
  paged : Paged roots s'
  leaf : leafOf s'.mem roots = unmapRange (leafOf s.mem roots) o va n
  isTable : ∀ q, IsTable s'.mem roots q ↔ IsTable s.mem roots q
  freed : Freed s (frames (leafOf s.mem roots) o va n) s'

theorem Cleared.zero (h : Paged roots s) : Cleared roots o va 0 s s :=
  ⟨h, unmapRange_zero.symm, fun _ => Iff.rfl, .nil (SameAllocator.refl s)⟩

theorem Cleared.succ {n : Nat} (h : Unmapped roots o va s t)
    (h' : Cleared roots o (va + pageSize) n t s')
    (hne : ∀ i < n, vpage (va + pageSize + i * pageSize) ≠ vpage va) :
    Cleared roots o va (n + 1) s s' := by
  obtain ⟨hpaged, hleaf, hisTable, hfreed⟩ := h'
  rw [h.leaf] at hleaf hfreed
  refine ⟨hpaged, hleaf.trans (unmapRange_succ n), fun q => (hisTable q).trans (h.isTable q), ?_⟩
  rw [frames_succ, ← frames_unmapLeaf hne]
  exact h.freed.append hfreed

/-! ### A `free_page` that does not come back -/

/-- So ends a loop that unmaps `n` pages: the `free_page` of page `j` does not come back, after the
pages before it have been freed. -/
def Stopped (L : ω → Nat → Option (Nat × Nat)) (o : ω) (va n : Nat) (s : Mm) (e : Stop) : Prop :=
  ∃ j < n, ∃ pa f t, L o (va + j * pageSize) = some (pa, f) ∧ Freed s (frames L o va j) t ∧
    Mm.freePage t pa = .error e

omit [DecidableEq ω] in
/-- `unmap_page` comes back unless `free_page` does not. -/
theorem Paged.unmapPage_error (h : Paged roots s) (hroot : roots o = some root) {e : Stop}
    (hcall : Mm.unmapPage root va s = .error e) (n : Nat) :
    Stopped (leafOf s.mem roots) o va (n + 1) s e := by
  obtain ⟨t, htr, ⟨-, hres⟩ | ⟨m, pa, f, -, hsome, hres⟩⟩ :=
    unmapPage_cases h.inSpace h.tables hroot va
  · rw [hres] at hcall
    cases hcall
  · refine ⟨0, Nat.zero_lt_succ n, pa, f, t, by rwa [Nat.zero_mul], .nil htr.sameAllocator, ?_⟩
    rw [hres] at hcall
    cases hfree : t.freePage pa with
    | ok t' =>
        rw [hfree] at hcall
        cases hcall
    | error e' =>
        rw [hfree] at hcall
        exact congrArg Except.error (Except.error.inj hcall)

/-- The first page has been unmapped before. -/
theorem Stopped.succ {n : Nat} {e : Stop} (h : Unmapped roots o va s t)
    (h' : Stopped (leafOf t.mem roots) o (va + pageSize) n t e)
    (hne : ∀ i < n, vpage (va + pageSize + i * pageSize) ≠ vpage va) :
    Stopped (leafOf s.mem roots) o va (n + 1) s e := by
  obtain ⟨j, hj, pa, f, t', hleaf, hfreed, hfree⟩ := h'
  refine ⟨j + 1, Nat.succ_lt_succ hj, pa, f, t', ?_, ?_, hfree⟩
  · rw [h.leaf, unmapLeaf, if_neg fun hc => hne j hj hc.2] at hleaf
    rwa [add_succ_pages]
  · rw [h.leaf, frames_unmapLeaf fun i hi => hne i (hi.trans hj)] at hfreed
    rw [frames_succ]
    exact h.freed.append hfreed

end Paged

end SystemN.Mm
