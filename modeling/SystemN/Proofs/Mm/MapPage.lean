/-
What `map_page` says and what it has done.

It returns 0 in two cases: the entry was empty and has been written, or it was valid
already and has been left as it was, whatever frame it leads to.  So a caller that
reads 0 as "my frame is mapped" is right about an address that had no translation, and
only about those.  The pages that `walk` adds on the way change no translation, and
neither does a call that returns -1.
-/
import SystemN.Proofs.Mm.Owned
import SystemN.Proofs.Mm.Metadata

namespace SystemN.Mm

open Radix

/-! ### The entry that `map_page` writes -/

/-- What the hardware makes of a page mapped with `perm`: without one of `R`, `W`, `X` the entry
is a pointer, which has no place at the last level. -/
def granted (pa perm : Nat) : Option (Nat × Nat) :=
  if perm &&& (pteR ||| pteW ||| pteX) = 0 then none else some (pa, mapFlags perm)

section Entry

variable {perm : Nat} (hperm : perm < 1024)
include hperm

theorem mapFlags_lt : mapFlags perm < 1024 := by
  have hor : ∀ {a b : Nat}, a < 2 ^ 10 → b < 2 ^ 10 → a ||| b < 2 ^ 10 := Nat.or_lt_two_pow
  exact hor (hor (hor hperm (by decide)) (by decide)) (by decide)

omit hperm in
theorem mapFlags_access : mapFlags perm &&& (pteR ||| pteW ||| pteX)
    = perm &&& (pteR ||| pteW ||| pteX) := by
  have hzero : ∀ x : Nat, x ||| 0 = x := Nat.or_zero
  simp only [mapFlags, Nat.and_or_distrib_right]
  exact (hzero _).trans ((hzero _).trans (hzero _))

omit hperm in
theorem mapFlags_valid : mapFlags perm &&& pteV ≠ 0 := by
  intro hcon
  simp only [mapFlags, Nat.and_or_distrib_right, Nat.or_eq_zero_iff] at hcon
  exact absurd hcon.1.1.2 (by decide)

theorem hwLeaf_map {pa : Nat} (hmod : pa % 4096 = 0) (hlt : pa < 2 ^ 56) :
    hwLeaf (pa2pte pa ||| mapFlags perm) = granted pa perm := by
  have hf := mapFlags_lt hperm
  rw [hwLeaf, granted, pte_and hlt hf (by decide), if_neg mapFlags_valid,
    pte_and hlt hf (by decide), mapFlags_access, pte2pa_pte hmod hlt hf, pteFlags_pte hlt hf]
  by_cases hacc : perm &&& (pteR ||| pteW ||| pteX) = 0
  · rw [if_pos hacc, if_neg (not_not.mpr hacc)]
  · rw [if_neg hacc, if_pos hacc]

end Entry

/-! ### A write to an entry of the last level -/

section Write

variable {ω : Type} [DecidableEq ω] {roots : ω → Option Nat} {o o' : ω} {m : Nat → UInt8}
  {s s' : Mm} {n va va' v root : Nat}

omit [DecidableEq ω] in
theorem pointers_write (hT : Tables m roots) (hn : tableAt m roots o (vpnPath va 0) = some n) :
    Pointers (putEntry m n (vpn va 0) v) roots := by
  intro o' p n' j hp hn'
  rw [tableAt_write hT hn rfl hp.le] at hn'
  have hne : n' ≠ n := by
    rintro rfl
    have hlen := congrArg List.length (hT.forest hp.le (le_refl 2) hn' hn).2
    rw [vpnPath_length va (Nat.zero_le 2)] at hlen
    omega
  rw [entry_write hT hn rfl (isNode_of_nodeAt hn' hp.le) (.inl hne)]
  exact hT.pointer o' p n' j hp hn'

/-- The translation of the page whose entry is written becomes what the hardware makes of the
entry; the others stay. -/
theorem translate_write (hT : Tables s.mem roots)
    (hn : tableAt s.mem roots o (vpnPath va 0) = some n) (hva : Canonical va) (hv : v < 2 ^ 64)
    (hmem : s'.mem = putEntry s.mem n (vpn va 0) v) (hroot : roots o' = some root) :
    s'.translate root va' =
      if Canonical va' ∧ o' = o ∧ va' / pageSize = va / pageSize then
        (hwLeaf v).map fun (pa, f) => (pa + va' % pageSize, f)
      else s.translate root va' := by
  by_cases hva' : Canonical va'
  · have hP : Pointers s'.mem roots := hmem ▸ pointers_write hT hn
    rw [translate_lookup hP hroot hva', translate_lookup hT.pointer hroot hva', hmem,
      lookup_write hT.forest hn rfl (fun _ _ hn' hne => entry_write hT hn rfl hn' hne) rfl,
      entry_putEntry hv]
    simp only [vpnPath_eq_iff hva hva', hva', true_and]
    split <;> rfl
  · rw [if_neg fun h => hva' h.1, translate, translate, if_neg hva', if_neg hva']

end Write

/-! ### The two outcomes -/

section Outcome

variable {ω : Type} [DecidableEq ω] {roots : ω → Option Nat} {o : ω} {s : Mm}
  {live : Multiset (Nat × Nat)} {root va pa perm : Nat}

omit [DecidableEq ω] in
/-- The tables that a call has added change no translation. -/
theorem Changed.translate {s₁ : Mm} {tabs : Multiset (Nat × Nat)} (h : Owned roots s live)
    (hc : Changed roots s live s₁ tabs (leafOf s.mem roots)) {o' : ω} {root' : Nat}
    (hroot : roots o' = some root') (va' : Nat) :
    s₁.translate root' va' = s.translate root' va' := by
  by_cases hva : Canonical va'
  · rw [translate_eq hc.owned.tables hroot hva, translate_eq h.tables hroot hva, hc.leaf]
  · rw [Mm.translate, Mm.translate, if_neg hva, if_neg hva]

/-- Every translation is what it was. -/
def SameTranslations (roots : ω → Option Nat) (s s' : Mm) : Prop :=
  ∀ o root va, roots o = some root → s'.translate root va = s.translate root va

/-- Every translation but that of the page of `va` in the tables of `o` is what it was. -/
def OthersSame (roots : ω → Option Nat) (o : ω) (va : Nat) (s s' : Mm) : Prop :=
  ∀ o' root' va', roots o' = some root' → ¬(o' = o ∧ va' / pageSize = va / pageSize) →
    s'.translate root' va' = s.translate root' va'

section Call

variable (h : Owned roots s live) (hroot : roots o = some root)
include h hroot

/-- `map_page` keeps a page that is mapped. -/
theorem Owned.mapPage_present (pa perm : Nat) (hva : Canonical va)
    (hsome : s.translate root va ≠ none) :
    ∃ s', Mm.mapPage root va pa perm s = .ok (true, s') ∧ SameTranslations roots s s' := by
  have hstart : Multiset.card (0 : Multiset (Nat × Nat)) + 2 ≤ 2 := le_refl 2
  obtain ⟨s₁, ⟨tabs, -, hc, -⟩, hcases⟩ :=
    (supply_changed o va).mapPage ⟨0, hstart, Changed.refl h, fun W hW => .refl hW.length⟩ hroot pa perm
  have hleaf : leafOf s₁.mem roots o va ≠ none := by
    rw [← hc.translate h hroot va, translate_eq hc.owned.tables hroot hva] at hsome
    exact fun hnone => hsome (Option.map_eq_none_iff.mpr hnone)
  rcases hcases with ⟨-, -, k, hk, hmissing⟩ | ⟨hcall, -⟩ | ⟨-, -, -, hnone, -⟩
  · exact absurd (lookup_of_nodeAt_none (tableAt_none va hk hmissing)) hleaf
  · exact ⟨s₁, hcall, fun o' root' va' hroot' => hc.translate h hroot' va'⟩
  · exact absurd hnone hleaf

/-- A page that is not mapped becomes mapped, or fewer than three pages were free. -/
theorem Owned.mapPage_absent (hva : Canonical va) (haligned : va % pageSize = 0)
    (hnone : s.translate root va = none) (hmod : pa % pageSize = 0) (hlt : pa < 2 ^ 56)
    (hperm : perm < 1024) :
    ∃ ok s', Mm.mapPage root va pa perm s = .ok (ok, s') ∧
      (ok = false → SameTranslations roots s s' ∧ Mm.freeCount s ≤ 2) ∧
      (ok = true → OthersSame roots o va s s' ∧ s'.translate root va = granted pa perm) := by
  have hstart : Multiset.card (0 : Multiset (Nat × Nat)) + 2 ≤ 2 := le_refl 2
  obtain ⟨s₁, ⟨tabs, hcard, hc, -⟩, hcases⟩ :=
    (supply_changed o va).mapPage ⟨0, hstart, Changed.refl h, fun W hW => .refl hW.length⟩ hroot pa perm
  have hsame : SameTranslations roots s s₁ := fun o' root' va' hroot' => hc.translate h hroot' va'
  have hleaf : leafOf s₁.mem roots o va = none := by
    rw [← hsame o root va hroot, translate_eq hc.owned.tables hroot hva] at hnone
    exact Option.map_eq_none_iff.mp hnone
  rcases hcases with ⟨hcall, hdry, -⟩ | ⟨-, hsome⟩ | ⟨n, pte, hn, -, hcall⟩
  · refine ⟨false, s₁, hcall, fun _ => ⟨hsame, ?_⟩, nofun⟩
    have hold := h.run.freeCount_add
    have hnew := hc.owned.run.freeCount_add
    rw [pageCount_add, pageCount_pages hc.pages, hc.statics.numPages,
      hc.owned.run.freeCount_of_noPage hdry] at hnew
    omega
  · exact absurd hleaf hsome
  · have hv := pte_lt hlt (mapFlags_lt hperm)
    refine ⟨true, _, hcall, nofun, fun _ => ⟨fun o' root' va' hroot' hother => ?_, ?_⟩⟩
    · rw [translate_write hc.owned.tables hn hva hv rfl hroot', if_neg fun hcon => hother hcon.2]
      exact hsame o' root' va' hroot'
    · rw [translate_write hc.owned.tables hn hva hv rfl hroot, if_pos ⟨hva, rfl, rfl⟩,
        hwLeaf_map hperm hmod hlt, haligned]
      cases granted pa perm <;> rfl

/--
**What 0 and -1 mean.**  For every allocator in order and all tables built from pages it has
handed out, `map_page` comes back; after 0 the address translates to the frame it was given if it
had no translation, and else as before.
-/
theorem Owned.mapPage_outcome (hva : Canonical va) (haligned : va % pageSize = 0)
    (hmod : pa % pageSize = 0) (hlt : pa < 2 ^ 56) (hperm : perm < 1024) :
    ∃ ok s', Mm.mapPage root va pa perm s = .ok (ok, s') ∧
      (ok = false → SameTranslations roots s s') ∧
      (ok = true → OthersSame roots o va s s' ∧ s'.translate root va =
        if s.translate root va = none then granted pa perm else s.translate root va) := by
  by_cases hnone : s.translate root va = none
  · obtain ⟨ok, s', hcall, hfailed, hmapped⟩ :=
      h.mapPage_absent hroot hva haligned hnone hmod hlt hperm
    refine ⟨ok, s', hcall, fun hok => (hfailed hok).1, fun hok => ?_⟩
    rw [if_pos hnone]
    exact hmapped hok
  · obtain ⟨s', hcall, hsame⟩ := h.mapPage_present hroot pa perm hva hnone
    refine ⟨true, s', hcall, nofun, fun _ => ⟨fun o' root' va' hroot' _ => hsame o' root' va' hroot', ?_⟩⟩
    rw [if_neg hnone]
    exact hsame o root va hroot

end Call

end Outcome

/-- The first page after the boot of the small kernel, as a table. -/
theorem exists_table_smallLayout :
    ∃ s root, Owned (fun _ : Unit => some root) s {(root, 0)} ∧
      (∀ va, leafOf s.mem (fun _ : Unit => some root) () va = none) ∧ s.numPages = 32623 := by
  obtain ⟨kp, s₀, hinit, hnum⟩ := exists_init_smallLayout
  have hspace : s₀.InSpace := by
    rw [InSpace, (statics_of_init hinit).2.2.vaOffset]
    decide
  obtain ⟨root, s, -, howned, hleaf, hst⟩ :=
    (runInv_init hinit).exists_root hspace (by rw [hnum]; decide)
  exact ⟨s, root, howned, hleaf, hst.numPages.trans hnum⟩

/-- An empty table, in which the second page of the address space is mapped. -/
theorem mapPage_outcome_smallLayout :
    ∃ s root ok s', Mm.mapPage root 0x1000 0x80300000 (pteR ||| pteW ||| pteU) s = .ok (ok, s') ∧
      (ok = false → SameTranslations (fun _ : Unit => some root) s s') ∧
      (ok = true → OthersSame (fun _ : Unit => some root) () 0x1000 s s' ∧
        s'.translate root 0x1000 = if s.translate root 0x1000 = none
          then granted 0x80300000 (pteR ||| pteW ||| pteU) else s.translate root 0x1000) := by
  obtain ⟨s, root, howned, -⟩ := exists_table_smallLayout
  exact ⟨s, root, howned.mapPage_outcome (o := ()) rfl (by decide) (by decide) (by decide) (by decide)
    (by decide)⟩

/-- A table in which page 0 is mapped: `map_page` returns 0 for another frame there, and for the
page after it without any of `R`, `W`, `X`. -/
theorem mapPage_keeps_smallLayout :
    ∃ s root live, Owned (fun _ : Unit => some root) s live ∧
      (∃ s', Mm.mapPage root 0 0x80400000 (pteR ||| pteW ||| pteU) s = .ok (true, s') ∧
        s'.translate root 0 = some (0x80300000, mapFlags (pteR ||| pteW ||| pteU))) ∧
      ∃ s', Mm.mapPage root 0x1000 0x80300000 pteU s = .ok (true, s') ∧
        s'.translate root 0x1000 = none := by
  obtain ⟨s₀, root, howned₀, hempty, hnum⟩ := exists_table_smallLayout
  have hroot : (fun _ : Unit => some root) () = some root := rfl
  obtain ⟨ok, s, tabs, hcall, hcard, hdry, hc⟩ := howned₀.mapPage (o := ()) hroot 0
    (show 0x80300000 % pageSize = 0 by decide) (by decide)
    (show IsPerm (pteR ||| pteW ||| pteU) by decide)
  have hfree : Mm.freeCount s + (Multiset.card tabs + 1) = 32623 := by
    have hsum := hc.owned.run.freeCount_add
    rwa [pageCount_add, pageCount_pages hc.pages, hc.statics.numPages, hnum] at hsum
  have hok : ok = true := by
    by_contra hfalse
    have hzero := hc.owned.run.freeCount_of_noPage (hdry (by simpa using hfalse))
    omega
  rw [hok, if_pos rfl] at hc
  have htr : ∀ va, Canonical va → s.translate root va = if vpage va = 0
      then some (0x80300000 + va % pageSize, mapFlags (pteR ||| pteW ||| pteU)) else none := by
    intro va hva
    rw [translate_eq (o := ()) hc.owned.tables rfl hva, hc.leaf, mapLeaf, hempty, hempty]
    by_cases hpage : vpage va = 0
    · rw [if_pos ⟨rfl, hpage⟩, if_pos hpage]
      rfl
    · rw [if_neg fun hcon => hpage hcon.2, if_neg hpage]
      rfl
  refine ⟨s, root, _, hc.owned, ?_, ?_⟩
  · have hat := htr 0 (by decide)
    rw [if_pos (by decide)] at hat
    obtain ⟨s', hcall', hsame⟩ := hc.owned.mapPage_present (o := ()) hroot 0x80400000
      (pteR ||| pteW ||| pteU) (show Canonical 0 by decide) (by rw [hat]; exact Option.some_ne_none _)
    exact ⟨s', hcall', (hsame () root 0 rfl).trans hat⟩
  · have hat := htr 0x1000 (by decide)
    rw [if_neg (by decide)] at hat
    obtain ⟨ok', s', hcall', hfailed, hmapped⟩ := hc.owned.mapPage_absent (o := ()) hroot (by decide)
      (by decide) hat (show 0x80300000 % pageSize = 0 by decide) (by decide) (show pteU < 1024 by decide)
    cases ok' with
    | false =>
        have hfew := (hfailed rfl).2
        omega
    | true => exact ⟨s', hcall', (hmapped rfl).2⟩

end SystemN.Mm
