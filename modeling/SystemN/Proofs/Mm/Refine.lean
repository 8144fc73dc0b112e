/-
A page table is a finite map from pages to frames and flags.

A run starts with a table fresh from `alloc_pagetable` and goes on with any calls of
`map_page`, `unmap_page` and `walk`; each call of `map_page` comes with an allocator of
its own, of which only `Answer` is known.  Next to the memory the run keeps a `VirtMap`,
changed as the three calls are meant to change the table.  That the table and the map
agree in every state is the induction of one lemma for each call.
-/
import SystemN.Proofs.Mm.Walk
import Mathlib.Data.Finmap

namespace SystemN.Mm

open Radix

/-- What a table stands for: the frame and the flags of each mapped page, by page number. -/
abbrev VirtMap := Finmap fun _ : Nat => Nat × Nat

/-- `map_page` inserts a page that is absent and keeps one that is there. -/
def VirtMap.mapped (M : VirtMap) (va pa perm : Nat) : VirtMap :=
  if va / pageSize ∈ M then M else M.insert (va / pageSize) (pa, mapFlags perm)

/-- `unmap_page` removes a page. -/
def VirtMap.unmapped (M : VirtMap) (va : Nat) : VirtMap := M.erase (va / pageSize)

/-- What `walk(table, va, 0)` tells a caller about `va`. -/
def lookupPage (s : Mm) (root va : Nat) : Except Stop (Option (Nat × Nat)) := do
  let (pte, s) ← walk Mm.allocPage (s.physToVirt root) va false s
  pure (if pte = 0 then none else pteLeaf (s.loadPte pte))

/-- The one table the run is about. -/
abbrev theRoot (root : Nat) : Unit → Option Nat := fun _ => some root

/-- A page that the table has been built from. -/
def OwnPage (s : Mm) (root n : Nat) : Prop := IsTable s.mem (theRoot root) n

/-- A good answer of `alloc_page` called in `s`: it is `NULL`, or a zeroed page of RAM that is
not in use as one of the `own` pages, and these are left alone. -/
structure Answer (own : Nat → Prop) (s : Mm) (a : Nat) (s' : Mm) : Prop where
  vaOffset : s'.vaOffset = s.vaOffset
  same : ∀ n, own n → SamePage s.mem s'.mem n
  fresh : a = 0 ∨ IsPage a ∧ ¬own a ∧ ZeroPage s'.mem a

/-- `alloc_page` always comes back, with a good answer for a table that is made of pages. -/
def Answers (root : Nat) (alloc : AllocPage) : Prop :=
  ∀ s, (∀ n, OwnPage s root n → IsPage n) →
    ∃ a s', alloc s = .ok (a, s') ∧ Answer (OwnPage s root) s a s'

/-- The arguments `map_page` may be given. -/
structure MapArgs (va pa perm : Nat) : Prop where
  canonical : Canonical va
  vaAligned : va % pageSize = 0
  paAligned : pa % pageSize = 0
  paLt : pa < 2 ^ 56
  perm : IsPerm perm

/-- The states of the runs on the table at `root`, with the map each stands for. -/
inductive TableRun (root : Nat) : Mm → VirtMap → Prop
  | start {alloc : AllocPage} {s₀ s : Mm}
      (hoff : s₀.vaOffset = 0 ∨ s₀.vaOffset = vaOffsetConst)
      (hanswer : Answer (fun _ => False) s₀ root s) (hroot : root ≠ 0)
      (hcall : allocPagetableWith alloc s₀ = .ok (root, s)) : TableRun root s ∅
  | map {alloc : AllocPage} {s s' : Mm} {M : VirtMap} {va pa perm : Nat} {r : Bool}
      (hrun : TableRun root s M) (halloc : Answers root alloc) (hargs : MapArgs va pa perm)
      (hcall : mapPageWith alloc root va pa perm s = .ok (r, s')) :
      TableRun root s' (if r then M.mapped va pa perm else M)
  | unmap {s s' : Mm} {M : VirtMap} {va : Nat} {r : Bool} (hrun : TableRun root s M)
      (hva : Canonical va) (haligned : va % pageSize = 0)
      (hcall : unmapPage root va s = .ok (r, s')) :
      TableRun root s' (if r then M.unmapped va else M)
  | walk {alloc : AllocPage} {s s' : Mm} {M : VirtMap} {va pte : Nat} (hrun : TableRun root s M)
      (hcall : Mm.walk alloc (s.physToVirt root) va false s = .ok (pte, s')) : TableRun root s' M
  /-- Anything else that happens leaves the pages of the table alone. -/
  | other {s s' : Mm} {M : VirtMap} (hrun : TableRun root s M) (hoff : s'.vaOffset = s.vaOffset)
      (hsame : ∀ n, OwnPage s root n → SamePage s.mem s'.mem n) : TableRun root s' M

/-! ### The invariant -/

/-- The memory holds a tree, and the tree agrees with the map. -/
structure TableInv (root : Nat) (s : Mm) (M : VirtMap) : Prop where
  inSpace : s.InSpace
  tables : Tables s.mem (theRoot root)
  agree : ∀ va, Canonical va → leafOf s.mem (theRoot root) () va = M.lookup (va / pageSize)

theorem tableInv_traced {root : Nat} {s s' : Mm} {M : VirtMap} (hi : TableInv root s M)
    (h : Traced s s') : TableInv root s' M := by
  obtain ⟨d, rfl⟩ := h
  exact ⟨hi.inSpace, hi.tables, hi.agree⟩

/-- A zeroed page is an empty table. -/
theorem tableInv_start {root : Nat} {s₀ s : Mm} (hoff : s₀.vaOffset = 0 ∨ s₀.vaOffset = vaOffsetConst)
    (hanswer : Answer (fun _ => False) s₀ root s) (hroot : root ≠ 0) : TableInv root s ∅ := by
  obtain ⟨hpage, -, hzero⟩ := hanswer.fresh.resolve_left hroot
  have hsome : ∀ p n, tableAt s.mem (theRoot root) () p = some n → p = [] ∧ n = root := by
    intro p n hn
    cases p with
    | nil => exact ⟨rfl, (Option.some.inj hn).symm⟩
    | cons i p =>
        exfalso
        induction p generalizing i n with
        | nil =>
            rw [tableAt, nodeAt_cons rfl, entry_zeroPage hzero, pteNext_zero] at hn
            cases hn
        | cons j p ih =>
            cases hj : tableAt s.mem (theRoot root) () (j :: p) with
            | none =>
                rw [tableAt, nodeAt_cons_none hj] at hn
                cases hn
            | some n' => exact ih n' j hj
  refine ⟨?_, ⟨?_, ?_, ?_, ?_⟩, ?_⟩
  · rw [InSpace, hanswer.vaOffset]
    rcases hoff with h | h <;> rw [h] <;> decide
  · intro o o' p p' n _ _ hn hn'
    exact ⟨rfl, (hsome p n hn).1.trans (hsome p' n hn').1.symm⟩
  · rintro n ⟨o, p, -, hn⟩
    exact (hsome p n hn).2 ▸ hpage
  · intro o p n i _ hn hV
    rw [(hsome p n hn).2, entry_zeroPage hzero] at hV
    exact absurd (Nat.zero_and _) hV
  · intro o p n i _ hn hV
    rw [(hsome p n hn).2, entry_zeroPage hzero] at hV
    exact absurd (Nat.zero_and _) hV
  · intro va _
    rw [Finmap.lookup_empty, leafOf]
    refine lookup_of_nodeAt_none ?_
    by_contra hne
    obtain ⟨n, hn⟩ := Option.ne_none_iff_exists'.mp hne
    exact absurd (hsome _ n hn).1 (List.cons_ne_nil _ _)

/-- What `map_page` keeps while it looks for the entry: the tree, and every translation. -/
def Keeps (root : Nat) (L : Nat → Option (Nat × Nat)) (s : Mm) : Prop :=
  s.InSpace ∧ Tables s.mem (theRoot root) ∧ ∀ va, leafOf s.mem (theRoot root) () va = L va

theorem source_of_answers {root : Nat} {alloc : AllocPage} (halloc : Answers root alloc)
    (L : Nat → Option (Nat × Nat)) : Source alloc (theRoot root) (Keeps root L) where
  tables _ h := h.2.1
  inSpace _ h := h.1
  deref _ _ _ h := h
  call s h := by
    obtain ⟨hs, hT, hL⟩ := h
    obtain ⟨a, s', hcall, hans⟩ := halloc s hT.page
    have hs' : s'.InSpace := by
      rw [InSpace, hans.vaOffset]
      exact hs
    have hsame : SameTables s.mem s'.mem (theRoot root) := hans.same
    refine ⟨a, s', hcall, hans.vaOffset, fun _ => ⟨hs', hT.congr hsame, fun va => ?_⟩,
      fun ha o p n i hp hn hfree => ?_⟩
    · rw [hsame.leafOf, hL]
    · obtain ⟨hpage, hfresh, hzero⟩ := hans.fresh.resolve_left ha
      have hnew : NewTable s.mem s'.mem (theRoot root) o p n i a :=
        ⟨hT, hn, hp, hfree, hsame, hpage, hfresh, hzero⟩
      refine ⟨hnew, fun pte => ⟨hs', hnew.tables_link, fun va => ?_⟩⟩
      exact (hnew.leafOf_link () va).trans (hL va)

/-! ### One call -/

/-- A write to the entry of a page changes the translation of that page. -/
theorem agree_write {root : Nat} {s : Mm} {M M' : VirtMap} {va t v : Nat} (hva : Canonical va)
    (hi : TableInv root s M) (ht : tableAt s.mem (theRoot root) () (vpnPath va 0) = some t)
    (hv : v < 2 ^ 64) (hleaf : v &&& pteV ≠ 0 → v &&& (pteR ||| pteW ||| pteX) ≠ 0)
    (hat : M'.lookup (va / pageSize) = pteLeaf v)
    (hother : ∀ k, k ≠ va / pageSize → M'.lookup k = M.lookup k) {s' : Mm}
    (hoff : s'.vaOffset = s.vaOffset) (hmem : s'.mem = putEntry s.mem t (vpn va 0) v) :
    TableInv root s' M' := by
  refine ⟨?_, ?_, fun va' hva' => ?_⟩
  · rw [InSpace, hoff]
    exact hi.inSpace
  · rw [hmem]
    exact hi.tables.write ht rfl hv hleaf
  · rw [hmem, leafOf_write hi.tables ht rfl hv]
    by_cases hpage : va' / pageSize = va / pageSize
    · rw [if_pos ⟨rfl, (vpnPath_eq_iff hva hva').mpr hpage⟩, hpage, hat]
    · rw [if_neg fun h => hpage ((vpnPath_eq_iff hva hva').mp h.2), hi.agree va' hva',
        hother _ hpage]

theorem tableInv_map {root : Nat} {alloc : AllocPage} {s : Mm} {M : VirtMap} {va pa perm : Nat}
    (hi : TableInv root s M) (halloc : Answers root alloc) (hargs : MapArgs va pa perm) :
    ∃ r s', mapPageWith alloc root va pa perm s = .ok (r, s') ∧
      TableInv root s' (if r then M.mapped va pa perm else M) ∧
      (r = false → ∃ t t', alloc t = .ok (0, t')) := by
  have hsrc := source_of_answers halloc (leafOf s.mem (theRoot root) ())
  have hK : Keeps root (leafOf s.mem (theRoot root) ()) s :=
    ⟨hi.inSpace, hi.tables, fun _ => rfl⟩
  obtain ⟨s', ⟨hs', hT', hL'⟩, hcases⟩ := mapPageWith_cases (o := ()) hsrc hK rfl va pa perm
  have hi' : TableInv root s' M :=
    ⟨hs', hT', fun va' hva' => (hL' va').trans (hi.agree va' hva')⟩
  have hlook := (hL' va).trans (hi.agree va hargs.canonical)
  rcases hcases with ⟨hcall, t, t', -, hnull⟩ | ⟨hcall, hsome⟩ | ⟨t, pte, ht, hnone, hcall⟩
  · exact ⟨false, s', hcall, hi', fun _ => ⟨t, t', hnull⟩⟩
  · have hmem : va / pageSize ∈ M := by
      rw [hlook] at hsome
      exact Finmap.lookup_isSome.mp (Option.isSome_iff_ne_none.mpr hsome)
    refine ⟨true, s', hcall, ?_, fun h => absurd h (by decide)⟩
    rw [if_pos rfl, VirtMap.mapped, if_pos hmem]
    exact hi'
  · have hnotMem : va / pageSize ∉ M := by
      rw [hlook] at hnone
      exact Finmap.lookup_eq_none.mp hnone
    obtain ⟨hf, -, haccess⟩ := mapFlags_facts hargs.perm
    refine ⟨true, _, hcall, ?_, fun h => absurd h (by decide)⟩
    rw [if_pos rfl, VirtMap.mapped, if_neg hnotMem]
    refine agree_write hargs.canonical hi' ht (pte_lt hargs.paLt hf) (fun _ => ?_) ?_
      (fun k hk => Finmap.lookup_insert_of_ne _ hk) rfl rfl
    · rw [pte_and hargs.paLt hf (by decide)]
      exact haccess
    · rw [Finmap.lookup_insert, pteLeaf_map hargs.paAligned hargs.paLt hargs.perm]

theorem tableInv_unmap {root : Nat} {s s' : Mm} {M : VirtMap} {va : Nat} {r : Bool}
    (hi : TableInv root s M) (hva : Canonical va) (hcall : unmapPage root va s = .ok (r, s')) :
    TableInv root s' (if r then M.unmapped va else M) := by
  obtain ⟨t, htr, ⟨-, hnone⟩ | ⟨n, pa, f, hn, -, hsome⟩⟩ :=
    unmapPage_cases (o := ()) hi.inSpace hi.tables rfl va
  · rw [hnone] at hcall
    obtain ⟨rfl, rfl⟩ : false = r ∧ t = s' := by simpa using hcall
    exact tableInv_traced hi htr
  · rw [hsome] at hcall
    obtain ⟨t', hfree, hcall⟩ := bind_eq_ok.mp hcall
    obtain ⟨rfl, rfl⟩ : true = r ∧
        t'.storePte (pteAddr (s.physToVirt n) (vpnLevel va 0)) 0 = s' := by
      simpa [pure, Except.pure] using hcall
    obtain ⟨hlater, hmem⟩ := freePages_frame hfree
    have hst : SameStatics s t' := htr.later.statics.trans hlater.statics
    have hpage := hi.tables.page n (isNode_of_nodeAt hn (le_refl 2))
    have hstore := storePte_mem (hi.inSpace.congr hst) hpage va 0 0
    rw [hst.physToVirt, hmem, htr.mem] at hstore
    rw [if_pos rfl, VirtMap.unmapped]
    refine agree_write hva hi hn (by norm_num) (fun h => absurd (Nat.zero_and _) h) ?_
      (fun k hk => Finmap.lookup_erase_ne hk) hst.vaOffset hstore
    rw [Finmap.lookup_erase, pteLeaf_zero]

/-! ### Whole runs -/

theorem TableRun.tableInv {root : Nat} {s : Mm} {M : VirtMap} (h : TableRun root s M) :
    TableInv root s M := by
  induction h with
  | start hoff hanswer hroot _ => exact tableInv_start hoff hanswer hroot
  | @map alloc s s' M va pa perm r _ halloc hargs hcall ih =>
      obtain ⟨r', t, hcall', hi, -⟩ := tableInv_map ih halloc hargs
      rw [hcall'] at hcall
      obtain ⟨rfl, rfl⟩ : r' = r ∧ t = s' := by simpa using hcall
      exact hi
  | unmap _ hva _ hcall ih => exact tableInv_unmap ih hva hcall
  | @walk alloc s s' M va pte _ hcall ih =>
      obtain ⟨t, hfind, htr⟩ := walk_find (o := ()) alloc ih.inSpace ih.tables rfl va
      rw [hfind] at hcall
      obtain ⟨-, rfl⟩ : _ ∧ t = s' := by simpa using hcall
      exact tableInv_traced ih htr
  | other _ hoff hsame ih =>
      have hkeep : SameTables _ _ (theRoot root) := hsame
      refine ⟨?_, ih.tables.congr hkeep, fun va hva => (hkeep.leafOf () va).trans (ih.agree va hva)⟩
      rw [InSpace, hoff]
      exact ih.inSpace

/-- The table in memory behaves as the finite map `M`. -/
structure Refines (root : Nat) (s : Mm) (M : VirtMap) : Prop where
  /-- `walk` finds what the map has. -/
  lookup : ∀ va, Canonical va → s.lookupPage root va = .ok (M.lookup (va / pageSize))
  /-- So does the hardware. -/
  translate : ∀ va, Canonical va → s.translate root va =
    (M.lookup (va / pageSize)).map fun (pa, f) => (pa + va % pageSize, f)
  /-- `map_page` comes back, and with -1 only after `alloc_page` has returned `NULL`. -/
  maps : ∀ alloc va pa perm, Answers root alloc → MapArgs va pa perm →
    ∃ r s', mapPageWith alloc root va pa perm s = .ok (r, s') ∧
      (r = false → ∃ t t', alloc t = .ok (0, t'))
  /-- `unmap_page` returns -1 for a page that is absent. -/
  unmapsAbsent : ∀ va, Canonical va → M.lookup (va / pageSize) = none →
    ∃ s', unmapPage root va s = .ok (false, s')
  /-- For one that is there it frees the frame, and returns 0 if that comes back. -/
  unmapsPresent : ∀ va pa f, Canonical va → M.lookup (va / pageSize) = some (pa, f) →
    ∃ t pte, Traced s t ∧ unmapPage root va s = do
      let t' ← t.freePage pa
      pure (true, t'.storePte pte 0)

theorem lookupPage_eq {root : Nat} {s : Mm} {M : VirtMap} (hi : TableInv root s M) {va : Nat}
    (hva : Canonical va) : s.lookupPage root va = .ok (M.lookup (va / pageSize)) := by
  obtain ⟨t, hfind, htr⟩ := walk_find (o := ()) Mm.allocPage hi.inSpace hi.tables rfl va
  rw [lookupPage, hfind, ok_bind, ← hi.agree va hva]
  cases hn : tableAt s.mem (theRoot root) () (vpnPath va 0) with
  | none =>
      rw [leafOf, lookup_of_nodeAt_none hn]
      rfl
  | some n =>
      have hpage := hi.tables.page n (isNode_of_nodeAt hn (le_refl 2))
      have hne := pteAddr_ne_zero hi.inSpace hpage (vpnLevel_lt va 0)
      obtain ⟨d, rfl⟩ := htr
      have hload : Mm.loadPte { s with derefs := d ++ s.derefs }
          (pteAddr (s.physToVirt n) (vpnLevel va 0)) = entry s.mem n (vpn va 0) :=
        loadPte_eq hi.inSpace hpage va 0
      rw [leafOf, lookup_of_nodeAt hn]
      simp only [entryPtr, if_neg hne, hload]
      rfl

/--
**Page tables refine finite maps.**  In every state of every run the table and the map give
the same answer for every canonical address, to `walk` and to the hardware; and the calls come
back with the results that the map calls for.
-/
theorem TableRun.refines {root : Nat} {s : Mm} {M : VirtMap} (h : TableRun root s M) :
    Refines root s M := by
  have hi := h.tableInv
  refine ⟨fun va hva => lookupPage_eq hi hva, fun va hva => ?_, ?_, ?_, ?_⟩
  · rw [translate_eq (o := ()) hi.tables rfl hva, hi.agree va hva]
  · intro alloc va pa perm halloc hargs
    obtain ⟨r, s', hcall, -, hnull⟩ := tableInv_map hi halloc hargs
    exact ⟨r, s', hcall, hnull⟩
  · intro va hva hnone
    obtain ⟨t, -, ⟨-, hcall⟩ | ⟨n, pa, f, -, hleaf, -⟩⟩ :=
      unmapPage_cases (o := ()) hi.inSpace hi.tables rfl va
    · exact ⟨t, hcall⟩
    · rw [hi.agree va hva, hnone] at hleaf
      cases hleaf
  · intro va pa f hva hsome
    obtain ⟨t, htr, ⟨hleaf, -⟩ | ⟨n, pa', f', -, hleaf, hcall⟩⟩ :=
      unmapPage_cases (o := ()) hi.inSpace hi.tables rfl va
    · rw [hi.agree va hva, hsome] at hleaf
      cases hleaf
    · rw [hi.agree va hva, hsome] at hleaf
      obtain ⟨rfl, rfl⟩ := Prod.mk.inj (Option.some.inj hleaf)
      exact ⟨t, _, htr, hcall⟩

/-- An allocator of two pages, which hands out the first that the table does not use. -/
noncomputable def twoPages (root : Nat) : AllocPage := fun s =>
  open Classical in
  if ¬OwnPage s root 0x80201000 then
    .ok (0x80201000, s.setMem (zeroed s.mem 0x80201000 pageSize))
  else if ¬OwnPage s root 0x80202000 then
    .ok (0x80202000, s.setMem (zeroed s.mem 0x80202000 pageSize))
  else .ok (0, s)

theorem answer_zeroed {root a : Nat} {s : Mm} (ha : IsPage a)
    (hown : ∀ n, OwnPage s root n → IsPage n) (hfresh : ¬OwnPage s root a) :
    Answer (OwnPage s root) s a (s.setMem (zeroed s.mem a pageSize)) := by
  refine ⟨rfl, fun n hn x hx => if_neg fun hx' => hfresh ?_, .inr ⟨ha, hfresh, fun x hx => ?_⟩⟩
  · exact (hown n hn).eq_of_inPage ha hx hx' ▸ hn
  · exact if_pos hx

theorem answers_twoPages (root : Nat) : Answers root (twoPages root) := by
  intro s hown
  by_cases h₁ : OwnPage s root 0x80201000
  · by_cases h₂ : OwnPage s root 0x80202000
    · exact ⟨0, s, by simp [twoPages, h₁, h₂], rfl, fun _ _ _ _ => rfl, .inl rfl⟩
    · exact ⟨_, _, by simp [twoPages, h₁, h₂], answer_zeroed ⟨by decide, by decide, by decide⟩ hown h₂⟩
  · exact ⟨_, _, by simp [twoPages, h₁], answer_zeroed ⟨by decide, by decide, by decide⟩ hown h₁⟩

/-- A table at `0x80200000` that `map_page` has been called on for the first user page. -/
theorem refines_twoPages : ∃ s M, TableRun 0x80200000 s M ∧ Refines 0x80200000 s M := by
  have hcall₀ : allocPagetableWith (fun s => .ok (0x80200000, s))
      { reset (fun _ => 0) with vaOffset := vaOffsetConst } =
      .ok (0x80200000, { reset (fun _ => 0) with vaOffset := vaOffsetConst }) := rfl
  have hpage : IsPage 0x80200000 := ⟨by decide, by decide, by decide⟩
  have hstart := TableRun.start (.inr rfl)
    ⟨rfl, fun _ h => h.elim, .inr ⟨hpage, id, fun _ _ => rfl⟩⟩ (by decide) hcall₀
  have hargs : MapArgs 0 0x80300000 (pteR ||| pteW ||| pteU) :=
    ⟨by decide, by decide, by decide, by decide, by decide⟩
  obtain ⟨r, s, hcall, -⟩ := hstart.refines.maps _ _ _ _ (answers_twoPages _) hargs
  have hrun := hstart.map (answers_twoPages _) hargs hcall
  exact ⟨s, _, hrun, hrun.refines⟩

end SystemN.Mm
