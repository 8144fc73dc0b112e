/-
The page tables of the kernel are radix trees.

`Tables` says what the memory must look like: the pages reached from the roots are pages
of RAM, each is reached once, and an entry with `PTE_V` is a pointer above the last level
and a leaf at the last one.  `walk` without allocation then reads `Radix.lookup`; with
allocation it links fresh empty pages, which changes no leaf; `map_page` and
`unmap_page` write one entry of the last level.

Several roots are looked at together, one for each owner of a table, since a page must
not serve two tables.
-/
import SystemN.Proofs.Mm.Pte
import SystemN.Lib.Radix
import Mathlib.Data.Finset.Card
import Mathlib.Tactic.IntervalCases

namespace SystemN

open Radix

/-- A page of RAM. -/
structure IsPage (p : Nat) : Prop where
  aligned : p % pageSize = 0
  pos : p ≠ 0
  le : p + pageSize ≤ userEnd

/-- `a` is an address in page `p`. -/
def InPage (p a : Nat) : Prop := p ≤ a ∧ a < p + pageSize

/-- The page holds zeros. -/
def ZeroPage (m : Nat → UInt8) (p : Nat) : Prop := ∀ a, InPage p a → m a = 0

/-- The page holds the same bytes in both memories. -/
def SamePage (m m' : Nat → UInt8) (p : Nat) : Prop := ∀ a, InPage p a → m' a = m a

theorem IsPage.lt {p : Nat} (h : IsPage p) : p < 2 ^ 56 := by
  have hle := h.le
  simp only [userEnd] at hle
  omega

theorem IsPage.eq_of_inPage {p q a : Nat} (hp : IsPage p) (hq : IsPage q) (ha : InPage p a)
    (ha' : InPage q a) : p = q := by
  have := hp.aligned
  have := hq.aligned
  simp only [InPage, pageSize] at *
  omega

/-! ### Reading and writing entries -/

/-- There are 512 entries in a table. -/
instance neZeroEntries : NeZero pteCount := ⟨by decide⟩

abbrev Index := Fin pteCount

/-- Entry `i` of the table in page `p`. -/
def entry (m : Nat → UInt8) (p : Nat) (i : Index) : Nat := Bytes.loadLE m (p + 8 * i) 8

/-- The table an entry above the last level leads to. -/
def pteNext (pte : Nat) : Option Nat := if pte &&& pteV = 0 then none else some (pte2pa pte)

/-- The frame and the flags that an entry of the last level gives. -/
def pteLeaf (pte : Nat) : Option (Nat × Nat) :=
  if pte &&& pteV = 0 then none else some (pte2pa pte, pteFlags pte)

theorem pteNext_eq_none {pte : Nat} : pteNext pte = none ↔ pte &&& pteV = 0 := by
  unfold pteNext
  split <;> simp_all

theorem pteLeaf_eq_none {pte : Nat} : pteLeaf pte = none ↔ pte &&& pteV = 0 := by
  unfold pteLeaf
  split <;> simp_all

theorem pteNext_zero : pteNext 0 = none := by decide
theorem pteLeaf_zero : pteLeaf 0 = none := by decide

/-- The entry that `walk` writes for a new table leads to it. -/
theorem pteNext_link {a : Nat} (ha : IsPage a) : pteNext (pa2pte a ||| pteV) = some a := by
  rw [pteNext, pte_and ha.lt (by decide) (by decide), if_neg (by decide),
    pte2pa_pte ha.aligned ha.lt (by decide)]

/-- The flags that `map_page` sets beside those it is given. -/
def mapFlags (perm : Nat) : Nat := perm ||| pteV ||| pteA ||| pteD

/-- The permissions a caller of `map_page` may ask for: some of `R`, `W`, `X`, `U`, with one of
the first three. -/
structure IsPerm (perm : Nat) : Prop where
  within : perm &&& (pteR ||| pteW ||| pteX ||| pteU) = perm
  access : perm &&& (pteR ||| pteW ||| pteX) ≠ 0

theorem IsPerm.lt {perm : Nat} (h : IsPerm perm) : perm < 32 := by
  rw [← h.within]
  exact lt_of_le_of_lt Nat.and_le_right (by decide)

instance (perm : Nat) : Decidable (IsPerm perm) :=
  decidable_of_iff (perm &&& (pteR ||| pteW ||| pteX ||| pteU) = perm ∧
    perm &&& (pteR ||| pteW ||| pteX) ≠ 0) ⟨fun h => ⟨h.1, h.2⟩, fun h => ⟨h.within, h.access⟩⟩

/-- What the flags of a mapped page are, checked for each permission there is. -/
theorem mapFlags_facts {perm : Nat} (h : IsPerm perm) :
    mapFlags perm < 1024 ∧ mapFlags perm &&& pteV ≠ 0 ∧
      mapFlags perm &&& (pteR ||| pteW ||| pteX) ≠ 0 := by
  have hall : ∀ p < 32, IsPerm p → mapFlags p < 1024 ∧ mapFlags p &&& pteV ≠ 0 ∧
      mapFlags p &&& (pteR ||| pteW ||| pteX) ≠ 0 := by decide
  exact hall perm h.lt h

theorem mapEntry_eq (pa perm : Nat) :
    pa2pte pa ||| perm ||| pteV ||| pteA ||| pteD = pa2pte pa ||| mapFlags perm := by
  simp only [mapFlags, Nat.or_assoc]

/-- The entry that `map_page` writes gives back what it was asked for. -/
theorem pteLeaf_map {pa perm : Nat} (hmod : pa % 4096 = 0) (hlt : pa < 2 ^ 56)
    (hperm : IsPerm perm) :
    pteLeaf (pa2pte pa ||| mapFlags perm) = some (pa, mapFlags perm) := by
  obtain ⟨hf, hV, -⟩ := mapFlags_facts hperm
  rw [pteLeaf, pte_and hlt hf (by decide), if_neg hV, pte2pa_pte hmod hlt hf,
    pteFlags_pte hlt hf]

theorem entry_congr {m m' : Nat → UInt8} {p : Nat} (h : SamePage m m' p) (i : Index) :
    entry m' p i = entry m p i := by
  refine Bytes.loadLE_congr fun x hx hx' => h x ?_
  have := i.isLt
  simp only [InPage, pageSize, pteCount] at *
  omega

theorem entry_zeroPage {m : Nat → UInt8} {p : Nat} (h : ZeroPage m p) (i : Index) :
    entry m p i = 0 := by
  refine Bytes.loadLE_zero fun x hx hx' => h x ?_
  have := i.isLt
  simp only [InPage, pageSize, pteCount] at *
  omega

/-- The memory after a store to entry `i` of the table in page `p`. -/
def putEntry (m : Nat → UInt8) (p : Nat) (i : Index) (v : Nat) : Nat → UInt8 :=
  Bytes.storeLE m (p + 8 * i) 8 v

theorem entry_putEntry {m : Nat → UInt8} {p v : Nat} {i : Index} (hv : v < 2 ^ 64) :
    entry (putEntry m p i v) p i = v := by
  rw [entry, putEntry, Bytes.loadLE_storeLE]
  exact Nat.mod_eq_of_lt hv

theorem entry_putEntry_of_ne {m : Nat → UInt8} {p q v : Nat} {i j : Index} (hp : IsPage p)
    (hq : IsPage q) (hne : q ≠ p ∨ j ≠ i) : entry (putEntry m p i v) q j = entry m q j := by
  refine Bytes.loadLE_storeLE_of_disjoint ?_
  have hval : q ≠ p ∨ (j : Nat) ≠ i := hne.imp_right fun h h' => h (Fin.ext h')
  have hpa := hp.aligned
  have hqa := hq.aligned
  have hi := i.isLt
  have hj := j.isLt
  simp only [pageSize, pteCount] at hpa hqa hi hj
  omega

/-! ### Tables in memory -/

section Tables

variable {ω : Type} (m : Nat → UInt8) (roots : ω → Option Nat)

/-- The table at the end of a path from the root of owner `o`. -/
abbrev tableAt (o : ω) (p : List Index) : Option Nat := nodeAt pteNext (entry m) roots o p

/-- A page that serves as a table. -/
abbrev IsTable (n : Nat) : Prop := IsNode pteNext (entry m) roots 2 n

/-- The indices from the root to the last level, deepest first, as far as `level`. -/
def vpnPath (va : Nat) : Nat → List Index
  | 0 => [vpn va 1, vpn va 2]
  | 1 => [vpn va 2]
  | _ => []

/-- The frame and the flags at `va` in the tables of `o`. -/
abbrev leafOf (o : ω) (va : Nat) : Option (Nat × Nat) :=
  lookup pteNext (entry m) roots pteLeaf o (vpn va 0) (vpnPath va 0)

/-- Tables as the kernel builds them. -/
structure Tables : Prop where
  forest : Forest pteNext (entry m) roots 2
  page : ∀ n, IsTable m roots n → IsPage n
  /-- Above the last level an entry has none of `R`, `W`, `X`. -/
  pointer : ∀ o p n i, p.length < 2 → tableAt m roots o p = some n →
    entry m n i &&& pteV ≠ 0 → entry m n i &&& (pteR ||| pteW ||| pteX) = 0
  /-- At the last level an entry has one of them. -/
  leaf : ∀ o p n i, p.length = 2 → tableAt m roots o p = some n →
    entry m n i &&& pteV ≠ 0 → entry m n i &&& (pteR ||| pteW ||| pteX) ≠ 0

end Tables

variable {ω : Type} {m m' : Nat → UInt8} {roots : ω → Option Nat} {o o' : ω} {p p' : List Index}
  {n q : Nat} {i : Index} {va va' : Nat}

theorem vpnPath_length (va : Nat) {level : Nat} (h : level ≤ 2) :
    (vpnPath va level).length = 2 - level := by
  interval_cases level <;> rfl

theorem vpnPath_cons (va : Nat) {level : Nat} (h : level < 2) :
    vpnPath va level = vpn va (level + 1) :: vpnPath va (level + 1) := by
  interval_cases level <;> rfl

/-- One level of a walk. -/
theorem tableAt_step (va : Nat) {level : Nat} (h : level < 2)
    (hn : tableAt m roots o (vpnPath va (level + 1)) = some n) :
    tableAt m roots o (vpnPath va level) = pteNext (entry m n (vpn va (level + 1))) := by
  rw [vpnPath_cons va h]
  exact nodeAt_cons hn

theorem tableAt_none (va : Nat) {level : Nat} (h : level < 2)
    (hn : tableAt m roots o (vpnPath va level) = none) :
    tableAt m roots o (vpnPath va 0) = none := by
  interval_cases level
  · exact hn
  · rw [vpnPath_cons va (by omega)]
    exact nodeAt_cons_none hn

/-- The leaf depends on the page of the address only. -/
theorem leafOf_congr_va (h : va / pageSize = va' / pageSize) :
    leafOf m roots o va = leafOf m roots o va' := by
  simp only [leafOf, vpnPath, vpn_congr h]

/-- The entry of one page is the entry of another only if they are the same page. -/
theorem vpnPath_eq_iff {va va' : Nat} (hva : Mm.Canonical va) (hva' : Mm.Canonical va') :
    (vpnPath va' 0 = vpnPath va 0 ∧ vpn va' 0 = vpn va 0) ↔
      va' / pageSize = va / pageSize := by
  constructor
  · rintro ⟨hpath, h₀⟩
    simp only [vpnPath, List.cons.injEq, and_true] at hpath
    exact page_eq_of_vpn_eq hva' hva h₀ hpath.1 hpath.2
  · intro h
    simp only [vpnPath, vpn_congr h, and_self]

/-- What is kept: the pages that serve as tables hold the same bytes. -/
def SameTables (m m' : Nat → UInt8) (roots : ω → Option Nat) : Prop :=
  ∀ n, IsTable m roots n → SamePage m m' n

theorem SameTables.entry (h : SameTables m m' roots) (hn : IsTable m roots n) (i : Index) :
    entry m' n i = entry m n i :=
  entry_congr (h n hn) i

theorem SameTables.tableAt (h : SameTables m m' roots) (hp : p.length ≤ 2) :
    tableAt m' roots o p = tableAt m roots o p :=
  nodeAt_congr (fun _ _ _ hlen hn i => by rw [h.entry (isNode_of_nodeAt hn hlen.le) i]) hp

theorem SameTables.isTable (h : SameTables m m' roots) : IsTable m' roots n ↔ IsTable m roots n :=
  isNode_congr fun _ _ _ hlen hn i => by rw [h.entry (isNode_of_nodeAt hn hlen.le) i]

theorem SameTables.leafOf (h : SameTables m m' roots) (o : ω) (va : Nat) :
    leafOf m' roots o va = leafOf m roots o va := by
  have hlen : (vpnPath va 0).length ≤ 2 := le_refl 2
  have hnode := h.tableAt (o := o) hlen
  cases hn : SystemN.tableAt m roots o (vpnPath va 0) with
  | none => rw [SystemN.leafOf, lookup_of_nodeAt_none (hnode.trans hn), SystemN.leafOf,
      lookup_of_nodeAt_none hn]
  | some n => rw [SystemN.leafOf, lookup_of_nodeAt (hnode.trans hn), SystemN.leafOf,
      lookup_of_nodeAt hn, h.entry (isNode_of_nodeAt hn hlen)]

theorem Tables.congr (hT : Tables m roots) (h : SameTables m m' roots) : Tables m' roots := by
  have hentry : ∀ ⦃o p n⦄, p.length ≤ 2 → tableAt m' roots o p = some n → ∀ i,
      tableAt m roots o p = some n ∧ entry m' n i = entry m n i := by
    intro o p n hp hn i
    rw [h.tableAt hp] at hn
    exact ⟨hn, h.entry (isNode_of_nodeAt hn hp) i⟩
  constructor
  · exact hT.forest.congr fun _ _ _ hlen hn i => by rw [h.entry (isNode_of_nodeAt hn hlen.le) i]
  · exact fun n hn => hT.page n (h.isTable.mp hn)
  · intro o p n i hp hn hV
    obtain ⟨hn', he⟩ := hentry hp.le hn i
    rw [he] at hV ⊢
    exact hT.pointer o p n i hp hn' hV
  · intro o p n i hp hn hV
    obtain ⟨hn', he⟩ := hentry hp.le hn i
    rw [he] at hV ⊢
    exact hT.leaf o p n i hp hn' hV

/-! ### A new table below an entry -/

/-- The page `q` is about to be linked behind entry `i` of the table `n`, which stands at the
path `p`: the entry is empty, and `q` is a zeroed page that is no table yet. -/
structure NewTable (m m' : Nat → UInt8) (roots : ω → Option Nat) (o : ω) (p : List Index)
    (n : Nat) (i : Index) (q : Nat) : Prop where
  tables : Tables m roots
  parent : tableAt m roots o p = some n
  depth : p.length < 2
  free : entry m n i &&& pteV = 0
  same : SameTables m m' roots
  page : IsPage q
  fresh : ¬IsTable m roots q
  zero : ZeroPage m' q

/-- The memory once `walk` has linked it. -/
abbrev linkTable (m' : Nat → UInt8) (n : Nat) (i : Index) (q : Nat) : Nat → UInt8 :=
  putEntry m' n i (pa2pte q ||| pteV)

namespace NewTable

theorem entry_link (h : NewTable m m' roots o p n i q) :
    entry (linkTable m' n i q) n i = pa2pte q ||| pteV :=
  entry_putEntry (pte_lt h.page.lt (by decide))

theorem entry_empty (h : NewTable m m' roots o p n i q) (j : Index) :
    entry (linkTable m' n i q) q j = 0 := by
  have hn : IsTable m roots n := isNode_of_nodeAt h.parent h.depth.le
  have hqn : q ≠ n := fun hqn => h.fresh (hqn ▸ hn)
  rw [entry_putEntry_of_ne (h.tables.page n hn) h.page (.inl hqn), entry_zeroPage h.zero]

theorem entry_keep (h : NewTable m m' roots o p n i q) {n' : Nat} {j : Index}
    (hn' : IsTable m roots n') (hne : n' ≠ n ∨ j ≠ i) :
    entry (linkTable m' n i q) n' j = entry m n' j := by
  have hn : IsTable m roots n := isNode_of_nodeAt h.parent h.depth.le
  rw [entry_putEntry_of_ne (h.tables.page n hn) (h.tables.page n' hn') hne, h.same.entry hn']

theorem links (h : NewTable m m' roots o p n i q) :
    Links pteNext (entry m) (entry (linkTable m' n i q)) roots 2 n i q where
  free := pteNext_eq_none.mpr h.free
  fresh := h.fresh
  empty j := by rw [h.entry_empty, pteNext_zero]
  link := by rw [h.entry_link, pteNext_link h.page]
  same n' j hn' hne := by rw [h.entry_keep hn' hne]

variable [DecidableEq ω]

theorem tableAt_link (h : NewTable m m' roots o p n i q) (hp' : p'.length ≤ 2) :
    tableAt (linkTable m' n i q) roots o' p' =
      if o' = o ∧ p' = i :: p then some q else tableAt m roots o' p' :=
  nodeAt_link h.tables.forest h.links h.parent h.depth hp'

theorem tableAt_new (h : NewTable m m' roots o p n i q) :
    tableAt (linkTable m' n i q) roots o (i :: p) = some q := by
  have hlen : (i :: p).length ≤ 2 := h.depth
  rw [h.tableAt_link hlen, if_pos ⟨rfl, rfl⟩]

theorem isTable_link (h : NewTable m m' roots o p n i q) {n' : Nat} :
    IsTable (linkTable m' n i q) roots n' ↔ n' = q ∨ IsTable m roots n' :=
  isNode_link h.tables.forest h.links h.parent h.depth

/-- **An empty table changes no translation.** -/
theorem leafOf_link (h : NewTable m m' roots o p n i q) (o' : ω) (va : Nat) :
    leafOf (linkTable m' n i q) roots o' va = leafOf m roots o' va := by
  refine lookup_link h.tables.forest h.links h.parent h.depth rfl (fun j => ?_)
    fun n' j hn' hne => ?_
  · rw [h.entry_empty, pteLeaf_zero]
  · rw [h.entry_keep hn' (.inl hne)]

theorem tables_link (h : NewTable m m' roots o p n i q) :
    Tables (linkTable m' n i q) roots := by
  refine ⟨h.tables.forest.link h.links h.parent h.depth, ?_, ?_, ?_⟩
  · intro n' hn'
    rcases h.isTable_link.mp hn' with rfl | hn'
    · exact h.page
    · exact h.tables.page n' hn'
  · intro o' p' n' j hp' hn' hV
    rw [h.tableAt_link hp'.le] at hn'
    split at hn'
    · obtain rfl := Option.some.inj hn'
      rw [h.entry_empty] at hV
      exact absurd (Nat.zero_and _) hV
    · by_cases hij : n' = n ∧ j = i
      · obtain ⟨rfl, rfl⟩ := hij
        rw [h.entry_link, pte_and h.page.lt (by decide) (by decide)]
        decide
      · rw [h.entry_keep (isNode_of_nodeAt hn' hp'.le) (not_and_or.mp hij)] at hV ⊢
        exact h.tables.pointer o' p' n' j hp' hn' hV
  · intro o' p' n' j hp' hn' hV
    rw [h.tableAt_link hp'.le] at hn'
    split at hn'
    · obtain rfl := Option.some.inj hn'
      rw [h.entry_empty] at hV
      exact absurd (Nat.zero_and _) hV
    · have hne : n' ≠ n := by
        rintro rfl
        have hlen := (h.tables.forest hp'.le h.depth.le hn' h.parent).2
        have hdepth := h.depth
        rw [hlen] at hp'
        omega
      rw [h.entry_keep (isNode_of_nodeAt hn' hp'.le) (.inl hne)] at hV ⊢
      exact h.tables.leaf o' p' n' j hp' hn' hV

end NewTable

/-! ### A write at the last level -/

section Write

variable (hT : Tables m roots) (hn : tableAt m roots o p = some n) (hp : p.length = 2)
include hT hn hp

theorem entry_write {n' v : Nat} {j : Index} (hn' : IsTable m roots n') (hne : n' ≠ n ∨ j ≠ i) :
    entry (putEntry m n i v) n' j = entry m n' j :=
  entry_putEntry_of_ne (hT.page n (isNode_of_nodeAt hn hp.le)) (hT.page n' hn') hne

theorem tableAt_write {v : Nat} (hp' : p'.length ≤ 2) :
    tableAt (putEntry m n i v) roots o' p' = tableAt m roots o' p' :=
  nodeAt_write hT.forest hn hp (fun _ _ hn' hne => entry_write hT hn hp hn' hne) hp'

theorem isTable_write {n' v : Nat} :
    IsTable (putEntry m n i v) roots n' ↔ IsTable m roots n' := by
  constructor
  · rintro ⟨o', p', hp', hn'⟩
    exact ⟨o', p', hp', (tableAt_write hT hn hp hp').symm.trans hn'⟩
  · rintro ⟨o', p', hp', hn'⟩
    exact ⟨o', p', hp', (tableAt_write hT hn hp hp').trans hn'⟩

/-- **One translation changes**: that of the page whose indices were followed. -/
theorem leafOf_write [DecidableEq ω] {v : Nat} (hv : v < 2 ^ 64) :
    leafOf (putEntry m n i v) roots o' va =
      if o' = o ∧ vpnPath va 0 = p ∧ vpn va 0 = i then pteLeaf v else leafOf m roots o' va := by
  have hwrite : leafOf (putEntry m n i v) roots o' va = _ :=
    lookup_write hT.forest hn hp (fun _ _ hn' hne => entry_write hT hn hp hn' hne) rfl
  rwa [entry_putEntry hv] at hwrite

theorem Tables.write {v : Nat} (hv : v < 2 ^ 64)
    (hleaf : v &&& pteV ≠ 0 → v &&& (pteR ||| pteW ||| pteX) ≠ 0) :
    Tables (putEntry m n i v) roots := by
  refine ⟨?_, ?_, ?_, ?_⟩
  · intro o₁ o₂ p₁ p₂ n' h₁ h₂ hn₁ hn₂
    exact hT.forest h₁ h₂ ((tableAt_write hT hn hp h₁).symm.trans hn₁)
      ((tableAt_write hT hn hp h₂).symm.trans hn₂)
  · exact fun n' hn' => hT.page n' ((isTable_write hT hn hp).mp hn')
  · intro o' p' n' j hp' hn' hV
    rw [tableAt_write hT hn hp hp'.le] at hn'
    have hne : n' ≠ n := by
      rintro rfl
      have hlen := (hT.forest hp'.le hp.le hn' hn).2
      rw [hlen] at hp'
      omega
    rw [entry_write hT hn hp (isNode_of_nodeAt hn' hp'.le) (.inl hne)] at hV ⊢
    exact hT.pointer o' p' n' j hp' hn' hV
  · intro o' p' n' j hp' hn' hV
    rw [tableAt_write hT hn hp hp'.le] at hn'
    by_cases hij : n' = n ∧ j = i
    · obtain ⟨rfl, rfl⟩ := hij
      rw [entry_putEntry hv] at hV ⊢
      exact hleaf hV
    · rw [entry_write hT hn hp (isNode_of_nodeAt hn' hp'.le) (not_and_or.mp hij)] at hV ⊢
      exact hT.leaf o' p' n' j hp' hn' hV

end Write

/-! ### Missing tables -/

section Missing

variable {W : Finset (List Index)} {m₁ m₂ : Nat → UInt8} {j k : Nat}

/-- How many of the tables at the paths `W` from the root of `o` are not there. -/
def missing (m : Nat → UInt8) (roots : ω → Option Nat) (o : ω) (W : Finset (List Index)) : Nat :=
  (W.filter fun p => tableAt m roots o p = none).card

/-- The tree of `o` has got `k` tables more, all of them at paths in `W`, and has lost none. -/
structure MoreTables (roots : ω → Option Nat) (o : ω) (W : Finset (List Index))
    (m m' : Nat → UInt8) (k : Nat) : Prop where
  keeps : ∀ p, p.length ≤ 2 → tableAt m' roots o p = none → tableAt m roots o p = none
  count : missing m' roots o W + k = missing m roots o W

theorem MoreTables.trans (h : MoreTables roots o W m m₁ j) (h' : MoreTables roots o W m₁ m₂ k) :
    MoreTables roots o W m m₂ (j + k) where
  keeps p hp hnone := h.keeps p hp (h'.keeps p hp hnone)
  count := by
    have hcount := h.count
    have hcount' := h'.count
    omega

/-- Nothing has happened to the tree. -/
theorem moreTables_zero (hW : ∀ p ∈ W, p.length ≤ 2)
    (h : ∀ p, p.length ≤ 2 → tableAt m' roots o p = tableAt m roots o p) :
    MoreTables roots o W m m' 0 where
  keeps p hp hnone := (h p hp).symm.trans hnone
  count := by
    rw [Nat.add_zero, missing, missing]
    refine congrArg Finset.card (Finset.filter_congr fun p hp => ?_)
    rw [h p (hW p hp)]

theorem MoreTables.refl (hW : ∀ p ∈ W, p.length ≤ 2) : MoreTables roots o W m m 0 :=
  moreTables_zero hW fun _ _ => rfl

/-- One table more. -/
theorem NewTable.moreTables [DecidableEq ω] (h : NewTable m m' roots o p n i q)
    (hW : ∀ p ∈ W, p.length ≤ 2) (hmem : i :: p ∈ W) :
    MoreTables roots o W m (linkTable m' n i q) 1 := by
  have hold : tableAt m roots o (i :: p) = none :=
    (nodeAt_cons h.parent).trans (pteNext_eq_none.mpr h.free)
  refine ⟨fun p' hp' hnone => ?_, ?_⟩
  · rw [h.tableAt_link hp'] at hnone
    split at hnone
    · cases hnone
    · exact hnone
  · have herase : (W.filter fun p' => tableAt (linkTable m' n i q) roots o p' = none)
        = (W.filter fun p' => tableAt m roots o p' = none).erase (i :: p) := by
      ext p'
      rw [Finset.mem_erase, Finset.mem_filter, Finset.mem_filter]
      by_cases heq : p' = i :: p
      · rw [heq, h.tableAt_new]
        simp
      · constructor
        · intro ⟨hp', hnone⟩
          rw [h.tableAt_link (hW p' hp'), if_neg fun hc => heq hc.2] at hnone
          exact ⟨heq, hp', hnone⟩
        · intro ⟨_, hp', hnone⟩
          rw [h.tableAt_link (hW p' hp'), if_neg fun hc => heq hc.2]
          exact ⟨hp', hnone⟩
    rw [missing, missing, herase]
    exact Finset.card_erase_add_one (Finset.mem_filter.mpr ⟨hmem, hold⟩)

end Missing

end SystemN
