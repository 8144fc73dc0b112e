/-
The page tables, over the allocator their pages come from.

`Proofs.Mm.Walk` leaves open where `walk` gets its pages.  Here they come from the page
allocator, whose invariant says that a page it gives out is in no block handed out
before.  `Owned` couples the two: the pages of all tables are among the blocks handed
out, or lie below the managed pages, as the root of the kernel's own table does.

`Changed` is what each call does to such a state: the blocks and the tables it adds, the
translations after it, and that no other byte has been written.
-/
import SystemN.Proofs.Mm.Walk
import SystemN.Proofs.Mm.Count

namespace SystemN.Mm

open Tiling Chain Radix

variable {s s' t : Mm} {live : Multiset (Nat × Nat)}

/-! ### The bytes of a block -/

/-- `x` is the address of a byte of the block. -/
def InBlock (B : Nat × Nat) (x : Nat) : Prop := B.1 ≤ x ∧ x < B.1 + pageSize * 2 ^ B.2

theorem inBlock_page {a x : Nat} : InBlock (a, 0) x ↔ InPage a x := by
  unfold InBlock InPage
  rw [pow_zero, Nat.mul_one]

theorem RunInv.fits (hi : RunInv s live) {B : Nat × Nat} (hB : B ∈ live) :
    s.pageIdx B.1 + 2 ^ B.2 ≤ s.numPages := by
  obtain ⟨fl, hinv⟩ := hi.inv
  exact hinv.tiling.end_le (Buddy.mem_allBlocks_of_live (Multiset.mem_map_of_mem _ hB))

theorem RunInv.covers (hi : RunInv s live) {B : Nat × Nat} (hB : B ∈ live) {x : Nat}
    (hx : InBlock B x) : Covers (s.pageIdx x) (s.pageIdx B.1, B.2) := by
  have hfits := hi.fits hB
  have haddr := hi.addr_of_pageIdx hB
  obtain ⟨hle, hlt⟩ := hx
  set i := (x - B.1) / pageSize with hidef
  have hi' : i < 2 ^ B.2 := by
    rw [hidef]
    apply Nat.div_lt_of_lt_mul
    omega
  have hoff : (x - B.1) % pageSize < pageSize := Nat.mod_lt _ (by decide)
  have hdiv := Nat.div_add_mod (x - B.1) pageSize
  rw [← hidef] at hdiv
  have hx : x = s.buddyBasePhys + (s.pageIdx B.1 + i) * pageSize + (x - B.1) % pageSize := by
    rw [Nat.add_mul, Nat.mul_comm i]
    omega
  have hidx : s.pageIdx x = s.pageIdx B.1 + i := by
    rw [hx]
    exact hi.region.pageIdx_page (by omega) _ hoff
  rw [hidx]
  exact ⟨Nat.le_add_right _ _, Nat.add_lt_add_left hi' _⟩

/-- Different blocks have no byte in common. -/
theorem RunInv.disjoint {A B : Nat × Nat} (hi : RunInv s (A ::ₘ live)) (hB : B ∈ live) {x : Nat}
    (hA : InBlock A x) : ¬InBlock B x := by
  intro hx
  have hcov := hi.covers (Multiset.mem_cons_of_mem hB) hx
  have hcov' := hi.covers (Multiset.mem_cons_self A live) hA
  exact hi.cons_disjoint hB hcov' hcov

theorem RunInv.isPage (hi : RunInv s live) {a : Nat} (ha : (a, 0) ∈ live) : IsPage a := by
  obtain ⟨h, hlt, haddr⟩ := hi.addr _ ha
  have hbase := hi.region.aligned
  have htop := hi.region.top
  have hpos := hi.region.pos
  simp only [pageSize, userEnd] at *
  exact ⟨by simp only [pageSize]; omega, by omega, by simp only [userEnd, pageSize]; omega⟩

theorem RunInv.base_le (hi : RunInv s live) {B : Nat × Nat} (hB : B ∈ live) :
    s.buddyBasePhys ≤ B.1 := by
  obtain ⟨h, -, haddr⟩ := hi.addr B hB
  omega

theorem RunInv.congr (hi : RunInv s live) (hst : SameStatics s s') (hpages : s'.pages = s.pages)
    (hlists : s'.freeLists = s.freeLists) : RunInv s' live := by
  obtain ⟨fl, hinv⟩ := hi.inv
  refine ⟨hi.region.congr hst, ⟨fl, ?_⟩, ?_⟩
  · rw [handedOut_congr hst]
    unfold BuddyInv
    rw [hst.numPages, hpages, hlists]
    exact hinv
  · rw [hst.base, hst.numPages]
    exact hi.addr

/-! ### One page -/

/-- No page is free. -/
def NoPage (s : Mm) : Prop := ∀ o ≤ maxOrder, s.freeLists o = none

/-- Page `a` has just been handed out: it is zeroed, and no other byte has been written. -/
structure NewPage (s : Mm) (live : Multiset (Nat × Nat)) (a : Nat) (s' : Mm) : Prop where
  run : RunInv s' ((a, 0) ::ₘ live)
  zero : ZeroPage s'.mem a
  same : ∀ x, ¬InPage a x → s'.mem x = s.mem x
  statics : SameStatics s s'

/-- **`alloc_page`**, in any state of a run. -/
theorem RunInv.allocPage (hi : RunInv s live) :
    (s.allocPage = .ok (0, s) ∧ NoPage s) ∨
      ∃ a s', s.allocPage = .ok (a, s') ∧ a ≠ 0 ∧ NewPage s live a s' := by
  obtain ⟨fl, hinv⟩ := hi.inv
  rcases allocPages_spec hi.region hinv (Nat.zero_le maxOrder) with
    ⟨hnull, hnone⟩ | ⟨p, a, s', fl', hcall, hall⟩
  · exact Or.inl ⟨hnull, fun o ho => hnone o (Nat.zero_le o) ho⟩
  · have hne : a ≠ 0 := by
      have hpos := hi.region.pos
      have haddr := hall.addr
      omega
    have hrun := runInv_alloc hi (Nat.zero_le _) hcall
    rw [if_neg hne] at hrun
    refine Or.inr ⟨a, s', hcall, hne, hrun, ?_, ?_, hall.statics⟩
    · intro x hx
      rw [hall.mem]
      exact if_pos hx
    · intro x hx
      rw [hall.mem]
      exact if_neg hx

/-- **`free_page`** of a page that is handed out. -/
theorem RunInv.freePage {a : Nat} (hi : RunInv s ((a, 0) ::ₘ live)) :
    s.freePage a = .error .halt ∨
      ∃ s', s.freePage a = .ok s' ∧ RunInv s' live ∧ SameStatics s s' ∧ s'.mem = s.mem := by
  obtain ⟨fl, hinv⟩ := hi.inv
  rcases hi.freePages_lists hinv with hhalt | ⟨s', -, -, -, hok, -⟩
  · exact Or.inl hhalt
  · obtain ⟨hlater, hmem⟩ := freePages_frame hok
    exact Or.inr ⟨s', hok, runInv_free hi hok, hlater.statics, hmem⟩

/-! ### Page numbers -/

/-- The number of a page, as far as the three indices of `walk` show it. -/
def vpage (va : Nat) : Nat := va / pageSize % 2 ^ 27

theorem vpnPath_iff {va va' : Nat} :
    (vpnPath va' 0 = vpnPath va 0 ∧ vpn va' 0 = vpn va 0) ↔ vpage va' = vpage va := by
  simp only [vpnPath, List.cons.injEq, and_true, vpn, Fin.mk.injEq, vpnLevel_eq, vpage, pageSize]
  omega

/-! ### Tables whose pages are handed out -/

section Owned

variable {ω : Type} {roots : ω → Option Nat} {o : ω} {root n a x : Nat}

/-- The allocator does not give out page `n`: it lies below the managed pages, or it is handed out. -/
def Held (s : Mm) (live : Multiset (Nat × Nat)) (n : Nat) : Prop :=
  n + pageSize ≤ s.buddyBasePhys ∨ (n, 0) ∈ live

/-- The page tables, and the blocks handed out. -/
structure Owned (roots : ω → Option Nat) (s : Mm) (live : Multiset (Nat × Nat)) : Prop where
  run : RunInv s live
  inSpace : s.InSpace
  tables : Tables s.mem roots
  held : ∀ n, IsTable s.mem roots n → Held s live n

theorem Held.mono {live' : Multiset (Nat × Nat)} (h : Held s live n) (hst : SameStatics s s')
    (hsub : live ⊆ live') : Held s' live' n := by
  rcases h with hbelow | hmem
  · rw [← hst.base] at hbelow
    exact Or.inl hbelow
  · exact Or.inr (hsub hmem)

theorem NewPage.not_inPage (hnew : NewPage s live a s') (hn : Held s live n) (hx : InPage n x) :
    ¬InPage a x := by
  rcases hn with hbelow | hmem
  · have hbase : s'.buddyBasePhys ≤ a := hnew.run.base_le (Multiset.mem_cons_self (a, 0) live)
    rw [hnew.statics.base] at hbase
    intro ha
    have hlt := hx.2
    have hge := ha.1
    omega
  · intro ha
    exact hnew.run.disjoint hmem (inBlock_page.mpr ha) (inBlock_page.mpr hx)

theorem NewPage.isPage (hnew : NewPage s live a s') : IsPage a :=
  hnew.run.isPage (Multiset.mem_cons_self _ _)

theorem NewPage.ne (hnew : NewPage s live a s') (hn : Held s live n) : n ≠ a := by
  rintro rfl
  have hself : InPage n n := ⟨le_refl n, Nat.lt_add_of_pos_right (by decide)⟩
  exact hnew.not_inPage hn hself hself

theorem NewPage.sameTables (hnew : NewPage s live a s') (h : Owned roots s live) :
    SameTables s.mem s'.mem roots :=
  fun n hn x hx => hnew.same x (hnew.not_inPage (h.held n hn) hx)

theorem NewPage.newTable (hnew : NewPage s live a s') (h : Owned roots s live) {p : List Index}
    {i : Index} (hp : p.length < 2) (hn : tableAt s.mem roots o p = some n)
    (hfree : entry s.mem n i &&& pteV = 0) : NewTable s.mem s'.mem roots o p n i a where
  tables := h.tables
  parent := hn
  depth := hp
  free := hfree
  same := hnew.sameTables h
  page := hnew.isPage
  fresh hcon := hnew.ne (h.held a hcon) rfl
  zero := hnew.zero

/-- What a call leaves of the tables and the blocks: `tabs` are the tables it has added, and `F` the
translations. -/
structure Changed (roots : ω → Option Nat) (s : Mm) (live : Multiset (Nat × Nat)) (s' : Mm)
    (tabs : Multiset (Nat × Nat)) (F : ω → Nat → Option (Nat × Nat)) : Prop where
  owned : Owned roots s' (tabs + live)
  pages : ∀ B ∈ tabs, B.2 = 0
  isTable : ∀ n, IsTable s'.mem roots n ↔ IsTable s.mem roots n ∨ (n, 0) ∈ tabs
  leaf : ∀ o va, leafOf s'.mem roots o va = F o va
  same : ∀ x, (∀ n, IsTable s'.mem roots n → ¬InPage n x) → s'.mem x = s.mem x
  statics : SameStatics s s'

theorem Changed.refl (h : Owned roots s live) : Changed roots s live s 0 (leafOf s.mem roots) where
  owned := by
    rw [zero_add]
    exact h
  pages := by simp
  isTable := by simp
  leaf _ _ := rfl
  same _ _ := rfl
  statics := SameStatics.refl s

theorem Changed.trans {s₁ : Mm} {tabs tabs' : Multiset (Nat × Nat)}
    {F F' : ω → Nat → Option (Nat × Nat)} (h : Changed roots s live s₁ tabs F)
    (h' : Changed roots s₁ (tabs + live) s' tabs' F') : Changed roots s live s' (tabs' + tabs) F' where
  owned := by
    rw [add_assoc]
    exact h'.owned
  pages B hB := (Multiset.mem_add.mp hB).elim (h'.pages B) (h.pages B)
  isTable n := by
    rw [h'.isTable, h.isTable, Multiset.mem_add]
    tauto
  leaf := h'.leaf
  same x hx := by
    have hold : ∀ n, IsTable s₁.mem roots n → ¬InPage n x :=
      fun n hn => hx n ((h'.isTable n).mpr (Or.inl hn))
    exact (h'.same x hx).trans (h.same x hold)
  statics := h.statics.trans h'.statics

/-- An access is written down, and nothing else happens. -/
theorem Changed.deref {tabs : Multiset (Nat × Nat)} {F : ω → Nat → Option (Nat × Nat)}
    (h : Changed roots s live s' tabs F) (b len : Nat) :
    Changed roots s live (s'.deref b len) tabs F := by
  obtain ⟨⟨hrun, hspace, hT, hheld⟩, hpages, hisTable, hleaf, hsame, hst⟩ := h
  have hrun' : RunInv (s'.deref b len) (tabs + live) := hrun.congr ⟨rfl, rfl, rfl, rfl⟩ rfl rfl
  exact ⟨⟨hrun', hspace, hT, hheld⟩, hpages, hisTable, hleaf, hsame,
    hst.trans ⟨rfl, rfl, rfl, rfl⟩⟩

theorem putEntry_of_notInPage {m : Nat → UInt8} {i : Index} {v : Nat} (hx : ¬InPage n x) :
    putEntry m n i v x = m x := by
  apply Bytes.storeLE_of_notMem
  intro hcon
  have hlt := i.isLt
  apply hx
  unfold InPage
  simp only [pageSize, pteCount] at *
  omega

variable [DecidableEq ω]

/-- A page that has been handed out becomes a table. -/
theorem Changed.link {s₁ s₂ : Mm} {tabs : Multiset (Nat × Nat)} {F : ω → Nat → Option (Nat × Nat)}
    (h : Changed roots s live s₁ tabs F) (hnew : NewPage s₁ (tabs + live) a s₂) {p : List Index}
    {i : Index} (hp : p.length < 2) (hn : tableAt s₁.mem roots o p = some n)
    (hfree : entry s₁.mem n i &&& pteV = 0) (pte : Nat) :
    Changed roots s live ((s₂.deref pte 8).setMem (linkTable s₂.mem n i a)) ((a, 0) ::ₘ tabs) F := by
  have htable := hnew.newTable h.owned hp hn hfree
  have hst : SameStatics s₂ ((s₂.deref pte 8).setMem (linkTable s₂.mem n i a)) :=
    ⟨rfl, rfl, rfl, rfl⟩
  have hsub : tabs + live ⊆ (a, 0) ::ₘ tabs + live := by
    rw [Multiset.cons_add]
    exact Multiset.subset_cons _ _
  refine ⟨⟨?_, ?_, htable.tables_link, ?_⟩, ?_, ?_, ?_, ?_, ?_⟩
  · rw [Multiset.cons_add]
    exact hnew.run.congr hst rfl rfl
  · exact h.owned.inSpace.congr (hnew.statics.trans hst)
  · intro q hq
    rcases htable.isTable_link.mp hq with rfl | hq
    · exact Or.inr (Multiset.mem_add.mpr (Or.inl (Multiset.mem_cons_self _ _)))
    · exact (h.owned.held q hq).mono (hnew.statics.trans hst) hsub
  · intro B hB
    rcases Multiset.mem_cons.mp hB with rfl | hB
    · rfl
    · exact h.pages B hB
  · intro q
    show IsTable (linkTable s₂.mem n i a) roots q ↔ _
    rw [htable.isTable_link, h.isTable, Multiset.mem_cons, Prod.mk.injEq]
    tauto
  · intro o' va
    exact (htable.leafOf_link o' va).trans (h.leaf o' va)
  · intro x hx
    have hnx : ¬InPage n x := hx n (htable.isTable_link.mpr (Or.inr (isNode_of_nodeAt hn hp.le)))
    have hax : ¬InPage a x := hx a (htable.isTable_link.mpr (Or.inl rfl))
    have hold : ∀ q, IsTable s₁.mem roots q → ¬InPage q x :=
      fun q hq => hx q (htable.isTable_link.mpr (Or.inr hq))
    exact (putEntry_of_notInPage hnx).trans ((hnew.same x hax).trans (h.same x hold))
  · exact h.statics.trans (hnew.statics.trans hst)

/-- The paths `W` are among those of tables, and those on the way to `va` are among them. -/
structure Along (va : Nat) (W : Finset (List Index)) : Prop where
  length : ∀ p ∈ W, p.length ≤ 2
  mem : ∀ k < 2, vpnPath va k ∈ W

/-- No page is free, and a table on the way to `va` is missing. -/
def NoTable (roots : ω → Option Nat) (o : ω) (va : Nat) (s : Mm) : Prop :=
  NoPage s ∧ ∃ k < 2, tableAt s.mem roots o (vpnPath va k) = none

/-- The page allocator supplies `walk`, with two pages at most, and all of them become tables on the
way to `va`. -/
theorem supply_changed (o : ω) (va : Nat) :
    SupplyAt Mm.allocPage roots o va
      (fun k s' => ∃ tabs, Multiset.card tabs + k ≤ 2 ∧
        Changed roots s live s' tabs (leafOf s.mem roots) ∧
        ∀ W, Along va W → MoreTables roots o W s.mem s'.mem (Multiset.card tabs))
      (NoTable roots o va) where
  tables := by
    rintro k s' ⟨tabs, -, hc, -⟩
    exact hc.owned.tables
  inSpace := by
    rintro k s' ⟨tabs, -, hc, -⟩
    exact hc.owned.inSpace
  deref := by
    rintro k s' b len ⟨tabs, hcard, hc, hmore⟩
    exact ⟨tabs, hcard, hc.deref b len, hmore⟩
  weaken := by
    rintro k s' ⟨tabs, hcard, hc, hmore⟩
    exact ⟨tabs, by omega, hc, hmore⟩
  call := by
    rintro k s' n hk ⟨tabs, hcard, hc, hmore⟩ hn hfree
    rcases hc.owned.run.allocPage with ⟨hnull, hnone⟩ | ⟨a, s'', hcall, hne, hnew⟩
    · have hmissing := (tableAt_step va hk hn).trans (pteNext_eq_none.mpr hfree)
      refine ⟨0, s', hnull, rfl, fun _ => ⟨⟨tabs, by omega, hc, hmore⟩, hnone, k, hk, hmissing⟩, ?_⟩
      exact fun h0 => absurd rfl h0
    · refine ⟨a, s'', hcall, hnew.statics.vaOffset, fun h0 => absurd h0 hne, fun _ => ?_⟩
      have hp : (vpnPath va (k + 1)).length < 2 := by
        rw [vpnPath_length va (show k + 1 ≤ 2 from hk)]
        omega
      have htable := hnew.newTable hc.owned hp hn hfree
      refine ⟨htable, fun pte => ⟨(a, 0) ::ₘ tabs, ?_, hc.link hnew hp hn hfree pte, fun W hW => ?_⟩⟩
      · rw [Multiset.card_cons]
        omega
      · have hmem := hW.mem k hk
        rw [vpnPath_cons va hk] at hmem
        rw [Multiset.card_cons]
        exact (hmore W hW).trans (htable.moreTables hW.length hmem)

/-! ### `map_page` and `unmap_page` -/

/-- The translations once `va` is mapped: an entry that is there is kept. -/
def mapLeaf (L : ω → Nat → Option (Nat × Nat)) (o : ω) (va pa perm : Nat) :
    ω → Nat → Option (Nat × Nat) := fun o' va' =>
  if o' = o ∧ vpage va' = vpage va then some ((L o va).getD (pa, mapFlags perm)) else L o' va'

/-- The translations once `va` is unmapped. -/
def unmapLeaf (L : ω → Nat → Option (Nat × Nat)) (o : ω) (va : Nat) :
    ω → Nat → Option (Nat × Nat) := fun o' va' =>
  if o' = o ∧ vpage va' = vpage va then none else L o' va'

omit [DecidableEq ω] in
theorem leafOf_vpage {m : Nat → UInt8} {va va' : Nat} (h : vpage va' = vpage va) :
    leafOf m roots o va' = leafOf m roots o va := by
  obtain ⟨hpath, hlast⟩ := vpnPath_iff.mpr h
  unfold leafOf
  rw [hpath, hlast]

/-- A write to the entry of a page changes the translation of that page. -/
theorem Changed.write {s₁ : Mm} {tabs : Multiset (Nat × Nat)} {F : ω → Nat → Option (Nat × Nat)}
    (h : Changed roots s live s₁ tabs F) {va v : Nat}
    (hn : tableAt s₁.mem roots o (vpnPath va 0) = some n) (hv : v < 2 ^ 64)
    (hleaf : v &&& pteV ≠ 0 → v &&& (pteR ||| pteW ||| pteX) ≠ 0) (hst : SameStatics s₁ s')
    (hpages : s'.pages = s₁.pages) (hlists : s'.freeLists = s₁.freeLists)
    (hmem : s'.mem = putEntry s₁.mem n (vpn va 0) v) :
    Changed roots s live s' tabs fun o' va' =>
      if o' = o ∧ vpage va' = vpage va then pteLeaf v else F o' va' := by
  have hT := h.owned.tables
  have hisTable : ∀ q, IsTable s'.mem roots q ↔ IsTable s₁.mem roots q := by
    intro q
    rw [hmem]
    exact isTable_write hT hn rfl
  refine ⟨⟨h.owned.run.congr hst hpages hlists, ?_, ?_, ?_⟩, h.pages, ?_, ?_, ?_, ?_⟩
  · exact h.owned.inSpace.congr hst
  · rw [hmem]
    exact hT.write hn rfl hv hleaf
  · intro q hq
    exact (h.owned.held q ((hisTable q).mp hq)).mono hst (Multiset.Subset.refl _)
  · intro q
    rw [hisTable, h.isTable]
  · intro o' va'
    rw [hmem, leafOf_write hT hn rfl hv]
    by_cases hpage : o' = o ∧ vpage va' = vpage va
    · rw [if_pos hpage, if_pos ⟨hpage.1, vpnPath_iff.mpr hpage.2⟩]
    · rw [if_neg hpage, if_neg fun hc => hpage ⟨hc.1, vpnPath_iff.mp hc.2⟩]
      exact h.leaf o' va'
  · intro x hx
    have hnx : ¬InPage n x := hx n ((hisTable n).mpr (isNode_of_nodeAt hn (le_refl 2)))
    rw [hmem, putEntry_of_notInPage hnx]
    exact h.same x fun q hq => hx q ((hisTable q).mpr hq)
  · exact h.statics.trans hst

/-- What `map_page` has come to: the tables `tabs` it has added, and what it says. -/
structure Mapped (roots : ω → Option Nat) (o : ω) (va pa perm : Nat) (s : Mm)
    (live : Multiset (Nat × Nat)) (ok : Bool) (s' : Mm) (tabs : Multiset (Nat × Nat)) : Prop where
  changed : Changed roots s live s' tabs
    (if ok then mapLeaf (leafOf s.mem roots) o va pa perm else leafOf s.mem roots)
  few : Multiset.card tabs ≤ 2
  more : ∀ W, Along va W → MoreTables roots o W s.mem s'.mem (Multiset.card tabs)
  /-- It fails only when no page is free. -/
  failed : ok = false → NoTable roots o va s'
  way : ok = true → ∀ k < 2, tableAt s'.mem roots o (vpnPath va k) ≠ none

omit [DecidableEq ω] in
/-- Where the last table is there, so are those before it. -/
theorem way_of_last {m : Nat → UInt8} {va : Nat} (h : tableAt m roots o (vpnPath va 0) ≠ none)
    (k : Nat) (hk : k < 2) : tableAt m roots o (vpnPath va k) ≠ none :=
  fun hnone => h (tableAt_none va hk hnone)

/-- **`map_page`** over the page allocator. -/
theorem Owned.mapPage_cases (h : Owned roots s live) (hroot : roots o = some root) (va : Nat)
    {pa perm : Nat} (hmod : pa % pageSize = 0) (hlt : pa < 2 ^ 56) (hperm : IsPerm perm) :
    ∃ ok s' tabs, Mm.mapPage root va pa perm s = .ok (ok, s') ∧
      Mapped roots o va pa perm s live ok s' tabs := by
  have hstart : Multiset.card (0 : Multiset (Nat × Nat)) + 2 ≤ 2 := le_refl 2
  obtain ⟨s₁, ⟨tabs, hcard, hc, hmore⟩, hcases⟩ :=
    (supply_changed o va).mapPage ⟨0, hstart, Changed.refl h, fun W hW => .refl hW.length⟩ hroot pa perm
  rcases hcases with ⟨hcall, hdry⟩ | ⟨hcall, hsome⟩ | ⟨n, pte, hn, hnone, hcall⟩
  · exact ⟨false, s₁, tabs, hcall, hc, by omega, hmore, fun _ => hdry, nofun⟩
  · refine ⟨true, s₁, tabs, hcall, ?_, by omega, hmore, nofun, fun _ => way_of_last ?_⟩
    · have hsame : mapLeaf (leafOf s.mem roots) o va pa perm = leafOf s.mem roots := by
        funext o' va'
        unfold mapLeaf
        split
        · next hpage =>
          rw [hc.leaf] at hsome
          obtain ⟨rfl, hva⟩ := hpage
          obtain ⟨b, hb⟩ := Option.ne_none_iff_exists'.mp hsome
          rw [leafOf_vpage hva, hb]
          rfl
        · rfl
      rw [if_pos rfl, hsame]
      exact hc
    · exact fun hlast => hsome (lookup_of_nodeAt_none hlast)
  · obtain ⟨hf, -, haccess⟩ := mapFlags_facts hperm
    have hkept : ∀ p, p.length ≤ 2 →
        tableAt (putEntry s₁.mem n (vpn va 0) (pa2pte pa ||| mapFlags perm)) roots o p
          = tableAt s₁.mem roots o p :=
      fun p hp => tableAt_write hc.owned.tables hn rfl hp
    refine ⟨true, _, tabs, hcall, ?_, by omega, fun W hW => ?_, nofun, fun _ => way_of_last ?_⟩
    · have hleaf : mapLeaf (leafOf s.mem roots) o va pa perm = fun o' va' =>
          if o' = o ∧ vpage va' = vpage va then pteLeaf (pa2pte pa ||| mapFlags perm)
          else leafOf s.mem roots o' va' := by
        rw [hc.leaf] at hnone
        funext o' va'
        unfold mapLeaf
        rw [hnone, pteLeaf_map hmod hlt hperm]
        rfl
      rw [if_pos rfl, hleaf]
      refine hc.write hn (pte_lt hlt hf) (fun _ => ?_) ⟨rfl, rfl, rfl, rfl⟩ rfl rfl rfl
      rw [pte_and hlt hf (by decide)]
      exact haccess
    · exact (hmore W hW).trans (moreTables_zero hW.length hkept)
    · refine ne_of_eq_of_ne (hkept _ (le_refl 2)) ?_
      rw [hn]
      exact Option.some_ne_none n

/-- Of a call of `map_page`, what most callers need. -/
theorem Owned.mapPage (h : Owned roots s live) (hroot : roots o = some root) (va : Nat) {pa perm : Nat}
    (hmod : pa % pageSize = 0) (hlt : pa < 2 ^ 56) (hperm : IsPerm perm) :
    ∃ ok s' tabs, Mm.mapPage root va pa perm s = .ok (ok, s') ∧ Multiset.card tabs ≤ 2 ∧
      (ok = false → NoPage s') ∧
      Changed roots s live s' tabs
        (if ok then mapLeaf (leafOf s.mem roots) o va pa perm else leafOf s.mem roots) := by
  obtain ⟨ok, s', tabs, hcall, hm⟩ := h.mapPage_cases hroot va hmod hlt hperm
  exact ⟨ok, s', tabs, hcall, hm.few, fun hok => (hm.failed hok).1, hm.changed⟩

omit [DecidableEq ω] in
/-- **`unmap_page`** over the page allocator, of a page that is not mapped. -/
theorem Owned.unmapPage_none (h : Owned roots s live) (hroot : roots o = some root) {va : Nat}
    (hnone : leafOf s.mem roots o va = none) :
    ∃ s', Mm.unmapPage root va s = .ok (false, s') ∧ Traced s s' := by
  obtain ⟨t, htr, ⟨-, hcall⟩ | ⟨n, pa, f, -, hsome, -⟩⟩ :=
    unmapPage_cases h.inSpace h.tables hroot va
  · exact ⟨t, hcall, htr⟩
  · rw [hnone] at hsome
    cases hsome

/-- **`unmap_page`** of a page whose frame is handed out, and is no table. -/
theorem Owned.unmapPage_some {pa f : Nat} (h : Owned roots s ((pa, 0) ::ₘ live))
    (hroot : roots o = some root) {va : Nat} (hsome : leafOf s.mem roots o va = some (pa, f))
    (hpa : ¬IsTable s.mem roots pa) :
    Mm.unmapPage root va s = .error .halt ∨
      ∃ s', Mm.unmapPage root va s = .ok (true, s') ∧
        Changed roots s live s' 0 (unmapLeaf (leafOf s.mem roots) o va) := by
  obtain ⟨t, htr, ⟨hnone, -⟩ | ⟨n, pa', f', hn, hsome', hcall⟩⟩ :=
    unmapPage_cases h.inSpace h.tables hroot va
  · rw [hnone] at hsome
    cases hsome
  · obtain ⟨rfl, rfl⟩ := Prod.mk.inj (Option.some.inj (hsome.symm.trans hsome'))
    have hst : SameStatics s t := htr.later.statics
    have hrun : RunInv t ((pa, 0) ::ₘ live) := by
      obtain ⟨d, rfl⟩ := htr
      exact h.run.congr ⟨rfl, rfl, rfl, rfl⟩ rfl rfl
    rcases hrun.freePage with hhalt | ⟨t', hfree, hrun', hst', hmem⟩
    · refine Or.inl ?_
      rw [hcall, hhalt]
      rfl
    · refine Or.inr ⟨_, by rw [hcall, hfree]; rfl, ?_⟩
      have hmem' : t'.mem = s.mem := hmem.trans htr.mem
      have hpage := h.tables.page n (isNode_of_nodeAt hn (le_refl 2))
      have hspace : t'.InSpace := h.inSpace.congr (hst.trans hst')
      have hstore := storePte_mem hspace hpage va 0 0
      rw [(hst.trans hst').physToVirt, hmem'] at hstore
      have howned : Owned roots t' live := by
        refine ⟨hrun', hspace, by rw [hmem']; exact h.tables, fun q hq => ?_⟩
        rw [hmem'] at hq
        rcases h.held q hq with hbelow | hq'
        · rw [← hst.base, ← hst'.base] at hbelow
          exact Or.inl hbelow
        · rcases Multiset.mem_cons.mp hq' with heq | hq'
          · obtain ⟨rfl, -⟩ := Prod.mk.inj heq
            exact absurd hq hpa
          · exact Or.inr hq'
      have hwrite : Changed roots t' live
          (t'.storePte (pteAddr (s.physToVirt n) (vpnLevel va 0)) 0) 0 fun o' va' =>
            if o' = o ∧ vpage va' = vpage va then pteLeaf 0 else leafOf t'.mem roots o' va' :=
        (Changed.refl howned).write (by rw [hmem']; exact hn) (by norm_num)
          (fun h0 => absurd (Nat.zero_and _) h0) ⟨rfl, rfl, rfl, rfl⟩ rfl rfl
          (by rw [hmem']; exact hstore)
      obtain ⟨ho, hpages, hisTable, hleaf, hsame, hst''⟩ := hwrite
      rw [hmem'] at hisTable hleaf hsame
      exact ⟨ho, hpages, hisTable, hleaf, hsame, hst.trans (hst'.trans hst'')⟩

/-! ### A page for other uses, and a new root -/

omit [DecidableEq ω] in
theorem NewPage.owned (hnew : NewPage s live a s') (h : Owned roots s live) :
    Owned roots s' ((a, 0) ::ₘ live) := by
  have hsame := hnew.sameTables h
  refine ⟨hnew.run, ?_, h.tables.congr hsame, fun q hq => ?_⟩
  · exact h.inSpace.congr hnew.statics
  · exact (h.held q (hsame.isTable.mp hq)).mono hnew.statics (Multiset.subset_cons _ _)

/-! Page `a` is empty, and the owner `o` has no root; then `a` becomes its root. -/

section Plant

variable (roots o) (hzero : ZeroPage s.mem a)
include hzero

theorem tableAt_plant (o' : ω) (p : List Index) :
    tableAt s.mem (Function.update roots o (some a)) o' p =
      if o' = o then (if p = [] then some a else none) else tableAt s.mem roots o' p := by
  apply nodeAt_plant
  intro j
  rw [entry_zeroPage hzero, pteNext_zero]

theorem isTable_plant (hnone : roots o = none) (q : Nat) :
    IsTable s.mem (Function.update roots o (some a)) q ↔ q = a ∨ IsTable s.mem roots q := by
  have hat := tableAt_plant roots o hzero
  constructor
  · rintro ⟨o', p, hp, hq⟩
    replace hq := (hat o' p).symm.trans hq
    split at hq
    · split at hq
      · exact Or.inl (Option.some.inj hq).symm
      · cases hq
    · exact Or.inr ⟨o', p, hp, hq⟩
  · rintro (rfl | ⟨o', p, hp, hq⟩)
    · exact ⟨o, [], Nat.zero_le _, Function.update_self ..⟩
    · have hold : ∀ p, tableAt s.mem roots o p = none := by
        intro p
        induction p with
        | nil => exact hnone
        | cons i p ih => exact nodeAt_cons_none ih
      have hne : o' ≠ o := by
        rintro rfl
        exact Option.some_ne_none q (hq.symm.trans (hold p))
      exact ⟨o', p, hp, ((hat o' p).trans (if_neg hne)).trans hq⟩

theorem leafOf_plant (o' : ω) (va : Nat) :
    leafOf s.mem (Function.update roots o (some a)) o' va =
      if o' = o then none else leafOf s.mem roots o' va := by
  have hroot := tableAt_plant roots o hzero o' (vpnPath va 0)
  by_cases ho : o' = o
  · rw [if_pos ho] at hroot ⊢
    have hnil : vpnPath va 0 ≠ [] := List.cons_ne_nil _ _
    rw [if_neg hnil] at hroot
    exact lookup_of_nodeAt_none hroot
  · rw [if_neg ho] at hroot ⊢
    exact congrArg (fun t => t.bind fun n => pteLeaf (entry s.mem n (vpn va 0))) hroot

variable {roots o}

/-- A zeroed page that is no table, and that the allocator does not give out, becomes the root of a
new owner. -/
theorem Owned.plant_held (h : Owned roots s live) (ha : Held s live a) (hpage : IsPage a)
    (hfresh : ¬IsTable s.mem roots a) (hnone : roots o = none) :
    Owned (Function.update roots o (some a)) s live := by
  have hat := tableAt_plant roots o hzero
  have hisTable := isTable_plant roots o hzero hnone
  have hentry : ∀ i, entry s.mem a i &&& pteV = 0 := by
    intro i
    rw [entry_zeroPage hzero]
    exact Nat.zero_and _
  refine ⟨h.run, h.inSpace, ⟨?_, ?_, ?_, ?_⟩, ?_⟩
  · refine h.tables.forest.plant (fun j => ?_) hfresh
    rw [entry_zeroPage hzero, pteNext_zero]
  · intro q hq
    rcases (hisTable q).mp hq with rfl | hq
    · exact hpage
    · exact h.tables.page q hq
  · intro o' p q i hp hq hV
    rw [hat] at hq
    split at hq
    · split at hq
      · obtain rfl := Option.some.inj hq
        exact absurd (hentry i) hV
      · cases hq
    · exact h.tables.pointer o' p q i hp hq hV
  · intro o' p q i hp hq hV
    rw [hat] at hq
    split at hq
    · split at hq
      · obtain rfl := Option.some.inj hq
        exact absurd (hentry i) hV
      · cases hq
    · exact h.tables.leaf o' p q i hp hq hV
  · intro q hq
    rcases (hisTable q).mp hq with rfl | hq
    · exact ha
    · exact h.held q hq

/-- A page that is handed out becomes such a root. -/
theorem Owned.plant (h : Owned roots s live) (ha : (a, 0) ∈ live)
    (hfresh : ¬IsTable s.mem roots a) (hnone : roots o = none) :
    Owned (Function.update roots o (some a)) s live :=
  h.plant_held hzero (Or.inr ha) (h.run.isPage ha) hfresh hnone

end Plant

omit [DecidableEq ω] in
theorem tableAt_none_root (m : Nat → UInt8) (o : ω) (p : List Index) :
    tableAt m (fun _ : ω => none) o p = none := by
  induction p with
  | nil => rfl
  | cons i p ih => exact nodeAt_cons_none ih

omit [DecidableEq ω] in
theorem not_isTable_none (m : Nat → UInt8) (n : Nat) : ¬IsTable m (fun _ : ω => none) n := by
  intro ⟨o, p, _, hn⟩
  rw [show nodeAt pteNext (entry m) (fun _ : ω => none) o p = none from tableAt_none_root m o p] at hn
  cases hn

omit [DecidableEq ω] in
/-- There are no tables yet. -/
theorem RunInv.owned_none (hi : RunInv s live) (hs : s.InSpace) :
    Owned (fun _ : ω => none) s live := by
  have hnot : ∀ {o : ω} {p n}, tableAt s.mem (fun _ : ω => none) o p ≠ some n := by
    intro o p n hn
    rw [tableAt_none_root] at hn
    cases hn
  refine ⟨hi, hs, ⟨?_, ?_, ?_, ?_⟩, ?_⟩
  · intro o o' p p' n _ _ hn
    exact absurd hn hnot
  · intro n hn
    exact absurd hn (not_isTable_none s.mem n)
  · intro o p n i _ hn
    exact absurd hn hnot
  · intro o p n i _ hn
    exact absurd hn hnot
  · intro n hn
    exact absurd hn (not_isTable_none s.mem n)

omit [DecidableEq ω] in
/-- The tables do not depend on the half the code runs in. -/
theorem Owned.setOffset (h : Owned roots s live) {v : Nat}
    (hv : v + userEnd ≤ 2 ^ 64) : Owned roots { s with vaOffset := v } live := by
  obtain ⟨⟨hr, ⟨fl, hi⟩, haddr⟩, -, hT, hheld⟩ := h
  exact ⟨⟨⟨hr.1, hr.2, hr.3⟩, ⟨fl, hi⟩, haddr⟩, hv, hT, hheld⟩

end Owned

/-! ### Counting pages -/

theorem RunInv.not_freePage (hi : RunInv s live) (hnone : NoPage s) (i : Nat) : ¬FreePage s i := by
  obtain ⟨fl, hinv⟩ := hi.inv
  intro ⟨o, ho, h, hfree, _⟩
  have hmem := (onFreeList_iff hinv ho).mp hfree
  rw [eq_nil_of_none hinv ho (hnone o ho)] at hmem
  exact absurd hmem List.not_mem_nil

theorem RunInv.freeCount_of_noPage (hi : RunInv s live) (hnone : NoPage s) : freeCount s = 0 := by
  have hset : {i | FreePage s i} = ∅ := Set.eq_empty_of_forall_notMem (hi.not_freePage hnone)
  rw [freeCount, hset, Set.ncard_empty]

theorem NewPage.freeCount (hi : RunInv s live) (hnew : NewPage s live a s') :
    freeCount s' + 1 = freeCount s := by
  have hold := hi.freeCount_add
  have hadd := hnew.run.freeCount_add
  rw [hnew.statics.numPages, pageCount, Multiset.map_cons, Multiset.sum_cons, pow_zero] at hadd
  rw [pageCount] at hold
  omega

/-- **`alloc_page` returns `NULL`** where no page is free, and changes nothing. -/
theorem RunInv.allocPage_noPage (hi : RunInv s live) (hnone : NoPage s) : s.allocPage = .ok (0, s) := by
  rcases hi.allocPage with ⟨hnull, -⟩ | ⟨a, s', -, -, hnew⟩
  · exact hnull
  · have hcount := hnew.freeCount hi
    rw [hi.freeCount_of_noPage hnone] at hcount
    cases hcount

theorem RunInv.noPage_iff (hi : RunInv s live) : NoPage s ↔ freeCount s = 0 := by
  refine ⟨hi.freeCount_of_noPage, fun hzero => ?_⟩
  rcases hi.allocPage with ⟨-, hnone⟩ | ⟨a, s', -, -, hnew⟩
  · exact hnone
  · have hcount := hnew.freeCount hi
    rw [hzero] at hcount
    cases hcount

/-- The page that is handed out was free, and the others are what they were. -/
theorem NewPage.freePage_iff (hi : RunInv s live) (hnew : NewPage s live a s') {i : Nat}
    (hlt : i < s.numPages) : FreePage s i ↔ i = s.pageIdx a ∨ FreePage s' i := by
  have hidx : ∀ b, s'.pageIdx b = s.pageIdx b := pageIdx_congr hnew.statics
  have hcov : Covers i (s.pageIdx a, 0) ↔ i = s.pageIdx a := by
    unfold Covers
    rw [pow_zero]
    omega
  rw [hi.freePage_iff hlt, hnew.run.freePage_iff (hnew.statics.numPages ▸ hlt)]
  simp only [hidx, Multiset.mem_cons, forall_eq_or_imp, hcov]
  constructor
  · intro hfree
    exact (em _).imp_right fun hne => ⟨hne, hfree⟩
  · rintro (rfl | ⟨-, hfree⟩) B hB
    · rw [← hidx a, ← hidx B.1]
      exact hnew.run.cons_disjoint hB (covers_head _)
    · exact hfree B hB

/-- Each table that `map_page` has added was a free page. -/
theorem Mapped.freeCount {ω : Type} [DecidableEq ω] {roots : ω → Option Nat} {o : ω} {va pa perm : Nat}
    {ok : Bool} {tabs : Multiset (Nat × Nat)} (hrun : RunInv s live)
    (h : Mapped roots o va pa perm s live ok s' tabs) :
    Mm.freeCount s' + Multiset.card tabs = Mm.freeCount s := by
  have hold := hrun.freeCount_add
  have hnew := h.changed.owned.run.freeCount_add
  rw [pageCount_add, pageCount_pages h.changed.pages, h.changed.statics.numPages] at hnew
  omega

/-- When no page is free and all blocks are pages, there are as many blocks as pages. -/
theorem RunInv.card_of_noPage (hi : RunInv s live) (hnone : NoPage s) (hpages : ∀ B ∈ live, B.2 = 0) :
    s.numPages = Multiset.card live := by
  rw [← hi.freeCount_add, hi.freeCount_of_noPage hnone, zero_add, pageCount_pages hpages]

/-- The first page that is taken after the boot, as a table with no entries. -/
theorem RunInv.exists_root (hi : RunInv s 0) (hs : s.InSpace) (hn : 0 < s.numPages) :
    ∃ a s', s.allocPage = .ok (a, s') ∧ Owned (fun _ : Unit => some a) s' {(a, 0)} ∧
      (∀ va, leafOf s'.mem (fun _ : Unit => some a) () va = none) ∧ SameStatics s s' := by
  rcases hi.allocPage with ⟨-, hnone⟩ | ⟨a, s', hcall, -, hnew⟩
  · have hle := hi.card_of_noPage hnone fun B hB => absurd hB (Multiset.notMem_zero B)
    rw [Multiset.card_zero] at hle
    omega
  · have howned := hnew.owned (hi.owned_none (ω := Unit) hs)
    have hroots : Function.update (fun _ : Unit => none) () (some a) = fun _ : Unit => some a := by
      funext u
      exact Function.update_self ..
    have hplant := howned.plant hnew.zero (Multiset.mem_cons_self _ _) (not_isTable_none s'.mem a)
      (o := ()) rfl
    have hleaf := leafOf_plant (fun _ : Unit => none) () hnew.zero
    rw [hroots] at hplant hleaf
    refine ⟨a, s', hcall, hplant, fun va => ?_, hnew.statics⟩
    rw [hleaf]
    exact if_pos rfl

end SystemN.Mm
