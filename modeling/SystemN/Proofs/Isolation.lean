/-
The memory of the processes, kept apart.

All page tables are looked at together: that of the kernel, and that of each process.  In each of
them a leaf is open to user code or it is not.  If it is, its frame is a page that the allocator has
handed out, that is no table and no page of the caches, and that no other leaf leads to.  If it is
not, it is the kernel's own, and it maps an address to the one `VA_OFFSET` below it.

`Isolated` says so, and it is kept by everything that happens to the tables: a page is taken from the
allocator, it becomes a table or is mapped, an object is allocated, a page is unmapped and freed.
What user code sees of it are the views of `Lib.Spaces`.
-/
import SystemN.Lib.Spaces
import SystemN.Proofs.KernelTable
import SystemN.Proofs.Load
import SystemN.Proofs.Mm.Spared

namespace SystemN

open Mm Radix Spaces

variable {L : Layout} {kp a pa va perm p root : Nat} {s s' t : Mm} {S S' : Snub}
  {live live' tabs : Multiset (Nat × Nat)} {taken given fl taken' given' fl' : Nat → List Nat}
  {roots : Option Nat → Option Nat} {o : Option Nat}

/-! ### The pages of user code -/

/-- The number of a page of an address space. -/
abbrev PageNo := Fin (2 ^ 27)

def pageNo (va : Nat) : PageNo := ⟨vpage va, Nat.mod_lt _ (by decide)⟩

/-- The bytes of a page. -/
abbrev PageBytes := Fin pageSize → UInt8

def blankPage : PageBytes := fun _ => 0

def contents (m : Nat → UInt8) (pa : Nat) : PageBytes := fun d => m (pa + d)

section UserPages

variable {ω : Type} {F : ω → Nat → Option (Nat × Nat)} {u : ω}

/-- The pages that are open to user code, of the leaves `F`. -/
def userPages (F : ω → Nat → Option (Nat × Nat)) : Mapping ω PageNo Nat Nat := fun u n =>
  (F u (n * pageSize)).filter fun e => e.2 &&& pteU != 0

/-- What user code finds in its pages. -/
def userViews (roots : ω → Option Nat) (m : Nat → UInt8) : Mapping ω PageNo PageBytes Nat :=
  view (userPages (leafOf m roots)) (contents m)

theorem vpage_pageNo (n : PageNo) : vpage (n * pageSize) = n := by
  have hlt := n.isLt
  rw [vpage, Nat.mul_div_cancel _ (by decide), Nat.mod_eq_of_lt hlt]

theorem vpage_eq_iff (n : PageNo) : vpage (n * pageSize) = vpage va ↔ n = pageNo va := by
  rw [vpage_pageNo, Fin.ext_iff]
  rfl

theorem userPages_eq_some {n : PageNo} {e : Nat × Nat} :
    userPages F u n = some e ↔ F u (n * pageSize) = some e ∧ e.2 &&& pteU ≠ 0 := by
  simp [userPages, Option.filter_eq_some_iff]

variable [DecidableEq ω]

/-- A page is mapped for user code, where nothing was mapped. -/
theorem userPages_mapLeaf (hperm : perm &&& pteU ≠ 0) (hnone : F u va = none) :
    userPages (mapLeaf F u va pa perm) =
      put (userPages F) u (pageNo va) (some (pa, mapFlags perm)) := by
  have huser : mapFlags perm &&& pteU ≠ 0 := by rwa [mapFlags_user]
  funext u' n
  unfold userPages put mapLeaf
  simp only [vpage_eq_iff]
  split
  · simpa [hnone] using huser
  · rfl

/-- Where something is mapped nothing changes. -/
theorem mapLeaf_mapped (hF : ∀ u va va', vpage va' = vpage va → F u va' = F u va)
    (hsome : F u va ≠ none) : mapLeaf F u va pa perm = F := by
  funext u' va'
  unfold mapLeaf
  split
  · next hat =>
    obtain ⟨e, he⟩ := Option.ne_none_iff_exists'.mp hsome
    rw [hat.1, hF _ _ _ hat.2, he]
    rfl
  · rfl

/-- A page that is mapped for the kernel changes nothing. -/
theorem userPages_mapLeaf_kernel
    (hF : ∀ u va va', vpage va' = vpage va → F u va' = F u va) (hperm : perm &&& pteU = 0) :
    userPages (mapLeaf F u va pa perm) = userPages F := by
  by_cases hnone : F u va = none
  · have huser : mapFlags perm &&& pteU = 0 := by rwa [mapFlags_user]
    funext u' n
    unfold userPages mapLeaf
    split
    · next hat =>
      rw [hat.1, hF _ _ _ hat.2, hnone]
      simpa using huser
    · rfl
  · rw [mapLeaf_mapped hF hnone]

/-- A leaf after `map_page` was there, or it is the new one. -/
theorem mapLeaf_cases (hF : ∀ u va va', vpage va' = vpage va → F u va' = F u va) {u' : ω} {va' : Nat}
    {e : Nat × Nat} (h : mapLeaf F u va pa perm u' va' = some e) :
    F u' va' = some e ∨ u' = u ∧ vpage va' = vpage va ∧ e = (pa, mapFlags perm) := by
  by_cases hnone : F u va = none
  · unfold mapLeaf at h
    split at h
    · next hat =>
      rw [hnone] at h
      exact Or.inr ⟨hat.1, hat.2, (Option.some.inj h).symm⟩
    · exact Or.inl h
  · rw [mapLeaf_mapped hF hnone] at h
    exact Or.inl h

theorem userPages_unmapLeaf :
    userPages (unmapLeaf F u va) = put (userPages F) u (pageNo va) none := by
  funext u' n
  unfold userPages put unmapLeaf
  simp only [vpage_eq_iff]
  split <;> rfl

end UserPages

/-- Under one root the tables are those of that root alone. -/
theorem tableAt_theRoot {ω : Type} {m : Nat → UInt8} {roots : ω → Option Nat} {o : ω}
    (h : roots o = some root) (path : List Index) :
    tableAt m roots o path = tableAt m (theRoot root) () path :=
  nodeAt_owner (show roots o = theRoot root () from h) path

/-! ### The invariant -/

/-- A leaf that is open to user code, of the owner `o`. -/
structure UserEntry (roots : Option Nat → Option Nat) (s : Mm) (live : Multiset (Nat × Nat))
    (taken : Nat → List Nat) (o : Option Nat) (va pa f : Nat) : Prop where
  owner : o ≠ none
  low : vpage va < userEndVa / pageSize
  flags : ∃ perm, IsPerm perm ∧ perm &&& pteU ≠ 0 ∧ (perm &&& pteW = 0 ∨ perm &&& pteX = 0) ∧
    f = mapFlags perm
  held : (pa, 0) ∈ live
  table : ¬IsTable s.mem roots pa
  slab : ∀ i, pa ∉ taken i

/-- A leaf of the kernel: it belongs to the image, or to an object behind `base`. -/
structure KernelEntry (L : Layout) (base va pa f : Nat) : Prop where
  aligned : pa % pageSize = 0
  lt : pa < 2 ^ 32
  linear : vpage va = vpage (pa + vaOffsetConst)
  flags : ∃ perm, f = mapFlags perm ∧
    (kernelPerm L pa = some perm ∨ perm = pteR ||| pteW ∧ base ≤ pa)

/-- The allocators and all page tables; `none` owns the table of the kernel. -/
structure Isolated (L : Layout) (roots : Option Nat → Option Nat) (S : Snub)
    (live : Multiset (Nat × Nat)) (taken given fl : Nat → List Nat) : Prop where
  stocked : Stocked S live taken given fl
  owned : Owned roots S.mm live
  /-- The managed pages lie behind the image. -/
  image : L.kernelEnd ≤ S.mm.buddyBasePhys
  kernel : ∀ va, leafOf S.mm.mem roots none va = kernelLeaf L (vpage va)
  slabs : ∀ i, ∀ pa ∈ taken i, ¬IsTable S.mm.mem roots pa
  entries : ∀ o va pa f, leafOf S.mm.mem roots o va = some (pa, f) →
    UserEntry roots S.mm live taken o va pa f ∨ KernelEntry L S.mm.buddyBasePhys va pa f
  apart : Private (userPages (leafOf S.mm.mem roots))

/-- The kernel gives user code no access to its own pages. -/
theorem KernelEntry.supervisor {base f : Nat} (h : KernelEntry L base va pa f) : f &&& pteU = 0 := by
  obtain ⟨perm, rfl, hperm | ⟨rfl, -⟩⟩ := h.flags
  · rw [mapFlags_user]
    exact (kernelPerm_facts hperm).2.1
  · decide

theorem UserEntry.user {f : Nat} (h : UserEntry roots s live taken o va pa f) : f &&& pteU ≠ 0 := by
  obtain ⟨perm, -, huser, -, rfl⟩ := h.flags
  rwa [mapFlags_user]

namespace Isolated

/-- A page of user code. -/
theorem userEntry {n : PageNo} {f : Nat} (h : Isolated L roots S live taken given fl)
    (hpage : userPages (leafOf S.mm.mem roots) o n = some (pa, f)) :
    UserEntry roots S.mm live taken o (n * pageSize) pa f := by
  obtain ⟨hleaf, huser⟩ := userPages_eq_some.mp hpage
  rcases h.entries _ _ _ _ hleaf with hentry | hentry
  · exact hentry
  · exact absurd hentry.supervisor huser

/-- The kernel has no pages of user code. -/
theorem kernel_userPages (h : Isolated L roots S live taken given fl) (n : PageNo) :
    userPages (leafOf S.mm.mem roots) none n = none := by
  cases hpage : userPages (leafOf S.mm.mem roots) none n with
  | none => rfl
  | some e => exact absurd rfl (h.userEntry (f := e.2) hpage).owner

/-- The frame of a user page has no byte of a table. -/
theorem notTable_of_inPage {n : PageNo} {f x q : Nat} (h : Isolated L roots S live taken given fl)
    (hpage : userPages (leafOf S.mm.mem roots) o n = some (pa, f)) (hx : InPage pa x)
    (hq : IsTable S.mm.mem roots q) : ¬InPage q x := by
  intro hin
  have hentry := h.userEntry hpage
  have heq := (h.stocked.run.isPage hentry.held).eq_of_inPage (h.owned.tables.page q hq) hx hin
  exact hentry.table (heq ▸ hq)

/-! ### The tables change -/

/-- **The tables come to say `F`**, and pages may have been freed.  What user code sees is what the
frames held before. -/
theorem remap {F : Option Nat → Nat → Option (Nat × Nat)} {all : Multiset (Nat × Nat)}
    (h : Isolated L roots S all taken given fl) (hc : Changed roots S.mm live S'.mm tabs F)
    (hcaches : S'.caches = S.caches) (hheld : ∀ i, ∀ pa ∈ taken i, (pa, 0) ∈ live)
    (hkernel : F none = leafOf S.mm.mem roots none)
    (hentries : ∀ o va pa f, F o va = some (pa, f) →
      UserEntry roots S.mm live taken o va pa f ∨ KernelEntry L S.mm.buddyBasePhys va pa f)
    (hapart : Private (userPages F)) :
    Isolated L roots S' (tabs + live) taken given fl ∧
      userViews roots S'.mm.mem = view (userPages F) (contents S.mm.mem) := by
  have hleaf : leafOf S'.mm.mem roots = F := by
    funext o va
    exact hc.leaf o va
  -- a page in use is none of the new tables
  have hout : ∀ {pa}, (pa, 0) ∈ live → ¬IsTable S.mm.mem roots pa → ¬IsTable S'.mm.mem roots pa := by
    intro pa hpa hnot htable
    rcases (hc.isTable pa).mp htable with hold | hnew
    · exact hnot hold
    · have hdisj := (Multiset.nodup_add.mp hc.owned.run.nodup).2.2
      exact Multiset.disjoint_left.mp hdisj hnew hpa
  have hsame : ∀ {pa x}, (pa, 0) ∈ live → ¬IsTable S.mm.mem roots pa → InPage pa x →
      S'.mm.mem x = S.mm.mem x := by
    intro pa x hpa hnot hx
    apply hc.same
    intro q hq hin
    have hpage := hc.owned.run.isPage (Multiset.mem_add.mpr (Or.inr hpa))
    have heq := hpage.eq_of_inPage (hc.owned.tables.page q hq) hx hin
    exact hout hpa hnot (heq ▸ hq)
  have hentries' : ∀ o va pa f, F o va = some (pa, f) →
      UserEntry roots S'.mm (tabs + live) taken o va pa f ∨
        KernelEntry L S'.mm.buddyBasePhys va pa f := by
    intro o va pa f hsome
    rcases hentries o va pa f hsome with he | he
    · exact Or.inl { he with
        held := Multiset.mem_add.mpr (Or.inr he.held)
        table := hout he.held he.table }
    · rw [hc.statics.base]
      exact Or.inr he
  refine ⟨⟨⟨hc.owned.run, ?_, ?_, ?_, ?_⟩, hc.owned, ?_, ?_, ?_, ?_, ?_⟩, ?_⟩
  · exact h.stocked.slabs.keepsFree hc.statics hcaches fun i pa hpa x hx _ =>
      hsame (hheld i pa hpa) (h.slabs i pa hpa) hx
  · exact fun i pa hpa => Multiset.mem_add.mpr (Or.inr (hheld i pa hpa))
  · rw [hc.statics.base]
    exact h.stocked.start_le
  · rw [hc.statics.vaOffset]
    exact h.stocked.upper
  · rw [hc.statics.base]
    exact h.image
  · intro va
    rw [hleaf, hkernel, h.kernel]
  · exact fun i pa hpa => hout (hheld i pa hpa) (h.slabs i pa hpa)
  · rwa [hleaf]
  · rwa [hleaf]
  · rw [userViews, hleaf]
    refine view_congr fun o n pa f hpage => ?_
    obtain ⟨hsome, huser⟩ := userPages_eq_some.mp hpage
    rcases hentries o _ pa f hsome with he | he
    · funext d
      exact hsame he.held he.table ⟨Nat.le_add_right _ _, Nat.add_lt_add_left d.isLt _⟩
    · exact absurd he.supervisor huser

theorem leafOf_respects (m : Nat → UInt8) (roots : Option Nat → Option Nat) (o : Option Nat)
    (va va' : Nat) (h : vpage va' = vpage va) : leafOf m roots o va' = leafOf m roots o va :=
  leafOf_vpage h

/-- **A page for the kernel.** -/
theorem mapKernel {ok : Bool} (h : Isolated L roots S live taken given fl)
    (hroot : roots (some p) = some root) (hperm : IsPerm perm)
    (hentry : KernelEntry L S.mm.buddyBasePhys va pa (mapFlags perm))
    (hcall : Mm.mapPage root va pa perm S.mm = .ok (ok, s')) :
    ∃ live', Isolated L roots { S with mm := s' } live' taken given fl ∧
      userViews roots s'.mem = userViews roots S.mm.mem := by
  obtain ⟨ok', t, tabs, hcall', hm⟩ := h.owned.mapPage_cases hroot va hentry.aligned
    (hentry.lt.trans (by decide)) hperm
  obtain ⟨rfl, rfl⟩ := Prod.mk.inj (Except.ok.inj (hcall'.symm.trans hcall))
  have hF := leafOf_respects S.mm.mem roots
  have huser : perm &&& pteU = 0 := by
    rw [← mapFlags_user]
    exact hentry.supervisor
  refine ⟨tabs + live, ?_⟩
  cases ok' with
  | false => exact h.remap hm.changed rfl h.stocked.held rfl h.entries h.apart
  | true =>
      have hpages : userPages (mapLeaf (leafOf S.mm.mem roots) (some p) va pa perm) =
          userPages (leafOf S.mm.mem roots) := userPages_mapLeaf_kernel hF huser
      have hchanged : Changed roots S.mm live t tabs
          (mapLeaf (leafOf S.mm.mem roots) (some p) va pa perm) := hm.changed
      have hviews : userViews roots S.mm.mem = view (userPages
          (mapLeaf (leafOf S.mm.mem roots) (some p) va pa perm)) (contents S.mm.mem) := by
        rw [hpages]
        rfl
      rw [hviews]
      refine h.remap hchanged rfl h.stocked.held ?_ ?_ (hpages ▸ h.apart)
      · funext va'
        simp [mapLeaf]
      · intro o va' pa' f hsome
        rcases mapLeaf_cases hF hsome with hold | ⟨rfl, hva, he⟩
        · exact h.entries o va' pa' f hold
        · obtain ⟨rfl, rfl⟩ := Prod.mk.inj he
          exact Or.inr { hentry with linear := hva.trans hentry.linear }

/-- The page of a lower address is one of user code. -/
theorem userEntry_of_low {e : Nat × Nat} (h : Isolated L roots S live taken given fl)
    (hlow : vpage va < userEndVa / pageSize) (hleaf : leafOf S.mm.mem roots o va = some e) :
    UserEntry roots S.mm live taken o va e.1 e.2 := by
  rcases h.entries o va e.1 e.2 hleaf with hentry | hentry
  · exact hentry
  · have hlin := hentry.linear
    rw [vpage_kernel hentry.lt] at hlin
    simp only [userEndVa, pageSize] at hlow hlin
    omega

/-- Accesses that only read. -/
theorem changed_traced (h : Owned roots s live) (htr : Traced s t) :
    Changed roots s live t 0 (leafOf s.mem roots) := by
  have howned := (h.kept_of_traced htr).owned
  obtain ⟨d, rfl⟩ := htr
  exact { Changed.refl h with
    owned := by rwa [zero_add]
    statics := ⟨rfl, rfl, rfl, rfl⟩ }

/-- Below `USER_END_VA` all that is mapped is open to user code. -/
theorem userViews_low (h : Isolated L roots S live taken given fl)
    (hlow : vpage va < userEndVa / pageSize) :
    userViews roots S.mm.mem o (pageNo va) =
      (leafOf S.mm.mem roots o va).map fun e => (contents S.mm.mem e.1, e.2) := by
  have hF : leafOf S.mm.mem roots o (pageNo va * pageSize) = leafOf S.mm.mem roots o va :=
    leafOf_vpage (vpage_pageNo (pageNo va))
  unfold userViews view userPages
  rw [hF]
  cases hleaf : leafOf S.mm.mem roots o va with
  | none => rfl
  | some e =>
      have huser := (h.userEntry_of_low hlow hleaf).user
      rw [Option.filter_some, if_pos (by simpa using huser)]

/-- **A page is unmapped**, and its frame is freed. -/
theorem unmapUser {ok : Bool} (h : Isolated L roots S live taken given fl)
    (hroot : roots (some p) = some root) (hlow : vpage va < userEndVa / pageSize)
    (hcall : Mm.unmapPage root va S.mm = .ok (ok, s')) :
    ∃ live', Isolated L roots { S with mm := s' } live' taken given fl ∧
      userViews roots s'.mem = clear (userViews roots S.mm.mem) (some p) {pageNo va} ∧
      (ok = true ↔ userViews roots S.mm.mem (some p) (pageNo va) ≠ none) := by
  have hF := leafOf_respects S.mm.mem roots
  rw [h.userViews_low hlow, clear_single]
  cases hleaf : leafOf S.mm.mem roots (some p) va with
  | none =>
      obtain ⟨t, hcall', htr⟩ := h.owned.unmapPage_none hroot hleaf
      obtain ⟨rfl, rfl⟩ := Prod.mk.inj (Except.ok.inj (hcall'.symm.trans hcall))
      obtain ⟨hi, hviews⟩ : Isolated L roots { S with mm := t } (0 + live) taken given fl ∧
          userViews roots t.mem = userViews roots S.mm.mem :=
        h.remap (changed_traced h.owned htr) rfl h.stocked.held rfl h.entries h.apart
      have hnone : userViews roots S.mm.mem (some p) (pageNo va) = none := by
        rw [h.userViews_low hlow, hleaf]
        rfl
      exact ⟨_, hi, by rw [hviews, put_none hnone], by simp⟩
  | some e =>
      have hentry := h.userEntry_of_low hlow hleaf
      obtain ⟨rest, hrest⟩ := Multiset.exists_cons_of_mem hentry.held
      have howned := h.owned
      rw [hrest] at howned
      rcases howned.unmapPage_some hroot hleaf hentry.table with hstop | ⟨t, hcall', hc⟩
      · rw [hstop] at hcall
        cases hcall
      · obtain ⟨rfl, rfl⟩ := Prod.mk.inj (Except.ok.inj (hcall'.symm.trans hcall))
        have hat : userPages (leafOf S.mm.mem roots) (some p) (pageNo va) = some e := by
          rw [userPages_eq_some, hF _ _ _ (vpage_pageNo (pageNo va))]
          exact ⟨hleaf, hentry.user⟩
        have hleft : ∀ {pa'}, (pa', 0) ∈ live → pa' ≠ e.1 → (pa', 0) ∈ rest := by
          intro pa' hmem hne
          rw [hrest, Multiset.mem_cons] at hmem
          exact hmem.resolve_left fun heq => hne (Prod.mk.inj heq).1
        suffices hall : Isolated L roots { S with mm := t } (0 + rest) taken given fl ∧
            userViews roots t.mem =
              view (userPages (unmapLeaf (leafOf S.mm.mem roots) (some p) va)) (contents S.mm.mem) by
          refine ⟨_, hall.1, ?_, by simp⟩
          rw [hall.2, userPages_unmapLeaf, view_put]
          rfl
        refine h.remap hc rfl ?_ ?_ ?_ ?_
        · intro i pa' hpa'
          refine hleft (h.stocked.held i pa' hpa') ?_
          rintro rfl
          exact hentry.slab i hpa'
        · funext va'
          simp [unmapLeaf]
        · intro o va' pa' f hsome
          unfold unmapLeaf at hsome
          split at hsome
          · cases hsome
          · next hother =>
            rcases h.entries o va' pa' f hsome with he | he
            · refine Or.inl { he with held := hleft he.held ?_ }
              rintro rfl
              have hat' : userPages (leafOf S.mm.mem roots) o (pageNo va') = some (e.1, f) := by
                rw [userPages_eq_some, hF _ _ _ (vpage_pageNo (pageNo va'))]
                exact ⟨hsome, he.user⟩
              obtain ⟨rfl, hva⟩ := h.apart hat' hat
              exact hother ⟨rfl, congrArg Fin.val hva⟩
            · exact Or.inr he
        · rw [userPages_unmapLeaf]
          exact h.apart.unmap

/-! ### The tables stay as they are -/

/-- Memory is written, and pages are taken, but the tables say what they said. -/
theorem keep (h : Isolated L roots S live taken given fl)
    (hstock : Stocked S' live' taken' given' fl') (hst : SameStatics S.mm S'.mm) (hsub : live ⊆ live')
    (htables : SameTables S.mm.mem S'.mm.mem roots)
    (htaken : ∀ i, ∀ pa ∈ taken' i, pa ∈ taken i ∨ ¬Held S.mm live pa) :
    Isolated L roots S' live' taken' given' fl' ∧
      userViews roots S'.mm.mem = view (userPages (leafOf S.mm.mem roots)) (contents S'.mm.mem) := by
  have hleaf : leafOf S'.mm.mem roots = leafOf S.mm.mem roots := by
    funext o va
    exact htables.leafOf o va
  have hheld : ∀ n, IsTable S'.mm.mem roots n → Held S'.mm live' n := fun n hn =>
    (h.owned.held n (htables.isTable.mp hn)).mono hst hsub
  refine ⟨⟨hstock, ⟨hstock.run, hstock.slabs.space, h.owned.tables.congr htables, hheld⟩,
    ?_, ?_, ?_, ?_, ?_⟩, ?_⟩
  · rw [hst.base]
    exact h.image
  · rw [hleaf]
    exact h.kernel
  · intro i pa hpa htable
    rcases htaken i pa hpa with hold | hnew
    · exact h.slabs i pa hold (htables.isTable.mp htable)
    · exact hnew (h.owned.held pa (htables.isTable.mp htable))
  · rw [hleaf, hst.base]
    intro o va pa f hsome
    refine (h.entries o va pa f hsome).imp (fun he => { he with held := hsub he.held, table := ?_, slab := ?_ }) id
    · exact fun htable => he.table (htables.isTable.mp htable)
    · intro i hpa
      exact (htaken i pa hpa).elim (he.slab i) fun hnew => hnew (Or.inr he.held)
  · rw [hleaf]
    exact h.apart
  · rw [userViews, hleaf]

/-- No free object has a byte of a page in use. -/
theorem spared {n x : Nat} (h : Isolated L roots S live taken given fl) (hheld : Held S.mm live n)
    (hpage : IsPage n) (hslab : ∀ i, n ∉ taken i) (hx : InPage n x) : Spared S live fl x where
  held := hheld.heldAt hx
  object i q hq hlo := by
    by_contra hhi
    obtain ⟨pa, hpa, hin⟩ :=
      h.stocked.object_inPage (List.mem_append_left _ hq) hlo (Nat.not_le.mp hhi)
    have heq := hpage.eq_of_inPage (h.stocked.slabs.page i pa hpa).1 hx hin
    exact hslab i (heq ▸ hpa)

theorem spared_table {n x : Nat} (h : Isolated L roots S live taken given fl)
    (hn : IsTable S.mm.mem roots n) (hx : InPage n x) : Spared S live fl x :=
  h.spared (h.owned.held n hn) (h.owned.tables.page n hn) (fun i hpa => h.slabs i n hpa hn) hx

theorem spared_user {n : PageNo} {f x : Nat} (h : Isolated L roots S live taken given fl)
    (hpage : userPages (leafOf S.mm.mem roots) o n = some (pa, f)) (hx : InPage pa x) :
    Spared S live fl x := by
  have hentry := h.userEntry hpage
  exact h.spared (Or.inr hentry.held) (h.stocked.run.isPage hentry.held) hentry.slab hx

theorem inPage_add (pa : Nat) (d : Fin pageSize) : InPage pa (pa + d) :=
  ⟨Nat.le_add_right _ _, Nat.add_lt_add_left d.isLt _⟩

theorem contents_zero {m : Nat → UInt8} {pa : Nat} (h : ZeroPage m pa) : contents m pa = blankPage := by
  funext d
  exact h _ (inPage_add pa d)

/-- **What is not given out is not written**: then the tables say what they said, and user code finds
what it found. -/
theorem quiet (h : Isolated L roots S live taken given fl)
    (hstock : Stocked S' live' taken' given' fl') (hst : SameStatics S.mm S'.mm) (hsub : live ⊆ live')
    (hsame : ∀ x, Spared S live fl x → S'.mm.mem x = S.mm.mem x)
    (htaken : ∀ i, ∀ pa ∈ taken' i, pa ∈ taken i ∨ ¬Held S.mm live pa) :
    Isolated L roots S' live' taken' given' fl' ∧
      userViews roots S'.mm.mem = userViews roots S.mm.mem := by
  obtain ⟨hi, hviews⟩ := h.keep hstock hst hsub
    (fun n hn x hx => hsame x (h.spared_table hn hx)) htaken
  refine ⟨hi, hviews.trans (view_congr fun o n pa f hpage => ?_)⟩
  funext d
  exact hsame _ (h.spared_user hpage (inPage_add pa d))

/-- **`kzalloc`**: an object that is now given out, or no page was free. -/
theorem alloc {size i q : Nat} (h : Isolated L roots S live taken given fl)
    (hclass : sizeToIdx size = some i) (hcall : S.kzalloc size = .ok (q, S')) :
    (∃ live' taken' fl',
      Isolated L roots S' live' taken' (Function.update given i (q :: given i)) fl' ∧
        userViews roots S'.mm.mem = userViews roots S.mm.mem) ∨ Stocked.Astray S i q S' := by
  obtain ⟨hi, hfit, -⟩ := Snub.sizeToIdx_some hclass
  obtain ⟨q', S₁, hcall', -, hcase⟩ := h.stocked.kzalloc hclass
  obtain ⟨rfl, rfl⟩ := Prod.mk.inj (Except.ok.inj (hcall'.symm.trans hcall))
  rcases hcase with hsupp | hastray
  · obtain ⟨live', taken', fl', hstock, hspares, htaken⟩ := hsupp.spares h.stocked hi hfit
    obtain ⟨hi', hviews⟩ := h.quiet hstock hspares.statics hspares.sub
      (fun x hx => (hspares.spared x hx).2) htaken
    exact Or.inl ⟨live', taken', fl', hi', hviews⟩
  · exact Or.inr hastray

/-- **A page is taken and filled**, and nothing leads to it. -/
theorem filled (h : Isolated L roots S live taken given fl) (hfill : Filled S.mm live a t) :
    Isolated L roots { S with mm := t } ((a, 0) ::ₘ live) taken given fl ∧
      userViews roots t.mem = userViews roots S.mm.mem ∧ ¬IsTable t.mem roots a ∧
      (∀ i, a ∉ taken i) ∧ ∀ o n f, userPages (leafOf t.mem roots) o n ≠ some (a, f) := by
  obtain ⟨s', hnew, hrec, hsame⟩ := id hfill
  have hslab := h.stocked.notMem_taken hnew
  have hstock : Stocked { S with mm := t } ((a, 0) ::ₘ live) taken given fl := by
    have halloc : Stocked { S with mm := s' } ((a, 0) ::ₘ live) taken given fl :=
      h.stocked.alloc hnew rfl rfl
    refine halloc.write hrec rfl fun i pa hpa x hx _ => hsame x ?_
    exact hnew.not_inPage (Or.inr (h.stocked.held i pa hpa)) hx
  obtain ⟨hi, hviews⟩ : Isolated L roots { S with mm := t } ((a, 0) ::ₘ live) taken given fl ∧
      userViews roots t.mem = userViews roots S.mm.mem :=
    h.quiet hstock hfill.statics (Multiset.subset_cons _ _)
      (fun x hx => hfill.same (hfill.not_inPage hx.held)) fun i pa hpa => Or.inl hpa
  refine ⟨hi, hviews, ?_, hslab, ?_⟩
  · intro htable
    exact hnew.ne (h.owned.held a ((hfill.sameTables h.owned).isTable.mp htable)) rfl
  · intro o n f hpage
    rw [hfill.leafOf_eq h.owned] at hpage
    exact hnew.ne (Or.inr (h.userEntry hpage).held) rfl

/-! ### Pages for user code -/

/-- **A page for user code**: it is taken, filled and mapped, or it is lost where `map_page` fails or
something is mapped already. -/
theorem mapUser {ok : Bool} (h : Isolated L roots S live taken given fl)
    (hfill : Filled S.mm live a t) (hroot : roots (some p) = some root)
    (hlow : vpage va < userEndVa / pageSize) (hperm : IsPerm perm) (huser : perm &&& pteU ≠ 0)
    (hwx : perm &&& pteW = 0 ∨ perm &&& pteX = 0)
    (hcall : Mm.mapPage root va a perm t = .ok (ok, s')) :
    ∃ live', Isolated L roots { S with mm := s' } live' taken given fl ∧
      userViews roots s'.mem = if ok then fill (userViews roots S.mm.mem) (some p) {pageNo va}
        (contents t.mem a, mapFlags perm) else userViews roots S.mm.mem := by
  obtain ⟨hi, hviews, htable, hslab, hfresh⟩ := h.filled hfill
  have hpage := hfill.run.isPage (Multiset.mem_cons_self _ _)
  obtain ⟨ok', t', tabs, hcall', hm⟩ := hi.owned.mapPage_cases hroot va hpage.aligned hpage.lt hperm
  obtain ⟨rfl, rfl⟩ := Prod.mk.inj (Except.ok.inj (hcall'.symm.trans hcall))
  have hF := leafOf_respects t.mem roots
  refine ⟨tabs + (a, 0) ::ₘ live, ?_⟩
  by_cases hnew : ok' = true ∧ leafOf t.mem roots (some p) va = none
  · obtain ⟨rfl, hnone⟩ := hnew
    have hpages : userPages (mapLeaf (leafOf t.mem roots) (some p) va a perm) =
        put (userPages (leafOf t.mem roots)) (some p) (pageNo va) (some (a, mapFlags perm)) :=
      userPages_mapLeaf huser hnone
    suffices hall : Isolated L roots { S with mm := t' } (tabs + (a, 0) ::ₘ live) taken given fl ∧
        userViews roots t'.mem =
          view (userPages (mapLeaf (leafOf t.mem roots) (some p) va a perm)) (contents t.mem) by
      refine ⟨hall.1, ?_⟩
      have hview : userViews roots S.mm.mem (some p) (pageNo va) = none := by
        rw [← hviews, hi.userViews_low hlow, hnone]
        rfl
      rw [hall.2, hpages, view_put, if_pos rfl, fill_single hview, ← hviews]
      rfl
    refine hi.remap hm.changed rfl hi.stocked.held ?_ ?_ ?_
    · funext va'
      simp [mapLeaf]
    · intro o va' pa' f hsome
      rcases mapLeaf_cases hF hsome with hold | ⟨rfl, hva, he⟩
      · exact hi.entries o va' pa' f hold
      · obtain ⟨rfl, rfl⟩ := Prod.mk.inj he
        refine Or.inl ⟨by simp, ?_, ⟨perm, hperm, huser, hwx, rfl⟩, Multiset.mem_cons_self _ _, htable,
          hslab⟩
        rw [hva]
        exact hlow
    · rw [hpages]
      exact hi.apart.map hfresh
  · have hleaf : (if ok' then mapLeaf (leafOf t.mem roots) (some p) va a perm
        else leafOf t.mem roots) = leafOf t.mem roots := by
      split
      · next hok => exact mapLeaf_mapped hF fun hnone => hnew ⟨hok, hnone⟩
      · rfl
    obtain ⟨hi', hviews'⟩ : Isolated L roots { S with mm := t' } (tabs + (a, 0) ::ₘ live) taken given fl ∧
        userViews roots t'.mem = userViews roots t.mem :=
      hi.remap (hleaf ▸ hm.changed) rfl hi.stocked.held rfl hi.entries hi.apart
    refine ⟨hi', (hviews'.trans hviews).trans ?_⟩
    split
    · next hok =>
      refine (fill_mapped fun hnone => hnew ⟨hok, ?_⟩).symm
      rw [← hviews, hi.userViews_low hlow] at hnone
      exact Option.map_eq_none_iff.mp hnone
    · rfl

/-- **User code writes** to a page of its own. -/
theorem write {n : PageNo} {f : Nat} (h : Isolated L roots S live taken given fl)
    (hpage : userPages (leafOf S.mm.mem roots) o n = some (pa, f)) (hrec : Snub.SameRecords S.mm S'.mm)
    (hcaches : S'.caches = S.caches) (hsame : ∀ x, ¬InPage pa x → S'.mm.mem x = S.mm.mem x) :
    Isolated L roots S' live taken given fl ∧ userViews roots S'.mm.mem =
      put (userViews roots S.mm.mem) o n (some (contents S'.mm.mem pa, f)) := by
  have hentry := h.userEntry hpage
  have hframe := h.stocked.run.isPage hentry.held
  have hstock : Stocked S' live taken given fl := by
    refine h.stocked.write hrec hcaches fun i q hq x hx _ => hsame x fun hin => ?_
    have heq := hframe.eq_of_inPage (h.stocked.slabs.page i q hq).1 hin hx
    exact hentry.slab i (heq ▸ hq)
  obtain ⟨hi, hviews⟩ := h.keep hstock hrec.statics (Multiset.Subset.refl live)
    (fun q hq x hx => hsame x fun hin => h.notTable_of_inPage hpage hin hq hx) fun i q hq => Or.inl hq
  refine ⟨hi, hviews.trans (h.apart.view_write hpage fun o' n' q f' hpage' hne => ?_)⟩
  funext d
  refine hsame _ fun hin => hne ?_
  have hframe' := h.stocked.run.isPage (h.userEntry hpage').held
  exact hframe'.eq_of_inPage hframe (inPage_add q d) hin

/-- Where there is no table nothing is mapped. -/
theorem leafOf_noRoot (m : Nat → UInt8) (hnone : roots o = none) (va : Nat) :
    leafOf m roots o va = none :=
  lookup_of_nodeAt_none (nodeAt_noRoot hnone _)

/-- **A new table**, for an owner who has none. -/
theorem newTable {mm : Mm} (h : Isolated L roots S live taken given fl)
    (hnone : roots (some p) = none) (hcall : Mm.allocPagetable S.mm = .ok (a, mm)) (hne : a ≠ 0) :
    Isolated L (Function.update roots (some p) (some a)) { S with mm := mm } ((a, 0) ::ₘ live) taken
        given fl ∧
      userViews (Function.update roots (some p) (some a)) mm.mem = userViews roots S.mm.mem := by
  rcases h.stocked.run.allocPage with ⟨hnull, -⟩ | ⟨a', s', hok, -, hnew⟩
  · obtain ⟨rfl, -⟩ := Prod.mk.inj (Except.ok.inj (hnull.symm.trans hcall))
    exact absurd rfl hne
  · obtain ⟨rfl, rfl⟩ := Prod.mk.inj (Except.ok.inj (hok.symm.trans hcall))
    obtain ⟨hi, hviews, htable, hslab, hfresh⟩ := h.filled hnew.filled
    have hzero : ZeroPage s'.mem a' := hnew.zero
    have hleaf : leafOf s'.mem (Function.update roots (some p) (some a')) = leafOf s'.mem roots := by
      funext o va
      rw [leafOf_plant roots (some p) hzero]
      split
      · next hat =>
        rw [hat, leafOf_noRoot _ hnone]
      · rfl
    have htables := isTable_plant roots (some p) hzero hnone
    refine ⟨⟨hi.stocked, hi.owned.plant hzero (Multiset.mem_cons_self _ _) htable hnone, hi.image,
      ?_, ?_, ?_, ?_⟩, ?_⟩
    · rw [hleaf]
      exact hi.kernel
    · intro i pa hpa htable'
      rcases (htables pa).mp htable' with rfl | hold
      · exact hslab i hpa
      · exact hi.slabs i pa hpa hold
    · rw [hleaf]
      intro o va pa f hsome
      refine (hi.entries o va pa f hsome).imp (fun he => { he with table := fun htable' => ?_ }) id
      rcases (htables pa).mp htable' with rfl | hold
      · refine hfresh o (pageNo va) f (userPages_eq_some.mpr ⟨?_, he.user⟩)
        rwa [leafOf_vpage (vpage_pageNo (pageNo va))]
      · exact he.table hold
    · rw [hleaf]
      exact hi.apart
    · rw [userViews, hleaf]
      exact hviews

/-- No object lies in the image. -/
theorem object_above {i : Nat} (h : Isolated L roots S live taken given fl)
    (hp : p ∈ given i) : L.kernelEnd + vaOffsetConst ≤ p := by
  obtain ⟨pa, hpa, d, -, hphys, -⟩ := h.stocked.exists_page hp
  obtain ⟨hlo, hhi⟩ := h.stocked.object_bounds hp
  have hbase := (h.stocked.slabs.page i pa hpa).2
  have himage := h.image
  rw [virtToPhys, h.stocked.upper, sub64_of_le hlo hhi] at hphys
  omega

end Isolated

end SystemN
