/-
What a growing page table leaves alone.

`map_page` writes into the tables of one owner, and the pages it adds to them were free.  So a
byte that is in no free page and in none of these tables keeps its value however far they
grow: a byte of a frame that was handed out before, of the table of another owner, or of the
image below the managed pages.  The bytes of a page that is handed out for other uses become such
bytes, whatever is written there first.
-/
import SystemN.Proofs.Mm.Slab

namespace SystemN.Mm

open Radix

variable {s s' s₁ t : Mm} {live live' live₁ rest : Multiset (Nat × Nat)} {a n root x : Nat}

/-! ### Bytes that are not given out -/

/-- The byte is in no free page: it lies outside the managed pages, or in a block handed out. -/
def HeldAt (s : Mm) (live : Multiset (Nat × Nat)) (x : Nat) : Prop :=
  x < s.buddyBasePhys ∨ s.buddyBasePhys + s.numPages * pageSize ≤ x ∨ ∃ B ∈ live, InBlock B x

theorem HeldAt.mono (h : HeldAt s live x) (hst : SameStatics s s') (hsub : live ⊆ live') :
    HeldAt s' live' x := by
  unfold HeldAt
  rw [hst.base, hst.numPages]
  exact h.imp_right (Or.imp_right fun ⟨B, hB, hx⟩ => ⟨B, hsub hB, hx⟩)

theorem Held.heldAt (h : Held s live n) (hx : InPage n x) : HeldAt s live x := by
  rcases h with hbelow | hmem
  · exact Or.inl (hx.2.trans_le hbelow)
  · exact Or.inr (Or.inr ⟨(n, 0), hmem, inBlock_page.mpr hx⟩)

/-- No page that is handed out later has the byte. -/
theorem HeldAt.not_inPage (h : HeldAt s live x) (hst : SameStatics s s')
    (hrun : RunInv s' ((a, 0) ::ₘ rest)) (hsub : live ⊆ rest) : ¬InPage a x := by
  have hmem : (a, 0) ∈ (a, 0) ::ₘ rest := Multiset.mem_cons_self _ _
  have hfits := hrun.fits hmem
  have haddr := hrun.addr_of_pageIdx hmem
  have hbase := hrun.base_le hmem
  rw [hst.base, hst.numPages] at *
  intro ha
  rcases h with hbelow | habove | ⟨B, hB, hx⟩
  · exact absurd (hbelow.trans_le hbase) (Nat.not_lt.mpr ha.1)
  · have hle := Nat.mul_le_mul_right pageSize hfits
    rw [Nat.add_mul, pow_zero, Nat.one_mul] at hle
    have hlt := ha.2
    dsimp only at haddr hle
    omega
  · exact hrun.disjoint (hsub hB) (inBlock_page.mpr ha) hx

section Tables

variable {ω : Type} {roots : ω → Option Nat} {o : ω}

/-- The tables of `roots` do not have the byte, and they do not get it when they grow. -/
structure Settled (roots : ω → Option Nat) (s : Mm) (live : Multiset (Nat × Nat)) (x : Nat) :
    Prop where
  held : HeldAt s live x
  apart : ∀ n, IsTable s.mem roots n → ¬InPage n x

/-- The tables of `roots` have grown by `n` pages at most, or pages have been handed out for other
uses. -/
structure Kept (roots : ω → Option Nat) (n : Nat) (s : Mm) (live : Multiset (Nat × Nat)) (s' : Mm)
    (live' : Multiset (Nat × Nat)) : Prop where
  owned : Owned roots s' live'
  statics : SameStatics s s'
  sub : live ⊆ live'
  settled : ∀ x, Settled roots s live x → Settled roots s' live' x ∧ s'.mem x = s.mem x
  spent : Mm.freeCount s ≤ Mm.freeCount s' + n

theorem Kept.refl (h : Owned roots s live) : Kept roots 0 s live s live where
  owned := h
  statics := SameStatics.refl s
  sub := Multiset.Subset.refl live
  settled _ hx := ⟨hx, rfl⟩
  spent := Nat.le_refl _

theorem Kept.trans {k l : Nat} (h : Kept roots k s live s₁ live₁)
    (h' : Kept roots l s₁ live₁ s' live') : Kept roots (k + l) s live s' live' where
  owned := h'.owned
  statics := h.statics.trans h'.statics
  sub _ hB := h'.sub (h.sub hB)
  settled x hx := by
    obtain ⟨hx₁, hsame⟩ := h.settled x hx
    obtain ⟨hx', hsame'⟩ := h'.settled x hx₁
    exact ⟨hx', hsame'.trans hsame⟩
  spent := by
    have hle := h.spent
    have hle' := h'.spent
    omega

theorem Kept.weaken {k l : Nat} (h : Kept roots k s live s' live') (hle : k ≤ l) :
    Kept roots l s live s' live' :=
  { h with spent := h.spent.trans (Nat.add_le_add_left hle _) }

/-- Without a page left, there were not more than have been taken. -/
theorem Kept.freeCount_le {k : Nat} (h : Kept roots k s live s' live') (hnone : NoPage s') :
    freeCount s ≤ k := by
  have hspent := h.spent
  rwa [h.owned.run.freeCount_of_noPage hnone, Nat.zero_add] at hspent

/-- Accesses that only read. -/
theorem Owned.kept_of_traced (h : Owned roots s live) (htr : Traced s s') :
    Kept roots 0 s live s' live := by
  obtain ⟨d, rfl⟩ := htr
  have hrun : RunInv { s with derefs := d ++ s.derefs } live := h.run.congr ⟨rfl, rfl, rfl, rfl⟩ rfl rfl
  exact ⟨⟨hrun, h.inSpace, h.tables, h.held⟩, ⟨rfl, rfl, rfl, rfl⟩, Multiset.Subset.refl live,
    fun _ hx => ⟨⟨hx.held, hx.apart⟩, rfl⟩, (freeCount_congr rfl rfl).ge⟩

/-- The tables of another owner are made of such bytes. -/
theorem Kept.sameTables {ρ : Type} {others : ρ → Option Nat} {k : Nat}
    (h : Kept roots k s live s' live')
    (hsettled : ∀ n, IsTable s.mem others n → ∀ x, InPage n x → Settled roots s live x) :
    SameTables s.mem s'.mem others :=
  fun n hn x hx => (h.settled x (hsettled n hn x hx)).2

/-! ### `map_page` -/

theorem Changed.kept {tabs : Multiset (Nat × Nat)} {F : ω → Nat → Option (Nat × Nat)}
    (h : Changed roots s live s' tabs F)
    (hcount : Mm.freeCount s' + Multiset.card tabs = Mm.freeCount s) :
    Kept roots (Multiset.card tabs) s live s' (tabs + live) where
  owned := h.owned
  statics := h.statics
  sub := Multiset.subset_of_le (Multiset.le_add_left live tabs)
  settled x hx := by
    have hsub : live ⊆ tabs + live := Multiset.subset_of_le (Multiset.le_add_left live tabs)
    have hapart : ∀ n, IsTable s'.mem roots n → ¬InPage n x := by
      intro n hn
      rcases (h.isTable n).mp hn with hold | hnew
      · exact hx.apart n hold
      · obtain ⟨tabs', rfl⟩ := Multiset.exists_cons_of_mem hnew
        have hrun := h.owned.run
        rw [Multiset.cons_add] at hrun
        exact hx.held.not_inPage h.statics hrun
          (Multiset.subset_of_le (Multiset.le_add_left live tabs'))
    exact ⟨⟨hx.held.mono h.statics hsub, hapart⟩, h.same x hapart⟩
  spent := hcount.ge

theorem pa2pte_round (pa : Nat) : pa2pte (pa / pageSize * pageSize) = pa2pte pa := by
  simp only [pa2pte, u64, pageShift, pageSize, Nat.shiftRight_eq_div_pow, Nat.shiftLeft_eq]
  omega

/-- `map_page` looks at the page of the address that it is given. -/
theorem mapPage_round (root va pa perm : Nat) (s : Mm) :
    Mm.mapPage root va (pa / pageSize * pageSize) perm s = Mm.mapPage root va pa perm s := by
  unfold Mm.mapPage mapPageWith
  rw [pa2pte_round]

variable [DecidableEq ω]

/-- **`map_page`** keeps what is settled. -/
theorem Owned.mapPage_kept (h : Owned roots s live) (hroot : roots o = some root) (va : Nat)
    {pa perm : Nat} (hlt : pa < 2 ^ 56) (hperm : IsPerm perm) :
    ∃ ok s' live', Mm.mapPage root va pa perm s = .ok (ok, s') ∧ Kept roots 2 s live s' live' ∧
      (ok = false → NoPage s') ∧
      ∀ o' va', leafOf s'.mem roots o' va' =
        (if ok then mapLeaf (leafOf s.mem roots) o va (pa / pageSize * pageSize) perm
          else leafOf s.mem roots) o' va' := by
  have hle : pa / pageSize * pageSize < 2 ^ 56 := (Nat.div_mul_le_self _ _).trans_lt hlt
  obtain ⟨ok, s', tabs, hcall, hm⟩ :=
    h.mapPage_cases hroot va (Nat.mul_mod_left _ _) hle hperm
  rw [mapPage_round] at hcall
  exact ⟨ok, s', _, hcall, (hm.changed.kept (hm.freeCount h.run)).weaken hm.few,
    fun hok => (hm.failed hok).1, hm.changed.leaf⟩

omit [DecidableEq ω]

/-! ### A page for other uses -/

/-- A page has been handed out, and bytes of it have been written. -/
def Filled (s : Mm) (live : Multiset (Nat × Nat)) (a : Nat) (t : Mm) : Prop :=
  ∃ s', NewPage s live a s' ∧ Snub.SameRecords s' t ∧ ∀ x, ¬InPage a x → t.mem x = s'.mem x

theorem Filled.statics (h : Filled s live a t) : SameStatics s t := by
  obtain ⟨s', hnew, hrec, -⟩ := h
  exact hnew.statics.trans hrec.statics

theorem Filled.same (h : Filled s live a t) (hx : ¬InPage a x) : t.mem x = s.mem x := by
  obtain ⟨s', hnew, -, hsame⟩ := h
  exact (hsame x hx).trans (hnew.same x hx)

theorem Filled.run (h : Filled s live a t) : RunInv t ((a, 0) ::ₘ live) := by
  obtain ⟨s', hnew, hrec, -⟩ := h
  exact hrec.runInv hnew.run

theorem Filled.not_inPage (h : Filled s live a t) (hx : HeldAt s live x) : ¬InPage a x :=
  hx.not_inPage h.statics h.run (Multiset.Subset.refl live)

theorem Filled.sameTables (h : Filled s live a t) (ho : Owned roots s live) :
    SameTables s.mem t.mem roots :=
  fun n hn _ hx => h.same (h.not_inPage ((ho.held n hn).heldAt hx))

theorem Filled.leafOf_eq (h : Filled s live a t) (ho : Owned roots s live) :
    leafOf t.mem roots = leafOf s.mem roots := by
  funext o va
  exact (h.sameTables ho).leafOf o va

theorem Filled.kept (h : Filled s live a t) (ho : Owned roots s live) :
    Kept roots 1 s live t ((a, 0) ::ₘ live) where
  owned := by
    have hsame := h.sameTables ho
    refine ⟨h.run, ho.inSpace.congr h.statics, ho.tables.congr hsame, fun n hn => ?_⟩
    exact (ho.held n (hsame.isTable.mp hn)).mono h.statics (Multiset.subset_cons _ _)
  statics := h.statics
  sub := Multiset.subset_cons _ _
  settled x hx := by
    refine ⟨⟨hx.held.mono h.statics (Multiset.subset_cons _ _), fun n hn => ?_⟩,
      h.same (h.not_inPage hx.held)⟩
    exact hx.apart n ((h.sameTables ho).isTable.mp hn)
  spent := by
    obtain ⟨s', hnew, hrec, -⟩ := h
    rw [hrec.freeCount]
    exact (hnew.freeCount ho.run).ge

/-- From now on the page is settled. -/
theorem Filled.settled (h : Filled s live a t) (ho : Owned roots s live) (hx : InPage a x) :
    Settled roots t ((a, 0) ::ₘ live) x where
  held := Or.inr (Or.inr ⟨(a, 0), Multiset.mem_cons_self _ _, inBlock_page.mpr hx⟩)
  apart n hn hnx := by
    have hold := (h.sameTables ho).isTable.mp hn
    exact h.not_inPage ((ho.held n hold).heldAt hnx) hx

theorem NewPage.filled (h : NewPage s live a s') : Filled s live a s' :=
  ⟨s', h, Snub.SameRecords.refl s', fun _ _ => rfl⟩

end Tables

end SystemN.Mm
