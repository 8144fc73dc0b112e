/-
What both allocators leave alone.

`alloc_page` clears a page that was free.  `kzalloc` clears an object that was free, or cuts up a
page that was and clears one of its objects.  So a byte that is in no free page and in no free
object keeps its value: one of the table of the kernel, or one of a binary that lies in the image
or in memory its owner has not given back.
-/
import SystemN.Proofs.Mm.Stock
import SystemN.Proofs.Mm.Settled

namespace SystemN

open Mm

/-- The allocators do not give out the byte: it is in no free page and in no free object. -/
structure Spared (S : Snub) (live : Multiset (Nat × Nat)) (fl : Nat → List Nat) (x : Nat) :
    Prop where
  held : HeldAt S.mm live x
  object : ∀ i, ∀ q ∈ fl i, q ≤ x + S.mm.vaOffset → q + Snub.classSize i ≤ x + S.mm.vaOffset

/-- Calls of the allocators have taken `n` pages at most, and no byte that they do not give out has
been written. -/
structure Spares (n : Nat) (S : Snub) (live : Multiset (Nat × Nat)) (fl : Nat → List Nat) (S' : Snub)
    (live' : Multiset (Nat × Nat)) (fl' : Nat → List Nat) : Prop where
  statics : SameStatics S.mm S'.mm
  sub : live ⊆ live'
  spared : ∀ x, Spared S live fl x → Spared S' live' fl' x ∧ S'.mm.mem x = S.mm.mem x
  spent : Mm.freeCount S.mm ≤ Mm.freeCount S'.mm + n

section

variable {S S₁ S' : Snub} {live live₁ live' : Multiset (Nat × Nat)}
  {taken given fl fl₁ fl' taken' given' : Nat → List Nat} {i p pa x : Nat} {mm : Mm}

theorem Spares.trans {k l : Nat} (h : Spares k S live fl S₁ live₁ fl₁)
    (h' : Spares l S₁ live₁ fl₁ S' live' fl') : Spares (k + l) S live fl S' live' fl' where
  statics := h.statics.trans h'.statics
  sub _ hB := h'.sub (h.sub hB)
  spared x hx := by
    obtain ⟨hx₁, hsame⟩ := h.spared x hx
    obtain ⟨hx', hsame'⟩ := h'.spared x hx₁
    exact ⟨hx', hsame'.trans hsame⟩
  spent := by
    have hle := h.spent
    have hle' := h'.spent
    omega

/-- With no fewer blocks and no more free objects nothing more is given out. -/
theorem Spared.mono (h : Spared S live fl x) (hst : SameStatics S.mm S'.mm) (hsub : live ⊆ live')
    (hfl : ∀ i, ∀ q ∈ fl' i, q ∈ fl i) : Spared S' live' fl' x where
  held := h.held.mono hst hsub
  object i q hq := by
    rw [hst.vaOffset]
    exact h.object i q (hfl i q hq)

namespace Stocked

open Snub

/-! ### Pages -/

/-- An object is made of bytes of a page that the caches have taken. -/
theorem object_inPage (h : Stocked S live taken given fl) {q : Nat} (hq : q ∈ fl i ++ given i)
    (hlo : q ≤ x + S.mm.vaOffset) (hhi : x + S.mm.vaOffset < q + classSize i) :
    ∃ pa ∈ taken i, InPage pa x := by
  obtain ⟨pa, hpa, j, hj, rfl⟩ := h.slabs.exists_objAt hq
  exact ⟨pa, hpa, objAt_inPage (h.slabs.classes i pa hpa) hj hlo hhi⟩

/-- **`alloc_page`** for other uses than those of the caches. -/
theorem alloc_spares (h : Stocked S live taken given fl) (hnew : NewPage S.mm live pa mm) :
    Spares 1 S live fl { S with mm := mm } ((pa, 0) ::ₘ live) fl ∧
      ∀ x, InPage pa x → Spared { S with mm := mm } ((pa, 0) ::ₘ live) fl x := by
  have hnot : ∀ {x}, HeldAt S.mm live x → ¬InPage pa x := fun hx =>
    hx.not_inPage hnew.statics hnew.run (Multiset.Subset.refl live)
  refine ⟨⟨hnew.statics, Multiset.subset_cons _ _, fun x hx => ⟨?_, ?_⟩, ?_⟩, fun x hx => ⟨?_, ?_⟩⟩
  · exact hx.mono hnew.statics (Multiset.subset_cons _ _) fun _ _ hq => hq
  · exact hnew.same x (hnot hx.held)
  · exact (hnew.freeCount h.run).ge
  · exact Or.inr (Or.inr ⟨(pa, 0), Multiset.mem_cons_self _ _, inBlock_page.mpr hx⟩)
  · intro i q hq hlo
    by_contra hhi
    change ¬q + classSize i ≤ x + mm.vaOffset at hhi
    change q ≤ x + mm.vaOffset at hlo
    rw [hnew.statics.vaOffset] at hlo hhi
    obtain ⟨pa', hpa', hx'⟩ := h.object_inPage (List.mem_append_left _ hq) hlo (Nat.not_le.mp hhi)
    have hheld : Held S.mm live pa' := Or.inr (h.held i pa' hpa')
    exact hnot (hheld.heldAt hx') hx

/-! ### Objects -/

/-- A free object was free before, or it lies in the page that has been taken. -/
theorem free_of_refill (h : Stocked S live taken given fl)
    (h' : Stocked S' live' (Function.update taken i (pa :: taken i))
      (Function.update given i (p :: given i)) fl') (hst : SameStatics S.mm S'.mm) {k q : Nat}
    (hq : q ∈ fl' k) : q ∈ fl k ∨ ∃ j < perPage k, q = objAt S.mm.vaOffset pa k j := by
  obtain ⟨pa', hpa', j, hj, hat⟩ := h'.slabs.exists_objAt (List.mem_append_left _ hq)
  rw [hst.vaOffset] at hat
  rcases (mem_record taken i k pa pa').mp hpa' with ⟨-, rfl⟩ | hold
  · exact Or.inr ⟨j, hj, hat⟩
  · have hobj : q ∈ fl k ++ given k :=
      (h.slabs.objs k).mem_iff.mpr (List.mem_flatMap.mpr ⟨pa', hold, mem_pageObjs.mpr ⟨j, hj, hat⟩⟩)
    refine Or.inl ((List.mem_append.mp hobj).resolve_right fun hgiven => ?_)
    have hgiven' : q ∈ Function.update given i (p :: given i) k := by
      by_cases hk : k = i
      · subst hk
        rw [Function.update_self]
        exact List.mem_cons_of_mem p hgiven
      · rwa [Function.update_of_ne hk]
    exact (List.nodup_append'.mp (h'.slabs.objs_nodup k)).2.2 hq hgiven'

/-- The object that is supplied was free, or it lies in a page that was. -/
theorem Supplied.spares {size : Nat} (h : Stocked S live taken given fl) (hi : i ≤ 8)
    (hsupp : Supplied S live taken given fl size i p S') (hfit : size ≤ classSize i) :
    ∃ live' taken' fl', Stocked S' live' taken' (Function.update given i (p :: given i)) fl' ∧
      Spares 1 S live fl S' live' fl' ∧ ∀ k, ∀ q ∈ taken' k, q ∈ taken k ∨ ¬Held S.mm live q := by
  cases hsupp with
  | @pop p rest S' hfl hstock hrec hmem =>
      have hfree : ∀ k, ∀ q ∈ Function.update fl i rest k, q ∈ fl k := by
        intro k q hq
        by_cases hk : k = i
        · subst hk
          rw [Function.update_self] at hq
          rw [hfl]
          exact List.mem_cons_of_mem p hq
        · rwa [Function.update_of_ne hk] at hq
      have hobj : p ∈ fl i := hfl ▸ List.mem_cons_self
      obtain ⟨pa, hpa, j, hj, hat⟩ := h.slabs.exists_objAt (List.mem_append_left _ hobj)
      have hphys := virtToPhys_objAt (h.slabs.page i pa hpa).1 hi hj h.slabs.space (s := S) rfl
      rw [← hat] at hphys
      refine ⟨live, taken, _, hstock, ⟨hrec.statics, Multiset.Subset.refl live,
        fun x hx => ⟨hx.mono hrec.statics (Multiset.Subset.refl live) hfree, ?_⟩,
        hrec.freeCount.ge.trans (Nat.le_add_right _ _)⟩, fun k q hq => Or.inl hq⟩
      rw [hmem, hphys]
      refine if_neg fun hin => ?_
      have hge := hx.object i p hobj
      unfold objAt at hat
      omega
  | @refill j pa mm fl' S' hempty hj hne hnew hstock hon hzero =>
      have hst := hnew.statics.trans hon.statics
      refine ⟨_, _, _, hstock, ⟨hst, Multiset.subset_cons _ _, fun x hx => ?_, ?_⟩,
        fun k q hq => ?_⟩
      · have hnot : ¬InPage pa x :=
          hx.held.not_inPage hnew.statics hnew.run (Multiset.Subset.refl live)
        refine ⟨⟨hx.held.mono hst (Multiset.subset_cons _ _), fun k q hq => ?_⟩, ?_⟩
        · rw [hst.vaOffset]
          rcases h.free_of_refill hstock hst hq with hold | ⟨j', hj', rfl⟩
          · exact hx.object k q hold
          · intro hlo
            by_contra hhi
            have hk : k ≤ 8 := by
              obtain ⟨pa', hpa', -⟩ := hstock.slabs.exists_objAt (List.mem_append_left _ hq)
              exact hstock.slabs.classes k pa' hpa'
            exact hnot (objAt_inPage hk hj' hlo (Nat.not_le.mp hhi))
        · exact (hon.same x hnot).trans (hnew.same x hnot)
      · rw [freeCount_congr hon.pages hon.lists]
        exact (hnew.freeCount h.run).ge
      · rcases (mem_record taken i k pa q).mp hq with ⟨-, rfl⟩ | hold
        · exact Or.inr fun hheld => hnew.ne hheld rfl
        · exact Or.inl hold

/-- **`kzalloc`**: an object that is now given out, or no page was free. -/
theorem kzalloc_spares {size : Nat} (h : Stocked S live taken given fl)
    (hclass : sizeToIdx size = some i) :
    ∃ p S', S.kzalloc size = .ok (p, S') ∧ p ≠ 0 ∧
      ((∃ live' taken' given' fl', Stocked S' live' taken' given' fl' ∧ p ∈ given' i ∧
        Spares 1 S live fl S' live' fl' ∧ ∀ k, ∀ q ∈ taken' k, q ∈ taken k ∨ ¬Held S.mm live q) ∨
        Astray S i p S') := by
  obtain ⟨hi, hfit, -⟩ := sizeToIdx_some hclass
  obtain ⟨p, S', hcall, hp, hsupp | hast⟩ := h.kzalloc hclass
  · obtain ⟨live', taken', fl', hstock, hspares, htaken⟩ := hsupp.spares h hi hfit
    refine ⟨p, S', hcall, hp, Or.inl ⟨live', taken', _, fl', hstock, ?_, hspares, htaken⟩⟩
    rw [Function.update_self]
    exact List.mem_cons_self
  · exact ⟨p, S', hcall, hp, Or.inr hast⟩

/-- An object lies in the kernel's part of the address space. -/
theorem object_bounds (h : Stocked S live taken given fl) (hp : p ∈ given i) :
    vaOffsetConst ≤ p ∧ p < 2 ^ 64 := by
  obtain ⟨pa, hpa, j, hj, rfl⟩ := h.slabs.exists_objAt (List.mem_append_right _ hp)
  refine ⟨?_, objAt_lt (h.slabs.page i pa hpa).1 (h.slabs.classes i pa hpa) hj h.slabs.space⟩
  rw [h.upper]
  exact Nat.le_add_left _ _

end Stocked

/-! ### A table beside the caches -/

/-- The table at `root` has no byte of a page that the caches have taken. -/
structure Beside (root : Nat) (S : Snub) (live : Multiset (Nat × Nat)) (taken given fl : Nat → List Nat) :
    Prop where
  stocked : Stocked S live taken given fl
  settled : ∀ i, ∀ pa ∈ taken i, ∀ x, InPage pa x → Settled (theRoot root) S.mm live x

/-- While the table grows, the caches keep what they have, and nothing else is given out. -/
theorem Beside.kept {root c : Nat} (h : Beside root S live taken given fl)
    (hk : Kept (theRoot root) c S.mm live S'.mm live') (hcaches : S'.caches = S.caches) :
    Beside root S' live' taken given fl ∧ ∀ x, Spared S live fl x → Spared S' live' fl x := by
  have hst := hk.statics
  refine ⟨⟨⟨hk.owned.run, ?_, fun i pa hpa => hk.sub (h.stocked.held i pa hpa), ?_, ?_⟩,
    fun i pa hpa x hx => (hk.settled x (h.settled i pa hpa x hx)).1⟩, fun x hx => ?_⟩
  · exact h.stocked.slabs.keepsFree hst hcaches fun i pa hpa x hx _ =>
      (hk.settled x (h.settled i pa hpa x hx)).2
  · rw [hst.base]
    exact h.stocked.start_le
  · rw [hst.vaOffset]
    exact h.stocked.upper
  · exact hx.mono hst hk.sub fun _ _ hq => hq

end

end SystemN
