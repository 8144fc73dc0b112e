/-
What the callers of the page allocator leave of its variables.

As in `Proofs.Mm.Frame` nothing is supposed of the tables, and nothing of the free lists of the
caches.  A call that comes back has kept the statics of `mem.c`, because nothing but the boot
writes them.  Where no page is free, `map_page` comes back whatever the table holds, and has
kept the records too.
-/
import SystemN.Proofs.Mm.Walk
import SystemN.Proofs.Mm.Slab

namespace SystemN

open Mm

namespace Mm

variable {s s' : Mm}

theorem walkLoop_statics {va level pagetable pte : Nat} {alloc : Bool}
    (h : walkLoop Mm.allocPage va alloc level pagetable s = .ok (pte, s')) : SameStatics s s' := by
  induction level generalizing pagetable s with
  | zero =>
      obtain ⟨-, rfl⟩ := Prod.mk.inj (Except.ok.inj h)
      exact SameStatics.refl s
  | succ level ih =>
      have hderef : ∀ a, SameStatics s (s.deref a 8) := fun _ => ⟨rfl, rfl, rfl, rfl⟩
      rw [walkLoop] at h
      dsimp only at h
      split at h
      · exact (hderef _).trans (ih h)
      · split at h
        · obtain ⟨-, rfl⟩ := Prod.mk.inj (Except.ok.inj h)
          exact hderef _
        · obtain ⟨⟨newPg, t⟩, halloc, h⟩ := bind_eq_ok.mp h
          have ht := (hderef _).trans (allocPages_frame halloc).statics
          dsimp only at h
          split at h
          · obtain ⟨-, rfl⟩ := Prod.mk.inj (Except.ok.inj h)
            exact ht
          · exact ht.trans ((Later.storePte t _ _).statics.trans (ih h))

theorem mapPage_statics {pagetable va pa perm : Nat} {ok : Bool}
    (h : s.mapPage pagetable va pa perm = .ok (ok, s')) : SameStatics s s' := by
  obtain ⟨⟨pte, t⟩, hwalk, h⟩ := bind_eq_ok.mp h
  have ht := walkLoop_statics hwalk
  have hderef : SameStatics t (t.deref pte 8) := ⟨rfl, rfl, rfl, rfl⟩
  dsimp only at h
  split at h
  · obtain ⟨-, rfl⟩ := Prod.mk.inj (Except.ok.inj h)
    exact ht
  · split at h
    · obtain ⟨-, rfl⟩ := Prod.mk.inj (Except.ok.inj h)
      exact ht.trans (hderef.trans (Later.storePte _ _ _).statics)
    · obtain ⟨-, rfl⟩ := Prod.mk.inj (Except.ok.inj h)
      exact ht.trans hderef

section NoPage

variable {live : Multiset (Nat × Nat)}

/-- Without a free page `walk` ends where it would need one. -/
theorem walkLoop_noPage (hi : RunInv s live) (hnone : NoPage s) (va level pagetable : Nat) :
    ∃ pte s', walkLoop Mm.allocPage va true level pagetable s = .ok (pte, s') ∧
      Snub.SameRecords s s' := by
  induction level generalizing pagetable s with
  | zero => exact ⟨_, s, rfl, Snub.SameRecords.refl s⟩
  | succ level ih =>
      have hderef : ∀ a, Snub.SameRecords s (s.deref a 8) := fun _ => ⟨⟨rfl, rfl, rfl, rfl⟩, rfl, rfl⟩
      have hnull : ∀ a, (s.deref a 8).allocPage = .ok (0, s.deref a 8) := fun a =>
        ((hderef a).runInv hi).allocPage_noPage ((hderef a).noPage hnone)
      rw [walkLoop]
      dsimp only
      split
      · obtain ⟨pte, s', hwalk, hrec⟩ := ih ((hderef _).runInv hi) ((hderef _).noPage hnone) _
        exact ⟨pte, s', hwalk, (hderef _).trans hrec⟩
      · rw [hnull, ok_bind]
        exact ⟨0, _, rfl, hderef _⟩

theorem mapPage_noPage (hi : RunInv s live) (hnone : NoPage s) (pagetable va pa perm : Nat) :
    ∃ ok s', s.mapPage pagetable va pa perm = .ok (ok, s') ∧ Snub.SameRecords s s' := by
  obtain ⟨pte, t, hwalk, hrec⟩ := walkLoop_noPage hi hnone va 2 (s.physToVirt pagetable)
  have hderef : Snub.SameRecords t (t.deref pte 8) := ⟨⟨rfl, rfl, rfl, rfl⟩, rfl, rfl⟩
  unfold mapPage mapPageWith walk
  dsimp only
  rw [hwalk, ok_bind]
  dsimp only
  split
  · exact ⟨false, t, rfl, hrec⟩
  · split
    · exact ⟨true, _, rfl, hrec.trans (hderef.trans ⟨⟨rfl, rfl, rfl, rfl⟩, rfl, rfl⟩)⟩
    · exact ⟨true, _, rfl, hrec.trans hderef⟩

end NoPage

theorem foldlM_statics {f : Mm → Nat → Except Stop Mm}
    (hf : ∀ t i t', f t i = .ok t' → SameStatics t t') (l : List Nat)
    (h : l.foldlM f s = .ok s') : SameStatics s s' := by
  induction l generalizing s with
  | nil =>
      obtain rfl := Except.ok.inj h
      exact SameStatics.refl s
  | cons i l ih =>
      rw [List.foldlM_cons] at h
      obtain ⟨t, hstep, h⟩ := bind_eq_ok.mp h
      exact (hf s i t hstep).trans (ih h)

/-- **`free_pagetable` ends in `free_page`** of the moved address, whatever the table holds. -/
theorem freePagetableLoop_last {fuel pagetable : Nat}
    (h : freePagetableLoop fuel pagetable s = .ok s') :
    ∃ t, SameStatics s t ∧ t.freePage (s.physToVirt pagetable) = .ok s' := by
  induction fuel generalizing pagetable s s' with
  | zero => cases h
  | succ fuel ih =>
      obtain ⟨t, hloop, hlast⟩ := bind_eq_ok.mp h
      refine ⟨t, foldlM_statics ?_ _ hloop, hlast⟩
      intro t i t' hround
      have hderef : ∀ a, SameStatics t (t.deref a 8) := fun _ => ⟨rfl, rfl, rfl, rfl⟩
      dsimp only at hround
      split at hround
      · obtain ⟨t₁, hst, hfree⟩ := ih hround
        exact (hderef _).trans (hst.trans (freePages_frame hfree).1.statics)
      · rw [← Except.ok.inj hround]
        exact hderef _

end Mm

namespace Snub

variable {s s' : Snub} {size p : Nat}

theorem threadObjs_statics (page objectSize n : Nat) : ∀ (j head : Nat) (s : Snub),
    SameStatics s.mm (threadObjs page objectSize n j head s).2.mm := by
  induction n with
  | zero => exact fun _ _ s => SameStatics.refl s.mm
  | succ n ih => exact fun j head s => (storePtr_statics s _ head).trans (ih (j + 1) _ _)

theorem refill_statics {i : Nat} {ok : Bool} (h : s.refill i = .ok (ok, s')) :
    SameStatics s.mm s'.mm := by
  obtain ⟨⟨pa, mm⟩, halloc, h⟩ := bind_eq_ok.mp h
  have hst : SameStatics s.mm mm := (allocPages_frame halloc).statics
  dsimp only at h
  split at h
  · obtain ⟨-, rfl⟩ := Prod.mk.inj (Except.ok.inj h)
    exact hst
  · obtain ⟨-, rfl⟩ := Prod.mk.inj (Except.ok.inj h)
    exact hst.trans (threadObjs_statics _ _ _ 0 0 { s with mm := mm })

theorem kmalloc_statics (h : s.kmalloc size = .ok (p, s')) : SameStatics s.mm s'.mm := by
  have hpop : ∀ (t : Snub) i, SameStatics t.mm (t.popObj i).2.mm := fun _ _ => ⟨rfl, rfl, rfl, rfl⟩
  cases hclass : sizeToIdx size with
  | none =>
      unfold kmalloc at h
      rw [hclass] at h
      obtain ⟨-, rfl⟩ := Prod.mk.inj (Except.ok.inj h)
      exact SameStatics.refl s.mm
  | some i =>
      by_cases hempty : (s.caches i).partialList = 0
      · cases hrefill : s.refill i with
        | error e =>
            unfold kmalloc at h
            rw [hclass] at h
            dsimp only at h
            rw [if_pos hempty, hrefill] at h
            cases h
        | ok r =>
            obtain ⟨ok, t⟩ := r
            have hst := refill_statics hrefill
            rw [kmalloc_of_refill hclass hempty hrefill] at h
            cases ok with
            | false =>
                obtain ⟨-, rfl⟩ := Prod.mk.inj (Except.ok.inj h)
                exact hst
            | true =>
                obtain ⟨-, rfl⟩ := Prod.mk.inj (Except.ok.inj h)
                exact hst.trans (hpop t i)
      · rw [kmalloc_of_ne hclass hempty] at h
        obtain ⟨-, rfl⟩ := Prod.mk.inj (Except.ok.inj h)
        exact hpop s i

theorem kzalloc_statics (h : s.kzalloc size = .ok (p, s')) : SameStatics s.mm s'.mm := by
  obtain ⟨⟨q, t⟩, hmalloc, h⟩ := bind_eq_ok.mp h
  have ht := kmalloc_statics hmalloc
  dsimp only at h
  split at h
  · obtain ⟨-, rfl⟩ := Prod.mk.inj (Except.ok.inj h)
    exact ht
  · obtain ⟨m, -, h⟩ := bind_eq_ok.mp h
    obtain ⟨-, rfl⟩ := Prod.mk.inj (Except.ok.inj h)
    exact ht.trans ⟨rfl, rfl, rfl, rfl⟩

end Snub

end SystemN
