/-
Frames that are freed one after another.

Between two calls of `free_page` a loop that unmaps pages reads and writes its tables.  The
allocator does not see that: from states with the same records and the same lists
`free_pages` comes to such states again, or to the same stop.  So the frees of a loop are
those of the frames in their order, and nothing else needs to be known about the loop.
-/
import SystemN.Proofs.Mm.Unmap
import SystemN.Proofs.Mm.Halt

namespace SystemN.Mm

variable {s s' t t' : Mm} {live : Multiset (Nat × Nat)} {fs : List Nat}

/-! ### States the allocator cannot tell apart -/

/-- Both calls come back, with answers in this relation, or both stop in the same way. -/
inductive Alike {α : Type} (R : α → α → Prop) : Except Stop α → Except Stop α → Prop where
  | ok {a b : α} (h : R a b) : Alike R (.ok a) (.ok b)
  | error (e : Stop) : Alike R (.error e) (.error e)

theorem Alike.bind {α β : Type} {R : α → α → Prop} {R' : β → β → Prop} {x y : Except Stop α}
    {f g : α → Except Stop β} (h : Alike R x y) (hfg : ∀ a b, R a b → Alike R' (f a) (g b)) :
    Alike R' (x >>= f) (y >>= g) := by
  cases h with
  | ok h => exact hfg _ _ h
  | error e => exact .error e

theorem Alike.same {α : Type} (x : Except Stop α) : Alike Eq x x := by
  cases x with
  | ok a => exact .ok rfl
  | error e => exact .error e

namespace SameAllocator

theorem getPageStruct (h : SameAllocator s t) (pa : Nat) : t.getPageStruct pa = s.getPageStruct pa := by
  rw [Mm.getPageStruct, Mm.getPageStruct, h.statics.base, h.statics.numPages]

theorem derefPage (h : SameAllocator s t) (off i : Nat) :
    SameAllocator (s.derefPage off i) (t.derefPage off i) :=
  ⟨⟨h.statics.vaOffset, h.statics.base, h.statics.numPages, h.statics.pageArray⟩, h.pages, h.freeLists⟩

theorem setPage (h : SameAllocator s t) (i : Nat) (p : Page) :
    SameAllocator (s.setPage i p) (t.setPage i p) :=
  ⟨⟨h.statics.vaOffset, h.statics.base, h.statics.numPages, h.statics.pageArray⟩,
    congrArg (fun f : Nat → Page => Function.update f i p) h.pages, h.freeLists⟩

theorem setList (h : SameAllocator s t) (o : Nat) (x : Option Nat) :
    SameAllocator (s.setList o x) (t.setList o x) :=
  ⟨⟨h.statics.vaOffset, h.statics.base, h.statics.numPages, h.statics.pageArray⟩, h.pages,
    congrArg (fun f : Nat → Option Nat => Function.update f o x) h.freeLists⟩

theorem pushFree (h : SameAllocator s t) (off i o : Nat) :
    SameAllocator (s.pushFree off i o) (t.pushFree off i o) := by
  unfold Mm.pushFree
  rw [h.freeLists]
  exact ((h.derefPage off i).setPage i _).setList o _

theorem readLink (h : SameAllocator s t) (o : Nat) (p : Link) : t.readLink o p = s.readLink o p := by
  cases p with
  | head => exact congrFun h.freeLists o
  | next i => exact congrArg Page.next (congrFun h.pages i)

theorem derefLink (h : SameAllocator s t) (p : Link) : SameAllocator (s.derefLink p) (t.derefLink p) := by
  cases p with
  | head => exact h
  | next i => exact h.derefPage 0 i

theorem writeLink (h : SameAllocator s t) (o : Nat) (v : Option Nat) (p : Link) :
    SameAllocator (s.writeLink o v p) (t.writeLink o v p) := by
  cases p with
  | head => exact h.setList o v
  | next i =>
      unfold Mm.writeLink
      rw [h.pages]
      exact h.setPage i _

theorem findLink {o buddy fuel : Nat} {p : Link} (h : SameAllocator s t) :
    Alike (fun a b => a.1 = b.1 ∧ SameAllocator a.2 b.2) (Mm.findLink o buddy fuel p s)
      (Mm.findLink o buddy fuel p t) := by
  induction fuel generalizing p s t with
  | zero => exact .error _
  | succ fuel ih =>
      have hderef := h.derefLink p
      rw [Mm.findLink, Mm.findLink, hderef.readLink]
      cases (s.derefLink p).readLink o p with
      | none => exact .ok ⟨rfl, hderef⟩
      | some q =>
          dsimp only
          split
          · exact .ok ⟨rfl, hderef⟩
          · exact ih hderef

theorem unlink (h : SameAllocator s t) (o buddy : Nat) :
    Alike SameAllocator (s.unlink o buddy) (t.unlink o buddy) := by
  rw [Mm.unlink, Mm.unlink, h.statics.numPages]
  refine Alike.bind (SameAllocator.findLink h) ?_
  rintro ⟨p, s₁⟩ ⟨-, t₁⟩ ⟨rfl, h₁⟩
  dsimp only at h₁ ⊢
  rw [h₁.readLink, h₁.pages]
  split
  · exact .ok (h₁.writeLink o _ p)
  · exact .ok h₁

theorem mergeLoop {n addr : Nat} (h : SameAllocator s t) :
    Alike (fun a b => a.1 = b.1 ∧ a.2.1 = b.2.1 ∧ SameAllocator a.2.2 b.2.2) (Mm.mergeLoop n addr s)
      (Mm.mergeLoop n addr t) := by
  induction n generalizing addr s t with
  | zero => exact .ok ⟨rfl, rfl, h⟩
  | succ n ih =>
      have hbuddy : t.buddyOf addr (maxOrder - (n + 1)) = s.buddyOf addr (maxOrder - (n + 1)) := by
        rw [buddyOf, buddyOf, h.statics.base]
      rw [Mm.mergeLoop, Mm.mergeLoop]
      dsimp only
      rw [hbuddy, h.getPageStruct]
      refine Alike.bind (Alike.same _) ?_
      rintro b - rfl
      have h₁ := h.derefPage 0 b
      rw [h₁.pages]
      split
      · exact .ok ⟨rfl, rfl, h₁⟩
      · refine Alike.bind (h₁.unlink _ b) fun s₂ t₂ h₂ => ?_
        rw [h₂.pages]
        exact ih (h₂.setPage b _)

/-- **`free_pages`** does the same in both. -/
theorem freePages (h : SameAllocator s t) (addr : Nat) :
    Alike SameAllocator (s.freePages addr) (t.freePages addr) := by
  rw [Mm.freePages, Mm.freePages]
  split
  · exact .ok h
  · rw [h.getPageStruct]
    refine Alike.bind (Alike.same _) ?_
    rintro i - rfl
    have h₁ := h.derefPage 0 i
    dsimp only
    rw [h₁.pages]
    split
    · exact .ok h₁
    · refine Alike.bind (SameAllocator.mergeLoop (h₁.setPage i _)) ?_
      rintro ⟨a, k, s₂⟩ ⟨-, -, t₂⟩ ⟨rfl, rfl, h₂⟩
      dsimp only at h₂ ⊢
      rw [h₂.getPageStruct]
      refine Alike.bind (Alike.same _) ?_
      rintro j - rfl
      exact .ok (h₂.pushFree 0 j k)

theorem mergesInRange (h : SameAllocator s t) {c k : Nat} : MergesInRange t c k ↔ MergesInRange s c k := by
  unfold MergesInRange IsFreeOf
  rw [h.statics.numPages, h.pages]

end SameAllocator

/-! ### Frees one after another -/

/-- Every buddy that freeing these frames, one after another, gets to is a managed page. -/
def FreesInRange : List Nat → Mm → Prop
  | [], _ => True
  | f :: fs, s => MergesInRange s (s.pageIdx f) 0 ∧ ∀ s', s.freePage f = .ok s' → FreesInRange fs s'

theorem FreesInRange.congr (hsame : SameAllocator s t) (h : FreesInRange fs s) : FreesInRange fs t := by
  induction fs generalizing s t with
  | nil => trivial
  | cons f fs ih =>
      refine ⟨?_, fun t' ht' => ?_⟩
      · rw [pageIdx_congr hsame.statics]
        exact hsame.mergesInRange.mpr h.1
      · have halike : Alike SameAllocator (s.freePage f) (t.freePage f) := hsame.freePages f
        rw [ht'] at halike
        cases hs' : s.freePage f with
        | error e =>
            rw [hs'] at halike
            cases halike
        | ok s' =>
            rw [hs'] at halike
            cases halike with
            | ok hsame' => exact ih hsame' (h.2 s' hs')

theorem Freed.statics (h : Freed s fs s') : SameStatics s s' := by
  induction h with
  | nil hsame => exact hsame.statics
  | cons hsame hfree _ ih =>
      exact hsame.statics.trans ((freePages_frame hfree).1.statics.trans ih)

/-- The frames are given back, in a state where they were handed out. -/
theorem Freed.runInv (h : Freed s fs s') (hi : RunInv s (pageBlocks fs + live)) :
    FreesInRange fs s ∧ RunInv s' live := by
  induction h with
  | nil hsame =>
      rw [show pageBlocks [] = 0 from rfl, zero_add] at hi
      exact ⟨trivial, hi.congr hsame.statics hsame.pages hsame.freeLists⟩
  | @cons s t t' s' f fs hsame hfree hrest ih =>
      rw [pageBlocks_cons, Multiset.cons_add] at hi
      have hi' := hi.congr hsame.statics hsame.pages hsame.freeLists
      have halike : Alike SameAllocator (s.freePage f) (t.freePage f) := hsame.freePages f
      obtain ⟨hrange, hrun⟩ := ih (runInv_free hi' hfree)
      refine ⟨⟨?_, fun s₁ hs₁ => ?_⟩, hrun⟩
      · have hmerges := hi'.freePages_ok_iff.mp ⟨t', hfree⟩
        rw [pageIdx_congr hsame.statics] at hmerges
        exact hsame.mergesInRange.mp hmerges
      · rw [hs₁, hfree] at halike
        cases halike with
        | ok hsame' =>
            have hback : SameAllocator t' s₁ :=
              ⟨hsame'.statics.symm, hsame'.pages.symm, hsame'.freeLists.symm⟩
            exact hrange.congr hback

/-- After the first of them the next one can be freed as well. -/
theorem FreesInRange.next {f : Nat} {rest : List Nat} (h : FreesInRange (fs ++ f :: rest) s)
    (hfreed : Freed s fs t) (hi : RunInv s (pageBlocks (fs ++ f :: rest) + live)) :
    ∃ t', t.freePage f = .ok t' := by
  induction hfreed with
  | nil hsame =>
      rw [List.nil_append, pageBlocks_cons, Multiset.cons_add] at hi
      have hi' := hi.congr hsame.statics hsame.pages hsame.freeLists
      exact hi'.freePages_ok_iff.mpr (h.congr hsame).1
  | @cons s t t' s' g fs hsame hfree hrest ih =>
      rw [List.cons_append, pageBlocks_cons, Multiset.cons_add] at hi
      have hi' := hi.congr hsame.statics hsame.pages hsame.freeLists
      exact ih ((h.congr hsame).2 t' hfree) (runInv_free hi' hfree)

/-- With a base at a multiple of the largest block all frames that are handed out can be freed. -/
theorem RunInv.freesInRange (hdvd : 2 ^ maxOrder ∣ s.numPages) (hi : RunInv s (pageBlocks fs + live)) :
    FreesInRange fs s := by
  induction fs generalizing s with
  | nil => trivial
  | cons f fs ih =>
      rw [pageBlocks_cons, Multiset.cons_add] at hi
      refine ⟨?_, fun s' hfree => ?_⟩
      · have hfits := hi.fits (Multiset.mem_cons_self (f, 0) _)
        exact mergesInRange_of_dvd hdvd (Nat.lt_of_succ_le hfits)
      · have hrun := runInv_free hi hfree
        refine ih ?_ hrun
        rw [(freePages_frame hfree).1.statics.numPages]
        exact hdvd

end SystemN.Mm
