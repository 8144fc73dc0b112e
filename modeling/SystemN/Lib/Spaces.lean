/-
Address spaces over a shared store.

Several owners have pages, and behind a page stands a frame of a store that they share, with
attributes.  An owner sees the contents of its frames: that is the `view` of a mapping.  When no
frame stands behind two pages the mapping is `Private`, and the view behaves as if each owner had a
store of its own: mapping a page, taking it away and writing to it change one page of one owner.

`Confined` is what an operation on behalf of one owner may do to the views.  The other owners see
what they saw, and the owner itself sees what it saw before, except for the bytes that are said to
be new.
-/
import Mathlib.Data.Set.Insert
import Mathlib.Logic.Function.Basic

namespace SystemN.Spaces

variable {ω π φ α σ : Type}

/-- The pages of each owner: a frame and its attributes. -/
abbrev Mapping (ω π φ α : Type) := ω → π → Option (φ × α)

/-- No frame stands behind two pages. -/
def Private (M : Mapping ω π φ α) : Prop :=
  ∀ ⦃o o' : ω⦄ ⦃n n' : π⦄ ⦃f : φ⦄ ⦃a a' : α⦄, M o n = some (f, a) → M o' n' = some (f, a') →
    o = o' ∧ n = n'

/-- What the owners see, when `st` are the contents of the frames. -/
def view (M : Mapping ω π φ α) (st : φ → σ) : Mapping ω π σ α := fun o n =>
  (M o n).map fun (f, a) => (st f, a)

theorem view_of_some {M : Mapping ω π φ α} {o : ω} {n : π} {f : φ} {a : α} (st : φ → σ)
    (h : M o n = some (f, a)) : view M st o n = some (st f, a) := by
  simp [view, h]

/-- Other frames may be written. -/
theorem view_congr {M : Mapping ω π φ α} {st st' : φ → σ}
    (h : ∀ o n f a, M o n = some (f, a) → st' f = st f) : view M st' = view M st := by
  funext o n
  unfold view
  cases hM : M o n with
  | none => rfl
  | some e => simp [h o n e.1 e.2 hM]

section Put

variable [DecidableEq ω] [DecidableEq π]

/-- Page `n` of the owner `o` becomes `e`. -/
def put (M : Mapping ω π φ α) (o : ω) (n : π) (e : Option (φ × α)) : Mapping ω π φ α := fun o' n' =>
  if o' = o ∧ n' = n then e else M o' n'

variable {M : Mapping ω π φ α} {st st' : φ → σ} {o o' : ω} {n n' : π} {f : φ} {a : α}
  {e : Option (φ × α)}

@[simp] theorem put_self (M : Mapping ω π φ α) (o : ω) (n : π) (e : Option (φ × α)) :
    put M o n e o n = e := by
  simp [put]

theorem put_of_ne (h : ¬(o' = o ∧ n' = n)) : put M o n e o' n' = M o' n' := by
  simp [put, h]

/-- **A new page** over a frame that stands behind no other one. -/
theorem Private.map (h : Private M) (hfresh : ∀ o n a, M o n ≠ some (f, a)) :
    Private (put M o n (some (f, a))) := by
  intro o₁ o₂ n₁ n₂ g a₁ a₂ h₁ h₂
  unfold put at h₁ h₂
  split at h₁
  · next hat₁ =>
    obtain ⟨rfl, -⟩ := Prod.mk.inj (Option.some.inj h₁)
    split at h₂
    · next hat₂ => exact ⟨hat₁.1.trans hat₂.1.symm, hat₁.2.trans hat₂.2.symm⟩
    · exact absurd h₂ (hfresh _ _ _)
  · split at h₂
    · obtain ⟨rfl, -⟩ := Prod.mk.inj (Option.some.inj h₂)
      exact absurd h₁ (hfresh _ _ _)
    · exact h h₁ h₂

/-- **A page less.** -/
theorem Private.unmap (h : Private M) : Private (put M o n none) := by
  intro o₁ o₂ n₁ n₂ g a₁ a₂ h₁ h₂
  unfold put at h₁ h₂
  split at h₁
  · cases h₁
  · split at h₂
    · cases h₂
    · exact h h₁ h₂

/-- The view of a mapping with one page changed. -/
theorem view_put : view (put M o n e) st = put (view M st) o n (e.map fun (f, a) => (st f, a)) := by
  funext o' n'
  unfold view put
  split <;> rfl

/-- **A frame is written.**  One owner sees it, in one page. -/
theorem Private.view_write (h : Private M) (hM : M o n = some (f, a))
    (hother : ∀ o n f' a, M o n = some (f', a) → f' ≠ f → st' f' = st f') :
    view M st' = put (view M st) o n (some (st' f, a)) := by
  funext o' n'
  unfold put
  split
  · next hat =>
    obtain ⟨rfl, rfl⟩ := hat
    simp [view, hM]
  · next hat =>
    unfold view
    cases hM' : M o' n' with
    | none => rfl
    | some e =>
      have hne : e.1 ≠ f := by
        rintro rfl
        exact hat (h hM' hM)
      simp [hother o' n' e.1 e.2 hM' hne]

end Put

/-! ### Many pages -/

section Ranges

open Classical in
/-- The pages `N` of the owner `o` become `e`, where there are none yet. -/
noncomputable def fill (V : Mapping ω π σ α) (o : ω) (N : Set π) (e : σ × α) : Mapping ω π σ α :=
  fun o' n => if o' = o ∧ n ∈ N ∧ V o' n = none then some e else V o' n

open Classical in
/-- The pages `N` of the owner `o` go. -/
noncomputable def clear (V : Mapping ω π σ α) (o : ω) (N : Set π) : Mapping ω π σ α :=
  fun o' n => if o' = o ∧ n ∈ N then none else V o' n

variable {V : Mapping ω π σ α} {o : ω} {n : π} {N N' : Set π} {e : σ × α}

@[simp] theorem fill_empty : fill V o ∅ e = V := by
  funext o' n
  simp [fill]

@[simp] theorem clear_empty : clear V o ∅ = V := by
  funext o' n
  simp [clear]

/-- Filling in two steps. -/
theorem fill_fill : fill (fill V o N e) o N' e = fill V o (N ∪ N') e := by
  funext o' n
  unfold fill
  grind

theorem clear_clear : clear (clear V o N) o N' = clear V o (N ∪ N') := by
  funext o' n
  unfold clear
  grind

/-- A page that is there is not filled. -/
theorem fill_mapped (h : V o n ≠ none) : fill V o {n} e = V := by
  funext o' n'
  unfold fill
  rw [if_neg]
  rintro ⟨rfl, rfl, hV⟩
  exact h hV

section Put

variable [DecidableEq ω] [DecidableEq π]

theorem fill_single (h : V o n = none) : fill V o {n} e = put V o n (some e) := by
  funext o' n'
  unfold fill put
  by_cases hat : o' = o ∧ n' = n
  · obtain ⟨rfl, rfl⟩ := hat
    simp [h]
  · rw [if_neg fun hall => hat ⟨hall.1, hall.2.1⟩, if_neg hat]

theorem clear_single : clear V o {n} = put V o n none := by
  funext o' n'
  simp [clear, put]

/-- A page that is not there does not go. -/
theorem put_none (h : V o n = none) : put V o n none = V := by
  funext o' n'
  unfold put
  split
  · next hat => rw [hat.1, hat.2, h]
  · rfl

end Put

end Ranges

/-! ### What one owner may do -/

variable {ι β : Type} {New New' : β → Prop} {V V₁ V' : Mapping ω π (ι → β) α} {o : ω}

/-- From the views `V` to the views `V'` on behalf of the owner `o`, who comes to see bytes `New`. -/
structure Confined (New : β → Prop) (o : ω) (V V' : Mapping ω π (ι → β) α) : Prop where
  others : ∀ o' ≠ o, V' o' = V o'
  own : ∀ n c' a, V' o n = some (c', a) → ∀ d, New (c' d) ∨ ∃ c, V o n = some (c, a) ∧ c' d = c d

namespace Confined

theorem refl (New : β → Prop) (o : ω) (V : Mapping ω π (ι → β) α) : Confined New o V V :=
  ⟨fun _ _ => rfl, fun _ c' _ h _ => Or.inr ⟨c', h, rfl⟩⟩

theorem trans (h : Confined New o V V₁) (h' : Confined New o V₁ V') : Confined New o V V' where
  others o' ho := (h'.others o' ho).trans (h.others o' ho)
  own n c' a hsome d := by
    rcases h'.own n c' a hsome d with hnew | ⟨c₁, hsome₁, hc₁⟩
    · exact Or.inl hnew
    · rcases h.own n c₁ a hsome₁ d with hnew | ⟨c, hc, heq⟩
      · exact Or.inl (hc₁ ▸ hnew)
      · exact Or.inr ⟨c, hc, hc₁.trans heq⟩

theorem mono (h : Confined New o V V') (hsub : ∀ b, New b → New' b) : Confined New' o V V' :=
  ⟨h.others, fun n c' a hsome d => (h.own n c' a hsome d).imp (hsub _) id⟩

/-- Pages more, with new bytes. -/
theorem fill {N : Set π} {c : ι → β} {a : α} (hnew : ∀ d, New (c d)) :
    Confined New o V (fill V o N (c, a)) where
  others o' ho := by
    funext n
    exact if_neg fun h => ho h.1
  own n b a' hsome d := by
    unfold Spaces.fill at hsome
    split at hsome
    · obtain ⟨rfl, -⟩ := Prod.mk.inj (Option.some.inj hsome)
      exact Or.inl (hnew d)
    · exact Or.inr ⟨b, hsome, rfl⟩

/-- Pages less. -/
theorem clear {N : Set π} : Confined New o V (clear V o N) where
  others o' ho := by
    funext n
    exact if_neg fun h => ho h.1
  own n b a' hsome d := by
    unfold Spaces.clear at hsome
    split at hsome
    · cases hsome
    · exact Or.inr ⟨b, hsome, rfl⟩

variable [DecidableEq ω] [DecidableEq π] {n : π} {c c' : ι → β} {a : α}

/-- New bytes in a page. -/
theorem write (hV : V o n = some (c, a)) (hnew : ∀ d, New (c' d) ∨ c' d = c d) :
    Confined New o V (put V o n (some (c', a))) where
  others o' ho := by
    funext n'
    exact put_of_ne fun h => ho h.1
  own n' b a' hsome d := by
    unfold put at hsome
    split at hsome
    · next hat =>
      obtain ⟨-, rfl⟩ := hat
      obtain ⟨rfl, rfl⟩ := Prod.mk.inj (Option.some.inj hsome)
      exact (hnew d).imp id fun h => ⟨c, hV, h⟩
    · exact Or.inr ⟨b, hsome, rfl⟩

end Confined

end SystemN.Spaces
