/-
Chains: NULL-terminated singly linked lists over a `next` function.

`IsChain next h xs` says that following `next` from `h` visits exactly `xs` and
then stops.  A write to the `next` of something off the chain changes nothing,
and the three ways a program edits such a list (push, pop, unlink in the middle)
each have their lemma.
-/
import Mathlib.Data.List.Basic
import Mathlib.Logic.Function.Basic

namespace SystemN.Chain

variable {α : Type*} {next next' : α → Option α} {h : Option α} {xs ys : List α}

/-- Following `next` from `h` visits `xs` and ends. -/
def IsChain (next : α → Option α) : Option α → List α → Prop
  | h, [] => h = none
  | h, x :: xs => h = some x ∧ IsChain next (next x) xs

@[simp] theorem isChain_nil : IsChain next h [] ↔ h = none := Iff.rfl

@[simp] theorem isChain_cons {x : α} :
    IsChain next h (x :: xs) ↔ h = some x ∧ IsChain next (next x) xs := Iff.rfl

theorem isChain_none : IsChain next none xs ↔ xs = [] := by
  cases xs with
  | nil => simp
  | cons x xs => simp

theorem IsChain.congr (hc : IsChain next h xs) (heq : ∀ x ∈ xs, next' x = next x) :
    IsChain next' h xs := by
  induction xs generalizing h with
  | nil => exact hc
  | cons x xs ih =>
      refine ⟨hc.1, ?_⟩
      rw [heq x (by simp)]
      exact ih hc.2 fun y hy => heq y (by simp [hy])

/-- What a chain visits is determined by where it starts. -/
theorem IsChain.unique (hx : IsChain next h xs) (hy : IsChain next h ys) : xs = ys := by
  induction xs generalizing h ys with
  | nil =>
      rw [isChain_nil] at hx
      subst hx
      exact (isChain_none.mp hy).symm
  | cons x xs ih =>
      obtain ⟨rfl, hx⟩ := hx
      cases ys with
      | nil => simp at hy
      | cons y ys =>
          obtain ⟨hxy, hy⟩ := hy
          obtain rfl : x = y := by simpa using hxy
          rw [ih hx hy]

section Update

variable [DecidableEq α]

/-- Writing the `next` of something off the chain changes nothing. -/
theorem IsChain.update_of_notMem {x : α} {v : Option α} (hc : IsChain next h xs) (hx : x ∉ xs) :
    IsChain (Function.update next x v) h xs := by
  refine hc.congr fun y hy => ?_
  rw [Function.update_of_ne]
  rintro rfl
  exact hx hy

/-- Pushing a new first element. -/
theorem IsChain.push {x : α} (hc : IsChain next h xs) (hx : x ∉ xs) :
    IsChain (Function.update next x h) (some x) (x :: xs) := by
  refine ⟨rfl, ?_⟩
  rw [Function.update_self]
  exact hc.update_of_notMem hx

/-- Unlinking `b` behind its predecessor `p`. -/
theorem IsChain.unlink {p b : α} {pre post : List α}
    (hc : IsChain next h (pre ++ p :: b :: post)) (hp : p ∉ pre ++ b :: post) :
    IsChain (Function.update next p (next b)) h (pre ++ p :: post) := by
  induction pre generalizing h with
  | nil =>
      obtain ⟨rfl, -, hb⟩ := hc
      refine ⟨rfl, ?_⟩
      rw [Function.update_self]
      exact hb.update_of_notMem fun hmem => hp (by simp [hmem])
  | cons y pre ih =>
      obtain ⟨rfl, hrest⟩ := hc
      have hyp : y ≠ p := fun hc => hp (by simp [hc])
      refine ⟨rfl, ?_⟩
      rw [Function.update_of_ne hyp]
      exact ih hrest fun hmem => hp (by simp only [List.cons_append, List.mem_cons]; exact Or.inr hmem)

end Update

end SystemN.Chain
