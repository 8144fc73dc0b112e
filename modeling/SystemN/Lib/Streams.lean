/-
Streams over byte arrays.

The abstract picture of open files: an array for each file, and for each descriptor a file
and an offset into it.  Reading and writing happen at the offset and move it; several
descriptors may be of one file, and each keeps its own offset.

A write at an offset beyond the end would leave a gap that nobody wrote.  It does not
happen, since no offset is ever beyond the end: arrays only grow, and an offset moves no
further than what was read or written.
-/
import Mathlib.Data.List.TakeDrop
import Mathlib.Logic.Function.Basic

namespace SystemN.Streams

/-! ### Arrays -/

section Overwrite

variable {α : Type}

/-- Put `ys` into the array from `off` on, past its end if need be. -/
def overwrite (xs : List α) (off : Nat) (ys : List α) : List α :=
  xs.take off ++ ys ++ xs.drop (off + ys.length)

theorem length_overwrite {xs : List α} {off : Nat} (h : off ≤ xs.length) (ys : List α) :
    (overwrite xs off ys).length = max xs.length (off + ys.length) := by
  simp only [overwrite, List.length_append, List.length_take, List.length_drop]
  omega

end Overwrite

/-! ### Descriptors -/

/-- The arrays of the files `ι`, and what the descriptors `δ` are open on. -/
structure State (ι δ α : Type) where
  bytes : ι → Option (List α)
  desc : δ → Option (ι × Nat)

namespace State

variable {ι δ α : Type} {R : State ι δ α} {d : δ} {i : ι} {off : Nat} {xs : List α}

/-- A new file, which is empty. -/
def create [DecidableEq ι] (R : State ι δ α) (i : ι) : State ι δ α :=
  { R with bytes := Function.update R.bytes i (some []) }

/-- A descriptor at the start of a file. -/
def opened [DecidableEq δ] (R : State ι δ α) (d : δ) (i : ι) : State ι δ α :=
  { R with desc := Function.update R.desc d (some (i, 0)) }

/-- What a read of `len` elements gets: those from the offset on, as far as there are any. -/
def slice (R : State ι δ α) (i : ι) (off len : Nat) : List α :=
  (((R.bytes i).getD []).drop off).take len

/-- Read at the offset of the descriptor. -/
def read [DecidableEq δ] (R : State ι δ α) (d : δ) (len : Nat) : Option (List α × State ι δ α) :=
  (R.desc d).map fun (i, off) =>
    let out := R.slice i off len
    (out, { R with desc := Function.update R.desc d (some (i, off + out.length)) })

/-- Write at the offset of the descriptor. -/
def write [DecidableEq ι] [DecidableEq δ] (R : State ι δ α) (d : δ) (ys : List α) :
    Option (State ι δ α) :=
  (R.desc d).map fun (i, off) =>
    { bytes := Function.update R.bytes i (some (overwrite ((R.bytes i).getD []) off ys))
      desc := Function.update R.desc d (some (i, off + ys.length)) }

/-- Writing `n` elements makes the file longer. -/
def Grows (R : State ι δ α) (d : δ) (n : Nat) : Prop :=
  ∃ i off, R.desc d = some (i, off) ∧ ((R.bytes i).getD []).length < off + n

theorem length_slice (h : R.bytes i = some xs) (len : Nat) :
    (R.slice i off len).length = min len (xs.length - off) := by
  simp only [slice, h, Option.getD_some, List.length_take, List.length_drop]

/-- No offset is beyond the end of its file. -/
def InBounds (R : State ι δ α) : Prop :=
  ∀ d i off, R.desc d = some (i, off) → ∃ xs, R.bytes i = some xs ∧ off ≤ xs.length

theorem InBounds.create [DecidableEq ι] (h : InBounds R) (hi : R.bytes i = none) :
    InBounds (R.create i) := by
  intro d j off hd
  obtain ⟨xs, hxs, hle⟩ := h d j off hd
  have hji : j ≠ i := by
    intro heq
    rw [heq, hi] at hxs
    cases hxs
  exact ⟨xs, (Function.update_of_ne hji ..).trans hxs, hle⟩

theorem InBounds.opened [DecidableEq δ] (h : InBounds R) (hi : R.bytes i = some xs) :
    InBounds (R.opened d i) := by
  intro e j off he
  by_cases hed : e = d
  · subst hed
    change Function.update R.desc e (some (i, 0)) e = some (j, off) at he
    rw [Function.update_self] at he
    obtain ⟨rfl, rfl⟩ := Prod.mk.inj (Option.some.inj he)
    exact ⟨xs, hi, Nat.zero_le _⟩
  · apply h e j off
    rw [← he]
    exact (Function.update_of_ne hed ..).symm

/-- An offset moves to the end of what was read. -/
theorem InBounds.read [DecidableEq δ] (h : InBounds R) {len : Nat} {out : List α}
    {R' : State ι δ α} (hread : R.read d len = some (out, R')) : InBounds R' := by
  obtain ⟨⟨i, off⟩, hd, heq⟩ := Option.map_eq_some_iff.mp hread
  obtain ⟨rfl, rfl⟩ := Prod.mk.inj heq
  obtain ⟨xs, hxs, hle⟩ := h d i off hd
  intro e j o he
  by_cases hed : e = d
  · subst hed
    simp only [Function.update_self] at he
    obtain ⟨rfl, rfl⟩ := Prod.mk.inj (Option.some.inj he)
    refine ⟨xs, hxs, ?_⟩
    rw [length_slice hxs]
    omega
  · simp only [Function.update_of_ne hed] at he
    exact h e j o he

/-- No array gets shorter, so the other offsets stay in bounds as well. -/
theorem InBounds.write [DecidableEq ι] [DecidableEq δ] (h : InBounds R) {ys : List α}
    {R' : State ι δ α} (hwrite : R.write d ys = some R') : InBounds R' := by
  obtain ⟨⟨i, off⟩, hd, rfl⟩ := Option.map_eq_some_iff.mp hwrite
  obtain ⟨xs, hxs, hle⟩ := h d i off hd
  have hlen := length_overwrite hle ys
  have hgrown : ∀ j zs, R.bytes j = some zs → ∃ zs', Function.update R.bytes i
      (some (overwrite ((R.bytes i).getD []) off ys)) j = some zs' ∧ zs.length ≤ zs'.length := by
    intro j zs hzs
    by_cases hji : j = i
    · subst hji
      rw [hxs] at hzs
      obtain rfl := Option.some.inj hzs
      refine ⟨_, Function.update_self .., ?_⟩
      rw [hxs, Option.getD_some, hlen]
      exact Nat.le_max_left _ _
    · exact ⟨zs, (Function.update_of_ne hji ..).trans hzs, Nat.le_refl _⟩
  intro e j o he
  by_cases hed : e = d
  · subst hed
    simp only [Function.update_self] at he
    obtain ⟨rfl, rfl⟩ := Prod.mk.inj (Option.some.inj he)
    refine ⟨_, Function.update_self .., ?_⟩
    rw [hxs, Option.getD_some, hlen]
    exact Nat.le_max_right _ _
  · simp only [Function.update_of_ne hed] at he
    obtain ⟨zs, hzs, hole⟩ := h e j o he
    obtain ⟨zs', hzs', hmono⟩ := hgrown j zs hzs
    exact ⟨zs', hzs', Nat.le_trans hole hmono⟩

end State

end SystemN.Streams
