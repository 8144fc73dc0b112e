/-
Any number of circular lists in one heap.

`Sequences` is what such a heap stands for: a sequence for each head, and some nodes that
are in none of them.  No node is in two lists, and that is all that keeps an edit of one list
from being seen in another; `Holds.change` says so once, for any edit.
-/
import SystemN.Lib.Ring
import Mathlib.Data.Set.Basic

namespace SystemN.Rings

/-- The sequences in a heap, and nodes that wait to be put in one. -/
@[ext]
structure Sequences (α : Type*) where
  /-- The sequence with this head, if there is one. -/
  seq : α → Option (List α)
  detached : Set α

variable {α : Type*} {nodes nodes' : α → Links α} {L : Sequences α} {head x : α}
  {xs ys pre post : List α}

/-- A link of `x` is NULL. -/
def Unlinked (nodes : α → Links α) (x : α) : Prop :=
  (nodes x).next = none ∨ (nodes x).prev = none

namespace Sequences

/-- `y` is the head or an element of a list other than that of `head`. -/
def Elsewhere (L : Sequences α) (head y : α) : Prop :=
  ∃ head' ys, head' ≠ head ∧ L.seq head' = some ys ∧ y ∈ head' :: ys

/-- The heap has the lists of `L`. -/
structure Holds (L : Sequences α) (nodes : α → Links α) : Prop where
  ring : ∀ head xs, L.seq head = some xs → IsRing nodes head xs
  /-- No node is in two lists. -/
  apart : ∀ head xs, L.seq head = some xs → ∀ y ∈ head :: xs, ¬L.Elsewhere head y
  unlinked : ∀ x ∈ L.detached, Unlinked nodes x
  /-- A detached node is in no list. -/
  outside : ∀ x ∈ L.detached, ∀ head xs, L.seq head = some xs → x ∉ head :: xs

variable [DecidableEq α]

/-- The list of `head` is now `xs`, and `D` are the detached nodes. -/
def change (L : Sequences α) (head : α) (xs : List α) (D : Set α) : Sequences α :=
  ⟨Function.update L.seq head (some xs), D⟩

theorem change_self (D : Set α) : (L.change head xs D).seq head = some xs := by simp [change]

theorem change_of_ne (D : Set α) {head' : α} (h : head' ≠ head) :
    (L.change head xs D).seq head' = L.seq head' := by
  simp [change, h]

theorem change_elsewhere (D : Set α) {y : α} :
    (L.change head xs D).Elsewhere head y ↔ L.Elsewhere head y := by
  refine exists_congr fun head' => exists_congr fun ys => and_congr_right fun hne => ?_
  rw [change_of_ne D hne]

/-- **One list is edited.**  Its new elements come from the detached nodes, and nothing else is
written to. -/
theorem Holds.change (hL : L.Holds nodes) (hxs : L.seq head = some xs)
    (hring : IsRing nodes' head ys) (hnew : ∀ y ∈ ys, y ∈ xs ∨ y ∈ L.detached)
    (hframe : ∀ y, y ∉ head :: xs → y ∉ ys → nodes' y = nodes y) {D : Set α}
    (hD : ∀ y ∈ D, y ∉ ys ∧ (y ∈ L.detached ∨ y ∈ xs ∧ Unlinked nodes' y)) :
    (L.change head ys D).Holds nodes' := by
  -- what the list has now is in no other
  have hapart : ∀ y ∈ head :: ys, ¬L.Elsewhere head y := by
    intro y hy
    rcases List.mem_cons.mp hy with rfl | hy
    · exact hL.apart y xs hxs y List.mem_cons_self
    · rcases hnew y hy with hmem | hdet
      · exact hL.apart head xs hxs y (List.mem_cons_of_mem head hmem)
      · rintro ⟨head', zs, -, hzs, hmem⟩
        exact hL.outside y hdet head' zs hzs hmem
  have hnd : (head :: xs).Nodup := (hL.ring head xs hxs).nodup
  refine ⟨?_, ?_, ?_, ?_⟩
  · intro head' zs hzs
    by_cases hne : head' = head
    · subst hne
      rw [change_self] at hzs
      obtain rfl := Option.some.inj hzs
      exact hring
    · rw [change_of_ne D hne] at hzs
      apply (hL.ring head' zs hzs).frame
      intro y hy
      have helse : L.Elsewhere head y := ⟨head', zs, hne, hzs, hy⟩
      exact hframe y (fun h => hL.apart head xs hxs y h helse) fun h =>
        hapart y (List.mem_cons_of_mem head h) helse
  · intro head' zs hzs y hy
    by_cases hne : head' = head
    · subst hne
      rw [change_self] at hzs
      obtain rfl := Option.some.inj hzs
      rw [change_elsewhere]
      exact hapart y hy
    · rw [change_of_ne D hne] at hzs
      rintro ⟨head'', ws, hne', hws, hmem⟩
      by_cases heq : head'' = head
      · subst heq
        rw [change_self] at hws
        obtain rfl := Option.some.inj hws
        exact hapart y hmem ⟨head', zs, hne, hzs, hy⟩
      · rw [change_of_ne D heq] at hws
        exact hL.apart head' zs hzs y hy ⟨head'', ws, hne', hws, hmem⟩
  · intro y hy
    obtain ⟨hys, hdet | ⟨-, hun⟩⟩ := hD y hy
    · unfold Unlinked
      rw [hframe y (hL.outside y hdet head xs hxs) hys]
      exact hL.unlinked y hdet
    · exact hun
  · intro y hy head' zs hzs
    obtain ⟨hys, hfrom⟩ := hD y hy
    by_cases hne : head' = head
    · subst hne
      rw [change_self] at hzs
      obtain rfl := Option.some.inj hzs
      rw [List.mem_cons, not_or]
      refine ⟨?_, hys⟩
      rintro rfl
      rcases hfrom with hdet | ⟨hmem, -⟩
      · exact hL.outside y hdet y xs hxs List.mem_cons_self
      · exact (List.nodup_cons.mp hnd).1 hmem
    · rw [change_of_ne D hne] at hzs
      rcases hfrom with hdet | ⟨hmem, -⟩
      · exact hL.outside y hdet head' zs hzs
      · exact fun h =>
          hL.apart head xs hxs y (List.mem_cons_of_mem head hmem) ⟨head', zs, hne, hzs, h⟩

/-- A detached node has been put into a list. -/
theorem Holds.insert (hL : L.Holds nodes) (hxs : L.seq head = some (pre ++ post))
    (hx : x ∈ L.detached) (hring : IsRing nodes' head (pre ++ x :: post))
    (hframe : ∀ y, y ≠ x → y ∉ head :: (pre ++ post) → nodes' y = nodes y) :
    (L.change head (pre ++ x :: post) (L.detached \ {x})).Holds nodes' := by
  have hmem : ∀ y, y ∈ pre ++ x :: post ↔ y = x ∨ y ∈ pre ++ post := fun y => by
    rw [List.perm_middle.mem_iff, List.mem_cons]
  refine hL.change hxs hring ?_ ?_ ?_
  · intro y hy
    rcases (hmem y).mp hy with rfl | hy
    · exact Or.inr hx
    · exact Or.inl hy
  · intro y hy hys
    exact hframe y (fun h => hys ((hmem y).mpr (Or.inl h))) hy
  · intro y hy
    refine ⟨?_, Or.inl hy.1⟩
    intro hys
    rcases (hmem y).mp hys with rfl | hys
    · exact hy.2 rfl
    · exact hL.outside y hy.1 head _ hxs (List.mem_cons_of_mem head hys)

/-- A node has been taken out of its list. -/
theorem Holds.remove (hL : L.Holds nodes) (hxs : L.seq head = some (pre ++ x :: post))
    (hring : IsRing nodes' head (pre ++ post)) (hx : Unlinked nodes' x)
    (hframe : ∀ y, y ∉ head :: (pre ++ x :: post) → nodes' y = nodes y) :
    (L.change head (pre ++ post) (L.detached ∪ {x})).Holds nodes' := by
  have hmem : ∀ y, y ∈ pre ++ x :: post ↔ y = x ∨ y ∈ pre ++ post := fun y => by
    rw [List.perm_middle.mem_iff, List.mem_cons]
  have hnd : (x :: (pre ++ post)).Nodup :=
    List.perm_middle.nodup_iff.mp (List.nodup_cons.mp (hL.ring head _ hxs).nodup).2
  refine hL.change hxs hring ?_ ?_ ?_
  · intro y hy
    exact Or.inl ((hmem y).mpr (Or.inr hy))
  · intro y hy _
    exact hframe y hy
  · intro y hy
    rcases hy with hdet | rfl
    · refine ⟨?_, Or.inl hdet⟩
      intro h
      exact hL.outside y hdet head _ hxs (List.mem_cons_of_mem head ((hmem y).mpr (Or.inr h)))
    · exact ⟨(List.nodup_cons.mp hnd).1, Or.inr ⟨(hmem y).mpr (Or.inl rfl), hx⟩⟩

end Sequences

end SystemN.Rings
