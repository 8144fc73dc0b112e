/-
Circular doubly linked lists with an external head.

A heap maps each node to its two links, either of which may be NULL.  `Ring` says
that the nodes `xs`, between two visits of `head`, are linked both ways, and that
no node is met twice.  The edits are stated by what they write, not by how: any
program that links `x` between two neighbours, or joins the neighbours of `x`, and
leaves the other links of the ring alone, has inserted or removed it.  One frame
lemma covers every list the program did not mean to touch.
-/
import Mathlib.Data.List.Chain
import Mathlib.Data.List.Nodup
import Mathlib.Logic.Function.Basic

namespace SystemN.Rings

/-- The two links of a node. -/
@[ext]
structure Links (α : Type*) where
  prev : Option α
  next : Option α

variable {α : Type*} {nodes nodes' : α → Links α} {head : α} {xs pre post : List α}

/-- `a` and `b` point at each other. -/
def Linked (nodes : α → Links α) (a b : α) : Prop :=
  (nodes a).next = some b ∧ (nodes b).prev = some a

/-- The circular list of `head`, with elements `xs` in `next` order. -/
structure IsRing (nodes : α → Links α) (head : α) (xs : List α) : Prop where
  linked : (head :: xs ++ [head]).IsChain (Linked nodes)
  nodup : (head :: xs).Nodup

/-- Consecutive elements of a chain are one off its end and one behind its start. -/
theorem isChain_congr {R S : α → α → Prop} {l : List α} (hc : l.IsChain R)
    (h : ∀ a ∈ l.dropLast, ∀ b ∈ l.tail, R a b → S a b) : l.IsChain S := by
  induction l with
  | nil => exact List.IsChain.nil
  | cons a l ih =>
      cases l with
      | nil => exact List.IsChain.singleton a
      | cons b l =>
          rw [List.isChain_cons_cons] at hc ⊢
          refine ⟨h a (by simp) b (by simp) hc.1, ih hc.2 fun x hx y hy => ?_⟩
          refine h x ?_ y (List.mem_cons_of_mem b hy)
          rw [List.dropLast_cons_of_ne_nil (List.cons_ne_nil b l)]
          exact List.mem_cons_of_mem a hx

/-! ### Neighbours -/

/-- The node before the place between `pre` and `post`. -/
def before (head : α) (pre : List α) : α := (head :: pre).getLast (List.cons_ne_nil head pre)

/-- The node behind it. -/
def after (head : α) (post : List α) : α := (post ++ [head]).head (by simp)

@[simp] theorem before_nil : before head [] = head := rfl

@[simp] theorem before_concat (x : α) : before head (pre ++ [x]) = x := by simp [before]

@[simp] theorem after_nil : after head [] = head := rfl

@[simp] theorem after_cons (x : α) : after head (x :: post) = x := rfl

theorem before_mem : before head pre ∈ head :: pre := List.getLast_mem _

theorem after_mem : after head post ∈ post ++ [head] := List.head_mem _

/-- A ring is two chains that meet at any place in it. -/
theorem isChain_split {R : α → α → Prop} :
    (head :: (pre ++ post) ++ [head]).IsChain R ↔
      (head :: pre).IsChain R ∧ (post ++ [head]).IsChain R ∧
        R (before head pre) (after head post) := by
  rw [show head :: (pre ++ post) ++ [head] = (head :: pre) ++ (post ++ [head]) by simp,
    List.isChain_append]
  refine and_congr_right fun _ => and_congr_right fun _ => ?_
  have hlast : (head :: pre).getLast? = some (before head pre) :=
    List.getLast?_eq_some_getLast _
  have hhead : (post ++ [head]).head? = some (after head post) := List.head?_eq_some_head _
  rw [hlast, hhead]
  simp

namespace IsRing

/-- In a ring the nodes around a place point at each other. -/
theorem neighbours (hr : IsRing nodes head (pre ++ post)) :
    Linked nodes (before head pre) (after head post) :=
  (isChain_split.mp hr.linked).2.2

theorem head_prev (hr : IsRing nodes head xs) : (nodes head).prev = some (before head xs) := by
  have : IsRing nodes head (xs ++ []) := by simpa using hr
  exact this.neighbours.2

theorem head_next (hr : IsRing nodes head xs) : (nodes head).next = some (after head xs) := by
  have : IsRing nodes head ([] ++ xs) := hr
  exact this.neighbours.1

/-- The links of an element. -/
theorem element {x : α} (hr : IsRing nodes head (pre ++ x :: post)) :
    (nodes x).prev = some (before head pre) ∧ (nodes x).next = some (after head post) := by
  have hbefore := hr.neighbours
  have hafter : IsRing nodes head ((pre ++ [x]) ++ post) := by simpa using hr
  have := hafter.neighbours
  rw [before_concat] at this
  exact ⟨hbefore.2, this.1⟩

theorem nil_iff : IsRing nodes head [] ↔ nodes head = ⟨some head, some head⟩ := by
  constructor
  · intro hr
    have h1 := hr.head_prev
    have h2 := hr.head_next
    rw [before_nil] at h1
    rw [after_nil] at h2
    cases hn : nodes head
    simp_all
  · intro h
    refine ⟨?_, List.nodup_singleton head⟩
    simp [Linked, h]

/-- Two walks from one node to `head` are the same walk. -/
theorem walk_unique {a : α} {ys : List α} (hx : (a :: xs ++ [head]).IsChain (Linked nodes))
    (hy : (a :: ys ++ [head]).IsChain (Linked nodes)) (hxs : head ∉ xs) (hys : head ∉ ys) :
    xs = ys := by
  induction xs generalizing a ys with
  | nil =>
      cases ys with
      | nil => rfl
      | cons y ys =>
          have hnext := (List.isChain_cons_cons.mp hx).1.1
          rw [(List.isChain_cons_cons.mp hy).1.1] at hnext
          exact absurd (Option.some.inj hnext ▸ List.mem_cons_self) hys
  | cons x xs ih =>
      have hnext := (List.isChain_cons_cons.mp hx).1.1
      cases ys with
      | nil =>
          rw [(List.isChain_cons_cons.mp hy).1.1] at hnext
          exact absurd (Option.some.inj hnext ▸ List.mem_cons_self) hxs
      | cons y ys =>
          rw [(List.isChain_cons_cons.mp hy).1.1] at hnext
          obtain rfl := Option.some.inj hnext
          rw [ih (List.isChain_cons_cons.mp hx).2 (List.isChain_cons_cons.mp hy).2
            (fun h => hxs (List.mem_cons_of_mem _ h)) fun h => hys (List.mem_cons_of_mem _ h)]

/-- A heap has one ring at `head`. -/
theorem unique {ys : List α} (hr : IsRing nodes head xs) (hr' : IsRing nodes head ys) : xs = ys :=
  walk_unique hr.linked hr'.linked (List.nodup_cons.mp hr.nodup).1 (List.nodup_cons.mp hr'.nodup).1

/-- **Frame**: a heap that agrees on the nodes of a ring has it too. -/
theorem frame (hr : IsRing nodes head xs) (h : ∀ x ∈ head :: xs, nodes' x = nodes x) :
    IsRing nodes' head xs := by
  refine ⟨isChain_congr hr.linked fun a ha b hb hab => ?_, hr.nodup⟩
  have hmem : ∀ x ∈ head :: xs ++ [head], x ∈ head :: xs := by
    intro x hx
    rcases List.mem_append.mp hx with hx | hx
    · exact hx
    · simpa using Or.inl (List.mem_singleton.mp hx)
  unfold Linked
  rw [h a (hmem a ((List.dropLast_sublist _).subset ha)), h b (hmem b (List.mem_of_mem_tail hb))]
  exact hab

/-- The elements of the two sides of a place are different nodes. -/
theorem nodup_split (hr : IsRing nodes head (pre ++ post)) :
    (head :: pre).Nodup ∧ (post ++ [head]).Nodup ∧ ∀ x ∈ pre, x ∉ post ++ [head] := by
  have hnd := hr.nodup
  rw [List.nodup_cons, List.mem_append, List.nodup_append, not_or] at hnd
  obtain ⟨⟨hpre, hpost⟩, h1, h2, h3⟩ := hnd
  refine ⟨List.nodup_cons.mpr ⟨hpre, h1⟩, ?_, ?_⟩
  · rw [List.nodup_append]
    exact ⟨h2, List.nodup_singleton head, fun a ha b hb => by
      rw [List.mem_singleton.mp hb]
      rintro rfl
      exact hpost ha⟩
  · intro x hx hmem
    rcases List.mem_append.mp hmem with hm | hm
    · exact h3 x hx x hm rfl
    · rw [List.mem_singleton.mp hm] at hx
      exact hpre hx

theorem dropLast_ne_before (hnd : (head :: pre).Nodup) {a : α} (ha : a ∈ (head :: pre).dropLast) :
    a ≠ before head pre := by
  rintro rfl
  rw [← List.dropLast_append_getLast (List.cons_ne_nil head pre), List.nodup_append] at hnd
  exact hnd.2.2 _ ha _ (List.mem_singleton.mpr rfl) rfl

theorem tail_ne_after (hnd : (post ++ [head]).Nodup) {b : α} (hb : b ∈ (post ++ [head]).tail) :
    b ≠ after head post := by
  rintro rfl
  rw [← List.cons_head_tail (show post ++ [head] ≠ [] by simp), List.nodup_cons] at hnd
  exact hnd.1 hb

/-- The neighbours of a place lie on their own sides of it. -/
theorem before_notMem (hr : IsRing nodes head (pre ++ post)) : before head pre ∉ post := by
  obtain ⟨-, hnd, hdisj⟩ := hr.nodup_split
  intro hmem
  rcases List.mem_cons.mp (before_mem : before head pre ∈ head :: pre) with h | h
  · rw [h] at hmem
    rw [List.nodup_append] at hnd
    exact hnd.2.2 _ hmem _ (List.mem_singleton.mpr rfl) rfl
  · exact hdisj _ h (List.mem_append_left _ hmem)

theorem after_notMem (hr : IsRing nodes head (pre ++ post)) : after head post ∉ pre := by
  obtain ⟨-, -, hdisj⟩ := hr.nodup_split
  exact fun hmem => hdisj _ hmem after_mem

/-- Writing the `next` of the node before a place and the `prev` of the node behind it keeps
the links of the side in front of the place. -/
theorem front (hr : IsRing nodes head (pre ++ post))
    (hnext : ∀ y ∈ head :: pre, y ≠ before head pre → (nodes' y).next = (nodes y).next)
    (hprev : ∀ y ∈ pre, (nodes' y).prev = (nodes y).prev) :
    (head :: pre).IsChain (Linked nodes') := by
  obtain ⟨hnd, -, -⟩ := hr.nodup_split
  refine isChain_congr (isChain_split.mp hr.linked).1 fun a ha b hb hab => ?_
  refine ⟨?_, ?_⟩
  · rw [hnext a ((List.dropLast_sublist _).subset ha) (dropLast_ne_before hnd ha)]
    exact hab.1
  · rw [hprev b hb]
    exact hab.2

/-- And those of the side behind it. -/
theorem back (hr : IsRing nodes head (pre ++ post))
    (hnext : ∀ y ∈ post, (nodes' y).next = (nodes y).next)
    (hprev : ∀ y ∈ head :: post, y ≠ after head post → (nodes' y).prev = (nodes y).prev) :
    (post ++ [head]).IsChain (Linked nodes') := by
  obtain ⟨-, hnd, -⟩ := hr.nodup_split
  refine isChain_congr (isChain_split.mp hr.linked).2.1 fun a ha b hb hab => ?_
  have ha' : a ∈ post := by rwa [List.dropLast_concat] at ha
  have hb' : b ∈ head :: post := by
    have := List.mem_of_mem_tail hb
    simp only [List.mem_append, List.mem_singleton] at this
    exact List.mem_cons.mpr this.symm
  refine ⟨?_, ?_⟩
  · rw [hnext a ha']
    exact hab.1
  · rw [hprev b hb' (tail_ne_after hnd hb)]
    exact hab.2

theorem perm_insert (x : α) : (head :: (pre ++ x :: post)).Perm (x :: head :: (pre ++ post)) :=
  (List.perm_middle.cons head).trans (List.Perm.swap x head _)

/-- **Insertion**: `x` has been linked between the two neighbours of a place. -/
theorem insert {x : α} (hr : IsRing nodes head (pre ++ post)) (hx : x ∉ head :: (pre ++ post))
    (hself : nodes' x = ⟨some (before head pre), some (after head post)⟩)
    (hbefore : (nodes' (before head pre)).next = some x)
    (hafter : (nodes' (after head post)).prev = some x)
    (hnext : ∀ y ∈ head :: (pre ++ post), y ≠ before head pre →
      (nodes' y).next = (nodes y).next)
    (hprev : ∀ y ∈ head :: (pre ++ post), y ≠ after head post →
      (nodes' y).prev = (nodes y).prev) :
    IsRing nodes' head (pre ++ x :: post) := by
  have hfront : (head :: pre).IsChain (Linked nodes') := by
    refine hr.front (fun y hy => hnext y ?_) fun y hy => hprev y (by simp [hy]) ?_
    · exact List.cons_subset_cons head (List.subset_append_left pre post) hy
    · rintro rfl
      exact hr.after_notMem hy
  have hback : (post ++ [head]).IsChain (Linked nodes') := by
    refine hr.back (fun y hy => hnext y (by simp [hy]) ?_) fun y hy => hprev y ?_
    · rintro rfl
      exact hr.before_notMem hy
    · exact List.cons_subset_cons head (List.subset_append_right pre post) hy
  refine ⟨isChain_split.mpr ⟨hfront, ?_, ?_⟩, ?_⟩
  · rw [List.cons_append, List.isChain_cons]
    refine ⟨fun y hy => ?_, hback⟩
    rw [List.head?_eq_some_head (show post ++ [head] ≠ [] by simp), Option.mem_some] at hy
    obtain rfl : after head post = y := hy
    exact ⟨by rw [hself], hafter⟩
  · rw [after_cons]
    exact ⟨hbefore, by rw [hself]⟩
  · exact (perm_insert x).nodup_iff.mpr (List.nodup_cons.mpr ⟨hx, hr.nodup⟩)

/-- **Removal**: the two neighbours of `x` have been joined. -/
theorem remove {x : α} (hr : IsRing nodes head (pre ++ x :: post))
    (hbefore : (nodes' (before head pre)).next = some (after head post))
    (hafter : (nodes' (after head post)).prev = some (before head pre))
    (hnext : ∀ y ∈ head :: (pre ++ post), y ≠ before head pre →
      (nodes' y).next = (nodes y).next)
    (hprev : ∀ y ∈ head :: (pre ++ post), y ≠ after head post →
      (nodes' y).prev = (nodes y).prev) :
    IsRing nodes' head (pre ++ post) := by
  -- the two sides of `x`, seen from the places before and behind it
  have hr' : IsRing nodes head ((pre ++ [x]) ++ post) := by simpa using hr
  have hfront : (head :: pre).IsChain (Linked nodes') := by
    refine hr.front (fun y hy => hnext y ?_) fun y hy => hprev y (by simp [hy]) ?_
    · exact List.cons_subset_cons head (List.subset_append_left pre post) hy
    · rintro rfl
      exact hr'.after_notMem (List.mem_append_left _ hy)
  have hback : (post ++ [head]).IsChain (Linked nodes') := by
    refine hr'.back (fun y hy => hnext y (by simp [hy]) ?_) fun y hy => hprev y ?_
    · rintro rfl
      exact hr.before_notMem (List.mem_cons_of_mem _ hy)
    · exact List.cons_subset_cons head (List.subset_append_right pre post) hy
  refine ⟨isChain_split.mpr ⟨hfront, hback, hbefore, hafter⟩, ?_⟩
  exact (List.nodup_cons.mp ((perm_insert x).nodup_iff.mp hr.nodup)).2

end IsRing

end SystemN.Rings
