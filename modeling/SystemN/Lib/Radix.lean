/-
Radix trees whose nodes live in a shared store.

A node has an entry for every index, and an entry may lead to another node.  Several
trees share the store, one for each owner that has a root.  `nodeAt` follows a path
(its deepest index first) from the root of an owner; `lookup` reads what stands in the
last entry.  In a `Forest` of depth `d` no node is reached twice by paths of length at
most `d`, so that writing one entry changes one path.

The three writes are those that build such trees: a fresh empty node behind an empty
entry (`nodeAt_link`), a new value in an entry of the last level (`lookup_write`), and a
fresh empty root (`nodeAt_plant`).
-/
import Mathlib.Logic.Function.Basic
import Mathlib.Order.Nat

namespace SystemN.Radix

section Definitions

variable {N I E V ω : Type} (next : E → Option N) (e : N → I → E) (root : ω → Option N)

/-- The node at the end of a path. -/
def nodeAt (o : ω) : List I → Option N
  | [] => root o
  | i :: p => (nodeAt o p).bind fun n => next (e n i)

/-- The value that entry `i` of the node at the end of a path holds. -/
def lookup (val : E → Option V) (o : ω) (i : I) (p : List I) : Option V :=
  (nodeAt next e root o p).bind fun n => val (e n i)

/-- A node of one of the trees, at depth `d` at most. -/
def IsNode (d : Nat) (n : N) : Prop := ∃ o p, p.length ≤ d ∧ nodeAt next e root o p = some n

/-- Each node is reached once. -/
def Forest (d : Nat) : Prop :=
  ∀ ⦃o o' : ω⦄ ⦃p p' : List I⦄ ⦃n : N⦄, p.length ≤ d → p'.length ≤ d →
    nodeAt next e root o p = some n → nodeAt next e root o' p' = some n → o = o' ∧ p = p'

end Definitions

variable {N I E V ω : Type} {next : E → Option N} {e e' : N → I → E} {root : ω → Option N}
  {val : E → Option V} {d : Nat} {o o' : ω} {i j : I} {p p' : List I} {n q : N}

theorem nodeAt_cons (h : nodeAt next e root o p = some n) :
    nodeAt next e root o (i :: p) = next (e n i) := by
  simp [nodeAt, h]

theorem nodeAt_cons_none (h : nodeAt next e root o p = none) :
    nodeAt next e root o (i :: p) = none := by
  simp [nodeAt, h]

theorem lookup_of_nodeAt (h : nodeAt next e root o p = some n) :
    lookup next e root val o i p = val (e n i) := by
  simp [lookup, h]

theorem lookup_of_nodeAt_none (h : nodeAt next e root o p = none) :
    lookup next e root val o i p = none := by
  simp [lookup, h]

/-- Without a root there are no nodes. -/
theorem nodeAt_noRoot (h : root o = none) (p : List I) : nodeAt next e root o p = none := by
  induction p with
  | nil => exact h
  | cons i p ih => exact nodeAt_cons_none ih

/-- The nodes under a root do not depend on whose it is. -/
theorem nodeAt_owner {ω' : Type} {root' : ω' → Option N} {o' : ω'} (h : root' o' = root o) (p : List I) :
    nodeAt next e root' o' p = nodeAt next e root o p := by
  induction p with
  | nil => exact h
  | cons i p ih => exact congrArg (fun n => n.bind fun n => next (e n i)) ih

theorem isNode_of_nodeAt (h : nodeAt next e root o p = some n) (hp : p.length ≤ d) :
    IsNode next e root d n :=
  ⟨o, p, hp, h⟩

/-! ### Writes that no path sees -/

/-- Paths of length `d` only read the entries of nodes above depth `d`. -/
theorem nodeAt_congr
    (h : ∀ ⦃o p n⦄, p.length < d → nodeAt next e root o p = some n →
      ∀ i, next (e' n i) = next (e n i)) (hp : p.length ≤ d) :
    nodeAt next e' root o p = nodeAt next e root o p := by
  induction p with
  | nil => rfl
  | cons i p ih =>
      simp only [List.length_cons] at hp
      have hhead := ih (by omega)
      cases hn : nodeAt next e root o p with
      | none => rw [nodeAt_cons_none hn, nodeAt_cons_none (hhead.trans hn)]
      | some n => rw [nodeAt_cons hn, nodeAt_cons (hhead.trans hn), h (by omega) hn]

theorem isNode_congr
    (h : ∀ ⦃o p n⦄, p.length < d → nodeAt next e root o p = some n →
      ∀ i, next (e' n i) = next (e n i)) :
    IsNode next e' root d n ↔ IsNode next e root d n := by
  constructor
  · rintro ⟨o, p, hp, hn⟩
    exact ⟨o, p, hp, (nodeAt_congr h hp).symm.trans hn⟩
  · rintro ⟨o, p, hp, hn⟩
    exact ⟨o, p, hp, (nodeAt_congr h hp).trans hn⟩

theorem Forest.congr (hF : Forest next e root d)
    (h : ∀ ⦃o p n⦄, p.length < d → nodeAt next e root o p = some n →
      ∀ i, next (e' n i) = next (e n i)) : Forest next e' root d := by
  intro o o' p p' n hp hp' hn hn'
  rw [nodeAt_congr h hp] at hn
  rw [nodeAt_congr h hp'] at hn'
  exact hF hp hp' hn hn'

/-! ### Linking a fresh node -/

/-- Node `q` was in no tree, is empty, and now stands behind entry `i` of node `n`, which led
nowhere; no other entry of a node leads elsewhere than before. -/
structure Links (next : E → Option N) (e e' : N → I → E) (root : ω → Option N) (d : Nat)
    (n : N) (i : I) (q : N) : Prop where
  free : next (e n i) = none
  fresh : ¬IsNode next e root d q
  empty : ∀ j, next (e' q j) = none
  link : next (e' n i) = some q
  same : ∀ n' j, IsNode next e root d n' → (n' ≠ n ∨ j ≠ i) → next (e' n' j) = next (e n' j)

/-- **Linking adds one path.** -/
theorem nodeAt_link [DecidableEq ω] [DecidableEq I] (hF : Forest next e root d)
    (hl : Links next e e' root d n i q) (hn : nodeAt next e root o p = some n)
    (hp : p.length < d) (hp' : p'.length ≤ d) :
    nodeAt next e' root o' p' =
      if o' = o ∧ p' = i :: p then some q else nodeAt next e root o' p' := by
  induction p' with
  | nil => simp [nodeAt]
  | cons j p' ih =>
      simp only [List.length_cons] at hp'
      have hhead := ih (by omega)
      by_cases hq : o' = o ∧ p' = i :: p
      · -- below the fresh node there is nothing
        obtain ⟨rfl, rfl⟩ := hq
        rw [if_pos ⟨rfl, rfl⟩] at hhead
        have hlen : j :: i :: p ≠ i :: p := fun h => by simpa using congrArg List.length h
        have hold : nodeAt next e root o' (i :: p) = none := (nodeAt_cons hn).trans hl.free
        rw [nodeAt_cons hhead, hl.empty, if_neg (fun h => hlen h.2), nodeAt_cons_none hold]
      · rw [if_neg hq] at hhead
        cases hn' : nodeAt next e root o' p' with
        | none =>
            have hne : ¬(o' = o ∧ j :: p' = i :: p) := by
              rintro ⟨rfl, h⟩
              rw [(List.cons.inj h).2, hn] at hn'
              cases hn'
            rw [nodeAt_cons_none (hhead.trans hn'), if_neg hne, nodeAt_cons_none hn']
        | some n' =>
            rw [nodeAt_cons (hhead.trans hn'), nodeAt_cons hn']
            by_cases hji : o' = o ∧ j :: p' = i :: p
            · obtain ⟨rfl, h⟩ := hji
              obtain ⟨rfl, rfl⟩ := List.cons.inj h
              obtain rfl : n = n' := Option.some.inj (hn.symm.trans hn')
              rw [if_pos ⟨rfl, rfl⟩, hl.link]
            · rw [if_neg hji]
              refine hl.same n' j (isNode_of_nodeAt hn' (by omega)) ?_
              by_contra hcon
              rw [not_or, not_not, not_not] at hcon
              obtain ⟨rfl, rfl⟩ := hcon
              obtain ⟨rfl, rfl⟩ := hF (by omega) (by omega) hn' hn
              exact hji ⟨rfl, rfl⟩

theorem isNode_link [DecidableEq ω] [DecidableEq I] (hF : Forest next e root d)
    (hl : Links next e e' root d n i q) (hn : nodeAt next e root o p = some n)
    (hp : p.length < d) {n' : N} :
    IsNode next e' root d n' ↔ n' = q ∨ IsNode next e root d n' := by
  constructor
  · rintro ⟨o', p', hp', hn'⟩
    rw [nodeAt_link hF hl hn hp hp'] at hn'
    split at hn'
    · exact .inl (Option.some.inj hn').symm
    · exact .inr ⟨o', p', hp', hn'⟩
  · rintro (rfl | ⟨o', p', hp', hn'⟩)
    · have hlen : (i :: p).length ≤ d := hp
      exact ⟨o, i :: p, hlen, (nodeAt_link hF hl hn hp hlen).trans (if_pos ⟨rfl, rfl⟩)⟩
    · refine ⟨o', p', hp', ?_⟩
      rw [nodeAt_link hF hl hn hp hp', if_neg, hn']
      rintro ⟨rfl, rfl⟩
      rw [nodeAt_cons hn, hl.free] at hn'
      cases hn'

theorem Forest.link [DecidableEq ω] [DecidableEq I] (hF : Forest next e root d)
    (hl : Links next e e' root d n i q) (hn : nodeAt next e root o p = some n)
    (hp : p.length < d) : Forest next e' root d := by
  intro o₁ o₂ p₁ p₂ n' h₁ h₂ hn₁ hn₂
  rw [nodeAt_link hF hl hn hp h₁] at hn₁
  rw [nodeAt_link hF hl hn hp h₂] at hn₂
  split at hn₁ <;> split at hn₂
  · rename_i c₁ c₂
    exact ⟨c₁.1.trans c₂.1.symm, c₁.2.trans c₂.2.symm⟩
  · exact absurd ⟨o₂, p₂, h₂, hn₂.trans hn₁.symm⟩ hl.fresh
  · exact absurd ⟨o₁, p₁, h₁, hn₁.trans hn₂.symm⟩ hl.fresh
  · exact hF h₁ h₂ hn₁ hn₂

/-- Linking an empty node changes no value of the last level. -/
theorem lookup_link [DecidableEq ω] [DecidableEq I] (hF : Forest next e root d)
    (hl : Links next e e' root d n i q) (hn : nodeAt next e root o p = some n)
    (hp : p.length < d) (hp' : p'.length = d) (hval : ∀ j, val (e' q j) = none)
    (hsame : ∀ n' j, IsNode next e root d n' → n' ≠ n → val (e' n' j) = val (e n' j)) :
    lookup next e' root val o' j p' = lookup next e root val o' j p' := by
  have hnode : nodeAt next e' root o' p' = _ := nodeAt_link hF hl hn hp hp'.le
  by_cases hq : o' = o ∧ p' = i :: p
  · rw [if_pos hq] at hnode
    obtain ⟨rfl, rfl⟩ := hq
    rw [lookup_of_nodeAt hnode, hval, lookup_of_nodeAt_none ((nodeAt_cons hn).trans hl.free)]
  · rw [if_neg hq] at hnode
    cases hn' : nodeAt next e root o' p' with
    | none => rw [lookup_of_nodeAt_none (hnode.trans hn'), lookup_of_nodeAt_none hn']
    | some n' =>
        rw [lookup_of_nodeAt (hnode.trans hn'), lookup_of_nodeAt hn']
        refine hsame n' j (isNode_of_nodeAt hn' hp'.le) ?_
        rintro rfl
        have hlen := (hF hp'.le hp.le hn' hn).2
        rw [hlen] at hp'
        omega

/-! ### Writing an entry of the last level -/

theorem nodeAt_write (hF : Forest next e root d) (hn : nodeAt next e root o p = some n)
    (hp : p.length = d)
    (hsame : ∀ n' j, IsNode next e root d n' → (n' ≠ n ∨ j ≠ i) → e' n' j = e n' j)
    (hp' : p'.length ≤ d) : nodeAt next e' root o' p' = nodeAt next e root o' p' := by
  refine nodeAt_congr (fun o₁ p₁ n₁ h₁ hn₁ j => ?_) hp'
  rw [hsame n₁ j (isNode_of_nodeAt hn₁ h₁.le) (.inl ?_)]
  rintro rfl
  have hlen := (hF h₁.le hp.le hn₁ hn).2
  rw [hlen] at h₁
  omega

/-- **A write changes one value.** -/
theorem lookup_write [DecidableEq ω] [DecidableEq I] (hF : Forest next e root d)
    (hn : nodeAt next e root o p = some n) (hp : p.length = d)
    (hsame : ∀ n' j, IsNode next e root d n' → (n' ≠ n ∨ j ≠ i) → e' n' j = e n' j)
    (hp' : p'.length = d) :
    lookup next e' root val o' j p' =
      if o' = o ∧ p' = p ∧ j = i then val (e' n i) else lookup next e root val o' j p' := by
  have hnode : nodeAt next e' root o' p' = _ := nodeAt_write hF hn hp hsame hp'.le
  by_cases hq : o' = o ∧ p' = p ∧ j = i
  · obtain ⟨rfl, rfl, rfl⟩ := hq
    rw [if_pos ⟨rfl, rfl, rfl⟩, lookup_of_nodeAt (hnode.trans hn)]
  · rw [if_neg hq]
    cases hn' : nodeAt next e root o' p' with
    | none => rw [lookup_of_nodeAt_none (hnode.trans hn'), lookup_of_nodeAt_none hn']
    | some n' =>
        rw [lookup_of_nodeAt (hnode.trans hn'), lookup_of_nodeAt hn']
        refine congrArg val (hsame n' j (isNode_of_nodeAt hn' hp'.le) ?_)
        by_contra hcon
        rw [not_or, not_not, not_not] at hcon
        obtain ⟨rfl, rfl⟩ := hcon
        obtain ⟨rfl, rfl⟩ := hF hp'.le hp.le hn' hn
        exact hq ⟨rfl, rfl, rfl⟩

/-! ### A new root -/

/-- **A new owner with an empty root** has that root and nothing below it. -/
theorem nodeAt_plant [DecidableEq ω] (hempty : ∀ j, next (e q j) = none) :
    nodeAt next e (Function.update root o (some q)) o' p =
      if o' = o then (if p = [] then some q else none) else nodeAt next e root o' p := by
  induction p with
  | nil => by_cases h : o' = o <;> simp [nodeAt, Function.update, h]
  | cons j p ih =>
      by_cases h : o' = o
      · subst h
        rw [if_pos rfl] at ih ⊢
        by_cases hp : p = []
        · rw [if_pos hp] at ih
          rw [nodeAt_cons ih, hempty, if_neg (List.cons_ne_nil j p)]
        · rw [if_neg hp] at ih
          rw [nodeAt_cons_none ih, if_neg (List.cons_ne_nil j p)]
      · rw [if_neg h] at ih ⊢
        simp only [nodeAt, ih]

theorem Forest.plant [DecidableEq ω] (hF : Forest next e root d)
    (hempty : ∀ j, next (e q j) = none) (hfresh : ¬IsNode next e root d q) :
    Forest next e (Function.update root o (some q)) d := by
  intro o₁ o₂ p₁ p₂ n h₁ h₂ hn₁ hn₂
  rw [nodeAt_plant hempty] at hn₁ hn₂
  by_cases c₁ : o₁ = o <;> by_cases c₂ : o₂ = o
  · rw [if_pos c₁] at hn₁
    rw [if_pos c₂] at hn₂
    split at hn₁ <;> split at hn₂ <;> simp_all
  · rw [if_pos c₁] at hn₁
    rw [if_neg c₂] at hn₂
    split at hn₁
    · exact absurd ⟨o₂, p₂, h₂, hn₂.trans hn₁.symm⟩ hfresh
    · cases hn₁
  · rw [if_neg c₁] at hn₁
    rw [if_pos c₂] at hn₂
    split at hn₂
    · exact absurd ⟨o₁, p₁, h₁, hn₁.trans hn₂.symm⟩ hfresh
    · cases hn₂
  · rw [if_neg c₁] at hn₁
    rw [if_neg c₂] at hn₂
    exact hF h₁ h₂ hn₁ hn₂

end SystemN.Radix
