/-
What the operations of `list.h` do to a circular list.

Each takes a ring to a ring and leaves alone every node that is neither in the list
nor the one being moved, so a list with other nodes is not touched.
-/
import SystemN.List

namespace SystemN

open Rings

variable {α : Type} [DecidableEq α] {nodes : α → Links α} {a b head : α} {v : Option α}
  {xs pre post : List α}

@[simp] theorem setPrev_prev : (setPrev nodes a v b).prev = if b = a then v else (nodes b).prev := by
  unfold setPrev
  by_cases h : b = a
  · subst h
    simp
  · simp [h]

@[simp] theorem setPrev_next : (setPrev nodes a v b).next = (nodes b).next := by
  unfold setPrev
  by_cases h : b = a
  · subst h
    simp
  · simp [h]

@[simp] theorem setNext_next : (setNext nodes a v b).next = if b = a then v else (nodes b).next := by
  unfold setNext
  by_cases h : b = a
  · subst h
    simp
  · simp [h]

@[simp] theorem setNext_prev : (setNext nodes a v b).prev = (nodes b).prev := by
  unfold setNext
  by_cases h : b = a
  · subst h
    simp
  · simp [h]

theorem setPrev_of_ne (h : b ≠ a) : setPrev nodes a v b = nodes b := by simp [setPrev, h]

theorem setNext_of_ne (h : b ≠ a) : setNext nodes a v b = nodes b := by simp [setNext, h]

theorem listHeadInit_ring (nodes : α → Links α) (head : α) : IsRing (listHeadInit nodes head) head [] := by
  refine IsRing.nil_iff.mpr (Links.ext ?_ ?_)
  · simp [listHeadInit]
  · simp [listHeadInit]

theorem listHeadInit_of_ne (h : b ≠ head) : listHeadInit nodes head b = nodes b := by
  unfold listHeadInit
  rw [setPrev_of_ne h, setNext_of_ne h]

theorem listEmpty_ring (hr : IsRing nodes head xs) : listEmpty nodes head = true ↔ xs = [] := by
  rw [listEmpty, hr.head_next]
  cases xs with
  | nil => simp
  | cons x xs =>
      have hne : x ≠ head := fun h => (List.nodup_cons.mp hr.nodup).1 (h ▸ List.mem_cons_self)
      simpa using hne

/-- **`list_add`** puts a node that is in no list in front of the first element. -/
theorem listAdd_ring (new : α) (hr : IsRing nodes head xs) (hnew : new ∉ head :: xs) :
    ∃ nodes', listAdd nodes new head = .ok nodes' ∧ IsRing nodes' head (new :: xs) ∧
      ∀ y, y ≠ new → y ∉ head :: xs → nodes' y = nodes y := by
  have hmem : after head xs ∈ head :: xs := by
    have : after head xs ∈ xs ++ [head] := after_mem
    rwa [List.mem_append, List.mem_singleton, or_comm, ← List.mem_cons] at this
  have hne : new ≠ head := fun h => hnew (h ▸ List.mem_cons_self)
  have hfirst : new ≠ after head xs := fun h => hnew (h ▸ hmem)
  have hnext : (nodes head).next = some (after head xs) := hr.head_next
  refine ⟨setNext (setPrev (setPrev (setNext nodes new (some (after head xs))) new
    (some head)) (after head xs) (some new)) head (some new), ?_, ?_, ?_⟩
  · simp [listAdd, hnext, hne.symm, follow, pure, Except.pure]
  · have hr' : IsRing nodes head ([] ++ xs) := hr
    refine hr'.insert hnew (Links.ext ?_ ?_) ?_ ?_ ?_ ?_
    · simp [hfirst]
    · simp [hne]
    · simp
    · simp
    · intro y hy hyh
      have hyn : y ≠ new := fun h => hnew (h ▸ hy)
      rw [before_nil] at hyh
      simp [hyh, hyn]
    · intro y hy hya
      have hyn : y ≠ new := fun h => hnew (h ▸ hy)
      simp [hya, hyn]
  · intro y hyn hy
    have hya : y ≠ after head xs := fun h => hy (h ▸ hmem)
    have hyh : y ≠ head := fun h => hy (h ▸ List.mem_cons_self)
    exact Links.ext (by simp [hyn, hya]) (by simp [hyn, hyh])

/-- **`list_add_tail`** puts a node that is in no list behind the last element. -/
theorem listAddTail_ring (new : α) (hr : IsRing nodes head xs) (hnew : new ∉ head :: xs) :
    ∃ nodes', listAddTail nodes new head = .ok nodes' ∧ IsRing nodes' head (xs ++ [new]) ∧
      ∀ y, y ≠ new → y ∉ head :: xs → nodes' y = nodes y := by
  have hmem : before head xs ∈ head :: xs := before_mem
  have hne : new ≠ head := fun h => hnew (h ▸ List.mem_cons_self)
  have hlast : new ≠ before head xs := fun h => hnew (h ▸ hmem)
  have hprev : (nodes head).prev = some (before head xs) := hr.head_prev
  refine ⟨setPrev (setNext (setPrev (setNext nodes new (some head)) new
    (some (before head xs))) (before head xs) (some new)) head (some new), ?_, ?_, ?_⟩
  · simp [listAddTail, hprev, hne.symm, follow, pure, Except.pure]
  · have hr' : IsRing nodes head (xs ++ []) := by simpa using hr
    refine hr'.insert (by simpa using hnew) (Links.ext ?_ ?_) ?_ ?_ ?_ ?_
    · simp [hne]
    · simp [hlast]
    · simp
    · simp
    · intro y hy hyb
      have hyn : y ≠ new := fun h => hnew (by simpa [h] using hy)
      simp [hyb, hyn]
    · intro y hy hyh
      have hyn : y ≠ new := fun h => hnew (by simpa [h] using hy)
      rw [after_nil] at hyh
      simp [hyh, hyn]
  · intro y hyn hy
    have hyb : y ≠ before head xs := fun h => hy (h ▸ hmem)
    have hyh : y ≠ head := fun h => hy (h ▸ List.mem_cons_self)
    exact Links.ext (by simp [hyn, hyh]) (by simp [hyn, hyb])

/-- **`list_del`** takes its node out of the list, wherever it stands, and detaches it. -/
theorem listDel_ring {x : α} (hr : IsRing nodes head (pre ++ x :: post)) :
    ∃ nodes', listDel nodes x = .ok nodes' ∧ IsRing nodes' head (pre ++ post) ∧
      nodes' x = ⟨none, none⟩ ∧
      ∀ y, y ∉ head :: (pre ++ x :: post) → nodes' y = nodes y := by
  obtain ⟨hprev, hnext⟩ := hr.element
  have hx : x ∉ head :: (pre ++ post) :=
    (List.nodup_cons.mp ((IsRing.perm_insert x).nodup_iff.mp hr.nodup)).1
  have hbmem : before head pre ∈ head :: (pre ++ post) :=
    List.cons_subset_cons head (List.subset_append_left pre post) before_mem
  have hamem : after head post ∈ head :: (pre ++ post) := by
    have : after head post ∈ post ++ [head] := after_mem
    simp only [List.mem_append, List.mem_cons] at this ⊢
    tauto
  have hbx : before head pre ≠ x := fun h => hx (h ▸ hbmem)
  have hax : after head post ≠ x := fun h => hx (h ▸ hamem)
  refine ⟨setNext (setPrev (setNext (setPrev nodes (after head post)
    (some (before head pre))) (before head pre) (some (after head post))) x none) x none,
    ?_, ?_, ?_, ?_⟩
  · simp [listDel, hprev, hnext, follow, pure, Except.pure]
  · have hne : ∀ y ∈ head :: (pre ++ post), y ≠ x := fun y hy h => hx (h ▸ hy)
    refine hr.remove ?_ ?_ ?_ ?_
    · simp [hbx]
    · simp [hax]
    · intro y hy hyb
      simp [hne y hy, hyb]
    · intro y hy hya
      simp [hne y hy, hya]
  · exact Links.ext (by simp) (by simp)
  · intro y hy
    have hyx : y ≠ x := fun h => hy (by simp [h])
    have hy' : y ∉ head :: (pre ++ post) := fun h => hy (by
      simp only [List.mem_cons, List.mem_append] at h ⊢
      tauto)
    have hyb : y ≠ before head pre := fun h => hy' (h ▸ hbmem)
    have hya : y ≠ after head post := fun h => hy' (h ▸ hamem)
    exact Links.ext (by simp [hyx, hya]) (by simp [hyx, hyb])

/-! ### Closed sets of nodes -/

/-- The links of the nodes of `R` lead to nodes of `R`. -/
def Closed (R : α → Prop) (nodes : α → Links α) : Prop :=
  ∀ x, R x → (∀ y, (nodes x).next = some y → R y) ∧ ∀ y, (nodes x).prev = some y → R y

variable {R : α → Prop} {a x : α} {v : Option α}

theorem Closed.setNext (h : Closed R nodes) (hv : ∀ y, v = some y → R y) :
    Closed R (setNext nodes a v) := by
  intro x hx
  by_cases hxa : x = a
  · subst hxa
    simpa using ⟨hv, (h x hx).2⟩
  · simpa [hxa] using h x hx

theorem Closed.setPrev (h : Closed R nodes) (hv : ∀ y, v = some y → R y) :
    Closed R (setPrev nodes a v) := by
  intro x hx
  by_cases hxa : x = a
  · subst hxa
    simpa using ⟨(h x hx).1, hv⟩
  · simpa [hxa] using h x hx

omit [DecidableEq α] in
theorem follow_eq_ok {o : Option α} (h : follow o = .ok a) : o = some a := by
  cases o with
  | none => cases h
  | some b => exact congrArg some (Except.ok.inj h)

theorem Closed.listAddTail (h : Closed R nodes) (hx : R x) (hh : R head)
    (hk : listAddTail nodes x head = .ok nodes') : Closed R nodes' := by
  have hself : ∀ {z : α}, R z → ∀ y, some z = some y → R y := by
    intro z hz y hy
    rwa [← Option.some.inj hy]
  have h₁ : Closed R (SystemN.setNext nodes x (some head)) := h.setNext (hself hh)
  have h₂ := h₁.setPrev (a := x) (h₁ head hh).2
  unfold SystemN.listAddTail at hk
  rw [bind_eq_ok] at hk
  obtain ⟨prev, -, hk⟩ := hk
  obtain rfl := Except.ok.inj hk
  exact (h₂.setNext (hself hx)).setPrev (hself hx)

theorem Closed.listDel (h : Closed R nodes) (hx : R x) (hk : listDel nodes x = .ok nodes') :
    Closed R nodes' := by
  unfold SystemN.listDel at hk
  rw [bind_eq_ok] at hk
  obtain ⟨next, -, hk⟩ := hk
  rw [bind_eq_ok] at hk
  obtain ⟨prev, -, hk⟩ := hk
  obtain rfl := Except.ok.inj hk
  have h₁ := h.setPrev (a := next) (h x hx).2
  have h₂ := h₁.setNext (a := prev) (h₁ x hx).1
  have hnone : ∀ y, (none : Option α) = some y → R y := by simp
  exact (h₂.setPrev hnone).setNext hnone

/-- `list_add_tail` of a new node, whatever its links were. -/
theorem Closed.extend {R' : α → Prop} (h : Closed R nodes) (hR : ∀ y, R' y ↔ R y ∨ y = x)
    (hx : ¬R x) (hh : R head)
    (hk : SystemN.listAddTail nodes x head = .ok nodes') : Closed R' nodes' := by
  have hheadx : head ≠ x := by
    rintro rfl
    exact hx hh
  have hold : ∀ y, R y → R' y := fun y hy => (hR y).mpr (Or.inl hy)
  have hnew : ∀ y, some x = some y → R' y :=
    fun y hy => (hR y).mpr (Or.inr (Option.some.inj hy).symm)
  have h₂ : Closed R' (SystemN.setPrev (SystemN.setNext nodes x (some head)) x
      (SystemN.setNext nodes x (some head) head).prev) := by
    intro y hy
    by_cases hyx : y = x
    · subst hyx
      refine ⟨fun z hz => ?_, fun z hz => ?_⟩
      · obtain rfl : head = z := by simpa using hz
        exact hold _ hh
      · refine hold z ((h head hh).2 z ?_)
        simpa using hz
    · have hy' : R y := ((hR y).mp hy).resolve_right hyx
      refine ⟨fun z hz => hold z ((h y hy').1 z ?_), fun z hz => hold z ((h y hy').2 z ?_)⟩
      · simpa [hyx] using hz
      · simpa [hyx] using hz
  unfold SystemN.listAddTail at hk
  rw [bind_eq_ok] at hk
  obtain ⟨prev, -, hk⟩ := hk
  obtain rfl := Except.ok.inj hk
  exact (h₂.setNext hnew).setPrev hnew

end SystemN
