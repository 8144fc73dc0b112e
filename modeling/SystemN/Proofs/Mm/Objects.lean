/-
The objects of the slab allocator.

Each size class has taken pages and cut them into objects, and each object is on the free
list of the class or has been given out, once.  The free list runs through the objects
themselves, so nobody else may write to them.  `kmalloc` moves the first object of the list
to those given out, and threads a new page when there is none; that is all it does to this
account, and the account says all that its callers want to know: distinct objects do not
overlap, whatever their classes.

Of `alloc_page` only this is used: it returns a page, and that was not taken before.
-/
import SystemN.Proofs.Mm.Slab
import SystemN.Proofs.Mm.Frame

namespace SystemN.Snub

open Chain Mm

/-! ### The objects of a page -/

/-- The objects of class `i` in the page at `pa`. -/
def pageObjs (off i pa : Nat) : List Nat := (List.range' 0 (perPage i)).map (objAt off pa i)

section PageObjs

variable {off pa pa' i i' j j' p x : Nat}

theorem mem_pageObjs : p ∈ pageObjs off i pa ↔ ∃ j < perPage i, p = objAt off pa i j := by
  simp only [pageObjs, List.mem_map, List.mem_range'_1, Nat.zero_le, true_and, Nat.zero_add,
    eq_comm]

theorem length_pageObjs : (pageObjs off i pa).length = perPage i := by
  rw [pageObjs, List.length_map, List.length_range']

/-- Two objects of one page do not overlap. -/
theorem objAt_apart (hne : j ≠ j') : objAt off pa i j + classSize i ≤ objAt off pa i j' ∨
    objAt off pa i j' + classSize i ≤ objAt off pa i j := by
  unfold objAt
  rcases Nat.lt_or_gt_of_ne hne with hlt | hlt
  · have hmul : (j + 1) * classSize i ≤ j' * classSize i := Nat.mul_le_mul_right _ hlt
    rw [Nat.succ_mul] at hmul
    omega
  · have hmul : (j' + 1) * classSize i ≤ j * classSize i := Nat.mul_le_mul_right _ hlt
    rw [Nat.succ_mul] at hmul
    omega

theorem objAt_inj (h : objAt off pa i j = objAt off pa i j') : j = j' := by
  by_contra hne
  have hapart : objAt off pa i j + classSize i ≤ objAt off pa i j' ∨
    objAt off pa i j' + classSize i ≤ objAt off pa i j := objAt_apart hne
  have hsize := classSize_ge i
  omega

theorem nodup_pageObjs : (pageObjs off i pa).Nodup :=
  List.Nodup.map (fun _ _ => objAt_inj) List.nodup_range'

/-- The bytes of an object are bytes of its page. -/
theorem objAt_inPage (hi : i ≤ 8) (hj : j < perPage i) (hlo : objAt off pa i j ≤ x + off)
    (hhi : x + off < objAt off pa i j + classSize i) : InPage pa x := by
  have hfits := obj_fits hi hj
  unfold objAt at hlo hhi
  unfold InPage
  omega

/-- Objects of different pages do not overlap. -/
theorem objAt_apart_of_ne (hpa : IsPage pa) (hpa' : IsPage pa') (hne : pa ≠ pa') (hi : i ≤ 8)
    (hi' : i' ≤ 8) (hj : j < perPage i) (hj' : j' < perPage i') :
    objAt off pa i j + classSize i ≤ objAt off pa' i' j' ∨
      objAt off pa' i' j' + classSize i' ≤ objAt off pa i j := by
  have hfits := obj_fits hi hj
  have hfits' := obj_fits hi' hj'
  have haligned := hpa.aligned
  have haligned' := hpa'.aligned
  unfold objAt
  simp only [pageSize] at *
  omega

end PageObjs

/-! ### The invariant -/

theorem mem_record (l : Nat → List Nat) (i k a b : Nat) :
    b ∈ Function.update l i (a :: l i) k ↔ k = i ∧ b = a ∨ b ∈ l k := by
  by_cases hk : k = i
  · subst hk
    rw [Function.update_self, List.mem_cons]
    simp only [true_and]
  · rw [Function.update_of_ne hk]
    simp only [hk, false_and, false_or]

/-- The caches: class `i` has taken the pages `taken i` and given out the objects `given i`, and its
free list is `fl i`. -/
structure SlabInv (s : Snub) (taken given fl : Nat → List Nat) : Prop where
  region : Region s.mm
  space : s.mm.InSpace
  sizes : ∀ i, (s.caches i).objectSize = classSize i
  classes : ∀ i, ∀ pa ∈ taken i, i ≤ 8
  page : ∀ i, ∀ pa ∈ taken i, IsPage pa ∧ s.mm.buddyBasePhys ≤ pa
  nodup : ∀ i, (taken i).Nodup
  /-- No page has been taken by two classes. -/
  apart : ∀ i i', ∀ pa ∈ taken i, pa ∈ taken i' → i = i'
  chain : ∀ i, IsChain s.next (ofPtr (s.caches i).partialList) (fl i)
  objs : ∀ i, (fl i ++ given i).Perm ((taken i).flatMap (pageObjs s.mm.vaOffset i))

namespace SlabInv

variable {s s' : Snub} {taken given fl : Nat → List Nat} {i i' p q pa : Nat}

theorem exists_objAt (h : SlabInv s taken given fl) (hp : p ∈ fl i ++ given i) :
    ∃ pa ∈ taken i, ∃ j < perPage i, p = objAt s.mm.vaOffset pa i j := by
  obtain ⟨pa, hpa, hmem⟩ := List.mem_flatMap.mp ((h.objs i).mem_iff.mp hp)
  exact ⟨pa, hpa, mem_pageObjs.mp hmem⟩

/-- **No two objects overlap**, free or given out. -/
theorem objs_apart (h : SlabInv s taken given fl) (hp : p ∈ fl i ++ given i)
    (hq : q ∈ fl i' ++ given i') (hne : p ≠ q ∨ i ≠ i') :
    p + classSize i ≤ q ∨ q + classSize i' ≤ p := by
  obtain ⟨pa, hpa, j, hj, rfl⟩ := h.exists_objAt hp
  obtain ⟨pa', hpa', j', hj', rfl⟩ := h.exists_objAt hq
  by_cases hsame : pa = pa'
  · subst hsame
    obtain rfl := h.apart i i' pa hpa hpa'
    apply objAt_apart
    rintro rfl
    exact hne.elim (absurd rfl) (absurd rfl)
  · exact objAt_apart_of_ne (h.page i pa hpa).1 (h.page i' pa' hpa').1 hsame (h.classes i pa hpa)
      (h.classes i' pa' hpa') hj hj'

/-- Each object is there once. -/
theorem objs_nodup (h : SlabInv s taken given fl) (i : Nat) : (fl i ++ given i).Nodup := by
  rw [(h.objs i).nodup_iff, List.nodup_flatMap]
  refine ⟨fun _ _ => nodup_pageObjs, ?_⟩
  refine (h.nodup i).pairwise_of_forall_ne ?_
  intro pa hpa pa' hpa' hne p hp hp'
  obtain ⟨j, hj, rfl⟩ := mem_pageObjs.mp hp
  obtain ⟨j', hj', heq⟩ := mem_pageObjs.mp hp'
  have hi := h.classes i pa hpa
  have hapart := heq ▸ objAt_apart_of_ne (h.page i pa hpa).1 (h.page i pa' hpa').1 hne hi hi hj hj'
  have hsize := classSize_ge i
  omega

theorem ne_zero (h : SlabInv s taken given fl) (hp : p ∈ fl i ++ given i) : p ≠ 0 := by
  obtain ⟨pa, hpa, j, -, rfl⟩ := h.exists_objAt hp
  exact objAt_ne_zero (h.page i pa hpa).1

theorem partialList_of_cons {rest : List Nat} (h : SlabInv s taken given fl)
    (hfl : fl i = p :: rest) : (s.caches i).partialList = p ∧ IsChain s.next (s.next p) rest := by
  have hchain := h.chain i
  rw [hfl] at hchain
  exact ⟨(ofPtr_eq_some hchain.1).1, hchain.2⟩

theorem partialList_zero_iff (h : SlabInv s taken given fl) :
    (s.caches i).partialList = 0 ↔ fl i = [] := by
  have hchain := h.chain i
  rw [← ofPtr_eq_none]
  constructor
  · intro hnone
    rw [hnone] at hchain
    exact isChain_none.mp hchain
  · intro hnil
    rwa [hnil] at hchain

theorem partialList_lt (h : SlabInv s taken given fl) : (s.caches i).partialList < 2 ^ 64 := by
  cases hfl : fl i with
  | nil =>
      rw [h.partialList_zero_iff.mpr hfl]
      decide
  | cons q rest =>
      have hq : q ∈ fl i ++ given i := List.mem_append_left _ (hfl ▸ List.mem_cons_self)
      obtain ⟨pa, hpa, j, hj, hat⟩ := h.exists_objAt hq
      rw [(h.partialList_of_cons hfl).1, hat]
      exact objAt_lt (h.page i pa hpa).1 (h.classes i pa hpa) hj h.space

/-- The link of a free object depends on its own bytes. -/
theorem next_eq (h : SlabInv s taken given fl) (hoff : s'.mm.vaOffset = s.mm.vaOffset)
    (hp : p ∈ fl i) (hsame : ∀ x, p ≤ x + s.mm.vaOffset → x + s.mm.vaOffset < p + classSize i →
      s'.mm.mem x = s.mm.mem x) : s'.next p = s.next p := by
  obtain ⟨pa, hpa, j, hj, rfl⟩ := h.exists_objAt (List.mem_append_left _ hp)
  have hi := h.classes i pa hpa
  have hpage := (h.page i pa hpa).1
  have hsize := classSize_ge i
  unfold next
  rw [loadPtr_objAt hpage hi hj h.space rfl, loadPtr_objAt hpage hi hj h.space hoff]
  refine congrArg ofPtr (Bytes.loadLE_congr fun x hx hx' => hsame x ?_ ?_)
  · unfold objAt
    omega
  · unfold objAt
    omega

/-! ### What keeps it -/

/-- The account of one class changes, and no other class is concerned. -/
theorem relink {free objs : List Nat} (h : SlabInv s taken given fl) (hst : SameStatics s.mm s'.mm)
    (hsizes : ∀ k, (s'.caches k).objectSize = (s.caches k).objectSize)
    (hcaches : ∀ k ≠ i, (s'.caches k).partialList = (s.caches k).partialList)
    (hsame : ∀ k ≠ i, ∀ q ∈ fl k, s'.next q = s.next q)
    (hchain : IsChain s'.next (ofPtr (s'.caches i).partialList) free)
    (hobjs : (free ++ objs).Perm (fl i ++ given i)) :
    SlabInv s' taken (Function.update given i objs) (Function.update fl i free) where
  region := h.region.congr hst
  space := h.space.congr hst
  sizes k := (hsizes k).trans (h.sizes k)
  classes := h.classes
  page k pa hpa := hst.base ▸ h.page k pa hpa
  nodup := h.nodup
  apart := h.apart
  chain k := by
    by_cases hk : k = i
    · subst hk
      rwa [Function.update_self]
    · rw [Function.update_of_ne hk, hcaches k hk]
      exact (h.chain k).congr (hsame k hk)
  objs k := by
    rw [hst.vaOffset]
    by_cases hk : k = i
    · subst hk
      rw [Function.update_self, Function.update_self]
      exact hobjs.trans (h.objs k)
    · rw [Function.update_of_ne hk, Function.update_of_ne hk]
      exact h.objs k

/-- The first free object is given out. -/
theorem popObj {rest : List Nat} (h : SlabInv s taken given fl) (hfl : fl i = p :: rest) :
    (s.popObj i).1 = p ∧ SlabInv (s.popObj i).2 taken (Function.update given i (p :: given i))
      (Function.update fl i rest) := by
  obtain ⟨hhead, htail⟩ := h.partialList_of_cons hfl
  refine ⟨hhead, h.relink ⟨rfl, rfl, rfl, rfl⟩ ?_ ?_ (fun _ _ _ _ => rfl) ?_ ?_⟩
  · exact fun k => objectSize_setCache _ i _ k
  · exact fun k hk => partialList_setCache_of_ne _ _ hk
  · simp only [Snub.popObj, partialList_setCache_self, hhead]
    exact htail
  · rw [hfl]
    exact List.perm_middle

/-- Memory is written, but no free object. -/
theorem other (h : SlabInv s taken given fl) (hst : SameStatics s.mm s'.mm)
    (hcaches : s'.caches = s.caches) (hsame : ∀ i, ∀ p ∈ fl i, ∀ x, p ≤ x + s.mm.vaOffset →
      x + s.mm.vaOffset < p + classSize i → s'.mm.mem x = s.mm.mem x) :
    SlabInv s' taken given fl where
  region := h.region.congr hst
  space := h.space.congr hst
  sizes i := hcaches ▸ h.sizes i
  classes := h.classes
  page i pa hpa := hst.base ▸ h.page i pa hpa
  nodup := h.nodup
  apart := h.apart
  chain i := by
    rw [hcaches]
    exact (h.chain i).congr fun p hp => h.next_eq hst.vaOffset hp (hsame i p hp)
  objs i := by
    rw [hst.vaOffset]
    exact h.objs i

/-- An object comes back to its class. -/
theorem push (h : SlabInv s taken given fl) (hp : p ∈ given i) :
    SlabInv ((s.storePtr p (s.caches i).partialList).setCache i p) taken
      (Function.update given i ((given i).erase p)) (Function.update fl i (p :: fl i)) := by
  have hobj := List.mem_append_right (fl i) hp
  obtain ⟨pa, hpa, j, hj, hat⟩ := h.exists_objAt hobj
  have hi := h.classes i pa hpa
  have hpage := (h.page i pa hpa).1
  have hsize := classSize_ge i
  have hmem := storePtr_objAt hpage hi hj h.space rfl (s.caches i).partialList
  have hload := loadPtr_storePtr s p (s.caches i).partialList
  have hst := storePtr_statics s p (s.caches i).partialList
  have hcaches := (storePtr_records s p (s.caches i).partialList).2.2
  rw [← hat] at hmem
  rw [Nat.mod_eq_of_lt h.partialList_lt] at hload
  generalize s.storePtr p (s.caches i).partialList = s₁ at *
  -- Only the bytes of the object are written.
  have hsame : ∀ k, ∀ q ∈ fl k, s₁.next q = s.next q := by
    intro k q hq
    have hapart : p + classSize i ≤ q ∨ q + classSize k ≤ p := by
      apply h.objs_apart hobj (List.mem_append_left _ hq)
      by_cases hk : i = k
      · subst hk
        left
        rintro rfl
        exact (List.nodup_append'.mp (h.objs_nodup i)).2.2 hq hp
      · exact Or.inr hk
    refine h.next_eq hst.vaOffset hq fun x hx hx' => ?_
    rw [hmem]
    apply Bytes.storeLE_of_notMem
    unfold objAt at hat
    omega
  have hst₁ : SameStatics s.mm (s₁.setCache i p).mm := hst
  refine h.relink hst₁ ?_ ?_ (fun k _ => hsame k) ?_ ?_
  · intro k
    rw [objectSize_setCache, hcaches]
  · intro k hk
    rw [partialList_setCache_of_ne _ _ hk, hcaches]
  · rw [partialList_setCache_self]
    refine ⟨ofPtr_of_ne (h.ne_zero hobj), ?_⟩
    show IsChain s₁.next (ofPtr (s₁.loadPtr p)) (fl i)
    rw [hload]
    exact (h.chain i).congr (hsame i)
  · have herase := (List.perm_cons_erase hp).append_left (fl i)
    exact List.perm_middle.symm.trans herase.symm

/-- **A new page**: all of its objects are free. -/
theorem refill {mm : Mm} (h : SlabInv s taken given fl) (hi : i ≤ 8)
    (hcall : s.mm.allocPage = .ok (pa, mm)) (hne : pa ≠ 0) (hfresh : ∀ k, pa ∉ taken k)
    (hempty : fl i = []) :
    ∃ s', s.refill i = .ok (true, s') ∧ SameStatics s.mm mm ∧ OnPage pa mm s'.mm ∧
      SlabInv s' (Function.update taken i (pa :: taken i)) given
        (Function.update fl i (pageObjs s.mm.vaOffset i pa).reverse) := by
  have hspace := h.space
  have hout : HandsOut s.mm 0 pa mm := (allocPages_handsOut hcall).resolve_left fun hnull => hne hnull.1
  obtain ⟨hle, haligned, htop⟩ := hout.addr_le h.region
  have hpage : IsPage pa := ⟨haligned, hne, htop⟩
  have hst := hout.later.statics
  obtain ⟨head, s₁, hthread, hoff₁, hchain, hcaches, hon⟩ := threadObjs_spec hpage hi hspace (perPage i)
    0 0 [] { s with mm := mm } hst.vaOffset (by decide) (Nat.le_of_eq (Nat.zero_add _)) rfl nofun
  have hst₁ : SameStatics s.mm (s₁.setCache i head).mm := hst.trans hon.statics
  have hvirt : mm.physToVirt pa = pa + s.mm.vaOffset := by
    unfold InSpace at hspace
    rw [physToVirt, hst.vaOffset]
    exact Nat.mod_eq_of_lt (by simp only [pageSize] at htop; omega)
  have hsame : ∀ x, ¬InPage pa x → s₁.mm.mem x = s.mm.mem x := by
    intro x hx
    exact (hon.same x hx).trans (hout.same (by decide) x hx)
  refine ⟨s₁.setCache i head, ?_, hst, hon, ?_⟩
  · unfold Snub.refill
    rw [hcall, ok_bind]
    dsimp only
    rw [hvirt, if_neg (by omega), h.sizes, pageSize_div hi, hthread]
    rfl
  have hmem := fun k pa' => mem_record taken i k pa pa'
  refine ⟨h.region.congr hst₁, hspace.congr hst₁, ?_, ?_, ?_, ?_, ?_, ?_, ?_⟩
  · intro k
    rw [objectSize_setCache, hcaches]
    exact h.sizes k
  · intro k pa' hpa'
    rcases (hmem k pa').mp hpa' with ⟨rfl, -⟩ | hold
    · exact hi
    · exact h.classes k pa' hold
  · intro k pa' hpa'
    rw [hst₁.base]
    rcases (hmem k pa').mp hpa' with ⟨-, rfl⟩ | hold
    · exact ⟨hpage, hle⟩
    · exact h.page k pa' hold
  · intro k
    by_cases hk : k = i
    · subst hk
      rw [Function.update_self]
      exact List.nodup_cons.mpr ⟨hfresh k, h.nodup k⟩
    · rw [Function.update_of_ne hk]
      exact h.nodup k
  · intro k k' pa' hpa' hpa''
    rcases (hmem k pa').mp hpa' with ⟨rfl, rfl⟩ | hold
    · rcases (hmem k' _).mp hpa'' with ⟨rfl, -⟩ | hold'
      · rfl
      · exact absurd hold' (hfresh k')
    · rcases (hmem k' pa').mp hpa'' with ⟨rfl, rfl⟩ | hold'
      · exact absurd hold (hfresh k)
      · exact h.apart k k' pa' hold hold'
  · intro k
    by_cases hk : k = i
    · subst hk
      rw [Function.update_self, partialList_setCache_self]
      rwa [List.append_nil] at hchain
    · rw [Function.update_of_ne hk, partialList_setCache_of_ne _ _ hk, hcaches]
      refine (h.chain k).congr fun q hq => h.next_eq hst₁.vaOffset hq fun x hx hx' => ?_
      -- The object lies in a page of its class, which is another one.
      obtain ⟨pa', hpa', j, hj, rfl⟩ := h.exists_objAt (List.mem_append_left _ hq)
      apply hsame
      intro hin
      obtain rfl := hpage.eq_of_inPage (h.page k pa' hpa').1 hin
        (objAt_inPage (h.classes k pa' hpa') hj hx hx')
      exact hfresh k hpa'
  · intro k
    rw [hst₁.vaOffset]
    by_cases hk : k = i
    · subst hk
      rw [Function.update_self, Function.update_self, List.flatMap_cons]
      have hobjs := h.objs k
      rw [hempty, List.nil_append] at hobjs
      exact (List.reverse_perm _).append hobjs
    · rw [Function.update_of_ne hk, Function.update_of_ne hk]
      exact h.objs k

/-! ### `kmalloc` -/

/-- Before a class takes a page it has given out all the objects of each page it has. -/
theorem yielded (h : SlabInv s taken given fl) (hempty : fl i = []) (hpa : pa ∈ taken i) :
    (given i).countP (fun q => pa + s.mm.vaOffset ≤ q ∧ q < pa + s.mm.vaOffset + pageSize) =
      perPage i := by
  have hobjs := h.objs i
  rw [hempty, List.nil_append] at hobjs
  have hi := h.classes i pa hpa
  have hsplit := hobjs.trans ((List.perm_cons_erase hpa).flatMap_right (pageObjs s.mm.vaOffset i))
  rw [List.flatMap_cons] at hsplit
  have hlength : (pageObjs s.mm.vaOffset i pa).length = perPage i := length_pageObjs
  rw [hsplit.countP_eq, List.countP_append, ← hlength]
  have hself : (pageObjs s.mm.vaOffset i pa).countP
      (fun q => pa + s.mm.vaOffset ≤ q ∧ q < pa + s.mm.vaOffset + pageSize) =
        (pageObjs s.mm.vaOffset i pa).length := by
    rw [List.countP_eq_length]
    intro q hq
    obtain ⟨j, hj, rfl⟩ := mem_pageObjs.mp hq
    have hfits := obj_fits hi hj
    have hsize := classSize_ge i
    rw [decide_eq_true_eq]
    unfold objAt
    omega
  have hothers : (((taken i).erase pa).flatMap (pageObjs s.mm.vaOffset i)).countP
      (fun q => pa + s.mm.vaOffset ≤ q ∧ q < pa + s.mm.vaOffset + pageSize) = 0 := by
    rw [List.countP_eq_zero]
    intro q hq
    obtain ⟨pa', hpa', hmem⟩ := List.mem_flatMap.mp hq
    obtain ⟨hne, hold⟩ := (h.nodup i).mem_erase_iff.mp hpa'
    obtain ⟨j, hj, rfl⟩ := mem_pageObjs.mp hmem
    have hfits := obj_fits hi hj
    have hsize := classSize_ge i
    have haligned := (h.page i pa hpa).1.aligned
    have haligned' := (h.page i pa' hold).1.aligned
    rw [decide_eq_true_eq]
    unfold objAt
    simp only [pageSize] at *
    omega
  rw [hself, hothers, Nat.add_zero]

end SlabInv

/-- The class and the page that the call takes, where it takes one. -/
def takes (s : Snub) (size : Nat) : Option (Nat × Nat) :=
  match sizeToIdx size, s.mm.allocPage with
  | some i, .ok (pa, _) => if (s.caches i).partialList = 0 then some (i, pa) else none
  | _, _ => none

/-- One entry more. -/
def record (l : Nat → List Nat) : Option (Nat × Nat) → Nat → List Nat
  | none => l
  | some (i, a) => Function.update l i (a :: l i)

/-- Where the call needs a page, `alloc_page` returns one, and it was not taken before. -/
def FindsPage (s : Snub) (taken : Nat → List Nat) (size : Nat) : Prop :=
  ∀ i, sizeToIdx size = some i → (s.caches i).partialList = 0 →
    ∃ pa mm, s.mm.allocPage = .ok (pa, mm) ∧ pa ≠ 0 ∧ ∀ k, pa ∉ taken k

theorem takes_of_refill {s : Snub} {size i pa : Nat} {mm : Mm} (hclass : sizeToIdx size = some i)
    (hempty : (s.caches i).partialList = 0) (hcall : s.mm.allocPage = .ok (pa, mm)) :
    s.takes size = some (i, pa) := by
  unfold takes
  rw [hclass, hcall]
  exact if_pos hempty

theorem takes_of_ne {s : Snub} {size i : Nat} (hclass : sizeToIdx size = some i)
    (hne : (s.caches i).partialList ≠ 0) : s.takes size = none := by
  unfold takes
  rw [hclass]
  cases s.mm.allocPage with
  | error e => rfl
  | ok r => exact if_neg hne

theorem takes_of_none {s : Snub} {size : Nat} (hclass : sizeToIdx size = none) :
    s.takes size = none := by
  unfold takes
  rw [hclass]

/-- **`kmalloc`** gives out one more object of its class. -/
theorem SlabInv.kmalloc {s : Snub} {taken given fl : Nat → List Nat} {size i : Nat}
    (h : SlabInv s taken given fl) (hclass : sizeToIdx size = some i)
    (hpage : FindsPage s taken size) :
    ∃ p s' fl', s.kmalloc size = .ok (p, s') ∧ SameStatics s.mm s'.mm ∧
      SlabInv s' (record taken (s.takes size)) (Function.update given i (p :: given i)) fl' := by
  by_cases hempty : (s.caches i).partialList = 0
  · obtain ⟨pa, mm, hcall, hne, hfresh⟩ := hpage i hclass hempty
    obtain ⟨s₁, hrefill, hst, hon, hinv⟩ := h.refill (sizeToIdx_some hclass).1 hcall hne hfresh
      (h.partialList_zero_iff.mp hempty)
    have hlen : 0 < (Function.update fl i (pageObjs s.mm.vaOffset i pa).reverse i).length := by
      rw [Function.update_self, List.length_reverse, length_pageObjs]
      exact Nat.two_pow_pos (8 - i)
    obtain ⟨p, rest, hfl⟩ := List.exists_cons_of_length_pos hlen
    obtain ⟨hp, hnew⟩ := hinv.popObj hfl
    rw [takes_of_refill hclass hempty hcall]
    refine ⟨p, (s₁.popObj i).2, _, ?_, ?_, hnew⟩
    · rw [kmalloc_of_refill hclass hempty hrefill, ← hp]
      rfl
    · exact (hst.trans hon.statics).trans ⟨rfl, rfl, rfl, rfl⟩
  · obtain ⟨p, rest, hfl⟩ := List.exists_cons_of_ne_nil (mt h.partialList_zero_iff.mpr hempty)
    obtain ⟨hp, hnew⟩ := h.popObj hfl
    rw [takes_of_ne hclass hempty]
    refine ⟨p, (s.popObj i).2, _, ?_, ⟨rfl, rfl, rfl, rfl⟩, hnew⟩
    rw [kmalloc_of_ne hclass hempty, ← hp]

end SystemN.Snub
