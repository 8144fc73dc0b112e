/-
Size classes and objects, and what `kmalloc` writes to a new page.

`size_to_idx` finds the smallest class that fits.  A page of class `i` is cut into objects of
`classSize i` bytes, and the loop of `kmalloc` threads them through their first eight bytes,
the last one in front.  Addresses are virtual, at any `va_offset` that keeps RAM below the top
of the address space.
-/
import SystemN.Mm.Snub
import SystemN.Proofs.Mm.Owned

namespace SystemN.Snub

open Tiling Chain Mm

/-! ### Size classes -/

/-- The size of the objects of class `i`. -/
def classSize (i : Nat) : Nat := 2 ^ (snubMinShift + i)

/-- How many objects of class `i` a page holds. -/
def perPage (i : Nat) : Nat := 2 ^ (8 - i)

theorem perPage_mul {i : Nat} (hi : i ≤ 8) : perPage i * classSize i = pageSize := by
  unfold perPage classSize
  rw [← Nat.pow_add, show 8 - i + (snubMinShift + i) = 12 by simp only [snubMinShift]; omega]

theorem pageSize_div {i : Nat} (hi : i ≤ 8) : pageSize / classSize i = perPage i := by
  rw [← perPage_mul hi]
  exact Nat.mul_div_cancel _ (Nat.two_pow_pos _)

theorem objectSize_snubInit (mm : Mm) (i : Nat) :
    ((snubInit mm).caches i).objectSize = classSize i := Nat.one_shiftLeft _

theorem classSize_ge (i : Nat) : 16 ≤ classSize i :=
  Nat.pow_le_pow_right (n := 2) (by decide) (show 4 ≤ snubMinShift + i by simp)

/-- The loop stops at the first class whose objects are large enough. -/
theorem sizeToIdxLoop_spec (size : Nat) {n : Nat} (hn : n ≤ 9) :
    sizeToIdxLoop size n = 13 ∨
      13 - n ≤ sizeToIdxLoop size n ∧ sizeToIdxLoop size n ≤ 12 ∧
        size ≤ 2 ^ sizeToIdxLoop size n ∧
        (13 - n < sizeToIdxLoop size n → 2 ^ (sizeToIdxLoop size n - 1) < size) := by
  induction n with
  | zero => exact .inl rfl
  | succ n ih =>
      have hstep : sizeToIdxLoop size (n + 1) =
          if 2 ^ (13 - (n + 1)) < size then sizeToIdxLoop size n else 13 - (n + 1) := by
        rw [sizeToIdxLoop, Nat.one_shiftLeft]
      rw [hstep]
      split
      · rename_i hlt
        rcases ih (by omega) with h | ⟨hlo, hhi, hfit, hmin⟩
        · exact .inl h
        · refine .inr ⟨by omega, hhi, hfit, fun _ => ?_⟩
          rcases Nat.eq_or_lt_of_le hlo with heq | hlt'
          · rwa [← heq, show 13 - n - 1 = 13 - (n + 1) by omega]
          · exact hmin hlt'
      · exact .inr ⟨le_refl _, by omega, by omega, fun h => absurd h (lt_irrefl _)⟩

/-- It runs past the last class for a size that no class fits. -/
theorem sizeToIdxLoop_past {size n : Nat} (hn : n ≤ 8) (h : sizeToIdxLoop size (n + 1) = 13) :
    pageSize < size := by
  induction n with
  | zero =>
      rw [sizeToIdxLoop] at h
      split at h
      · assumption
      · cases h
  | succ n ih =>
      rw [sizeToIdxLoop] at h
      split at h
      · exact ih (by omega) h
      · simp only [snubMaxShift] at h
        omega

/-- A size in a class fits its objects, and would not fit those of the class below. -/
theorem sizeToIdx_some {size i : Nat} (h : sizeToIdx size = some i) :
    i ≤ 8 ∧ size ≤ classSize i ∧ (0 < i → classSize (i - 1) < size) := by
  have hloop := sizeToIdxLoop_spec size (le_refl 9)
  unfold sizeToIdx at h
  simp only [snubNumClasses, snubMaxShift, snubMinShift, Nat.reduceSub, Nat.reduceAdd] at h
  generalize sizeToIdxLoop size 9 = r at h hloop
  split at h
  · cases h
  · obtain rfl := Option.some.inj h
    rcases hloop with hout | ⟨hlo, hhi, hfit, hmin⟩
    · omega
    · simp only [classSize, snubMinShift]
      refine ⟨by omega, by rwa [show 4 + (r - 4) = r by omega], fun hpos => ?_⟩
      rw [show 4 + (r - 4 - 1) = r - 1 by omega]
      exact hmin (by omega)

/-- **No class** is that of the sizes above a page. -/
theorem sizeToIdx_none_iff {size : Nat} : sizeToIdx size = none ↔ pageSize < size := by
  constructor
  · intro h
    unfold sizeToIdx at h
    dsimp only at h
    split at h
    · rename_i hpast
      rcases sizeToIdxLoop_spec size (le_refl 9) with hout | ⟨-, hle, -⟩
      · exact sizeToIdxLoop_past (le_refl 8) hout
      · exact absurd hpast (Nat.not_lt.mpr hle)
    · cases h
  · intro hlt
    cases h : sizeToIdx size with
    | none => rfl
    | some i =>
        obtain ⟨hi, hfit, -⟩ := sizeToIdx_some h
        have hpow : classSize i ≤ 2 ^ 12 :=
          Nat.pow_le_pow_right (by decide) (show snubMinShift + i ≤ 12 by simp only [snubMinShift]; omega)
        simp only [pageSize] at hlt
        omega

theorem sizeToIdx_le {size i : Nat} (h : sizeToIdx size = some i) : size ≤ pageSize := by
  rw [← Nat.not_lt, ← sizeToIdx_none_iff, h]
  exact Option.some_ne_none i

/-- The objects of a class are the smallest powers of two that hold 16 bytes and the size. -/
theorem classSize_isLeast {size i : Nat} (h : sizeToIdx size = some i) :
    IsLeast {c | (∃ k, c = 2 ^ k) ∧ max size 16 ≤ c} (classSize i) := by
  obtain ⟨-, hfit, hmin⟩ := sizeToIdx_some h
  refine ⟨⟨⟨_, rfl⟩, Nat.max_le.mpr ⟨hfit, classSize_ge i⟩⟩, ?_⟩
  rintro c ⟨⟨k, rfl⟩, hc⟩
  obtain ⟨hsize, h16⟩ := Nat.max_le.mp hc
  rcases Nat.eq_zero_or_pos i with rfl | hpos
  · exact h16
  · have hlt : snubMinShift + (i - 1) < k :=
      (Nat.pow_lt_pow_iff_right (by decide)).mp ((hmin hpos).trans_le hsize)
    exact Nat.pow_le_pow_right (by decide) (by omega)

/-! ### Pointers in objects -/

/-- A `void *` as a link of a list. -/
def ofPtr (v : Nat) : Option Nat := if v = 0 then none else some v

theorem ofPtr_of_ne {v : Nat} (h : v ≠ 0) : ofPtr v = some v := if_neg h

theorem ofPtr_eq_some {v p : Nat} (h : ofPtr v = some p) : v = p ∧ v ≠ 0 := by
  unfold ofPtr at h
  split at h
  · cases h
  · exact ⟨Option.some.inj h, by assumption⟩

theorem ofPtr_eq_none {v : Nat} : ofPtr v = none ↔ v = 0 := by
  unfold ofPtr
  split <;> simp_all

/-- The link in the first bytes of a free object. -/
def next (s : Snub) (p : Nat) : Option Nat := ofPtr (s.loadPtr p)

/-- Object `j` of class `i` in the page at `pa`, where `va_offset` is `off`. -/
def objAt (off pa i j : Nat) : Nat := pa + j * classSize i + off

/-- The object lies in its page. -/
theorem obj_fits {i j : Nat} (hi : i ≤ 8) (hj : j < perPage i) :
    j * classSize i + classSize i ≤ pageSize := by
  rw [← perPage_mul hi, ← Nat.succ_mul]
  exact Nat.mul_le_mul_right _ hj

section Pointers

variable {s : Snub} {off pa i j : Nat} (hpa : IsPage pa) (hi : i ≤ 8) (hj : j < perPage i)
  (hspace : off + userEnd ≤ 2 ^ 64)
include hpa hi hj hspace

theorem objAt_lt : objAt off pa i j < 2 ^ 64 := by
  have hle := hpa.le
  have hfits := obj_fits hi hj
  have hsize := classSize_ge i
  unfold objAt
  omega

omit hi hj hspace in
theorem objAt_ne_zero : objAt off pa i j ≠ 0 := by
  have hpos := hpa.pos
  unfold objAt
  omega

theorem virtToPhys_objAt (hoff : s.mm.vaOffset = off) :
    s.mm.virtToPhys (objAt off pa i j) = pa + j * classSize i := by
  have hlt := objAt_lt hpa hi hj hspace
  unfold virtToPhys
  rw [hoff]
  unfold objAt at hlt ⊢
  rw [sub64_of_le (Nat.le_add_left _ _) hlt]
  exact Nat.add_sub_cancel _ _

theorem loadPtr_objAt (hoff : s.mm.vaOffset = off) :
    s.loadPtr (objAt off pa i j) = Bytes.loadLE s.mm.mem (pa + j * classSize i) 8 := by
  unfold loadPtr loadPte
  rw [virtToPhys_objAt hpa hi hj hspace hoff]

theorem storePtr_objAt (hoff : s.mm.vaOffset = off) (v : Nat) :
    (s.storePtr (objAt off pa i j) v).mm.mem = Bytes.storeLE s.mm.mem (pa + j * classSize i) 8 v := by
  show Bytes.storeLE s.mm.mem (s.mm.virtToPhys (objAt off pa i j)) 8 v = _
  rw [virtToPhys_objAt hpa hi hj hspace hoff]

end Pointers

/-! ### The caches -/

section SetCache

variable (s : Snub) (i v k : Nat)

theorem objectSize_setCache : ((s.setCache i v).caches k).objectSize = (s.caches k).objectSize := by
  unfold setCache
  by_cases hk : k = i
  · subst hk
    simp only [Function.update_self]
  · simp only [Function.update_of_ne hk]

theorem partialList_setCache_self : ((s.setCache i v).caches i).partialList = v := by
  simp only [setCache, Function.update_self]

variable {k i} in
theorem partialList_setCache_of_ne (hk : k ≠ i) :
    ((s.setCache i v).caches k).partialList = (s.caches k).partialList := by
  simp only [setCache, Function.update_of_ne hk]

end SetCache

/-! ### The two ways through `kmalloc` -/

/-- The first object of the free list of class `i`, and the state without it. -/
def popObj (s : Snub) (i : Nat) : Nat × Snub :=
  ((s.caches i).partialList, { s with mm := s.mm.deref (s.caches i).partialList 8 }.setCache i
    (s.loadPtr (s.caches i).partialList))

theorem kmalloc_of_ne {s : Snub} {size i : Nat} (hclass : sizeToIdx size = some i)
    (hne : (s.caches i).partialList ≠ 0) : s.kmalloc size = .ok (s.popObj i) := by
  unfold kmalloc
  rw [hclass]
  dsimp only
  rw [if_neg hne]
  rfl

theorem kmalloc_of_refill {s s' : Snub} {size i : Nat} {ok : Bool}
    (hclass : sizeToIdx size = some i) (hempty : (s.caches i).partialList = 0)
    (hrefill : s.refill i = .ok (ok, s')) :
    s.kmalloc size = .ok (if ok then s'.popObj i else (0, s')) := by
  unfold kmalloc
  rw [hclass]
  dsimp only
  rw [if_pos hempty, hrefill]
  cases ok <;> rfl

/-! ### What `kmalloc` writes to a new page -/

/-- The two states differ in memory and in the trace only. -/
structure SameRecords (s s' : Mm) : Prop where
  statics : SameStatics s s'
  pages : s'.pages = s.pages
  lists : s'.freeLists = s.freeLists

theorem SameRecords.refl (s : Mm) : SameRecords s s := ⟨SameStatics.refl s, rfl, rfl⟩

theorem SameRecords.runInv {s s' : Mm} {live : Multiset (Nat × Nat)} (h : SameRecords s s')
    (hi : RunInv s live) : RunInv s' live :=
  hi.congr h.statics h.pages h.lists

theorem SameRecords.noPage {s s' : Mm} (h : SameRecords s s') (hnone : NoPage s) : NoPage s' := by
  intro o ho
  rw [h.lists]
  exact hnone o ho

theorem SameRecords.freeCount {s s' : Mm} (h : SameRecords s s') : Mm.freeCount s' = Mm.freeCount s :=
  freeCount_congr h.pages h.lists

theorem SameRecords.trans {s s' s'' : Mm} (h : SameRecords s s') (h' : SameRecords s' s'') :
    SameRecords s s'' :=
  ⟨h.statics.trans h'.statics, h'.pages.trans h.pages, h'.lists.trans h.lists⟩

/-- The two states differ in the bytes of page `pa` and in the trace only. -/
structure OnPage (pa : Nat) (s s' : Mm) : Prop where
  statics : SameStatics s s'
  pages : s'.pages = s.pages
  lists : s'.freeLists = s.freeLists
  same : ∀ x, ¬InPage pa x → s'.mem x = s.mem x

namespace OnPage

theorem refl (pa : Nat) (s : Mm) : OnPage pa s s := ⟨SameStatics.refl s, rfl, rfl, fun _ _ => rfl⟩

theorem trans {pa : Nat} {s s' s'' : Mm} (h : OnPage pa s s') (h' : OnPage pa s' s'') :
    OnPage pa s s'' :=
  ⟨h.statics.trans h'.statics, h'.pages.trans h.pages, h'.lists.trans h.lists,
    fun x hx => (h'.same x hx).trans (h.same x hx)⟩

end OnPage

theorem storePtr_statics (s : Snub) (p v : Nat) : SameStatics s.mm (s.storePtr p v).mm :=
  ⟨rfl, rfl, rfl, rfl⟩

theorem storePtr_sameRecords (s : Snub) (p v : Nat) : SameRecords s.mm (s.storePtr p v).mm :=
  ⟨⟨rfl, rfl, rfl, rfl⟩, rfl, rfl⟩

theorem storePtr_records (s : Snub) (p v : Nat) : (s.storePtr p v).mm.pages = s.mm.pages ∧
    (s.storePtr p v).mm.freeLists = s.mm.freeLists ∧ (s.storePtr p v).caches = s.caches :=
  ⟨rfl, rfl, rfl⟩

theorem loadPtr_storePtr (s : Snub) (p v : Nat) : (s.storePtr p v).loadPtr p = v % 2 ^ 64 := by
  show Bytes.loadLE (Bytes.storeLE s.mm.mem (s.mm.virtToPhys p) 8 v) (s.mm.virtToPhys p) 8 = _
  rw [Bytes.loadLE_storeLE, show 256 ^ 8 = 2 ^ 64 by norm_num]

section Store

variable {s s₁ : Snub} {off pa c j head : Nat} (hc : c ≤ 8) (hj : j < perPage c)
  (hmem : s₁.mm.mem = Bytes.storeLE s.mm.mem (pa + j * classSize c) 8 head)
include hc hj hmem

/-- A store to an object stays in its page. -/
theorem store_same {x : Nat} (hx : ¬InPage pa x) : s₁.mm.mem x = s.mm.mem x := by
  have hfits := obj_fits hc hj
  have hsize := classSize_ge c
  rw [hmem]
  apply Bytes.storeLE_of_notMem
  intro hcon
  apply hx
  unfold InPage
  omega

variable (hpa : IsPage pa) (hspace : off + userEnd ≤ 2 ^ 64) (hoff₁ : s₁.mm.vaOffset = off)
include hpa hspace hoff₁

theorem store_next_self (hhead : head < 2 ^ 64) : s₁.next (objAt off pa c j) = ofPtr head := by
  unfold next
  rw [loadPtr_objAt hpa hc hj hspace hoff₁, hmem, Bytes.loadLE_storeLE, show 256 ^ 8 = 2 ^ 64 by norm_num,
    Nat.mod_eq_of_lt hhead]

/-- The objects before it lead where they did. -/
theorem store_next_of_lt (hoff : s.mm.vaOffset = off) {k : Nat} (hk : k < j) :
    s₁.next (objAt off pa c k) = s.next (objAt off pa c k) := by
  have hsize := classSize_ge c
  have hmul : (k + 1) * classSize c ≤ j * classSize c := Nat.mul_le_mul_right _ hk
  rw [Nat.succ_mul] at hmul
  unfold next
  rw [loadPtr_objAt hpa hc (hk.trans hj) hspace hoff₁, loadPtr_objAt hpa hc (hk.trans hj) hspace hoff, hmem,
    Bytes.loadLE_storeLE_of_disjoint (by omega)]

end Store

/-- One store of the loop: the object leads to `head`, and the other objects of the page lead where
they did. -/
theorem exists_storePtr {s : Snub} {off pa c j head : Nat} (hpa : IsPage pa) (hc : c ≤ 8)
    (hj : j < perPage c) (hspace : off + userEnd ≤ 2 ^ 64) (hoff : s.mm.vaOffset = off) (hhead : head < 2 ^ 64) :
    ∃ s₁, s.storePtr (objAt off pa c j) head = s₁ ∧ s₁.mm.vaOffset = off ∧
      s₁.caches = s.caches ∧ OnPage pa s.mm s₁.mm ∧ s₁.next (objAt off pa c j) = ofPtr head ∧
      ∀ k < j, s₁.next (objAt off pa c k) = s.next (objAt off pa c k) := by
  have hmem := storePtr_objAt hpa hc hj hspace hoff head
  have hst := storePtr_statics s (objAt off pa c j) head
  have hoff₁ := hst.vaOffset.trans hoff
  obtain ⟨hpages, hlists, hcaches⟩ := storePtr_records s (objAt off pa c j) head
  exact ⟨_, rfl, hoff₁, hcaches, ⟨hst, hpages, hlists, fun x hx => store_same hc hj hmem hx⟩,
    store_next_self hc hj hmem hpa hspace hoff₁ hhead,
    fun k hk => store_next_of_lt hc hj hmem hpa hspace hoff₁ hoff hk⟩

/-- **The loop of `kmalloc`** threads the objects of a page in front of those threaded so far. -/
theorem threadObjs_spec {off pa c : Nat} (hpa : IsPage pa) (hc : c ≤ 8)
    (hspace : off + userEnd ≤ 2 ^ 64) (n : Nat) :
    ∀ (j head : Nat) (l : List Nat) (s : Snub), s.mm.vaOffset = off → head < 2 ^ 64 →
      j + n ≤ perPage c → IsChain s.next (ofPtr head) l →
      (∀ q ∈ l, ∃ k < j, q = objAt off pa c k) →
      ∃ head' s', threadObjs (pa + off) (classSize c) n j head s = (head', s') ∧
        s'.mm.vaOffset = off ∧
        IsChain s'.next (ofPtr head') (((List.range' j n).map (objAt off pa c)).reverse ++ l) ∧
        s'.caches = s.caches ∧ OnPage pa s.mm s'.mm := by
  induction n with
  | zero =>
      intro j head l s hoff _ _ hchain _
      exact ⟨head, s, rfl, hoff, hchain, rfl, OnPage.refl pa s.mm⟩
  | succ n ih =>
      intro j head l s hoff hhead hfit hchain hl
      have hj : j < perPage c := by omega
      have hobj : u64 (pa + off + j * classSize c) = objAt off pa c j := by
        have hlt := objAt_lt hpa hc hj hspace
        unfold objAt at hlt ⊢
        rw [Nat.add_right_comm]
        exact Nat.mod_eq_of_lt hlt
      obtain ⟨s₁, hstore, hoff₁, hcaches, hon, hself, hkeep⟩ :=
        exists_storePtr hpa hc hj hspace hoff hhead
      have hchain₁ : IsChain s₁.next (ofPtr (objAt off pa c j)) (objAt off pa c j :: l) := by
        refine ⟨ofPtr_of_ne (objAt_ne_zero hpa), ?_⟩
        rw [hself]
        apply hchain.congr
        intro q hq
        obtain ⟨k, hk, rfl⟩ := hl q hq
        exact hkeep k hk
      have hl₁ : ∀ q ∈ objAt off pa c j :: l, ∃ k < j + 1, q = objAt off pa c k := by
        intro q hq
        rcases List.mem_cons.mp hq with rfl | hq
        · exact ⟨j, by omega, rfl⟩
        · obtain ⟨k, hk, rfl⟩ := hl q hq
          exact ⟨k, by omega, rfl⟩
      obtain ⟨head', s', hrun, hoff', hchain', hcaches', hon'⟩ :=
        ih (j + 1) _ _ s₁ hoff₁ (objAt_lt hpa hc hj hspace) (by omega) hchain₁ hl₁
      refine ⟨head', s', ?_, hoff', ?_, hcaches'.trans hcaches, hon.trans hon'⟩
      · rw [threadObjs, hobj, hstore]
        exact hrun
      · rwa [List.range'_succ, List.map_cons, List.reverse_cons, List.append_assoc,
          List.singleton_append]

end SystemN.Snub
