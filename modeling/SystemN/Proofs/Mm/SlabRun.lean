/-
Runs of the slab allocator.

A run starts with `snub_init`, over a page allocator in any state, and is made of calls of
`kmalloc` with any sizes and of whatever other code does meanwhile: it may write to the objects
it has been given and to all memory that is not in a slab page, and use the page allocator.
Nothing is supposed of `alloc_page` but that the pages it returns to `kmalloc` are new.

`kfree` does not know the class of an object and takes the first one whose size divides the
offset in the page.  All offsets are multiples of 16, so that is class 0; and it computes the
page from the address as if `va_offset` were zero, so above it no class is found and the page
itself is freed.
-/
import SystemN.Proofs.Mm.Objects
import SystemN.Proofs.Mm.Exhausted

namespace SystemN.Snub

open Chain Mm

/-- What other code leaves alone: the bytes of slab pages that are in no object given out. -/
def KeepsFree (s s' : Snub) (taken given : Nat → List Nat) : Prop :=
  ∀ i, ∀ pa ∈ taken i, ∀ x, InPage pa x →
    (∀ k, ∀ q ∈ given k, ¬(q ≤ x + s.mm.vaOffset ∧ x + s.mm.vaOffset < q + classSize k)) →
      s'.mm.mem x = s.mm.mem x

/-- The statics of `mem.c` after the boot, at a `va_offset` of whole pages. -/
structure Booted (s : Mm) : Prop where
  region : Region s
  start_le : kernelStart ≤ s.buddyBasePhys
  space : s.InSpace
  aligned : s.vaOffset % pageSize = 0

theorem Booted.congr {s s' : Mm} (h : Booted s) (hst : SameStatics s s') : Booted s' where
  region := h.region.congr hst
  start_le := hst.base ▸ h.start_le
  space := h.space.congr hst
  aligned := hst.vaOffset ▸ h.aligned

/-- The states of the slab allocator, with the pages each class has taken and the objects of each
class that have been given out; where `frees` holds, `kfree` is called on objects of 16 bytes while
`va_offset` is zero. -/
inductive SlabRun (frees : Prop) : Snub → (Nat → List Nat) → (Nat → List Nat) → Prop
  | init {mm : Mm} (hboot : Booted mm) : SlabRun frees (snubInit mm) (fun _ => []) (fun _ => [])
  | kmalloc {s s' : Snub} {taken given : Nat → List Nat} {size p : Nat}
      (hrun : SlabRun frees s taken given) (hpage : FindsPage s taken size)
      (hcall : s.kmalloc size = .ok (p, s')) :
      SlabRun frees s' (record taken (s.takes size))
        (record given ((sizeToIdx size).map fun i => (i, p)))
  | other {s s' : Snub} {taken given : Nat → List Nat} (hrun : SlabRun frees s taken given)
      (hst : SameStatics s.mm s'.mm) (hcaches : s'.caches = s.caches)
      (hsame : KeepsFree s s' taken given) : SlabRun frees s' taken given
  | kfree {s s' : Snub} {taken given : Nat → List Nat} {p : Nat} (hfrees : frees)
      (hrun : SlabRun frees s taken given) (hoff : s.mm.vaOffset = 0) (hp : p ∈ given 0)
      (hcall : s.kfree p = .ok s') :
      SlabRun frees s' taken (Function.update given 0 ((given 0).erase p))

/-! ### `kfree` -/

section Kfree

variable {s s' : Snub} {taken given fl : Nat → List Nat} {i p : Nat}

/-- What `va_offset` is, before the boot and after it. -/
def KernelOffset (off : Nat) : Prop := off = 0 ∨ off = vaOffsetConst

/-- The pages below `va_offset` are lost in the `int`. -/
theorem sext32_pages {h d off : Nat} (hoff : off % 2 ^ 32 = 0) (hd : d < pageSize)
    (hh : h * pageSize < 2 ^ 31) :
    sext32 ((h * pageSize + d + off) / pageSize % 2 ^ 32 * pageSize) = h * pageSize := by
  have hmod : (h * pageSize + d + off) / pageSize % 2 ^ 32 * pageSize % 2 ^ 32 = h * pageSize := by
    simp only [pageSize] at *
    omega
  unfold sext32
  rw [hmod, if_pos hh]

theorem kfreeDiff_objAt {pa j : Nat} (hr : Region s.mm) (hstart : kernelStart ≤ s.mm.buddyBasePhys)
    (hoff : KernelOffset s.mm.vaOffset) (hpage : IsPage pa) (hle : s.mm.buddyBasePhys ≤ pa) (hi : i ≤ 8) (hj : j < perPage i) :
    s.kfreeDiff (objAt s.mm.vaOffset pa i j) = j * classSize i + s.mm.vaOffset := by
  have hfits := obj_fits hi hj
  have hsize := classSize_ge i
  have htop := hpage.le
  have haligned := hpage.aligned
  have hbase := hr.aligned
  have hpos := hr.pos
  have hmod : s.mm.vaOffset % 2 ^ 32 = 0 := by
    rcases hoff with hoff | hoff <;> rw [hoff] <;> rfl
  have hspace : s.mm.vaOffset + userEnd ≤ 2 ^ 64 := by
    rcases hoff with hoff | hoff <;> rw [hoff] <;> decide
  unfold kfreeDiff objAt
  dsimp only
  generalize s.mm.vaOffset = off at *
  generalize s.mm.buddyBasePhys = base at *
  generalize j * classSize i = d at *
  have hd : d < pageSize := by omega
  obtain ⟨h, rfl⟩ : ∃ h, pa = base + h * pageSize := ⟨(pa - base) / pageSize, by
    simp only [pageSize] at *
    omega⟩
  have hoffset : sub64 (base + h * pageSize + d + off) base = h * pageSize + d + off := by
    have hsub := sub64_of_le (show base ≤ base + h * pageSize + d + off by omega) (by omega)
    omega
  have hh : h * pageSize < 2 ^ 31 := by
    simp only [userEnd, kernelStart, pageSize] at *
    omega
  rw [hoffset, sext32_pages hmod hd hh]
  have hpa : u64 (base + h * pageSize) = base + h * pageSize := Nat.mod_eq_of_lt (by omega)
  rw [hpa, sub64_of_le (by omega) (by omega)]
  omega

/-- An offset below the page size leads to class 0, a larger one to no class. -/
theorem kfreeClass_zero {diff : Nat} (hsize : (s.caches 0).objectSize = classSize 0)
    (hdvd : diff % classSize 0 = 0) (hlt : diff < pageSize) :
    s.kfreeClass diff snubNumClasses 0 = some 0 :=
  if_pos ⟨by rwa [hsize], hlt⟩

theorem kfreeClass_none {diff : Nat} (hle : pageSize ≤ diff) (n k : Nat) :
    s.kfreeClass diff n k = none := by
  induction n generalizing k with
  | zero => rfl
  | succ n ih =>
      rw [kfreeClass, if_neg fun h => absurd h.2 (Nat.not_lt.mpr hle)]
      exact ih (k + 1)

/-- Below `va_offset` every object goes to class 0. -/
theorem kfree_zero (h : SlabInv s taken given fl) (hboot : Booted s.mm) (hoff : s.mm.vaOffset = 0)
    (hp : p ∈ given i) :
    s.kfree p = .ok ((s.storePtr p (s.caches 0).partialList).setCache 0 p) := by
  obtain ⟨pa, hpa, j, hj, hat⟩ := h.exists_objAt (List.mem_append_right (fl i) hp)
  have hi := h.classes i pa hpa
  obtain ⟨hpage, hle⟩ := h.page i pa hpa
  have hdiff := kfreeDiff_objAt h.region hboot.start_le (Or.inl hoff) hpage hle hi hj
  have hfits := obj_fits hi hj
  have hsize := classSize_ge i
  rw [hoff, Nat.add_zero] at hdiff
  rw [hoff] at hat
  have hdvd : j * classSize i % classSize 0 = 0 :=
    Nat.mod_eq_zero_of_dvd (Dvd.dvd.mul_left (Nat.pow_dvd_pow 2 (by omega)) j)
  unfold kfree
  rw [hat, hdiff, kfreeClass_zero (h.sizes 0) hdvd (by omega)]

/-- Where no class is found the caches stay as they are. -/
theorem kfree_caches (hle : pageSize ≤ s.kfreeDiff p) (hcall : s.kfree p = .ok s') :
    s'.caches = s.caches := by
  unfold kfree at hcall
  rw [kfreeClass_none hle] at hcall
  obtain ⟨mm, -, hs'⟩ := bind_eq_ok.mp hcall
  rw [← Except.ok.inj hs']

end Kfree

/-! ### Every state of a run -/

section Run

variable {frees : Prop} {s s' : Snub} {taken given fl : Nat → List Nat} {size i p pa : Nat}

theorem slabInv_init {mm : Mm} (hboot : Booted mm) :
    SlabInv (snubInit mm) (fun _ => []) (fun _ => []) (fun _ => []) where
  region := hboot.region
  space := hboot.space
  sizes := objectSize_snubInit mm
  classes _ _ := nofun
  page _ _ := nofun
  nodup _ := List.nodup_nil
  apart _ _ _ := nofun
  chain _ := rfl
  objs _ := List.Perm.refl _

theorem kmalloc_of_none (hclass : sizeToIdx size = none) : s.kmalloc size = .ok (0, s) := by
  unfold kmalloc
  rw [hclass]

/-- What other code may write is no free object. -/
theorem SlabInv.keepsFree (h : SlabInv s taken given fl) (hst : SameStatics s.mm s'.mm)
    (hcaches : s'.caches = s.caches) (hsame : KeepsFree s s' taken given) :
    SlabInv s' taken given fl := by
  refine h.other hst hcaches fun k p hp x hlo hhi => ?_
  have hobj : p ∈ fl k ++ given k := List.mem_append_left _ hp
  obtain ⟨pa, hpa, j, hj, hat⟩ := h.exists_objAt hobj
  refine hsame k pa hpa x ?_ fun k' q hq ⟨hlo', hhi'⟩ => ?_
  · exact objAt_inPage (h.classes k pa hpa) hj (hat ▸ hlo) (hat ▸ hhi)
  · have hapart : p + classSize k ≤ q ∨ q + classSize k' ≤ p := by
      apply h.objs_apart hobj (List.mem_append_right _ hq)
      by_cases hk : k = k'
      · subst hk
        left
        rintro rfl
        exact (List.nodup_append'.mp (h.objs_nodup k)).2.2 hp hq
      · exact Or.inr hk
    omega

/-- **The account is kept**, by every step of a run. -/
theorem SlabRun.inv (hrun : SlabRun frees s taken given) :
    (∃ fl, SlabInv s taken given fl) ∧ Booted s.mm := by
  induction hrun with
  | init hboot => exact ⟨⟨_, slabInv_init hboot⟩, hboot⟩
  | @kmalloc s s' taken given size p hrun hpage hcall ih =>
      obtain ⟨⟨fl, h⟩, hboot⟩ := ih
      cases hclass : sizeToIdx size with
      | none =>
          rw [kmalloc_of_none hclass] at hcall
          obtain ⟨rfl, rfl⟩ := Prod.mk.inj (Except.ok.inj hcall)
          rw [takes_of_none hclass]
          exact ⟨⟨fl, h⟩, hboot⟩
      | some i =>
          obtain ⟨p', s₁, fl', hcall', hst, hinv⟩ := h.kmalloc hclass hpage
          rw [hcall] at hcall'
          obtain ⟨rfl, rfl⟩ := Prod.mk.inj (Except.ok.inj hcall')
          exact ⟨⟨fl', hinv⟩, hboot.congr hst⟩
  | other hrun hst hcaches hsame ih =>
      obtain ⟨⟨fl, h⟩, hboot⟩ := ih
      exact ⟨⟨fl, h.keepsFree hst hcaches hsame⟩, hboot.congr hst⟩
  | kfree hfrees hrun hoff hp hcall ih =>
      obtain ⟨⟨fl, h⟩, hboot⟩ := ih
      rw [kfree_zero h hboot hoff hp] at hcall
      rw [← Except.ok.inj hcall]
      exact ⟨⟨_, h.push hp⟩, hboot.congr (storePtr_statics _ _ _)⟩

/-! ### What `kmalloc` returns -/

/-- The page at `pa`, as the caller of `kmalloc` sees it, has given out these objects of `l`. -/
def yield (s : Mm) (pa : Nat) (l : List Nat) : Nat :=
  l.countP fun q => s.physToVirt pa ≤ q ∧ q < s.physToVirt pa + pageSize

/-- What `kmalloc(size)` returns in the state `s`. -/
structure Fits (s : Snub) (taken given : Nat → List Nat) (size p : Nat) : Prop where
  null_iff : p = 0 ↔ pageSize < size
  /-- An object of the smallest class, in one page, beside all objects given out before. -/
  object : size ≤ pageSize → ∃ c, IsLeast {c | (∃ k, c = 2 ^ k) ∧ max size 16 ≤ c} c ∧
    p % c = 0 ∧ p % pageSize + c ≤ pageSize ∧ ∀ k, ∀ q ∈ given k, p + c ≤ q ∨ q + classSize k ≤ p
  /-- When a page is taken, those that the class has taken before have given out all they hold. -/
  yields : ∀ i pa, s.takes size = some (i, pa) → ∀ pa' ∈ taken i,
    yield s.mm pa' (given i) = pageSize / classSize i

theorem objAt_aligned {off j : Nat} (hoff : off % pageSize = 0) (hpa : IsPage pa) (hi : i ≤ 8)
    (hj : j < perPage i) : objAt off pa i j % classSize i = 0 ∧
      objAt off pa i j % pageSize + classSize i ≤ pageSize := by
  have hfits := obj_fits hi hj
  have hsize := classSize_ge i
  have haligned := hpa.aligned
  have hdvd : classSize i ∣ pageSize := ⟨perPage i, by rw [Nat.mul_comm, perPage_mul hi]⟩
  have hmod : objAt off pa i j % pageSize = j * classSize i := by
    unfold objAt
    generalize j * classSize i = d at *
    simp only [pageSize] at *
    omega
  refine ⟨?_, by rwa [hmod]⟩
  rw [← Nat.mod_mod_of_dvd _ hdvd, hmod]
  exact Nat.mul_mod_left _ _

theorem yield_eq (h : SlabInv s taken given fl) (hempty : fl i = []) (hpa : pa ∈ taken i) :
    yield s.mm pa (given i) = pageSize / classSize i := by
  have hspace := h.space
  have htop := (h.page i pa hpa).1.le
  have hvirt : s.mm.physToVirt pa = pa + s.mm.vaOffset := by
    unfold InSpace at hspace
    exact Nat.mod_eq_of_lt (by simp only [pageSize] at htop; omega)
  rw [pageSize_div (h.classes i pa hpa), ← h.yielded hempty hpa, yield, hvirt]

/-- A page is taken for an empty list only. -/
theorem empty_of_takes (h : s.takes size = some (i, pa)) : (s.caches i).partialList = 0 := by
  by_contra hne
  unfold takes at h
  split at h
  · split at h
    · rename_i hempty
      obtain ⟨rfl, rfl⟩ := Prod.mk.inj (Option.some.inj h)
      exact hne hempty
    · cases h
  · cases h

/--
**`kmalloc` fits and aligns**, in every state that calls of `kmalloc` lead to.
-/
theorem SlabRun.kmalloc_fits (hrun : SlabRun False s taken given) (hpage : FindsPage s taken size) :
    ∃ p s', s.kmalloc size = .ok (p, s') ∧ Fits s taken given size p := by
  obtain ⟨⟨fl, h⟩, hboot⟩ := hrun.inv
  cases hclass : sizeToIdx size with
  | none =>
      have hlt := sizeToIdx_none_iff.mp hclass
      refine ⟨0, s, kmalloc_of_none hclass, iff_of_true rfl hlt, ?_, ?_⟩
      · exact fun hle => absurd hlt (Nat.not_lt.mpr hle)
      · intro i pa htakes
        rw [takes_of_none hclass] at htakes
        cases htakes
  | some i =>
      obtain ⟨p, s', fl', hcall, hst, hinv⟩ := h.kmalloc hclass hpage
      have hmem : p ∈ fl' i ++ Function.update given i (p :: given i) i := by
        rw [Function.update_self]
        exact List.mem_append_right _ List.mem_cons_self
      have hle : ¬pageSize < size := by
        rw [← sizeToIdx_none_iff, hclass]
        exact Option.some_ne_none i
      refine ⟨p, s', hcall, iff_of_false (hinv.ne_zero hmem) hle, ?_, ?_⟩
      · intro _
        obtain ⟨pa, hpa, j, hj, hat⟩ := hinv.exists_objAt hmem
        have hoff := (hboot.congr hst).aligned
        obtain ⟨hmod, hfit⟩ := objAt_aligned hoff (hinv.page i pa hpa).1 (hinv.classes i pa hpa) hj
        rw [← hat] at hmod hfit
        refine ⟨classSize i, classSize_isLeast hclass, hmod, hfit, ?_⟩
        intro k q hq
        have hqmem : q ∈ fl' k ++ Function.update given i (p :: given i) k :=
          List.mem_append_right _ ((mem_record given i k p q).mpr (Or.inr hq))
        apply hinv.objs_apart hmem hqmem
        by_cases hk : i = k
        · subst hk
          left
          rintro rfl
          have hnodup := (List.nodup_append'.mp (hinv.objs_nodup i)).2.1
          rw [Function.update_self] at hnodup
          exact (List.nodup_cons.mp hnodup).1 hq
        · exact Or.inr hk
      · intro i' pa htakes pa' hpa'
        exact yield_eq h (h.partialList_zero_iff.mp (empty_of_takes htakes)) hpa'

/-! ### What `kfree` does with it -/

/-- `p` has been put on the list of class `i`, and nothing else has changed in the caches and in the
page allocator. -/
structure Refiled (s s' : Snub) (i p : Nat) : Prop where
  head : (s'.caches i).partialList = p
  list : ∀ l, IsChain s.next (ofPtr (s.caches i).partialList) l →
    IsChain s'.next (ofPtr (s'.caches i).partialList) (p :: l)
  others : ∀ k ≠ i, s'.caches k = s.caches k
  pages : s'.mm.pages = s.mm.pages
  freeLists : s'.mm.freeLists = s.mm.freeLists

/-- `kfree` puts `p` back on the list of the class of `size`, and `kmalloc` returns it again. -/
def ComesBack (s : Snub) (size p : Nat) : Prop :=
  ∃ i s', sizeToIdx size = some i ∧ s.kfree p = .ok s' ∧ Refiled s s' i p ∧
    ∃ s'', s'.kmalloc size = .ok (p, s'')

theorem SlabInv.head_ne (h : SlabInv s taken given fl) (hp : p ∈ given i) :
    (s.caches i).partialList ≠ p := by
  cases hfl : fl i with
  | nil =>
      rw [h.partialList_zero_iff.mpr hfl]
      exact (h.ne_zero (List.mem_append_right _ hp)).symm
  | cons q rest =>
      rw [(h.partialList_of_cons hfl).1]
      rintro rfl
      exact (List.nodup_append'.mp (h.objs_nodup i)).2.2 (hfl ▸ List.mem_cons_self) hp

/-- An object of 16 bytes comes back while `va_offset` is zero. -/
theorem SlabInv.comesBack (h : SlabInv s taken given fl) (hboot : Booted s.mm)
    (hoff : s.mm.vaOffset = 0) (hclass : sizeToIdx size = some 0) (hp : p ∈ given 0) :
    ComesBack s size p := by
  have hcall := kfree_zero h hboot hoff hp
  have hinv := h.push hp
  have hhead := partialList_setCache_self (s.storePtr p (s.caches 0).partialList) 0 p
  have hothers : ∀ k ≠ 0, ((s.storePtr p (s.caches 0).partialList).setCache 0 p).caches k =
      s.caches k := fun k hk => Function.update_of_ne hk _ _
  have hrecords := storePtr_records s p (s.caches 0).partialList
  generalize hs' : (s.storePtr p (s.caches 0).partialList).setCache 0 p = s' at *
  have hpages : s'.mm.pages = s.mm.pages := hs' ▸ hrecords.1
  have hlists : s'.mm.freeLists = s.mm.freeLists := hs' ▸ hrecords.2.1
  refine ⟨0, s', hclass, hcall, ⟨hhead, ?_, hothers, hpages, hlists⟩, (s'.popObj 0).2, ?_⟩
  · intro l hl
    obtain rfl := hl.unique (h.chain 0)
    have hchain := hinv.chain 0
    rwa [Function.update_self] at hchain
  · have hne : (s'.caches 0).partialList ≠ 0 := by
      rw [hhead]
      exact h.ne_zero (List.mem_append_right _ hp)
    rw [kmalloc_of_ne hclass hne, ← hhead]
    rfl

/-- What is not at the head of its list is not there after a call that leaves the list alone. -/
theorem not_comesBack (hclass : sizeToIdx size = some i) (hhead : (s.caches i).partialList ≠ p)
    (hcaches : ∀ s', s.kfree p = .ok s' → (s'.caches i).partialList = (s.caches i).partialList) :
    ¬ComesBack s size p := by
  rintro ⟨i', s', hclass', hcall, hfiled, -⟩
  obtain rfl : i = i' := Option.some.inj (hclass.symm.trans hclass')
  exact hhead ((hcaches s' hcall).symm.trans hfiled.head)

/-- Above, `kfree` finds no class. -/
theorem SlabInv.comesBack_iff (h : SlabInv s taken given fl) (hboot : Booted s.mm)
    (hoff : KernelOffset s.mm.vaOffset) (hclass : sizeToIdx size = some i) (hp : p ∈ given i) :
    ComesBack s size p ↔ s.mm.vaOffset = 0 ∧ i = 0 := by
  have hhead := h.head_ne hp
  constructor
  · intro hback
    by_contra hnot
    refine not_comesBack hclass hhead ?_ hback
    intro s' hcall
    rcases hoff with hzero | hup
    · rw [kfree_zero h hboot hzero hp] at hcall
      rw [← Except.ok.inj hcall, partialList_setCache_of_ne]
      · rfl
      · exact fun hi => hnot ⟨hzero, hi⟩
    · obtain ⟨pa, hpa, j, hj, hat⟩ := h.exists_objAt (List.mem_append_right (fl i) hp)
      obtain ⟨hpage, hle⟩ := h.page i pa hpa
      have hdiff := kfreeDiff_objAt h.region hboot.start_le (Or.inr hup) hpage hle
        (h.classes i pa hpa) hj
      have hge : pageSize ≤ s.kfreeDiff p := by
        rw [hat, hdiff, hup]
        exact Nat.le_add_left_of_le (by decide)
      rw [kfree_caches hge hcall]
  · rintro ⟨hzero, rfl⟩
    exact h.comesBack hboot hzero hclass hp

/-- If `alloc_page` returns a page to the call, it was not taken before. -/
def TakesNew (s : Snub) (taken : Nat → List Nat) (size : Nat) : Prop :=
  ∀ i pa mm, sizeToIdx size = some i → (s.caches i).partialList = 0 →
    s.mm.allocPage = .ok (pa, mm) → pa ≠ 0 → ∀ k, pa ∉ taken k

theorem allocPage_of_kmalloc {r : Nat × Snub} (hclass : sizeToIdx size = some i)
    (hempty : (s.caches i).partialList = 0) (hcall : s.kmalloc size = .ok r) :
    ∃ pa mm, s.mm.allocPage = .ok (pa, mm) := by
  unfold kmalloc at hcall
  rw [hclass] at hcall
  dsimp only at hcall
  rw [if_pos hempty] at hcall
  obtain ⟨_, hrefill, -⟩ := bind_eq_ok.mp hcall
  obtain ⟨⟨pa, mm⟩, halloc, -⟩ := bind_eq_ok.mp hrefill
  exact ⟨pa, mm, halloc⟩

theorem sizeToIdx_zero_iff (hclass : sizeToIdx size = some i) : i = 0 ↔ size ≤ 16 := by
  obtain ⟨-, hfit, hmin⟩ := sizeToIdx_some hclass
  constructor
  · rintro rfl
    exact hfit
  · intro hle
    by_contra hne
    have hlt := hmin (Nat.pos_of_ne_zero hne)
    have hge := classSize_ge (i - 1)
    omega

/-- The objects that lie over physical page 0 are in no class either. -/
theorem kfreeDiff_null (hboot : Booted s.mm) (hoff : s.mm.vaOffset = vaOffsetConst) {d : Nat}
    (hd : d < pageSize) : pageSize ≤ s.kfreeDiff (u64 (s.mm.physToVirt 0 + d)) := by
  have htop := hboot.region.top
  have hstart := hboot.start_le
  have haligned := hboot.region.aligned
  have hptr : u64 (s.mm.physToVirt 0 + d) = 2 ^ 64 - 2 ^ 32 + d := by
    rw [physToVirt_zero, hoff]
    simp only [u64, pageSize, vaOffsetConst, kernelStartVa, kernelStart] at *
    omega
  rw [hptr]
  unfold kfreeDiff
  dsimp only
  generalize s.mm.buddyBasePhys = base at *
  have hbase : base ≤ 2 ^ 32 := by
    simp only [userEnd] at htop
    omega
  have hoffset : sub64 (2 ^ 64 - 2 ^ 32 + d) base = 2 ^ 64 - 2 ^ 32 + d - base :=
    sub64_of_le (by omega) (by simp only [pageSize] at hd; omega)
  have hmod : (2 ^ 64 - 2 ^ 32 + d - base) / pageSize % 2 ^ 32 * pageSize % 2 ^ 32 =
      2 ^ 32 - base := by
    simp only [pageSize, kernelStart] at *
    omega
  have hsext : u64 (base + sext32 ((2 ^ 64 - 2 ^ 32 + d - base) / pageSize % 2 ^ 32 * pageSize)) ≤
      2 ^ 32 := by
    unfold sext32
    rw [hmod]
    simp only [u64]
    split <;> omega
  rw [hoffset, sub64_of_le (by omega) (by simp only [pageSize] at hd; omega)]
  simp only [pageSize] at *
  omega

/--
**What `kfree` gets right** are the objects of 16 bytes before the boot has set `va_offset`.
-/
theorem SlabRun.kfree_comesBack_iff (hrun : SlabRun True s taken given)
    (hoff : KernelOffset s.mm.vaOffset) (hsize : size ≤ pageSize) (hnew : TakesNew s taken size)
    (hcall : s.kmalloc size = .ok (p, s')) (hp : p ≠ 0) :
    ComesBack s' size p ↔ s.mm.vaOffset = 0 ∧ size ≤ 16 := by
  obtain ⟨⟨fl, h⟩, hboot⟩ := hrun.inv
  obtain ⟨i, hclass⟩ : ∃ i, sizeToIdx size = some i := by
    apply Option.ne_none_iff_exists'.mp
    rw [Ne, sizeToIdx_none_iff]
    omega
  rw [← sizeToIdx_zero_iff hclass]
  by_cases hnull : (s.caches i).partialList = 0 ∧ ∃ mm, s.mm.allocPage = .ok (0, mm)
  · obtain ⟨hempty, mm, hnull⟩ := hnull
    obtain rfl := allocPages_null h.region hnull
    rcases hoff with hzero | hup
    · have hvirt : s.mm.physToVirt 0 = 0 := by rw [physToVirt_zero, hzero, Nat.zero_mod]
      rw [kmalloc_zero hnull hvirt hclass hempty] at hcall
      exact absurd (Prod.mk.inj (Except.ok.inj hcall)).1.symm hp
    · have hvirt : s.mm.physToVirt 0 ≠ 0 := by
        rw [physToVirt_zero, hup]
        decide
      obtain ⟨n, p', s₁, hn, hp', ⟨hst, -, -⟩, hcall', hhead⟩ :=
        kmalloc_offset hnull hvirt hclass hempty (h.sizes i)
      rw [hcall] at hcall'
      obtain ⟨rfl, rfl⟩ := Prod.mk.inj (Except.ok.inj hcall')
      have hfits := obj_fits (sizeToIdx_some hclass).1 (show n < perPage i by omega)
      have hge := classSize_ge i
      have hdiff : pageSize ≤ s'.kfreeDiff p := by
        rw [hp', physToVirt_zero, ← hst.vaOffset, ← physToVirt_zero]
        exact kfreeDiff_null (hboot.congr hst) (hst.vaOffset.trans hup) (by omega)
      refine iff_of_false (not_comesBack hclass hhead ?_) fun hand => ?_
      · intro s'' hfree
        rw [kfree_caches hdiff hfree]
      · rw [hand.1] at hup
        exact absurd hup (by decide)
  · have hpage : FindsPage s taken size := by
      intro k hk hempty
      obtain ⟨pa, mm, halloc⟩ := allocPage_of_kmalloc hk hempty hcall
      have hne : pa ≠ 0 := by
        rintro rfl
        obtain rfl : i = k := Option.some.inj (hclass.symm.trans hk)
        exact hnull ⟨hempty, mm, halloc⟩
      exact ⟨pa, mm, halloc, hne, hnew k pa mm hk hempty halloc hne⟩
    obtain ⟨p', s₁, fl', hcall', hst, hinv⟩ := h.kmalloc hclass hpage
    rw [hcall] at hcall'
    obtain ⟨rfl, rfl⟩ := Prod.mk.inj (Except.ok.inj hcall')
    have hmem : p ∈ Function.update given i (p :: given i) i := by
      rw [Function.update_self]
      exact List.mem_cons_self
    rw [← hst.vaOffset]
    exact hinv.comesBack_iff (hboot.congr hst) (hst.vaOffset ▸ hoff) hclass hmem

end Run

/-! ### A small image -/

theorem kernelStart_le_initBase {L : Layout} (hL : L.kernelEnd + pageSize ≤ userEnd) :
    kernelStart ≤ initBase L := by
  obtain ⟨hend, -, -⟩ := initTable_bounds hL
  obtain ⟨hbase, -⟩ := initBase_bounds hL
  obtain ⟨-, -, hro, hstart, -⟩ := L.sections
  have hdata := L.dataStart_le
  exact (((hstart.trans hro).trans hdata).trans hend).trans ((Nat.le_add_right _ _).trans hbase)

/-- `buddy_allocator_init` leaves such statics. -/
theorem booted_of_init {L : Layout} {m : Nat → UInt8} {kp : Nat} {s : Mm}
    (h : buddyAllocatorInit L m = .ok (kp, s)) : Booted s := by
  obtain ⟨hL, -, hst⟩ := statics_of_init h
  obtain ⟨howned, -⟩ := owned_of_init h
  refine ⟨howned.run.region, ?_, howned.inSpace, ?_⟩
  · rw [hst.base]
    exact kernelStart_le_initBase hL
  · rw [hst.vaOffset]
    rfl

/-- And so does `mm_init`. -/
theorem booted_of_mmInit {L : Layout} {m : Nat → UInt8} {kp : Nat} {S : Snub}
    (h : mmInit L m = .ok (kp, S)) : Booted S.mm := by
  obtain ⟨tabs, howned, -, hL, hst⟩ := mmInit_spec h
  refine ⟨howned.run.region, ?_, howned.inSpace, ?_⟩
  · rw [hst.base]
    exact kernelStart_le_initBase hL
  · rw [hst.vaOffset]
    exact show vaOffsetConst % pageSize = 0 by decide

/-- The first call finds a page, if one is free. -/
theorem findsPage_init {mm : Mm} {live : Multiset (Nat × Nat)} (hi : RunInv mm live)
    (hfree : 0 < Mm.freeCount mm) (size : Nat) : FindsPage (snubInit mm) (fun _ => []) size := by
  intro i hclass hempty
  rcases hi.allocPage with ⟨-, hnone⟩ | ⟨pa, mm', hcall, hne, -⟩
  · rw [hi.freeCount_of_noPage hnone] at hfree
    exact absurd hfree (lt_irrefl 0)
  · exact ⟨pa, mm', hcall, hne, fun _ => List.not_mem_nil⟩

/-- Whether the first object comes back. -/
theorem exists_first {mm : Mm} {live : Multiset (Nat × Nat)} {size i : Nat} (hboot : Booted mm)
    (hoff : KernelOffset mm.vaOffset) (hi : RunInv mm live) (hfree : 0 < Mm.freeCount mm)
    (hclass : sizeToIdx size = some i) :
    ∃ p s', (snubInit mm).kmalloc size = .ok (p, s') ∧ p ≠ 0 ∧
      (ComesBack s' size p ↔ mm.vaOffset = 0 ∧ i = 0) := by
  obtain ⟨p, s', fl', hcall, hst, hinv⟩ :=
    (slabInv_init hboot).kmalloc hclass (findsPage_init hi hfree size)
  have hmem : p ∈ Function.update (fun _ => []) i [p] i := by
    rw [Function.update_self]
    exact List.mem_cons_self
  have hback := hinv.comesBack_iff (hboot.congr hst) (hst.vaOffset ▸ hoff) hclass hmem
  rw [hst.vaOffset] at hback
  exact ⟨p, s', hcall, hinv.ne_zero (List.mem_append_right _ hmem), hback⟩

/-- The page allocator of the small image before `setup_kernel_pagetable`. -/
theorem exists_lower_smallLayout :
    ∃ kp mm, buddyAllocatorInit smallLayout (fun _ => 0) = .ok (kp, mm) ∧ RunInv mm 0 ∧
      0 < Mm.freeCount mm ∧ mm.vaOffset = 0 := by
  obtain ⟨s, fl, hinit, -, hst, -⟩ := buddyAllocatorInit_spec smallLayout_fits fun _ => 0
  have hrun := (owned_of_init hinit).1.run
  have hcount := hrun.freeCount_add
  have hnum : s.numPages = (userEnd - initBase smallLayout) / pageSize := hst.numPages
  rw [hnum, show pageCount 0 = 0 from Multiset.sum_zero, Nat.add_zero] at hcount
  have hpos : 0 < (userEnd - initBase smallLayout) / pageSize := by decide
  exact ⟨_, s, hinit, hrun, hcount ▸ hpos, hst.vaOffset⟩

/-- And after `mm_init`. -/
theorem exists_upper_smallLayout :
    ∃ kp S live, mmInit smallLayout (fun _ => 0) = .ok (kp, S) ∧ RunInv S.mm live ∧
      0 < Mm.freeCount S.mm ∧ S.mm.vaOffset = vaOffsetConst := by
  obtain ⟨kp, S, hS, hfree⟩ := exists_boot_smallLayout
  obtain ⟨tabs, howned, -, -, hst⟩ := mmInit_spec hS
  exact ⟨kp, S, tabs, hS, howned.run, by omega, hst.vaOffset⟩

theorem kmalloc_fits_smallLayout :
    ∃ s : Snub, ∃ p s', s.kmalloc 40 = .ok (p, s') ∧ Fits s (fun _ => []) (fun _ => []) 40 p := by
  obtain ⟨kp, S, live, hS, hi, hfree, -⟩ := exists_upper_smallLayout
  exact ⟨snubInit S.mm,
    (SlabRun.init (booted_of_mmInit hS)).kmalloc_fits (findsPage_init hi hfree 40)⟩

theorem kfree_comesBack_iff_smallLayout :
    ∃ mm : Mm, ∃ p s', (snubInit mm).kmalloc 16 = .ok (p, s') ∧
      (ComesBack s' 16 p ↔ mm.vaOffset = 0 ∧ 16 ≤ 16) := by
  obtain ⟨kp, mm, hinit, hi, hfree, hoff⟩ := exists_lower_smallLayout
  have hboot := booted_of_init hinit
  obtain ⟨p, s', hcall, hne, -⟩ :=
    exists_first hboot (Or.inl hoff) hi hfree (show sizeToIdx 16 = some 0 by decide)
  exact ⟨mm, p, s', hcall, (SlabRun.init hboot).kfree_comesBack_iff (Or.inl hoff) (by decide)
    (fun _ _ _ _ _ _ _ _ => List.not_mem_nil) hcall hne⟩

/-- After `mm_init` the first object of 16 bytes does not come back, and before
`setup_kernel_pagetable` that of 32 bytes does not. -/
theorem not_comesBack_smallLayout :
    (∃ kp S, mmInit smallLayout (fun _ => 0) = .ok (kp, S) ∧
      ∃ p s', (snubInit S.mm).kmalloc 16 = .ok (p, s') ∧ p ≠ 0 ∧ ¬ComesBack s' 16 p) ∧
    (∃ kp mm, buddyAllocatorInit smallLayout (fun _ => 0) = .ok (kp, mm) ∧
      ∃ p s', (snubInit mm).kmalloc 32 = .ok (p, s') ∧ p ≠ 0 ∧ ¬ComesBack s' 32 p) := by
  constructor
  · obtain ⟨kp, S, live, hS, hi, hfree, hoff⟩ := exists_upper_smallLayout
    obtain ⟨p, s', hcall, hne, hback⟩ := exists_first (booted_of_mmInit hS) (Or.inr hoff) hi hfree
      (show sizeToIdx 16 = some 0 by decide)
    refine ⟨kp, S, hS, p, s', hcall, hne, fun h => ?_⟩
    have hzero := (hback.mp h).1
    rw [hoff] at hzero
    exact absurd hzero (by decide)
  · obtain ⟨kp, mm, hinit, hi, hfree, hoff⟩ := exists_lower_smallLayout
    obtain ⟨p, s', hcall, hne, hback⟩ := exists_first (booted_of_init hinit) (Or.inl hoff) hi hfree
      (show sizeToIdx 32 = some 1 by decide)
    exact ⟨kp, mm, hinit, p, s', hcall, hne, fun h => absurd (hback.mp h).2 (by decide)⟩

end SystemN.Snub
