/-
The mappings that `create_proc` makes.

Each of its phases maps pages in the one new table.  Those for the program and for the stack
come with frames of their own: `PagesMapped` says what the frames hold, and that the table maps
nothing else that it did not map before.  Those for the kernel lie in the upper half and are
closed to user code, which is `KernelSide`.

Every call comes back, with the mapping or because pages have run out.
-/
import SystemN.Proofs.Mm.Settled
import SystemN.Proofs.Mm.MapPage
import SystemN.Proofs.Start
import SystemN.Proc

namespace SystemN

open Mm Radix

variable {s s' s₁ t : Mm} {live live' live₁ : Multiset (Nat × Nat)} {root kp a va pa perm n : Nat}
  {f g : Nat → UInt8}

/-! ### `memcpy` -/

/-- **`memcpy`** of a range that does not overlap its destination. -/
theorem memcpy_eq {dst src : Nat} {m : Nat → UInt8}
    (hapart : ∀ i < n, ¬(dst ≤ src + i ∧ src + i < dst + n)) (x : Nat) :
    memcpy dst src n m x = if dst ≤ x ∧ x < dst + n then m (src + (x - dst)) else m x := by
  induction n generalizing dst src m with
  | zero =>
      rw [memcpy, if_neg]
      omega
  | succ n ih =>
      rw [memcpy, ih fun i hi => by
        have hout := hapart (i + 1) (Nat.succ_lt_succ hi)
        omega]
      have hfirst : ∀ y, y ≠ dst → Function.update m dst (m src) y = m y :=
        fun y hy => Function.update_of_ne hy _ _
      by_cases hx : dst + 1 ≤ x ∧ x < dst + 1 + n
      · have hne : src + 1 + (x - (dst + 1)) ≠ dst := by
          have hout := hapart (x - dst) (by omega)
          omega
        rw [if_pos hx, if_pos (by omega), hfirst _ hne]
        congr 1
        omega
      · rw [if_neg hx]
        by_cases hdst : x = dst
        · subst hdst
          rw [Function.update_self, if_pos (by omega), Nat.sub_self, Nat.add_zero]
        · rw [hfirst x hdst, if_neg (by omega)]

/-- The bytes from `src` on, `n` of them, and zeros behind them. -/
def padded (m : Nat → UInt8) (src n i : Nat) : UInt8 := if i < n then m (src + i) else 0

theorem padded_congr {m m' : Nat → UInt8} {src src' : Nat}
    (h : ∀ i < n, m' (src' + i) = m (src + i)) : padded m' src' n = padded m src n := by
  funext i
  unfold padded
  split
  · next hi => exact h i hi
  · rfl

/-- `n` bytes from `src` on are copied into the page at `a`. -/
def Mm.copyIn (s : Mm) (a src n : Nat) : Mm :=
  let s' := s.setMem (memcpy a (s.virtToPhys src) n s.mem)
  (s'.deref (s'.physToVirt a) n).deref src n

/-- A new page is filled with the bytes from `src` on. -/
theorem Mm.NewPage.copyIn {src : Nat} (hnew : NewPage s live a t)
    (hsrc : ∀ i < n, HeldAt s live (s.virtToPhys src + i)) :
    Filled s live a (t.copyIn a src (min pageSize n)) ∧
      ∀ d < pageSize, (t.copyIn a src (min pageSize n)).mem (a + d) =
        padded s.mem (s.virtToPhys src) n d := by
  have hvirt : t.virtToPhys src = s.virtToPhys src := hnew.statics.virtToPhys src
  have hin : ∀ {x}, a ≤ x → x < a + min pageSize n → InPage a x := fun hlo hhi =>
    ⟨hlo, hhi.trans_le (Nat.add_le_add_left (Nat.min_le_left _ _) a)⟩
  have hnot : ∀ i < n, ¬InPage a (s.virtToPhys src + i) := fun i hi =>
    (hsrc i hi).not_inPage hnew.statics hnew.run (Multiset.Subset.refl live)
  have hmem : ∀ x, (t.copyIn a src (min pageSize n)).mem x =
      if a ≤ x ∧ x < a + min pageSize n then t.mem (s.virtToPhys src + (x - a)) else t.mem x := by
    intro x
    change memcpy a (t.virtToPhys src) (min pageSize n) t.mem x = _
    rw [hvirt]
    refine memcpy_eq (fun i hi hover => ?_) x
    exact hnot i (hi.trans_le (Nat.min_le_right _ _)) (hin hover.1 hover.2)
  refine ⟨⟨t, hnew, ⟨⟨rfl, rfl, rfl, rfl⟩, rfl, rfl⟩, fun x hx => ?_⟩, fun d hd => ?_⟩
  · rw [hmem, if_neg fun hc => hx (hin hc.1 hc.2)]
  · rw [hmem, padded, Nat.add_sub_cancel_left]
    by_cases hlt : d < n
    · rw [if_pos ⟨Nat.le_add_right a d, Nat.add_lt_add_left (lt_min hd hlt) a⟩, if_pos hlt]
      exact hnew.same _ (hnot d hlt)
    · rw [if_neg (by omega), if_neg hlt]
      exact hnew.zero _ ⟨Nat.le_add_right a d, Nat.add_lt_add_left hd a⟩

/-! ### Pages for user code -/

/-- `n` pages from `va` on have been mapped, and they hold the bytes `f`. -/
structure PagesMapped (root : Nat) (s s' : Mm) (live' : Multiset (Nat × Nat)) (perm va n : Nat)
    (f : Nat → UInt8) : Prop where
  inside : ∀ j < n, ∃ pa, leafOf s'.mem (theRoot root) () (va + j * pageSize) = some (pa, mapFlags perm) ∧
    ∀ d < pageSize, Settled (theRoot root) s' live' (pa + d) ∧ s'.mem (pa + d) = f (j * pageSize + d)
  outside : ∀ va', (∀ j < n, vpage va' ≠ vpage (va + j * pageSize)) →
    leafOf s'.mem (theRoot root) () va' = leafOf s.mem (theRoot root) () va'

namespace PagesMapped

theorem zero (perm va : Nat) (f : Nat → UInt8) (hleaf : leafOf s'.mem (theRoot root) = leafOf s.mem (theRoot root)) :
    PagesMapped root s s' live' perm va 0 f where
  inside _ hj := absurd hj (Nat.not_lt_zero _)
  outside va' _ := congrFun (congrFun hleaf ()) va'

theorem congr (h : PagesMapped root s s' live' perm va n f) (hfg : ∀ i < n * pageSize, f i = g i) :
    PagesMapped root s s' live' perm va n g where
  inside j hj := by
    obtain ⟨pa, hleaf, hbytes⟩ := h.inside j hj
    refine ⟨pa, hleaf, fun d hd => ⟨(hbytes d hd).1, (hbytes d hd).2.trans (hfg _ ?_)⟩⟩
    have hle := Nat.mul_le_mul_right pageSize (Nat.succ_le_of_lt hj)
    rw [Nat.succ_mul] at hle
    omega
  outside := h.outside

/-- What is mapped stays mapped, and keeps its bytes, while the table grows elsewhere. -/
theorem mono {c : Nat} (h : PagesMapped root s s₁ live₁ perm va n f)
    (hk : Kept (theRoot root) c s₁ live₁ s' live') {j : Nat} (hj : j < n)
    (hleaf : leafOf s'.mem (theRoot root) () (va + j * pageSize) =
      leafOf s₁.mem (theRoot root) () (va + j * pageSize)) :
    ∃ pa, leafOf s'.mem (theRoot root) () (va + j * pageSize) = some (pa, mapFlags perm) ∧
      ∀ d < pageSize, Settled (theRoot root) s' live' (pa + d) ∧
        s'.mem (pa + d) = f (j * pageSize + d) := by
  obtain ⟨pa, hsome, hbytes⟩ := h.inside j hj
  refine ⟨pa, hleaf.trans hsome, fun d hd => ?_⟩
  obtain ⟨hset, hbyte⟩ := hbytes d hd
  obtain ⟨hset', hsame⟩ := hk.settled _ hset
  exact ⟨hset', hsame.trans hbyte⟩

end PagesMapped

/-- Pages in the lower half have different numbers. -/
theorem vpage_add (hmod : va % pageSize = 0) {j : Nat} (hlt : va + j * pageSize < 2 ^ 38) :
    vpage (va + j * pageSize) = va / pageSize + j := by
  simp only [vpage, pageSize] at *
  omega

/-- The kernel's addresses lie in the upper half. -/
theorem vpage_upper (hlo : vaOffsetConst ≤ va) (hhi : va < 2 ^ 64) : 2 ^ 26 ≤ vpage va := by
  simp only [vpage, vaOffsetConst, kernelStartVa, kernelStart, pageSize] at *
  omega

/-- **More pages behind those that are mapped.** -/
theorem PagesMapped.append {c k : Nat} (hmod : va % pageSize = 0)
    (hle : va + (n + k) * pageSize ≤ 2 ^ 38) (h : PagesMapped root s s₁ live₁ perm va n f)
    (hk : Kept (theRoot root) c s₁ live₁ s' live')
    (h' : PagesMapped root s₁ s' live' perm (va + n * pageSize) k fun i => f (n * pageSize + i)) :
    PagesMapped root s s' live' perm va (n + k) f := by
  have haddr : ∀ j, va + n * pageSize + j * pageSize = va + (n + j) * pageSize := by
    intro j
    rw [Nat.add_mul, Nat.add_assoc]
  have hlow : ∀ {j}, j < n + k → va + j * pageSize < 2 ^ 38 := by
    intro j hj
    have hmul := Nat.mul_le_mul_right pageSize (Nat.succ_le_of_lt hj)
    rw [Nat.succ_mul] at hmul
    simp only [pageSize] at *
    omega
  have hne : ∀ {i j}, i < n + k → j < n + k → i ≠ j →
      vpage (va + i * pageSize) ≠ vpage (va + j * pageSize) := by
    intro i j hi hj hij
    rw [vpage_add hmod (hlow hi), vpage_add hmod (hlow hj)]
    omega
  refine ⟨fun j hj => ?_, fun va' hout => ?_⟩
  · rcases Nat.lt_or_ge j n with hlt | hge
    · refine h.mono hk hlt (h'.outside _ fun i hi => ?_)
      rw [haddr]
      exact hne (by omega) (by omega) (by omega)
    · obtain ⟨i, rfl⟩ := Nat.exists_eq_add_of_le hge
      obtain ⟨pa, hleaf, hbytes⟩ := h'.inside i (by omega)
      rw [haddr] at hleaf
      refine ⟨pa, hleaf, fun d hd => ⟨(hbytes d hd).1, (hbytes d hd).2.trans ?_⟩⟩
      rw [Nat.add_mul, Nat.add_assoc]
  · rw [h'.outside, h.outside]
    · exact fun j hj => hout j (by omega)
    · intro j hj
      rw [haddr]
      exact hout (n + j) (by omega)

/-- **`map_page`** of a page that has been handed out and filled. -/
theorem Mm.Filled.mapPage (hfill : Filled s live a t) (h : Owned (theRoot root) s live)
    (hbytes : ∀ d < pageSize, t.mem (a + d) = f d) (hperm : IsPerm perm)
    (hnone : leafOf s.mem (theRoot root) () va = none) :
    ∃ ok s' live', Mm.mapPage root va a perm t = .ok (ok, s') ∧ Kept (theRoot root) 3 s live s' live' ∧
      (ok = false → NoPage s') ∧ (ok = true → PagesMapped root s s' live' perm va 1 f) := by
  have hkept := hfill.kept h
  have hpage := hkept.owned.run.isPage (Multiset.mem_cons_self (a, 0) live)
  have hround : a / pageSize * pageSize = a := Nat.div_mul_cancel (Nat.dvd_of_mod_eq_zero hpage.aligned)
  obtain ⟨ok, s', live', hcall, hk, hfail, hleaf⟩ := hkept.owned.mapPage_kept (o := ()) rfl va hpage.lt hperm
  rw [hround, hfill.leafOf_eq h] at hleaf
  refine ⟨ok, s', live', hcall, hkept.trans hk, hfail, ?_⟩
  rintro rfl
  refine ⟨fun j hj => ⟨a, ?_, fun d hd => ?_⟩, fun va' hout => ?_⟩
  · obtain rfl : j = 0 := by omega
    rw [Nat.zero_mul, Nat.add_zero, hleaf, if_pos rfl, mapLeaf, if_pos ⟨rfl, rfl⟩, hnone]
    rfl
  · obtain rfl : j = 0 := by omega
    have hin : InPage a (a + d) := ⟨Nat.le_add_right a d, Nat.add_lt_add_left hd a⟩
    obtain ⟨hset, hsame⟩ := hk.settled _ (hfill.settled h hin)
    rw [Nat.zero_mul, Nat.zero_add]
    exact ⟨hset, hsame.trans (hbytes d hd)⟩
  · have hne := hout 0 Nat.one_pos
    rw [Nat.zero_mul, Nat.add_zero] at hne
    rw [hleaf, if_pos rfl, mapLeaf, if_neg fun hc => hne hc.2]

/-! ### Pages for the kernel -/

/-- Nothing has changed in the lower half, and nothing has been opened to user code. -/
structure KernelSide (F F' : Nat → Option (Nat × Nat)) : Prop where
  user : ∀ va, vpage va < 2 ^ 26 → F' va = F va
  supervisor : ∀ va pa fl, F' va = some (pa, fl) → F va = some (pa, fl) ∨ fl &&& pteU = 0

theorem KernelSide.refl (F : Nat → Option (Nat × Nat)) : KernelSide F F :=
  ⟨fun _ _ => rfl, fun _ _ _ h => Or.inl h⟩

theorem KernelSide.trans {F F' F'' : Nat → Option (Nat × Nat)} (h : KernelSide F F')
    (h' : KernelSide F' F'') : KernelSide F F'' where
  user va hva := (h'.user va hva).trans (h.user va hva)
  supervisor va pa fl hsome := (h'.supervisor va pa fl hsome).elim (h.supervisor va pa fl) Or.inr

theorem mapFlags_user : mapFlags perm &&& pteU = perm &&& pteU := by
  have hzero : ∀ x : Nat, x ||| 0 = x := Nat.or_zero
  simp only [mapFlags, Nat.and_or_distrib_right]
  exact (hzero _).trans ((hzero _).trans (hzero _))

/-- The flags of an entry ask `map_page` for the same entry. -/
theorem mapFlags_mapFlags : mapFlags (mapFlags perm) = mapFlags perm := by
  apply Nat.eq_of_testBit_eq
  intro i
  simp only [mapFlags, Nat.testBit_or]
  grind

theorem kernelSide_mapLeaf {m : Nat → UInt8} (hva : 2 ^ 26 ≤ vpage va) (huser : perm &&& pteU = 0) :
    KernelSide (leafOf m (theRoot root) ()) (mapLeaf (leafOf m (theRoot root)) () va pa perm ()) where
  user va' hva' := by
    refine if_neg fun hc => ?_
    rw [hc.2] at hva'
    exact absurd hva' (Nat.not_lt.mpr hva)
  supervisor va' pa' fl hsome := by
    unfold mapLeaf at hsome
    split at hsome
    · next hpage =>
      cases hleaf : leafOf m (theRoot root) () va with
      | none =>
          rw [hleaf] at hsome
          obtain ⟨-, rfl⟩ := Prod.mk.inj (Option.some.inj hsome)
          exact Or.inr (mapFlags_user.trans huser)
      | some leaf =>
          rw [hleaf] at hsome
          exact Or.inl ((leafOf_vpage hpage.2).trans (hleaf.trans hsome))
    · exact Or.inl hsome

namespace Kernel

variable {k k' k₁ : Kernel} {p src : Nat}

/-! ### The phases -/

/-- The processes are what they were, and so is the kernel beside them. -/
structure SameProcs (k k' : Kernel) : Prop where
  procs : k'.procs = k.procs
  layout : k'.layout = k.layout
  kernelPagetable : k'.kernelPagetable = k.kernelPagetable
  caches : k'.snub.caches = k.snub.caches

theorem SameProcs.refl (k : Kernel) : SameProcs k k := ⟨rfl, rfl, rfl, rfl⟩

theorem SameProcs.trans (h : SameProcs k k₁) (h' : SameProcs k₁ k') : SameProcs k k' :=
  ⟨h'.procs.trans h.procs, h'.layout.trans h.layout, h'.kernelPagetable.trans h.kernelPagetable,
    h'.caches.trans h.caches⟩

theorem mapPage_of_ok {ok : Bool} (h : t.mapPage root va pa perm = .ok (ok, s')) :
    (k.setMm t).mapPage root va pa perm = .ok (ok, k.setMm s') := by
  unfold mapPage
  rw [setMm_mm, h]
  rfl

/-- Pages have been mapped for the kernel, with `c` new pages at most. -/
structure KernelMapped (root c : Nat) (k : Kernel) (live : Multiset (Nat × Nat)) (k' : Kernel)
    (live' : Multiset (Nat × Nat)) : Prop where
  same : SameProcs k k'
  kept : Kept (theRoot root) c k.mm live k'.mm live'
  side : KernelSide (leafOf k.mm.mem (theRoot root) ()) (leafOf k'.mm.mem (theRoot root) ())

theorem KernelMapped.refl (h : Owned (theRoot root) k.mm live) : KernelMapped root 0 k live k live :=
  ⟨SameProcs.refl k, Kept.refl h, KernelSide.refl _⟩

theorem KernelMapped.trans {c d : Nat} (h : KernelMapped root c k live k₁ live₁)
    (h' : KernelMapped root d k₁ live₁ k' live') : KernelMapped root (c + d) k live k' live' :=
  ⟨h.same.trans h'.same, h.kept.trans h'.kept, h.side.trans h'.side⟩

theorem KernelMapped.weaken {c d : Nat} (h : KernelMapped root c k live k' live') (hle : c ≤ d) :
    KernelMapped root d k live k' live' :=
  ⟨h.same, h.kept.weaken hle, h.side⟩

/-- **A page for the kernel.** -/
theorem mapPage_kernelSide (h : Owned (theRoot root) k.mm live) (hva : 2 ^ 26 ≤ vpage va)
    (hlt : pa < 2 ^ 56) (hperm : IsPerm perm) (huser : perm &&& pteU = 0) :
    ∃ ok k' live', k.mapPage root va pa perm = .ok (ok, k') ∧ KernelMapped root 2 k live k' live' ∧
      (ok = false → NoPage k'.mm) := by
  obtain ⟨ok, s', live', hcall, hk, hfail, hleaf⟩ := h.mapPage_kept (o := ()) rfl va hlt hperm
  refine ⟨ok, k.setMm s', live', mapPage_of_ok hcall, ⟨⟨rfl, rfl, rfl, rfl⟩, hk, ?_⟩, hfail⟩
  change KernelSide _ (leafOf s'.mem (theRoot root) ())
  rw [show leafOf s'.mem (theRoot root) () = _ from funext (hleaf ())]
  cases ok with
  | false => exact KernelSide.refl _
  | true => exact kernelSide_mapLeaf hva huser

/-! ### The program -/

theorem loadBinary_succ {remaining fuel : Nat} {mm : Mm} (hpos : remaining ≠ 0)
    (halloc : k.mm.allocPage = .ok (a, mm)) (hne : a ≠ 0) :
    loadBinary p (fuel + 1) va remaining src k =
      ((k.setMm (mm.copyIn a src (min pageSize remaining))).mapPage (k.procs p).pagetable va a
        (pteR ||| pteX ||| pteU) >>= fun (ok, k₁) =>
          if !ok then pure (none, k₁)
          else loadBinary p fuel (u64 (va + pageSize)) (remaining - min pageSize remaining)
            (u64 (src + min pageSize remaining)) k₁) := by
  have hsize : (if pageSize < remaining then pageSize else remaining) = min pageSize remaining := by
    split <;> omega
  rw [loadBinary, if_neg hpos, halloc, ok_bind]
  dsimp only
  rw [if_neg hne, hsize]
  rfl

/-- One page of the binary: a frame, the bytes from `src` on, and the mapping. -/
theorem loadBinary_round {remaining : Nat} (fuel : Nat) (h : Owned (theRoot root) k.mm live)
    (hroot : (k.procs p).pagetable = root) (hpos : remaining ≠ 0)
    (hsrc : ∀ i < remaining, HeldAt k.mm live (k.mm.virtToPhys src + i))
    (hnone : leafOf k.mm.mem (theRoot root) () va = none) :
    (∃ k', loadBinary p (fuel + 1) va remaining src k = .ok (none, k') ∧ Mm.freeCount k.mm ≤ 3) ∨
      ∃ k₁ live₁, SameProcs k k₁ ∧ Kept (theRoot root) 3 k.mm live k₁.mm live₁ ∧
        PagesMapped root k.mm k₁.mm live₁ (pteR ||| pteX ||| pteU) va 1
          (padded k.mm.mem (k.mm.virtToPhys src) remaining) ∧
        loadBinary p (fuel + 1) va remaining src k = loadBinary p fuel (u64 (va + pageSize))
          (remaining - min pageSize remaining) (u64 (src + min pageSize remaining)) k₁ := by
  rcases h.run.allocPage with ⟨hnull, hdry⟩ | ⟨a, mm, halloc, hne, hnew⟩
  · refine Or.inl ⟨k.setMm k.mm, ?_, ?_⟩
    · rw [loadBinary, if_neg hpos, hnull, ok_bind]
      rfl
    · rw [h.run.freeCount_of_noPage hdry]
      exact Nat.zero_le 3
  · obtain ⟨hfill, hbytes⟩ := hnew.copyIn hsrc
    obtain ⟨ok, s', live', hcall, hk, hfail, hmapped⟩ :=
      hfill.mapPage h hbytes (show IsPerm (pteR ||| pteX ||| pteU) by decide) hnone
    have hround : loadBinary p (fuel + 1) va remaining src k = _ := loadBinary_succ hpos halloc hne
    rw [hroot, mapPage_of_ok hcall, ok_bind] at hround
    cases ok with
    | false => exact Or.inl ⟨_, hround, hk.freeCount_le (hfail rfl)⟩
    | true => exact Or.inr ⟨k.setMm s', live', ⟨rfl, rfl, rfl, rfl⟩, hk, hmapped rfl, hround⟩

theorem virtToPhys_add (s : Mm) (src c : Nat) :
    s.virtToPhys (u64 (src + c)) = u64 (s.virtToPhys src + c) := by
  simp only [virtToPhys, sub64, u64]
  omega

/-- What is left of `n + 1` pages when the first one has been copied. -/
theorem pages_left {remaining : Nat} (hle : remaining ≤ (n + 1) * pageSize)
    (hlt : (n + 1) * pageSize < remaining + pageSize) :
    remaining - min pageSize remaining ≤ n * pageSize ∧
      n * pageSize < remaining - min pageSize remaining + pageSize := by
  rw [Nat.succ_mul] at hle hlt
  rcases Nat.le_total pageSize remaining with hfull | hlast
  · rw [Nat.min_eq_left hfull]
    omega
  · rw [Nat.min_eq_right hlast, Nat.sub_self]
    omega

/-- The loop is at `va`, with `remaining` bytes to go, which are `n` pages. -/
structure Loading (p root n : Nat) (k : Kernel) (live : Multiset (Nat × Nat)) (va remaining src : Nat) :
    Prop where
  owned : Owned (theRoot root) k.mm live
  table : (k.procs p).pagetable = root
  aligned : va % pageSize = 0
  low : va + n * pageSize ≤ 2 ^ 38
  remaining_le : remaining ≤ n * pageSize
  pages_lt : n * pageSize < remaining + pageSize
  noWrap : k.mm.virtToPhys src + remaining ≤ 2 ^ 64
  source : ∀ i < remaining, Settled (theRoot root) k.mm live (k.mm.virtToPhys src + i)
  empty : ∀ j < n, leafOf k.mm.mem (theRoot root) () (va + j * pageSize) = none

namespace Loading

variable {remaining left src' c : Nat}

/-- While bytes are left behind a page, the page was full, and they follow it in the source. -/
theorem left_add (h : Loading p root n k live va remaining src) (hst : SameStatics k.mm k₁.mm)
    (hleft : left = remaining - min pageSize remaining)
    (hsrc' : src' = u64 (src + min pageSize remaining)) (hpos : 0 < left) :
    left + pageSize = remaining ∧ k₁.mm.virtToPhys src' = k.mm.virtToPhys src + pageSize := by
  have hmin : min pageSize remaining = pageSize := by omega
  have hwrap := h.noWrap
  refine ⟨by omega, ?_⟩
  rw [hsrc', hmin, virtToPhys_add, virtToPhys, hst.vaOffset]
  exact Nat.mod_eq_of_lt (by
    change k.mm.virtToPhys src + pageSize < 2 ^ 64
    omega)

/-- **A round of the loop**: the source and the addresses move on together. -/
theorem next (h : Loading p root (n + 1) k live va remaining src) (hprocs : SameProcs k k₁)
    (hk : Kept (theRoot root) c k.mm live k₁.mm live₁)
    (hpages : PagesMapped root k.mm k₁.mm live₁ perm va 1 f)
    (hleft : left = remaining - min pageSize remaining)
    (hsrc' : src' = u64 (src + min pageSize remaining)) :
    Loading p root n k₁ live₁ (va + 1 * pageSize) left src' := by
  have hlow := h.low
  have hwrap := h.noWrap
  rw [Nat.succ_mul] at hlow
  have hsame := h.left_add hk.statics hleft hsrc'
  refine ⟨hk.owned, ?_, ?_, ?_, ?_, ?_, ?_, fun i hi => ?_, fun j hj => ?_⟩
  · rw [hprocs.procs]
    exact h.table
  · rw [Nat.one_mul, Nat.add_mod_right]
    exact h.aligned
  · rw [Nat.one_mul]
    omega
  · exact hleft ▸ (pages_left h.remaining_le h.pages_lt).1
  · exact hleft ▸ (pages_left h.remaining_le h.pages_lt).2
  · rcases Nat.eq_zero_or_pos left with hzero | hpos
    · rw [hzero]
      exact (sub64_lt _ _).le
    · rw [(hsame hpos).2]
      have hadd := (hsame hpos).1
      omega
  · obtain ⟨hadd, hphys⟩ := hsame (Nat.zero_lt_of_lt hi)
    have hbyte := (hk.settled _ (h.source (i + pageSize) (by omega))).1
    rwa [hphys, Nat.add_assoc, Nat.add_comm pageSize]
  · have hmul := Nat.mul_le_mul_right pageSize (Nat.succ_le_of_lt hj)
    have haddr : va + 1 * pageSize + j * pageSize = va + (j + 1) * pageSize := by
      rw [Nat.add_mul j, Nat.add_assoc, Nat.add_comm (1 * pageSize)]
    have hhigh : va + (j + 1) * pageSize < 2 ^ 38 := by
      change (j + 1) * pageSize ≤ _ at hmul
      simp only [pageSize] at *
      omega
    rw [haddr, hpages.outside, h.empty (j + 1) (Nat.succ_lt_succ hj)]
    intro i hi
    obtain rfl : i = 0 := Nat.lt_one_iff.mp hi
    have hstart : va + 0 * pageSize < 2 ^ 38 := by
      rw [Nat.zero_mul]
      omega
    rw [vpage_add h.aligned hhigh, vpage_add h.aligned hstart]
    omega

/-- The bytes that are left are those behind the page. -/
theorem padded_next (h : Loading p root n k live va remaining src)
    (hk : Kept (theRoot root) c k.mm live k₁.mm live₁)
    (hleft : left = remaining - min pageSize remaining)
    (hsrc' : src' = u64 (src + min pageSize remaining)) (i : Nat) :
    padded k₁.mm.mem (k₁.mm.virtToPhys src') left i =
      padded k.mm.mem (k.mm.virtToPhys src) remaining (1 * pageSize + i) := by
  rw [padded, padded, Nat.one_mul, Nat.add_comm pageSize]
  by_cases hmore : i < left
  · obtain ⟨hadd, hphys⟩ := h.left_add hk.statics hleft hsrc' (Nat.zero_lt_of_lt hmore)
    have hbyte := (hk.settled _ (h.source (i + pageSize) (by omega))).2
    rw [if_pos hmore, if_pos (by omega), hphys, Nat.add_assoc, Nat.add_comm pageSize]
    exact hbyte
  · rw [if_neg hmore, if_neg (by omega)]

end Loading

/-- **The loop that loads the binary**, with `n` pages to go. -/
theorem loadBinary_pages : ∀ {k : Kernel} {live : Multiset (Nat × Nat)} {fuel va remaining src : Nat},
    Loading p root n k live va remaining src → n < fuel →
    (∃ k', loadBinary p fuel va remaining src k = .ok (none, k') ∧ Mm.freeCount k.mm ≤ 3 * n) ∨
      ∃ k' live', loadBinary p fuel va remaining src k = .ok (some (va + n * pageSize), k') ∧
        SameProcs k k' ∧ Kept (theRoot root) (3 * n) k.mm live k'.mm live' ∧
        PagesMapped root k.mm k'.mm live' (pteR ||| pteX ||| pteU) va n
          (padded k.mm.mem (k.mm.virtToPhys src) remaining) := by
  induction n with
  | zero =>
      intro k live fuel va remaining src h hfuel
      obtain ⟨fuel, rfl⟩ := Nat.exists_eq_succ_of_ne_zero (Nat.ne_of_gt hfuel)
      obtain rfl : remaining = 0 := Nat.le_zero.mp (Nat.zero_mul _ ▸ h.remaining_le)
      rw [Nat.zero_mul, Nat.add_zero, loadBinary, if_pos rfl]
      exact Or.inr ⟨k, live, rfl, SameProcs.refl k, Kept.refl h.owned, .zero _ _ _ rfl⟩
  | succ n ih =>
      intro k live fuel va remaining src h hfuel
      obtain ⟨fuel, rfl⟩ := Nat.exists_eq_succ_of_ne_zero (Nat.ne_of_gt (Nat.zero_lt_of_lt hfuel))
      have hpos : remaining ≠ 0 := by
        have hlt := h.pages_lt
        rw [Nat.succ_mul] at hlt
        omega
      have hfirst : leafOf k.mm.mem (theRoot root) () va = none := by
        have hzero := h.empty 0 (Nat.succ_pos n)
        rwa [Nat.zero_mul, Nat.add_zero] at hzero
      rcases loadBinary_round fuel h.owned h.table hpos (fun i hi => (h.source i hi).held) hfirst with
        ⟨k', hcall, hfew⟩ | ⟨k₁, live₁, hprocs, hk, hpages, hcall⟩
      · exact Or.inl ⟨k', hcall, by omega⟩
      · have hnext : u64 (va + pageSize) = va + 1 * pageSize := by
          have hlow := h.low
          rw [Nat.succ_mul] at hlow
          rw [Nat.one_mul]
          exact Nat.mod_eq_of_lt (by omega)
        rw [hcall, hnext]
        rcases ih (h.next hprocs hk hpages rfl rfl) (Nat.lt_of_succ_lt_succ hfuel) with
          ⟨k', hcall', hfew⟩ | ⟨k', live', hcall', hprocs', hk', hpages'⟩
        · refine Or.inl ⟨k', hcall', ?_⟩
          have hspent := hk.spent
          omega
        · refine Or.inr ⟨k', live', ?_, hprocs.trans hprocs', (hk.trans hk').weaken (by omega), ?_⟩
          · rw [hcall', Nat.succ_mul n, Nat.one_mul, Nat.add_assoc, Nat.add_comm pageSize]
          · have hlow := h.low
            rw [Nat.add_comm n] at hlow ⊢
            exact hpages.append h.aligned hlow hk'
              (hpages'.congr fun i _ => h.padded_next hk rfl rfl i)

/-! ### The stack -/

/-- **The heap bounds and the user stack.** -/
theorem createUserStack_page (va : Nat) (h : Owned (theRoot root) k.mm live)
    (hroot : (k.procs p).pagetable = root)
    (hnone : leafOf k.mm.mem (theRoot root) () userStackBase = none) :
    (∃ k', k.createUserStack p va = .ok (false, k') ∧ Mm.freeCount k.mm ≤ 3) ∨
      ∃ k' live', k.createUserStack p va = .ok (true, k') ∧
        Kept (theRoot root) 3 k.mm live k'.mm live' ∧
        PagesMapped root k.mm k'.mm live' (pteR ||| pteW ||| pteU) userStackBase 1 (fun _ => 0) ∧
        (k'.procs p).pagetable = root ∧ (k'.procs p).heapStart = alignUp va ∧
        (k'.procs p).heapEnd = alignUp va ∧ k'.layout = k.layout ∧
        k'.kernelPagetable = k.kernelPagetable ∧ k'.snub.caches = k.snub.caches := by
  obtain ⟨k₀, hk₀⟩ : ∃ k₀, k₀ = k.setProc p
    { k.procs p with heapStart := alignUp va, heapEnd := alignUp va } := ⟨_, rfl⟩
  have hmm : k₀.mm = k.mm := by
    rw [hk₀]
    rfl
  have hcode : k.createUserStack p va = k₀.mm.allocPage >>= fun r =>
      if r.1 = 0 then pure (false, (k₀.setMm r.2).setProc p { k₀.procs p with ustack := r.1 })
      else ((k₀.setMm r.2).setProc p { k₀.procs p with ustack := r.1 }).mapPage
        (((k₀.setMm r.2).setProc p { k₀.procs p with ustack := r.1 }).procs p).pagetable userStackBase
        r.1 (pteR ||| pteW ||| pteU) := by
    rw [hk₀]
    rfl
  rw [hcode, hmm]
  rcases h.run.allocPage with ⟨hnull, hdry⟩ | ⟨a, mm, halloc, hne, hnew⟩
  · refine Or.inl ⟨(k₀.setMm k.mm).setProc p { k₀.procs p with ustack := 0 }, ?_, ?_⟩
    · rw [hnull, ok_bind]
      rfl
    · rw [h.run.freeCount_of_noPage hdry]
      exact Nat.zero_le 3
  · obtain ⟨ok, s', live', hcall, hk, hfail, hmapped⟩ := hnew.filled.mapPage h
      (f := fun _ => 0) (fun d hd => hnew.zero _ ⟨Nat.le_add_right a d, Nat.add_lt_add_left hd a⟩)
      (show IsPerm (pteR ||| pteW ||| pteU) by decide) hnone
    obtain ⟨k₁, hk₁⟩ : ∃ k₁, k₁ = k₀.setProc p { k₀.procs p with ustack := a } := ⟨_, rfl⟩
    have hproc : k₁.procs p =
        { k.procs p with heapStart := alignUp va, heapEnd := alignUp va, ustack := a } := by
      rw [hk₁, hk₀]
      simp only [setProc, Function.update_self]
    have hstack : ((k₀.setMm mm).setProc p { k₀.procs p with ustack := a }) = k₁.setMm mm := by
      rw [hk₁]
      rfl
    have htable : ((k₁.setMm mm).procs p).pagetable = root := by
      change (k₁.procs p).pagetable = root
      rw [hproc]
      exact hroot
    rw [halloc, ok_bind]
    dsimp only
    rw [if_neg hne, hstack, htable, mapPage_of_ok hcall]
    cases ok with
    | false => exact Or.inl ⟨_, rfl, hk.freeCount_le (hfail rfl)⟩
    | true =>
        refine Or.inr ⟨k₁.setMm s', live', rfl, hk, hmapped rfl, ?_⟩
        change (k₁.procs p).pagetable = root ∧ (k₁.procs p).heapStart = alignUp va ∧
          (k₁.procs p).heapEnd = alignUp va ∧ k₁.layout = k.layout ∧
            k₁.kernelPagetable = k.kernelPagetable ∧ k₁.snub.caches = k.snub.caches
        rw [hproc, hk₁, hk₀]
        exact ⟨hroot, rfl, rfl, rfl, rfl, rfl⟩

/-! ### The kernel image and the UART -/

/-- Something has been printed. -/
def Printed (k k' : Kernel) : Prop := ∃ out, k' = { k with uartOut := out }

theorem Printed.trans (h : Printed k k₁) (h' : Printed k₁ k') : Printed k k' := by
  obtain ⟨out, rfl⟩ := h
  obtain ⟨out', rfl⟩ := h'
  exact ⟨out', rfl⟩

theorem printed_foldl {α : Type} {f : Kernel → α → Kernel} (hf : ∀ k a, Printed k (f k a))
    (l : List α) : Printed k (l.foldl f k) := by
  induction l generalizing k with
  | nil => exact ⟨k.uartOut, rfl⟩
  | cons a l ih =>
      rw [List.foldl_cons]
      exact (hf k a).trans ih

theorem printed_message (k : Kernel) (text : String) (x : Nat) (c : UInt8) :
    Printed k (((k.uartPuts text).uartPuthex x).uartPutc c) := by
  have hputc : ∀ (k : Kernel) (c : UInt8), Printed k (k.uartPutc c) := fun _ _ => ⟨_, rfl⟩
  have hputs : ∀ (k : Kernel) (s : String), Printed k (k.uartPuts s) := fun k s =>
    printed_foldl hputc s.toUTF8.toList
  have hputhex : Printed (k.uartPuts text) ((k.uartPuts text).uartPuthex x) :=
    (hputs _ "0x").trans (printed_foldl (fun k _ => hputc k _) _)
  exact (hputs k text).trans (hputhex.trans (hputc _ c))

theorem KernelMapped.printed {c : Nat} (h : KernelMapped root c k live k₁ live') (hp : Printed k₁ k') :
    KernelMapped root c k live k' live' := by
  obtain ⟨out, rfl⟩ := hp
  exact ⟨⟨h.same.procs, h.same.layout, h.same.kernelPagetable, h.same.caches⟩, h.kept, h.side⟩

/-- The kernel's table, while that at `root` grows. -/
structure KernelTable (root kp : Nat) (s : Mm) (live : Multiset (Nat × Nat)) : Prop where
  owned : Owned (theRoot root) s live
  tables : Tables s.mem (theRoot kp)
  settled : ∀ n, IsTable s.mem (theRoot kp) n → ∀ x, InPage n x → Settled (theRoot root) s live x
  supervised : Supervised (leafOf s.mem (theRoot kp) ())

theorem KernelTable.kept {c : Nat} (h : KernelTable root kp s live)
    (hk : Kept (theRoot root) c s live s' live') : KernelTable root kp s' live' := by
  have hsame := hk.sameTables h.settled
  refine ⟨hk.owned, h.tables.congr hsame, fun n hn x hx => ?_, ?_⟩
  · exact (hk.settled x (h.settled n (hsame.isTable.mp hn) x hx)).1
  · rw [show leafOf s'.mem (theRoot kp) () = _ from funext (hsame.leafOf ())]
    exact h.supervised

theorem mapPage_mapFlags : k.mapPage root va pa (mapFlags perm) = k.mapPage root va pa perm := by
  unfold mapPage Mm.mapPage mapPageWith
  simp only [mapEntry_eq, mapFlags_mapFlags]

/-- A round of `copy_kernel_mappings`: what the source maps is mapped once more, and where it maps
nothing something is printed. -/
theorem copyLoop_succ {ω : Type} {roots : ω → Option Nat} {o : ω} (hspace : k.mm.InSpace)
    (hT : Tables k.mm.mem roots) (ho : roots o = some kp) (root n va : Nat) :
    (leafOf k.mm.mem roots o va = none ∧ ∃ t k₁, Traced k.mm t ∧ Printed (k.setMm t) k₁ ∧
      copyLoop root (k.mm.physToVirt kp) (n + 1) va k =
        copyLoop root (k.mm.physToVirt kp) n (va + pageSize) k₁) ∨
      ∃ e t, leafOf k.mm.mem roots o va = some e ∧ Traced k.mm t ∧
        copyLoop root (k.mm.physToVirt kp) (n + 1) va k =
          (k.setMm t).mapPage root va e.1 e.2 >>= fun (ok, k₁) =>
            copyLoop root (k.mm.physToVirt kp) n (va + pageSize) (if ok then k₁ else
              ((k₁.uartPuts "copy_kernel_mappings: map_page failed at ").uartPuthex va).uartPutc 10) := by
  obtain ⟨t, hwalk, htr⟩ := walk_find Mm.allocPage hspace hT ho va
  have hcall : k.walk (k.mm.physToVirt kp) va false =
      .ok (k.mm.entryPtr va (tableAt k.mm.mem roots o (vpnPath va 0)), k.setMm t) := by
    unfold walk
    rw [hwalk]
    rfl
  rw [copyLoop, hcall, ok_bind]
  cases hn : tableAt k.mm.mem roots o (vpnPath va 0) with
  | none =>
      refine Or.inl ⟨lookup_of_nodeAt_none hn, t, _, htr, printed_message (k.setMm t)
        "copy_kernel_mappings: missing PTE at " va 10, rfl⟩
  | some n' =>
      have hpage := hT.page n' (isNode_of_nodeAt hn (le_refl 2))
      have hne := pteAddr_ne_zero hspace hpage (vpnLevel_lt va 0)
      have hload : t.loadPte (pteAddr (k.mm.physToVirt n') (vpnLevel va 0)) =
          entry k.mm.mem n' (vpn va 0) := by
        obtain ⟨d, rfl⟩ := htr
        exact loadPte_eq hspace hpage _ _
      set ptr := pteAddr (k.mm.physToVirt n') (vpnLevel va 0) with hptr
      have hentry : k.mm.entryPtr va (some n') = ptr := rfl
      have hstate : ∀ x, (if ptr = 0 then x else (k.setMm t).setMm ((k.setMm t).mm.deref ptr 8)) =
          k.setMm (t.deref ptr 8) := fun _ => if_neg hne
      have htr' := htr.trans (Traced.deref t ptr 8)
      dsimp only
      rw [hentry, hstate, setMm_mm, hload]
      by_cases hV : entry k.mm.mem n' (vpn va 0) &&& pteV = 0
      · rw [if_pos (Or.inr hV)]
        refine Or.inl ⟨?_, _, _, htr', printed_message (k.setMm (t.deref ptr 8))
          "copy_kernel_mappings: missing PTE at " va 10, rfl⟩
        rw [leafOf, lookup_of_nodeAt hn, pteLeaf, if_pos hV]
      · rw [if_neg (not_or.mpr ⟨hne, hV⟩)]
        refine Or.inr ⟨(pte2pa (entry k.mm.mem n' (vpn va 0)), pteFlags (entry k.mm.mem n' (vpn va 0))),
          _, ?_, htr', ?_⟩
        · rw [leafOf, lookup_of_nodeAt hn, pteLeaf, if_neg hV]
        · dsimp only
          congr 1
          funext r
          cases r.1 <;> rfl

/-- One page of the kernel image. -/
theorem copyLoop_round (h : KernelTable root kp k.mm live) (hva : 2 ^ 26 ≤ vpage va) :
    ∃ k₁ live₁, KernelMapped root 2 k live k₁ live₁ ∧
      copyLoop root (k.mm.physToVirt kp) (n + 1) va k =
        copyLoop root (k.mm.physToVirt kp) n (va + pageSize) k₁ := by
  have hread : ∀ {t'}, Traced k.mm t' → KernelMapped root 0 k live (k.setMm t') live := fun htr' =>
    ⟨⟨rfl, rfl, rfl, rfl⟩, h.owned.kept_of_traced htr', by
      rw [setMm_mm, htr'.mem]
      exact KernelSide.refl _⟩
  rcases copyLoop_succ h.owned.inSpace h.tables (o := ()) rfl root n va with
    ⟨-, t, k₁, htr, hprinted, hcall⟩ | ⟨e, t, hleaf, htr, hcall⟩
  · exact ⟨k₁, live, ((hread htr).printed hprinted).weaken (Nat.zero_le 2), hcall⟩
  · obtain ⟨-, hlt, perm, hperm, huser, hflags⟩ := h.supervised va _ _ hleaf
    have hk := hread htr
    obtain ⟨ok, k₁, live₁, hmap, hmapped, -⟩ := mapPage_kernelSide hk.kept.owned hva hlt hperm huser
    have hcopied : KernelMapped root 2 k live k₁ live₁ := hk.trans hmapped
    rw [hcall, hflags, mapPage_mapFlags, hmap, ok_bind]
    cases ok with
    | true => exact ⟨k₁, live₁, hcopied, rfl⟩
    | false =>
        exact ⟨_, live₁, hcopied.printed (printed_message k₁
          "copy_kernel_mappings: map_page failed at " va 10), rfl⟩

/-- **`copy_kernel_mappings`** opens nothing to user code, and leaves the lower half alone. -/
theorem copyLoop_copied : ∀ {k : Kernel} {live : Multiset (Nat × Nat)} {va : Nat},
    KernelTable root kp k.mm live → kernelStartVa ≤ va → va + n * pageSize ≤ 2 ^ 64 →
    ∃ k' live', copyLoop root (k.mm.physToVirt kp) n va k = .ok k' ∧ KernelMapped root (2 * n) k live k' live' := by
  induction n with
  | zero => exact fun {k live va} h _ _ => ⟨k, live, rfl, KernelMapped.refl h.owned⟩
  | succ n ih =>
      intro k live va h hlo hhi
      rw [Nat.succ_mul] at hhi
      have hva : 2 ^ 26 ≤ vpage va := vpage_upper ((by decide : vaOffsetConst ≤ kernelStartVa).trans hlo)
        (Nat.lt_of_lt_of_le (Nat.lt_add_of_pos_right (Nat.add_pos_right _ (by decide))) hhi)
      obtain ⟨k₁, live₁, hround, hcall⟩ := copyLoop_round (n := n) h hva
      obtain ⟨k', live', hloop, hrest⟩ := ih (h.kept hround.kept) (hlo.trans (Nat.le_add_right _ _))
        (show va + pageSize + n * pageSize ≤ 2 ^ 64 by omega)
      rw [hround.kept.statics.physToVirt] at hloop
      exact ⟨k', live', hcall.trans hloop, (hround.trans hrest).weaken (by omega)⟩

/-- The number of pages of the kernel image. -/
def imagePages (L : Layout) : Nat := pagesOf (L.kernelEnd - kernelStart)

/-- **What every process shares**: the kernel image and the UART. -/
theorem createShared_copied (h : KernelTable root k.kernelPagetable k.mm live)
    (hroot : (k.procs p).pagetable = root) (hupper : k.mm.vaOffset = vaOffsetConst) :
    (k.createShared p = .error .halt ∧ Mm.freeCount k.mm ≤ 2 * imagePages k.layout + 2) ∨
      ∃ k' live', k.createShared p = .ok k' ∧ KernelMapped root (2 * imagePages k.layout + 2) k live k' live' := by
  have hlast : kernelStartVa + imagePages k.layout * pageSize ≤ 2 ^ 64 := by
    have hend := k.layout.inMemory
    unfold imagePages pagesOf
    simp only [kernelStartVa, kernelStart, userEnd, pageSize] at *
    omega
  obtain ⟨k₁, live₁, hloop, hcopied⟩ := copyLoop_copied h (Nat.le_refl kernelStartVa) hlast
  have hphys : k₁.mm.virtToPhys uart0 = 0x10000000 := by
    rw [virtToPhys, hcopied.kept.statics.vaOffset, hupper]
    decide
  have huart : ∃ ok k' live', k₁.mapPage root uart0 0x10000000 (pteR ||| pteW) = .ok (ok, k') ∧
      KernelMapped root 2 k₁ live₁ k' live' ∧ (ok = false → NoPage k'.mm) :=
    mapPage_kernelSide hcopied.kept.owned (vpage_upper (by decide) (by decide)) (by decide) (by decide)
      (by decide)
  obtain ⟨ok, k', live', hmap, hmapped, hfail⟩ := huart
  have hall := hcopied.trans hmapped
  have hcall : k.createShared p = if !ok then .error .halt else .ok k' := by
    have hcopy : k.copyKernelMappings root (k.mm.physToVirt k.kernelPagetable) = .ok k₁ := hloop
    unfold createShared
    rw [hroot, hcopy, ok_bind]
    have hroot₁ : (k₁.procs p).pagetable = root := by
      rw [hcopied.same.procs]
      exact hroot
    rw [hroot₁, hphys, hmap, ok_bind]
    rfl
  rw [hcall]
  cases ok with
  | false => exact Or.inl ⟨rfl, hall.kept.freeCount_le (hfail rfl)⟩
  | true => exact Or.inr ⟨k', live', rfl, hall⟩

end Kernel

end SystemN
