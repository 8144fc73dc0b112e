/-
The bounds of the heap, and what `sys_sbrk` does to the translations.

The two loops run over the pages between the old end of the heap and the new one.  Growing
takes pages from the allocator, so it is stated over `Owned`; it comes back whatever happens.
Shrinking gives frames back, and nothing needs to be known about these as long as
`free_page` comes back.

The sizes are 64-bit values.  `ALIGN_UP` rounds them up as signed numbers do, and the two
comparisons with the bounds of the heap leave no room for a wrap.
-/
import SystemN.Proofs.Mm.Unmap
import SystemN.Proofs.Mm.MapPage
import SystemN.Syscall

namespace SystemN

open Mm

variable {ω : Type} [DecidableEq ω] {roots : ω → Option Nat} {o : ω} {root : Nat} {s s' t : Mm}
  {live : Multiset (Nat × Nat)}

/-! ### Shrinking -/

namespace Kernel

/-- **The loop that unmaps pages.**  There are enough rounds for the `n` pages it is about. -/
theorem shrinkLoop_cases (hroot : roots o = some root) {oldBrk : Nat} (hlt : oldBrk < 2 ^ 64) :
    ∀ {n fuel va : Nat} {s : Mm}, Paged roots s → va + n * pageSize = oldBrk → n < fuel →
      n ≤ 2 ^ 27 →
        (∃ s', shrinkLoop root oldBrk fuel va s = .ok s' ∧ Cleared roots o va n s s') ∨
          ∃ e, shrinkLoop root oldBrk fuel va s = .error e ∧
            Stopped (leafOf s.mem roots) o va n s e := by
  intro n
  induction n with
  | zero =>
      intro fuel va s h hend hfuel hn
      obtain ⟨fuel, rfl⟩ : ∃ f, fuel = f + 1 := ⟨fuel - 1, by omega⟩
      rw [Nat.zero_mul, Nat.add_zero] at hend
      subst hend
      refine Or.inl ⟨s, ?_, Cleared.zero h⟩
      rw [shrinkLoop, if_neg (Nat.lt_irrefl va)]
      rfl
  | succ n ih =>
      intro fuel va s h hend hfuel hn
      obtain ⟨fuel, rfl⟩ : ∃ f, fuel = f + 1 := ⟨fuel - 1, by omega⟩
      rw [add_succ_pages] at hend
      have hva : va < oldBrk := by
        simp only [pageSize] at hend
        omega
      have hnext : u64 (va + pageSize) = va + pageSize := Nat.mod_eq_of_lt (by omega)
      rw [shrinkLoop, if_pos hva, hnext]
      cases hcall : Mm.unmapPage root va s with
      | error e => exact Or.inr ⟨e, rfl, h.unmapPage_error hroot hcall n⟩
      | ok r =>
          obtain ⟨ok, t⟩ := r
          obtain ⟨-, hun⟩ := h.unmapPage hroot hcall
          have hne : ∀ i < n, vpage (va + pageSize + i * pageSize) ≠ vpage va := by
            intro i hi hpage
            rw [← add_succ_pages] at hpage
            have hzero := vpage_inj (j := 0) (by omega) (by norm_num)
              (hpage.trans (by rw [Nat.zero_mul, Nat.add_zero]))
            omega
          rcases ih hun.paged hend (Nat.lt_of_succ_lt_succ hfuel) (by omega) with
            ⟨s', hloop, hcleared⟩ | ⟨e, hloop, hstopped⟩
          · exact Or.inl ⟨s', hloop, Cleared.succ hun hcleared hne⟩
          · exact Or.inr ⟨e, hloop, Stopped.succ hun hstopped hne⟩

/-! ### Growing -/

/-- The permissions of the heap. -/
@[simp] abbrev heapPerm : Nat := pteR ||| pteW ||| pteU

theorem isPerm_heapPerm : IsPerm heapPerm := by decide

/-- The translations once the frames `fs` are mapped, page by page. -/
def mapRange (L : ω → Nat → Option (Nat × Nat)) (o : ω) (va : Nat) :
    List Nat → ω → Nat → Option (Nat × Nat)
  | [] => L
  | f :: fs => mapRange (mapLeaf L o va f heapPerm) o (va + pageSize) fs

/-- The paths `W` are among those of tables, and those on the way to `n` pages are among them. -/
structure AlongRange (va n : Nat) (W : Finset (List Index)) : Prop where
  length : ∀ p ∈ W, p.length ≤ 2
  mem : ∀ i < n, ∀ k < 2, vpnPath (va + i * pageSize) k ∈ W

/-- The paths of the tables on the way to `n` pages. -/
def rangePaths (va n : Nat) : Finset (List Index) :=
  (Finset.range n ×ˢ Finset.range 2).image fun i => vpnPath (va + i.1 * pageSize) i.2

section AlongRange

variable {va n : Nat} {W : Finset (List Index)}

theorem mem_rangePaths {p : List Index} :
    p ∈ rangePaths va n ↔ ∃ i < n, ∃ k < 2, vpnPath (va + i * pageSize) k = p := by
  unfold rangePaths
  simp only [Finset.mem_image, Finset.mem_product, Finset.mem_range, Prod.exists]
  constructor
  · intro ⟨i, k, ⟨hi, hk⟩, hp⟩
    exact ⟨i, hi, k, hk, hp⟩
  · intro ⟨i, hi, k, hk, hp⟩
    exact ⟨i, k, ⟨hi, hk⟩, hp⟩

theorem alongRange_rangePaths (va n : Nat) : AlongRange va n (rangePaths va n) := by
  refine ⟨fun p hp => ?_, fun i hi k hk => mem_rangePaths.mpr ⟨i, hi, k, hk, rfl⟩⟩
  obtain ⟨i, -, k, hk, rfl⟩ := mem_rangePaths.mp hp
  rw [vpnPath_length _ hk.le]
  exact Nat.sub_le 2 k

theorem AlongRange.mono {j : Nat} (h : AlongRange va n W) (hj : j ≤ n) : AlongRange va j W :=
  ⟨h.length, fun i hi => h.mem i (lt_of_lt_of_le hi hj)⟩

theorem AlongRange.first (h : AlongRange va (n + 1) W) : Along va W := by
  refine ⟨h.length, fun k hk => ?_⟩
  have hmem := h.mem 0 (Nat.succ_pos n) k hk
  rwa [Nat.zero_mul] at hmem

theorem AlongRange.next (h : AlongRange va (n + 1) W) : AlongRange (va + pageSize) n W := by
  refine ⟨h.length, fun i hi k hk => ?_⟩
  rw [← add_succ_pages]
  exact h.mem (i + 1) (Nat.succ_lt_succ hi) k hk

end AlongRange

/-- What the loop has taken from the allocator: the frames `fs` it has mapped, the frames `lost`
that it could not map, and the pages `tabs` that have become tables. -/
structure Grown (roots : ω → Option Nat) (o : ω) (va : Nat) (s : Mm)
    (live : Multiset (Nat × Nat)) (fs lost : List Nat) (tabs : Multiset (Nat × Nat)) (s' : Mm) :
    Prop where
  owned : Owned roots s' (pageBlocks (fs ++ lost) + (tabs + live))
  pages : ∀ B ∈ tabs, B.2 = 0
  isTable : ∀ n, IsTable s'.mem roots n ↔ IsTable s.mem roots n ∨ (n, 0) ∈ tabs
  leaf : leafOf s'.mem roots = mapRange (leafOf s.mem roots) o va fs
  statics : SameStatics s s'
  /-- The new tables are on the way to these pages, -/
  more : ∀ W, AlongRange va (fs ++ lost).length W →
    MoreTables roots o W s.mem s'.mem (Multiset.card tabs)
  /-- and where a page is mapped none is missing. -/
  way : ∀ i < fs.length, ∀ k < 2, tableAt s'.mem roots o (vpnPath (va + i * pageSize) k) ≠ none

theorem Grown.refl (h : Owned roots s live) (va : Nat) : Grown roots o va s live [] [] 0 s where
  owned := by
    rw [zero_add]
    exact (zero_add live).symm ▸ h
  pages _ hB := absurd hB (Multiset.notMem_zero _)
  isTable n := by simp
  leaf := rfl
  statics := SameStatics.refl s
  more _ hW := .refl hW.length
  way _ hi := absurd hi (Nat.not_lt_zero _)

/-- One page more in front. -/
theorem Grown.cons {f va : Nat} {fs lost : List Nat} {tabs tabs' : Multiset (Nat × Nat)}
    {s₁ s₂ : Mm} (h : Owned roots s live) (hnew : NewPage s live f s₁)
    (hmap : Mapped roots o va f heapPerm s₁ ((f, 0) ::ₘ live) true s₂ tabs)
    (hgrown : Grown roots o (va + pageSize) s₂ (tabs + (f, 0) ::ₘ live) fs lost tabs' s') :
    Grown roots o va s live (f :: fs) lost (tabs + tabs') s' := by
  have hsame := hnew.sameTables h
  have hc := hmap.changed
  rw [if_pos rfl] at hc
  refine ⟨?_, ?_, ?_, ?_, hnew.statics.trans (hc.statics.trans hgrown.statics), ?_, ?_⟩
  · have hlive : pageBlocks (fs ++ lost) + (tabs' + (tabs + (f, 0) ::ₘ live))
        = pageBlocks (f :: fs ++ lost) + (tabs + tabs' + live) := by
      rw [List.cons_append, pageBlocks_cons, Multiset.cons_add, Multiset.add_cons,
        Multiset.add_cons, Multiset.add_cons, ← add_assoc tabs', add_comm tabs']
    rw [← hlive]
    exact hgrown.owned
  · intro B hB
    exact (Multiset.mem_add.mp hB).elim (hc.pages B) (hgrown.pages B)
  · intro n
    rw [hgrown.isTable, hc.isTable, hsame.isTable, Multiset.mem_add, or_assoc]
  · rw [hgrown.leaf, mapRange]
    congr 1
    funext o' va'
    rw [hc.leaf]
    unfold mapLeaf
    rw [hsame.leafOf, hsame.leafOf]
  · intro W hW
    have hstart := moreTables_zero (o := o) hW.length fun p hp => hsame.tableAt hp
    have hmore := (hstart.trans (hmap.more W hW.first)).trans (hgrown.more W hW.next)
    rwa [zero_add, ← Multiset.card_add] at hmore
  · intro i hi k hk
    cases i with
    | zero =>
        have hmore := hgrown.more _ (alongRange_rangePaths _ _)
        have hlen : (vpnPath va k).length ≤ 2 := by
          rw [vpnPath_length va hk.le]
          exact Nat.sub_le 2 k
        rw [Nat.zero_mul, Nat.add_zero]
        exact fun hnone => hmap.way rfl k hk (hmore.keeps _ hlen hnone)
    | succ i =>
        rw [add_succ_pages]
        exact hgrown.way i (Nat.lt_of_succ_lt_succ hi) k hk

/-- A frame that could not be mapped. -/
theorem Grown.lost {f va : Nat} {tabs : Multiset (Nat × Nat)} {s₁ : Mm} (h : Owned roots s live)
    (hnew : NewPage s live f s₁)
    (hmap : Mapped roots o va f heapPerm s₁ ((f, 0) ::ₘ live) false s' tabs) :
    Grown roots o va s live [] [f] tabs s' := by
  have hsame := hnew.sameTables h
  have hc := hmap.changed
  rw [if_neg Bool.false_ne_true] at hc
  refine ⟨?_, hc.pages, ?_, ?_, hnew.statics.trans hc.statics, ?_, ?_⟩
  · have hlive : tabs + (f, 0) ::ₘ live = pageBlocks ([] ++ [f]) + (tabs + live) := by
      rw [Multiset.add_cons]
      rfl
    rw [← hlive]
    exact hc.owned
  · intro n
    rw [hc.isTable, hsame.isTable]
  · funext o' va'
    rw [hc.leaf, hsame.leafOf]
    rfl
  · intro W hW
    have hstart := moreTables_zero (o := o) hW.length fun p hp => hsame.tableAt hp
    have hmore := hstart.trans (hmap.more W hW.first)
    rwa [zero_add] at hmore
  · intro i hi
    exact absurd hi (Nat.not_lt_zero i)

/-- How the loop that maps `n` pages ends. -/
inductive GrowEnd (roots : ω → Option Nat) (o : ω) (va n : Nat) (s : Mm)
    (live : Multiset (Nat × Nat)) : Bool × Mm → Prop where
  | mapped {fs : List Nat} {tabs : Multiset (Nat × Nat)} {s' : Mm}
      (h : Grown roots o va s live fs [] tabs s') (hn : fs.length = n) : GrowEnd roots o va n s live (true, s')
  /-- `alloc_page` has failed. -/
  | noFrame {fs : List Nat} {tabs : Multiset (Nat × Nat)} {s' : Mm}
      (h : Grown roots o va s live fs [] tabs s') (hn : fs.length < n) (hnone : NoPage s')
      (hfirst : fs = [] → s' = s) : GrowEnd roots o va n s live (false, s')
  /-- `map_page` has failed. -/
  | noTable {fs : List Nat} {f : Nat} {tabs : Multiset (Nat × Nat)} {s' : Mm}
      (h : Grown roots o va s live fs [f] tabs s') (hn : fs.length < n)
      (hnone : NoTable roots o (va + fs.length * pageSize) s') :
      GrowEnd roots o va n s live (false, s')

/-- **The loop that maps pages** always comes back. -/
theorem growLoop_cases (hroot : roots o = some root) {newBrk : Nat} (hlt : newBrk < 2 ^ 64) :
    ∀ {n fuel va : Nat} {s : Mm} {live : Multiset (Nat × Nat)}, Owned roots s live →
      va + n * pageSize = newBrk → n < fuel →
        ∃ r, growLoop root newBrk fuel va s = .ok r ∧ GrowEnd roots o va n s live r := by
  intro n
  induction n with
  | zero =>
      intro fuel va s live h hend hfuel
      obtain ⟨fuel, rfl⟩ : ∃ f, fuel = f + 1 := ⟨fuel - 1, by omega⟩
      rw [Nat.zero_mul, Nat.add_zero] at hend
      subst hend
      refine ⟨(true, s), ?_, .mapped (Grown.refl h va) rfl⟩
      rw [growLoop, if_neg (Nat.lt_irrefl va)]
      rfl
  | succ n ih =>
      intro fuel va s live h hend hfuel
      obtain ⟨fuel, rfl⟩ : ∃ f, fuel = f + 1 := ⟨fuel - 1, by omega⟩
      rw [add_succ_pages] at hend
      have hva : va < newBrk := by
        simp only [pageSize] at hend
        omega
      have hnext : u64 (va + pageSize) = va + pageSize := Nat.mod_eq_of_lt (by omega)
      rw [growLoop, if_pos hva, hnext]
      rcases h.run.allocPage with ⟨hnull, hnone⟩ | ⟨f, s₁, hcall, hne, hnew⟩
      · rw [hnull, ok_bind]
        exact ⟨(false, s), rfl, .noFrame (Grown.refl h va) (Nat.zero_lt_succ n) hnone fun _ => rfl⟩
      · rw [hcall, ok_bind]
        obtain ⟨ok, s₂, tabs, hmap, hmapped⟩ := (hnew.owned h).mapPage_cases hroot va
          hnew.isPage.aligned hnew.isPage.lt isPerm_heapPerm
        simp only [if_neg hne]
        rw [hmap, ok_bind]
        cases ok with
        | false =>
            refine ⟨(false, s₂), rfl, .noTable (Grown.lost h hnew hmapped) (Nat.zero_lt_succ n) ?_⟩
            rw [List.length_nil, Nat.zero_mul, Nat.add_zero]
            exact hmapped.failed rfl
        | true =>
            have howned := hmapped.changed.owned
            obtain ⟨r, hloop, hgrow⟩ := ih howned hend (Nat.lt_of_succ_lt_succ hfuel)
            refine ⟨r, hloop, ?_⟩
            cases hgrow with
            | mapped hg hn => exact .mapped (hg.cons h hnew hmapped) (congrArg Nat.succ hn)
            | noFrame hg hn hnone hfirst =>
                exact .noFrame (hg.cons h hnew hmapped) (Nat.succ_lt_succ hn) hnone nofun
            | noTable hg hn hnone =>
                refine .noTable (hg.cons h hnew hmapped) (Nat.succ_lt_succ hn) ?_
                rw [List.length_cons, add_succ_pages]
                exact hnone

/-! ### Inside and outside -/

theorem unmapRange_outside {L : ω → Nat → Option (Nat × Nat)} {o' : ω} {va va' n : Nat}
    (h : ¬(o' = o ∧ ∃ i < n, vpage va' = vpage (va + i * pageSize))) :
    unmapRange L o va n o' va' = L o' va' :=
  if_neg h

theorem mapRange_outside {o' : ω} {va' : Nat} {fs : List Nat} :
    ∀ {L : ω → Nat → Option (Nat × Nat)} {va : Nat},
      ¬(o' = o ∧ ∃ i < fs.length, vpage va' = vpage (va + i * pageSize)) →
        mapRange L o va fs o' va' = L o' va' := by
  induction fs with
  | nil => exact fun _ => rfl
  | cons f fs ih =>
      intro L va h
      rw [mapRange, ih]
      · rw [mapLeaf, if_neg]
        rintro ⟨ho, hva⟩
        apply h
        refine ⟨ho, 0, Nat.zero_lt_succ _, ?_⟩
        rwa [Nat.zero_mul]
      · rintro ⟨ho, i, hi, hva⟩
        rw [← add_succ_pages] at hva
        exact h ⟨ho, i + 1, Nat.succ_lt_succ hi, hva⟩

/-- `walk` tells canonical pages apart. -/
theorem page_of_vpage {va va' : Nat} (hc : Canonical va) (hc' : Canonical va')
    (h : vpage va' = vpage va) : va' / pageSize = va / pageSize := by
  unfold Canonical at hc hc'
  simp only [vpage, pageSize] at *
  omega

omit [DecidableEq ω] in
/-- Where the leaves have not changed, the hardware finds what it found. -/
theorem translate_congr {r : Nat} {o' : ω} (h : Paged roots s) (h' : Paged roots s')
    (hr : roots o' = some r) {va : Nat}
    (hleaf : Canonical va → leafOf s'.mem roots o' va = leafOf s.mem roots o' va) :
    s'.translate r va = s.translate r va := by
  by_cases hc : Canonical va
  · rw [translate_eq h'.tables hr hc, translate_eq h.tables hr hc, hleaf hc]
  · rw [Mm.translate, Mm.translate, if_neg hc, if_neg hc]

/-! ### The bounds of the heap -/

/-- What the kernel keeps true of the heap of a process. -/
structure HeapOk (P : Proc) : Prop where
  start : P.heapStart % pageSize = 0
  aligned : P.heapEnd % pageSize = 0
  le : P.heapStart ≤ P.heapEnd
  top : P.heapEnd ≤ userHeapEnd

/-- `ALIGN_UP(size)` as a `long`. -/
def alignedSize (size : Nat) : Int := Int.bmod (alignUp size) (2 ^ 64)

/-- `va` lies between the two ends, whichever is the lower. -/
def Between (a b : Int) (va : Nat) : Prop := min a b ≤ va ∧ (va : Int) < max a b

theorem alignUp_lt_u64 (size : Nat) : alignUp size < 2 ^ 64 := by
  simp only [alignUp, u64, pageSize]
  omega

theorem alignedSize_eq (size : Nat) : alignedSize size
    = if alignUp size < 2 ^ 63 then (alignUp size : Int) else (alignUp size : Int) - 2 ^ 64 := by
  have hlt := alignUp_lt_u64 size
  unfold alignedSize Int.bmod
  dsimp only
  split
  · split
    · omega
    · omega
  · split
    · omega
    · omega

/-- The end of the heap that is asked for. -/
def newBrk (P : Proc) (size : Nat) : Nat := u64 (P.heapEnd + alignUp size)

/-- What the comparisons of `sys_sbrk` leave: so many pages up, or down, and no wrap. -/
theorem newBrk_cases {P : Proc} (h : HeapOk P) {size : Nat} (hnew : newBrk P size ≤ userHeapEnd) :
    newBrk P size % pageSize = 0 ∧ (newBrk P size : Int) = P.heapEnd + alignedSize size ∧
      (isPos (alignUp size) = true ∧ P.heapEnd ≤ newBrk P size ∨
        isPos (alignUp size) = false ∧ newBrk P size ≤ P.heapEnd) := by
  have haligned := h.aligned
  have htop := h.top
  have hmod := alignUp_mod size
  have hlt := alignUp_lt_u64 size
  rw [alignedSize_eq]
  unfold newBrk at *
  generalize alignUp size = d at *
  simp only [isPos, u64, pageSize, userHeapEnd, userStackBase, userEndVa, userStackSize,
    Bool.and_eq_true, decide_eq_true_eq, Bool.and_eq_false_iff, decide_eq_false_iff_not] at *
  refine ⟨by omega, ?_, by omega⟩
  split
  · omega
  · omega

/-- The end of the heap that is asked for, for an end that need not be that of a page. -/
def askedBrk (P : Proc) (size : Nat) : Nat := u64 (alignUp P.heapEnd + alignUp size)

variable {k k' : Kernel} {p size r : Nat}

/-- The checks of `sys_sbrk`. -/
def Declined (k : Kernel) (p size : Nat) : Prop :=
  p = 0 ∨ size = 0 ∨ askedBrk (k.procs p) size < (k.procs p).heapStart ∨
    userHeapEnd < askedBrk (k.procs p) size

theorem sysSbrk_declined (h : Declined k p size) : k.sysSbrk p size = .ok (minusOne, k) := by
  rw [sysSbrk]
  by_cases h0 : p = 0 ∨ size = 0
  · rw [if_pos h0]
  · rw [if_neg h0]
    apply if_pos
    rcases h with h | h | h
    · exact absurd (Or.inl h) h0
    · exact absurd (Or.inr h) h0
    · exact h

/-- The process once its heap ends at `brk`. -/
def moveBrk (k : Kernel) (p brk : Nat) (mm : Mm) : Kernel :=
  (k.setMm mm).setProc p { (k.setMm mm).procs p with heapEnd := brk }

theorem moveBrk_procs (k : Kernel) (p brk : Nat) (mm : Mm) :
    (k.moveBrk p brk mm).procs p = { k.procs p with heapEnd := brk } := Function.update_self ..

theorem sysSbrk_taken (h : ¬Declined k p size) : k.sysSbrk p size =
    (resize (k.procs p).pagetable (alignUp size) (alignUp (k.procs p).heapEnd)
      (askedBrk (k.procs p) size) k.mm).map fun r =>
        if r.1 then (alignUp (k.procs p).heapEnd, k.moveBrk p (askedBrk (k.procs p) size) r.2)
        else (minusOne, k.setMm r.2) := by
  unfold Declined askedBrk at h
  push Not at h
  obtain ⟨hp, hsize, hlow, hhigh⟩ := h
  have hin : ¬(u64 (alignUp (k.procs p).heapEnd + alignUp size) < (k.procs p).heapStart ∨
      userHeapEnd < u64 (alignUp (k.procs p).heapEnd + alignUp size)) :=
    not_or.mpr ⟨Nat.not_lt.mpr hlow, Nat.not_lt.mpr hhigh⟩
  rw [sysSbrk, if_neg (not_or.mpr ⟨hp, hsize⟩)]
  dsimp only
  rw [if_neg hin]
  unfold askedBrk
  cases resize (k.procs p).pagetable (alignUp size) (alignUp (k.procs p).heapEnd)
      (u64 (alignUp (k.procs p).heapEnd + alignUp size)) k.mm with
  | error e => rfl
  | ok r =>
      obtain ⟨ok, mm⟩ := r
      cases ok with
      | false => rfl
      | true => rfl

/-- The call is turned down before anything is done. -/
def SbrkRefused (k : Kernel) (p size : Nat) : Prop :=
  p = 0 ∨ size = 0 ∨ newBrk (k.procs p) size < (k.procs p).heapStart ∨
    userHeapEnd < newBrk (k.procs p) size

/-- What `sys_sbrk` returns and leaves after its loop. -/
def sbrkEnd (k : Kernel) (p size : Nat) (r : Bool × Mm) : Nat × Kernel :=
  if r.1 then ((k.procs p).heapEnd, (k.setMm r.2).setProc p
    { (k.setMm r.2).procs p with heapEnd := newBrk (k.procs p) size })
  else (minusOne, k.setMm r.2)

theorem HeapOk.alignUp_end {P : Proc} (h : HeapOk P) : alignUp P.heapEnd = P.heapEnd := by
  have htop := h.top
  simp only [userHeapEnd, userStackBase, userEndVa, userStackSize, pageSize] at htop
  apply alignUp_of_mod h.aligned
  simp only [pageSize]
  omega

theorem HeapOk.askedBrk {P : Proc} (h : HeapOk P) (size : Nat) : askedBrk P size = newBrk P size := by
  rw [Kernel.askedBrk, h.alignUp_end, newBrk]

theorem HeapOk.declined_iff (hheap : HeapOk (k.procs p)) : Declined k p size ↔ SbrkRefused k p size := by
  rw [Declined, hheap.askedBrk]
  rfl

theorem sysSbrk_refused (hheap : HeapOk (k.procs p)) (h : SbrkRefused k p size) :
    k.sysSbrk p size = .ok (minusOne, k) :=
  sysSbrk_declined (hheap.declined_iff.mpr h)

theorem sysSbrk_accepted (hheap : HeapOk (k.procs p)) (h : ¬SbrkRefused k p size) :
    k.sysSbrk p size = (resize (k.procs p).pagetable (alignUp size) (k.procs p).heapEnd
      (newBrk (k.procs p) size) k.mm).map (sbrkEnd k p size) := by
  rw [sysSbrk_taken fun hd => h (hheap.declined_iff.mp hd), hheap.askedBrk, hheap.alignUp_end]
  rfl

/-- The number of pages between two ends of the heap. -/
theorem exists_pages {a b : Nat} (ha : a % pageSize = 0) (hb : b % pageSize = 0) (hle : a ≤ b)
    (htop : b ≤ userHeapEnd) : ∃ n, a + n * pageSize = b ∧ n < 2 ^ 27 := by
  simp only [userHeapEnd, userStackBase, userEndVa, userStackSize, pageSize] at *
  exact ⟨(b - a) / 4096, by omega, by omega⟩

/-- The two ways of an accepted call. -/
inductive Resized (roots : ω → Option Nat) (o : ω) (live : Multiset (Nat × Nat)) (k : Kernel)
    (p size : Nat) : Except Stop (Bool × Mm) → Prop where
  | grown {n : Nat} {r : Bool × Mm}
      (hn : (k.procs p).heapEnd + n * pageSize = newBrk (k.procs p) size)
      (h : GrowEnd roots o (k.procs p).heapEnd n k.mm live r) : Resized roots o live k p size (.ok r)
  | shrunk {n : Nat} {s' : Mm}
      (hn : newBrk (k.procs p) size + n * pageSize = (k.procs p).heapEnd)
      (h : Cleared roots o (newBrk (k.procs p) size) n k.mm s') :
      Resized roots o live k p size (.ok (true, s'))
  /-- `free_page` does not come back. -/
  | stopped {n : Nat} {e : Stop}
      (hn : newBrk (k.procs p) size + n * pageSize = (k.procs p).heapEnd)
      (h : Stopped (leafOf k.mm.mem roots) o (newBrk (k.procs p) size) n k.mm e) :
      Resized roots o live k p size (.error e)

/-- **The loops of an accepted call.** -/
theorem resize_cases (h : Owned roots k.mm live) (hroot : roots o = some (k.procs p).pagetable)
    (hheap : HeapOk (k.procs p)) (hacc : ¬SbrkRefused k p size) :
    Resized roots o live k p size (resize (k.procs p).pagetable (alignUp size)
      (k.procs p).heapEnd (newBrk (k.procs p) size) k.mm) := by
  unfold SbrkRefused at hacc
  push Not at hacc
  obtain ⟨-, -, -, hhigh⟩ := hacc
  have hend := hheap.aligned
  have htop := hheap.top
  obtain ⟨hmod, -, ⟨hpos, hle⟩ | ⟨hpos, hle⟩⟩ := newBrk_cases hheap hhigh
  · obtain ⟨n, hn, hlt⟩ := exists_pages hend hmod hle hhigh
    obtain ⟨r, hloop, hgrow⟩ := growLoop_cases hroot (lt_of_le_of_lt hhigh (by decide)) h hn
      (show n < pageRounds by simp only [pageRounds]; omega)
    rw [resize, if_pos hpos, hloop]
    exact .grown hn hgrow
  · obtain ⟨n, hn, hlt⟩ := exists_pages hmod hend hle htop
    rw [resize, if_neg (by rw [hpos]; exact Bool.false_ne_true)]
    rcases shrinkLoop_cases hroot (lt_of_le_of_lt htop (by decide)) h.paged hn
        (show n < pageRounds by simp only [pageRounds]; omega) hlt.le with
      ⟨s', hloop, hcleared⟩ | ⟨e, hloop, hstopped⟩
    · rw [hloop]
      exact .shrunk hn hcleared
    · rw [hloop]
      exact .stopped hn hstopped

/-- When only leaves of the `n` pages from `lo` on have changed, only addresses in them translate
differently. -/
theorem translate_pages (h : Paged roots s) (h' : Paged roots s') {lo n : Nat}
    (hlo : lo % pageSize = 0) (htop : lo + n * pageSize ≤ userHeapEnd)
    (hleaf : ∀ o' va, ¬(o' = o ∧ ∃ i < n, vpage va = vpage (lo + i * pageSize)) →
      leafOf s'.mem roots o' va = leafOf s.mem roots o' va) {o' : ω} {root' va : Nat}
    (hr : roots o' = some root') (hne : s'.translate root' va ≠ s.translate root' va) :
    o' = o ∧ lo ≤ va ∧ va < lo + n * pageSize := by
  by_contra hout
  apply hne
  apply translate_congr h h' hr
  intro hc
  apply hleaf
  intro ⟨ho, i, hi, hva⟩
  have hmul : i * pageSize < n * pageSize := Nat.mul_lt_mul_of_pos_right hi (by decide)
  have hlt : lo + i * pageSize < 2 ^ 38 := by
    simp only [userHeapEnd, userStackBase, userEndVa, userStackSize, pageSize] at *
    omega
  have hpage := page_of_vpage (Or.inl hlt) hc hva
  apply hout
  simp only [pageSize] at *
  exact ⟨ho, by omega, by omega⟩

/-- What `sys_sbrk` keeps of a heap, and what it does to it. -/
structure SbrkSafe (roots : ω → Option Nat) (o : ω) (p size : Nat) (k : Kernel) (r : Nat)
    (k' : Kernel) : Prop where
  heap : HeapOk (k'.procs p)
  heapStart : (k'.procs p).heapStart = (k.procs p).heapStart
  /-- The result of a call that succeeds, and the new end. -/
  moved : r ≠ minusOne → r = (k.procs p).heapEnd ∧
    ((k'.procs p).heapEnd : Int) = (k.procs p).heapEnd + alignedSize size
  failed : r = minusOne → (k'.procs p).heapEnd = (k.procs p).heapEnd
  /-- Whatever comes of the call, no other page is touched, and no other table. -/
  within : ∀ o' root' va, roots o' = some root' →
    k'.mm.translate root' va ≠ k.mm.translate root' va →
      o' = o ∧ (k.procs p).heapStart ≤ va ∧ va < userHeapEnd ∧
        Between (k.procs p).heapEnd ((k.procs p).heapEnd + alignedSize size) va

/-- The part about the translations, for growing and shrinking alike. -/
theorem within_heap {mm : Mm} (h : Paged roots k.mm) (h' : Paged roots mm)
    (hheap : HeapOk (k.procs p)) (hacc : ¬SbrkRefused k p size) {lo hi n : Nat}
    (hends : lo = (k.procs p).heapEnd ∧ hi = newBrk (k.procs p) size ∨
      lo = newBrk (k.procs p) size ∧ hi = (k.procs p).heapEnd) (hn : lo + n * pageSize ≤ hi)
    (hleaf : ∀ o' va, ¬(o' = o ∧ ∃ i < n, vpage va = vpage (lo + i * pageSize)) →
      leafOf mm.mem roots o' va = leafOf k.mm.mem roots o' va) {o' : ω} {root' va : Nat}
    (hr : roots o' = some root') (hne : mm.translate root' va ≠ k.mm.translate root' va) :
    o' = o ∧ (k.procs p).heapStart ≤ va ∧ va < userHeapEnd ∧
      Between (k.procs p).heapEnd ((k.procs p).heapEnd + alignedSize size) va := by
  unfold SbrkRefused at hacc
  push Not at hacc
  obtain ⟨-, -, hlow, hhigh⟩ := hacc
  obtain ⟨hmod, hsum, -⟩ := newBrk_cases hheap hhigh
  have haligned := hheap.aligned
  have hle := hheap.le
  have htop := hheap.top
  have hlo : lo % pageSize = 0 := by
    rcases hends with ⟨rfl, -⟩ | ⟨rfl, -⟩
    · exact haligned
    · exact hmod
  have hhi : hi ≤ userHeapEnd := by
    rcases hends with ⟨-, rfl⟩ | ⟨-, rfl⟩
    · exact hhigh
    · exact htop
  obtain ⟨ho, hge, hlt⟩ := translate_pages h h' hlo (hn.trans hhi) hleaf hr hne
  rw [← hsum]
  refine ⟨ho, ?_, by omega, ?_⟩
  · rcases hends with ⟨rfl, -⟩ | ⟨rfl, -⟩
    · exact hle.trans hge
    · exact hlow.trans hge
  · unfold Between
    rcases hends with ⟨rfl, rfl⟩ | ⟨rfl, rfl⟩
    · omega
    · omega

omit [DecidableEq ω] in
/-- The call has changed nothing but the allocator and the tables. -/
theorem sbrkSafe_failed (mm : Mm) (hheap : HeapOk (k.procs p))
    (hwithin : ∀ o' root' va, roots o' = some root' →
      mm.translate root' va ≠ k.mm.translate root' va →
        o' = o ∧ (k.procs p).heapStart ≤ va ∧ va < userHeapEnd ∧
          Between (k.procs p).heapEnd ((k.procs p).heapEnd + alignedSize size) va) :
    SbrkSafe roots o p size k minusOne (k.setMm mm) :=
  ⟨hheap, rfl, fun hne => absurd rfl hne, fun _ => rfl, hwithin⟩

omit [DecidableEq ω] in
/-- The call has moved the end of the heap. -/
theorem sbrkSafe_moved (mm : Mm) (hheap : HeapOk (k.procs p)) (hacc : ¬SbrkRefused k p size)
    (hwithin : ∀ o' root' va, roots o' = some root' →
      mm.translate root' va ≠ k.mm.translate root' va →
        o' = o ∧ (k.procs p).heapStart ≤ va ∧ va < userHeapEnd ∧
          Between (k.procs p).heapEnd ((k.procs p).heapEnd + alignedSize size) va) :
    SbrkSafe roots o p size k (k.procs p).heapEnd (k.moveBrk p (newBrk (k.procs p) size) mm) := by
  unfold SbrkRefused at hacc
  push Not at hacc
  obtain ⟨-, -, hlow, hhigh⟩ := hacc
  obtain ⟨hmod, hsum, -⟩ := newBrk_cases hheap hhigh
  have hproc := moveBrk_procs k p (newBrk (k.procs p) size) mm
  have hne : (k.procs p).heapEnd ≠ minusOne := by
    have htop := hheap.top
    simp only [userHeapEnd, userStackBase, userEndVa, userStackSize, pageSize, minusOne] at *
    omega
  refine ⟨?_, ?_, fun _ => ⟨rfl, ?_⟩, fun heq => absurd heq hne, hwithin⟩
  · rw [hproc]
    exact ⟨hheap.start, hmod, hlow, hhigh⟩
  · rw [hproc]
  · rw [hproc]
    exact hsum

/-- **The bounds of the heap**, for every size: `sys_sbrk` stays within them, or it shrinks the heap
and the `free_page` of one of these pages does not come back. -/
theorem sysSbrk_bounds (h : Owned roots k.mm live) (hroot : roots o = some (k.procs p).pagetable)
    (hheap : HeapOk (k.procs p)) (size : Nat) :
    (∃ r k', k.sysSbrk p size = .ok (r, k') ∧ SbrkSafe roots o p size k r k') ∨
      ∃ e n, k.sysSbrk p size = .error e ∧
        newBrk (k.procs p) size + n * pageSize = (k.procs p).heapEnd ∧
          Stopped (leafOf k.mm.mem roots) o (newBrk (k.procs p) size) n k.mm e := by
  by_cases hacc : SbrkRefused k p size
  · refine Or.inl ⟨minusOne, k, sysSbrk_refused hheap hacc, ?_⟩
    exact sbrkSafe_failed k.mm hheap fun _ _ _ _ hne => absurd rfl hne
  · rw [sysSbrk_accepted hheap hacc]
    have hcases := resize_cases h hroot hheap hacc
    generalize resize (k.procs p).pagetable (alignUp size) (k.procs p).heapEnd
      (newBrk (k.procs p) size) k.mm = x at hcases
    have hgrown : ∀ {n fs lost tabs s'}, (k.procs p).heapEnd + n * pageSize = newBrk (k.procs p) size →
        fs.length ≤ n → Grown roots o (k.procs p).heapEnd k.mm live fs lost tabs s' →
        ∀ o' root' va, roots o' = some root' →
          s'.translate root' va ≠ k.mm.translate root' va →
            o' = o ∧ (k.procs p).heapStart ≤ va ∧ va < userHeapEnd ∧
              Between (k.procs p).heapEnd ((k.procs p).heapEnd + alignedSize size) va := by
      intro n fs lost tabs s' hn hle hg o' root' va hr hne
      have hmul : fs.length * pageSize ≤ n * pageSize := Nat.mul_le_mul_right _ hle
      refine within_heap h.paged hg.owned.paged hheap hacc (.inl ⟨rfl, rfl⟩) (n := fs.length)
        (by omega) (fun o' va hout => ?_) hr hne
      rw [hg.leaf]
      exact mapRange_outside hout
    cases hcases with
    | grown hn hend =>
        left
        cases hend with
        | mapped hg hlen =>
            exact ⟨_, _, rfl, sbrkSafe_moved _ hheap hacc (hgrown hn hlen.le hg)⟩
        | noFrame hg hlt _ _ =>
            exact ⟨_, _, rfl, sbrkSafe_failed _ hheap (hgrown hn hlt.le hg)⟩
        | noTable hg hlt _ =>
            exact ⟨_, _, rfl, sbrkSafe_failed _ hheap (hgrown hn hlt.le hg)⟩
    | shrunk hn hc =>
        refine Or.inl ⟨_, _, rfl, sbrkSafe_moved _ hheap hacc ?_⟩
        intro o' root' va hr hne
        refine within_heap h.paged hc.paged hheap hacc (.inr ⟨rfl, rfl⟩) hn.le
          (fun o' va hout => ?_) hr hne
        rw [hc.leaf]
        exact unmapRange_outside hout
    | stopped hn hstopped => exact Or.inr ⟨_, _, rfl, hn, hstopped⟩

/-- A kernel whose processes have an empty heap at 64 KiB, over the table at `root`. -/
def heapKernel (mm : Mm) (root : Nat) : Kernel where
  layout := Mm.smallLayout
  symbols := ⟨0xffffffff80001000, 0xffffffff80002000⟩
  snub := Snub.snubInit mm
  kernelPagetable := 0x80010000
  nextPid := 2
  procs _ := { Proc.zero with pagetable := root, heapStart := 0x10000, heapEnd := 0x10000 }
  frames _ := TrapFrame.zero
  nodes _ := ⟨none, none⟩
  cpu := ⟨0, false, 1⟩
  hart := ⟨0, .trapVector, 0, 0, 0, 0, Context.zero⟩
  uartIn := []
  uartOut := []

theorem heapOk_heapKernel (mm : Mm) (root : Nat) : HeapOk ((heapKernel mm root).procs 1) where
  start := (by decide : 0x10000 % pageSize = 0)
  aligned := (by decide : 0x10000 % pageSize = 0)
  le := le_refl _
  top := (by decide : 0x10000 ≤ userHeapEnd)

/-- The first page after the boot is the table of a process. -/
theorem exists_heapKernel :
    ∃ mm root, Owned (fun _ : Unit => some root) (heapKernel mm root).mm {(root, 0)} ∧
      (∀ va, leafOf (heapKernel mm root).mm.mem (fun _ : Unit => some root) () va = none) ∧
      (heapKernel mm root).mm.numPages = 32623 :=
  exists_table_smallLayout

theorem sysSbrk_bounds_heapKernel :
    ∃ mm root, ((∃ r k', (heapKernel mm root).sysSbrk 1 5000 = .ok (r, k') ∧
        SbrkSafe (fun _ : Unit => some root) () 1 5000 (heapKernel mm root) r k') ∨
      ∃ e n, (heapKernel mm root).sysSbrk 1 5000 = .error e ∧
        newBrk ((heapKernel mm root).procs 1) 5000 + n * pageSize = 0x10000 ∧
          Stopped (leafOf (heapKernel mm root).mm.mem (fun _ : Unit => some root)) ()
            (newBrk ((heapKernel mm root).procs 1) 5000) n (heapKernel mm root).mm e) := by
  obtain ⟨mm, root, howned, -⟩ := exists_heapKernel
  exact ⟨mm, root, sysSbrk_bounds howned rfl (heapOk_heapKernel mm root) 5000⟩

end Kernel

end SystemN
