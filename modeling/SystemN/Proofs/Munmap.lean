/-
When `sys_munmap` is exact.

The loop unmaps page after page and stops at the first one that is not mapped; what it has
unmapped by then stays so.  And the end of the range is computed modulo 2^64, so that a large
size leaves the loop nothing to do, and the call succeeds.

`unmap_page` looks at the 27 bits of the page number that `walk` uses.  So a loop that runs
into addresses that are not canonical, or all the way round, meets pages of the range again.
-/
import SystemN.Proofs.Sbrk

namespace SystemN

open Mm

variable {ω : Type} {roots : ω → Option Nat} {o : ω} {root : Nat} {s s' : Mm}

namespace Kernel

/-! ### The loop -/

/-- The first `j` pages from `va` on are mapped, and different as far as `walk` can tell. -/
structure Passed (L : ω → Nat → Option (Nat × Nat)) (o : ω) (va j : Nat) : Prop where
  present : ∀ i < j, L o (va + i * pageSize) ≠ none
  distinct : ∀ i i', i' < i → i < j → vpage (va + i * pageSize) ≠ vpage (va + i' * pageSize)

variable [DecidableEq ω] {L : ω → Nat → Option (Nat × Nat)} {va : Nat}

/-- The page after these is missing, or one of these once more. -/
def Gap (L : ω → Nat → Option (Nat × Nat)) (o : ω) (va j : Nat) : Prop :=
  L o (va + j * pageSize) = none ∨ ∃ i < j, vpage (va + j * pageSize) = vpage (va + i * pageSize)

/-- How the loop over `n` pages ends. -/
inductive MunmapEnd (roots : ω → Option Nat) (o : ω) (va n : Nat) (s : Mm) : Bool × Mm → Prop where
  | cleared {s' : Mm} (h : Cleared roots o va n s s') (hp : Passed (leafOf s.mem roots) o va n) :
      MunmapEnd roots o va n s (true, s')
  | hole {j : Nat} {s' : Mm} (hj : j < n) (h : Cleared roots o va j s s')
      (hp : Passed (leafOf s.mem roots) o va j) (hgap : Gap (leafOf s.mem roots) o va j) :
      MunmapEnd roots o va n s (false, s')

omit [DecidableEq ω] in
theorem Passed.zero : Passed L o va 0 :=
  ⟨fun i hi => absurd hi (Nat.not_lt_zero i), fun i _ _ hi => absurd hi (Nat.not_lt_zero i)⟩

theorem unmapLeaf_ne_none {va' : Nat} (h : unmapLeaf L o va o va' ≠ none) :
    vpage va' ≠ vpage va ∧ L o va' ≠ none := by
  unfold unmapLeaf at h
  split at h
  · exact absurd rfl h
  · next hne => exact ⟨fun hva => hne ⟨rfl, hva⟩, h⟩

/-- One page more in front. -/
theorem Passed.succ {j : Nat} (hfirst : L o va ≠ none)
    (h : Passed (unmapLeaf L o va) o (va + pageSize) j) : Passed L o va (j + 1) := by
  have hnext : ∀ i < j, vpage (va + pageSize + i * pageSize) ≠ vpage va ∧
      L o (va + pageSize + i * pageSize) ≠ none :=
    fun i hi => unmapLeaf_ne_none (h.present i hi)
  refine ⟨?_, ?_⟩
  · intro i hi
    cases i with
    | zero => rwa [Nat.zero_mul]
    | succ i =>
        rw [add_succ_pages]
        exact (hnext i (Nat.lt_of_succ_lt_succ hi)).2
  · intro i i' hlt hi
    cases i with
    | zero => exact absurd hlt (Nat.not_lt_zero i')
    | succ i =>
        rw [add_succ_pages]
        cases i' with
        | zero =>
            rw [Nat.zero_mul]
            exact (hnext i (Nat.lt_of_succ_lt_succ hi)).1
        | succ i' =>
            rw [add_succ_pages]
            exact h.distinct i i' (Nat.lt_of_succ_lt_succ hlt) (Nat.lt_of_succ_lt_succ hi)

theorem Gap.succ {j : Nat} (h : Gap (unmapLeaf L o va) o (va + pageSize) j) : Gap L o va (j + 1) := by
  unfold Gap at h ⊢
  rw [add_succ_pages]
  rcases h with hnone | ⟨i, hi, hva⟩
  · unfold unmapLeaf at hnone
    split at hnone
    · next hpage =>
      refine Or.inr ⟨0, Nat.zero_lt_succ j, ?_⟩
      rw [Nat.zero_mul]
      exact hpage.2
    · exact Or.inl hnone
  · refine Or.inr ⟨i + 1, Nat.succ_lt_succ hi, ?_⟩
    rw [add_succ_pages]
    exact hva

/-- **The loop of `sys_munmap`** comes back unless a `free_page` does not. -/
theorem munmapLoop_cases (hroot : roots o = some root) {last : Nat} (hlt : last < 2 ^ 64) :
    ∀ {n fuel va : Nat} {s : Mm}, Paged roots s → va + n * pageSize = last → n < fuel →
      (∃ r, munmapLoop root last fuel va s = .ok r ∧ MunmapEnd roots o va n s r) ∨
        ∃ e t pa, munmapLoop root last fuel va s = .error e ∧ Mm.freePage t pa = .error e := by
  intro n
  induction n with
  | zero =>
      intro fuel va s h hend hfuel
      obtain ⟨fuel, rfl⟩ : ∃ f, fuel = f + 1 := ⟨fuel - 1, by omega⟩
      rw [Nat.zero_mul, Nat.add_zero] at hend
      subst hend
      refine Or.inl ⟨(true, s), ?_, .cleared (Cleared.zero h) Passed.zero⟩
      rw [munmapLoop, if_neg (Nat.lt_irrefl va)]
      rfl
  | succ n ih =>
      intro fuel va s h hend hfuel
      obtain ⟨fuel, rfl⟩ : ∃ f, fuel = f + 1 := ⟨fuel - 1, by omega⟩
      rw [add_succ_pages] at hend
      have hva : va < last := by
        simp only [pageSize] at hend
        omega
      have hnext : u64 (va + pageSize) = va + pageSize := Nat.mod_eq_of_lt (by omega)
      rw [munmapLoop, if_pos hva, hnext]
      cases hcall : Mm.unmapPage root va s with
      | error e =>
          obtain ⟨_, -, pa, _, t, -, -, hfree⟩ := h.unmapPage_error hroot hcall 0
          exact Or.inr ⟨e, t, pa, rfl, hfree⟩
      | ok r =>
          obtain ⟨ok, t⟩ := r
          obtain ⟨hok, hun⟩ := h.unmapPage hroot hcall
          cases hleaf : leafOf s.mem roots o va with
          | none =>
              rw [hleaf] at hok
              subst hok
              have hsame : leafOf t.mem roots = leafOf s.mem roots :=
                hun.leaf.trans (unmapLeaf_none (fun _ hva => leafOf_vpage hva) hleaf)
              have hfreed := hun.freed
              rw [hleaf] at hfreed
              refine Or.inl ⟨(false, t), rfl, .hole (Nat.zero_lt_succ n) ⟨hun.paged, ?_, hun.isTable, hfreed⟩
                Passed.zero (Or.inl ?_)⟩
              · rw [hsame, unmapRange_zero]
              · rwa [Nat.zero_mul]
          | some x =>
              rw [hleaf] at hok
              subst hok
              have hfirst : leafOf s.mem roots o va ≠ none := by
                rw [hleaf]
                exact Option.some_ne_none x
              rcases ih hun.paged hend (Nat.lt_of_succ_lt_succ hfuel) with
                ⟨r, hloop, hres⟩ | herror
              · refine Or.inl ⟨r, hloop, ?_⟩
                cases hres with
                | cleared hc hp =>
                    rw [hun.leaf] at hp
                    exact .cleared (Cleared.succ hun hc fun i hi => (unmapLeaf_ne_none (hp.present i hi)).1) (hp.succ hfirst)
                | hole hj hc hp hgap =>
                    rw [hun.leaf] at hp hgap
                    exact .hole (Nat.succ_lt_succ hj) (Cleared.succ hun hc fun i hi => (unmapLeaf_ne_none (hp.present i hi)).1) (hp.succ hfirst) hgap.succ
              · exact Or.inr herror

/-! ### The range -/

variable {k k' : Kernel} {p addr size r : Nat}

/-- The page of `va` meets the range of `size` bytes from `addr` on. -/
def Meets (addr size va : Nat) : Prop :=
  addr < va / pageSize * pageSize + pageSize ∧ va / pageSize * pageSize < addr + size

theorem meets_iff (haddr : addr % pageSize = 0) :
    Meets addr size va ↔ ∃ i < pagesOf size, va / pageSize = (addr + i * pageSize) / pageSize := by
  simp only [Meets, pagesOf, pageSize] at *
  constructor
  · intro ⟨hlow, hhigh⟩
    exact ⟨va / 4096 - addr / 4096, by omega, by omega⟩
  · intro ⟨i, hi, hva⟩
    omega

theorem munmapEnd_fits (haddr : addr % pageSize = 0) (hfits : addr + size + pageSize ≤ 2 ^ 64) :
    alignUp (u64 (addr + size)) = addr + pagesOf size * pageSize := by
  simp only [alignUp, u64, pagesOf, pageSize] at *
  omega

/-- The end of the range has wrapped around. -/
theorem munmapEnd_wraps (haddr : addr % pageSize = 0) (hsize : size < 2 ^ 64)
    (hwraps : ¬addr + size + pageSize ≤ 2 ^ 64) : alignUp (u64 (addr + size)) ≤ addr := by
  simp only [alignUp, u64, pageSize] at *
  omega

/-- **All or nothing.** -/
structure MunmapExact (roots : ω → Option Nat) (o : ω) (root addr size : Nat) (k : Kernel) (r : Nat)
    (k' : Kernel) : Prop where
  mapped : r = 0 → ∀ va, Meets addr size va → k.mm.translate root va ≠ none
  unmapped : r = 0 → ∀ va, Meets addr size va → k'.mm.translate root va = none
  freed : r = 0 → Freed k.mm (Mm.frames (leafOf k.mm.mem roots) o addr (pagesOf size)) k'.mm
  others : r = 0 → ∀ o' root' va, roots o' = some root' → ¬(o' = o ∧ Meets addr size va) →
    k'.mm.translate root' va = k.mm.translate root' va
  failed : r = minusOne → SameAllocator k.mm k'.mm ∧
    ∀ o' root' va, roots o' = some root' → k'.mm.translate root' va = k.mm.translate root' va

/-- The call is that of its loop. -/
theorem sysMunmap_eq (hp : p ≠ 0) (hsize : size ≠ 0) (haddr : addr % pageSize = 0) :
    k.sysMunmap p addr size = (munmapLoop (k.procs p).pagetable (alignUp (u64 (addr + size)))
      pageRounds addr k.mm).map fun r => (if r.1 then 0 else minusOne, k.setMm r.2) := by
  rw [sysMunmap, if_neg (by simp [hp, hsize, haddr])]
  dsimp only
  cases munmapLoop (k.procs p).pagetable (alignUp (u64 (addr + size))) pageRounds addr k.mm with
  | error e => rfl
  | ok r => rfl

theorem munmapLoop_empty {last fuel : Nat} (h : last ≤ addr) (hfuel : 0 < fuel) :
    munmapLoop root last fuel addr s = .ok (true, s) := by
  obtain ⟨fuel, rfl⟩ : ∃ f, fuel = f + 1 := ⟨fuel - 1, by omega⟩
  rw [munmapLoop, if_neg (Nat.not_lt.mpr h)]
  rfl

/-- The first page meets the range. -/
theorem meets_first (haddr : addr % pageSize = 0) (hsize : size ≠ 0) : Meets addr size addr := by
  simp only [Meets, pageSize] at *
  omega

/-- An address that the hardware translates through the entry that `walk` finds for `va`. -/
theorem exists_canonical (va : Nat) : ∃ va', Canonical va' ∧ vpage va' = vpage va := by
  by_cases hlow : vpage va < 2 ^ 26
  · refine ⟨vpage va * pageSize, Or.inl ?_, ?_⟩
    · simp only [vpage, pageSize] at *
      omega
    · simp only [vpage, pageSize] at *
      omega
  · refine ⟨2 ^ 64 - 2 ^ 39 + vpage va * pageSize, Or.inr ?_, ?_⟩
    · simp only [vpage, pageSize] at *
      omega
    · simp only [vpage, pageSize] at *
      omega

/-- After a hole in front, nothing has happened. -/
theorem munmapExact_failed {mm : Mm} (h : Paged roots k.mm)
    (hc : Cleared roots o addr 0 k.mm mm) :
    MunmapExact roots o root addr size k minusOne (k.setMm mm) := by
  have hsame : SameAllocator k.mm mm := by
    cases hc.freed with
    | nil hsame => exact hsame
  refine ⟨?_, ?_, ?_, ?_, fun _ => ⟨hsame, fun o' root' va hr => ?_⟩⟩
  · intro h0
    cases h0
  · intro h0
    cases h0
  · intro h0
    cases h0
  · intro h0
    cases h0
  · refine translate_congr h hc.paged hr fun _ => ?_
    rw [hc.leaf, unmapRange_zero]

/-- After the last page of a range that was mapped throughout. -/
theorem munmapExact_done {mm : Mm} (h : Paged roots k.mm) (hroot : roots o = some root)
    (haddr : addr % pageSize = 0) (hc : Cleared roots o addr (pagesOf size) k.mm mm)
    (hmapped : ∀ va, Meets addr size va → k.mm.translate root va ≠ none) :
    MunmapExact roots o root addr size k 0 (k.setMm mm) := by
  have hcanon : ∀ va, Meets addr size va → Canonical va := by
    intro va hva
    by_contra hnot
    exact hmapped va hva (if_neg hnot)
  have hpage : ∀ i < pagesOf size, Meets addr size (addr + i * pageSize) :=
    fun i hi => (meets_iff haddr).mpr ⟨i, hi, rfl⟩
  refine ⟨fun _ => hmapped, fun _ va hva => ?_, fun _ => hc.freed, fun _ o' root' va hr hout => ?_, ?_⟩
  · obtain ⟨i, hi, hpage⟩ := (meets_iff haddr).mp hva
    have hvpage : vpage va = vpage (addr + i * pageSize) := by
      unfold vpage
      rw [hpage]
    show mm.translate root va = none
    rw [translate_eq hc.paged.tables hroot (hcanon va hva), hc.leaf, unmapRange,
      if_pos ⟨rfl, i, hi, hvpage⟩]
    rfl
  · refine translate_congr h hc.paged hr fun hcva => ?_
    rw [hc.leaf]
    apply unmapRange_outside
    rintro ⟨ho, i, hi, hva⟩
    apply hout
    refine ⟨ho, (meets_iff haddr).mpr ⟨i, hi, ?_⟩⟩
    exact page_of_vpage (hcanon _ (hpage i hi)) hcva hva
  · intro h0
    cases h0

/-- Pages that have been passed are unmapped, and one that is not passed makes the loop fail. -/
theorem not_munmapExact {mm : Mm} {j : Nat} (h : Paged roots k.mm) (hroot : roots o = some root)
    (hc : Cleared roots o addr j k.mm mm) (hj : 0 < j) (hfirst : leafOf k.mm.mem roots o addr ≠ none) :
    ¬MunmapExact roots o root addr size k minusOne (k.setMm mm) := by
  intro hexact
  obtain ⟨va, hcanon, hva⟩ := exists_canonical addr
  have hsame : mm.translate root va = k.mm.translate root va := (hexact.failed rfl).2 o root va hroot
  have hva' : vpage va = vpage (addr + 0 * pageSize) := by rwa [Nat.zero_mul]
  rw [translate_eq hc.paged.tables hroot hcanon, hc.leaf, unmapRange, if_pos ⟨rfl, 0, hj, hva'⟩,
    translate_eq h.tables hroot hcanon, leafOf_vpage hva] at hsame
  obtain ⟨x, hx⟩ := Option.ne_none_iff_exists'.mp hfirst
  rw [hx] at hsame
  cases hsame

omit [DecidableEq ω] in
/-- A range that is mapped throughout has no gap. -/
theorem not_gap (h : Paged roots k.mm) (hroot : roots o = some root) (haddr : addr % pageSize = 0)
    (hmapped : ∀ va, Meets addr size va → k.mm.translate root va ≠ none) {j : Nat}
    (hj : j < pagesOf size) : ¬Gap (leafOf k.mm.mem roots) o addr j := by
  have hpage : ∀ i < pagesOf size, Canonical (addr + i * pageSize) ∧
      leafOf k.mm.mem roots o (addr + i * pageSize) ≠ none := by
    intro i hi
    have hva := hmapped _ ((meets_iff haddr).mpr ⟨i, hi, rfl⟩)
    by_cases hc : Canonical (addr + i * pageSize)
    · refine ⟨hc, fun hnone => hva ?_⟩
      rw [translate_eq h.tables hroot hc, hnone]
      rfl
    · exact absurd (if_neg hc) hva
  intro hgap
  rcases hgap with hnone | ⟨i, hi, hva⟩
  · exact (hpage j hj).2 hnone
  · have heq := page_of_vpage (hpage i (hi.trans hj)).1 (hpage j hj).1 hva
    simp only [pageSize] at *
    omega

/-- **When `sys_munmap` is exact.**  The range must not reach into the last page of the address
space, and its first page must have no entry, or all its pages must be mapped. -/
theorem sysMunmap_exact_iff (h : Paged roots k.mm) (hroot : roots o = some (k.procs p).pagetable)
    (hp : p ≠ 0) (haddr : addr % pageSize = 0) (hsize : size ≠ 0) (hlt : size < 2 ^ 64)
    (hcall : k.sysMunmap p addr size = .ok (r, k')) :
    MunmapExact roots o (k.procs p).pagetable addr size k r k' ↔
      addr + size + pageSize ≤ 2 ^ 64 ∧ (leafOf k.mm.mem roots o addr = none ∨
        ∀ va, Meets addr size va → k.mm.translate (k.procs p).pagetable va ≠ none) := by
  have hfirst := meets_first haddr hsize
  rw [sysMunmap_eq hp hsize haddr] at hcall
  by_cases hfits : addr + size + pageSize ≤ 2 ^ 64
  · rw [munmapEnd_fits haddr hfits] at hcall
    have hpos : 0 < pagesOf size := by
      simp only [pagesOf, pageSize]
      omega
    have hrounds : addr + pagesOf size * pageSize < 2 ^ 64 ∧ pagesOf size < pageRounds := by
      simp only [pagesOf, pageSize, pageRounds] at *
      omega
    rcases munmapLoop_cases hroot hrounds.1 h rfl hrounds.2 with ⟨res, hloop, hend⟩ |
      ⟨e, t, pa, hloop, -⟩
    · rw [hloop] at hcall
      obtain ⟨rfl, rfl⟩ := Prod.mk.inj (Except.ok.inj hcall)
      cases hend with
      | cleared hc hpassed =>
          constructor
          · intro hexact
            exact ⟨hfits, Or.inr (hexact.mapped rfl)⟩
          · rintro ⟨-, hnone | hmapped⟩
            · exact absurd (by rwa [Nat.zero_mul]) (hpassed.present 0 hpos)
            · exact munmapExact_done h hroot haddr hc hmapped
      | @hole j mm hj hc hpassed hgap =>
          rcases Nat.eq_zero_or_pos j with rfl | hjpos
          · constructor
            · intro _
              rcases hgap with hnone | ⟨i, hi, -⟩
              · rw [Nat.zero_mul] at hnone
                exact ⟨hfits, Or.inl hnone⟩
              · exact absurd hi (Nat.not_lt_zero i)
            · intro _
              exact munmapExact_failed h hc
          · have hpresent : leafOf k.mm.mem roots o addr ≠ none := by
              have hzero := hpassed.present 0 hjpos
              rwa [Nat.zero_mul] at hzero
            constructor
            · intro hexact
              exact absurd hexact (not_munmapExact h hroot hc hjpos hpresent)
            · rintro ⟨-, hnone | hmapped⟩
              · exact absurd hnone hpresent
              · exact absurd hgap (not_gap h hroot haddr hmapped hj)
    · rw [hloop] at hcall
      cases hcall
  · have hwraps := munmapEnd_wraps haddr hlt hfits
    rw [munmapLoop_empty hwraps (by decide)] at hcall
    obtain ⟨rfl, rfl⟩ := Prod.mk.inj (Except.ok.inj hcall)
    constructor
    · intro hexact
      exact absurd (hexact.unmapped rfl addr hfirst) (hexact.mapped rfl addr hfirst)
    · intro hcond
      exact absurd hcond.1 hfits

/-- A page that is not mapped, and a range that goes once round the address space from there. -/
theorem munmap_wraps_heapKernel :
    ∃ mm root k', Owned (fun _ : Unit => some root) (heapKernel mm root).mm {(root, 0)} ∧
      (heapKernel mm root).sysMunmap 1 0x10000 (2 ^ 64 - 1) = .ok (0, k') ∧
      ¬MunmapExact (fun _ : Unit => some root) () root 0x10000 (2 ^ 64 - 1) (heapKernel mm root) 0 k' := by
  obtain ⟨mm, root, howned, hleaf, -⟩ := exists_heapKernel
  refine ⟨mm, root, heapKernel mm root, howned, ?_, ?_⟩
  · rw [sysMunmap_eq (by decide) (by decide) (by decide), munmapLoop_empty (by decide) (by decide)]
    rfl
  · intro hexact
    have hmapped := hexact.mapped rfl 0x10000 (meets_first (by decide) (by decide))
    apply hmapped
    rw [translate_eq howned.tables (o := ()) rfl (by decide), hleaf]
    rfl

/-- The same page alone is refused, and nothing has happened. -/
theorem munmap_exact_heapKernel :
    ∃ mm root r k', (heapKernel mm root).sysMunmap 1 0x10000 1 = .ok (r, k') ∧
      (MunmapExact (fun _ : Unit => some root) () root 0x10000 1 (heapKernel mm root) r k' ↔
        0x10000 + 1 + pageSize ≤ 2 ^ 64 ∧
          (leafOf (heapKernel mm root).mm.mem (fun _ : Unit => some root) () 0x10000 = none ∨
            ∀ va, Meets 0x10000 1 va → (heapKernel mm root).mm.translate root va ≠ none)) := by
  obtain ⟨mm, root, howned, hleaf, -⟩ := exists_heapKernel
  obtain ⟨t, hunmap, -⟩ := howned.unmapPage_none (o := ()) rfl (hleaf 0x10000)
  have hcall : (heapKernel mm root).sysMunmap 1 0x10000 1
      = .ok (minusOne, (heapKernel mm root).setMm t) := by
    rw [sysMunmap_eq (by decide) (by decide) (by decide)]
    have hloop : munmapLoop root (alignUp (u64 (0x10000 + 1))) pageRounds 0x10000
        (heapKernel mm root).mm = .ok (false, t) := by
      rw [show pageRounds = 2 ^ 52 + 1 from rfl, munmapLoop, if_pos (by decide), hunmap]
      rfl
    exact congrArg (Except.map fun r => (if r.1 then 0 else minusOne,
      (heapKernel mm root).setMm r.2)) hloop
  exact ⟨mm, root, _, _, hcall, sysMunmap_exact_iff howned.paged rfl (by decide) (by decide)
    (by decide) (by decide) hcall⟩

end Kernel

end SystemN
