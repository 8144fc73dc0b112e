/-
The kernel page table that `mm_init` leaves.

The four parts of `setup_kernel_pagetable` map pages at `VA_OFFSET` above where they are.
Below 4 GiB two such addresses have the same page number only if they are in the same page,
so the parts do not meet, and what each has mapped is there in the end.

From `_kernel_data_start` on everything is mapped up to `KERNEL_END`, read and write, and
nothing behind it.  The pages the allocator manages begin there and end at `USER_END`.
-/
import SystemN.Proofs.Mm.Refine
import SystemN.Proofs.Mm.Owned
import SystemN.Proofs.Mm.Metadata
import SystemN.Start

namespace SystemN

open Mm Radix

variable {s s' : Mm} {live : Multiset (Nat × Nat)} {kp pa : Nat} {L : Layout}

/-- The page number of a page at its kernel address. -/
theorem vpage_kernel (h : pa < 2 ^ 32) : vpage (pa + vaOffsetConst) = 0x7f00000 + pa / pageSize := by
  simp only [vpage, vaOffsetConst, kernelStartVa, kernelStart, pageSize]
  omega

/-! ### One loop -/

/-- The pages from `lo` to `hi` are now mapped at their kernel addresses, where there was nothing. -/
structure RangeMapped (f f' : Nat → Option (Nat × Nat)) (perm lo hi : Nat) : Prop where
  inside : ∀ pa, pa % pageSize = 0 → lo ≤ pa → pa < hi → f (pa + vaOffsetConst) = none →
    f' (pa + vaOffsetConst) = some (pa, mapFlags perm)
  outside : ∀ va, (∀ pa, pa % pageSize = 0 → lo ≤ pa → pa < hi → vpage va ≠ vpage (pa + vaOffsetConst)) →
    f' va = f va

/-- **A loop of `setup_kernel_pagetable`** that comes back. -/
theorem mapRange_table {perm : Nat} (hperm : IsPerm perm) :
    ∀ {n pa : Nat} {s : Mm} {live : Multiset (Nat × Nat)}, Owned (theRoot kp) s live →
      pa % pageSize = 0 → pa + n * pageSize ≤ 2 ^ 32 → mapRange kp perm n pa s = .ok s' →
        ∃ tabs, Changed (theRoot kp) s live s' tabs (leafOf s'.mem (theRoot kp)) ∧
          RangeMapped (leafOf s.mem (theRoot kp) ()) (leafOf s'.mem (theRoot kp) ()) perm pa
            (pa + n * pageSize) := by
  intro n
  induction n with
  | zero =>
      intro pa s live h _ _ hloop
      obtain rfl : s = s' := Except.ok.inj hloop
      refine ⟨0, Changed.refl h, fun pa' _ hlo hhi _ => ?_, fun _ _ => rfl⟩
      rw [Nat.zero_mul] at hhi
      exact absurd hlo (Nat.not_le.mpr hhi)
  | succ n ih =>
      intro pa s live h hmod hle hloop
      have hend : pa + pageSize + n * pageSize = pa + (n + 1) * pageSize := by
        rw [Nat.succ_mul]
        omega
      have hpa : pa < 2 ^ 32 := by
        simp only [pageSize] at hle
        omega
      obtain ⟨ok, s₁, tabs, hcall, hmapped⟩ :=
        h.mapPage_cases (o := ()) rfl (pa + vaOffsetConst) hmod (hpa.trans (by norm_num)) hperm
      rw [mapRange, hcall, ok_bind] at hloop
      cases ok with
      | false => cases hloop
      | true =>
          have hc := hmapped.changed
          have hnext : (pa + pageSize) % pageSize = 0 := by
            rw [Nat.add_mod_right]
            exact hmod
          obtain ⟨tabs', hc', hrange⟩ := ih hc.owned hnext (hend ▸ hle) hloop
          rw [hend] at hrange
          have hleaf : ∀ va, leafOf s₁.mem (theRoot kp) () va
              = mapLeaf (leafOf s.mem (theRoot kp)) () (pa + vaOffsetConst) pa perm () va :=
            fun va => hc.leaf () va
          have hpage : ∀ {a}, a < 2 ^ 32 → a % pageSize = 0 →
              vpage (a + vaOffsetConst) = vpage (pa + vaOffsetConst) → a = pa := by
            intro a ha hamod heq
            rw [vpage_kernel ha, vpage_kernel hpa] at heq
            simp only [pageSize] at *
            omega
          refine ⟨tabs' + tabs, hc.trans hc', fun a hamod hlo hhi hnone => ?_, fun va hout => ?_⟩
          · rcases Nat.eq_or_lt_of_le hlo with rfl | hlt
            · rw [hrange.outside, hleaf, mapLeaf, if_pos ⟨rfl, rfl⟩, hnone]
              · rfl
              · intro a' hamod' hlo' hhi' heq
                rw [hpage (hhi'.trans_le hle) hamod' heq.symm] at hlo'
                simp only [pageSize] at hlo'
                omega
            · have hge : pa + pageSize ≤ a := by
                simp only [pageSize] at *
                omega
              apply hrange.inside a hamod hge hhi
              rw [hleaf, mapLeaf, if_neg]
              · exact hnone
              · intro ⟨_, heq⟩
                exact absurd (hpage (hhi.trans_le hle) hamod heq) (Nat.ne_of_gt hlt)
          · rw [hrange.outside, hleaf, mapLeaf, if_neg]
            · intro ⟨_, heq⟩
              exact hout pa hmod (Nat.le_refl pa) (Nat.lt_add_of_pos_right (Nat.succ_mul_pos n (by decide))) heq
            · intro a hamod hlo hhi
              exact hout a hamod (by omega) hhi

/-- It comes back while two pages are free for each round. -/
theorem mapRange_ok {perm : Nat} (hperm : IsPerm perm) :
    ∀ {n pa : Nat} {s : Mm} {live : Multiset (Nat × Nat)}, Owned (theRoot kp) s live →
      pa % pageSize = 0 → pa + n * pageSize ≤ 2 ^ 32 → 2 * n < Mm.freeCount s →
        ∃ s' live', mapRange kp perm n pa s = .ok s' ∧ Owned (theRoot kp) s' live' ∧
          Mm.freeCount s ≤ Mm.freeCount s' + 2 * n := by
  intro n
  induction n with
  | zero =>
      intro pa s live h _ _ _
      exact ⟨s, live, rfl, h, Nat.le_refl _⟩
  | succ n ih =>
      intro pa s live h hmod hle hfree
      have hend : pa + pageSize + n * pageSize = pa + (n + 1) * pageSize := by
        rw [Nat.succ_mul]
        omega
      have hpa : pa < 2 ^ 56 := by
        simp only [pageSize] at hle
        omega
      obtain ⟨ok, s₁, tabs, hcall, hmapped⟩ := h.mapPage_cases (o := ()) rfl (pa + vaOffsetConst) hmod hpa hperm
      have hcount := hmapped.freeCount h.run
      have hfew := hmapped.few
      cases ok with
      | false =>
          have hdry := hmapped.changed.owned.run.freeCount_of_noPage (hmapped.failed rfl).1
          omega
      | true =>
          have hnext : (pa + pageSize) % pageSize = 0 := by
            rw [Nat.add_mod_right]
            exact hmod
          obtain ⟨s', live', hloop, howned, hcount'⟩ :=
            ih hmapped.changed.owned hnext (hend ▸ hle) (by omega)
          refine ⟨s', live', ?_, howned, by omega⟩
          rw [mapRange, hcall, ok_bind]
          exact hloop

/-! ### The kernel page table -/

/-- What is mapped from `_kernel_data_start` on, and at the addresses themselves. -/
structure KernelMap (L : Layout) (f : Nat → Option (Nat × Nat)) : Prop where
  data : ∀ pa, pa % pageSize = 0 → L.dataStart ≤ pa → pa < kernelEndPhys →
    f (pa + vaOffsetConst) = some (pa, mapFlags (pteR ||| pteW))
  beyond : ∀ pa, pa % pageSize = 0 → L.dataStart ≤ pa → kernelEndPhys ≤ pa → pa < userEnd →
    f (pa + vaOffsetConst) = none
  low : ∀ va < 2 ^ 32, f va = none

/-- Pages from an aligned start on: they end at the first aligned address behind `hi`. -/
theorem add_pagesIn {lo hi : Nat} (hmod : lo % pageSize = 0) (hle : lo ≤ hi) (hhi : hi ≤ userEnd) :
    lo + pagesIn lo hi * pageSize = alignUp hi := by
  simp only [pagesIn, alignUp, u64, userEnd, pageSize] at *
  omega

/-- The text ends before the read-only data begin, and these before the data. -/
theorem Layout.sections (L : Layout) :
    L.textStart + pagesIn L.textStart L.textEnd * pageSize = L.rodataStart ∧
      L.rodataStart + pagesIn L.rodataStart L.rodataEnd * pageSize = L.dataStart ∧
      L.rodataStart ≤ L.dataStart ∧ kernelStart ≤ L.rodataStart ∧ L.dataStart ≤ userEnd := by
  have hro : L.rodataEnd ≤ userEnd := L.rodataEnd_le.trans L.inMemory
  have htext : L.textEnd ≤ userEnd := L.textEnd_le.trans hro
  have hhigh : ∀ {x}, x ≤ userEnd → x + pageSize ≤ 2 ^ 64 := by
    intro x hx
    simp only [userEnd, pageSize] at *
    omega
  refine ⟨add_pagesIn (show kernelStart % pageSize = 0 by decide) L.textStart_le htext,
    add_pagesIn (alignUp_mod _) L.rodataStart_le hro, L.rodataStart_le.trans (le_alignUp (hhigh hro)),
    L.textStart_le.trans (le_alignUp (hhigh htext)), L.dataStart_le.trans L.inMemory⟩

/-- The data are mapped up to `KERNEL_END`. -/
theorem Layout.data_pages (hle : L.dataStart ≤ kernelEndPhys) :
    L.dataStart + pagesIn L.dataStart kernelEndPhys * pageSize = kernelEndPhys :=
  add_pagesIn (alignUp_mod _) hle (by decide)

/-- The ranges that are mapped begin at pages, and lie below the upper half. -/
theorem Layout.ranges (L : Layout) :
    (L.textStart % pageSize = 0 ∧ L.textStart + pagesIn L.textStart L.textEnd * pageSize ≤ 2 ^ 32) ∧
      (L.rodataStart % pageSize = 0 ∧
        L.rodataStart + pagesIn L.rodataStart L.rodataEnd * pageSize ≤ 2 ^ 32) ∧
      L.dataStart % pageSize = 0 ∧
        L.dataStart + pagesIn L.dataStart kernelEndPhys * pageSize ≤ 2 ^ 32 := by
  obtain ⟨htext, hrodata, hro, -, htop⟩ := L.sections
  have hlow : L.dataStart ≤ 2 ^ 32 := htop.trans (by decide)
  refine ⟨⟨show kernelStart % pageSize = 0 by decide, ?_⟩, ⟨alignUp_mod _, ?_⟩, alignUp_mod _, ?_⟩
  · exact htext ▸ hro.trans hlow
  · exact hrodata ▸ hlow
  · simp only [pagesIn, kernelEndPhys, userEnd, pageSize] at *
    omega

/-- The calls of `map_page`: three loops, and the UART. -/
theorem setupKernelPagetable_eq_ok (hcall : setupKernelPagetable L kp s = .ok s') :
    ∃ s₁ s₂ s₃, mapRange kp (pteR ||| pteX) (pagesIn L.textStart L.textEnd) L.textStart s = .ok s₁ ∧
      mapRange kp pteR (pagesIn L.rodataStart L.rodataEnd) L.rodataStart s₁ = .ok s₂ ∧
      mapRange kp (pteR ||| pteW) (pagesIn L.dataStart kernelEndPhys) L.dataStart s₂ = .ok s₃ ∧
      Mm.mapPage kp uart0 (sub64 uart0 vaOffsetConst) (pteR ||| pteW) s₃ = .ok (true, s') := by
  obtain ⟨s₁, hs₁, hcall⟩ := bind_eq_ok.mp hcall
  obtain ⟨s₂, hs₂, hcall⟩ := bind_eq_ok.mp hcall
  obtain ⟨s₃, hs₃, hcall⟩ := bind_eq_ok.mp hcall
  obtain ⟨⟨ok, s₄⟩, hmap, hcall⟩ := bind_eq_ok.mp hcall
  cases ok with
  | false => cases hcall
  | true =>
      obtain rfl : s₄ = s' := Except.ok.inj hcall
      exact ⟨s₁, s₂, s₃, hs₁, hs₂, hs₃, hmap⟩

/-- **`setup_kernel_pagetable`**, over an empty table. -/
theorem setupKernelPagetable_table (h : Owned (theRoot kp) s live)
    (hempty : ∀ va, leafOf s.mem (theRoot kp) () va = none)
    (hcall : setupKernelPagetable L kp s = .ok s') :
    ∃ tabs, Changed (theRoot kp) s live s' tabs (leafOf s'.mem (theRoot kp)) ∧
      KernelMap L (leafOf s'.mem (theRoot kp) ()) := by
  obtain ⟨htext, hrodata, hro, hstart, htop⟩ := L.sections
  obtain ⟨⟨hmod₁, hle₁⟩, ⟨hmod₂, hle₂⟩, hmod₃, hle₃⟩ := L.ranges
  obtain ⟨s₁, s₂, s₃, hs₁, hs₂, hs₃, hmap⟩ := setupKernelPagetable_eq_ok hcall
  simp only [kernelStart, userEnd] at hstart htop
  obtain ⟨tabs₁, hc₁, hr₁⟩ := mapRange_table (by decide) h hmod₁ hle₁ hs₁
  obtain ⟨tabs₂, hc₂, hr₂⟩ := mapRange_table (by decide) hc₁.owned hmod₂ hle₂ hs₂
  obtain ⟨tabs₃, hc₃, hr₃⟩ := mapRange_table (by decide) hc₂.owned hmod₃ hle₃ hs₃
  obtain ⟨ok, s₄, tabs₄, hmap', hm⟩ := hc₃.owned.mapPage_cases (o := ()) rfl uart0
    (show sub64 uart0 vaOffsetConst % pageSize = 0 by decide) (by decide)
    (show IsPerm (pteR ||| pteW) by decide)
  obtain ⟨rfl, rfl⟩ := Prod.mk.inj (Except.ok.inj (hmap.symm.trans hmap'))
  have hc₄ := hm.changed
  have hc₄' : Changed (theRoot kp) s₃ _ s' tabs₄ (leafOf s'.mem (theRoot kp)) :=
    ⟨hc₄.owned, hc₄.pages, hc₄.isTable, fun _ _ => rfl, hc₄.same, hc₄.statics⟩
  refine ⟨_, hc₁.trans (hc₂.trans (hc₃.trans hc₄')), ?_⟩
  -- what the UART and the loops of the text and the read-only data leave alone
  have huart : ∀ {va}, vpage va ≠ vpage uart0 →
      leafOf s'.mem (theRoot kp) () va = leafOf s₃.mem (theRoot kp) () va := by
    intro va hne
    have hleaf := hc₄.leaf () va
    rw [if_pos rfl, mapLeaf, if_neg fun hc => hne hc.2] at hleaf
    exact hleaf
  have hbefore : ∀ {va}, (∀ pa, pa % pageSize = 0 → kernelStart ≤ pa → pa < L.dataStart →
      vpage va ≠ vpage (pa + vaOffsetConst)) → leafOf s₂.mem (theRoot kp) () va = none := by
    intro va hout
    rw [hr₂.outside, hr₁.outside]
    · exact hempty va
    · intro pa hmod hlo hhi
      exact hout pa hmod hlo ((htext ▸ hhi).trans_le hro)
    · intro pa hmod hlo hhi
      exact hout pa hmod (Nat.le_trans hstart hlo)
        (hrodata ▸ hhi)
  have hkernel : ∀ {pa}, L.dataStart ≤ pa → pa < 2 ^ 32 → pa % pageSize = 0 →
      leafOf s₂.mem (theRoot kp) () (pa + vaOffsetConst) = none := by
    intro pa hlo hhi hmod
    apply hbefore
    intro pa' hmod' _ hhi' heq
    rw [vpage_kernel hhi, vpage_kernel (by omega)] at heq
    simp only [pageSize] at *
    omega
  have hnuart : ∀ {pa}, L.dataStart ≤ pa → pa < 2 ^ 32 →
      vpage (pa + vaOffsetConst) ≠ vpage uart0 := by
    intro pa hlo hhi heq
    rw [vpage_kernel hhi, show uart0 = 0x10000000 + vaOffsetConst from rfl,
      vpage_kernel (by norm_num)] at heq
    simp only [Layout.textStart, kernelStart, pageSize] at *
    omega
  refine ⟨fun pa hmod hlo hhi => ?_, fun pa hmod hlo hge hhi => ?_, fun va hva => ?_⟩
  · simp only [kernelEndPhys] at hhi
    rw [huart (hnuart hlo (by omega))]
    refine hr₃.inside pa hmod hlo ?_ (hkernel hlo (by omega) hmod)
    rw [L.data_pages (by simp only [kernelEndPhys]; omega)]
    exact hhi
  · simp only [userEnd, kernelEndPhys] at hhi hge
    rw [huart (hnuart hlo (by omega)), hr₃.outside, hkernel hlo (by omega) hmod]
    intro pa' hmod' hlo' hhi' heq
    rw [vpage_kernel (by omega), vpage_kernel (by omega)] at heq
    simp only [pagesIn, kernelEndPhys, pageSize] at *
    omega
  · have hlow : ∀ pa, kernelStart ≤ pa + 0x70000000 → pa < 2 ^ 32 →
        vpage va ≠ vpage (pa + vaOffsetConst) := by
      intro pa _ hhi heq
      rw [vpage_kernel hhi] at heq
      simp only [vpage, pageSize] at heq
      omega
    rw [huart (hlow 0x10000000 (by decide) (by norm_num)), hr₃.outside, hbefore]
    · intro pa _ hlo hhi
      exact hlow pa (by omega) (by omega)
    · intro pa _ hlo hhi
      exact hlow pa (by simp only [kernelStart]; omega) (by omega)

/-! ### What it keeps from user code -/

/-- Every page that is mapped is a page of memory, and user code has no access to it. -/
def Supervised (f : Nat → Option (Nat × Nat)) : Prop :=
  ∀ va pa fl, f va = some (pa, fl) → pa % pageSize = 0 ∧ pa < 2 ^ 56 ∧
    ∃ perm, IsPerm perm ∧ perm &&& pteU = 0 ∧ fl = mapFlags perm

theorem Supervised.mapLeaf {F : Unit → Nat → Option (Nat × Nat)} {va perm : Nat}
    (h : Supervised (F ())) (hmod : pa % pageSize = 0) (hlt : pa < 2 ^ 56) (hperm : IsPerm perm)
    (huser : perm &&& pteU = 0) : Supervised (mapLeaf F () va pa perm ()) := by
  intro va' pa' fl hsome
  unfold Mm.mapLeaf at hsome
  split at hsome
  · cases hva : F () va with
    | none =>
        rw [hva] at hsome
        obtain ⟨rfl, rfl⟩ := Prod.mk.inj (Option.some.inj hsome)
        exact ⟨hmod, hlt, perm, hperm, huser, rfl⟩
    | some leaf =>
        rw [hva] at hsome
        obtain rfl : leaf = (pa', fl) := Option.some.inj hsome
        exact h va pa' fl hva
  · exact h va' pa' fl hsome

theorem mapRange_supervised {perm : Nat} (hperm : IsPerm perm) (huser : perm &&& pteU = 0) :
    ∀ {n pa : Nat} {s : Mm} {live : Multiset (Nat × Nat)}, Owned (theRoot kp) s live →
      Supervised (leafOf s.mem (theRoot kp) ()) → pa % pageSize = 0 → pa + n * pageSize ≤ 2 ^ 32 →
        mapRange kp perm n pa s = .ok s' → Supervised (leafOf s'.mem (theRoot kp) ()) := by
  intro n
  induction n with
  | zero =>
      intro pa s live _ hsup _ _ hloop
      obtain rfl : s = s' := Except.ok.inj hloop
      exact hsup
  | succ n ih =>
      intro pa s live h hsup hmod hle hloop
      have hpa : pa < 2 ^ 56 := by
        simp only [pageSize] at hle
        omega
      obtain ⟨ok, s₁, tabs, hcall, hm⟩ := h.mapPage_cases (o := ()) rfl (pa + vaOffsetConst) hmod hpa hperm
      rw [mapRange, hcall, ok_bind] at hloop
      cases ok with
      | false => cases hloop
      | true =>
          have hleaf : leafOf s₁.mem (theRoot kp) () = mapLeaf _ () (pa + vaOffsetConst) pa perm () :=
            funext (hm.changed.leaf ())
          refine ih hm.changed.owned ?_ ?_ ?_ hloop
          · rw [hleaf]
            exact hsup.mapLeaf hmod hpa hperm huser
          · rw [Nat.add_mod_right]
            exact hmod
          · rw [Nat.succ_mul] at hle
            omega

/-- `setup_kernel_pagetable` gives user code no access to anything. -/
theorem setupKernelPagetable_supervised (h : Owned (theRoot kp) s live)
    (hempty : ∀ va, leafOf s.mem (theRoot kp) () va = none)
    (hcall : setupKernelPagetable L kp s = .ok s') : Supervised (leafOf s'.mem (theRoot kp) ()) := by
  obtain ⟨⟨hmod₁, hle₁⟩, ⟨hmod₂, hle₂⟩, hmod₃, hle₃⟩ := L.ranges
  obtain ⟨s₁, s₂, s₃, hs₁, hs₂, hs₃, hmap⟩ := setupKernelPagetable_eq_ok hcall
  have hsup : Supervised (leafOf s.mem (theRoot kp) ()) := by
    intro va pa fl hsome
    rw [hempty] at hsome
    cases hsome
  obtain ⟨_, hc₁, -⟩ := mapRange_table (by decide) h hmod₁ hle₁ hs₁
  have hsup₁ := mapRange_supervised (by decide) (by decide) h hsup hmod₁ hle₁ hs₁
  obtain ⟨_, hc₂, -⟩ := mapRange_table (by decide) hc₁.owned hmod₂ hle₂ hs₂
  have hsup₂ := mapRange_supervised (by decide) (by decide) hc₁.owned hsup₁ hmod₂ hle₂ hs₂
  obtain ⟨_, hc₃, -⟩ := mapRange_table (by decide) hc₂.owned hmod₃ hle₃ hs₃
  have hsup₃ := mapRange_supervised (by decide) (by decide) hc₂.owned hsup₂ hmod₃ hle₃ hs₃
  obtain ⟨ok, s₄, tabs, hmap', hm⟩ := hc₃.owned.mapPage_cases (o := ()) rfl uart0
    (show sub64 uart0 vaOffsetConst % pageSize = 0 by decide) (by decide)
    (show IsPerm (pteR ||| pteW) by decide)
  obtain ⟨rfl, rfl⟩ := Prod.mk.inj (Except.ok.inj (hmap.symm.trans hmap'))
  have hleaf : leafOf s'.mem (theRoot kp) () = mapLeaf _ () uart0 _ _ () :=
    funext (hm.changed.leaf ())
  rw [hleaf]
  exact hsup₃.mapLeaf (by decide) (by decide) (by decide) (by decide)

/-- The number of calls of `map_page`. -/
def mapCalls (L : Layout) : Nat :=
  pagesIn L.textStart L.textEnd + pagesIn L.rodataStart L.rodataEnd +
    pagesIn L.dataStart kernelEndPhys + 1

/-- It comes back while two pages are free for each call. -/
theorem setupKernelPagetable_ok (h : Owned (theRoot kp) s live)
    (hfree : 2 * mapCalls L < Mm.freeCount s) :
    ∃ s', setupKernelPagetable L kp s = .ok s' ∧
      Mm.freeCount s ≤ Mm.freeCount s' + 2 * mapCalls L := by
  obtain ⟨⟨hmod₁, hle₁⟩, ⟨hmod₂, hle₂⟩, hmod₃, hle₃⟩ := L.ranges
  unfold mapCalls at hfree ⊢
  obtain ⟨s₁, live₁, hs₁, ho₁, hc₁⟩ := mapRange_ok (show IsPerm (pteR ||| pteX) by decide)
    (n := pagesIn L.textStart L.textEnd) h hmod₁ hle₁ (by omega)
  obtain ⟨s₂, live₂, hs₂, ho₂, hc₂⟩ := mapRange_ok (show IsPerm pteR by decide)
    (n := pagesIn L.rodataStart L.rodataEnd) ho₁ hmod₂ hle₂ (by omega)
  obtain ⟨s₃, live₃, hs₃, ho₃, hc₃⟩ := mapRange_ok (show IsPerm (pteR ||| pteW) by decide)
    (n := pagesIn L.dataStart kernelEndPhys) ho₂ hmod₃ hle₃ (by omega)
  obtain ⟨ok, s₄, tabs, hmap, hm⟩ := ho₃.mapPage_cases (o := ()) rfl uart0
    (show sub64 uart0 vaOffsetConst % pageSize = 0 by decide) (by decide)
    (show IsPerm (pteR ||| pteW) by decide)
  have hcount := hm.freeCount ho₃.run
  have hfew := hm.few
  cases ok with
  | false =>
      have hdry := hm.changed.owned.run.freeCount_of_noPage (hm.failed rfl).1
      omega
  | true =>
      refine ⟨s₄, ?_, by omega⟩
      rw [setupKernelPagetable, hs₁, ok_bind, hs₂, ok_bind, hs₃, ok_bind, hmap, ok_bind]
      rfl

/-! ### `mm_init` -/

/-- The page that `buddy_allocator_init` takes for the table is an empty table. -/
theorem owned_of_init {m : Nat → UInt8} (h : buddyAllocatorInit L m = .ok (kp, s)) :
    Owned (theRoot kp) s 0 ∧ ∀ va, leafOf s.mem (theRoot kp) () va = none := by
  have hrun := runInv_init h
  obtain ⟨hL, rfl, hst⟩ := statics_of_init h
  obtain ⟨-, htop, hmod⟩ := initTable_bounds hL
  obtain ⟨hbase, -, -, -, -⟩ := initBase_bounds hL
  obtain ⟨s', fl, hs', -, -, hmem, -⟩ := buddyAllocatorInit_spec hL m
  obtain rfl : s' = s := by
    rw [hs'] at h
    exact (Prod.mk.inj (Except.ok.inj h)).2
  have hspace : s'.InSpace := by
    rw [InSpace, hst.vaOffset]
    exact (show 0 + userEnd ≤ 2 ^ 64 by decide)
  have hkernel := L.textStart_le.trans (L.textEnd_le.trans L.rodataEnd_le)
  have hpage : IsPage (initTable L) := by
    refine ⟨hmod, ?_, htop⟩
    have hle := (initTable_bounds hL).1
    simp only [kernelStart] at hkernel
    omega
  have hzero : ZeroPage s'.mem (initTable L) := by
    intro x hx
    have hlt := hx.2
    rw [hmem, initMem, zeroed, if_neg (by omega), zeroed]
    exact if_pos hx
  have hheld : Held s' 0 (initTable L) := by
    refine Or.inl ?_
    rw [hst.base]
    exact hbase
  have howned := (hrun.owned_none (ω := Unit) hspace).plant_held (o := ()) hzero hheld hpage
    (not_isTable_none s'.mem _) rfl
  have hleaf := leafOf_plant (fun _ : Unit => none) () hzero
  have hroots : Function.update (fun _ : Unit => none) () (some (initTable L)) = theRoot (initTable L) := by
    funext u
    exact Function.update_self ..
  rw [hroots] at howned hleaf
  exact ⟨howned, fun va => (hleaf () va).trans (if_pos rfl)⟩

/-- The state that S-mode finds is that of the page allocator, in the other half. -/
theorem mmInit_eq_ok {m : Nat → UInt8} {S : Snub} (h : mmInit L m = .ok (kp, S)) :
    ∃ s s', buddyAllocatorInit L m = .ok (kp, s) ∧ setupKernelPagetable L kp s = .ok s' ∧
      S.mm = { s' with vaOffset := vaOffsetConst } := by
  obtain ⟨⟨kp', s⟩, hinit, h⟩ := bind_eq_ok.mp h
  obtain ⟨s', hsetup, h⟩ := bind_eq_ok.mp h
  obtain ⟨rfl, rfl⟩ := Prod.mk.inj (Except.ok.inj h)
  exact ⟨s, s', hinit, hsetup, rfl⟩

theorem mmInit_of_ok {m : Nat → UInt8} (hinit : buddyAllocatorInit L m = .ok (kp, s))
    (hsetup : setupKernelPagetable L kp s = .ok s') :
    ∃ S, mmInit L m = .ok (kp, S) ∧ S.mm = { s' with vaOffset := vaOffsetConst } := by
  refine ⟨{ Snub.snubInit s' with mm := { s' with vaOffset := vaOffsetConst } }, ?_, rfl⟩
  rw [mmInit, hinit, ok_bind]
  simp only [hsetup, ok_bind]
  rfl

/-- The statics after `mm_init`. -/
def kernelStatics (L : Layout) (m : Nat → UInt8) : Mm :=
  { initStatics L m with vaOffset := vaOffsetConst }

/-- **`mm_init`** leaves the table of the kernel, made of pages that are not handed out again. -/
theorem mmInit_spec {m : Nat → UInt8} {S : Snub} (h : mmInit L m = .ok (kp, S)) :
    ∃ tabs, Owned (theRoot kp) S.mm tabs ∧ KernelMap L (leafOf S.mm.mem (theRoot kp) ()) ∧
      L.kernelEnd + pageSize ≤ userEnd ∧ SameStatics (kernelStatics L m) S.mm := by
  obtain ⟨s, s', hinit, hsetup, hS⟩ := mmInit_eq_ok h
  obtain ⟨howned, hempty⟩ := owned_of_init hinit
  obtain ⟨hL, -, hst⟩ := statics_of_init hinit
  obtain ⟨tabs, hc, hmap⟩ := setupKernelPagetable_table howned hempty hsetup
  have howned' := hc.owned
  rw [add_zero] at howned'
  obtain ⟨-, hbase, hnum, harr⟩ := hst.trans hc.statics
  rw [hS]
  have hspace : vaOffsetConst + userEnd ≤ 2 ^ 64 := by decide
  refine ⟨tabs, howned'.setOffset hspace, hmap, hL, ?_⟩
  exact ⟨rfl, hbase, hnum, harr⟩

/-- After `mm_init` the table of the kernel gives user code no access to anything. -/
theorem mmInit_supervised {m : Nat → UInt8} {S : Snub} (h : mmInit L m = .ok (kp, S)) :
    Supervised (leafOf S.mm.mem (theRoot kp) ()) := by
  obtain ⟨s, s', hinit, hsetup, hS⟩ := mmInit_eq_ok h
  obtain ⟨howned, hempty⟩ := owned_of_init hinit
  have hsup := setupKernelPagetable_supervised howned hempty hsetup
  rw [hS]
  exact hsup

/-- It comes back where two pages are free for each call of `map_page`. -/
theorem exists_mmInit (m : Nat → UInt8) (hL : L.kernelEnd + pageSize ≤ userEnd)
    (hfree : 2 * mapCalls L < (userEnd - initBase L) / pageSize) :
    ∃ S, mmInit L m = .ok (initTable L, S) ∧
      (userEnd - initBase L) / pageSize ≤ Mm.freeCount S.mm + 2 * mapCalls L := by
  obtain ⟨s, fl, hinit, -, hst, -⟩ := buddyAllocatorInit_spec hL m
  have howned := (owned_of_init hinit).1
  have hnum : s.numPages = (userEnd - initBase L) / pageSize := hst.numPages
  have hcount := howned.run.freeCount_add
  rw [show pageCount 0 = 0 from Multiset.sum_zero, Nat.add_zero] at hcount
  rw [← hnum, ← hcount] at hfree ⊢
  obtain ⟨s', hsetup, hcount'⟩ := setupKernelPagetable_ok howned hfree
  obtain ⟨S, hS, hmm⟩ := mmInit_of_ok hinit hsetup
  have hsame : Mm.freeCount S.mm = Mm.freeCount s' := freeCount_congr (by rw [hmm]) (by rw [hmm])
  exact ⟨S, hS, hsame ▸ hcount'⟩

end SystemN
