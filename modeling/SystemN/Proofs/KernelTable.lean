/-
The whole of the kernel page table.

`Proofs.Start` says what the table maps from `_kernel_data_start` on.  Here it is told for every
address: the table is the linear map of `VA_OFFSET`, and the section that an address lies in
decides what the kernel may do there.  Text is executable and never writable, what is writable is
never executable, and nothing is open to user code.

The calls of `map_page` are looked at one after the other.  Each part is mapped where there was
nothing, since the sections begin at pages and the UART lies below all of them.
-/
import SystemN.Proofs.KernelRun

namespace SystemN

open Mm Radix

variable {L : Layout} {m : Nat → UInt8} {kp pa va lo hi perm order a : Nat} {s s' : Mm}
  {live tabs : Multiset (Nat × Nat)} {f f' : Nat → Option (Nat × Nat)}

/-- The physical address of the UART. -/
@[simp] abbrev uartPhys : Nat := 0x10000000

/-- The permissions at the kernel address of a byte of memory; `none` where it is not mapped. -/
def kernelPerm (L : Layout) (pa : Nat) : Option Nat :=
  if pa / pageSize = uartPhys / pageSize then some (pteR ||| pteW)
  else if L.textStart ≤ pa ∧ pa < L.rodataStart then some (pteR ||| pteX)
  else if L.rodataStart ≤ pa ∧ pa < L.dataStart then some pteR
  else if L.dataStart ≤ pa ∧ pa < kernelEndPhys then some (pteR ||| pteW)
  else none

/-- What the kernel page table makes of an address. -/
def kernelTranslate (L : Layout) (va : Nat) : Option (Nat × Nat) :=
  if vaOffsetConst ≤ va ∧ va < 2 ^ 64 then
    (kernelPerm L (va - vaOffsetConst)).map fun perm => (va - vaOffsetConst, mapFlags perm)
  else none

/-- A page is written or executed, not both, and the kernel alone has access. -/
theorem kernelPerm_facts (h : kernelPerm L pa = some perm) :
    IsPerm perm ∧ perm &&& pteU = 0 ∧ (perm &&& pteW = 0 ∨ perm &&& pteX = 0) := by
  unfold kernelPerm at h
  split at h
  · obtain rfl := Option.some.inj h
    decide
  · split at h
    · obtain rfl := Option.some.inj h
      decide
    · split at h
      · obtain rfl := Option.some.inj h
        decide
      · split at h
        · obtain rfl := Option.some.inj h
          decide
        · cases h

/-! ### One part after the other -/

/-- An address below 4 GiB lies in a range of pages if its page does. -/
theorem page_mem_range (hlo : lo % pageSize = 0) (hhi : hi % pageSize = 0) :
    (lo ≤ pa / pageSize * pageSize ∧ pa / pageSize * pageSize < hi) ↔ lo ≤ pa ∧ pa < hi := by
  simp only [pageSize] at *
  omega

/-- Two kernel addresses with the same page number are in the same page. -/
theorem vpage_kernel_inj {pa' : Nat} (hpa : pa < 2 ^ 32) (hpa' : pa' < 2 ^ 32) :
    vpage (pa + vaOffsetConst) = vpage (pa' + vaOffsetConst) ↔ pa / pageSize = pa' / pageSize := by
  rw [vpage_kernel hpa, vpage_kernel hpa']
  exact Nat.add_left_cancel_iff

/-- **A loop of `setup_kernel_pagetable`**, at every kernel address. -/
theorem RangeMapped.leaf (h : RangeMapped f f' perm lo hi)
    (hf' : ∀ {va va'}, vpage va' = vpage va → f' va' = f' va) (hlo : lo % pageSize = 0)
    (hhi : hi % pageSize = 0) (hle : hi ≤ 2 ^ 32) (hpa : pa < 2 ^ 32)
    (hnone : lo ≤ pa → pa < hi → f (pa / pageSize * pageSize + vaOffsetConst) = none) :
    f' (pa + vaOffsetConst) = if lo ≤ pa ∧ pa < hi then some (pa / pageSize * pageSize, mapFlags perm)
      else f (pa + vaOffsetConst) := by
  have hpage : pa / pageSize * pageSize < 2 ^ 32 := (Nat.div_mul_le_self _ _).trans_lt hpa
  split
  · next hin =>
    obtain ⟨hlo', hhi'⟩ := (page_mem_range hlo hhi).mpr hin
    rw [← h.inside _ (Nat.mul_mod_left _ _) hlo' hhi' (hnone hin.1 hin.2)]
    apply hf'
    rw [vpage_kernel_inj hpa hpage, Nat.mul_div_cancel _ (by decide)]
  · next hout =>
    apply h.outside
    intro pa' hmod' hlo' hhi' heq
    rw [vpage_kernel_inj hpa (hhi'.trans_le hle)] at heq
    apply hout
    rw [← page_mem_range hlo hhi, heq, Nat.div_mul_cancel (Nat.dvd_of_mod_eq_zero hmod')]
    exact ⟨hlo', hhi'⟩

/-- What stands at the page numbers below those of the kernel addresses. -/
theorem RangeMapped.below (h : RangeMapped f f' perm lo hi) (hle : hi ≤ 2 ^ 32)
    (hva : vpage va < 0x7f00000) : f' va = f va := by
  apply h.outside
  intro pa _ _ hhi heq
  rw [heq, vpage_kernel (hhi.trans_le hle)] at hva
  exact absurd hva (Nat.not_lt.mpr (Nat.le_add_right _ _))

/-! ### The table -/

/-- The leaf at the page with the number `n`. -/
def kernelLeaf (L : Layout) (n : Nat) : Option (Nat × Nat) :=
  if 0x7f00000 ≤ n then
    (kernelPerm L ((n - 0x7f00000) * pageSize)).map fun perm =>
      ((n - 0x7f00000) * pageSize, mapFlags perm)
  else none

/-- The permissions of a page are those of its bytes. -/
theorem kernelPerm_page (L : Layout) (pa : Nat) :
    kernelPerm L (pa / pageSize * pageSize) = kernelPerm L pa := by
  have hrodata : L.rodataStart % pageSize = 0 := alignUp_mod _
  have hdata : L.dataStart % pageSize = 0 := alignUp_mod _
  have htext : L.textStart % pageSize = 0 := (by decide : kernelStart % pageSize = 0)
  unfold kernelPerm
  simp only [page_mem_range htext hrodata,
    page_mem_range hrodata hdata,
    page_mem_range hdata (show kernelEndPhys % pageSize = 0 by decide),
    Nat.mul_div_cancel _ (show 0 < pageSize by decide)]

theorem kernelLeaf_kernel (hpa : pa < 2 ^ 32) : kernelLeaf L (vpage (pa + vaOffsetConst)) =
    (kernelPerm L pa).map fun perm => (pa / pageSize * pageSize, mapFlags perm) := by
  rw [kernelLeaf, vpage_kernel hpa, if_pos (Nat.le_add_right _ _), Nat.add_sub_cancel_left,
    kernelPerm_page]

/-- Every page number from there on is that of a kernel address. -/
theorem exists_kernel_of_vpage (h : 0x7f00000 ≤ vpage va) :
    ∃ pa < 2 ^ 32, vpage va = vpage (pa + vaOffsetConst) := by
  have hlt : vpage va < 2 ^ 27 := Nat.mod_lt _ (by decide)
  refine ⟨(vpage va - 0x7f00000) * pageSize, ?_, ?_⟩
  · simp only [pageSize]
    omega
  · rw [vpage_kernel, Nat.mul_div_cancel _ (by decide)]
    · omega
    · simp only [pageSize]
      omega

/-- The loop for the data, by the bytes that it is about. -/
theorem Layout.data_range (L : Layout) : (L.dataStart ≤ pa ∧
    pa < L.dataStart + pagesIn L.dataStart kernelEndPhys * pageSize) ↔
      L.dataStart ≤ pa ∧ pa < kernelEndPhys := by
  have hmod : L.dataStart % pageSize = 0 := alignUp_mod _
  simp only [pagesIn, kernelEndPhys, pageSize] at *
  omega

/-- **The three loops** of `setup_kernel_pagetable`, over an empty table. -/
theorem mapRange_leaf {s₁ s₂ s₃ : Mm} (h : Owned (theRoot kp) s live)
    (hempty : ∀ va, leafOf s.mem (theRoot kp) () va = none)
    (hs₁ : mapRange kp (pteR ||| pteX) (pagesIn L.textStart L.textEnd) L.textStart s = .ok s₁)
    (hs₂ : mapRange kp pteR (pagesIn L.rodataStart L.rodataEnd) L.rodataStart s₁ = .ok s₂)
    (hs₃ : mapRange kp (pteR ||| pteW) (pagesIn L.dataStart kernelEndPhys) L.dataStart s₂ = .ok s₃) :
    (∃ live', Owned (theRoot kp) s₃ live') ∧
      (∀ va, vpage va < 0x7f00000 → leafOf s₃.mem (theRoot kp) () va = none) ∧
      (∀ va, vpage va = vpage uart0 → leafOf s₃.mem (theRoot kp) () va = none) ∧
      ∀ pa < 2 ^ 32, pa / pageSize ≠ uartPhys / pageSize →
        leafOf s₃.mem (theRoot kp) () (pa + vaOffsetConst) =
          (kernelPerm L pa).map fun perm => (pa / pageSize * pageSize, mapFlags perm) := by
  obtain ⟨htext, hrodata, hro, hstart, htop⟩ := L.sections
  obtain ⟨⟨hmod₁, hle₁⟩, ⟨hmod₂, hle₂⟩, hmod₃, hle₃⟩ := L.ranges
  obtain ⟨_, hc₁, hr₁⟩ := mapRange_table (by decide) h hmod₁ hle₁ hs₁
  obtain ⟨_, hc₂, hr₂⟩ := mapRange_table (by decide) hc₁.owned hmod₂ hle₂ hs₂
  obtain ⟨_, hc₃, hr₃⟩ := mapRange_table (by decide) hc₂.owned hmod₃ hle₃ hs₃
  rw [htext] at hr₁ hle₁
  rw [hrodata] at hr₂ hle₂
  have hpage : ∀ {pa : Nat}, pa < 2 ^ 32 → pa / pageSize * pageSize < 2 ^ 32 := fun hpa =>
    (Nat.div_mul_le_self _ _).trans_lt hpa
  have htext₁ : ∀ {pa}, pa < 2 ^ 32 → leafOf s₁.mem (theRoot kp) () (pa + vaOffsetConst) =
      if L.textStart ≤ pa ∧ pa < L.rodataStart
        then some (pa / pageSize * pageSize, mapFlags (pteR ||| pteX)) else none := by
    intro pa hpa
    rw [hr₁.leaf leafOf_vpage hmod₁ hmod₂ hle₁ hpa fun _ _ => hempty _, hempty]
  have htext₂ : ∀ {pa}, pa < 2 ^ 32 → leafOf s₂.mem (theRoot kp) () (pa + vaOffsetConst) =
      if L.rodataStart ≤ pa ∧ pa < L.dataStart
        then some (pa / pageSize * pageSize, mapFlags pteR)
        else leafOf s₁.mem (theRoot kp) () (pa + vaOffsetConst) := by
    intro pa hpa
    refine hr₂.leaf leafOf_vpage hmod₂ hmod₃ hle₂ hpa fun hlo hhi => ?_
    rw [htext₁ (hpage hpa), if_neg]
    have hge := ((page_mem_range hmod₂ hmod₃).mpr ⟨hlo, hhi⟩).1
    omega
  have hhi₃ : (L.dataStart + pagesIn L.dataStart kernelEndPhys * pageSize) % pageSize = 0 := by
    rw [Nat.add_mul_mod_self_right]
    exact hmod₃
  have hlow : uartPhys < L.textStart := (by decide : uartPhys < kernelStart)
  refine ⟨⟨_, hc₃.owned⟩, fun va hva => ?_, fun va hva => ?_, fun pa hpa hne => ?_⟩
  · rw [hr₃.below hle₃ hva, hr₂.below hle₂ hva, hr₁.below hle₁ hva, hempty]
  · -- the UART lies below the image
    rw [leafOf_vpage hva, show uart0 = uartPhys + vaOffsetConst by decide,
      hr₃.leaf leafOf_vpage hmod₃ hhi₃ hle₃ (by decide) (by omega), if_neg (by omega),
      htext₂ (by decide), if_neg (by omega), htext₁ (by decide), if_neg (by omega)]
  · rw [hr₃.leaf leafOf_vpage hmod₃ hhi₃ hle₃ hpa, htext₂ hpa, htext₁ hpa, kernelPerm, if_neg hne]
    · simp only [L.data_range]
      -- the ranges do not meet, so the order in which they are tested does not matter
      split_ifs <;> first | rfl | omega
    · intro hlo hhi
      have hge := ((page_mem_range hmod₃ hhi₃).mpr ⟨hlo, hhi⟩).1
      rw [htext₂ (hpage hpa), if_neg (by omega), htext₁ (hpage hpa), if_neg (by omega)]

/-- **`setup_kernel_pagetable`** maps these pages and no others. -/
theorem setupKernelPagetable_leaf (h : Owned (theRoot kp) s live)
    (hempty : ∀ va, leafOf s.mem (theRoot kp) () va = none)
    (hcall : setupKernelPagetable L kp s = .ok s') (va : Nat) :
    leafOf s'.mem (theRoot kp) () va = kernelLeaf L (vpage va) := by
  obtain ⟨s₁, s₂, s₃, hs₁, hs₂, hs₃, hmap⟩ := setupKernelPagetable_eq_ok hcall
  obtain ⟨⟨live', howned⟩, hbelow, hat, habove⟩ := mapRange_leaf h hempty hs₁ hs₂ hs₃
  obtain ⟨ok, s₄, _, hmap', hm⟩ := howned.mapPage_cases (o := ()) rfl uart0
    (show sub64 uart0 vaOffsetConst % pageSize = 0 by decide) (by decide)
    (show IsPerm (pteR ||| pteW) by decide)
  obtain ⟨rfl, rfl⟩ := Prod.mk.inj (Except.ok.inj (hmap.symm.trans hmap'))
  have huart := hm.changed.leaf () va
  rw [if_pos rfl] at huart
  rw [huart, mapLeaf]
  rcases Nat.lt_or_ge (vpage va) 0x7f00000 with hlt | hge
  · have hne : vpage va ≠ vpage uart0 := by
      rw [show vpage uart0 = 0x7f10000 by decide]
      omega
    rw [if_neg fun hc => hne hc.2, hbelow va hlt, kernelLeaf, if_neg (Nat.not_le.mpr hlt)]
  · obtain ⟨pa, hpa, heq⟩ := exists_kernel_of_vpage hge
    have huart : (vpage (pa + vaOffsetConst) = vpage uart0) = (pa / pageSize = uartPhys / pageSize) := by
      rw [show uart0 = uartPhys + vaOffsetConst by decide, vpage_kernel_inj hpa (by decide)]
    rw [heq, kernelLeaf_kernel hpa, leafOf_vpage heq]
    simp only [huart, true_and]
    split
    · next hin =>
      rw [kernelPerm, if_pos hin, hat uart0 rfl, hin]
      rfl
    · next hout => exact habove pa hpa hout

theorem mmInit_leaf {S : Snub} (h : mmInit L m = .ok (kp, S)) (va : Nat) :
    leafOf S.mm.mem (theRoot kp) () va = kernelLeaf L (vpage va) := by
  obtain ⟨s, s', hinit, hsetup, hS⟩ := mmInit_eq_ok h
  obtain ⟨howned, hempty⟩ := owned_of_init hinit
  rw [hS]
  exact setupKernelPagetable_leaf howned hempty hsetup va

/-- No call changes the table. -/
theorem KernelRun.leaf (h : KernelRun L m kp s live) (va : Nat) :
    leafOf s.mem (theRoot kp) () va = kernelLeaf L (vpage va) := by
  induction h with
  | boot hinit => exact mmInit_leaf hinit va
  | alloc hrun hcall ih =>
      obtain ⟨tabs, hi⟩ := hrun.inv
      rw [(hi.alloc_tables hcall).leafOf, ih]
  | free _ hcall ih => rw [(KernelInv.free_tables hcall).leafOf, ih]
  | other _ _ htables ih => rw [htables.leafOf, ih]

/-- An address that the hardware translates is one of the kernel, or its page number is lower. -/
theorem canonical_cases (h : Canonical va) :
    vaOffsetConst ≤ va ∧ va < 2 ^ 64 ∨ va < vaOffsetConst ∧ vpage va < 0x7f00000 := by
  simp only [Canonical, vpage, vaOffsetConst, kernelStartVa, kernelStart, pageSize] at *
  omega

theorem kernelLeaf_translate (hva : Canonical va) :
    (kernelLeaf L (vpage va)).map (fun (pa, f) => (pa + va % pageSize, f)) =
      kernelTranslate L va := by
  rcases canonical_cases hva with ⟨hlo, hhi⟩ | ⟨hlt, hpage⟩
  · obtain ⟨pa, rfl⟩ := Nat.exists_eq_add_of_le' hlo
    have hpa : pa < 2 ^ 32 := by
      simp only [vaOffsetConst, kernelStartVa, kernelStart] at hhi
      omega
    have hoff : (pa + vaOffsetConst) % pageSize = pa % pageSize := by
      simp only [vaOffsetConst, kernelStartVa, kernelStart, pageSize]
      omega
    have hsum : pa / pageSize * pageSize + pa % pageSize = pa := Nat.div_add_mod' pa pageSize
    rw [kernelLeaf_kernel hpa, kernelTranslate, if_pos ⟨hlo, hhi⟩, Nat.add_sub_cancel, hoff]
    simp [Function.comp_def, hsum]
  · rw [kernelLeaf, if_neg (Nat.not_le.mpr hpage), kernelTranslate,
      if_neg fun h => Nat.not_le.mpr hlt h.1]
    rfl

/--
**The whole kernel page table**, from `mm_init` on and under any calls of the allocator: a physical
address is mapped at `VA_OFFSET` above it, with the permissions of its section, and no other virtual
address is mapped.
-/
theorem KernelRun.translate_exact (h : KernelRun L m kp s live) (va : Nat) :
    s.translate kp va = kernelTranslate L va := by
  by_cases hva : Canonical va
  · obtain ⟨tabs, hi⟩ := h.inv
    rw [translate_eq hi.tables (o := ()) rfl hva, h.leaf, kernelLeaf_translate hva]
  · rw [Mm.translate, if_neg hva, kernelTranslate, if_neg]
    simp only [Canonical, vaOffsetConst, kernelStartVa, kernelStart] at *
    omega

theorem translate_exact_smallLayout : ∃ kp S, mmInit smallLayout (fun _ => 0) = .ok (kp, S) ∧
    ∀ va, S.mm.translate kp va = kernelTranslate smallLayout va := by
  obtain ⟨kp, S, hinit, -⟩ := exists_boot_smallLayout
  exact ⟨kp, S, hinit, KernelRun.translate_exact (.boot hinit)⟩

end SystemN
