/-
The page allocator under the kernel page table.

`mm_init` has built the table and set `va_offset`; from then on the kernel runs on virtual
addresses, and the allocator goes on under any calls.  The pages of the table are never handed
out again, so in every state of such a run it translates as `setup_kernel_pagetable` left it.

`alloc_pages` zeroes the block it returns, through the virtual address.  Which block that is
depends on the free lists, and these know nothing of `KERNEL_END`.
-/
import SystemN.Proofs.Start
import SystemN.Proofs.Mm.Unmap

namespace SystemN

open Mm Radix

variable {L : Layout} {m : Nat → UInt8} {kp order o b a : Nat} {s s' : Mm}
  {live tabs : Multiset (Nat × Nat)} {B : Nat × Nat}

/-! ### Runs -/

/-- The states of the page allocator from `mm_init` on, with the blocks its callers hold. -/
inductive KernelRun (L : Layout) (m : Nat → UInt8) (kp : Nat) : Mm → Multiset (Nat × Nat) → Prop
  | boot {S : Snub} (hinit : mmInit L m = .ok (kp, S)) : KernelRun L m kp S.mm 0
  | alloc {s s' : Mm} {live : Multiset (Nat × Nat)} {order a : Nat} (hrun : KernelRun L m kp s live)
      (hcall : s.allocPages order = .ok (a, s')) :
      KernelRun L m kp s' (if a = 0 then live else (a, order) ::ₘ live)
  | free {s s' : Mm} {live : Multiset (Nat × Nat)} {B : Nat × Nat}
      (hrun : KernelRun L m kp s (B ::ₘ live)) (hcall : s.freePages B.1 = .ok s') :
      KernelRun L m kp s' live
  /-- Other code writes memory, but not the tables that `setup_kernel_pagetable` has built. -/
  | other {s s' : Mm} {live : Multiset (Nat × Nat)} (hrun : KernelRun L m kp s live)
      (hsame : SameAllocator s s') (htables : SameTables s.mem s'.mem (theRoot kp)) :
      KernelRun L m kp s' live

/-- The blocks `tabs` are the tables; the allocator has given them out, and nobody frees them. -/
structure KernelInv (L : Layout) (m : Nat → UInt8) (kp : Nat) (tabs : Multiset (Nat × Nat)) (s : Mm)
    (live : Multiset (Nat × Nat)) : Prop where
  run : RunInv s (tabs + live)
  tables : Tables s.mem (theRoot kp)
  held : ∀ n, IsTable s.mem (theRoot kp) n → Held s tabs n
  map : KernelMap L (leafOf s.mem (theRoot kp) ())
  room : L.kernelEnd + pageSize ≤ userEnd
  statics : SameStatics (kernelStatics L m) s

namespace KernelInv

/-- What leaves the bytes of the tables alone. -/
theorem next {live' : Multiset (Nat × Nat)} (h : KernelInv L m kp tabs s live)
    (hrun : RunInv s' (tabs + live')) (hst : SameStatics s s')
    (hsame : SameTables s.mem s'.mem (theRoot kp)) : KernelInv L m kp tabs s' live' where
  run := hrun
  tables := h.tables.congr hsame
  held n hn := (h.held n (hsame.isTable.mp hn)).mono hst (Multiset.Subset.refl _)
  map := by
    have hleaf : leafOf s'.mem (theRoot kp) () = leafOf s.mem (theRoot kp) () := by
      funext va
      exact hsame.leafOf () va
    rw [hleaf]
    exact h.map
  room := h.room
  statics := h.statics.trans hst

/-- No table has a byte in a block that has just been handed out. -/
theorem not_inBlock {n x : Nat} (h : KernelInv L m kp tabs s live) (hst : SameStatics s s')
    (hrun : RunInv s' (B ::ₘ (tabs + live))) (hn : IsTable s.mem (theRoot kp) n) (hx : InPage n x) :
    ¬InBlock B x := by
  intro hB
  rcases h.held n hn with hbelow | hmem
  · have hbase := hrun.base_le (Multiset.mem_cons_self B _)
    rw [hst.base] at hbase
    have hlt := hx.2
    have hge := hB.1
    omega
  · exact hrun.disjoint (Multiset.mem_add.mpr (Or.inl hmem)) hB (inBlock_page.mpr hx)

/-- A call of `alloc_pages` leaves the tables alone. -/
theorem alloc_tables (h : KernelInv L m kp tabs s live) (hcall : s.allocPages order = .ok (a, s')) :
    SameTables s.mem s'.mem (theRoot kp) := by
  rcases Nat.lt_or_ge maxOrder order with hlt | ho
  · rw [allocPages, if_pos hlt] at hcall
    obtain ⟨rfl, rfl⟩ := Prod.mk.inj (Except.ok.inj hcall)
    exact fun n _ x _ => rfl
  · have hrun := runInv_alloc h.run ho hcall
    rcases allocPages_handsOut hcall with ⟨rfl, rfl⟩ | hout
    · exact fun n _ x _ => rfl
    · have haddr := hout.addr_le h.run.region
      have hpos := h.run.region.pos
      rw [if_neg (by omega)] at hrun
      intro n hn x hx
      apply hout.same ho
      have hblock := h.not_inBlock hout.later.statics hrun hn hx
      rwa [InBlock, ← Nat.shiftLeft_eq] at hblock

theorem alloc (h : KernelInv L m kp tabs s live) (hcall : s.allocPages order = .ok (a, s')) :
    KernelInv L m kp tabs s' (if a = 0 then live else (a, order) ::ₘ live) := by
  have hst := (allocPages_frame hcall).statics
  rcases Nat.lt_or_ge maxOrder order with hlt | ho
  · rw [allocPages, if_pos hlt] at hcall
    obtain ⟨rfl, rfl⟩ := Prod.mk.inj (Except.ok.inj hcall)
    exact h
  · have hrun := runInv_alloc h.run ho hcall
    refine h.next ?_ hst (h.alloc_tables hcall)
    split at hrun
    · next ha => rwa [if_pos ha]
    · next ha =>
      rw [if_neg ha, Multiset.add_cons]
      exact hrun

/-- So does a call of `free_pages`. -/
theorem free_tables (hcall : s.freePages a = .ok s') : SameTables s.mem s'.mem (theRoot kp) := by
  intro n _ x _
  rw [(freePages_frame hcall).2]

theorem free (h : KernelInv L m kp tabs s (B ::ₘ live)) (hcall : s.freePages B.1 = .ok s') :
    KernelInv L m kp tabs s' live := by
  have hrun := h.run
  rw [Multiset.add_cons] at hrun
  exact h.next (runInv_free hrun hcall) (freePages_frame hcall).1.statics (free_tables hcall)

end KernelInv

/-- The kernel page table stays as it was built. -/
theorem KernelRun.inv (h : KernelRun L m kp s live) : ∃ tabs, KernelInv L m kp tabs s live := by
  induction h with
  | boot hinit =>
      obtain ⟨tabs, howned, hmap, hL, hst⟩ := mmInit_spec hinit
      refine ⟨tabs, ?_, howned.tables, howned.held, hmap, hL, hst⟩
      rw [add_zero]
      exact howned.run
  | alloc _ hcall ih =>
      obtain ⟨tabs, hi⟩ := ih
      exact ⟨tabs, hi.alloc hcall⟩
  | free _ hcall ih =>
      obtain ⟨tabs, hi⟩ := ih
      exact ⟨tabs, hi.free hcall⟩
  | other _ hsame htables ih =>
      obtain ⟨tabs, hi⟩ := ih
      exact ⟨tabs, hi.next (hi.run.congr hsame.statics hsame.pages hsame.freeLists) hsame.statics htables⟩

/-! ### What the table translates -/

namespace KernelInv

/-- An address of the data, or behind them: it is mapped below `KERNEL_END`. -/
theorem translate {pa : Nat} (h : KernelInv L m kp tabs s live) (hlo : L.dataStart ≤ pa)
    (hhi : pa < userEnd) :
    s.translate kp (pa + vaOffsetConst) =
      if pa < kernelEndPhys then some (pa, mapFlags (pteR ||| pteW)) else none := by
  have hmod : pa / pageSize * pageSize % pageSize = 0 := Nat.mul_mod_left _ _
  have hdata : L.dataStart % pageSize = 0 := alignUp_mod _
  have hstart : L.dataStart ≤ pa / pageSize * pageSize := by
    simp only [pageSize] at *
    omega
  have hle : pa / pageSize * pageSize ≤ pa := Nat.div_mul_le_self _ _
  have hcanon : Canonical (pa + vaOffsetConst) := by
    simp only [Canonical, vaOffsetConst, kernelStartVa, kernelStart, userEnd] at *
    omega
  simp only [userEnd] at hhi
  have hpage : vpage (pa + vaOffsetConst) = vpage (pa / pageSize * pageSize + vaOffsetConst) := by
    rw [vpage_kernel (by omega), vpage_kernel (by omega), Nat.mul_div_cancel _ (by decide)]
  rw [translate_eq h.tables (o := ()) rfl hcanon, leafOf_vpage hpage]
  by_cases hend : pa < kernelEndPhys
  · rw [if_pos hend, h.map.data _ hmod hstart (by omega)]
    have hoff : (pa + vaOffsetConst) % pageSize = pa % pageSize := by
      simp only [vaOffsetConst, kernelStartVa, kernelStart, pageSize]
      omega
    have hsum : pa / pageSize * pageSize + pa % pageSize = pa := Nat.div_add_mod' pa pageSize
    simp only [Option.map_some, hoff, hsum]
  · rw [if_neg hend, h.map.beyond _ hmod hstart ?_ ?_]
    · rfl
    · simp only [kernelEndPhys, pageSize] at *
      omega
    · simp only [userEnd]
      omega

/-- No address of RAM itself is mapped. -/
theorem translate_low {va : Nat} (h : KernelInv L m kp tabs s live) (hva : va < 2 ^ 32) :
    s.translate kp va = none := by
  rw [translate_eq h.tables (o := ()) rfl (Or.inl (hva.trans (by norm_num))), h.map.low va hva]
  rfl

theorem vaOffset (h : KernelInv L m kp tabs s live) : s.vaOffset = vaOffsetConst := h.statics.vaOffset

/-- The managed pages and their records lie behind the image. -/
theorem dataStart_le (h : KernelInv L m kp tabs s live) :
    L.dataStart ≤ s.pageArray ∧ s.pageArray ≤ s.buddyBasePhys := by
  obtain ⟨hlo, -, -⟩ := initTable_bounds h.room
  obtain ⟨hle, -, -, hrec, -⟩ := initBase_bounds h.room
  have hdata := L.dataStart_le
  have harr : s.pageArray = initTable L + pageSize := h.statics.pageArray
  have hbase : s.buddyBasePhys = initBase L := h.statics.base
  have hstart : L.dataStart = alignUp L.rodataEnd := rfl
  rw [harr, hbase]
  omega

end KernelInv

/-! ### The block that is taken -/

/-- The search loop of `alloc_pages(order)` stops at list `o`, with block `b` at its head. -/
structure FirstBlock (s : Mm) (order o b : Nat) : Prop where
  order_le : order ≤ o
  le : o ≤ maxOrder
  before : ∀ x, order ≤ x → x < o → s.freeLists x = none
  head : s.freeLists o = some b

theorem FirstBlock.unique {o' b' : Nat} (h : FirstBlock s order o b) (h' : FirstBlock s order o' b') :
    o = o' ∧ b = b' := by
  have hle : ∀ {x y i j}, FirstBlock s order x i → FirstBlock s order y j → x ≤ y := by
    intro x y i j hx hy
    by_contra hlt
    have hnone := hx.before y hy.order_le (Nat.not_le.mp hlt)
    rw [hy.head] at hnone
    cases hnone
  obtain rfl := Nat.le_antisymm (hle h h') (hle h' h)
  exact ⟨rfl, Option.some.inj (h.head.symm.trans h'.head)⟩

theorem allocFrom_first (ho : o ≤ maxOrder) (hhead : s.freeLists o = some b) :
    ∀ d x, x + d = o → (∀ y, x ≤ y → y < o → s.freeLists y = none) →
      allocFrom order (maxOrder + 1 - x) x s = s.takeBlock order o b := by
  intro d
  induction d with
  | zero =>
      intro x hx _
      obtain rfl : x = o := hx
      rw [Nat.succ_sub ho, allocFrom, hhead]
  | succ d ih =>
      intro x hx hnone
      rw [Nat.succ_sub (show x ≤ maxOrder by omega), allocFrom, hnone x (Nat.le_refl x) (by omega)]
      have hnext := ih (x + 1) (by omega) fun y hy hlt => hnone y (by omega) hlt
      rwa [show maxOrder + 1 - (x + 1) = maxOrder - x by omega] at hnext

theorem FirstBlock.allocPages (h : FirstBlock s order o b) :
    s.allocPages order = s.takeBlock order o b := by
  have hle := h.order_le
  rw [Mm.allocPages, if_neg (Nat.not_lt.mpr (hle.trans h.le))]
  exact allocFrom_first h.le h.head (o - order) order (by omega) h.before

/-- `alloc_pages` takes the first block, and where there is none it does nothing. -/
theorem firstBlock_cases (s : Mm) (order : Nat) :
    (∃ o b, FirstBlock s order o b) ∨
      (∀ o b, ¬FirstBlock s order o b) ∧ s.allocPages order = .ok (0, s) := by
  by_cases h : ∃ o b, FirstBlock s order o b
  · exact Or.inl h
  · refine Or.inr ⟨fun o b hfirst => h ⟨o, b, hfirst⟩, ?_⟩
    have hnone : ∀ n x, order ≤ x → x + n = maxOrder + 1 →
        (∀ y, order ≤ y → y < x → s.freeLists y = none) → allocFrom order n x s = .ok (0, s) := by
      intro n
      induction n with
      | zero => exact fun x _ _ _ => rfl
      | succ n ih =>
          intro x hle hx hbefore
          have hempty : s.freeLists x = none := by
            cases hx' : s.freeLists x with
            | none => rfl
            | some b => exact absurd ⟨x, b, hle, by omega, hbefore, hx'⟩ h
          rw [allocFrom, hempty]
          refine ih (x + 1) (by omega) (by omega) fun y hy hlt => ?_
          rcases Nat.eq_or_lt_of_le (Nat.le_of_lt_succ hlt) with rfl | hlt
          · exact hempty
          · exact hbefore y hy hlt
    unfold Mm.allocPages
    split
    · rfl
    · next hle =>
      exact hnone _ order (Nat.le_refl order) (by omega) fun y hy hlt => absurd hy (Nat.not_le.mpr hlt)

/-- In a run the call comes back, with the address of the first block. -/
theorem FirstBlock.taken (h : FirstBlock s order o b) (hi : RunInv s live) :
    ∃ s', s.takeBlock order o b = .ok (s.buddyBasePhys + b * pageSize, s') ∧ SameStatics s s' ∧
      b + 2 ^ order ≤ s.numPages := by
  obtain ⟨fl, hinv⟩ := hi.inv
  obtain ⟨t, a, s', -, hcall, hall⟩ := takeBlock_spec hi.region hinv h.le h.order_le h.head
  obtain rfl := hall.addr
  exact ⟨s', hcall, hall.statics, hall.fits⟩

/-! ### Whether it is mapped -/

/-- Under the table at `kp` the kernel can write the `n` bytes from `PHYS_TO_VIRT(a)` on. -/
def KernelWritable (s : Mm) (kp a n : Nat) : Prop :=
  ∀ x < n, ∃ pa f, s.translate kp (u64 (s.physToVirt a + x)) = some (pa, f) ∧ f &&& pteW ≠ 0

/-- Of managed pages, what lies below `KERNEL_END`. -/
theorem KernelInv.writable_iff {i n : Nat} (h : KernelInv L m kp tabs s live) (hpos : 0 < n)
    (hfits : i + n ≤ s.numPages) :
    KernelWritable s kp (s.buddyBasePhys + i * pageSize) (n * pageSize) ↔
      s.buddyBasePhys + (i + n) * pageSize ≤ kernelEndPhys := by
  obtain ⟨hlo, hlo'⟩ := h.dataStart_le
  have htop := h.run.region.top
  have hmod := h.run.region.aligned
  have hle : s.buddyBasePhys + i * pageSize + n * pageSize ≤ userEnd := by
    rw [Nat.add_assoc, ← Nat.add_mul]
    exact (Nat.add_le_add_left (Nat.mul_le_mul_right _ hfits) _).trans htop
  have haddr : ∀ x < n * pageSize, u64 (s.physToVirt (s.buddyBasePhys + i * pageSize) + x)
      = s.buddyBasePhys + i * pageSize + x + vaOffsetConst := by
    intro x hx
    rw [physToVirt, h.vaOffset]
    simp only [u64, vaOffsetConst, kernelStartVa, kernelStart, userEnd] at *
    omega
  have htranslate : ∀ x < n * pageSize,
      s.translate kp (u64 (s.physToVirt (s.buddyBasePhys + i * pageSize) + x)) =
        if s.buddyBasePhys + i * pageSize + x < kernelEndPhys then
          some (s.buddyBasePhys + i * pageSize + x, mapFlags (pteR ||| pteW)) else none := by
    intro x hx
    rw [haddr x hx]
    exact h.translate (by omega) (by omega)
  rw [Nat.add_mul, ← Nat.add_assoc]
  constructor
  · intro hall
    have hlast : (n - 1) * pageSize < n * pageSize := Nat.mul_lt_mul_of_pos_right (by omega) (by decide)
    obtain ⟨pa, f, hsome, -⟩ := hall _ hlast
    rw [htranslate _ hlast] at hsome
    split at hsome
    · next hlt =>
      simp only [kernelEndPhys, pageSize] at *
      omega
    · cases hsome
  · intro hend x hx
    refine ⟨_, _, (htranslate x hx).trans (if_pos (by omega)), by decide⟩

/--
**Whether the kernel can write the block that it is given** depends on the list it comes from: the
block at the head of the first list that is not empty must begin with `2 ^ order` pages below
`KERNEL_END`.
-/
theorem KernelRun.block_writable_iff (h : KernelRun L m kp s live)
    (hcall : s.allocPages order = .ok (a, s')) (ha : a ≠ 0) :
    KernelWritable s' kp a (pageSize <<< order) ↔
      ∃ o b, FirstBlock s order o b ∧
        s.buddyBasePhys + (b + 2 ^ order) * pageSize ≤ kernelEndPhys := by
  obtain ⟨tabs, hi⟩ := h.inv
  have hi' := hi.alloc hcall
  rcases firstBlock_cases s order with ⟨o, b, hfirst⟩ | ⟨-, hnull⟩
  · obtain ⟨t, htake, hst, hfits⟩ := hfirst.taken hi.run
    rw [hfirst.allocPages, htake] at hcall
    obtain ⟨rfl, rfl⟩ := Prod.mk.inj (Except.ok.inj hcall)
    have hiff := hi'.writable_iff (Nat.two_pow_pos order) (hst.numPages ▸ hfits)
    rw [hst.base] at hiff
    rw [Nat.shiftLeft_eq, Nat.mul_comm pageSize (2 ^ order), hiff]
    constructor
    · exact fun hend => ⟨o, b, hfirst, hend⟩
    · intro ⟨o', b', hfirst', hend⟩
      obtain ⟨rfl, rfl⟩ := hfirst.unique hfirst'
      exact hend
  · rw [hnull] at hcall
    exact absurd (Prod.mk.inj (Except.ok.inj hcall)).1.symm ha

/-! ### A small image -/

/-- `alloc_page` called `n` times: the pages, the last one first. -/
def takePages : Nat → Mm → Except Stop (List Nat × Mm)
  | 0, s => .ok ([], s)
  | n + 1, s => do
      let (as, s) ← takePages n s
      let (a, s) ← s.allocPage
      pure (a :: as, s)

/-- A page that the kernel can write lies below `KERNEL_END`. -/
theorem KernelInv.lt_of_writable (h : KernelInv L m kp tabs s live) (ha : (a, 0) ∈ tabs + live)
    (hw : KernelWritable s kp a (pageSize <<< 0)) : a < kernelEndPhys := by
  have hle := (h.run.isPage ha).le
  obtain ⟨hlo, hlo'⟩ := h.dataStart_le
  have haddr : u64 (s.physToVirt a + 0) = a + vaOffsetConst := by
    rw [physToVirt, h.vaOffset]
    simp only [u64, vaOffsetConst, kernelStartVa, kernelStart, userEnd, pageSize] at *
    omega
  obtain ⟨pa, f, hsome, -⟩ := hw 0 (by decide)
  rw [haddr, h.translate ((hlo.trans hlo').trans (h.run.base_le ha))
    (Nat.lt_of_lt_of_le (Nat.lt_add_of_pos_right (by decide)) hle)] at hsome
  split at hsome
  · next hlt => exact hlt
  · cases hsome

/-- While a page is free the next call succeeds. -/
theorem KernelRun.takePage {as : List Nat} (h : KernelRun L m kp s (pageBlocks as))
    (hfree : 0 < Mm.freeCount s) :
    ∃ a s', s.allocPage = .ok (a, s') ∧ a ≠ 0 ∧ KernelRun L m kp s' (pageBlocks (a :: as)) ∧
      Mm.freeCount s' + 1 = Mm.freeCount s := by
  obtain ⟨tabs, hi⟩ := h.inv
  rcases hi.run.allocPage with ⟨-, hnone⟩ | ⟨a, s', hcall, ha, hnew⟩
  · rw [hi.run.freeCount_of_noPage hnone] at hfree
    exact absurd hfree (lt_irrefl 0)
  · have hnext := h.alloc hcall
    rw [if_neg ha, ← pageBlocks_cons] at hnext
    exact ⟨a, s', hcall, ha, hnext, hnew.freeCount hi.run⟩

theorem takePages_succ {as : List Nat} {t t' : Mm} {n : Nat} (htake : takePages n s = .ok (as, t))
    (hcall : t.allocPage = .ok (a, t')) : takePages (n + 1) s = .ok (a :: as, t') := by
  rw [takePages, htake, ok_bind]
  dsimp only
  rw [hcall]
  rfl

/-- All the free pages can be taken. -/
theorem KernelRun.takePages_free (h : KernelRun L m kp s 0) :
    ∀ n ≤ Mm.freeCount s, ∃ as t, takePages n s = .ok (as, t) ∧
      KernelRun L m kp t (pageBlocks as) ∧ Mm.freeCount t + n = Mm.freeCount s := by
  intro n
  induction n with
  | zero => exact fun _ => ⟨[], s, rfl, h, rfl⟩
  | succ n ih =>
      intro hn
      obtain ⟨as, t, htake, ht, hcount⟩ := ih (by omega)
      obtain ⟨a, t', hcall, -, ht', hone⟩ := ht.takePage (by omega)
      exact ⟨a :: as, t', takePages_succ htake hcall, ht', by omega⟩

/-- While pages are free the calls succeed, and if the kernel can write what they return, it all lies
below `KERNEL_END`. -/
theorem KernelRun.takePages_below (h : KernelRun L m kp s 0) {N : Nat} (hN : N ≤ Mm.freeCount s)
    (hall : ∀ n < N, ∀ as t a t', takePages n s = .ok (as, t) → KernelRun L m kp t (pageBlocks as) →
      t.allocPages 0 = .ok (a, t') → a ≠ 0 → KernelWritable t' kp a (pageSize <<< 0)) :
    ∀ n ≤ N, ∃ as t, takePages n s = .ok (as, t) ∧ KernelRun L m kp t (pageBlocks as) ∧
      as.length = n ∧ (∀ a ∈ as, a < kernelEndPhys) ∧ Mm.freeCount t + n = Mm.freeCount s := by
  intro n
  induction n with
  | zero => exact fun _ => ⟨[], s, rfl, h, rfl, nofun, rfl⟩
  | succ n ih =>
      intro hn
      obtain ⟨as, t, htake, ht, hlen, hbelow, hcount⟩ := ih (by omega)
      obtain ⟨a, t', hcall, ha, ht', hone⟩ := ht.takePage (by omega)
      obtain ⟨tabs', hi'⟩ := ht'.inv
      have hmem : (a, 0) ∈ pageBlocks (a :: as) := mem_pageBlocks.mpr ⟨List.mem_cons_self, rfl⟩
      have hlow := hi'.lt_of_writable (Multiset.mem_add.mpr (Or.inr hmem))
        (hall n (by omega) as t a t' htake ht hcall ha)
      refine ⟨a :: as, t', takePages_succ htake hcall, ht', ?_,
        List.forall_mem_cons.mpr ⟨hlow, hbelow⟩, by omega⟩
      rw [List.length_cons, hlen]

/-- There are 2048 pages below `KERNEL_END`. -/
theorem KernelRun.length_le {as : List Nat} (h : KernelRun L m kp s (pageBlocks as))
    (hbelow : ∀ a ∈ as, a < kernelEndPhys) : as.length ≤ 2048 := by
  obtain ⟨tabs, hi⟩ := h.inv
  have hnodup : as.Nodup := by
    have hblocks := Multiset.nodup_of_le (Multiset.le_add_left (pageBlocks as) tabs) hi.run.nodup
    exact List.Nodup.of_map _ (Multiset.coe_nodup.mp hblocks)
  have hstart : kernelStart ≤ L.dataStart := L.sections.2.2.2.1.trans L.sections.2.2.1
  obtain ⟨hlo, hlo'⟩ := hi.dataStart_le
  have hmem : ∀ a ∈ as, kernelStart ≤ a ∧ a % pageSize = 0 := by
    intro a ha
    have hblock : (a, 0) ∈ tabs + pageBlocks as :=
      Multiset.mem_add.mpr (Or.inr (mem_pageBlocks.mpr ⟨ha, rfl⟩))
    exact ⟨((hstart.trans hlo).trans hlo').trans (hi.run.base_le hblock), (hi.run.isPage hblock).aligned⟩
  rw [← List.toFinset_card_of_nodup hnodup]
  calc as.toFinset.card ≤ (Finset.range 2048).card := by
        apply Finset.card_le_card_of_injOn fun a => (a - kernelStart) / pageSize
        · intro a ha
          have hlt := hbelow a (List.mem_toFinset.mp ha)
          rw [Finset.coe_range, Set.mem_Iio]
          simp only [kernelEndPhys, kernelStart, pageSize] at *
          omega
        · intro a ha a' ha' heq
          obtain ⟨hge, hmod⟩ := hmem a (List.mem_toFinset.mp ha)
          obtain ⟨hge', hmod'⟩ := hmem a' (List.mem_toFinset.mp ha')
          simp only [kernelStart, pageSize] at *
          omega
    _ = 2048 := Finset.card_range 2048

/-- The small image boots, and most of the pages are free then. -/
theorem exists_boot_smallLayout :
    ∃ kp S, mmInit smallLayout (fun _ => 0) = .ok (kp, S) ∧ 2049 ≤ Mm.freeCount S.mm := by
  have hnum : (userEnd - initBase smallLayout) / pageSize = 32623 := by decide
  have hcalls : mapCalls smallLayout = 2049 := by decide
  obtain ⟨S, hS, hfree⟩ := exists_mmInit (fun _ => 0) smallLayout_fits (by rw [hnum, hcalls]; decide)
  rw [hnum, hcalls] at hfree
  exact ⟨_, S, hS, by omega⟩

/-- Pages are taken after the boot until `n` are left. -/
theorem exists_left_smallLayout {n : Nat} (hn : n ≤ 2049) :
    ∃ kp S N as t, mmInit smallLayout (fun _ => 0) = .ok (kp, S) ∧ takePages N S.mm = .ok (as, t) ∧
      KernelRun smallLayout (fun _ => 0) kp t (pageBlocks as) ∧ Mm.freeCount t = n := by
  obtain ⟨kp, S, hS, hfree⟩ := exists_boot_smallLayout
  obtain ⟨as, t, htake, ht, hcount⟩ :=
    (KernelRun.boot hS).takePages_free (Mm.freeCount S.mm - n) (Nat.sub_le _ _)
  exact ⟨kp, S, _, as, t, hS, htake, ht, by omega⟩

/-- The first page of the small image. -/
theorem block_writable_iff_smallLayout :
    ∃ kp s a s', KernelRun smallLayout (fun _ => 0) kp s 0 ∧ s.allocPages 0 = .ok (a, s') ∧ a ≠ 0 ∧
      (KernelWritable s' kp a (pageSize <<< 0) ↔
        ∃ o b, FirstBlock s 0 o b ∧ s.buddyBasePhys + (b + 2 ^ 0) * pageSize ≤ kernelEndPhys) := by
  obtain ⟨kp, S, hS, hfree⟩ := exists_boot_smallLayout
  have hrun := KernelRun.boot hS
  obtain ⟨tabs, hi⟩ := hrun.inv
  rcases hi.run.allocPage with ⟨-, hnone⟩ | ⟨a, s', hcall, ha, -⟩
  · rw [hi.run.freeCount_of_noPage hnone] at hfree
    exact absurd hfree (by decide)
  · exact ⟨kp, S.mm, a, s', hrun, hcall, ha, hrun.block_writable_iff hcall ha⟩

/-- Of the first 2049 pages that are taken after the boot one is behind `KERNEL_END`. -/
theorem page_not_writable_smallLayout :
    ∃ kp S, mmInit smallLayout (fun _ => 0) = .ok (kp, S) ∧
      ∃ n < 2049, ∃ as s a s', takePages n S.mm = .ok (as, s) ∧
        KernelRun smallLayout (fun _ => 0) kp s (pageBlocks as) ∧
        s.allocPages 0 = .ok (a, s') ∧ a ≠ 0 ∧ ¬KernelWritable s' kp a (pageSize <<< 0) := by
  obtain ⟨kp, S, hS, hfree⟩ := exists_boot_smallLayout
  refine ⟨kp, S, hS, ?_⟩
  by_contra hnone
  have hall : ∀ n < 2049, ∀ as s a s', takePages n S.mm = .ok (as, s) →
      KernelRun smallLayout (fun _ => 0) kp s (pageBlocks as) → s.allocPages 0 = .ok (a, s') →
      a ≠ 0 → KernelWritable s' kp a (pageSize <<< 0) := by
    intro n hn as s a s' htake hrun hcall ha
    by_contra hnot
    exact hnone ⟨n, hn, as, s, a, s', htake, hrun, hcall, ha, hnot⟩
  obtain ⟨as, s, -, hrun, hlen, hbelow, -⟩ :=
    (KernelRun.boot hS).takePages_below hfree hall 2049 (Nat.le_refl _)
  have hle := hrun.length_le hbelow
  omega

end SystemN
