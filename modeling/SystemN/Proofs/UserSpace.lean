/-
The address space of a new process.

The lower half of it is the program and nothing else: the pages of the binary, readable and
executable, with zeros behind its last byte; one page of stack, readable and writable; between
them the heap, which is empty.  What `create_proc` maps for the kernel lies in the upper half, and
user code has no access to it.

The frames come from the page allocator, and the binary may lie anywhere in memory that the
allocators do not give out.  So no frame is a part of the binary, of another frame or of a table,
and what has been copied stays as it was while the table grows.
-/
import SystemN.Proofs.CreateFail
import SystemN.Proofs.Load
import SystemN.Proofs.Mm.Spared

namespace SystemN

open Mm Radix

/-- A page becomes a table after another object has been allocated. -/
theorem Stocked.newTable {S S' : Snub} {live live' : Multiset (Nat × Nat)}
    {taken given fl taken' given' fl' : Nat → List Nat} {a c : Nat} {mm : Mm}
    (h : Stocked S live taken given fl) (hnew : NewPage S.mm live a mm)
    (h' : Stocked S' live' taken' given' fl')
    (hspares : Spares c { S with mm := mm } ((a, 0) ::ₘ live) fl S' live' fl')
    (htaken : ∀ k, ∀ q ∈ taken' k, q ∈ taken k ∨ ¬Held mm ((a, 0) ::ₘ live) q) :
    Owned (theRoot a) S'.mm live' ∧ (∀ va, leafOf S'.mm.mem (theRoot a) () va = none) ∧
      Beside a S' live' taken' given' fl' ∧ ∀ x, Spared S live fl x →
        Spared S' live' fl' x ∧ Settled (theRoot a) S'.mm live' x ∧ S'.mm.mem x = S.mm.mem x := by
  obtain ⟨hfirst, hpage⟩ := h.alloc_spares hnew
  have hzero : ZeroPage S'.mm.mem a := by
    intro x hx
    rw [(hspares.spared x (hpage x hx)).2]
    exact hnew.zero x hx
  have hroots : Function.update (fun _ : Unit => none) () (some a) = theRoot a := by
    funext u
    exact Function.update_self ..
  have hmem : (a, 0) ∈ live' := hspares.sub (Multiset.mem_cons_self _ _)
  have howned := (h'.run.owned_none (ω := Unit) h'.slabs.space).plant hzero hmem
    (not_isTable_none S'.mm.mem a) (o := ()) rfl
  have hleaf := leafOf_plant (fun _ : Unit => none) () hzero
  have htable := isTable_plant (fun _ : Unit => none) () hzero rfl
  rw [hroots] at howned hleaf htable
  -- the table has no other page than the first one
  have honly : ∀ n, IsTable S'.mm.mem (theRoot a) n → n = a := fun n hn =>
    ((htable n).mp hn).resolve_right (not_isTable_none S'.mm.mem n)
  refine ⟨howned, fun va => (hleaf () va).trans (if_pos rfl),
    ⟨h', fun i pa hpa x hx => ⟨?_, fun n hn hxn => ?_⟩⟩, fun x hx => ?_⟩
  · have hheld : Held S'.mm live' pa := Or.inr (h'.held i pa hpa)
    exact hheld.heldAt hx
  · obtain rfl := honly n hn
    obtain rfl : pa = n := (h'.slabs.page i pa hpa).1.eq_of_inPage (h'.run.isPage hmem) hx hxn
    rcases htaken i pa hpa with hold | hnot
    · exact h.notMem_taken hnew i hold
    · exact hnot (Or.inr (Multiset.mem_cons_self _ _))
  · obtain ⟨hx₁, hsame₁⟩ := hfirst.spared x hx
    obtain ⟨hx', hsame'⟩ := hspares.spared x hx₁
    refine ⟨hx', ⟨hx'.held, fun n hn => ?_⟩, hsame'.trans hsame₁⟩
    rw [honly n hn]
    exact hx.held.not_inPage hnew.statics hnew.run (Multiset.Subset.refl live)

namespace Kernel

variable {k k' k₀ k₁ : Kernel} {p root binary size : Nat} {live live' live₁ : Multiset (Nat × Nat)}
  {taken given fl : Nat → List Nat}

/-! ### The kernel's half -/

/-- The new process has a table, with its two objects in it and nothing else. -/
structure HalfBuilt (root p : Nat) (k : Kernel) (live : Multiset (Nat × Nat)) (fl : Nat → List Nat)
    (k' : Kernel) (live' : Multiset (Nat × Nat)) : Prop where
  owned : Owned (theRoot root) k'.mm live'
  table : (k'.procs p).pagetable = root
  side : KernelSide (fun _ => none) (leafOf k'.mm.mem (theRoot root) ())
  spared : ∀ x, Spared k.snub live fl x →
    Settled (theRoot root) k'.mm live' x ∧ k'.mm.mem x = k.mm.mem x
  beside : ∃ taken' given' fl', Beside root k'.snub live' taken' given' fl' ∧
    ∀ x, Spared k.snub live fl x → Spared k'.snub live' fl' x
  statics : SameStatics k.mm k'.mm
  spent : Mm.freeCount k.mm ≤ Mm.freeCount k'.mm + 6
  layout : k'.layout = k.layout
  kernelPagetable : k'.kernelPagetable = k.kernelPagetable

/-- Map an object of the slab allocator in the new table. -/
theorem mapObject_kernelSide {q : Nat} (h : Owned (theRoot root) k.mm live)
    (hroot : (k.procs p).pagetable = root) (hupper : k.mm.vaOffset = vaOffsetConst)
    (hq : vaOffsetConst ≤ q ∧ q < 2 ^ 64) :
    ∃ ok k' live', k.mapObject p q = .ok (ok, k') ∧ KernelMapped root 2 k live k' live' ∧
      (ok = false → NoPage k'.mm) := by
  have hphys : k.mm.virtToPhys q = q - vaOffsetConst := by
    rw [virtToPhys, hupper]
    exact sub64_of_le hq.1 hq.2
  have hlt : k.mm.virtToPhys q < 2 ^ 56 := by
    have hhi := hq.2
    rw [hphys]
    simp only [vaOffsetConst, kernelStartVa, kernelStart]
    omega
  unfold mapObject
  rw [hroot]
  exact mapPage_kernelSide h (vpage_upper hq.1 hq.2) hlt (by decide) (by decide)

/-- What is there once the two objects are mapped in the new table, `k₂` being the state before. -/
theorem halfBuilt_of_mapped {k₂ : Kernel} {live₂ : Multiset (Nat × Nat)}
    {taken₂ given₂ fl₂ : Nat → List Nat} {v : Proc} {tf : Nat} {f : TrapFrame}
    (hst : SameStatics k.mm k₂.mm)
    (hempty : ∀ va, leafOf k₂.mm.mem (theRoot root) () va = none)
    (hbeside : Beside root k₂.snub live₂ taken₂ given₂ fl₂)
    (hsettled : ∀ x, Spared k.snub live fl x → Spared k₂.snub live₂ fl₂ x ∧
      Settled (theRoot root) k₂.mm live₂ x ∧ k₂.mm.mem x = k.mm.mem x)
    (hspent : Mm.freeCount k.mm ≤ Mm.freeCount k₂.mm + 2) (hlayout : k₂.layout = k.layout)
    (hkernel : k₂.kernelPagetable = k.kernelPagetable)
    (hboth : KernelMapped root (2 + 2) k₂ live₂ k₁ live₁) (hv : v.pagetable = root) :
    HalfBuilt root p k live fl ((k₁.setProc p v).setFrame tf f) live₁ := by
  obtain ⟨hbeside', hspared⟩ := hbeside.kept hboth.kept hboth.same.caches
  refine ⟨hboth.kept.owned, ?_, ?_, fun x hx => ?_, ⟨_, _, _, hbeside', fun x hx => ?_⟩,
    hst.trans hboth.kept.statics, ?_, hboth.same.layout.trans hlayout,
    hboth.same.kernelPagetable.trans hkernel⟩
  · have hself : ((k₁.setProc p v).setFrame tf f).procs p = v := Function.update_self ..
    rw [hself, hv]
  · have hside := hboth.side
    rwa [show leafOf k₂.mm.mem (theRoot root) () = fun _ => none from funext hempty] at hside
  · obtain ⟨-, hset, hsame⟩ := hsettled x hx
    obtain ⟨hset', hsame'⟩ := hboth.kept.settled x hset
    exact ⟨hset', hsame'.trans hsame⟩
  · exact hspared x (hsettled x hx).1
  · have hle := hboth.kept.spent
    change Mm.freeCount k.mm ≤ Mm.freeCount k₁.mm + 6
    omega

/-- **The page table and the kernel stack**: all of it is there, or few pages were free. -/
theorem createKernelHalf_table (h : Stocked k.snub live taken given fl)
    (hp : vaOffsetConst ≤ p ∧ p < 2 ^ 64) :
    (∃ ok k', k.createKernelHalf p = .ok (ok, k') ∧ Mm.freeCount k.mm ≤ 6 ∧
      (ok = true → ∃ live', RunInv k'.mm live' ∧ NoPage k'.mm)) ∨
      ∃ root k' live', k.createKernelHalf p = .ok (true, k') ∧
        HalfBuilt root p k live fl k' live' := by
  have hrun : RunInv k.mm live := h.run
  rcases hrun.allocPage with ⟨hnull, hdry⟩ | ⟨a, mm, halloc, hne, hnew⟩
  · refine Or.inl ⟨false, _, createKernelHalf_noTable hnull, ?_, nofun⟩
    rw [hrun.freeCount_of_noPage hdry]
    exact Nat.zero_le 6
  · have hcount := hnew.freeCount hrun
    have hstock : Stocked { k.snub with mm := mm } ((a, 0) ::ₘ live) taken given fl :=
      h.alloc hnew rfl rfl
    obtain ⟨kstack, S, hz, hkstack, hsupp | hast⟩ :=
      hstock.kzalloc_spares (show sizeToIdx kstackSize = some 8 by decide)
    · obtain ⟨live₂, taken₂, given₂, fl₂, hstock₂, hgiven, hspares, htaken⟩ := hsupp
      obtain ⟨howned, hempty, hbeside, hsettled⟩ := h.newTable hnew hstock₂ hspares htaken
      obtain ⟨k₁, hk₁⟩ : ∃ k₁, k₁ = (k.setMm mm).setProc p { k.procs p with pagetable := a } := ⟨_, rfl⟩
      obtain ⟨k₂, hk₂⟩ : ∃ k₂, k₂ = (k₁.setSnub S).setProc p { k₁.procs p with kstack := kstack } :=
        ⟨_, rfl⟩
      have hz₁ : k₁.snub.kzalloc kstackSize = .ok (kstack, S) := by
        rw [hk₁]
        exact hz
      have hsnub : k₂.snub = S := by
        rw [hk₂]
        rfl
      have hmm : k₂.mm = S.mm := congrArg Snub.mm hsnub
      have hproc : k₂.procs p = { k.procs p with pagetable := a, kstack := kstack } := by
        rw [hk₂, hk₁]
        simp only [setProc, Function.update_self]
      have hroot : (k₂.procs p).pagetable = a := by rw [hproc]
      have hst : SameStatics k.mm k₂.mm := hmm ▸ hnew.statics.trans hspares.statics
      have hupper := hst.vaOffset.trans h.upper
      rw [← hmm] at howned hempty hsettled
      obtain ⟨ok₃, k₃, live₃, hmap₃, hmapped₃, hfail₃⟩ := mapObject_kernelSide howned hroot hupper hp
      have hroot₃ : (k₃.procs p).pagetable = a := by rw [hmapped₃.same.procs, hroot]
      obtain ⟨ok₄, k₄, live₄, hmap₄, hmapped₄, hfail₄⟩ := mapObject_kernelSide hmapped₃.kept.owned hroot₃
        (hmapped₃.kept.statics.vaOffset.trans hupper) (hstock₂.object_bounds hgiven)
      have hspent : Mm.freeCount k.mm ≤ Mm.freeCount k₂.mm + 2 := by
        have hle : Mm.freeCount mm ≤ Mm.freeCount S.mm + 1 := hspares.spent
        rw [hmm]
        omega
      unfold createKernelHalf allocPagetable allocPagetableWith
      rw [halloc, ok_bind]
      dsimp only
      rw [if_neg hne, ← hk₁, hz₁, ok_bind]
      dsimp only
      rw [← hk₂, if_neg hkstack, hmap₃, ok_bind]
      cases ok₃ with
      | false =>
          refine Or.inl ⟨false, k₃, rfl, ?_, nofun⟩
          have hle := hmapped₃.kept.freeCount_le (hfail₃ rfl)
          omega
      | true =>
          have hboth := hmapped₃.trans hmapped₄
          dsimp only
          rw [if_neg (by decide), hmap₄, ok_bind]
          cases ok₄ with
          | false =>
              refine Or.inl ⟨false, k₄, rfl, ?_, nofun⟩
              have hle := hboth.kept.freeCount_le (hfail₄ rfl)
              omega
          | true =>
              rw [← hsnub] at hbeside hsettled
              have htable : (k₄.procs p).pagetable = a := by rw [hboth.same.procs, hroot]
              refine Or.inr ⟨a, _, live₄, rfl, halfBuilt_of_mapped hst hempty hbeside hsettled hspent
                ?_ ?_ hboth htable⟩
              · rw [hk₂, hk₁]
                rfl
              · rw [hk₂, hk₁]
                rfl
    · have hnone : NoPage mm := hast.noPage
      obtain ⟨ok, k', hcall, hrec⟩ :=
        createKernelHalf_noPage (p := p) halloc hne hnew.run hnone hz hast.records
      refine Or.inl ⟨ok, k', hcall, ?_, fun _ => ⟨_, hrec.runInv hnew.run, hrec.noPage hnone⟩⟩
      rw [hnew.run.freeCount_of_noPage hnone] at hcount
      omega

/-! ### The user half -/

/-- A table of which the lower half maps `n` pages with the bytes `f`, and a stack. -/
structure UserSpace (root n : Nat) (f : Nat → UInt8) (s : Mm) (live : Multiset (Nat × Nat)) : Prop where
  owned : Owned (theRoot root) s live
  program : ∀ j < n, ∃ pa,
    leafOf s.mem (theRoot root) () (j * pageSize) = some (pa, mapFlags (pteR ||| pteX ||| pteU)) ∧
      ∀ d < pageSize, s.mem (pa + d) = f (j * pageSize + d)
  stack : ∃ pa,
    leafOf s.mem (theRoot root) () userStackBase = some (pa, mapFlags (pteR ||| pteW ||| pteU)) ∧
      ∀ d < pageSize, s.mem (pa + d) = 0
  nothingElse : ∀ va, n ≤ vpage va → vpage va < 2 ^ 26 → vpage va ≠ vpage userStackBase →
    leafOf s.mem (theRoot root) () va = none
  supervisor : ∀ va pa fl, 2 ^ 26 ≤ vpage va → leafOf s.mem (theRoot root) () va = some (pa, fl) →
    fl &&& pteU = 0

/-- The pages of the program, by their numbers. -/
theorem vpage_program {n j : Nat} (hn : n * pageSize ≤ userHeapEnd) (hj : j < n) :
    vpage (0 + j * pageSize) = j ∧ n < 0x77ff := by
  have hmul := Nat.mul_le_mul_right pageSize hj.le
  simp only [userHeapEnd, userStackBase, userEndVa, userStackSize, pageSize] at *
  rw [vpage_add rfl (show 0 + j * 4096 < 2 ^ 38 by omega), Nat.zero_div, Nat.zero_add]
  omega

/-- The stack is there at the end. -/
theorem stack_of_phases {s₂ s₃ s₄ : Mm} {live₃ live₄ : Multiset (Nat × Nat)} {d : Nat}
    (hstack : PagesMapped root s₂ s₃ live₃ (pteR ||| pteW ||| pteU) userStackBase 1 fun _ => 0)
    (hkept' : Kept (theRoot root) d s₃ live₃ s₄ live₄)
    (hside : KernelSide (leafOf s₃.mem (theRoot root) ()) (leafOf s₄.mem (theRoot root) ())) :
    ∃ pa, leafOf s₄.mem (theRoot root) () userStackBase =
        some (pa, mapFlags (pteR ||| pteW ||| pteU)) ∧
      ∀ d < pageSize, Settled (theRoot root) s₄ live₄ (pa + d) ∧ s₄.mem (pa + d) = 0 := by
  have hsame : leafOf s₄.mem (theRoot root) () (userStackBase + 0 * pageSize) =
      leafOf s₃.mem (theRoot root) () (userStackBase + 0 * pageSize) :=
    hside.user _ (by decide)
  obtain ⟨pa, hleaf, hbytes⟩ := hstack.mono hkept' Nat.one_pos hsame
  exact ⟨pa, hleaf, fun d hd => ⟨(hbytes d hd).1, (hbytes d hd).2⟩⟩

/-- The frame of the stack is none of the pages of the table. -/
def StackApart (root : Nat) (s : Mm) : Prop :=
  ∃ pa, leafOf s.mem (theRoot root) () userStackBase = some (pa, mapFlags (pteR ||| pteW ||| pteU)) ∧
    ∀ n, IsTable s.mem (theRoot root) n → ∀ d < pageSize, ¬InPage n (pa + d)

theorem stackApart_of_phases {s₂ s₃ s₄ : Mm} {live₃ live₄ : Multiset (Nat × Nat)} {d : Nat}
    (hstack : PagesMapped root s₂ s₃ live₃ (pteR ||| pteW ||| pteU) userStackBase 1 fun _ => 0)
    (hkept' : Kept (theRoot root) d s₃ live₃ s₄ live₄)
    (hside : KernelSide (leafOf s₃.mem (theRoot root) ()) (leafOf s₄.mem (theRoot root) ())) :
    StackApart root s₄ := by
  obtain ⟨pa, hleaf, hbytes⟩ := stack_of_phases hstack hkept' hside
  exact ⟨pa, hleaf, fun n hn d hd => (hbytes d hd).1.apart n hn⟩

/-- What the phases add up to. -/
theorem userSpace_of_phases {s₁ s₂ s₃ s₄ : Mm} {live₂ live₃ live₄ : Multiset (Nat × Nat)} {n c d : Nat}
    {f : Nat → UInt8} (hn : n * pageSize ≤ userHeapEnd)
    (hhalf : KernelSide (fun _ => none) (leafOf s₁.mem (theRoot root) ()))
    (hprogram : PagesMapped root s₁ s₂ live₂ (pteR ||| pteX ||| pteU) 0 n f)
    (hkept : Kept (theRoot root) c s₂ live₂ s₃ live₃)
    (hstack : PagesMapped root s₂ s₃ live₃ (pteR ||| pteW ||| pteU) userStackBase 1 fun _ => 0)
    (hkept' : Kept (theRoot root) d s₃ live₃ s₄ live₄)
    (hside : KernelSide (leafOf s₃.mem (theRoot root) ()) (leafOf s₄.mem (theRoot root) ())) :
    UserSpace root n f s₄ live₄ := by
  have hpage : ∀ {j}, j < n → vpage (0 + j * pageSize) = j := fun hj => (vpage_program hn hj).1
  have hbase : vpage userStackBase = 0x77ff := by decide
  have hlt : n < 0x77ff := by
    simp only [userHeapEnd, userStackBase, userEndVa, userStackSize, pageSize] at hn
    omega
  -- outside the program and the stack the table is as it was before they were mapped
  have hout : ∀ {va}, n ≤ vpage va → vpage va ≠ 0x77ff →
      leafOf s₃.mem (theRoot root) () va = leafOf s₁.mem (theRoot root) () va := by
    intro va hge hne
    rw [hstack.outside, hprogram.outside]
    · intro j hj
      rw [hpage hj]
      omega
    · intro j hj
      obtain rfl : j = 0 := Nat.lt_one_iff.mp hj
      rw [Nat.zero_mul, Nat.add_zero, hbase]
      exact hne
  refine ⟨hkept'.owned, fun j hj => ?_, ?_, fun va hge hlow hne => ?_, fun va pa fl hge hsome => ?_⟩
  · have hsame : leafOf s₄.mem (theRoot root) () (0 + j * pageSize) =
        leafOf s₂.mem (theRoot root) () (0 + j * pageSize) := by
      rw [hside.user _ (by rw [hpage hj]; omega), hstack.outside]
      intro i hi
      obtain rfl : i = 0 := Nat.lt_one_iff.mp hi
      rw [hpage hj, Nat.zero_mul, Nat.add_zero, hbase]
      omega
    obtain ⟨pa, hleaf, hbytes⟩ := hprogram.mono (hkept.trans hkept') hj hsame
    rw [Nat.zero_add] at hleaf
    exact ⟨pa, hleaf, fun d hd => (hbytes d hd).2⟩
  · obtain ⟨pa, hleaf, hbytes⟩ := stack_of_phases hstack hkept' hside
    exact ⟨pa, hleaf, fun d hd => (hbytes d hd).2⟩
  · rw [hside.user va hlow, hout hge (hbase ▸ hne), hhalf.user va hlow]
  · rcases hside.supervisor va pa fl hsome with hold | huser
    · rw [hout (by omega) (by omega)] at hold
      exact (hhalf.supervisor va pa fl hold).resolve_left nofun
    · exact huser

/-! ### `create_proc` -/

/-- What `create_proc` finds: the state of the allocators, and the table of the kernel, which they do
not give out and which is closed to user code. -/
structure Prepared (k : Kernel) (live : Multiset (Nat × Nat)) (taken given fl : Nat → List Nat) : Prop where
  stocked : Stocked k.snub live taken given fl
  tables : Tables k.mm.mem (theRoot k.kernelPagetable)
  spared : ∀ n, IsTable k.mm.mem (theRoot k.kernelPagetable) n → ∀ x, InPage n x → Spared k.snub live fl x
  supervised : Supervised (leafOf k.mm.mem (theRoot k.kernelPagetable) ())

/-- The binary lies in memory that the allocators do not give out. -/
structure Source (k : Kernel) (live : Multiset (Nat × Nat)) (fl : Nat → List Nat) (binary size : Nat) :
    Prop where
  noWrap : k.mm.virtToPhys binary + size ≤ 2 ^ 64
  spared : ∀ i < size, Spared k.snub live fl (k.mm.virtToPhys binary + i)

/-- Another call of the allocators leaves the table of the kernel as it is. -/
theorem Prepared.kept {taken' given' fl' : Nat → List Nat}
    (h : Prepared k live taken given fl) (hstock : Stocked k'.snub live' taken' given' fl')
    (hspared : ∀ x, Spared k.snub live fl x → Spared k'.snub live' fl' x ∧ k'.mm.mem x = k.mm.mem x)
    (hkp : k'.kernelPagetable = k.kernelPagetable) : Prepared k' live' taken' given' fl' := by
  have hsame : SameTables k.mm.mem k'.mm.mem (theRoot k.kernelPagetable) :=
    fun n hn x hx => (hspared x (h.spared n hn x hx)).2
  refine ⟨hstock, ?_, fun n hn x hx => ?_, ?_⟩
  · rw [hkp]
    exact h.tables.congr hsame
  · rw [hkp, hsame.isTable] at hn
    exact (hspared x (h.spared n hn x hx)).1
  · rw [hkp, show leafOf k'.mm.mem (theRoot k.kernelPagetable) () = _ from funext (hsame.leafOf ())]
    exact h.supervised

theorem Source.kept {n : Nat} {fl' : Nat → List Nat} (h : Source k live fl binary size)
    (hspares : Spares n k.snub live fl k'.snub live' fl') : Source k' live' fl' binary size := by
  have hphys : k'.mm.virtToPhys binary = k.mm.virtToPhys binary := hspares.statics.virtToPhys binary
  refine ⟨?_, fun i hi => ?_⟩
  · rw [hphys]
    exact h.noWrap
  · rw [hphys]
    exact (hspares.spared _ (h.spared i hi)).1

theorem alignUp_eq (h : size ≤ userHeapEnd) : alignUp size = pagesOf size * pageSize := by
  rw [alignUp, pagesOf, u64, Nat.mod_eq_of_lt]
  simp only [userHeapEnd, userStackBase, userEndVa, userStackSize, pageSize] at *
  omega

theorem pagesOf_le (h : size ≤ userHeapEnd) : pagesOf size * pageSize ≤ userHeapEnd := by
  unfold pagesOf
  simp only [userHeapEnd, userStackBase, userEndVa, userStackSize, pageSize] at *
  omega

theorem alignUp_alignUp (h : size ≤ userHeapEnd) : alignUp (alignUp size) = alignUp size := by
  refine alignUp_of_mod (alignUp_mod size) ?_
  rw [alignUp_eq h]
  exact (Nat.add_le_add_right (pagesOf_le h) pageSize).trans (by decide)

/-- The binary is loaded into a table with nothing in its lower half. -/
theorem HalfBuilt.loading (h : HalfBuilt root p k live fl k₁ live₁)
    (hsrc : Source k live fl binary size) (hle : size ≤ userHeapEnd) :
    Loading p root (pagesOf size) k₁ live₁ userStartVa size binary := by
  have hn := pagesOf_le hle
  have hphys : k₁.mm.virtToPhys binary = k.mm.virtToPhys binary := h.statics.virtToPhys binary
  refine ⟨h.owned, h.table, rfl, ?_, ?_, ?_, ?_, fun i hi => ?_, fun j hj => ?_⟩
  · rw [Nat.zero_add]
    exact hn.trans (by decide)
  · unfold pagesOf
    simp only [pageSize]
    omega
  · unfold pagesOf
    simp only [pageSize]
    omega
  · rw [hphys]
    exact hsrc.noWrap
  · rw [hphys]
    exact (h.spared _ (hsrc.spared i hi)).1
  · obtain ⟨hpage, hlt⟩ := vpage_program hn hj
    refine h.side.user _ ?_
    rw [show userStartVa = 0 from rfl, hpage]
    omega

theorem HalfBuilt.kernelTable (h : HalfBuilt root p k live fl k₁ live₁) {kp : Nat}
    (hT : Tables k.mm.mem (theRoot kp))
    (hspared : ∀ n, IsTable k.mm.mem (theRoot kp) n → ∀ x, InPage n x → Spared k.snub live fl x)
    (hsup : Supervised (leafOf k.mm.mem (theRoot kp) ())) : KernelTable root kp k₁.mm live₁ := by
  have hsame : SameTables k.mm.mem k₁.mm.mem (theRoot kp) :=
    fun n hn x hx => (h.spared x (hspared n hn x hx)).2
  refine ⟨h.owned, hT.congr hsame, fun n hn x hx => ?_, ?_⟩
  · exact (h.spared x (hspared n (hsame.isTable.mp hn) x hx)).1
  · rw [show leafOf k₁.mm.mem (theRoot kp) () = _ from funext (hsame.leafOf ())]
    exact hsup

theorem fail1_null {r : Nat × Kernel} (h : k.fail1 p = .ok r) : r.1 = 0 := by
  obtain ⟨k₁, -, h⟩ := bind_eq_ok.mp h
  rw [← Except.ok.inj h]

/-- The source is what it was. -/
theorem HalfBuilt.padded_eq (h : HalfBuilt root p k live fl k₁ live₁)
    (hsrc : Source k live fl binary size) :
    padded k₁.mm.mem (k₁.mm.virtToPhys binary) size =
      padded k.mm.mem (k.mm.virtToPhys binary) size := by
  rw [h.statics.virtToPhys]
  exact padded_congr fun i hi => (h.spared _ (hsrc.spared i hi)).2

/-- The rest of `create_proc`, once the kernel's half is there. -/
def createUserHalf (k : Kernel) (p binary size : Nat) : Except Stop (Nat × Kernel) := do
  let (va, k) ← loadBinary p (size / pageSize + 2) userStartVa size binary k
  match va with
  | none => k.fail1 p
  | some va => do
      let (ok, k) ← k.createUserStack p va
      if !ok then k.fail1 p
      else do
        let k ← k.createShared p
        let k ← k.enqueue p
        pure (p, k)

/-- What a process is given: the bounds of its heap, and a table with the binary in it. -/
structure SpaceBuilt (k : Kernel) (root p binary size : Nat) (k' : Kernel)
    (live' : Multiset (Nat × Nat)) : Prop where
  space : UserSpace root (pagesOf size) (padded k.mm.mem (k.mm.virtToPhys binary) size) k'.mm live'
  table : (k'.procs p).pagetable = root
  heapStart : (k'.procs p).heapStart = alignUp size
  heapEnd : (k'.procs p).heapEnd = alignUp size

/-- **The user half**: all of it is there, or few pages were free. -/
theorem createUserHalf_space (h : HalfBuilt root p k live fl k₁ live₁)
    (hT : KernelTable root k₁.kernelPagetable k₁.mm live₁) (hupper : k₁.mm.vaOffset = vaOffsetConst)
    (hsrc : Source k live fl binary size) (hle : size ≤ userHeapEnd) :
    ((∀ r, k₁.createUserHalf p binary size = .ok r → r.1 = 0) ∧
      Mm.freeCount k₁.mm ≤ 3 * pagesOf size + 3 + (2 * imagePages k₁.layout + 2)) ∨
      ∃ c k₄ live₄, SpaceBuilt k root p binary size k₄ live₄ ∧ StackApart root k₄.mm ∧
        k₄.nodes = k₁.nodes ∧
        Kept (theRoot root) c k₁.mm live₁ k₄.mm live₄ ∧ k₄.snub.caches = k₁.snub.caches ∧
        k₄.kernelPagetable = k₁.kernelPagetable ∧
        k₁.createUserHalf p binary size = k₄.enqueue p >>= fun k' => pure (p, k') := by
  have hfuel : pagesOf size < size / pageSize + 2 := by
    unfold pagesOf
    simp only [pageSize]
    omega
  unfold createUserHalf
  rcases loadBinary_pages (h.loading hsrc hle) hfuel with
    ⟨k₂, hload, hfew⟩ | ⟨k₂, live₂, hload, hprocs₂, hk₂, hprogram⟩
  · rw [hload, ok_bind]
    exact Or.inl ⟨fun r => fail1_null, by omega⟩
  · have hva : userStartVa + pagesOf size * pageSize = alignUp size := by
      rw [alignUp_eq hle]
      exact Nat.zero_add _
    rw [hva] at hload
    rw [hload, ok_bind]
    dsimp only
    obtain ⟨hpage, hlt⟩ : vpage userStackBase = 0x77ff ∧ pagesOf size < 0x77ff := by
      have hn := pagesOf_le hle
      refine ⟨by decide, ?_⟩
      simp only [userHeapEnd, userStackBase, userEndVa, userStackSize, pageSize] at hn
      omega
    have hnone : leafOf k₂.mm.mem (theRoot root) () userStackBase = none := by
      rw [hprogram.outside, h.side.user _ (by decide)]
      intro j hj
      rw [show userStartVa = 0 from rfl, (vpage_program (pagesOf_le hle) hj).1, hpage]
      omega
    have hroot₂ : (k₂.procs p).pagetable = root := by
      rw [hprocs₂.procs]
      exact h.table
    have hcount₂ := hk₂.spent
    rcases createUserStack_page (alignUp size) hk₂.owned hroot₂ hnone with
      ⟨k₃, hstack, hfew⟩ |
        ⟨k₃, live₃, hstack, hk₃, hpages, hroot₃, hstart, hend, hlayout, hkp, hcaches⟩
    · rw [hstack, ok_bind]
      exact Or.inl ⟨fun r => fail1_null, by omega⟩
    · rw [hstack, ok_bind]
      dsimp only
      rw [if_neg (by decide)]
      have hkp₃ : k₃.kernelPagetable = k₁.kernelPagetable := hkp.trans hprocs₂.kernelPagetable
      have hT₃ : KernelTable root k₃.kernelPagetable k₃.mm live₃ := by
        rw [hkp₃]
        exact hT.kept (hk₂.trans hk₃)
      have hupper₃ : k₃.mm.vaOffset = vaOffsetConst :=
        (hk₂.trans hk₃).statics.vaOffset.trans hupper
      have hlayout₃ : k₃.layout = k₁.layout := hlayout.trans hprocs₂.layout
      have hcount₃ := hk₃.spent
      rcases createShared_copied hT₃ hroot₃ hupper₃ with
        ⟨hhalt, hfew⟩ | ⟨k₄, live₄, hshared, hmapped⟩
      · rw [hhalt, error_bind]
        refine Or.inl ⟨nofun, ?_⟩
        rw [hlayout₃] at hfew
        omega
      · rw [hshared, ok_bind]
        refine Or.inr ⟨_, k₄, live₄, ⟨?_, ?_, ?_, ?_⟩,
          stackApart_of_phases hpages hmapped.kept hmapped.side, ?_, (hk₂.trans hk₃).trans hmapped.kept,
          hmapped.same.caches.trans (hcaches.trans hprocs₂.caches),
          hmapped.same.kernelPagetable.trans hkp₃, rfl⟩
        · refine userSpace_of_phases (pagesOf_le hle) h.side (hprogram.congr fun i _ => ?_) hk₃ hpages
            hmapped.kept hmapped.side
          exact congrFun (h.padded_eq hsrc) i
        · exact (congrArg (fun procs => (procs p).pagetable) hmapped.same.procs).trans hroot₃
        · rw [hmapped.same.procs, hstart, alignUp_alignUp hle]
        · rw [hmapped.same.procs, hend, alignUp_alignUp hle]
        · have hnodes₃ : k₃.nodes = (k₂.setProc p (k₃.procs p)).nodes :=
            nodes_of_masked (createUserStack_builds hstack).1.masked
          have hset : (k₂.setProc p (k₃.procs p)).nodes = k₂.nodes := rfl
          rw [nodes_of_masked (masked_of_bare (bare_createShared hshared)), hnodes₃, hset,
            nodes_of_masked (masked_of_bare (bare_loadBinary hload))]

end Kernel

end SystemN
