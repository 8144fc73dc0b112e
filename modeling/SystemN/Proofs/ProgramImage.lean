/-
The program of a new process.

When `create_proc` returns a process, user code finds the binary at the bottom of its address space
and a stack at the top, and it can reach nothing else.
-/
import SystemN.Proofs.List
import SystemN.Proofs.UserSpace

namespace SystemN.Kernel

open Mm Radix Rings

variable {k k' k₁ : Kernel} {p root binary size : Nat} {live live' : Multiset (Nat × Nat)}
  {taken given fl taken' given' fl' : Nat → List Nat}

/-! ### How `create_proc` ends -/

theorem createProc_eq {S : Snub} (hz : k.snub.kzalloc sizeofProc = .ok (p, S)) (hp : p ≠ 0) :
    k.createProc binary size = ((k.withRecord p S).initPid p).createKernelHalf p >>= fun (ok, k₁) =>
      if !ok then k₁.fail1 p else k₁.createUserHalf p binary size := by
  unfold createProc
  rw [allocProc_eq hz hp, ok_bind]
  dsimp only
  rw [if_neg hp]
  rfl

theorem Source.padded_eq {n : Nat} (h : Source k live fl binary size)
    (hspares : Spares n k.snub live fl k'.snub live' fl') :
    padded k'.mm.mem (k'.mm.virtToPhys binary) size =
      padded k.mm.mem (k.mm.virtToPhys binary) size := by
  have hphys : k'.mm.virtToPhys binary = k.mm.virtToPhys binary := hspares.statics.virtToPhys binary
  rw [hphys]
  exact padded_congr fun i hi => (hspares.spared _ (h.spared i hi)).2

/-- The pages that a process takes at most. -/
def pagesNeeded (L : Layout) (size : Nat) : Nat :=
  1 + 6 + (3 * pagesOf size + 3 + (2 * imagePages L + 2))

/-- **How `create_proc` ends**: a process with its address space is put on the run queue, or few pages
were free and none is returned. -/
theorem createProc_outcome (h : Prepared k live taken given fl)
    (hsrc : Source k live fl binary size) (hpos : 0 < size) (hle : size ≤ userHeapEnd) :
    ((∀ r, k.createProc binary size = .ok r → r.1 = 0) ∧
      Mm.freeCount k.mm ≤ pagesNeeded k.layout size) ∨
      ∃ root p k₁ live₁, p ≠ 0 ∧ SpaceBuilt k root p binary size k₁ live₁ ∧ StackApart root k₁.mm ∧
        k₁.nodes = Function.update k.nodes (.qNode p) ⟨none, none⟩ ∧
        (∃ taken₁ given₁ fl₁, Prepared k₁ live₁ taken₁ given₁ fl₁) ∧
        k.createProc binary size = k₁.enqueue p >>= fun k' => pure (p, k') := by
  have hrun : RunInv k.mm live := h.stocked.run
  obtain ⟨p, S, hz, hp, hsupp | hast⟩ := h.stocked.kzalloc_spares sizeToIdx_proc
  · obtain ⟨live₀, taken₀, given₀, fl₀, hstock, hgiven, hspares, -⟩ := hsupp
    obtain ⟨k₀, hk₀⟩ : ∃ k₀, k₀ = (k.withRecord p S).initPid p := ⟨_, rfl⟩
    have hsnub : k₀.snub = S := by
      rw [hk₀]
      rfl
    have hnodes₀ : k₀.nodes = Function.update k.nodes (.qNode p) ⟨none, none⟩ := by
      rw [hk₀]
      rfl
    have hra : (k₀.procs p).ctx.ra = 0 := by
      rw [hk₀]
      simp only [initPid, withRecord, setProc, setNodes, Function.update_self]
      rfl
    have hlayout₀ : k₀.layout = k.layout := by
      rw [hk₀]
      rfl
    rw [← hsnub] at hstock hspares
    have hprep : Prepared k₀ live₀ taken₀ given₀ fl₀ :=
      h.kept hstock hspares.spared (by rw [hk₀]; rfl)
    have hsrc₀ : Source k₀ live₀ fl₀ binary size := hsrc.kept hspares
    have hspent : Mm.freeCount k.mm ≤ Mm.freeCount k₀.mm + 1 := hspares.spent
    rw [createProc_eq hz hp, ← hk₀]
    unfold pagesNeeded
    rcases createKernelHalf_table hprep.stocked (hstock.object_bounds hgiven) with
      ⟨ok, k₁, hhalf, hfew, hdry⟩ | ⟨root, k₁, live₁, hhalf, hbuilt⟩
    · rw [hhalf, ok_bind]
      refine Or.inl ⟨?_, by omega⟩
      cases ok with
      | false => exact fun r => fail1_null
      | true =>
          obtain ⟨live₁, hrun₁, hnone₁⟩ := hdry rfl
          dsimp only
          rw [if_neg (by decide), createUserHalf,
            loadBinary_noPage hrun₁ hnone₁ (Nat.pos_iff_ne_zero.mp hpos), ok_bind]
          exact fun r => fail1_null
    · have hT := hbuilt.kernelTable hprep.tables hprep.spared hprep.supervised
      rw [← hbuilt.kernelPagetable] at hT
      have hupper : k₁.mm.vaOffset = vaOffsetConst := hbuilt.statics.vaOffset.trans hprep.stocked.upper
      have hspent₁ := hbuilt.spent
      rw [hhalf, ok_bind]
      dsimp only
      rw [if_neg (by decide)]
      rcases createUserHalf_space hbuilt hT hupper hsrc₀ hle with
        ⟨hnull, hfew⟩ | ⟨c, k₂, live₂, hspace, hstack, hnodes, hk, hcaches, hkp, hcall⟩
      · refine Or.inl ⟨hnull, ?_⟩
        rw [hbuilt.layout, hlayout₀] at hfew
        omega
      · have hnodes₁ : k₁.nodes = (k₀.setProc p (k₁.procs p)).nodes :=
          nodes_of_masked (createKernelHalf_builds hra hhalf).1.masked
        obtain ⟨taken₁, given₁, fl₁, hbeside, hspared⟩ := hbuilt.beside
        obtain ⟨hbeside', hspared'⟩ := hbeside.kept hk hcaches
        refine Or.inr ⟨root, p, k₂, live₂, hp, ⟨?_, hspace.table, hspace.heapStart, hspace.heapEnd⟩, hstack,
          hnodes.trans (hnodes₁.trans hnodes₀),
          ⟨taken₁, given₁, fl₁, hprep.kept hbeside'.stocked (fun x hx => ⟨?_, ?_⟩) ?_⟩, hcall⟩
        · rw [← hsrc.padded_eq hspares]
          exact hspace.space
        · exact hspared' x (hspared x hx)
        · obtain ⟨hset, hsame⟩ := hbuilt.spared x hx
          exact (hk.settled x hset).2.trans hsame
        · exact hkp.trans hbuilt.kernelPagetable
  · have hnone : NoPage k.mm := hast.noPage
    have hdry : S.mm.allocPage = .ok (0, S.mm) :=
      (hast.records.runInv hrun).allocPage_noPage (hast.records.noPage hnone)
    obtain ⟨k₁, -, hcall⟩ := createProc_noTable hz hp hdry
    refine Or.inl ⟨fun r hr => ?_, ?_⟩
    · rw [hcall] at hr
      obtain ⟨S', -, hr⟩ := bind_eq_ok.mp hr
      rw [← Except.ok.inj hr]
    · rw [hrun.freeCount_of_noPage hnone]
      exact Nat.zero_le _

/-- The last step touches the queue and the state of the process. -/
theorem enqueue_eq_ok (h : k.enqueue p = .ok k') :
    k'.mm = k.mm ∧ (k'.procs p).pagetable = (k.procs p).pagetable ∧
      (k'.procs p).heapStart = (k.procs p).heapStart ∧ (k'.procs p).heapEnd = (k.procs p).heapEnd := by
  obtain ⟨nodes, -, h⟩ := bind_eq_ok.mp h
  obtain rfl := Except.ok.inj h
  have hproc : (((k.setState p .runnable).setNodes nodes).procs p) =
      { k.procs p with state := .runnable } := Function.update_self ..
  rw [hproc]
  exact ⟨rfl, rfl, rfl, rfl⟩

/-! ### What the hardware finds -/

section

variable {n va : Nat} {f : Nat → UInt8} {s : Mm}

theorem UserSpace.program_at (h : UserSpace root n f s live) (hn : n * pageSize ≤ userHeapEnd)
    (hva : va < n * pageSize) :
    ∃ pa, s.translate root va = some (pa, mapFlags (pteR ||| pteX ||| pteU)) ∧ s.mem pa = f va := by
  have hlow : va < 2 ^ 38 := hva.trans_le (hn.trans (by decide))
  obtain ⟨pa, hleaf, hbytes⟩ := h.program (va / pageSize) (Nat.div_lt_of_lt_mul (by rwa [Nat.mul_comm]))
  have hpage : va / pageSize = va / pageSize * pageSize / pageSize :=
    (Nat.mul_div_cancel _ (by decide)).symm
  refine ⟨pa + va % pageSize, ?_, ?_⟩
  · rw [translate_eq h.owned.tables (o := ()) rfl (Or.inl hlow), leafOf_congr_va hpage, hleaf]
    rfl
  · rw [hbytes _ (Nat.mod_lt va (by decide)), Nat.div_add_mod']

theorem UserSpace.stack_at (h : UserSpace root n f s live) (hlo : userStackBase ≤ va)
    (hhi : va < userStackTop) :
    ∃ pa, s.translate root va = some (pa, mapFlags (pteR ||| pteW ||| pteU)) ∧ s.mem pa = 0 := by
  obtain ⟨pa, hleaf, hbytes⟩ := h.stack
  have hpage : va / pageSize = userStackBase / pageSize := by
    simp only [userStackBase, userStackTop, userEndVa, userStackSize, pageSize] at *
    omega
  refine ⟨pa + va % pageSize, ?_, hbytes _ (Nat.mod_lt va (by decide))⟩
  rw [translate_eq h.owned.tables (o := ()) rfl (Or.inl (hhi.trans (by decide))),
    leafOf_congr_va hpage, hleaf]
  rfl

theorem UserSpace.unmapped_at (h : UserSpace root n f s live) (hlo : n * pageSize ≤ va)
    (hhi : va < 2 ^ 38) (hstack : va < userStackBase ∨ userStackTop ≤ va) :
    s.translate root va = none := by
  have hpage : vpage va = va / pageSize := by
    simp only [vpage, pageSize]
    omega
  have hnone : leafOf s.mem (theRoot root) () va = none := by
    refine h.nothingElse va ?_ ?_ ?_
    · rw [hpage]
      exact (Nat.le_div_iff_mul_le (by decide)).mpr hlo
    · rw [hpage]
      simp only [pageSize]
      omega
    · rw [hpage, show vpage userStackBase = userStackBase / pageSize by decide]
      simp only [userStackBase, userStackTop, userEndVa, userStackSize, pageSize] at *
      omega
  rw [translate_eq h.owned.tables (o := ()) rfl (Or.inl hhi), hnone]
  rfl

theorem UserSpace.supervisor_at (h : UserSpace root n f s live) (hn : n * pageSize ≤ userHeapEnd)
    (hva : userEndVa ≤ va) {pa fl : Nat} (hsome : s.translate root va = some (pa, fl)) :
    fl &&& pteU = 0 := by
  have hcanon : Canonical va := by
    by_contra hnot
    rw [Mm.translate, if_neg hnot] at hsome
    cases hsome
  rcases hcanon with hlow | hhigh
  · rw [h.unmapped_at ((hn.trans (by decide)).trans hva) hlow (Or.inr hva)] at hsome
    cases hsome
  · have hpage : 2 ^ 26 ≤ vpage va := by
      simp only [vpage, pageSize]
      omega
    rw [translate_eq h.owned.tables (o := ()) rfl (Or.inr hhigh)] at hsome
    obtain ⟨⟨pa', fl'⟩, hleaf, hpair⟩ := Option.map_eq_some_iff.mp hsome
    obtain ⟨-, rfl⟩ := Prod.mk.inj hpair
    exact h.supervisor va pa' fl' hpage hleaf

end

/-- What user code finds under the table of the process `p`, which was created from the binary at
`binary` in the state `k`. -/
structure ProgramImage (k : Kernel) (binary size p : Nat) (k' : Kernel) : Prop where
  /-- The binary, and zeros behind it up to the end of its last page. -/
  program : ∀ va < alignUp size, ∃ pa,
    k'.mm.translate (k'.procs p).pagetable va = some (pa, mapFlags (pteR ||| pteX ||| pteU)) ∧
      k'.mm.mem pa = if va < size then k.mm.mem (k.mm.virtToPhys (u64 (binary + va))) else 0
  stack : ∀ va, userStackTop - userStackSize ≤ va → va < userStackTop → ∃ pa,
    k'.mm.translate (k'.procs p).pagetable va = some (pa, mapFlags (pteR ||| pteW ||| pteU)) ∧
      k'.mm.mem pa = 0
  /-- Nothing else is mapped in the lower half of the address space. -/
  nothingElse : ∀ va, alignUp size ≤ va → va < 2 ^ 38 →
    (va < userStackTop - userStackSize ∨ userStackTop ≤ va) →
      k'.mm.translate (k'.procs p).pagetable va = none
  supervisor : ∀ va pa f, userEndVa ≤ va →
    k'.mm.translate (k'.procs p).pagetable va = some (pa, f) → f &&& pteU = 0
  heapStart : (k'.procs p).heapStart = alignUp size
  heapEnd : (k'.procs p).heapEnd = alignUp size

theorem SpaceBuilt.programImage (h : SpaceBuilt k root p binary size k₁ live)
    (hsrc : k.mm.virtToPhys binary + size ≤ 2 ^ 64) (hle : size ≤ userHeapEnd)
    (hq : k₁.enqueue p = .ok k') : ProgramImage k binary size p k' := by
  obtain ⟨hmm, htable, hstart, hend⟩ := enqueue_eq_ok hq
  have hn := pagesOf_le hle
  have hspace : UserSpace root (pagesOf size) (padded k.mm.mem (k.mm.virtToPhys binary) size) k'.mm
      live := hmm ▸ h.space
  refine ⟨?_, ?_, ?_, ?_, hstart.trans h.heapStart, hend.trans h.heapEnd⟩
  all_goals rw [htable, h.table]
  · intro va hva
    rw [alignUp_eq hle] at hva
    obtain ⟨pa, htr, hbyte⟩ := hspace.program_at hn hva
    refine ⟨pa, htr, hbyte.trans ?_⟩
    unfold padded
    split
    · rw [virtToPhys_add, u64, Nat.mod_eq_of_lt (by omega)]
    · rfl
  · exact fun va => hspace.stack_at
  · rw [alignUp_eq hle]
    exact fun va => hspace.unmapped_at
  · exact fun va pa f hva => hspace.supervisor_at hn hva

/-- **The image of a program.**  A process that `create_proc` returns finds the binary, its stack and
nothing else. -/
theorem createProc_image (h : Prepared k live taken given fl) (hsrc : Source k live fl binary size)
    (hpos : 0 < size) (hle : size ≤ userHeapEnd) (hcall : k.createProc binary size = .ok (p, k'))
    (hp : p ≠ 0) : ProgramImage k binary size p k' := by
  rcases createProc_outcome h hsrc hpos hle with
    ⟨hnull, -⟩ | ⟨root, p', k₁, live₁, -, hspace, -, -, -, hends⟩
  · exact absurd (hnull _ hcall) hp
  · rw [hends] at hcall
    obtain ⟨k₂, hq, hpair⟩ := bind_eq_ok.mp hcall
    obtain ⟨rfl, rfl⟩ := Prod.mk.inj (Except.ok.inj hpair)
    exact hspace.programImage hsrc.noWrap hle hq

/-- The next process can be created like this one. -/
theorem createProc_prepared (h : Prepared k live taken given fl) (hsrc : Source k live fl binary size)
    (hpos : 0 < size) (hle : size ≤ userHeapEnd) (hcall : k.createProc binary size = .ok (p, k'))
    (hp : p ≠ 0) : ∃ live' taken' given' fl', Prepared k' live' taken' given' fl' := by
  rcases createProc_outcome h hsrc hpos hle with
    ⟨hnull, -⟩ | ⟨root, p', k₁, live₁, -, -, -, -, ⟨taken₁, given₁, fl₁, hprep⟩, hends⟩
  · exact absurd (hnull _ hcall) hp
  · rw [hends] at hcall
    obtain ⟨k₂, hq, hpair⟩ := bind_eq_ok.mp hcall
    obtain ⟨nodes, -, hq⟩ := bind_eq_ok.mp hq
    obtain ⟨rfl, rfl⟩ := Prod.mk.inj (Except.ok.inj hpair)
    obtain rfl := Except.ok.inj hq
    exact ⟨live₁, taken₁, given₁, fl₁, hprep.stocked, hprep.tables, hprep.spared, hprep.supervised⟩

/-! ### After the boot -/

/-- A binary in the image of the kernel, below the managed pages. -/
theorem Prepared.source (h : Prepared k live taken given fl)
    (hlow : k.mm.virtToPhys binary + size ≤ k.mm.buddyBasePhys) : Source k live fl binary size := by
  have htop : k.mm.buddyBasePhys + k.mm.numPages * pageSize ≤ userEnd := h.stocked.run.region.top
  refine ⟨?_, fun i hi => ⟨Or.inl ?_, fun j q hq hle => ?_⟩⟩
  · simp only [userEnd] at htop
    omega
  · change k.mm.virtToPhys binary + i < k.mm.buddyBasePhys
    omega
  · obtain ⟨pa, hpa, o, ho, rfl⟩ := h.stocked.slabs.exists_objAt (List.mem_append_left _ hq)
    have hbase : k.mm.buddyBasePhys ≤ pa := (h.stocked.slabs.page j pa hpa).2
    change Snub.objAt k.mm.vaOffset pa j o ≤ _ + k.mm.vaOffset at hle
    unfold Snub.objAt at hle
    omega

/-- A call of `create_proc` for a binary in the image of the kernel, that returns a process. -/
def Creates (k k' : Kernel) : Prop :=
  ∃ binary size p, 0 < size ∧ size ≤ userHeapEnd ∧
    k.mm.virtToPhys binary + size ≤ k.mm.buddyBasePhys ∧ k.createProc binary size = .ok (p, k') ∧ p ≠ 0

/-- Any number of processes can be created one after the other. -/
theorem prepared_creates (h : Prepared k live taken given fl) (hrun : Relation.ReflTransGen Creates k k') :
    ∃ live' taken' given' fl', Prepared k' live' taken' given' fl' := by
  induction hrun with
  | refl => exact ⟨live, taken, given, fl, h⟩
  | tail _ hcall ih =>
      obtain ⟨live₁, taken₁, given₁, fl₁, h₁⟩ := ih
      obtain ⟨binary, size, p, hpos, hle, hlow, hcall, hp⟩ := hcall
      exact createProc_prepared h₁ (h₁.source hlow) hpos hle hcall hp

/-- After `mm_init` the table of the kernel is not given out and closed to user code. -/
theorem prepared_boot {L : Layout} {m : Nat → UInt8} {S : Snub}
    (hS : mmInit L m = .ok (k.kernelPagetable, S)) (hsnub : k.snub = S) :
    ∃ live, Prepared k live (fun _ => []) (fun _ => []) (fun _ => []) := by
  have hmm : k.mm = S.mm := congrArg Snub.mm hsnub
  obtain ⟨tabs, hi⟩ := (KernelRun.boot hS).inv
  have hcaches : k.snub = Snub.snubInit S.mm := by
    obtain ⟨⟨kp, s⟩, -, h⟩ := bind_eq_ok.mp hS
    obtain ⟨s', -, h⟩ := bind_eq_ok.mp h
    obtain ⟨-, rfl⟩ := Prod.mk.inj (Except.ok.inj h)
    exact hsnub
  refine ⟨tabs + 0, ?_, hmm ▸ hi.tables, fun n hn x hx => ⟨?_, nofun⟩, hmm ▸ mmInit_supervised hS⟩
  · rw [hcaches]
    exact .init hi.run hi.booted hi.vaOffset
  · rw [hmm] at hn
    have hheld := (hi.held n hn).mono (SameStatics.refl S.mm)
      (Multiset.subset_of_le (Multiset.le_add_right tabs 0))
    exact hsnub ▸ hheld.heldAt hx

/-- A process that is not on the run queue can be put on it. -/
theorem enqueue_ok {xs : List Node} (hr : IsRing k.nodes .runQueue xs) (hp : .qNode p ∉ xs) :
    ∃ k', k.enqueue p = .ok k' ∧ IsRing k'.nodes .runQueue (xs ++ [.qNode p]) := by
  obtain ⟨nodes, hadd, hring, -⟩ := listAddTail_ring (.qNode p) hr (by simpa using hp)
  have hadd' : listAddTail (k.setState p .runnable).nodes (.qNode p) .runQueue = .ok nodes := hadd
  refine ⟨(k.setState p .runnable).setNodes nodes, ?_, hring⟩
  simp only [enqueue, hadd', ok_bind, pure, Except.pure]

/-- 100 bytes of the small image can be made a program. -/
theorem booted_source (hS : mmInit smallLayout (fun _ => 0) = .ok (k.kernelPagetable, k.snub)) :
    ∃ live, Prepared k live (fun _ => []) (fun _ => []) (fun _ => []) ∧
      Source k live (fun _ => []) 0xffffffff80001000 100 := by
  obtain ⟨live, hprep⟩ := prepared_boot hS rfl
  obtain ⟨-, -, -, -, hst⟩ := mmInit_spec hS
  change SameStatics _ k.mm at hst
  have hphys : k.mm.virtToPhys 0xffffffff80001000 = 0x80001000 := by
    rw [virtToPhys, hst.vaOffset]
    decide
  refine ⟨live, hprep, hprep.source ?_⟩
  rw [hphys, hst.base]
  decide

/-- They are made the program of the first process, which then waits in the run queue. -/
theorem booted_create (hS : mmInit smallLayout (fun _ => 0) = .ok (k.kernelPagetable, k.snub))
    (hfree : 47 < freeCount k.mm) (hlayout : k.layout = smallLayout)
    (hring : IsRing k.nodes .runQueue []) :
    ∃ p k', k.createProc 0xffffffff80001000 100 = .ok (p, k') ∧ p ≠ 0 ∧
      IsRing k'.nodes .runQueue [.qNode p] := by
  obtain ⟨live, hprep, hsrc⟩ := booted_source hS
  rcases createProc_outcome hprep hsrc (by decide) (by decide) with
    ⟨-, hfew⟩ | ⟨root, p, k₁, live₁, hp, -, -, hnodes, -, hends⟩
  · have hneed : pagesNeeded smallLayout 100 = 47 := by decide
    rw [hlayout, hneed] at hfew
    omega
  · have hring₁ : IsRing k₁.nodes .runQueue [] := by
      rw [hnodes]
      refine hring.frame fun x hx => ?_
      rw [List.mem_singleton.mp hx]
      exact Function.update_of_ne (show Node.runQueue ≠ Node.qNode p by simp) _ _
    obtain ⟨k', hq, hring'⟩ := enqueue_ok (p := p) hring₁ (List.not_mem_nil)
    rw [hq] at hends
    exact ⟨p, k', hends, hp, hring'⟩

/-- The queues of a kernel that has just started are rings. -/
theorem initQueues_ring : IsRing k.initQueues.nodes .runQueue [] := by
  refine IsRing.frame (listHeadInit_ring k.nodes .runQueue) fun x hx => ?_
  rw [List.mem_singleton.mp hx]
  exact listHeadInit_of_ne (show Node.runQueue ≠ Node.sleepQueue by simp)

/-- A page of the small image is made the program of the first process. -/
theorem createProc_image_smallLayout :
    ∃ kp S p k', mmInit smallLayout (fun _ => 0) = .ok (kp, S) ∧
      (bootedKernel kp S).initQueues.createProc 0xffffffff80001000 100 = .ok (p, k') ∧ p ≠ 0 ∧
      ProgramImage (bootedKernel kp S).initQueues 0xffffffff80001000 100 p k' := by
  obtain ⟨kp, S, hS, hfree⟩ := exists_boot_smallLayout
  have hS' : mmInit smallLayout (fun _ => 0) = .ok ((bootedKernel kp S).initQueues.kernelPagetable,
      (bootedKernel kp S).initQueues.snub) := hS
  obtain ⟨p, k', hcall, hp, -⟩ := booted_create hS' (Nat.lt_of_lt_of_le (by decide) hfree) rfl
    initQueues_ring
  obtain ⟨live, hprep, hsrc⟩ := booted_source hS'
  exact ⟨kp, S, p, k', hS, hcall, hp,
    createProc_image hprep hsrc (by decide) (by decide) hcall hp⟩

end SystemN.Kernel
