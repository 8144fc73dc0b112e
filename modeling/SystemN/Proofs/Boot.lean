/-
Four harts start, and none is too early.

A hart that is not hart 0 reads `kernel_pagetable` behind the loop on `allocator_ready`, so what it
loads is the table that `mm_init` has finished.  The table stays as it is while hart 0 goes on, to
create processes and to run them.  Therefore each hart that has left M-mode, at any time after,
finds `s_mode_main`, `trap_vector`, its own stack and its own `cpu_t` where it left them, one
`VA_OFFSET` higher.

A step is what no other hart can come between: what a hart does to its own registers, or one of the
calls of `mm_init`, or one access to a variable that is shared.  With the two calls of
`__sync_synchronize` the accesses are seen in this order by all harts.
-/
import SystemN.Boot
import SystemN.Proofs.IsolationRun

namespace SystemN

open Mm Radix
open TrapVec (sizeofCpu)

variable {I : Image} {m : Nat → UInt8} {k k' : Kernel} {b b' : Boot} {c : BootHart} {i j va pa : Nat}
  {ps : List Nat}

/-! ### The steps -/

/-- The address of `_stack` in S-mode. -/
def Image.stackVa (I : Image) : Nat := u64 (I.stack + vaOffsetConst)

/-- A step of the hart `i`. -/
inductive BootStep (I : Image) (m : Nat → UInt8) (i : Nat) (b : Boot) : Boot → Prop where
  | entry (hstage : (b.harts i).stage = .entry) :
      BootStep I m i b (b.setHart i ((b.harts i).enter I i))
  /-- `curr_cpu()->id` is written through `tp`. -/
  | start (hstage : (b.harts i).stage = .start) :
      BootStep I m i b
        ({ b with ids := Function.update b.ids i i }.setHart i ((b.harts i).takeCpu I i))
  | buddyInit {kp : Nat} {mm : Mm} (hstage : (b.harts i).stage = .buddyInit)
      (hcall : buddyAllocatorInit I.layout m = .ok (kp, mm)) :
      BootStep I m i b
        ((b.setKernel { b.kernel.setMm mm with kernelPagetable := kp }).next i .mapKernel)
  | mapKernel {mm : Mm} (hstage : (b.harts i).stage = .mapKernel)
      (hcall : setupKernelPagetable I.layout b.kernel.kernelPagetable b.kernel.mm = .ok mm) :
      BootStep I m i b ((b.setKernel (b.kernel.setMm mm)).next i .loadTable)
  | loadTable (hstage : (b.harts i).stage = .loadTable) :
      BootStep I m i b
        ((b.setKernel (b.kernel.loadPagetable b.kernel.kernelPagetable)).setHart i
          ((b.harts i).loadPagetable b.kernel.kernelPagetable .snubInit))
  | snubInit (hstage : (b.harts i).stage = .snubInit) :
      BootStep I m i b
        ((b.setKernel (b.kernel.setSnub (Snub.snubInit b.kernel.mm))).next i .vaOffset)
  | vaOffset (hstage : (b.harts i).stage = .vaOffset) :
      BootStep I m i b
        ((b.setKernel (b.kernel.setMm { b.kernel.mm with vaOffset := vaOffsetConst })).next i .ready)
  | ready (hstage : (b.harts i).stage = .ready) :
      BootStep I m i b ({ b with allocatorReady := true }.next i .delegate)
  /-- `nop`. -/
  | spin (hstage : (b.harts i).stage = .wait) (hready : b.allocatorReady = false) : BootStep I m i b b
  | wait (hstage : (b.harts i).stage = .wait) (hready : b.allocatorReady = true) :
      BootStep I m i b (b.next i .load)
  | load (hstage : (b.harts i).stage = .load) :
      BootStep I m i b
        (b.setHart i ((b.harts i).loadPagetable b.kernel.kernelPagetable .delegate))
  | delegate (hstage : (b.harts i).stage = .delegate) :
      BootStep I m i b (b.setHart i ((b.harts i).delegate I i))
  | drop (hstage : (b.harts i).stage = .drop) :
      BootStep I m i b (b.setHart i (b.harts i).mret)
  /-- Hart 0 in `s_mode_main`. -/
  | queues {now : Nat} (hstage : (b.harts i).stage = .supervisor) (hi : i = 0) :
      BootStep I m i b ((b.setKernel (b.kernel.setupHart I.stackVa now)).next i (.processes []))
  | create {ps : List Nat} {binary size p : Nat} {k : Kernel}
      (hstage : (b.harts i).stage = .processes ps) (hsize : size ≤ userHeapEnd)
      (hcall : b.kernel.createProc binary size = .ok (p, k)) (hp : p ≠ 0) :
      BootStep I m i b ((b.setKernel k).next i (.processes (ps ++ [p])))
  | shell {ps : List Nat} {shell : Nat} {k : Kernel} (hstage : (b.harts i).stage = .processes ps)
      (hshell : shell ∈ ps) (hcall : b.kernel.makeCurrent shell = .ok k) :
      BootStep I m i b ((b.setKernel k.jumpToUserShell).next i (.running ps))
  | run {ps : List Nat} {es : List (Nat × UInt8)} {k : Kernel}
      (hstage : (b.harts i).stage = .running ps) (hstep : b.kernel.SystemStep ps es k) :
      BootStep I m i b ((b.setKernel k).next i (.running ps))

/-- The states from reset on, for any order of the steps. -/
inductive BootRun (I : Image) (m : Nat → UInt8) : Boot → Prop where
  | reset {b : Boot} (hidle : b.kernel.idleProc ≠ 0 ∧
      b.kernel.idleProc < I.layout.kernelEnd + vaOffsetConst) (h : b.AtReset I) : BootRun I m b
  | step {i : Nat} {b b' : Boot} (h : BootRun I m b) (hi : i < ncpu) (hstep : BootStep I m i b b') :
      BootRun I m b'

/-! ### The table of the kernel, in all states -/

/-- The table of the kernel is as `mm_init` has left it. -/
theorem Kernel.Separated.translate_kernel {live : Multiset (Nat × Nat)} {taken given fl : Nat → List Nat}
    (h : k.Separated ps live taken given fl) (va : Nat) :
    k.mm.translate k.kernelPagetable va = kernelTranslate k.layout va := by
  have htables : Tables k.mm.mem (k.tableRoots ps) := h.isolated.owned.tables
  by_cases hva : Canonical va
  · rw [translate_eq htables (o := none) rfl hva]
    change (leafOf k.snub.mm.mem _ _ _).map _ = _
    rw [h.isolated.kernel, kernelLeaf_translate hva]
  · rw [Mm.translate, if_neg hva, kernelTranslate, if_neg]
    simp only [Canonical, vaOffsetConst, kernelStartVa, kernelStart] at *
    omega

/-! ### The invariant -/

/-- What hart 0 has made of memory when it is at a stage. -/
def MemoryAt (I : Image) (m : Nat → UInt8) (k : Kernel) : Stage → Prop
  | .mapKernel => buddyAllocatorInit I.layout m = .ok (k.kernelPagetable, k.mm)
  | .loadTable | .snubInit => ∃ s, buddyAllocatorInit I.layout m = .ok (k.kernelPagetable, s) ∧
      setupKernelPagetable I.layout k.kernelPagetable s = .ok k.mm
  | .vaOffset => ∃ s s', buddyAllocatorInit I.layout m = .ok (k.kernelPagetable, s) ∧
      setupKernelPagetable I.layout k.kernelPagetable s = .ok s' ∧ k.snub = Snub.snubInit s'
  | .ready | .delegate | .drop | .supervisor => mmInit I.layout m = .ok (k.kernelPagetable, k.snub)
  | .processes ps => k.Populated I.layout m I.stackVa ps
  | .running ps => k.SystemRun I.layout m I.stackVa ps
  | _ => True

/-- The stages of hart 0 behind `allocator_ready = 1`. -/
def Stage.published : Stage → Bool
  | .delegate | .drop | .supervisor | .processes _ | .running _ => true
  | _ => false

/-- The stages before `s_mode_main` has begun to change the kernel. -/
def Stage.booting : Stage → Bool
  | .processes _ | .running _ => false
  | _ => true

/-- A hart in `start`, with its stack and its `cpu_t`. -/
structure InStart (I : Image) (b : Boot) (i : Nat) (c : BootHart) : Prop where
  mode : c.mode = .machine
  sp : c.sp = I.stackTop i
  tp : c.tp = I.cpuOf i
  id : b.ids i = i

/-- The hart has loaded the table of the kernel, which is finished. -/
structure HasTable (b : Boot) (c : BootHart) : Prop where
  satp : c.satp = makeSatp b.kernel.kernelPagetable
  ready : b.allocatorReady = true

/-- The control registers before the `mret`, and the registers moved to kernel addresses. -/
structure Delegated (I : Image) (b : Boot) (i : Nat) (c : BootHart) : Prop where
  sp : c.sp = u64 (I.stackTop i + vaOffsetConst)
  tp : c.tp = u64 (I.cpuOf i + vaOffsetConst)
  id : b.ids i = i
  stvec : c.stvec = u64 (I.trapVector + vaOffsetConst)
  medeleg : c.medeleg = 0xffff ∧ c.mideleg = 0xffff
  sie : c.mstatus &&& sstatusSie ≠ 0 ∧ c.sie &&& sieStie ≠ 0

/-- A hart that has left M-mode. -/
structure HasLeft (I : Image) (b : Boot) (i : Nat) (c : BootHart) : Prop where
  mode : c.mode = .supervisor
  pc : c.pc = u64 (I.sModeMain + vaOffsetConst)
  delegated : Delegated I b i c
  table : HasTable b c

/-- What a hart has got when it is at a stage. -/
def Progress (I : Image) (b : Boot) (i : Nat) (c : BootHart) : Stage → Prop
  | .entry => c.mode = .machine ∧ c.satp = 0
  | .start => c.mode = .machine ∧ c.satp = 0 ∧ c.sp = I.stackTop i
  | .buddyInit | .mapKernel | .loadTable => i = 0 ∧ c.satp = 0 ∧ InStart I b i c
  | .snubInit | .vaOffset | .ready =>
      i = 0 ∧ c.satp = makeSatp b.kernel.kernelPagetable ∧ InStart I b i c
  | .wait => i ≠ 0 ∧ c.satp = 0 ∧ InStart I b i c
  | .load => i ≠ 0 ∧ c.satp = 0 ∧ InStart I b i c ∧ b.allocatorReady = true
  | .delegate => InStart I b i c ∧ HasTable b c
  | .drop => c.mode = .machine ∧ mppOf c.mstatus = .supervisor ∧
      c.mepc = u64 (I.sModeMain + vaOffsetConst) ∧ Delegated I b i c ∧ HasTable b c
  | .supervisor => HasLeft I b i c
  | .processes _ | .running _ => i = 0 ∧ HasLeft I b i c

/-- All harts, and what they share. -/
structure BootInv (I : Image) (m : Nat → UInt8) (b : Boot) : Prop where
  layout : b.kernel.layout = I.layout
  /-- `idle_procs` lies in the image. -/
  idle : (b.harts 0).stage.booting = true → b.kernel.idleProc ≠ 0 ∧
    b.kernel.idleProc < I.layout.kernelEnd + vaOffsetConst
  memory : MemoryAt I m b.kernel (b.harts 0).stage
  ready : b.allocatorReady = (b.harts 0).stage.published
  harts : ∀ i, Progress I b i (b.harts i) (b.harts i).stage

/-! ### Steps of other harts -/

theorem InStart.congr (h : InStart I b i c) (hid : b'.ids i = b.ids i) : InStart I b' i c :=
  ⟨h.mode, h.sp, h.tp, hid.trans h.id⟩

theorem Delegated.congr (h : Delegated I b i c) (hid : b'.ids i = b.ids i) : Delegated I b' i c :=
  ⟨h.sp, h.tp, hid.trans h.id, h.stvec, h.medeleg, h.sie⟩

theorem HasTable.mono (h : HasTable b c) (hready : b.allocatorReady = true → b'.allocatorReady = true)
    (hkp : b'.kernel.kernelPagetable = b.kernel.kernelPagetable) : HasTable b' c :=
  ⟨by rw [hkp, h.satp], hready h.ready⟩

/-- What another hart does leaves a hart where it is.  `kernel_pagetable` is written by hart 0, and
not any more once `allocator_ready` is set. -/
theorem Progress.frame {s : Stage} (h : Progress I b i c s) (hid : b'.ids i = b.ids i)
    (hready : b.allocatorReady = true → b'.allocatorReady = true)
    (hkp : i = 0 ∨ b.allocatorReady = true → b'.kernel.kernelPagetable = b.kernel.kernelPagetable) :
    Progress I b' i c s := by
  have htable : HasTable b c → HasTable b' c := fun ht => ht.mono hready (hkp (Or.inr ht.ready))
  cases s with
  | entry => exact h
  | start => exact h
  | buddyInit | mapKernel | loadTable => exact ⟨h.1, h.2.1, h.2.2.congr hid⟩
  | snubInit | vaOffset | ready =>
      obtain ⟨hi, hsatp, hstart⟩ := h
      exact ⟨hi, by rw [hkp (Or.inl hi), hsatp], hstart.congr hid⟩
  | wait => exact ⟨h.1, h.2.1, h.2.2.congr hid⟩
  | load => exact ⟨h.1, h.2.1, h.2.2.1.congr hid, hready h.2.2.2⟩
  | delegate => exact ⟨h.1.congr hid, htable h.2⟩
  | drop =>
      obtain ⟨hmode, hmpp, hmepc, hdel, ht⟩ := h
      exact ⟨hmode, hmpp, hmepc, hdel.congr hid, htable ht⟩
  | supervisor => exact ⟨h.mode, h.pc, h.delegated.congr hid, htable h.table⟩
  | processes ps | running ps =>
      exact ⟨h.1, h.2.mode, h.2.pc, h.2.delegated.congr hid, htable h.2.table⟩

/-- A step of the hart `i`, told by what it does to that hart and to what hart 0 has made. -/
theorem BootInv.update (h : BootInv I m b) (hids : ∀ j ≠ i, b'.ids j = b.ids j)
    (hharts : ∀ j ≠ i, b'.harts j = b.harts j)
    (hmono : b.allocatorReady = true → b'.allocatorReady = true)
    (hkp : i ≠ 0 ∨ b.allocatorReady = true → b'.kernel.kernelPagetable = b.kernel.kernelPagetable)
    (hlayout : b'.kernel.layout = b.kernel.layout)
    (hidle : (b'.harts 0).stage.booting = true → b'.kernel.idleProc ≠ 0 ∧
      b'.kernel.idleProc < I.layout.kernelEnd + vaOffsetConst)
    (hmem : MemoryAt I m b'.kernel (b'.harts 0).stage)
    (hready : b'.allocatorReady = (b'.harts 0).stage.published)
    (hi : Progress I b' i (b'.harts i) (b'.harts i).stage) : BootInv I m b' := by
  refine ⟨hlayout.trans h.layout, hidle, hmem, hready, fun j => ?_⟩
  by_cases hj : j = i
  · rwa [hj]
  · rw [hharts j hj]
    refine (h.harts j).frame (hids j hj) hmono fun hor => hkp (hor.imp ?_ id)
    rintro rfl
    exact Ne.symm hj

/-- A step of a hart on its own: for hart 0 the stage says the same of memory as before. -/
theorem BootInv.setHart (h : BootInv I m b) {ids : Nat → Nat} {c : BootHart}
    (hids : ∀ j ≠ i, ids j = b.ids j)
    (h0 : i = 0 → (b.harts 0).stage.booting = true ∧
      c.stage.published = (b.harts 0).stage.published ∧ MemoryAt I m b.kernel c.stage)
    (hi : Progress I { b with ids := ids } i c c.stage) :
    BootInv I m ({ b with ids := ids }.setHart i c) := by
  have hprogress : Progress I ({ b with ids := ids }.setHart i c) i c c.stage :=
    hi.frame rfl id fun _ => rfl
  by_cases hi0 : i = 0
  · subst hi0
    obtain ⟨hbooting, hpub, hmem⟩ := h0 rfl
    refine h.update hids (fun j hj => Boot.setHart_of_ne hj) id (fun _ => rfl) rfl
      (fun _ => h.idle hbooting) ?_ ?_ ?_
    · rw [Boot.setHart_self]
      exact hmem
    · rw [Boot.setHart_self, hpub]
      exact h.ready
    · rwa [Boot.setHart_self]
  · have hzero : ({ b with ids := ids }.setHart i c).harts 0 = b.harts 0 :=
      Boot.setHart_of_ne (Ne.symm hi0)
    refine h.update hids (fun j hj => Boot.setHart_of_ne hj) id (fun _ => rfl) rfl ?_ ?_ ?_ ?_
    · rw [hzero]
      exact h.idle
    · rw [hzero]
      exact h.memory
    · rw [hzero]
      exact h.ready
    · rwa [Boot.setHart_self]

/-- A step of hart 0 that changes what the harts share. -/
theorem BootInv.setKernel (h : BootInv I m b) {ready : Bool}
    (hmono : b.allocatorReady = true → ready = true)
    (hkp : b.allocatorReady = true → k.kernelPagetable = b.kernel.kernelPagetable)
    (hlayout : k.layout = b.kernel.layout)
    (hidle : c.stage.booting = true → k.idleProc ≠ 0 ∧
      k.idleProc < I.layout.kernelEnd + vaOffsetConst)
    (hmem : MemoryAt I m k c.stage) (hready : ready = c.stage.published)
    (hi : Progress I { b with kernel := k, allocatorReady := ready } 0 c c.stage) :
    BootInv I m ({ b with kernel := k, allocatorReady := ready }.setHart 0 c) := by
  have hprogress : Progress I ({ b with kernel := k, allocatorReady := ready }.setHart 0 c) 0 c c.stage :=
    hi.frame rfl id fun _ => rfl
  refine h.update (fun _ _ => rfl) (fun j hj => Boot.setHart_of_ne hj) hmono
    (fun hor => hkp (hor.resolve_left fun hne => hne rfl)) hlayout ?_ ?_ ?_ ?_
  all_goals rwa [Boot.setHart_self]

/-- One of the calls of `mm_init`. -/
theorem BootInv.inMmInit (h : BootInv I m b) (hbooting : (b.harts 0).stage.booting = true)
    (hunready : (b.harts 0).stage.published = false) (hlayout : k.layout = b.kernel.layout)
    (hidle : k.idleProc = b.kernel.idleProc) (hmem : MemoryAt I m k c.stage)
    (hpub : c.stage.published = false) (hi : Progress I (b.setKernel k) 0 c c.stage) :
    BootInv I m ((b.setKernel k).setHart 0 c) := by
  have hready : b.allocatorReady = false := h.ready.trans hunready
  refine h.setKernel id ?_ hlayout ?_ hmem (hready.trans hpub.symm) hi
  · rw [hready]
    exact fun hc => absurd hc (by decide)
  · rw [hidle]
    exact fun _ => h.idle hbooting

/-- One that changes the page allocator only. -/
theorem BootInv.setMm {mm : Mm} {s : Stage} (h : BootInv I m b)
    (hbooting : (b.harts 0).stage.booting = true) (hunready : (b.harts 0).stage.published = false)
    (hmem : MemoryAt I m (b.kernel.setMm mm) s) (hpub : s.published = false)
    (hi : Progress I b 0 { b.harts 0 with stage := s } s) :
    BootInv I m ((b.setKernel (b.kernel.setMm mm)).next 0 s) :=
  h.inMmInit hbooting hunready rfl rfl hmem hpub (hi.frame rfl id fun _ => rfl)

/-- The last of them: `mm_init` has been done. -/
theorem BootInv.toReady {mm : Mm} (h : BootInv I m b) (hstage : (b.harts 0).stage = .vaOffset)
    (hall : mmInit I.layout m = .ok (b.kernel.kernelPagetable, { b.kernel.snub with mm := mm }))
    (hsatp : (b.harts 0).satp = makeSatp b.kernel.kernelPagetable) (hstart : InStart I b 0 (b.harts 0)) :
    BootInv I m ((b.setKernel (b.kernel.setMm mm)).next 0 .ready) :=
  h.setMm (by rw [hstage]; rfl) (by rw [hstage]; rfl) hall rfl
    ⟨rfl, hsatp, hstart.mode, hstart.sp, hstart.tp, hstart.id⟩

/-! ### The control registers -/

theorem mppOf_delegated (mstatus : Nat) :
    mppOf (((mstatus &&& (2 ^ 64 - 1 - mstatusMppMask)) ||| mstatusMppSMode) ||| sstatusSie) =
      .supervisor := by
  have hclear : (mstatus &&& (2 ^ 64 - 1 - mstatusMppMask)) &&& mstatusMppMask = 0 := by
    rw [Nat.and_assoc]
    exact Nat.and_zero mstatus
  rw [mppOf, Nat.and_or_distrib_right, Nat.and_or_distrib_right, hclear]
  rfl

/-- The interrupts that `start` enables stay enabled in its `mret`. -/
theorem mretStatus_sie (mstatus : Nat) : mretStatus mstatus &&& sstatusSie = mstatus &&& sstatusSie := by
  have hmpie : ((mstatus &&& mstatusMpie) >>> 4) &&& sstatusSie = 0 := by
    rw [Nat.shiftRight_and_distrib, Nat.and_assoc]
    exact Nat.and_zero _
  rw [mretStatus, Nat.and_or_distrib_right, Nat.and_or_distrib_right, hmpie, Nat.and_assoc]
  simp

/-- `set_csr` sets the bits it is given. -/
theorem set_and_self (x y : Nat) : (x ||| y) &&& y = y := by
  apply Nat.eq_of_testBit_eq
  intro i
  rw [Nat.testBit_and, Nat.testBit_or]
  cases y.testBit i with
  | false => rw [Bool.and_false]
  | true => rw [Bool.or_true, Bool.and_true]

/-- The writes of the control registers. -/
theorem Delegated.of_inStart (h : InStart I b i c) : Delegated I b i (c.delegate I i) where
  sp := by rw [← h.sp]; rfl
  tp := rfl
  id := h.id
  stvec := rfl
  medeleg := ⟨rfl, rfl⟩
  sie := by
    refine ⟨?_, ?_⟩
    · change (_ ||| sstatusSie) &&& sstatusSie ≠ 0
      rw [set_and_self]
      decide
    · change (c.sie ||| sieStie) &&& sieStie ≠ 0
      rw [set_and_self]
      decide

theorem Delegated.mret (h : Delegated I b i c) : Delegated I b i c.mret where
  sp := h.sp
  tp := h.tp
  id := h.id
  stvec := h.stvec
  medeleg := h.medeleg
  sie := ⟨by rw [BootHart.mret, mretStatus_sie]; exact h.sie.1, h.sie.2⟩

/-! ### `s_mode_main` on hart 0 -/

/-- Hart 0 changes the kernel, but not its table. -/
theorem BootInv.inSMode {s : Stage} (h : BootInv I m b) (hrest : s.booting = false)
    (hmem : MemoryAt I m k s) (hlayout : k.layout = b.kernel.layout)
    (hkp : k.kernelPagetable = b.kernel.kernelPagetable)
    (hleft : HasLeft I b 0 (b.harts 0)) : BootInv I m ((b.setKernel k).next 0 s) := by
  have hidle : s.booting = true → k.idleProc ≠ 0 ∧ k.idleProc < I.layout.kernelEnd + vaOffsetConst := by
    rw [hrest]
    exact fun hc => absurd hc (by decide)
  have hdel := hleft.delegated
  have hdel' : Delegated I (b.setKernel k) 0 { b.harts 0 with stage := s } :=
    ⟨hdel.sp, hdel.tp, hdel.id, hdel.stvec, hdel.medeleg, hdel.sie⟩
  have htable' : HasTable (b.setKernel k) { b.harts 0 with stage := s } :=
    ⟨hleft.table.satp.trans (congrArg makeSatp hkp.symm), hleft.table.ready⟩
  cases s with
  | processes ps | running ps =>
      exact h.setKernel id (fun _ => hkp) hlayout hidle hmem hleft.table.ready
        ⟨rfl, hleft.mode, hleft.pc, hdel', htable'⟩
  | _ => cases hrest

namespace Kernel

theorem setupHart_kernelPagetable {stack now : Nat} :
    (k.setupHart stack now).kernelPagetable = k.kernelPagetable := by
  unfold setupHart setupIdleProc
  dsimp only
  split
  · rfl
  · rfl

theorem setupHart_layout {stack now : Nat} : (k.setupHart stack now).layout = k.layout := by
  unfold setupHart setupIdleProc
  dsimp only
  split
  · rfl
  · rfl

/-- The timer does not matter for what comes. -/
theorem Entered.writeStimecmp {L : Layout} (h : k.Entered L m) (v : Nat) :
    (k.writeStimecmp v).Entered L m :=
  ⟨h.layout, h.memory, h.idle⟩

theorem Entered.populated {L : Layout} {stack now : Nat} (h : k.Entered L m) :
    (k.setupHart stack now).Populated L m stack [] := by
  have hswap : ∀ v, k.initQueues.writeStimecmp v = (k.writeStimecmp v).initQueues := fun _ => rfl
  rw [setupHart, timerInit, hswap]
  exact .boot (h.writeStimecmp _)

end Kernel

/-! ### The run -/

/-- The calls of `mm_init` one after the other are `mm_init`. -/
theorem mmInit_calls {L : Layout} {kp : Nat} {s s' : Mm} {S : Snub}
    (hinit : buddyAllocatorInit L m = .ok (kp, s)) (hmap : setupKernelPagetable L kp s = .ok s')
    (hsnub : S = Snub.snubInit s') :
    mmInit L m = .ok (kp, { S with mm := { S.mm with vaOffset := vaOffsetConst } }) := by
  rw [mmInit, hinit, ok_bind, hsnub]
  simp only [hmap, ok_bind, pure, Except.pure]

/-- **Step lemma.** -/
theorem BootInv.step (h : BootInv I m b) (hstep : BootStep I m i b b') : BootInv I m b' := by
  have hp := h.harts i
  have hmem := h.memory
  cases hstep with
  | entry hstage =>
      rw [hstage] at hp
      refine h.setHart (fun _ _ => rfl) ?_ ⟨hp.1, hp.2, rfl⟩
      rintro rfl
      rw [hstage]
      exact ⟨rfl, rfl, trivial⟩
  | start hstage =>
      rw [hstage] at hp
      obtain ⟨hmode, hsatp, hsp⟩ := hp
      have hstart : InStart I { b with ids := Function.update b.ids i i } i ((b.harts i).takeCpu I i) :=
        ⟨hmode, hsp, rfl, Function.update_self ..⟩
      refine h.setHart (fun j hj => Function.update_of_ne hj ..) ?_ ?_
      · rintro rfl
        rw [hstage]
        exact ⟨rfl, rfl, trivial⟩
      · by_cases hi : i = 0
        · have hnext : ((b.harts i).takeCpu I i).stage = .buddyInit := if_pos hi
          rw [hnext]
          exact ⟨hi, hsatp, hstart⟩
        · have hnext : ((b.harts i).takeCpu I i).stage = .wait := if_neg hi
          rw [hnext]
          exact ⟨hi, hsatp, hstart⟩
  | buddyInit hstage hcall =>
      rw [hstage] at hp
      obtain ⟨rfl, hsatp, hstart⟩ := hp
      exact h.inMmInit (by rw [hstage]; rfl) (by rw [hstage]; rfl) rfl rfl hcall rfl
        ⟨rfl, hsatp, hstart.mode, hstart.sp, hstart.tp, hstart.id⟩
  | mapKernel hstage hcall =>
      rw [hstage] at hp
      obtain ⟨rfl, hsatp, hstart⟩ := hp
      rw [hstage] at hmem
      exact h.setMm (by rw [hstage]; rfl) (by rw [hstage]; rfl) ⟨_, hmem, hcall⟩ rfl
        ⟨rfl, hsatp, hstart.mode, hstart.sp, hstart.tp, hstart.id⟩
  | loadTable hstage =>
      rw [hstage] at hp
      obtain ⟨rfl, -, hstart⟩ := hp
      rw [hstage] at hmem
      exact h.inMmInit (by rw [hstage]; rfl) (by rw [hstage]; rfl) rfl rfl hmem rfl
        ⟨rfl, rfl, hstart.mode, hstart.sp, hstart.tp, hstart.id⟩
  | snubInit hstage =>
      rw [hstage] at hp
      obtain ⟨rfl, hsatp, hstart⟩ := hp
      rw [hstage] at hmem
      obtain ⟨s, hinit, hmap⟩ := hmem
      exact h.inMmInit (by rw [hstage]; rfl) (by rw [hstage]; rfl) rfl rfl ⟨s, _, hinit, hmap, rfl⟩ rfl
        ⟨rfl, hsatp, hstart.mode, hstart.sp, hstart.tp, hstart.id⟩
  | vaOffset hstage =>
      rw [hstage] at hp
      obtain ⟨rfl, hsatp, hstart⟩ := hp
      rw [hstage] at hmem
      obtain ⟨s, s', hinit, hmap, hsnub⟩ := hmem
      exact h.toReady hstage (mmInit_calls hinit hmap hsnub) hsatp hstart
  | ready hstage =>
      rw [hstage] at hp
      obtain ⟨rfl, hsatp, hstart⟩ := hp
      rw [hstage] at hmem
      exact h.setKernel (fun _ => rfl) (fun _ => rfl) rfl (fun _ => h.idle (by rw [hstage]; rfl)) hmem rfl
        ⟨⟨hstart.mode, hstart.sp, hstart.tp, hstart.id⟩, hsatp, rfl⟩
  | spin hstage hready => exact h
  | wait hstage hready =>
      rw [hstage] at hp
      obtain ⟨hi, hsatp, hstart⟩ := hp
      exact h.setHart (fun _ _ => rfl) (fun h0 => absurd h0 hi)
        ⟨hi, hsatp, ⟨hstart.mode, hstart.sp, hstart.tp, hstart.id⟩, hready⟩
  | load hstage =>
      rw [hstage] at hp
      obtain ⟨hi, -, hstart, hready⟩ := hp
      exact h.setHart (fun _ _ => rfl) (fun h0 => absurd h0 hi)
        ⟨⟨hstart.mode, hstart.sp, hstart.tp, hstart.id⟩, rfl, hready⟩
  | delegate hstage =>
      rw [hstage] at hp
      obtain ⟨hstart, htable⟩ := hp
      refine h.setHart (fun _ _ => rfl) ?_
        ⟨hstart.mode, mppOf_delegated _, rfl, .of_inStart hstart, htable.satp, htable.ready⟩
      rintro rfl
      rw [hstage] at hmem ⊢
      exact ⟨rfl, rfl, hmem⟩
  | drop hstage =>
      rw [hstage] at hp
      obtain ⟨-, hmpp, hmepc, hdel, htable⟩ := hp
      refine h.setHart (fun _ _ => rfl) ?_ ⟨hmpp, hmepc, hdel.mret, htable.satp, htable.ready⟩
      rintro rfl
      rw [hstage] at hmem ⊢
      exact ⟨rfl, rfl, hmem⟩
  | queues hstage hi =>
      rw [hstage] at hp
      subst hi
      rw [hstage] at hmem
      have hentered : b.kernel.Entered I.layout m := ⟨h.layout, hmem, h.idle (by rw [hstage]; rfl)⟩
      exact h.inSMode rfl hentered.populated Kernel.setupHart_layout Kernel.setupHart_kernelPagetable hp
  | create hstage hsize hcall hp0 =>
      rw [hstage] at hp
      obtain ⟨rfl, hleft⟩ := hp
      rw [hstage] at hmem
      obtain ⟨-, -, live, taken, given, fl, hsep⟩ := Kernel.Populated.separated hmem
      obtain ⟨-, -, hlayout, hkp, -⟩ := hsep.create hsize hcall hp0
      exact h.inSMode rfl (Kernel.Populated.create hmem hsize hcall hp0) hlayout hkp hleft
  | @shell ps shell k hstage hshell hcall =>
      rw [hstage] at hp
      obtain ⟨rfl, hleft⟩ := hp
      rw [hstage] at hmem
      have hquiet : Kernel.Quiet shell b.kernel k.jumpToUserShell :=
        (Kernel.makeCurrent_quiet hcall).trans Kernel.jumpToUserShell_quiet
      exact h.inSMode rfl (Kernel.SystemRun.start hmem hshell hcall) hquiet.layout
        hquiet.kernelPagetable hleft
  | run hstage hstep =>
      rw [hstage] at hp
      obtain ⟨rfl, hleft⟩ := hp
      rw [hstage] at hmem
      obtain ⟨-, live, taken, given, fl, hinv⟩ := Kernel.SystemRun.inv hmem
      obtain ⟨hs, -⟩ := hstep.serves hinv
      exact h.inSMode rfl (Kernel.SystemRun.step hmem hstep) hs.layout hs.kernelPagetable hleft

/-- **Run lemma.** -/
theorem BootRun.inv (h : BootRun I m b) : BootInv I m b := by
  induction h with
  | @reset b hidle h =>
      refine ⟨h.layout, fun _ => hidle, ?_, ?_, fun i => ?_⟩
      · rw [(h.harts 0).1]
        trivial
      · rw [(h.harts 0).1]
        exact h.allocatorReady
      · rw [(h.harts i).1]
        exact (h.harts i).2
  | step h hi hstep ih => exact ih.step hstep

/-! ### All harts get there -/

/-- The steps that a hart has left before it is in S-mode. -/
def Stage.left : Stage → Nat
  | .entry => 10
  | .start => 9
  | .buddyInit => 8
  | .mapKernel => 7
  | .loadTable => 6
  | .snubInit => 5
  | .vaOffset => 4
  | .ready => 3
  | .wait => 4
  | .load => 3
  | .delegate => 2
  | .drop => 1
  | .supervisor | .processes _ | .running _ => 0

def Boot.left (b : Boot) : Nat := ∑ i ∈ Finset.range ncpu, (b.harts i).stage.left

/-- A hart that goes on brings all harts further. -/
theorem Boot.left_lt (hi : i < ncpu) (hharts : ∀ j ≠ i, b'.harts j = b.harts j)
    (hlt : (b'.harts i).stage.left < (b.harts i).stage.left) : b'.left < b.left := by
  refine Finset.sum_lt_sum (fun j hj => ?_) ⟨i, Finset.mem_range.mpr hi, hlt⟩
  by_cases hij : j = i
  · rw [hij]
    exact hlt.le
  · rw [hharts j hij]

/-- A hart that is not made to wait has a step. -/
theorem BootInv.advance {r : Nat × Snub} (h : BootInv I m b) (hinit : mmInit I.layout m = .ok r)
    (hi : i < ncpu) (hleft : 0 < (b.harts i).stage.left)
    (hgate : (b.harts i).stage = .wait → b.allocatorReady = true) :
    ∃ b', BootStep I m i b b' ∧ b'.left < b.left := by
  have hnext : ∀ {k : Kernel} {ids : Nat → Nat} {ready : Bool} {c : BootHart} {s : Stage} (s' : Stage),
      (b.harts i).stage = s → c.stage = s' → s'.left < s.left →
        (Boot.setHart ⟨ready, k, ids, b.harts⟩ i c).left < b.left := fun s' hs hs' hlt =>
    Boot.left_lt hi (fun j hj => Boot.setHart_of_ne hj) (by rwa [Boot.setHart_self, hs, hs'])
  have hp := h.harts i
  have hmem := h.memory
  obtain ⟨s, s', hbuddy, hmap, -⟩ := mmInit_eq_ok hinit
  cases hstage : (b.harts i).stage with
  | entry => exact ⟨_, .entry hstage, hnext .start hstage rfl (by decide)⟩
  | start =>
      refine ⟨_, .start hstage, hnext (if i = 0 then .buddyInit else .wait) hstage rfl ?_⟩
      split
      · decide
      · decide
  | buddyInit => exact ⟨_, .buddyInit hstage hbuddy, hnext .mapKernel hstage rfl (by decide)⟩
  | mapKernel =>
      rw [hstage] at hp
      obtain ⟨rfl, -⟩ := hp
      rw [hstage] at hmem
      obtain ⟨hkp, hmm⟩ := Prod.mk.inj (Except.ok.inj (hbuddy.symm.trans hmem))
      have hcall : setupKernelPagetable I.layout b.kernel.kernelPagetable b.kernel.mm = .ok s' := by
        rw [← hkp, ← hmm]
        exact hmap
      exact ⟨_, .mapKernel hstage hcall, hnext .loadTable hstage rfl (by decide)⟩
  | loadTable => exact ⟨_, .loadTable hstage, hnext .snubInit hstage rfl (by decide)⟩
  | snubInit => exact ⟨_, .snubInit hstage, hnext .vaOffset hstage rfl (by decide)⟩
  | vaOffset => exact ⟨_, .vaOffset hstage, hnext .ready hstage rfl (by decide)⟩
  | ready => exact ⟨_, .ready hstage, hnext .delegate hstage rfl (by decide)⟩
  | wait => exact ⟨_, .wait hstage (hgate hstage), hnext .load hstage rfl (by decide)⟩
  | load => exact ⟨_, .load hstage, hnext .delegate hstage rfl (by decide)⟩
  | delegate => exact ⟨_, .delegate hstage, hnext .drop hstage rfl (by decide)⟩
  | drop => exact ⟨_, .drop hstage, hnext .supervisor hstage rfl (by decide)⟩
  | _ =>
      rw [hstage] at hleft
      exact absurd hleft (Nat.lt_irrefl 0)

/-- Hart 0 never waits, and when it is in S-mode the others do not wait either. -/
theorem BootInv.exists_advance {r : Nat × Snub} (h : BootInv I m b)
    (hinit : mmInit I.layout m = .ok r) (hi : i < ncpu) (hleft : 0 < (b.harts i).stage.left) :
    ∃ j < ncpu, ∃ b', BootStep I m j b b' ∧ b'.left < b.left := by
  by_cases hzero : (b.harts 0).stage.left = 0
  · refine ⟨i, hi, h.advance hinit hi hleft fun _ => ?_⟩
    rw [h.ready]
    cases hstage : (b.harts 0).stage with
    | supervisor | processes ps | running ps => rfl
    | _ =>
        rw [hstage] at hzero
        cases hzero
  · refine ⟨0, by decide, h.advance hinit (by decide) (Nat.pos_of_ne_zero hzero) fun hwait => ?_⟩
    have hp := h.harts 0
    rw [hwait] at hp
    exact absurd rfl hp.1

theorem BootInv.mode_of_left (h : BootInv I m b) (hleft : (b.harts i).stage.left = 0) :
    (b.harts i).mode = .supervisor := by
  have hp := h.harts i
  cases hstage : (b.harts i).stage with
  | supervisor =>
      rw [hstage] at hp
      exact hp.mode
  | processes ps | running ps =>
      rw [hstage] at hp
      exact hp.2.mode
  | _ =>
      rw [hstage] at hleft
      cases hleft

/-- The steps of all harts. -/
def BootStep.Any (I : Image) (m : Nat → UInt8) (b b' : Boot) : Prop := ∃ i < ncpu, BootStep I m i b b'

theorem BootRun.finish {r : Nat × Snub} (h : BootRun I m b) (hinit : mmInit I.layout m = .ok r) :
    ∃ b', Relation.ReflTransGen (BootStep.Any I m) b b' ∧ BootRun I m b' ∧
      ∀ i < ncpu, (b'.harts i).mode = .supervisor := by
  induction hn : b.left using Nat.strong_induction_on generalizing b with
  | _ n ih =>
      by_cases hall : ∀ i < ncpu, (b.harts i).stage.left = 0
      · exact ⟨b, .refl, h, fun i hi => h.inv.mode_of_left (hall i hi)⟩
      · push Not at hall
        obtain ⟨i, hi, hleft⟩ := hall
        obtain ⟨j, hj, b₁, hstep, hlt⟩ := h.inv.exists_advance hinit hi (Nat.pos_of_ne_zero hleft)
        obtain ⟨b', hpath, hrun, hdone⟩ := ih b₁.left (hn ▸ hlt) (h.step hj hstep) rfl
        exact ⟨b', .head ⟨j, hj, hstep⟩ hpath, hrun, hdone⟩

/-! ### A small image -/

/-- The small image, with the stacks at the start of its data. -/
def smallImage : Image where
  layout := smallLayout
  stack := 0x80002000
  cpus := 0x80006000
  trapVector := 0x80000100
  sModeMain := 0x80000200
  stack_data := by decide
  cpus_data := by decide
  trapVector_text := by decide
  sModeMain_text := by decide
  fits := by decide

/-- Its harts at `_entry`. -/
def smallReset : Boot where
  allocatorReady := false
  kernel := Kernel.bootedKernel 0 (Snub.snubInit (initStatics smallLayout fun _ => 0))
  ids _ := 0
  harts _ := ⟨.entry, .machine, 0x80000000, 0, 0, 0, 0, 0, 0, 0, 0, 0, 0, 0, 0, 0⟩

theorem smallReset_run : BootRun smallImage (fun _ => 0) smallReset := by
  have hidle : smallReset.kernel.idleProc = 0xffffffff80002000 := rfl
  refine .reset ?_ ⟨rfl, rfl, fun _ => ⟨rfl, rfl, rfl⟩⟩
  rw [hidle]
  decide

/-- **No hart is kept waiting.**  If `mm_init` does not halt, then from every state that has been
reached, in whatever order, all harts can still come to S-mode. -/
theorem BootRun.completes {r : Nat × Snub} (h : BootRun I m b) (hinit : mmInit I.layout m = .ok r) :
    ∃ b', Relation.ReflTransGen (BootStep.Any I m) b b' ∧
      ∀ i < ncpu, (b'.harts i).mode = .supervisor := by
  obtain ⟨b', hpath, -, hdone⟩ := h.finish hinit
  exact ⟨b', hpath, hdone⟩

/-- The four harts of the small image come to S-mode. -/
theorem BootRun.completes_smallImage :
    ∃ b', Relation.ReflTransGen (BootStep.Any smallImage fun _ => 0) smallReset b' ∧
      ∀ i < ncpu, (b'.harts i).mode = .supervisor := by
  obtain ⟨kp, S, hS, -⟩ := exists_boot_smallLayout
  exact BootRun.completes smallReset_run hS

/-! ### Where a hart finds itself -/

namespace BootHart

/-- The table behind `satp`. -/
def root (c : BootHart) : Nat := (c.satp &&& 0xFFFFFFFFFFF) <<< pageShift

end BootHart

/-- The table that the harts have loaded is finished. -/
theorem BootInv.table (h : BootInv I m b) (hready : b.allocatorReady = true) :
    IsPage b.kernel.kernelPagetable ∧
      ∀ va, b.kernel.mm.translate b.kernel.kernelPagetable va = kernelTranslate I.layout va := by
  have hmem := h.memory
  have hpub := h.ready.symm.trans hready
  have hsep : ∀ {ps live taken given fl}, b.kernel.Separated ps live taken given fl →
      IsPage b.kernel.kernelPagetable ∧
        ∀ va, b.kernel.mm.translate b.kernel.kernelPagetable va = kernelTranslate I.layout va := by
    intro ps live taken given fl hs
    refine ⟨hs.isolated.owned.tables.page _ ⟨none, [], by decide, rfl⟩, fun va => ?_⟩
    rw [hs.translate_kernel, h.layout]
  cases hstage : (b.harts 0).stage with
  | delegate | drop | supervisor =>
      rw [hstage] at hmem
      obtain ⟨tabs, hi⟩ := (KernelRun.boot hmem).inv
      exact ⟨hi.tables.page _ ⟨(), [], by decide, rfl⟩, KernelRun.translate_exact (.boot hmem)⟩
  | processes ps =>
      rw [hstage] at hmem
      obtain ⟨-, -, live, taken, given, fl, hs⟩ := Kernel.Populated.separated hmem
      exact hsep hs
  | running ps =>
      rw [hstage] at hmem
      obtain ⟨-, live, taken, given, fl, hs⟩ := Kernel.SystemRun.inv hmem
      exact hsep hs.toSeparated
  | _ =>
      rw [hstage] at hpub
      cases hpub

theorem HasTable.root (h : HasTable b c) (hpage : IsPage b.kernel.kernelPagetable) :
    c.root = b.kernel.kernelPagetable :=
  Kernel.satpRoot_eq (k := b.kernel.writeSatp c.satp) h.satp hpage

end SystemN
