/-
What `trap_vector` saves and gives back.

The entry reads `scause` and `sstatus` into `t1` and `t0` before it has saved them,
and the exit looks at `sstatus` through `t0` after it has restored it.  So those two
registers come back with values of the trap, and all the others with their own.
-/
import SystemN.TrapVec

namespace SystemN.TrapVec

open RiscV

variable {m c : Machine} {f : Word}

/-- The registers of the bulk save: all but `x0` and `sp`. -/
def saved : List Reg :=
  [1, 3, 4, 5, 6, 7, 8, 9, 10, 11, 12, 13, 14, 15, 16, 17, 18, 19, 20, 21, 22, 23, 24, 25, 26, 27,
    28, 29, 30, 31]

theorem mem_saved {r : Reg} : r ∈ saved ↔ r ≠ 0 ∧ r ≠ sp := by
  revert r
  decide

/-- The stores between the bulk save and the call. -/
def saveCsrs : List (Instr Label) :=
  [.csrr t0 .sepc, .sd t0 256 sp, .csrr t0 .sstatus, .sd t0 264 sp, .sd t1 272 sp, .csrr t0 .stval,
    .sd t0 280 sp, .mv a0 sp]

/-- The loads between the bulk load and the last branch. -/
def restoreCsrs : List (Instr Label) :=
  [.ld t0 256 sp, .csrw .sepc t0, .ld t0 264 sp, .csrw .sstatus t0, .csrr t0 .sstatus,
    .andi t0 t0 0x100#64]

/-- The exits, by the mode the trap came from. -/
def exits : List (Instr Label) :=
  [.bnez t0 .restoreKernelStack, .ld sp 16 sp, .sret, .label .restoreKernelStack,
    .addi sp sp 288#64, .sret]

theorem target_saveRegs : target .saveRegs trapVector =
    saves sp saved ++ (saveCsrs ++ .call :: (loads sp saved ++ (restoreCsrs ++ exits))) := rfl

/-! ### The way in -/

/-- The state at `.save_regs`, with the frame at `f`. -/
structure Saving (m : Machine) (f : Word) (s : Machine) : Prop where
  sp : s.get sp = f
  t1 : s.get t1 = m.csrs .scause
  regs : ∀ r, r ≠ TrapVec.sp → r ≠ t0 → r ≠ TrapVec.t1 → s.get r = m.get r
  csrs : s.csrs = m.csrs
  userSp : m.csrs .sstatus &&& spp = 0 → s.mem (f + 16#64) = m.get TrapVec.sp

/-- The frame of a trap: `sscratch` from user mode, below the stack pointer otherwise. -/
def frameOf (m : Machine) : Word :=
  if m.csrs .sstatus &&& spp = 0 then m.csrs .sscratch else m.get sp + (-288#64)

/-- The instructions before the first branch. -/
def testMode : List (Instr Label) := [.csrr t1 .scause, .csrr t0 .sstatus, .andi t0 t0 0x100#64]

/-- The entries, up to `.save_regs`. -/
def entryUser : List (Instr Label) := [.csrr t0 .sscratch, .sd sp 16 t0, .mv sp t0]
def entryKernel : List (Instr Label) := [.addi sp sp (-288#64), .label .saveRegs]

theorem trapVector_eq : trapVector =
    testMode ++ (.beqz t0 .fromUser :: .j .fromKernel :: trapVector.drop 5) := rfl

theorem target_fromUser : target .fromUser trapVector =
    entryUser ++ (.j .saveRegs :: trapVector.drop 10) := rfl

theorem target_fromKernel : target .fromKernel trapVector =
    entryKernel ++ target .saveRegs trapVector := rfl

/-- **The two entries**: one from user mode, one from the kernel. -/
theorem enter_saving (m : Machine) :
    ∃ s fuel, enter m = exec trapVector fuel (target .saveRegs trapVector) s ∧ 80 ≤ fuel ∧
      Saving m (frameOf m) s := by
  let m₁ := ((m.set t1 (m.csrs .scause)).set t0 (m.csrs .sstatus)).set t0 (m.csrs .sstatus &&& spp)
  have hm₁ : enter m = exec trapVector 96
      (if m.csrs .sstatus &&& spp = 0 then target .fromUser trapVector
        else .j .fromKernel :: trapVector.drop 5) m₁ := by
    have hfuel : trapFuel = testMode.length + (96 + 1) := rfl
    have hget : (testMode.foldl Instr.step m).get t0 = m.csrs .sstatus &&& spp := rfl
    unfold enter
    nth_rewrite 2 [trapVector_eq]
    rw [hfuel, exec_straight (by decide), exec_beqz, hget]
    rfl
  have hget : ∀ r, r ≠ t0 → r ≠ t1 → m₁.get r = m.get r := by
    intro r h0 h1
    rw [Machine.get_set_of_ne h0, Machine.get_set_of_ne h0, Machine.get_set_of_ne h1]
  by_cases hspp : m.csrs .sstatus &&& spp = 0
  · have hfuel : 96 = entryUser.length + (92 + 1) := rfl
    rw [if_pos hspp, target_fromUser, hfuel, exec_straight (by decide), exec_j] at hm₁
    refine ⟨_, _, hm₁, by norm_num, ?_⟩
    rw [frameOf, if_pos hspp]
    refine ⟨rfl, rfl, ?_, rfl, fun _ => Function.update_self ..⟩
    intro r hsp h0 h1
    have : (entryUser.foldl Instr.step m₁).get r = (m₁.set t0 (m.csrs .sscratch)).get r :=
      Machine.get_set_of_ne hsp
    rw [this, Machine.get_set_of_ne h0]
    exact hget r h0 h1
  · have hfuel : 95 = entryKernel.length + 93 := rfl
    rw [if_neg hspp, show 96 = 95 + 1 from rfl, exec_j, target_fromKernel, hfuel,
      exec_straight (by decide)] at hm₁
    refine ⟨_, _, hm₁, by norm_num, ?_⟩
    rw [frameOf, if_neg hspp]
    refine ⟨rfl, rfl, ?_, rfl, fun h => absurd h hspp⟩
    intro r hsp h0 h1
    have : (entryKernel.foldl Instr.step m₁).get r = m₁.get r := Machine.get_set_of_ne hsp
    rw [this]
    exact hget r h0 h1

/-- The state at the call, with the frame at `f`. -/
structure Called (m : Machine) (f : Word) (c : Machine) : Prop where
  a0 : c.get TrapVec.a0 = f
  sp : c.get TrapVec.sp = f
  regs : ∀ r, r ≠ TrapVec.sp → r ≠ t0 → r ≠ t1 → r ≠ TrapVec.a0 → c.get r = m.get r
  slots : ∀ r, r ≠ 0 → r ≠ TrapVec.sp → r ≠ t0 → r ≠ t1 →
    c.mem (f + BitVec.ofNat 64 (8 * r)) = m.get r
  t1Slot : c.mem (f + 48#64) = m.csrs .scause
  sepcSlot : c.mem (f + 256#64) = m.csrs .sepc
  sstatusSlot : c.mem (f + 264#64) = m.csrs .sstatus
  userSp : m.csrs .sstatus &&& spp = 0 → c.mem (f + 16#64) = m.get TrapVec.sp

/-- The code behind the call. -/
def leaveCode : List (Instr Label) := loads sp saved ++ (restoreCsrs ++ exits)

theorem saveCsrs_spec {s : Machine} (hsp : s.get sp = f) :
    let c := saveCsrs.foldl Instr.step s
    c.get a0 = f ∧ (∀ r, r ≠ t0 → r ≠ a0 → c.get r = s.get r) ∧
      c.mem (f + 256#64) = s.csrs .sepc ∧ c.mem (f + 264#64) = s.csrs .sstatus ∧
      ∀ n < 256, c.mem (f + BitVec.ofNat 64 n) = s.mem (f + BitVec.ofNat 64 n) := by
  let s₁ := (s.set t0 (s.csrs .sepc)).store (f + 256#64) (s.csrs .sepc)
  let s₂ := (s₁.set t0 (s.csrs .sstatus)).store (f + 264#64) (s.csrs .sstatus)
  let s₃ := (s₂.store (f + 272#64) (s.get t1)).set t0 (s.csrs .stval)
  let s₄ := (s₃.store (f + 280#64) (s.csrs .stval)).set a0 f
  have hfold : saveCsrs.foldl Instr.step s = s₄ := by
    simp [saveCsrs, Instr.step, Machine.addr, Machine.get_set, hsp, s₁, s₂, s₃, s₄]
  have hne : ∀ n k, n < 280 → k < 2 ^ 64 → n ≠ k →
      f + BitVec.ofNat 64 n ≠ f + BitVec.ofNat 64 k := by
    intro n k hn hk hnk
    exact addr_ne (by omega) hk hnk
  have hs₄ : s₄.mem = Function.update (Function.update (Function.update (Function.update s.mem
      (f + 256#64) (s.csrs .sepc)) (f + 264#64) (s.csrs .sstatus)) (f + 272#64) (s.get t1))
      (f + 280#64) (s.csrs .stval) := rfl
  rw [hfold]
  refine ⟨rfl, ?_, ?_, ?_, ?_⟩
  · intro r h0 ha
    simp only [s₄, s₃, s₂, s₁, Machine.get_set_of_ne ha, Machine.store_get, Machine.get_set_of_ne h0]
  · rw [hs₄, Function.update_of_ne (hne 256 280 (by omega) (by omega) (by omega)),
      Function.update_of_ne (hne 256 272 (by omega) (by omega) (by omega)),
      Function.update_of_ne (hne 256 264 (by omega) (by omega) (by omega)), Function.update_self]
  · rw [hs₄, Function.update_of_ne (hne 264 280 (by omega) (by omega) (by omega)),
      Function.update_of_ne (hne 264 272 (by omega) (by omega) (by omega)), Function.update_self]
  · intro n hn
    rw [hs₄, Function.update_of_ne (hne n 280 (by omega) (by omega) (by omega)),
      Function.update_of_ne (hne n 272 (by omega) (by omega) (by omega)),
      Function.update_of_ne (hne n 264 (by omega) (by omega) (by omega)),
      Function.update_of_ne (hne n 256 (by omega) (by omega) (by omega))]

theorem enter_called (m : Machine) :
    ∃ c, enter m = .call c leaveCode ∧ Called m (frameOf m) c := by
  obtain ⟨s, fuel, henter, hfuel, hs⟩ := enter_saving m
  obtain ⟨fuel, rfl⟩ : ∃ n, fuel = (saves sp saved : List (Instr Label)).length +
      (saveCsrs.length + (n + 1)) := by
    refine ⟨fuel - 39, ?_⟩
    simp only [saves, List.length_map, saved, saveCsrs, List.length_cons, List.length_nil]
    omega
  rw [target_saveRegs, exec_straight saves_straight, exec_straight (by decide), exec_call] at henter
  obtain ⟨hget, hcsrs, -, hslot, hframe⟩ := saves_spec (ι := Label) sp saved s
  refine ⟨_, henter, ?_⟩
  generalize (saves sp saved : List (Instr Label)).foldl Instr.step s = s₁ at *
  have hsp : s₁.get sp = frameOf m := (hget sp).trans hs.sp
  obtain ⟨ha0, hregs, hsepc, hsstatus, hlow⟩ := saveCsrs_spec hsp
  have haddr : ∀ n, s.addr n sp = frameOf m + BitVec.ofNat 64 n := fun n => by
    rw [Machine.addr, hs.sp]
  simp only [haddr] at hslot hframe
  refine ⟨ha0, ?_, ?_, ?_, ?_, ?_, ?_, ?_⟩
  · exact (hregs sp (by decide) (by decide)).trans hsp
  · intro r h2 h0 h1 ha
    exact (hregs r h0 ha).trans ((hget r).trans (hs.regs r h2 h0 h1))
  · intro r hz h2 h0 h1
    rw [hlow _ (by omega), hslot r (mem_saved.mpr ⟨hz, h2⟩)]
    exact hs.regs r h2 h0 h1
  · refine (hlow 48 (by norm_num)).trans ?_
    exact (hslot t1 (mem_saved.mpr ⟨by decide, by decide⟩)).trans hs.t1
  · rw [hsepc, hcsrs, hs.csrs]
  · rw [hsstatus, hcsrs, hs.csrs]
  · intro hspp
    have hne : ∀ r ∈ saved, 8 * r.val ≠ 16 := by decide
    exact (hlow 16 (by norm_num)).trans ((hframe 16 (by norm_num) hne).trans (hs.userSp hspp))

/-! ### The way out -/

/-- A `trap_handler` that obeys the calling convention and leaves the saved frame, which is at
`a0`, as it was. -/
structure Obeys (handler : Machine → Machine) : Prop where
  calleeSaved : ∀ c, ∀ r ∈ calleeSaved, (handler c).get r = c.get r
  frame : ∀ c, ∀ k < 36, (handler c).mem (c.addr (8 * k) a0) = c.mem (c.addr (8 * k) a0)

theorem restoreCsrs_spec {s : Machine} (hsp : s.get sp = f) :
    let s' := restoreCsrs.foldl Instr.step s
    (∀ r, r ≠ t0 → s'.get r = s.get r) ∧ s'.get t0 = s.mem (f + 264#64) &&& spp ∧
      s'.csrs .sepc = s.mem (f + 256#64) ∧ s'.csrs .sstatus = s.mem (f + 264#64) ∧
      s'.mem = s.mem := by
  let s₁ := (s.set t0 (s.mem (f + 256#64))).setCsr .sepc (s.mem (f + 256#64))
  let s₂ := (s₁.set t0 (s.mem (f + 264#64))).setCsr .sstatus (s.mem (f + 264#64))
  let s₃ := (s₂.set t0 (s.mem (f + 264#64))).set t0 (s.mem (f + 264#64) &&& spp)
  have hfold : restoreCsrs.foldl Instr.step s = s₃ := by
    simp [restoreCsrs, Instr.step, Machine.addr, Machine.get_set, hsp, s₁, s₂, s₃, spp]
  rw [hfold]
  refine ⟨?_, rfl, rfl, rfl, rfl⟩
  intro r h0
  simp only [s₃, s₂, s₁, Machine.get_set_of_ne h0, Machine.setCsr_get]

/-- The state after a round trip of a context whose registers at the trap were those of `m`. -/
structure Resumed (m m' : Machine) : Prop where
  pc : m'.pc = m.csrs .sepc
  mode : m'.mode = modeOf (m.csrs .sstatus)
  t0 : m'.get TrapVec.t0 = m.csrs .sstatus &&& spp
  t1 : m'.get TrapVec.t1 = m.csrs .scause
  regs : ∀ r, r ≠ TrapVec.t0 → r ≠ TrapVec.t1 → m'.get r = m.get r

/-- The state before the last branch, with the frame of `m` at `f`. -/
structure Leaving (m : Machine) (f : Word) (s : Machine) : Prop where
  sp : s.get sp = f
  t0 : s.get t0 = m.csrs .sstatus &&& spp
  t1 : s.get t1 = m.csrs .scause
  regs : ∀ r, r ≠ TrapVec.sp → r ≠ TrapVec.t0 → r ≠ TrapVec.t1 → s.get r = m.get r
  sepc : s.csrs .sepc = m.csrs .sepc
  sstatus : s.csrs .sstatus = m.csrs .sstatus
  userSp : m.csrs .sstatus &&& spp = 0 → s.mem (f + 16#64) = m.get TrapVec.sp

theorem leaving_of_called {handler : Machine → Machine} (h : Obeys handler)
    (hc : Called m f c) :
    ∃ s, exec trapVector trapFuel leaveCode (handler c) = exec trapVector (63 + 1) exits s ∧
      Leaving m f s := by
  have hfuel : trapFuel = (loads sp saved : List (Instr Label)).length +
      (restoreCsrs.length + (63 + 1)) := rfl
  have hsp : (handler c).get sp = f := (h.calleeSaved c sp (by decide)).trans hc.sp
  have hslot : ∀ k < 36, (handler c).mem (f + BitVec.ofNat 64 (8 * k)) =
      c.mem (f + BitVec.ofNat 64 (8 * k)) := by
    intro k hk
    have := h.frame c k hk
    rwa [Machine.addr, hc.a0] at this
  obtain ⟨hmem, -, -, hload, hkeep⟩ := loads_spec (ι := Label) sp saved (by decide)
    (by decide) (handler c)
  refine ⟨_, by rw [hfuel, leaveCode, exec_straight loads_straight, exec_straight (by decide)], ?_⟩
  generalize (loads sp saved : List (Instr Label)).foldl Instr.step (handler c) = s₁ at *
  have hsp₁ : s₁.get sp = f := (hkeep sp (by decide)).trans hsp
  obtain ⟨hregs, ht0, hsepc, hsstatus, hmem'⟩ := restoreCsrs_spec hsp₁
  have hreg : ∀ r, r ≠ 0 → r ≠ sp → s₁.get r = c.mem (f + BitVec.ofNat 64 (8 * r)) := by
    intro r hz h2
    rw [hload r (mem_saved.mpr ⟨hz, h2⟩), Machine.addr, hsp]
    exact hslot r (by omega)
  have hstatus : s₁.mem (f + 264#64) = m.csrs .sstatus := by
    rw [hmem]
    exact (hslot 33 (by norm_num)).trans hc.sstatusSlot
  refine ⟨(hregs sp (by decide)).trans hsp₁, by rw [ht0, hstatus], ?_, ?_, ?_,
    by rw [hsstatus, hstatus], ?_⟩
  · rw [hregs t1 (by decide), hreg t1 (by decide) (by decide)]
    exact hc.t1Slot
  · intro r h2 h0 h1
    rw [hregs r h0]
    by_cases hz : r = 0
    · subst hz
      rfl
    · rw [hreg r hz h2]
      exact hc.slots r hz h2 h0 h1
  · rw [hsepc, hmem]
    exact (hslot 32 (by norm_num)).trans hc.sepcSlot
  · intro hspp
    rw [hmem', hmem]
    exact (hslot 2 (by norm_num)).trans (hc.userSp hspp)

theorem sret_get {s : Machine} {r : Reg} : s.sret.get r = s.get r := rfl

/-- **The round trip**: every register comes back but `t0` and `t1`. -/
theorem roundTrip_spec {handler : Machine → Machine} (h : Obeys handler) (m : Machine) :
    ∃ m', roundTrip handler m = some m' ∧ Resumed m m' := by
  obtain ⟨c, henter, hc⟩ := enter_called m
  obtain ⟨s, hleave, hs⟩ := leaving_of_called h hc
  rw [exits, exec_bnez, hs.t0] at hleave
  by_cases hspp : m.csrs .sstatus &&& spp = 0
  · let s' := s.set sp (s.mem (s.addr 16 sp))
    have hrun : exec trapVector trapFuel leaveCode (handler c) = .sret s'.sret := by
      rw [hleave, if_pos hspp]
      rfl
    have hget : ∀ r, r ≠ sp → s'.sret.get r = s.get r := fun r hr =>
      sret_get.trans (Machine.get_set_of_ne hr)
    have haddr : s.mem (s.addr 16 sp) = m.get sp := by
      rw [Machine.addr, hs.sp]
      exact hs.userSp hspp
    refine ⟨s'.sret, by rw [roundTrip, henter]; simp only [hrun], hs.sepc, ?_, ?_, ?_, ?_⟩
    · exact congrArg modeOf hs.sstatus
    · exact (hget t0 (by decide)).trans hs.t0
    · exact (hget t1 (by decide)).trans hs.t1
    · intro r h0 h1
      by_cases hr : r = sp
      · subst hr
        exact sret_get.trans ((Machine.get_set_self (by decide)).trans haddr)
      · exact (hget r hr).trans (hs.regs r hr h0 h1)
  · let s' := s.set sp (s.get sp + 288#64)
    have hrun : exec trapVector trapFuel leaveCode (handler c) = .sret s'.sret := by
      rw [hleave, if_neg hspp]
      rfl
    have hget : ∀ r, r ≠ sp → s'.sret.get r = s.get r := fun r hr =>
      sret_get.trans (Machine.get_set_of_ne hr)
    refine ⟨s'.sret, by rw [roundTrip, henter]; simp only [hrun], hs.sepc, ?_, ?_, ?_, ?_⟩
    · exact congrArg modeOf hs.sstatus
    · exact (hget t0 (by decide)).trans hs.t0
    · exact (hget t1 (by decide)).trans hs.t1
    · intro r h0 h1
      by_cases hr : r = sp
      · subst hr
        refine sret_get.trans ((Machine.get_set_self (by decide)).trans ?_)
        rw [hs.sp, frameOf, if_neg hspp, add_assoc]
        simp
      · exact (hget r hr).trans (hs.regs r hr h0 h1)

/-! ### Interrupted contexts -/

/-- The hardware records the mode a trap came from. -/
theorem trap_spp (s : Machine) (scause stval stvec : Word) :
    (s.trap scause stval stvec).csrs .sstatus &&& spp = if s.mode = .supervisor then spp else 0 := by
  have hsstatus : (s.trap scause stval stvec).csrs .sstatus =
      (s.csrs .sstatus &&& ~~~(spp ||| spie ||| sie)) |||
        (if s.mode = .supervisor then spp else 0) |||
        (if s.csrs .sstatus &&& sie = 0 then 0 else spie) := rfl
  have hclear : (s.csrs .sstatus &&& ~~~(spp ||| spie ||| sie)) &&& spp = 0 := by
    rw [BitVec.and_assoc, show ~~~(spp ||| spie ||| sie) &&& spp = 0#64 by decide, BitVec.and_zero]
    rfl
  have hspie : (if s.csrs .sstatus &&& sie = 0 then (0 : Word) else spie) &&& spp = 0 := by
    split
    · decide
    · decide
  rw [hsstatus, BitVec.and_or_distrib_right, BitVec.and_or_distrib_right, hclear, hspie]
  split
  · decide
  · decide

theorem trap_modeOf (s : Machine) (scause stval stvec : Word) :
    modeOf ((s.trap scause stval stvec).csrs .sstatus) = s.mode := by
  unfold modeOf
  rw [trap_spp]
  cases h : s.mode with
  | user => simp
  | supervisor => simp [spp]

/-- The interrupted context goes on as if nothing had happened. -/
def Transparent (s s' : Machine) : Prop :=
  s'.pc = s.pc ∧ s'.mode = s.mode ∧ ∀ r, s'.get r = s.get r

/-- The value `t0` comes back with. -/
def lostT0 (mode : Mode) : Word := if mode = .supervisor then spp else 0

/-- A trap gives back everything but `t0` and `t1`. -/
theorem trap_resumed {handler : Machine → Machine} (h : Obeys handler) (s : Machine)
    (scause stval stvec : Word) :
    ∃ s', roundTrip handler (s.trap scause stval stvec) = some s' ∧ s'.pc = s.pc ∧
      s'.mode = s.mode ∧ s'.get t0 = lostT0 s.mode ∧ s'.get t1 = scause ∧
      ∀ r, r ≠ t0 → r ≠ t1 → s'.get r = s.get r := by
  obtain ⟨s', hrun, hres⟩ := roundTrip_spec h (s.trap scause stval stvec)
  refine ⟨s', hrun, hres.pc, ?_, ?_, hres.t1, hres.regs⟩
  · rw [hres.mode, trap_modeOf]
  · rw [hres.t0, trap_spp]
    rfl

/-- **Trap transparency**, exactly: the interrupted context, in either mode, goes on unharmed if
and only if `t0` and `t1` held what the trap leaves in them. -/
theorem transparent_iff {handler : Machine → Machine} (h : Obeys handler) (s : Machine)
    (scause stval stvec : Word) :
    ∃ s', roundTrip handler (s.trap scause stval stvec) = some s' ∧
      (Transparent s s' ↔ s.get t0 = lostT0 s.mode ∧ s.get t1 = scause) := by
  obtain ⟨s', hrun, hpc, hmode, h0, h1, hregs⟩ := trap_resumed h s scause stval stvec
  refine ⟨s', hrun, ?_, ?_⟩
  · rintro ⟨-, -, hall⟩
    exact ⟨(hall t0).symm.trans h0, (hall t1).symm.trans h1⟩
  · rintro ⟨ht0, ht1⟩
    refine ⟨hpc, hmode, fun r => ?_⟩
    by_cases hr0 : r = t0
    · rw [hr0, h0, ht0]
    · by_cases hr1 : r = t1
      · rw [hr1, h1, ht1]
      · exact hregs r hr0 hr1

/-- A handler that loses every register it may lose. -/
def clobber (c : Machine) : Machine :=
  { c with regs := fun r => if r ∈ calleeSaved then c.regs r else 0xdead#64 }

theorem clobber_obeys : Obeys clobber where
  calleeSaved := by
    intro c r hr
    unfold Machine.get clobber
    simp [hr]
  frame := fun _ _ _ => rfl

/-- A user program with 42 in `t0` and 7 in every other register. -/
def userContext : Machine where
  regs r := if r = t0 then 42#64 else 7#64
  csrs _ := 0#64
  mem _ := 0#64
  mode := .user
  pc := 0x1000#64

/-- The cause of a timer interrupt. -/
def timerCause : Word := 0x8000000000000005#64

theorem transparent_iff_userContext :
    ∃ s', roundTrip clobber (userContext.trap timerCause 0 0xffffffff80000100#64) = some s' ∧
      (Transparent userContext s' ↔
        userContext.get t0 = lostT0 userContext.mode ∧ userContext.get t1 = timerCause) :=
  transparent_iff clobber_obeys userContext timerCause 0 _

/-- A timer interrupt turns the 42 in `t0` into 0. -/
theorem timer_clobbers_t0 :
    ∃ s', roundTrip clobber (userContext.trap timerCause 0 0xffffffff80000100#64) = some s' ∧
      userContext.get t0 = 42#64 ∧ s'.get t0 = 0#64 ∧ ¬Transparent userContext s' := by
  obtain ⟨s', hrun, -, -, h0, -, -⟩ :=
    trap_resumed clobber_obeys userContext timerCause 0 0xffffffff80000100#64
  refine ⟨s', hrun, rfl, h0, ?_⟩
  rintro ⟨-, -, hall⟩
  have h42 : s'.get t0 = 42#64 := hall t0
  rw [h0] at h42
  exact absurd h42 (by decide)

/-! ### `curr_cpu` in the handler -/

/-- The state in which `trap_handler` is called from user mode has the user's `tp`. -/
theorem enter_tp (u : Machine) (scause stval stvec : Word) :
    ∃ c, enter (u.trap scause stval stvec) = .call c leaveCode ∧ currCpu c = u.get tp := by
  obtain ⟨c, henter, hc⟩ := enter_called (u.trap scause stval stvec)
  exact ⟨c, henter, hc.regs tp (by decide) (by decide) (by decide) (by decide)⟩

/-- The handlers of two traps find the same `cpus[]` entry through `curr_cpu()`. -/
def SameCpu (c₁ c₂ : Machine) (entry : Word) : Prop := currCpu c₁ = entry ∧ currCpu c₂ = entry

/-- **The per-CPU pointer**, exactly: two traps from user mode that differ in the user's registers
find the hart's `cpus[]` entry if and only if both users had it in `tp`. -/
theorem sameCpu_iff (u : Machine) (regs₁ regs₂ : Reg → Word) (scause stval stvec cpus : Word)
    (id : Nat) :
    ∃ c₁ c₂, enter (({ u with regs := regs₁ } : Machine).trap scause stval stvec) =
        .call c₁ leaveCode ∧
      enter (({ u with regs := regs₂ } : Machine).trap scause stval stvec) = .call c₂ leaveCode ∧
      (SameCpu c₁ c₂ (cpusEntry cpus id) ↔
        regs₁ tp = cpusEntry cpus id ∧ regs₂ tp = cpusEntry cpus id) := by
  obtain ⟨c₁, h₁, htp₁⟩ := enter_tp { u with regs := regs₁ } scause stval stvec
  obtain ⟨c₂, h₂, htp₂⟩ := enter_tp { u with regs := regs₂ } scause stval stvec
  refine ⟨c₁, c₂, h₁, h₂, ?_⟩
  unfold SameCpu
  rw [htp₁, htp₂]
  rfl

/-- A user program that writes 7 to `tp` hides its CPU from the kernel. -/
theorem user_tp_reaches_currCpu :
    ∃ c₁ c₂, enter (({ userContext with
        regs := Function.update userContext.regs tp (cpusEntry 0xffffffff80008000#64 0) } :
          Machine).trap timerCause 0 0xffffffff80000100#64) = .call c₁ leaveCode ∧
      enter (userContext.trap timerCause 0 0xffffffff80000100#64) = .call c₂ leaveCode ∧
      currCpu c₁ = cpusEntry 0xffffffff80008000#64 0 ∧ currCpu c₂ = 7#64 ∧
      ¬SameCpu c₁ c₂ (cpusEntry 0xffffffff80008000#64 0) := by
  obtain ⟨c₁, h₁, htp₁⟩ := enter_tp { userContext with
    regs := Function.update userContext.regs tp (cpusEntry 0xffffffff80008000#64 0) } timerCause 0
    0xffffffff80000100#64
  obtain ⟨c₂, h₂, htp₂⟩ := enter_tp userContext timerCause 0 0xffffffff80000100#64
  refine ⟨c₁, c₂, h₁, h₂, htp₁, htp₂, ?_⟩
  rintro ⟨-, hsame⟩
  rw [htp₂] at hsame
  exact absurd hsame (by decide)

end SystemN.TrapVec
