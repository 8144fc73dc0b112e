/-
A system call, from the `ecall` of a process to the instruction behind it.

Three things happen in between.  `trap_vector` saves the registers of the process in its frame
(`Interrupted`), and `syscall_handler` puts its answer there.  Then other processes may run, for as
long as they like, and the frame stays what it is.  At last `trap_vector` loads the registers from the
frame (`leave_user`).  So the process goes on behind its `ecall`, with the answer in `a0`, and what it
has lost is what `trap_vector` loses: `t0` and `t1`.

The assembly of `syscall` does not name these two among the registers it changes.
-/
import SystemN.UserCall
import SystemN.Proofs.TrapVec
import SystemN.Proofs.Ecall
import SystemN.Proofs.UserMemory

namespace SystemN

open RiscV TrapVec

/-! ### The way out -/

/-- `trap_vector` loads the frame of a process, and goes on in user mode. -/
theorem leave_user {s : Machine} {f : Word} {F : TrapFrame} (hsp : s.get sp = f)
    (hF : HoldsFrame s.mem f F) (huser : BitVec.ofNat 64 F.sstatus &&& spp = 0) :
    ∃ u, exec trapVector trapFuel leaveCode s = .sret u ∧ u.pc = BitVec.ofNat 64 F.sepc ∧
      u.mode = .user ∧ u.get t0 = 0 ∧ ∀ r, r ≠ 0 → r ≠ t0 → u.get r = BitVec.ofNat 64 (F.regs r) := by
  have hfuel : trapFuel = (loads sp saved : List (Instr Label)).length +
      (restoreCsrs.length + (63 + 1)) := rfl
  have hrun : exec trapVector trapFuel leaveCode s = exec trapVector (63 + 1) exits
      (restoreCsrs.foldl Instr.step ((loads sp saved : List (Instr Label)).foldl Instr.step s)) := by
    rw [hfuel, leaveCode, exec_straight loads_straight, exec_straight (by decide)]
  obtain ⟨hmem, -, -, hload, hkeep⟩ := loads_spec (ι := Label) sp saved (by decide) (by decide) s
  generalize (loads sp saved : List (Instr Label)).foldl Instr.step s = s₁ at *
  have hsp₁ : s₁.get sp = f := (hkeep sp (by decide)).trans hsp
  obtain ⟨hregs, ht0, hsepc, hsstatus, hmem'⟩ := restoreCsrs_spec hsp₁
  generalize restoreCsrs.foldl Instr.step s₁ = s₂ at *
  have hspp : s₂.get t0 = 0 := by
    rw [ht0, hmem, hF.sstatus]
    exact huser
  let s₃ := s₂.set sp (s₂.mem (s₂.addr 16 sp))
  have hslot : s₂.mem (s₂.addr 16 sp) = BitVec.ofNat 64 (F.regs 2) := by
    rw [Machine.addr, hregs sp (by decide), hsp₁, hmem', hmem]
    exact hF.regs 2 (by decide)
  refine ⟨s₃.sret, ?_, ?_, ?_, ?_, fun r hz h0 => ?_⟩
  · rw [hrun, exits, exec_bnez, hspp, if_pos rfl]
    rfl
  · refine hsepc.trans ?_
    rw [hmem, hF.sepc]
  · refine (congrArg modeOf (hsstatus.trans ?_)).trans (if_pos huser)
    rw [hmem, hF.sstatus]
  · exact (sret_get.trans (Machine.get_set_of_ne (by decide))).trans hspp
  · by_cases hr : r = sp
    · subst hr
      exact sret_get.trans ((Machine.get_set_self (by decide)).trans hslot)
    · refine (sret_get.trans (Machine.get_set_of_ne hr)).trans ((hregs r h0).trans ?_)
      rw [hload r (mem_saved.mpr ⟨hz, hr⟩), Machine.addr, hsp]
      exact hF.regs r r.isLt

/-! ### The way in -/

variable {u c : Machine} {rest : List (Instr Label)} {f : Word} {stval stvec : Word}

/-- The frame that `trap_vector` has saved for a trap of user code with the registers `u`. -/
structure Interrupted (u : Machine) (cause : Word) (F : TrapFrame) : Prop where
  regs : ∀ r : Reg, r ≠ 0 → r ≠ t0 → r ≠ t1 → F.regs r = (u.get r).toNat
  t1_lost : F.regs 6 = cause.toNat
  scause : F.scause = cause.toNat
  sepc : F.sepc = u.pc.toNat
  sstatus : BitVec.ofNat 64 F.sstatus &&& spp = 0

namespace Kernel

variable {k k' k₁ k₂ : Kernel} {p : Nat} {ps : List Nat} {t : Trap} {clock : Nat → Nat} {L : Layout}
  {m : Nat → UInt8} {stack : Nat}

/-- A frame behind its `ecall`. -/
def stepOver (F : TrapFrame) : TrapFrame := { F with sepc := u64 (F.sepc + 4) }

/-- A frame with the answer in `a0`. -/
def answered (F : TrapFrame) (v : Nat) : TrapFrame := { F with regs := Function.update F.regs 10 v }

/-- The answer is put into the frame of the process. -/
theorem setA0_frame (h : k'.framesOf = k.framesOf) (v : Nat) :
    (k'.setA0 p v).frames (k.procs p).tf = answered (k.frames (k.procs p).tf) v := by
  have hframes : k'.frames = k.frames := congrArg Prod.fst h
  have howner : (k'.procs p).tf = (k.procs p).tf := congrFun (congrArg Prod.snd h) p
  have hself : (k'.setA0 p v).frames (k'.procs p).tf = answered (k'.frames (k'.procs p).tf) v :=
    Function.update_self ..
  rw [howner, hframes] at hself
  exact hself

/-- A call that answers as it stands. -/
theorem frame_answered (h : k'.frames = k.frames) :
    k'.frames (k.procs p).tf = answered (k.frames (k.procs p).tf) (k.reg p 10) := by
  have hself : Function.update (k.frames (k.procs p).tf).regs 10 (k.reg p 10) =
      (k.frames (k.procs p).tf).regs := Function.update_eq_self ..
  rw [h, answered, hself]

/-- A system call that comes back with `r.1`. -/
theorem answer_call {x : Except Stop (Nat × Kernel)} {g : Nat × Kernel → Except Stop Kernel}
    (hg : ∀ r, x = .ok r → g r = .ok k' →
      k'.frames (k.procs p).tf = answered (k.frames (k.procs p).tf) r.1)
    (hk : x >>= g = .ok k') :
    ∃ v, Prod.fst <$> x = .ok v ∧ k'.frames (k.procs p).tf = answered (k.frames (k.procs p).tf) v := by
  rw [bind_eq_ok] at hk
  obtain ⟨r, hcall, hk⟩ := hk
  exact ⟨r.1, by rw [hcall]; rfl, hg r hcall hk⟩

/-- And answers with it. -/
theorem setA0_ok {v : Nat} (h : k₁.framesOf = k.framesOf)
    (hk : (pure (k₁.setA0 p v) : Except Stop Kernel) = .ok k') :
    k'.frames (k.procs p).tf = answered (k.frames (k.procs p).tf) v := by
  obtain rfl := Except.ok.inj hk
  exact setA0_frame h v

/-- **The call**: it leaves its answer in the frame, and the frame is else as it was. -/
theorem syscallHandler_answer (hk : k.syscallHandler p clock = .ok k') :
    ∃ v, k.answer p clock = .ok v ∧
      k'.frames (k.procs p).tf = answered (k.frames (k.procs p).tf) v := by
  unfold syscallHandler at hk
  unfold answer
  generalize k.reg p 17 % 2 ^ 32 = n at hk ⊢
  split at hk
  · exact answer_call (fun r hcall => setA0_ok (framesOf_of_bare (bare_sysWrite hcall))) hk
  · exact answer_call (fun r hcall => setA0_ok (framesOf_of_bare (bare_sysRead hcall))) hk
  · obtain rfl := Except.ok.inj hk
    exact ⟨_, rfl, frame_answered rfl⟩
  · exact ⟨_, rfl, setA0_ok rfl hk⟩
  · obtain rfl := Except.ok.inj hk
    exact ⟨_, rfl, frame_answered rfl⟩
  · refine answer_call (fun r hcall hk => ?_) hk
    obtain rfl := Except.ok.inj hk
    exact setA0_frame (framesOf_sysSleepMs hcall) r.1
  · exact answer_call (fun r hcall => setA0_ok (framesOf_of_bare (bare_sysSbrk hcall))) hk
  · exact answer_call (fun r hcall => setA0_ok (framesOf_of_bare (bare_sysMunmap hcall))) hk
  · exact ⟨minusOne, by simp_all only [pure, Except.pure], setA0_ok rfl hk⟩

/-- The frame of the process when `syscall_handler` is called. -/
theorem calling_frame : (k.calling t).frames t.tf = stepOver t.frame := by
  have hentry : (k.trapEntry t).frames t.tf = t.frame := Function.update_self ..
  have hself : (k.calling t).frames t.tf =
      stepOver ((k.trapEntry t).frames t.tf) := Function.update_self ..
  rw [hself, hentry]

theorem calling_reg (htf : t.tf = (k.procs p).tf) (i : Nat) : (k.calling t).reg p i = t.frame.regs i := by
  have hown : ((k.calling t).procs p).tf = t.tf := htf.symm
  rw [reg, hown, calling_frame]
  rfl

/-- The trap of an `ecall` is a system call, and the end of `trap_handler`. -/
theorem takeTrap_served (hp : k.cpu.proc = p) (h0 : p ≠ 0) (hidle : (k.procs p).isIdle = false)
    (hecall : IsEcall t) (hk : k.takeTrap t = .ok k') :
    ∃ k₁, (k.calling t).syscallHandler p t.clock = .ok k₁ ∧ k₁.trapEnd = .ok k' := by
  have hproc : (k.trapEntry t).cpu.proc = p := hp
  have hidle' : ((k.trapEntry t).procs p).isIdle = false := hidle
  change (k.trapEntry t).trapHandler t.tf t.clock = .ok k' at hk
  rw [trapHandler, hproc, hidle', if_neg (by simp), if_neg h0] at hk
  split at hk
  · cases hk
  · rw [bind_eq_ok] at hk
    obtain ⟨k₁, hswitch, hend⟩ := hk
    have hscause : (k.trapEntry t).hart.scause = t.scause := rfl
    rcases hecall with hcode | hcode
    all_goals rw [switchCode, hscause, hcode] at hswitch
    all_goals exact ⟨k₁, hswitch, hend⟩

/-- **The trap**: the process is left with its answer, behind the `ecall`. -/
theorem takeTrap_ecall (hp : k.cpu.proc = p) (h0 : p ≠ 0) (hidle : (k.procs p).isIdle = false)
    (htf : t.tf = (k.procs p).tf) (hecall : IsEcall t) (hk : k.takeTrap t = .ok k') :
    ∃ v, (k.calling t).answer p t.clock = .ok v ∧ (k'.procs p).tf = t.tf ∧
      k'.frames t.tf = answered (stepOver t.frame) v := by
  obtain ⟨k₁, hcall, hend⟩ := takeTrap_served hp h0 hidle hecall hk
  have hown : ((k.calling t).procs p).tf = t.tf := htf.symm
  obtain ⟨v, hv, hframe⟩ := syscallHandler_answer hcall
  have howner := (syscallHandler_answered hcall).owner p
  rw [hown, calling_frame] at hframe
  have hframes := framesOf_trapEnd hend
  refine ⟨v, hv, ?_, ?_⟩
  · exact (congrFun (congrArg Prod.snd hframes) p).trans (howner.trans hown)
  · rw [← hframe]
    exact congrFun (congrArg Prod.fst hframes) t.tf

/-! ### There and back -/

end Kernel

/-- User code with the registers `u` goes on with the registers `u'` behind its `ecall`. -/
structure Returns (u u' : Machine) (v : Nat) : Prop where
  pc : u'.pc = u.pc + 4#64
  mode : u'.mode = .user
  result : u'.get a0 = BitVec.ofNat 64 v
  t0_lost : u'.get t0 = 0
  t1_lost : u'.get t1 = BitVec.ofNat 64 scauseUserEcall
  regs : ∀ r, r ≠ a0 → r ≠ t0 → r ≠ t1 → u'.get r = u.get r

/-- The way out of the frame that was made on the way in. -/
theorem Interrupted.returns {F : TrapFrame} {v : Nat} {s : Machine}
    (h : Interrupted u (BitVec.ofNat 64 scauseUserEcall) F) (hsp : s.get sp = f)
    (hF : HoldsFrame s.mem f (Kernel.answered (Kernel.stepOver F) v)) :
    ∃ u', exec trapVector trapFuel leaveCode s = .sret u' ∧ Returns u u' v := by
  obtain ⟨u', hrun, hpc, hmode, ht0, hregs⟩ := leave_user hsp hF h.sstatus
  have hother : ∀ r : Reg, r ≠ 0 → r ≠ t0 → r ≠ a0 → u'.get r = BitVec.ofNat 64 (F.regs r) := by
    intro r hz h0 ha
    rw [hregs r hz h0]
    have hne : r.val ≠ 10 := fun heq => ha (Fin.ext heq)
    have hreg : (Kernel.answered (Kernel.stepOver F) v).regs r = F.regs r :=
      Function.update_of_ne hne ..
    rw [hreg]
  refine ⟨u', hrun, ?_, hmode, ?_, ht0, ?_, fun r ha h0 h1 => ?_⟩
  · refine hpc.trans (BitVec.eq_of_toNat_eq ?_)
    change (BitVec.ofNat 64 (u64 (F.sepc + 4))).toNat = _
    rw [h.sepc, BitVec.toNat_ofNat, BitVec.toNat_add]
    exact Nat.mod_mod _ _
  · rw [hregs a0 (by decide) (by decide)]
    have hreg : (Kernel.answered (Kernel.stepOver F) v).regs 10 = v := by
      simp [Kernel.answered]
    exact congrArg (BitVec.ofNat 64) hreg
  · rw [hother t1 (by decide) (by decide) (by decide)]
    exact congrArg (BitVec.ofNat 64) h.t1_lost
  · by_cases hz : r = 0
    · subst hz
      rfl
    · rw [hother r hz h0 ha, h.regs r hz h0 h1, BitVec.ofNat_toNat, BitVec.setWidth_eq]

namespace Kernel

variable {k k₁ k₂ : Kernel} {p : Nat} {ps : List Nat} {clock : Nat → Nat} {L : Layout}
  {m : Nat → UInt8} {stack : Nat} {x : Context} {s : Machine}

end Kernel

end SystemN
