/-
What `idle_trap_vector` gives back.

It keeps `sepc` and `sstatus` in `a1` and `a2` across the call of `trap_handler`, and has
no frame.  The two registers are the caller's to save, so the idle loop goes on where it
was if and only if the compiled handler happens to leave them alone, or as good as that.
-/
import SystemN.Proofs.TrapVec

namespace SystemN.TrapVec

open RiscV

variable {s c : Machine} {handler : Machine → Machine}

/-- A handler that obeys the calling convention. -/
def Convention (handler : Machine → Machine) : Prop :=
  ∀ c, ∀ r ∈ calleeSaved, (handler c).get r = c.get r

/-- The idle loop goes on as if nothing had happened. -/
structure BackInIdle (s s' : Machine) : Prop where
  pc : s'.pc = s.pc
  mode : s'.mode = .supervisor
  /-- The interrupts are enabled if they were. -/
  sie : s'.csrs .sstatus &&& sie = s.csrs .sstatus &&& sie
  sp : s'.get TrapVec.sp = s.get TrapVec.sp

/-- The state at the call. -/
def idleCall (m : Machine) : Machine :=
  (((m.set a0 (m.csrs .scause)).set a1 (m.csrs .sepc)).set a2 (m.csrs .sstatus)).set a3
    (m.csrs .stval)

/-- What the handler, called in the state `c`, has to leave in the two registers: the interrupted
`pc`, and an `sstatus` that came from supervisor mode with the interrupts as they were. -/
structure HandsBack (handler : Machine → Machine) (s c : Machine) : Prop where
  a1 : (handler c).get TrapVec.a1 = s.pc
  spp : (handler c).get a2 &&& spp ≠ 0
  spie : (handler c).get a2 &&& spie = 0 ↔ s.csrs .sstatus &&& sie = 0

theorem idleRoundTrip_eq (handler : Machine → Machine) (m : Machine) :
    idleRoundTrip handler m = some
      (((handler (idleCall m)).setCsr .sepc ((handler (idleCall m)).get a1)).setCsr .sstatus
        ((handler (idleCall m)).get a2)).sret := rfl

/-- After `sret` the interrupts are enabled if `SPIE` says so. -/
theorem sret_sie (m : Machine) :
    m.sret.csrs .sstatus &&& sie = if m.csrs .sstatus &&& spie = 0 then 0 else sie := by
  have hsstatus : m.sret.csrs .sstatus = (m.csrs .sstatus &&& ~~~(spp ||| sie)) ||| spie |||
      (if m.csrs .sstatus &&& spie = 0 then 0 else sie) := rfl
  have hclear : (m.csrs .sstatus &&& ~~~(spp ||| sie)) &&& sie = 0 := by
    rw [BitVec.and_assoc, show ~~~(spp ||| sie) &&& sie = 0#64 by decide, BitVec.and_zero]
    rfl
  rw [hsstatus, BitVec.and_or_distrib_right, BitVec.and_or_distrib_right, hclear]
  split
  · decide
  · decide

/-- A bit is clear or set. -/
theorem and_sie (w : Word) : w &&& sie = if w &&& sie = 0 then 0 else sie := by
  have hbit : sie = BitVec.twoPow 64 1 := by decide
  rw [hbit, BitVec.and_twoPow]
  by_cases h : w.getLsbD 1 = true
  · rw [if_pos h]
    rfl
  · rw [if_neg h]
    rfl

/-- **The round trip of `idle_trap_vector`**, exactly: the idle loop goes on if and only if the
handler has handed back what it was never asked to keep. -/
theorem idle_resumes_iff (h : Convention handler) (s : Machine) (stval stvec : Word) :
    ∃ s', idleRoundTrip handler (s.trap timerCause stval stvec) = some s' ∧
      (BackInIdle s s' ↔ HandsBack handler s (idleCall (s.trap timerCause stval stvec))) := by
  refine ⟨_, idleRoundTrip_eq handler _, ?_⟩
  generalize hc : idleCall (s.trap timerCause stval stvec) = c
  generalize hm : ((handler c).setCsr .sepc ((handler c).get a1)).setCsr .sstatus
    ((handler c).get a2) = m
  have hsepc : m.sret.pc = (handler c).get a1 := by
    rw [← hm]
    rfl
  have hsstatus : m.csrs .sstatus = (handler c).get a2 := by
    rw [← hm]
    rfl
  have hmode' : m.sret.mode = modeOf ((handler c).get a2) := congrArg modeOf hsstatus
  have hsp : m.sret.get sp = s.get sp := by
    have hcall : m.sret.get sp = (handler c).get sp := by
      rw [← hm]
      rfl
    rw [hcall, h c sp (by decide), ← hc]
    rfl
  have hsie := sret_sie m
  rw [hsstatus] at hsie
  constructor
  · intro hback
    refine ⟨hsepc.symm.trans hback.pc, fun hclear => ?_, ?_⟩
    · have := hmode'.symm.trans hback.mode
      rw [modeOf, if_pos hclear] at this
      cases this
    · rw [← hback.sie, hsie]
      split
      · simpa
      · rename_i hset
        exact ⟨fun h0 => absurd h0 hset, fun h0 => absurd h0 (by decide)⟩
  · intro hands
    refine ⟨hsepc.trans hands.a1, ?_, ?_, hsp⟩
    · rw [hmode', modeOf, if_neg hands.spp]
    · rw [hsie, and_sie (s.csrs .sstatus)]
      by_cases h0 : (handler c).get a2 &&& spie = 0
      · rw [if_pos h0, if_pos (hands.spie.mp h0)]
      · rw [if_neg h0, if_neg fun hs => h0 (hands.spie.mpr hs)]

/-- The hardware saves whether the interrupts were enabled. -/
theorem trap_spie (s : Machine) (scause stval stvec : Word) :
    (s.trap scause stval stvec).csrs .sstatus &&& spie =
      if s.csrs .sstatus &&& sie = 0 then 0 else spie := by
  have hsstatus : (s.trap scause stval stvec).csrs .sstatus =
      (s.csrs .sstatus &&& ~~~(spp ||| spie ||| sie)) |||
        (if s.mode = .supervisor then spp else 0) |||
        (if s.csrs .sstatus &&& sie = 0 then 0 else spie) := rfl
  have hclear : (s.csrs .sstatus &&& ~~~(spp ||| spie ||| sie)) &&& spie = 0 := by
    rw [BitVec.and_assoc, show ~~~(spp ||| spie ||| sie) &&& spie = 0#64 by decide, BitVec.and_zero]
    rfl
  have hspp : (if s.mode = .supervisor then spp else (0 : Word)) &&& spie = 0 := by
    split
    · decide
    · decide
  rw [hsstatus, BitVec.and_or_distrib_right, BitVec.and_or_distrib_right, hclear, hspp]
  split
  · decide
  · decide

/-- A handler that does not touch the two registers hands back what it should. -/
theorem handsBack_of_kept (hmode : s.mode = .supervisor) (stval stvec : Word)
    (hc : c = idleCall (s.trap timerCause stval stvec)) (h1 : (handler c).get a1 = c.get a1)
    (h2 : (handler c).get a2 = c.get a2) : HandsBack handler s c := by
  have ha1 : c.get a1 = s.pc := by
    rw [hc]
    rfl
  have ha2 : c.get a2 = (s.trap timerCause stval stvec).csrs .sstatus := by
    rw [hc]
    rfl
  refine ⟨h1.trans ha1, ?_, ?_⟩
  · rw [h2, ha2, trap_spp, if_pos hmode]
    decide
  · rw [h2, ha2, trap_spie]
    split
    · rename_i h0
      exact ⟨fun _ => h0, fun _ => rfl⟩
    · rename_i h0
      exact ⟨fun hs => absurd hs (by decide), fun hs => absurd hs h0⟩

/-- The idle loop at its `wfi`, with the interrupts enabled. -/
def idleContext : Machine where
  regs _ := 7#64
  csrs c := if c = .sstatus then sie else 0#64
  mem _ := 0#64
  mode := .supervisor
  pc := 0xffffffff80001008#64

theorem idle_resumes_iff_idleContext :
    ∃ s', idleRoundTrip clobber (idleContext.trap timerCause 0 0xffffffff80000200#64) = some s' ∧
      (BackInIdle idleContext s' ↔ HandsBack clobber idleContext
        (idleCall (idleContext.trap timerCause 0 0xffffffff80000200#64))) :=
  idle_resumes_iff clobber_obeys.calleeSaved idleContext 0 _

/-- With a handler that loses `a1` and `a2` the idle loop is left for the address `0xdead`. -/
theorem idle_lost :
    Convention clobber ∧
      ∃ s', idleRoundTrip clobber (idleContext.trap timerCause 0 0xffffffff80000200#64) = some s' ∧
        s'.pc = 0xdead#64 ∧ ¬BackInIdle idleContext s' := by
  refine ⟨clobber_obeys.calleeSaved, _, idleRoundTrip_eq clobber _, rfl, fun hback => ?_⟩
  have hpc : (0xdead#64 : Word) = 0xffffffff80001008#64 := hback.pc
  exact absurd hpc (by decide)

end SystemN.TrapVec
