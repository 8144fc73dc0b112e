/-
A spinlock section under timer interrupts.

While interrupts are on, the interrupted code has come no further than the step that
turns them off, and holds nothing.  A handler that takes a lock leaves the CPU as
deep as it found it, but `c->sstatus` with `SIE` clear; that does no harm unless the
interrupted code has just stored its own value there.
-/
import SystemN.Proofs.Spinlock

namespace SystemN.Spinlock

open RiscV (Word sie)

variable {κ : Type*} {pc : Pc κ} {c c' : LockCpu} {locks locks' : κ → Bool} {held : List κ}
  {e : Bool} {out : Outcome κ}

/-- Between `c->sstatus = read_csr(sstatus)` and `clear_csr(sstatus, SSTATUS_SIE)`. -/
def InWindow (at' : Option (Pc κ)) : Prop := ∃ b l, at' = some (.clearSie b l)

/-- A call that is not a `spin_trylock`, and for which `lock_depth` has room. -/
def Plain (held : List κ) : Pc κ → Prop
  | .testDepth b _ | .readCsr b _ | .save b _ _ | .clearSie b _ | .incDepth b _ =>
      b = false ∧ held.length + 1 < 2 ^ 32
  | .compareExchange _ => False
  | _ => True

/-- A place at which the code of a hart can be interrupted; `e` is the state of `SIE` its
outermost `spin_unlock` is going to restore. -/
def Paused (e : Bool) : Option (Pc κ) → Prop
  | none | some (.testDepth _ _) | some (.readCsr _ _) => e = true
  | some (.save _ _ v) => enabled v = e
  | some (.clearSie _ _) => e = false
  | _ => False

/-- Interrupts are on only at such a place. -/
theorem InCall.paused {call : Option (Pc κ)} (h : InCall held e call c)
    (hsie : enabled c.csr = true) :
    held = [] ∧ c.lockDepth = 0 ∧
      ((¬InWindow call → Paused e call) ∧ (InWindow call → Paused false call)) := by
  have hoff : ∀ {n}, ¬Locked n e c := fun hl => by
    rw [hl.disabled] at hsie
    cases hsie
  have hbetween : Between held e c → held = [] ∧ c.lockDepth = 0 ∧ e = true := fun hb => by
    have hnil : held = [] := by
      by_contra hne
      exact hoff (hb.locked hne)
    refine ⟨hnil, by rw [hb.lockDepth, hnil]; rfl, ?_⟩
    rw [← hb.free hnil, hsie]
  cases call with
  | none =>
      obtain ⟨hnil, h0, he⟩ := hbetween h
      exact ⟨hnil, h0, fun _ => he, fun ⟨b, l, hw⟩ => by cases hw⟩
  | some pc =>
      cases pc with
      | testDepth b l =>
          obtain ⟨hnil, h0, he⟩ := hbetween h
          exact ⟨hnil, h0, fun _ => he, fun ⟨b, l, hw⟩ => by cases hw⟩
      | readCsr b l =>
          obtain ⟨hnil, h0, he⟩ := h
          exact ⟨hnil, h0, fun _ => he.symm.trans hsie, fun ⟨b, l, hw⟩ => by cases hw⟩
      | save b l v =>
          obtain ⟨hnil, h0, he⟩ := h
          exact ⟨hnil, h0, fun _ => he, fun ⟨b, l, hw⟩ => by cases hw⟩
      | clearSie b l =>
          obtain ⟨hnil, h0, -⟩ := h
          exact ⟨hnil, h0, fun hw => absurd ⟨b, l, rfl⟩ hw, fun _ => rfl⟩
      | incDepth b l => exact (hoff h).elim
      | testAndSet l => exact (hoff h).elim
      | compareExchange l => exact (hoff h).elim
      | checkDepth l => exact (hoff h.2).elim
      | decDepth l => exact (hoff h.2).elim
      | atomicClear l => exact (hoff h.2).elim
      | testLast => exact (hoff h).elim
      | restore => exact (hoff h.2).elim
      | panic => exact h.elim

/-- The code goes on after a handler, with interrupts on and the handler's value in
`c->sstatus`. -/
theorem Paused.resume {call : Option (Pc κ)} (h : Paused e call) (hdepth : c.lockDepth = 0)
    (hsie : enabled c.csr = true) (hsaved : enabled c.sstatus = false) :
    InCall ([] : List κ) e call c := by
  have hbetween : e = true → Between ([] : List κ) e c := fun he =>
    ⟨hdepth, fun _ => hsie.trans he.symm, fun hne => absurd rfl hne⟩
  cases call with
  | none => exact hbetween h
  | some pc =>
      cases pc with
      | testDepth b l => exact hbetween h
      | readCsr b l => exact ⟨rfl, hdepth, hsie.trans (show e = true from h).symm⟩
      | save b l v => exact ⟨rfl, hdepth, h⟩
      | clearSie b l => exact ⟨rfl, hdepth, hsaved.trans (show e = false from h).symm⟩
      | incDepth b l => exact h.elim
      | testAndSet l => exact h.elim
      | compareExchange l => exact h.elim
      | checkDepth l => exact h.elim
      | decDepth l => exact h.elim
      | atomicClear l => exact h.elim
      | testLast => exact h.elim
      | restore => exact h.elim
      | panic => exact h.elim

variable [DecidableEq κ]

theorem Plain.exec (h : Plain held pc) (hexec : exec pc c locks = (out, c', locks')) :
    ∀ pc', out.call = some pc' → Plain (track pc locks held) pc' := by
  intro pc' hpc'
  cases pc with
  | testDepth b l =>
      rw [Spinlock.exec] at hexec
      split at hexec
      · obtain ⟨rfl, rfl, rfl⟩ := hexec
        obtain rfl := Option.some.inj hpc'
        exact h
      · obtain ⟨rfl, rfl, rfl⟩ := hexec
        obtain rfl := Option.some.inj hpc'
        exact h
  | readCsr b l | save b l v | clearSie b l =>
      obtain ⟨rfl, rfl, rfl⟩ := hexec
      obtain rfl := Option.some.inj hpc'
      exact h
  | incDepth b l =>
      obtain ⟨rfl, rfl, rfl⟩ := hexec
      obtain ⟨rfl, -⟩ := h
      obtain rfl := Option.some.inj hpc'
      trivial
  | testAndSet l =>
      rw [Spinlock.exec] at hexec
      split at hexec
      · obtain ⟨rfl, rfl, rfl⟩ := hexec
        obtain rfl := Option.some.inj hpc'
        trivial
      · obtain ⟨rfl, rfl, rfl⟩ := hexec
        cases hpc'
  | compareExchange l => exact h.elim
  | checkDepth l | testLast =>
      rw [Spinlock.exec] at hexec
      split at hexec
      · obtain ⟨rfl, rfl, rfl⟩ := hexec
        obtain rfl := Option.some.inj hpc'
        trivial
      · obtain ⟨rfl, rfl, rfl⟩ := hexec
        cases hpc' <;> trivial
  | decDepth l | atomicClear l | panic =>
      obtain ⟨rfl, rfl, rfl⟩ := hexec
      obtain rfl := Option.some.inj hpc'
      trivial
  | restore =>
      obtain ⟨rfl, rfl, rfl⟩ := hexec
      cases hpc'

/-- A call that has returned has left the interrupt state to go back to in `c->sstatus`. -/
theorem exec_saved (h : AtPc held e pc c) (hexec : exec pc c locks = (out, c', locks'))
    (hret : out.call = none) : enabled c'.sstatus = e := by
  cases pc with
  | testAndSet l | compareExchange l =>
      rw [exec] at hexec
      split at hexec
      · obtain ⟨rfl, rfl, rfl⟩ := hexec
        exact h.saved
      · obtain ⟨rfl, rfl, rfl⟩ := hexec
        exact h.saved
  | testLast =>
      rw [exec] at hexec
      split at hexec
      · obtain ⟨rfl, rfl, rfl⟩ := hexec
        cases hret
      · obtain ⟨rfl, rfl, rfl⟩ := hexec
        exact h.saved
  | restore =>
      obtain ⟨rfl, rfl, rfl⟩ := hexec
      exact h.2.saved
  | testDepth b l | checkDepth l =>
      rw [exec] at hexec
      split at hexec
      · obtain ⟨rfl, rfl, rfl⟩ := hexec
        cases hret
      · obtain ⟨rfl, rfl, rfl⟩ := hexec
        cases hret
  | readCsr b l | save b l v | clearSie b l | incDepth b l | decDepth l | atomicClear l | panic =>
      obtain ⟨rfl, rfl, rfl⟩ := hexec
      cases hret

/-! ### The invariant -/

variable {l : κ} {s s' : IrqState κ} {H : Handler κ} {at' : Option (Option (Pc κ))}
  {taken : List (Option (Pc κ))}

/-- The handler `H` has interrupted code that is going to restore `SIE = e`. -/
structure Interrupted (e : Bool) (s : IrqState κ) (H : Handler κ) : Prop where
  held : s.held = []
  paused : Paused e s.call
  call : InCall H.held false H.call s.cpu
  plain : ∀ pc, H.call = some pc → Plain H.held pc
  frame : ∃ v, enabled v = true ∧ H.frame = trapSstatus v
  saved : H.took = true → H.call = none → enabled s.cpu.sstatus = false

/-- The outermost `spin_unlock` of the interrupted code is going to restore `SIE = e`. -/
structure IrqInv (e : Bool) (s : IrqState κ) : Prop where
  main : s.handler = none → InCall s.held e s.call s.cpu
  plain : ∀ pc, s.call = some pc → Plain s.held pc
  handler : ∀ H, s.handler = some H → Interrupted e s H

theorem Plain.exec_spec (hplain : Plain held pc) (h : AtPc held e pc c)
    (hexec : Spinlock.exec pc c locks = (out, c', locks')) :
    InCall (track pc locks held) e out.call c' := by
  refine Spinlock.exec_spec h hexec ?_ ?_
  · rintro b l rfl
    exact hplain.2
  · rintro l rfl
    exact hplain.elim

/-- **Step lemma**: only an interrupt in the window changes what is going to be restored. -/
theorem IrqInv.step (h : IrqInv e s) (hstep : IrqStep s at' s') :
    ∃ e', IrqInv e' s' ∧ (e' = true ↔ e = true ∧ ∀ a ∈ at'.toList, ¬InWindow a) := by
  have hno : e = true ↔ e = true ∧ ∀ a ∈ (none : Option (Option (Pc κ))).toList, ¬InWindow a := by
    simp
  cases hstep with
  | lock l hh hc hheld hmany =>
      have hmain := h.main hh
      rw [hc] at hmain
      refine ⟨e, ⟨fun _ => hmain.lock false l, fun pc hpc => ?_, fun H hH => ?_⟩, hno⟩
      · obtain rfl := Option.some.inj hpc
        exact ⟨rfl, hmany⟩
      · exact absurd (hh.symm.trans hH) (by simp)
  | unlock l hh hc hl =>
      have hmain := h.main hh
      rw [hc] at hmain
      refine ⟨e, ⟨fun _ => hmain.unlock hl, fun pc hpc => ?_, fun H hH => ?_⟩, hno⟩
      · obtain rfl := Option.some.inj hpc
        trivial
      · exact absurd (hh.symm.trans hH) (by simp)
  | run pc out c locks hh hc hexec =>
      have hmain := h.main hh
      rw [hc] at hmain
      have hplain := h.plain pc hc
      refine ⟨e, ⟨fun _ => hplain.exec_spec hmain hexec, hplain.exec hexec, fun H hH => ?_⟩, hno⟩
      exact absurd (hh.symm.trans hH) (by simp)
  | interrupt hh hsie =>
      obtain ⟨hnil, h0, hout, hin⟩ := (h.main hh).paused hsie
      -- the handler finds the CPU no lock deep and leaves by the frame it finds it in
      have hint : ∀ e', Paused e' s.call →
          IrqInv e' { s with
            cpu := { s.cpu with csr := trapSstatus s.cpu.csr }
            handler := some ⟨trapSstatus s.cpu.csr, none, [], false⟩ } := by
        intro e' hpaused
        refine ⟨by simp, h.plain, fun H hH => ?_⟩
        obtain rfl := Option.some.inj hH
        refine ⟨hnil, hpaused, ?_, by simp, ⟨_, hsie, rfl⟩,
          fun ht => by cases ht⟩
        exact ⟨h0, fun _ => enabled_trap _, fun hne => absurd rfl hne⟩
      by_cases hw : InWindow s.call
      · refine ⟨false, hint false (hin hw), ?_⟩
        simp [hw]
      · refine ⟨e, hint e (hout hw), ?_⟩
        simp [hw]
  | handlerLock l H hh hc hmany =>
      have hi := h.handler H hh
      have hcall := hi.call
      rw [hc] at hcall
      refine ⟨e, ⟨by simp, h.plain, fun H' hH' => ?_⟩, hno⟩
      obtain rfl := Option.some.inj hH'
      refine ⟨hi.held, hi.paused, hcall.lock false l, fun pc hpc => ?_, hi.frame,
        fun _ hn => by cases hn⟩
      obtain rfl := Option.some.inj hpc
      exact ⟨rfl, hmany⟩
  | handlerUnlock l H hh hc hl =>
      have hi := h.handler H hh
      have hcall := hi.call
      rw [hc] at hcall
      refine ⟨e, ⟨by simp, h.plain, fun H' hH' => ?_⟩, hno⟩
      obtain rfl := Option.some.inj hH'
      refine ⟨hi.held, hi.paused, hcall.unlock hl, fun pc hpc => ?_, hi.frame,
        fun _ hn => by cases hn⟩
      obtain rfl := Option.some.inj hpc
      trivial
  | handlerRun H pc out c locks hh hc hexec =>
      have hi := h.handler H hh
      have hcall := hi.call
      rw [hc] at hcall
      have hplain := hi.plain pc hc
      refine ⟨e, ⟨by simp, h.plain, fun H' hH' => ?_⟩, hno⟩
      obtain rfl := Option.some.inj hH'
      exact ⟨hi.held, hi.paused, hplain.exec_spec hcall hexec, hplain.exec hexec, hi.frame,
        fun _ hret => exec_saved hcall hexec hret⟩
  | sret H hh hc hheld htook =>
      have hi := h.handler H hh
      have hcall := hi.call
      rw [hc, hheld] at hcall
      obtain ⟨v, hv, hframe⟩ := hi.frame
      have hsie : enabled (sretSstatus H.frame) = true := by
        rw [hframe]
        exact enabled_sret hv
      refine ⟨e, ⟨fun _ => ?_, h.plain, fun H' hH' => by cases hH'⟩, hno⟩
      rw [hi.held]
      exact hi.paused.resume (c := { s.cpu with csr := sretSstatus H.frame }) hcall.lockDepth hsie
        (hi.saved htook hc)
  | env locks hmain hhandler =>
      refine ⟨e, ⟨h.main, h.plain, fun H hH => ?_⟩, hno⟩
      have hi := h.handler H hH
      exact ⟨hi.held, hi.paused, hi.call, hi.plain, hi.frame, hi.saved⟩

/-- **Run lemma**. -/
theorem IrqRun.inv (hrun : IrqRun l taken s) :
    ∃ e, IrqInv e s ∧ (e = true ↔ ∀ a ∈ taken, ¬InWindow a) := by
  induction hrun with
  | init hdepth hsie =>
      refine ⟨true, ⟨fun _ => ?_, fun pc hpc => ?_, fun H hH => by cases hH⟩, by simp⟩
      · exact ⟨hdepth, fun _ => hsie, fun hne => absurd rfl hne⟩
      · obtain rfl := Option.some.inj hpc
        exact ⟨rfl, by norm_num⟩
  | step _ hstep ih =>
      obtain ⟨e, hinv, he⟩ := ih
      obtain ⟨e', hinv', he'⟩ := hinv.step hstep
      refine ⟨e', hinv', ?_⟩
      rw [he', he, List.forall_mem_append, and_comm]

/-- What the interrupted code finds when its outermost `spin_unlock` has returned. -/
def Restored (s : IrqState κ) : Prop := s.cpu.lockDepth = 0 ∧ enabled s.cpu.csr = true

/-- **Interrupt safety**, exactly: neither the code nor a handler runs into the panic of
`spin_unlock`, and the code ends with interrupts on and no lock deep if and only if no interrupt
came between its store to `c->sstatus` and its clear of `SIE`. -/
theorem IrqRun.finishes_iff (hrun : IrqRun l taken s) :
    s.call ≠ some .panic ∧ (∀ H, s.handler = some H → H.call ≠ some .panic) ∧
      (Finished s → (Restored s ↔ ∀ a ∈ taken, ¬InWindow a)) := by
  obtain ⟨e, hinv, he⟩ := hrun.inv
  refine ⟨fun hp => ?_, fun H hH hp => ?_, fun hdone => ?_⟩
  · cases hh : s.handler with
    | none =>
        have hmain := hinv.main hh
        rw [hp] at hmain
        exact hmain
    | some H =>
        have hpaused := (hinv.handler H hh).paused
        rw [hp] at hpaused
        exact hpaused
  · have hcall := (hinv.handler H hH).call
    rw [hp] at hcall
    exact hcall
  · have hmain := hinv.main hdone.handler
    rw [hdone.call, hdone.held] at hmain
    have hsie : enabled s.cpu.csr = e := hmain.free rfl
    unfold Restored
    rw [hsie, ← he]
    exact and_iff_right hmain.lockDepth

/-! ### A section with one interrupt -/

/-- The next step of the call in progress, of the handler if there is one. -/
def irqRun (s : IrqState κ) : IrqState κ :=
  match s.handler with
  | none =>
      match s.call with
      | none => s
      | some pc =>
          let r := exec pc s.cpu s.locks
          { s with
            cpu := r.2.1, locks := r.2.2, call := r.1.call, held := track pc s.locks s.held }
  | some H =>
      match H.call with
      | none => s
      | some pc =>
          let r := exec pc s.cpu s.locks
          { s with
            cpu := r.2.1
            locks := r.2.2
            handler := some { H with call := r.1.call, held := track pc s.locks H.held } }

theorem IrqRun.irqRun (n : Nat) : ∀ {s : IrqState κ}, IrqRun l taken s →
    IrqRun l taken (Spinlock.irqRun^[n] s) := by
  induction n with
  | zero => exact fun hrun => hrun
  | succ n ih =>
      intro s hrun
      refine ih ?_
      unfold Spinlock.irqRun
      split
      · rename_i hh
        split
        · exact hrun
        · rename_i pc hc
          exact hrun.step (.run pc _ _ _ hh hc rfl)
      · rename_i H hh
        split
        · exact hrun
        · rename_i pc hc
          exact hrun.step (.handlerRun H pc _ _ _ hh hc rfl)

/-- The code has given `n` steps of its `spin_lock(false)`. -/
def entered (n : Nat) : IrqState Bool :=
  irqRun^[n] ⟨⟨0, 0#64, sie⟩, fun _ => false, some (spinLock false), [], none⟩

theorem entered_run (n : Nat) : IrqRun false [] (entered n) :=
  IrqRun.irqRun n (.init rfl (by decide))

/-- A handler has come in and taken the lock `true`. -/
def handling (n : Nat) : IrqState Bool :=
  irqRun^[6] { entered n with
    cpu := { (entered n).cpu with csr := trapSstatus (entered n).cpu.csr }
    handler := some ⟨trapSstatus (entered n).cpu.csr, some (spinLock true), [], true⟩ }

theorem handling_run {n : Nat} (hh : (entered n).handler = none)
    (hsie : enabled (entered n).cpu.csr = true) :
    IrqRun false [(entered n).call] (handling n) :=
  IrqRun.irqRun 6 (((entered_run n).step (.interrupt hh hsie)).step
    (.handlerLock true _ rfl rfl (by simp)))

/-- It has released the lock. -/
def handled (n : Nat) (H : Handler Bool) : IrqState Bool :=
  irqRun^[5] { handling n with handler := some { H with call := some (spinUnlock true) } }

/-- It has returned, and the code has taken its lock. -/
def resumed (n : Nat) (H H' : Handler Bool) : IrqState Bool :=
  irqRun^[6 - n] { handled n H with
    cpu := { (handled n H).cpu with csr := sretSstatus H'.frame }, handler := none }

/-- The code has released its lock. -/
def released (n : Nat) (H H' : Handler Bool) : IrqState Bool :=
  irqRun^[5] { resumed n H H' with call := some (spinUnlock false) }

theorem released_run (n : Nat) (H H' : Handler Bool) {a : Option (Pc Bool)}
    (ha : (entered n).call = a) (hh : (entered n).handler = none)
    (hsie : enabled (entered n).cpu.csr = true) (hH : (handling n).handler = some H)
    (hc : H.call = none) (hl : true ∈ H.held) (hH' : (handled n H).handler = some H')
    (hc' : H'.call = none) (hheld : H'.held = []) (htook : H'.took = true)
    (hh₄ : (resumed n H H').handler = none) (hc₄ : (resumed n H H').call = none)
    (hl₄ : false ∈ (resumed n H H').held) :
    IrqRun false [a] (released n H H') := by
  rw [← ha]
  have h₃ : IrqRun false [(entered n).call] (handled n H) :=
    IrqRun.irqRun 5 ((handling_run hh hsie).step (.handlerUnlock true H hH hc hl))
  have h₄ : IrqRun false [(entered n).call] (resumed n H H') :=
    IrqRun.irqRun (6 - n) (h₃.step (.sret H' hH' hc' hheld htook))
  exact IrqRun.irqRun 5 (h₄.step (.unlock false hh₄ hc₄ hl₄))

/-- An interrupt before `read_csr` does no harm. -/
theorem finishes_after_interrupt :
    ∃ s : IrqState Bool, IrqRun false [some (.readCsr false false)] s ∧ Finished s ∧
      Restored s := by
  have hrun : IrqRun false [some (.readCsr false false)]
      (released 1 ⟨0x120#64, none, [true], true⟩ ⟨0x120#64, none, [], true⟩) :=
    released_run 1 _ _ rfl rfl (by decide) rfl rfl (by decide) rfl rfl rfl rfl rfl rfl (by decide)
  refine ⟨_, hrun, ⟨rfl, rfl, rfl⟩, (hrun.finishes_iff.2.2 ⟨rfl, rfl, rfl⟩).mpr ?_⟩
  intro a ha
  rw [List.mem_singleton] at ha
  rintro ⟨b, l, hw⟩
  rw [ha] at hw
  cases hw

/-- An interrupt between the store to `c->sstatus` and the clear of `SIE` leaves interrupts off
for good. -/
theorem interrupt_in_window :
    ∃ s : IrqState Bool, IrqRun false [some (.clearSie false false)] s ∧ Finished s ∧
      enabled s.cpu.csr = false ∧ ¬Restored s := by
  have hrun : IrqRun false [some (.clearSie false false)]
      (released 3 ⟨0x120#64, none, [true], true⟩ ⟨0x120#64, none, [], true⟩) :=
    released_run 3 _ _ rfl rfl (by decide) rfl rfl (by decide) rfl rfl rfl rfl rfl rfl (by decide)
  have hsie : enabled (released 3 ⟨0x120#64, none, [true], true⟩
      ⟨0x120#64, none, [], true⟩).cpu.csr = false := by decide
  refine ⟨_, hrun, ⟨rfl, rfl, rfl⟩, hsie, fun hr => ?_⟩
  rw [hr.2] at hsie
  cases hsie

end SystemN.Spinlock
