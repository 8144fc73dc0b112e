/-
What a spinlock call does to the lock state of its CPU.

`AtPc` says what a CPU looks like at each step of a call: how deep it is, whether
interrupts are off, and that the state to go back to is still saved.  One lemma
about `exec` carries it through a call, whatever other harts do to the locks; the
two machines, many harts and one hart with interrupts, both rest on it.
-/
import SystemN.Spinlock
import Mathlib.Data.List.Nodup

namespace SystemN.Spinlock

open RiscV (Word spp spie sie)

/-! ### `SIE` -/

theorem enabled_clear (v : Word) : enabled (v &&& ~~~sie) = false := by
  simp [enabled, sie]

theorem and_sie (v : Word) : v &&& sie = 0 ↔ enabled v = false := by
  rw [show sie = BitVec.twoPow 64 1 by decide, BitVec.and_twoPow]
  unfold enabled
  cases v.getLsbD 1 with
  | false => simp
  | true => simpa using (by decide : BitVec.twoPow 64 1 ≠ 0#64)

theorem enabled_trap (v : Word) : enabled (trapSstatus v) = false := by
  unfold trapSstatus enabled
  split
  · simp [spp, spie, sie]
  · simp [spp, spie, sie]

/-- A trap from a place with interrupts on goes back with interrupts on. -/
theorem enabled_sret {v : Word} (h : enabled v = true) :
    enabled (sretSstatus (trapSstatus v)) = true := by
  have hspie : trapSstatus v &&& spie ≠ 0 := by
    intro h0
    have hv : ¬v &&& sie = 0 := fun hv => by
      rw [(and_sie v).mp hv] at h
      cases h
    rw [trapSstatus, if_neg hv] at h0
    have hbit := congrArg (fun w : Word => w.getLsbD 5) h0
    simp [spie] at hbit
  unfold sretSstatus
  rw [if_neg hspie]
  simp [enabled, sie]

/-- The hardware's part of a trap and of `sret`, in the machine of `trap_vec.S`. -/
theorem trap_sstatus {m : RiscV.Machine} (hm : m.mode = .supervisor) (cause tval tvec : Word) :
    (m.trap cause tval tvec).csrs .sstatus = trapSstatus (m.csrs .sstatus) := by
  simp [RiscV.Machine.trap, trapSstatus, hm]

theorem sret_sstatus (m : RiscV.Machine) : m.sret.csrs .sstatus = sretSstatus (m.csrs .sstatus) :=
  rfl

/-! ### One call -/

variable {ι κ : Type*} {pc : Pc κ} {c c' : LockCpu} {locks locks' : κ → Bool} {held : List κ}
  {e : Bool} {out : Outcome κ}

/-- A CPU that is `n` locks deep, and that is to go back to `SIE = e`. -/
structure Locked (n : Nat) (e : Bool) (c : LockCpu) : Prop where
  lockDepth : c.lockDepth = n
  disabled : enabled c.csr = false
  saved : enabled c.sstatus = e

/-- A CPU with no call in progress that holds `held`, and had `SIE = e` before the first of
them. -/
structure Between (held : List κ) (e : Bool) (c : LockCpu) : Prop where
  lockDepth : c.lockDepth = held.length
  free : held = [] → enabled c.csr = e
  locked : held ≠ [] → Locked held.length e c

/-- A CPU that has come to the step `pc` of a call. -/
def AtPc (held : List κ) (e : Bool) : Pc κ → LockCpu → Prop
  | .testDepth _ _, c => Between held e c
  | .readCsr _ _, c => held = [] ∧ c.lockDepth = 0 ∧ enabled c.csr = e
  | .save _ _ v, c => held = [] ∧ c.lockDepth = 0 ∧ enabled v = e
  | .clearSie _ _, c => held = [] ∧ c.lockDepth = 0 ∧ enabled c.sstatus = e
  | .incDepth _ _, c => Locked held.length e c
  | .testAndSet _, c => Locked (held.length + 1) e c
  | .compareExchange _, c => Locked (held.length + 1) e c
  | .checkDepth l, c => l ∈ held ∧ Locked held.length e c
  | .decDepth l, c => l ∈ held ∧ Locked held.length e c
  | .atomicClear l, c => l ∈ held ∧ Locked (held.length - 1) e c
  | .testLast, c => Locked held.length e c
  | .restore, c => held = [] ∧ Locked 0 e c
  | .panic, _ => False

/-- A CPU with the call `call` in progress, or none. -/
def InCall (held : List κ) (e : Bool) (call : Option (Pc κ)) (c : LockCpu) : Prop :=
  match call with
  | none => Between held e c
  | some pc => AtPc held e pc c

theorem Between.of_locked (h : Locked held.length e c) (hne : held ≠ []) : Between held e c :=
  ⟨h.lockDepth, fun hnil => absurd hnil hne, fun _ => h⟩

/-- A call that is entered between two calls. -/
theorem InCall.lock (h : InCall held e none c) (b : Bool) (l : κ) :
    InCall held e (some (.testDepth b l)) c := h

theorem InCall.unlock (h : InCall held e none c) {l : κ} (hl : l ∈ held) :
    InCall held e (some (spinUnlock l)) c :=
  ⟨hl, h.locked (List.ne_nil_of_mem hl)⟩

variable [DecidableEq ι] [DecidableEq κ]

/-- **A step of a call**, as long as `lock_depth` does not wrap around and a `spin_trylock` finds
its lock free. -/
theorem exec_spec (h : AtPc held e pc c) (hexec : exec pc c locks = (out, c', locks'))
    (hmany : ∀ b l, pc = .incDepth b l → held.length + 1 < 2 ^ 32)
    (hfree : ∀ l, pc = .compareExchange l → locks l = false) :
    InCall (track pc locks held) e out.call c' := by
  cases pc with
  | testDepth b l =>
      rw [exec] at hexec
      split at hexec
      · rename_i h0
        obtain ⟨rfl, rfl, rfl⟩ := hexec
        have hnil : held = [] := List.eq_nil_of_length_eq_zero (h.lockDepth.symm.trans h0)
        exact ⟨hnil, h0, h.free hnil⟩
      · rename_i h0
        obtain ⟨rfl, rfl, rfl⟩ := hexec
        exact h.locked fun hnil => h0 (h.lockDepth.trans (by rw [hnil]; rfl))
  | readCsr b l =>
      obtain ⟨rfl, rfl, rfl⟩ := hexec
      exact h
  | save b l v =>
      obtain ⟨rfl, rfl, rfl⟩ := hexec
      exact h
  | clearSie b l =>
      obtain ⟨rfl, rfl, rfl⟩ := hexec
      obtain ⟨rfl, h0, hsaved⟩ := h
      exact ⟨h0, enabled_clear _, hsaved⟩
  | incDepth b l =>
      obtain ⟨rfl, rfl, rfl⟩ := hexec
      have hdepth : (c.lockDepth + 1) % 2 ^ 32 = held.length + 1 := by
        rw [h.lockDepth]
        exact Nat.mod_eq_of_lt (hmany b l rfl)
      cases b with
      | false => exact ⟨hdepth, h.disabled, h.saved⟩
      | true => exact ⟨hdepth, h.disabled, h.saved⟩
  | testAndSet l =>
      rw [exec] at hexec
      rw [track]
      split at hexec
      · rename_i hl
        obtain ⟨rfl, rfl, rfl⟩ := hexec
        rw [if_pos hl]
        exact h
      · rename_i hl
        obtain ⟨rfl, rfl, rfl⟩ := hexec
        rw [if_neg hl]
        exact Between.of_locked h (List.cons_ne_nil l held)
  | compareExchange l =>
      have hl : ¬locks l = true := by simp [hfree l rfl]
      rw [exec, if_neg hl] at hexec
      obtain ⟨rfl, rfl, rfl⟩ := hexec
      rw [track, if_neg hl]
      exact Between.of_locked h (List.cons_ne_nil l held)
  | checkDepth l =>
      have hpos : 0 < held.length := List.length_pos_of_mem h.1
      rw [exec, if_neg (by rw [h.2.lockDepth]; omega)] at hexec
      obtain ⟨rfl, rfl, rfl⟩ := hexec
      exact h
  | decDepth l =>
      obtain ⟨rfl, rfl, rfl⟩ := hexec
      exact ⟨h.1, congrArg (· - 1) h.2.lockDepth, h.2.disabled, h.2.saved⟩
  | atomicClear l =>
      obtain ⟨rfl, rfl, rfl⟩ := hexec
      have hlen : (held.erase l).length = held.length - 1 := List.length_erase_of_mem h.1
      exact ⟨h.2.lockDepth.trans hlen.symm, h.2.disabled, h.2.saved⟩
  | testLast =>
      rw [exec] at hexec
      split at hexec
      · rename_i h0
        obtain ⟨rfl, rfl, rfl⟩ := hexec
        have hnil : held = [] := List.eq_nil_of_length_eq_zero (h.lockDepth.symm.trans h0)
        exact ⟨hnil, h0, h.disabled, h.saved⟩
      · rename_i h0
        obtain ⟨rfl, rfl, rfl⟩ := hexec
        exact Between.of_locked h fun (hnil : held = []) => h0 (h.lockDepth.trans (by rw [hnil]; rfl))
  | restore =>
      obtain ⟨rfl, rfl, rfl⟩ := hexec
      obtain ⟨rfl, hlocked⟩ := h
      exact ⟨hlocked.lockDepth, fun _ => hlocked.saved, fun hne => absurd rfl hne⟩
  | panic => exact h.elim

/-- What a step does to the words of the locks and to the locks held. -/
theorem exec_locks (held : List κ) (hexec : exec pc c locks = (out, c', locks')) :
    (locks' = locks ∧ track pc locks held = held) ∨
      (∃ l, locks l = false ∧ locks' = Function.update locks l true ∧
        track pc locks held = l :: held) ∨
      ∃ l, pc = .atomicClear l ∧ locks' = Function.update locks l false ∧
        track pc locks held = held.erase l := by
  cases pc with
  | testAndSet l =>
      rw [exec] at hexec
      rw [track]
      split at hexec
      · rename_i hl
        obtain ⟨rfl, rfl, rfl⟩ := hexec
        exact Or.inl ⟨rfl, if_pos hl⟩
      · rename_i hl
        obtain ⟨rfl, rfl, rfl⟩ := hexec
        exact Or.inr (Or.inl ⟨l, by simpa using hl, rfl, if_neg hl⟩)
  | compareExchange l =>
      rw [exec] at hexec
      rw [track]
      split at hexec
      · rename_i hl
        obtain ⟨rfl, rfl, rfl⟩ := hexec
        exact Or.inl ⟨rfl, if_pos hl⟩
      · rename_i hl
        obtain ⟨rfl, rfl, rfl⟩ := hexec
        exact Or.inr (Or.inl ⟨l, by simpa using hl, rfl, if_neg hl⟩)
  | atomicClear l =>
      obtain ⟨rfl, rfl, rfl⟩ := hexec
      exact Or.inr (Or.inr ⟨l, rfl, rfl, rfl⟩)
  | testDepth b l =>
      rw [exec] at hexec
      split at hexec
      · obtain ⟨rfl, rfl, rfl⟩ := hexec
        exact Or.inl ⟨rfl, rfl⟩
      · obtain ⟨rfl, rfl, rfl⟩ := hexec
        exact Or.inl ⟨rfl, rfl⟩
  | checkDepth l =>
      rw [exec] at hexec
      split at hexec
      · obtain ⟨rfl, rfl, rfl⟩ := hexec
        exact Or.inl ⟨rfl, rfl⟩
      · obtain ⟨rfl, rfl, rfl⟩ := hexec
        exact Or.inl ⟨rfl, rfl⟩
  | testLast =>
      rw [exec] at hexec
      split at hexec
      · obtain ⟨rfl, rfl, rfl⟩ := hexec
        exact Or.inl ⟨rfl, rfl⟩
      · obtain ⟨rfl, rfl, rfl⟩ := hexec
        exact Or.inl ⟨rfl, rfl⟩
  | readCsr b l | save b l v | clearSie b l | incDepth b l | decDepth l | restore | panic =>
      obtain ⟨rfl, rfl, rfl⟩ := hexec
      exact Or.inl ⟨rfl, rfl⟩

/-! ### Any number of harts -/

/-- Every hart is where its call has brought it, and a lock is held by one hart at most. -/
structure Inv (s : State ι κ) : Prop where
  hart : ∀ h, InCall (s.held h) (s.before h) (s.call h) (s.cpus h)
  nodup : ∀ h, (s.held h).Nodup
  taken : ∀ h, ∀ l ∈ s.held h, s.locks l = true
  exclusive : ∀ h h', ∀ l ∈ s.held h, l ∈ s.held h' → h = h'

variable {s s' : State ι κ} {h : ι}

omit [DecidableEq ι] [DecidableEq κ] in
theorem Inv.init (h : Initial s) : Inv s := by
  refine ⟨fun i => ?_, fun i => ?_, fun i l hl => ?_, fun i j l hl => ?_⟩
  · rw [h.held i, h.call i]
    refine ⟨h.lockDepth i, fun _ => (h.before i).symm, fun hne => absurd rfl hne⟩
  · rw [h.held i]
    exact List.nodup_nil
  · rw [h.held i] at hl
    cases hl
  · rw [h.held i] at hl
    cases hl

omit [DecidableEq κ] in
/-- A step that changes the CPU of `h` and its call only. -/
theorem Inv.local (hs : Inv s) {c : LockCpu} {call : Option (Pc κ)} {before : Bool}
    (hc : InCall (s.held h) before call c) :
    Inv { s with
      cpus := Function.update s.cpus h c
      call := Function.update s.call h call
      before := Function.update s.before h before } := by
  refine ⟨fun i => ?_, hs.nodup, hs.taken, hs.exclusive⟩
  by_cases hi : i = h
  · subst hi
    simpa using hc
  · simpa [hi] using hs.hart i

/-- The hart `h` takes a free lock. -/
theorem Inv.acquire (hs : Inv s) {l : κ} (hl : s.locks l = false) {c : LockCpu}
    {call : Option (Pc κ)} (hc : InCall (l :: s.held h) (s.before h) call c) :
    Inv { s with
      cpus := Function.update s.cpus h c
      locks := Function.update s.locks l true
      call := Function.update s.call h call
      held := Function.update s.held h (l :: s.held h) } := by
  have hfree : ∀ i, l ∉ s.held i := fun i hm => by
    rw [hs.taken i l hm] at hl
    cases hl
  refine ⟨fun i => ?_, fun i => ?_, fun i k hk => ?_, fun i j k hi hj => ?_⟩
  · by_cases hi : i = h
    · subst hi
      simpa using hc
    · simpa [hi] using hs.hart i
  · by_cases hi : i = h
    · subst hi
      simpa using ⟨hfree i, hs.nodup i⟩
    · simpa [hi] using hs.nodup i
  · by_cases hkl : k = l
    · simp [hkl]
    · have hk' : k ∈ s.held i := by
        by_cases hi : i = h
        · subst hi
          simpa [hkl] using hk
        · simpa [hi] using hk
      simpa [hkl] using hs.taken i k hk'
  · by_cases hih : i = h
    · by_cases hjh : j = h
      · exact hih.trans hjh.symm
      · have hj' : k ∈ s.held j := by simpa [hjh] using hj
        have hi' : k = l ∨ k ∈ s.held h := by simpa [hih] using hi
        rcases hi' with rfl | hi'
        · exact absurd hj' (hfree j)
        · exact absurd (hs.exclusive j h k hj' hi') hjh
    · have hi' : k ∈ s.held i := by simpa [hih] using hi
      by_cases hjh : j = h
      · have hj' : k = l ∨ k ∈ s.held h := by simpa [hjh] using hj
        rcases hj' with rfl | hj'
        · exact absurd hi' (hfree i)
        · exact absurd (hs.exclusive i h k hi' hj') hih
      · exact hs.exclusive i j k hi' (by simpa [hjh] using hj)

/-- The hart `h` releases a lock it holds. -/
theorem Inv.release (hs : Inv s) {l : κ} (hl : l ∈ s.held h) {c : LockCpu}
    {call : Option (Pc κ)} (hc : InCall ((s.held h).erase l) (s.before h) call c) :
    Inv { s with
      cpus := Function.update s.cpus h c
      locks := Function.update s.locks l false
      call := Function.update s.call h call
      held := Function.update s.held h ((s.held h).erase l) } := by
  have hsub : ∀ i, ∀ k ∈ Function.update s.held h ((s.held h).erase l) i,
      k ≠ l ∧ k ∈ s.held i := by
    intro i k hk
    by_cases hi : i = h
    · subst hi
      rw [Function.update_self, (hs.nodup i).mem_erase_iff] at hk
      exact hk
    · rw [Function.update_of_ne hi] at hk
      refine ⟨?_, hk⟩
      rintro rfl
      exact hi (hs.exclusive i h k hk hl)
  refine ⟨fun i => ?_, fun i => ?_, fun i k hk => ?_, fun i j k hi hj => ?_⟩
  · by_cases hi : i = h
    · subst hi
      simpa using hc
    · simpa [hi] using hs.hart i
  · by_cases hi : i = h
    · subst hi
      simpa using (hs.nodup i).erase l
    · simpa [hi] using hs.nodup i
  · obtain ⟨hkl, hk'⟩ := hsub i k hk
    simpa [hkl] using hs.taken i k hk'
  · exact hs.exclusive i j k (hsub i k hi).2 (hsub j k hj).2

/-- A step of `h` on which no `spin_trylock` of it finds its lock taken, and at which
`lock_depth` has room. -/
def Clean (s : State ι κ) (h : ι) : Prop :=
  (∀ l, s.call h = some (.compareExchange l) → s.locks l = false) ∧
    (s.held h).length + 1 < 2 ^ 32

/-- **Step lemma**. -/
theorem Inv.step (hs : Inv s) (hclean : Clean s h) (hstep : Step s h s') : Inv s' := by
  have hself := hs.hart h
  cases hstep with
  | lock l hc =>
      rw [hc] at hself
      have := hs.local (h := h) (hself.lock false l)
      rwa [Function.update_eq_self, Function.update_eq_self] at this
  | trylock l hc =>
      rw [hc] at hself
      have := hs.local (h := h) (hself.lock true l)
      rwa [Function.update_eq_self, Function.update_eq_self] at this
  | unlock l hc hl =>
      rw [hc] at hself
      have := hs.local (h := h) (hself.unlock hl)
      rwa [Function.update_eq_self, Function.update_eq_self] at this
  | other v hc hh =>
      rw [hc] at hself
      have hnew : InCall (s.held h) (enabled v) (s.call h) { s.cpus h with csr := v } := by
        rw [hc, hh]
        exact ⟨hself.lockDepth.trans (by rw [hh]), fun _ => rfl, fun hne => absurd rfl hne⟩
      have := hs.local (h := h) hnew
      rwa [Function.update_eq_self h s.call] at this
  | run pc out c locks hc hexec =>
      rw [hc] at hself
      have hnew : InCall (track pc s.locks (s.held h)) (s.before h) out.call c := by
        refine exec_spec hself hexec (fun _ _ _ => hclean.2) fun l hpc => hclean.1 l ?_
        rw [hc, hpc]
      rcases exec_locks (s.held h) hexec with ⟨hlocks, htrack⟩ | ⟨l, hl, hlocks, htrack⟩ |
        ⟨l, rfl, hlocks, htrack⟩
      · rw [htrack] at hnew ⊢
        have := hs.local (h := h) hnew
        rw [Function.update_eq_self] at this ⊢
        rwa [hlocks]
      · rw [htrack] at hnew ⊢
        rw [hlocks]
        exact hs.acquire hl hnew
      · rw [htrack] at hnew ⊢
        rw [hlocks]
        exact hs.release hself.1 hnew

theorem Run.inv (hrun : Run Clean s) : Inv s := by
  induction hrun with
  | init h => exact Inv.init h
  | step _ hclean hstep ih => exact ih.step hclean hstep

/-- The lock account of a hart between two calls. -/
structure Accounted (s : State ι κ) (h : ι) : Prop where
  /-- `lock_depth` is the number of locks held. -/
  depth : (s.cpus h).lockDepth = (s.held h).length
  distinct : (s.held h).Nodup
  disabled : s.held h ≠ [] → enabled (s.cpus h).csr = false
  restored : s.held h = [] → enabled (s.cpus h).csr = s.before h

/-- **Run lemma**: along a run of clean steps every hart's account is right whenever it has no
call in progress. -/
theorem Run.accounted (hrun : Run Clean s) (h : ι) (hc : s.call h = none) : Accounted s h := by
  have hinv := hrun.inv
  have hbetween := hinv.hart h
  rw [hc] at hbetween
  exact ⟨hbetween.lockDepth, hinv.nodup h, fun hne => (hbetween.locked hne).disabled,
    hbetween.free⟩

/-! ### Two harts and one lock -/

/-- The next step of the call in progress on `h`. -/
def runCall (s : State ι κ) (h : ι) : State ι κ :=
  match s.call h with
  | none => s
  | some pc =>
      let r := exec pc (s.cpus h) s.locks
      { s with
        cpus := Function.update s.cpus h r.2.1
        locks := r.2.2
        call := Function.update s.call h r.1.call
        held := Function.update s.held h (track pc s.locks (s.held h)) }

/-- The call in progress on `h` is given up to `n` steps. -/
theorem Run.runCall {good : State ι κ → ι → Prop} (n : Nat) :
    ∀ {s : State ι κ}, Run good s →
      (∀ i < n, good ((fun s => Spinlock.runCall s h)^[i] s) h) →
        Run good ((fun s => Spinlock.runCall s h)^[n] s) := by
  induction n with
  | zero => exact fun hrun _ => hrun
  | succ n ih =>
      intro s hrun hgood
      refine ih ?_ fun i hi => hgood (i + 1) (by omega)
      change Run good (Spinlock.runCall s h)
      unfold Spinlock.runCall
      split
      · exact hrun
      · rename_i pc hc
        exact hrun.step (hgood 0 (by omega)) (.run pc _ _ _ hc rfl)

/-- Two harts with interrupts on, and a free lock. -/
def twoHarts : State Bool Unit where
  cpus _ := ⟨0, 0#64, sie⟩
  locks _ := false
  call _ := none
  held _ := []
  before _ := true

theorem twoHarts_initial : Initial twoHarts :=
  ⟨fun _ => rfl, fun _ => rfl, fun _ => rfl, fun _ => rfl, by decide⟩

/-- The first hart has taken the lock. -/
def lockTaken : State Bool Unit :=
  (fun s => runCall s false)^[6]
    { twoHarts with call := Function.update twoHarts.call false (some (spinLock ())) }

/-- The second one has tried to take it too. -/
def tryFailed : State Bool Unit :=
  (fun s => runCall s true)^[6]
    { lockTaken with call := Function.update lockTaken.call true (some (spinTrylock ())) }

theorem lockTaken_run {good : State Bool Unit → Bool → Prop} (h0 : good twoHarts false)
    (hgood : ∀ i < 6, good ((fun s => runCall s false)^[i]
      { twoHarts with call := Function.update twoHarts.call false (some (spinLock ())) }) false) :
    Run good lockTaken :=
  Run.runCall 6 ((Run.init twoHarts_initial).step h0 (.lock () rfl)) hgood

/-- A hart that has taken a lock with nobody else about. -/
theorem accounted_lockTaken : (lockTaken.cpus false).lockDepth = 1 ∧ Accounted lockTaken false := by
  refine ⟨by decide, Run.accounted (lockTaken_run ?_ ?_) false (by decide)⟩
  · unfold Clean
    decide
  · unfold Clean
    decide

/-- A `spin_trylock` that returns 0 leaves `lock_depth` at one and interrupts off. -/
theorem trylock_breaks_account :
    ∃ s : State Bool Unit, Run (fun _ _ => True) s ∧ s.call true = none ∧ s.held true = [] ∧
      (s.cpus true).lockDepth = 1 ∧ enabled (s.cpus true).csr = false ∧ ¬Accounted s true := by
  refine ⟨tryFailed, ?_, by decide, by decide, by decide, by decide, fun h => ?_⟩
  · have htaken : Run (fun _ _ => True) lockTaken := lockTaken_run trivial fun _ _ => trivial
    exact Run.runCall 6 (htaken.step trivial (.trylock () (by decide))) fun _ _ => trivial
  · have hdepth : (tryFailed.cpus true).lockDepth = (tryFailed.held true).length := h.depth
    exact absurd hdepth (by decide)

end SystemN.Spinlock
