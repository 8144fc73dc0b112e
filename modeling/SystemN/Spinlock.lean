/-
Spinlocks: `spinlock.c`.

A call is cut wherever another hart or an interrupt can come in between: a step of
`exec` reads or writes one thing, be it a field of the CPU, its `sstatus` register
or the word of a lock.  `Step` is the interleaving of such calls on any number of
harts; `IrqStep` is one hart whose calls are interrupted by a timer handler that
takes spinlocks too.
-/
import SystemN.Lib.RiscV

namespace SystemN.Spinlock

open RiscV (Word spp spie sie)

/-- The lock fields of `cpu_t`, and the `sstatus` register of its hart. -/
structure LockCpu where
  /-- `lock_depth`, a `uint`. -/
  lockDepth : Nat
  /-- The field: the interrupt state before the first lock. -/
  sstatus : Word
  /-- The register. -/
  csr : Word

/-- Whether `SIE` is set. -/
def enabled (sstatus : Word) : Bool := sstatus.getLsbD 1

/-! ### `spin_lock`, `spin_trylock`, `spin_unlock` -/

/-- The next step of a call; the two ways to take a lock share all but the last one, and `isTry`
tells them apart. -/
inductive Pc (κ : Type*) where
  /-- `if (c->lock_depth == 0)`. -/
  | testDepth (isTry : Bool) (l : κ)
  /-- `read_csr(sstatus)`. -/
  | readCsr (isTry : Bool) (l : κ)
  /-- `c->sstatus =` the value read. -/
  | save (isTry : Bool) (l : κ) (v : Word)
  /-- `clear_csr(sstatus, SSTATUS_SIE)`. -/
  | clearSie (isTry : Bool) (l : κ)
  /-- `c->lock_depth++`. -/
  | incDepth (isTry : Bool) (l : κ)
  /-- `__atomic_test_and_set`. -/
  | testAndSet (l : κ)
  /-- `__atomic_compare_exchange_n`. -/
  | compareExchange (l : κ)
  /-- The sanity check of `spin_unlock`. -/
  | checkDepth (l : κ)
  /-- `c->lock_depth--`. -/
  | decDepth (l : κ)
  /-- `__atomic_clear`. -/
  | atomicClear (l : κ)
  /-- The second `if (c->lock_depth == 0)` of `spin_unlock`. -/
  | testLast
  /-- `write_csr(sstatus, c->sstatus)`. -/
  | restore
  /-- "spin_unlock: lock_depth underflow", and the loop behind it. -/
  | panic
  deriving DecidableEq

/-- `spin_lock(l)`. -/
def spinLock {κ : Type*} (l : κ) : Pc κ := .testDepth false l

/-- `spin_trylock(l)`. -/
def spinTrylock {κ : Type*} (l : κ) : Pc κ := .testDepth true l

/-- `spin_unlock(l)`. -/
def spinUnlock {κ : Type*} (l : κ) : Pc κ := .checkDepth l

/-- What a step of a call leads to: the next step, or the return with a value (that of a `void`
function is 0). -/
inductive Outcome (κ : Type*) where
  | next (pc : Pc κ)
  | ret (r : Nat)

variable {ι κ : Type*} [DecidableEq ι] [DecidableEq κ]

/-- One step of a call on the CPU `c`. -/
def exec (pc : Pc κ) (c : LockCpu) (locks : κ → Bool) : Outcome κ × LockCpu × (κ → Bool) :=
  match pc with
  | .testDepth isTry l =>
      if c.lockDepth = 0 then (.next (.readCsr isTry l), c, locks)
      else (.next (.incDepth isTry l), c, locks)
  | .readCsr isTry l => (.next (.save isTry l c.csr), c, locks)
  | .save isTry l v => (.next (.clearSie isTry l), { c with sstatus := v }, locks)
  | .clearSie isTry l => (.next (.incDepth isTry l), { c with csr := c.csr &&& ~~~sie }, locks)
  | .incDepth isTry l =>
      (.next (if isTry then .compareExchange l else .testAndSet l),
        { c with lockDepth := (c.lockDepth + 1) % 2 ^ 32 }, locks)
  | .testAndSet l =>
      if locks l then (.next (.testAndSet l), c, locks)
      else (.ret 0, c, Function.update locks l true)
  | .compareExchange l =>
      if locks l then (.ret 0, c, locks) else (.ret 1, c, Function.update locks l true)
  | .checkDepth l =>
      if c.lockDepth = 0 then (.next .panic, c, locks) else (.next (.decDepth l), c, locks)
  | .decDepth l => (.next (.atomicClear l), { c with lockDepth := c.lockDepth - 1 }, locks)
  | .atomicClear l => (.next .testLast, c, Function.update locks l false)
  | .testLast => if c.lockDepth = 0 then (.next .restore, c, locks) else (.ret 0, c, locks)
  | .restore => (.ret 0, { c with csr := c.sstatus }, locks)
  | .panic => (.next .panic, c, locks)

/-- The call in progress after a step. -/
def Outcome.call : Outcome κ → Option (Pc κ)
  | .next pc => some pc
  | .ret _ => none

/-- The locks held after a step: the word of the lock has been set, or cleared. -/
def track (pc : Pc κ) (locks : κ → Bool) (held : List κ) : List κ :=
  match pc with
  | .testAndSet l => if locks l then held else l :: held
  | .compareExchange l => if locks l then held else l :: held
  | .atomicClear l => held.erase l
  | _ => held

/-! ### Any number of harts -/

/-- The harts `ι` and the locks `κ`. -/
structure State (ι κ : Type*) where
  cpus : ι → LockCpu
  locks : κ → Bool
  /-- The call in progress on each hart. -/
  call : ι → Option (Pc κ)
  /-- The locks each hart holds. -/
  held : ι → List κ
  /-- `SIE` as it was when the hart last ran without a lock. -/
  before : ι → Bool

/-- A step of the hart `h`. -/
inductive Step (s : State ι κ) (h : ι) : State ι κ → Prop where
  | lock (l : κ) (hc : s.call h = none) :
      Step s h { s with call := Function.update s.call h (some (spinLock l)) }
  | trylock (l : κ) (hc : s.call h = none) :
      Step s h { s with call := Function.update s.call h (some (spinTrylock l)) }
  | unlock (l : κ) (hc : s.call h = none) (hl : l ∈ s.held h) :
      Step s h { s with call := Function.update s.call h (some (spinUnlock l)) }
  | run (pc : Pc κ) (out : Outcome κ) (c : LockCpu) (locks : κ → Bool)
      (hc : s.call h = some pc) (hexec : exec pc (s.cpus h) s.locks = (out, c, locks)) :
      Step s h { s with
        cpus := Function.update s.cpus h c
        locks := locks
        call := Function.update s.call h out.call
        held := Function.update s.held h (track pc s.locks (s.held h)) }
  /-- Code that holds no lock may write `sstatus`. -/
  | other (v : Word) (hc : s.call h = none) (hh : s.held h = []) :
      Step s h { s with
        cpus := Function.update s.cpus h { s.cpus h with csr := v }
        before := Function.update s.before h (enabled v) }

/-- No lock is taken and no call in progress. -/
structure Initial (s : State ι κ) : Prop where
  lockDepth : ∀ h, (s.cpus h).lockDepth = 0
  locks : ∀ l, s.locks l = false
  call : ∀ h, s.call h = none
  held : ∀ h, s.held h = []
  before : ∀ h, s.before h = enabled (s.cpus h).csr

/-- Runs whose steps all meet the condition `good`. -/
inductive Run (good : State ι κ → ι → Prop) : State ι κ → Prop where
  | init {s : State ι κ} (h : Initial s) : Run good s
  | step {s s' : State ι κ} {h : ι} (hrun : Run good s) (hgood : good s h) (hstep : Step s h s') :
      Run good s'

/-! ### A hart and its timer interrupts -/

/-- `sstatus` after a trap from supervisor mode. -/
def trapSstatus (v : Word) : Word :=
  (v &&& ~~~(spp ||| spie ||| sie)) ||| spp ||| (if v &&& sie = 0 then 0 else spie)

/-- `sstatus` after `sret`. -/
def sretSstatus (v : Word) : Word :=
  (v &&& ~~~(spp ||| sie)) ||| spie ||| (if v &&& spie = 0 then 0 else sie)

/-- A handler that interrupts the code of a hart. -/
structure Handler (κ : Type*) where
  /-- `sstatus` in the trap frame. -/
  frame : Word
  call : Option (Pc κ)
  held : List κ
  /-- It has taken a lock. -/
  took : Bool

/-- A hart that runs kernel code, `main`, and perhaps a handler on top of it. -/
structure IrqState (κ : Type*) where
  cpu : LockCpu
  locks : κ → Bool
  /-- The call of `main` in progress. -/
  call : Option (Pc κ)
  /-- The locks `main` holds. -/
  held : List κ
  handler : Option (Handler κ)

/-- What happens on the hart; `some at` is an interrupt, and `at` the place where it finds `main`:
the step its call has come to, or nothing between two calls. -/
inductive IrqStep (s : IrqState κ) : Option (Option (Pc κ)) → IrqState κ → Prop where
  /-- The critical section goes on with a nested lock.  So many locks that `lock_depth` wraps
  around would not fit into memory. -/
  | lock (l : κ) (hh : s.handler = none) (hc : s.call = none) (hheld : s.held ≠ [])
      (hmany : s.held.length + 1 < 2 ^ 32) : IrqStep s none { s with call := some (spinLock l) }
  | unlock (l : κ) (hh : s.handler = none) (hc : s.call = none) (hl : l ∈ s.held) :
      IrqStep s none { s with call := some (spinUnlock l) }
  | run (pc : Pc κ) (out : Outcome κ) (c : LockCpu) (locks : κ → Bool) (hh : s.handler = none)
      (hc : s.call = some pc) (hexec : exec pc s.cpu s.locks = (out, c, locks)) :
      IrqStep s none { s with
        cpu := c, locks := locks, call := out.call, held := track pc s.locks s.held }
  /-- A timer interrupt: `trap_vector` saves `sstatus` as the hardware has left it. -/
  | interrupt (hh : s.handler = none) (hsie : enabled s.cpu.csr = true) :
      IrqStep s (some s.call) { s with
        cpu := { s.cpu with csr := trapSstatus s.cpu.csr }
        handler := some ⟨trapSstatus s.cpu.csr, none, [], false⟩ }
  | handlerLock (l : κ) (H : Handler κ) (hh : s.handler = some H) (hc : H.call = none)
      (hmany : H.held.length + 1 < 2 ^ 32) :
      IrqStep s none { s with handler := some { H with call := some (spinLock l), took := true } }
  | handlerUnlock (l : κ) (H : Handler κ) (hh : s.handler = some H) (hc : H.call = none)
      (hl : l ∈ H.held) :
      IrqStep s none { s with handler := some { H with call := some (spinUnlock l) } }
  | handlerRun (H : Handler κ) (pc : Pc κ) (out : Outcome κ) (c : LockCpu) (locks : κ → Bool)
      (hh : s.handler = some H) (hc : H.call = some pc)
      (hexec : exec pc s.cpu s.locks = (out, c, locks)) :
      IrqStep s none { s with
        cpu := c
        locks := locks
        handler := some { H with call := out.call, held := track pc s.locks H.held } }
  /-- The handler has released what it took: `trap_vector` writes `sstatus` back, and `sret`. -/
  | sret (H : Handler κ) (hh : s.handler = some H) (hc : H.call = none) (hheld : H.held = [])
      (htook : H.took = true) :
      IrqStep s none { s with
        cpu := { s.cpu with csr := sretSstatus H.frame }, handler := none }
  /-- The other harts take and release locks that this one does not hold. -/
  | env (locks : κ → Bool)
      (hmain : ∀ l ∈ s.held, locks l = s.locks l)
      (hhandler : ∀ H, s.handler = some H → ∀ l ∈ H.held, locks l = s.locks l) :
      IrqStep s none { s with locks := locks }

/-- Runs of a hart from its outermost `spin_lock(l)`, called with `SIE` set and no lock held;
with the places at which interrupts were taken, last one first. -/
inductive IrqRun (l : κ) : List (Option (Pc κ)) → IrqState κ → Prop where
  | init {c : LockCpu} {locks : κ → Bool} (hdepth : c.lockDepth = 0) (hsie : enabled c.csr = true) :
      IrqRun l [] ⟨c, locks, some (spinLock l), [], none⟩
  | step {taken : List (Option (Pc κ))} {s s' : IrqState κ} {at' : Option (Option (Pc κ))}
      (hrun : IrqRun l taken s) (hstep : IrqStep s at' s') : IrqRun l (at'.toList ++ taken) s'

/-- The outermost `spin_unlock` has returned. -/
structure Finished (s : IrqState κ) : Prop where
  call : s.call = none
  held : s.held = []
  handler : s.handler = none

end SystemN.Spinlock
