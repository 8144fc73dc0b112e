/-
Between two traps: `jump_to_user_shell`, `idle_loop`, and the way out of a trap.

The end of `swtch` is a `ret` into the context it has loaded.  For a context that an
earlier `swtch` saved, the hart then returns from `schedule` and `trap_handler` into
`trap_vector`, with the stack pointer of the process that called it, restores the
frame there and executes `sret`.  How many bytes of stack the two C functions use is
the compiler's choice, and so a parameter.
-/
import SystemN.Trap
import SystemN.Start

namespace SystemN

@[simp] abbrev sstatusSie : Nat := 1 <<< 1

/-- What the compiler has made of `schedule` and `trap_handler`: for the return address of a call
of `swtch`, how far `sp` is there below the `sp` of `call trap_handler`. -/
structure Code where
  depth : Nat → Option Nat

/-- Where a hart is between two traps. -/
inductive Place where
  /-- In user mode, behind an `sret`; with the frame `trap_vector` has restored before it. -/
  | user (frame : Option Nat)
  /-- In the `wfi` loop of `idle_loop`. -/
  | idle
  deriving DecidableEq, Repr

namespace Kernel

/-- `jump_to_user_shell`, up to its `sret`. -/
def jumpToUserShell (k : Kernel) : Kernel :=
  let p := k.cpu.proc
  let k := k.writeSstatus sstatusSpie
  let k := k.writeSstatus (k.hart.sstatus &&& (2 ^ 64 - 1 - sstatusSpp))
  let k := k.writeSscratch (k.procs p).tf
  let k := k.loadPagetable (k.procs p).pagetable
  k.setSum.clearSum

/-- The byte of memory that user code reaches at `va` with the permission `perm`, through the table
in `satp`. -/
def userAccess (k : Kernel) (va perm : Nat) : Option Nat :=
  match k.mm.translate k.satpRoot va with
  | some (pa, flags) => if flags &&& pteU ≠ 0 ∧ flags &&& perm ≠ 0 then some pa else none
  | none => none

/-- What user code of the process `p` finds at `va`: a byte, and the flags of its page. -/
def procByte (k : Kernel) (p va : Nat) : Option (UInt8 × Nat) :=
  match k.mm.translate (k.procs p).pagetable va with
  | some (pa, flags) => if flags &&& pteU ≠ 0 then some (k.mm.mem pa, flags) else none
  | none => none

/-- User code stores the byte `c` at `va`; where it may not, there is a fault, and the kernel halts. -/
def userStore (k : Kernel) (va : Nat) (c : UInt8) : Option Kernel :=
  (k.userAccess va pteW).map fun pa => k.setMm (k.mm.setMem (Function.update k.mm.mem pa c))

/-- `idle_loop`, up to its `wfi`. -/
def idleLoop (k : Kernel) : Kernel :=
  let k := k.writeStvec .idleTrapVector
  k.writeSstatus (k.hart.sstatus ||| sstatusSie)

/-- Where the `ret` behind a trap leads: to `idle_loop`, or up through `trap_handler` to the frame
that `sp` then points to.  Any other address is nowhere to go on. -/
def resume (code : Code) (k : Kernel) : Option (Place × Kernel) :=
  if k.hart.ctx.ra = k.symbols.idleLoop then some (.idle, k.idleLoop)
  else (code.depth k.hart.ctx.ra).map fun d => (.user (some (u64 (k.hart.ctx.sp + d))), k)

/-- The trap `t` is taken at `place`: the code at `stvec` hands over a frame.  `trap_vector` takes
its address from `sscratch`, or makes room for it on the stack it finds; `idle_trap_vector` saves
nothing, and passes `scause`. -/
def Enters (k : Kernel) (place : Place) (t : Trap) : Prop :=
  match k.hart.stvec, place with
  | .trapVector, .user _ => t.tf = k.hart.sscratch
  | .trapVector, .idle => True
  | .idleTrapVector, _ => t.tf = t.scause ∧ t.frame = k.frames t.tf

/-- The registers `c` of a call of `swtch` that is made in a trap with the frame `tf`. -/
def CallsSwtch (code : Code) (tf : Nat) (c : Context) : Prop :=
  ∃ d, code.depth c.ra = some d ∧ u64 (c.sp + d) = tf

end Kernel

open Kernel in
/-- One trap on a hart, and where it goes on.  Until `schedule` calls `swtch` the hart has the
registers `c`; it calls it when it changes `c->proc`. -/
inductive HartStep (code : Code) (k : Kernel) : Place → Kernel → Place → Prop where
  | user {frame : Option Nat} {t : Trap} {c : Context} {k' k'' : Kernel} {place : Place}
      (hentry : k.Enters (.user frame) t)
      (hc : k.hart.stvec = .trapVector → CallsSwtch code t.tf c)
      (hk : (k.setCtx c).takeTrap t = .ok k') (hresume : k'.resume code = some (place, k'')) :
      HartStep code k (.user frame) k'' place
  /-- The trap handler returns to `idle_trap_vector`. -/
  | idleStay {t : Trap} {c : Context} {k' : Kernel} (hentry : k.Enters .idle t)
      (hk : (k.setCtx c).takeTrap t = .ok k') (hcurr : k'.cpu.proc = k.cpu.proc) :
      HartStep code k .idle k' .idle
  | idleSwitch {t : Trap} {c : Context} {k' k'' : Kernel} {place : Place}
      (hentry : k.Enters .idle t) (hk : (k.setCtx c).takeTrap t = .ok k')
      (hcurr : k'.cpu.proc ≠ k.cpu.proc) (hresume : k'.resume code = some (place, k'')) :
      HartStep code k .idle k'' place

/-- The runs of a hart from the state `k₀` behind `jump_to_user_shell`. -/
inductive HartRun (code : Code) (k₀ : Kernel) : Kernel → Place → Prop where
  | start : HartRun code k₀ k₀ (.user none)
  | step {k k' : Kernel} {place place' : Place} (hrun : HartRun code k₀ k place)
      (hstep : HartStep code k place k' place') : HartRun code k₀ k' place'

end SystemN
