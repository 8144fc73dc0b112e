/-
The system, as what its processes see of it.

A process has a number, memory and a heap, and nothing else that user code knows of; all of them share
one UART.  That is a `World`.  In it a process stores a byte or makes a system call, and what becomes of
the world is said without tables, frames, queues and allocators.

The world of a state of the kernel is the one that it `Represents`.  Each step of the system is one of
the world, or none, and so is each run.  What is proved of worlds is then true of the system.
-/
import SystemN.Proofs.CallSpec

namespace SystemN

open Mm Radix Spaces Kernel

/-! ### A process -/

/-- Memory with the program below `start`, the heap above it and the stack at the top. -/
def LaidOut (start : Nat) (M : UserMemory) : Prop :=
  ∀ va c f, M va = some (c, f) →
    va < start ∧ f = mapFlags (pteR ||| pteX ||| pteU) ∨
    (start ≤ va ∧ va < userHeapEnd ∨ userStackBase ≤ va ∧ va < userStackTop) ∧ f = mapFlags heapPerm

/-- A process on its own. -/
structure Process where
  pid : Nat
  memory : UserMemory
  heapStart : Nat
  heapEnd : Nat
  startAligned : heapStart % pageSize = 0
  endAligned : heapEnd % pageSize = 0
  le : heapStart ≤ heapEnd
  top : heapEnd ≤ userHeapEnd
  laidOut : LaidOut heapStart memory

/-- The processes, and what passes through the UART. -/
structure World where
  procs : Nat → Process
  typed : List UInt8
  sent : List UInt8

/-- What user code does to the world. -/
inductive Action where
  | store (va : Nat) (c : UInt8)
  /-- A system call with the registers `regs` and the answer `v`. -/
  | call (regs : Nat → Nat) (v : Nat)

namespace Process

/-- The record of the process, with what the system calls read there. -/
def record (P : Process) : Proc := { Proc.zero with pid := P.pid, heapEnd := P.heapEnd }

/-- What an action of the process makes of the state it sees. -/
def Does (P : Process) : Action → UserState → UserState → Prop
  | .store va c, s, s' => (∃ b f, s.memory va = some (b, f) ∧ f &&& pteW ≠ 0) ∧
      s' = { s with memory := s.memory.write va [c] }
  | .call regs v, s, s' => CallSpec v s s' P.record regs

end Process

namespace World

variable {w w' w₁ : World} {p q : Nat} {a : Action} {es es' : List (Nat × Action)}

/-- What the process `p` sees. -/
def seen (w : World) (p : Nat) : UserState where
  memory := (w.procs p).memory
  heapEnd := (w.procs p).heapEnd
  typed := w.typed
  sent := w.sent

/-- The process `p` does `a`. -/
structure Step (w : World) (p : Nat) (a : Action) (w' : World) : Prop where
  does : (w.procs p).Does a (w.seen p) (w'.seen p)
  pid : (w'.procs p).pid = (w.procs p).pid
  heapStart : (w'.procs p).heapStart = (w.procs p).heapStart
  others : ∀ q ≠ p, w'.procs q = w.procs q

/-- The actions of all processes, in the order in which they happen. -/
inductive Run (w : World) : List (Nat × Action) → World → Prop where
  | refl : Run w [] w
  | step {es : List (Nat × Action)} {w₁ w' : World} {p : Nat} {a : Action} (h : Run w es w₁)
      (hstep : w₁.Step p a w') : Run w (es ++ [(p, a)]) w'

end World

/-! ### What an action leaves -/

section Actions

variable {start lo hi va v : Nat} {M : UserMemory} {bytes : List UInt8} {s s' : UserState} {P : Proc}
  {regs : Nat → Nat}

theorem LaidOut.write (h : LaidOut start M) : LaidOut start (M.write va bytes) := by
  intro va' c f hat
  unfold UserMemory.write at hat
  split at hat
  · obtain ⟨⟨b, f'⟩, hold, heq⟩ := Option.map_eq_some_iff.mp hat
    obtain ⟨-, rfl⟩ := Prod.mk.inj heq
    exact h va' b f' hold
  · exact h va' c f hat

theorem LaidOut.remove (h : LaidOut start M) : LaidOut start (M.remove lo hi) := by
  intro va' c f hat
  unfold UserMemory.remove at hat
  split at hat
  · cases hat
  · exact h va' c f hat

/-- The heap gets longer. -/
theorem LaidOut.extend (h : LaidOut start M) (hlo : start ≤ lo) (hhi : hi ≤ userHeapEnd) :
    LaidOut start (M.extend lo hi (mapFlags heapPerm)) := by
  intro va' c f hat
  unfold UserMemory.extend at hat
  split at hat
  · next hin =>
    obtain ⟨-, rfl⟩ := Prod.mk.inj (Option.some.inj hat)
    exact Or.inr ⟨Or.inl ⟨hlo.trans hin.1, hin.2.1.trans_le hhi⟩, rfl⟩
  · exact h va' c f hat

/-- No call moves the program, the heap and the stack. -/
theorem CallSpec.laidOut (h : CallSpec v s s' P regs) (hM : LaidOut start s.memory)
    (hlo : start ≤ s.heapEnd) (htop : s'.heapEnd ≤ userHeapEnd) : LaidOut start s'.memory := by
  unfold CallSpec at h
  split at h
  · unfold WriteSpec at h
    split at h
    · rwa [h.2]
    · obtain ⟨bytes, -, -, -, rfl⟩ := h
      exact hM
  · unfold ReadSpec at h
    split at h
    · rwa [h.2]
    · obtain ⟨-, -, rfl⟩ := h
      dsimp only
      split
      · exact hM.write
      · exact hM
  · rcases h with ⟨-, rfl⟩ | ⟨-, mid, -, hmid, rfl⟩
    · exact hM.remove.extend hlo htop
    · exact hM.extend hlo hmid
  · obtain ⟨mid, -, rfl, -⟩ := h
    exact hM.remove
  all_goals rwa [h.2]

/-- Of the record of a process the calls read the number and the end of the heap. -/
theorem CallSpec.congr {P' : Proc} (h : CallSpec v s s' P regs) (hpid : P'.pid = P.pid)
    (hheap : P'.heapEnd = P.heapEnd) : CallSpec v s s' P' regs := by
  unfold CallSpec at h ⊢
  rw [newBrk, hpid, hheap]
  exact h

theorem Process.Does.laidOut {P : Process} {a : Action} (h : P.Does a s s') (hM : LaidOut start s.memory)
    (hlo : start ≤ s.heapEnd) (htop : s'.heapEnd ≤ userHeapEnd) : LaidOut start s'.memory := by
  cases a with
  | store va c =>
      rw [h.2]
      exact hM.write
  | call regs v => exact CallSpec.laidOut h hM hlo htop

end Actions

/-! ### What the system does -/

namespace Kernel

variable {L : Layout} {m : Nat → UInt8} {k k' k₁ : Kernel} {p q stack : Nat} {ps : List Nat} {t : Trap}
  {live : Multiset (Nat × Nat)} {taken given fl : Nat → List Nat} {New : UInt8 → Prop}
  {es : List (Nat × Action)} {w : World} {a : Action}

/-- A step of the system, with what user code does in it. -/
inductive ActionStep (ps : List Nat) (k : Kernel) : List (Nat × Action) → Kernel → Prop where
  | store {k' : Kernel} {va : Nat} {c : UInt8} (hstore : k.userStore va c = some k') :
      ActionStep ps k [(k.cpu.proc, .store va c)] k'
  /-- An `ecall` of a process, which finds the answer in `a0`. -/
  | call {k' : Kernel} {t : Trap} {c : Context} (hcurr : k.cpu.proc ∈ ps) (hecall : IsEcall t)
      (hsaves : k.SavesFrame ps t) (hunmap : (k.trapEntry t).UnmapsOwn k.cpu.proc)
      (hcall : (k.setCtx c).takeTrap t = .ok k') :
      ActionStep ps k [(k.cpu.proc, .call t.frame.regs ((k'.frames t.tf).regs 10))] k'
  /-- Any other trap. -/
  | trap {k' : Kernel} {t : Trap} {c : Context} (hother : k.cpu.proc ∈ ps → ¬IsEcall t)
      (hsaves : k.SavesFrame ps t) (hunmap : IsEcall t → (k.trapEntry t).UnmapsOwn k.cpu.proc)
      (hcall : (k.setCtx c).takeTrap t = .ok k') : ActionStep ps k [] k'
  | idle (hcurr : k.cpu.proc ∉ ps) : ActionStep ps k [] k.idleLoop

/-- The steps from the state `k` on. -/
inductive ActionPath (ps : List Nat) (k : Kernel) : List (Nat × Action) → Kernel → Prop where
  | refl : ActionPath ps k [] k
  | step {es es' : List (Nat × Action)} {k₁ k' : Kernel} (h : ActionPath ps k es k₁)
      (hstep : ActionStep ps k₁ es' k') : ActionPath ps k (es ++ es') k'

theorem ActionStep.system (h : ActionStep ps k es k') : ∃ es', SystemStep ps k es' k' := by
  cases h with
  | store hstore => exact ⟨_, .store hstore⟩
  | call _ _ hsaves hunmap hcall => exact ⟨_, .trap hsaves (fun _ => hunmap) hcall⟩
  | trap _ hsaves hunmap hcall => exact ⟨_, .trap hsaves hunmap hcall⟩
  | idle hcurr => exact ⟨_, .idle hcurr⟩

/-- The world `w` has the processes `ps` of the kernel as user code finds them. -/
structure Represents (ps : List Nat) (k : Kernel) (w : World) : Prop where
  seen : ∀ p ∈ ps, w.seen p = k.userState p
  heapStart : ∀ p ∈ ps, (w.procs p).heapStart = (k.procs p).heapStart
  pid : ∀ p ∈ ps, (w.procs p).pid = (k.procs p).pid
  typed : w.typed = k.uartIn
  sent : w.sent = k.uartOut

theorem Represents.memory (hw : Represents ps k w) (hp : p ∈ ps) : (w.procs p).memory = k.procByte p :=
  congrArg UserState.memory (hw.seen p hp)

theorem Represents.heapEnd (hw : Represents ps k w) (hp : p ∈ ps) :
    (w.procs p).heapEnd = (k.procs p).heapEnd :=
  congrArg UserState.heapEnd (hw.seen p hp)

/-- The process `p` as user code finds it. -/
def process (k : Kernel) (p : Nat) (hheap : HeapOk (k.procs p))
    (hlaid : LaidOut (k.procs p).heapStart (k.procByte p)) : Process where
  pid := (k.procs p).pid
  memory := k.procByte p
  heapStart := (k.procs p).heapStart
  heapEnd := (k.procs p).heapEnd
  startAligned := hheap.start
  endAligned := hheap.aligned
  le := hheap.le
  top := hheap.top
  laidOut := hlaid

/-- **An action**: the process has done it, and the others have not noticed. -/
theorem Represents.acts (hw : Represents ps k w) (h : Separated ps k live taken given fl) (hp : p ∈ ps)
    (hs : Serves New (k.tableRoots ps) p taken given fl k k')
    (hidle : ∀ q ∈ ps, (k.procs q).isIdle = false)
    (hdoes : (w.procs p).Does a (k.userState p) (k'.userState p)) :
    ∃ w', w.Step p a w' ∧ Represents ps k' w' := by
  have hheap : HeapOk (k'.procs p) := hs.heaps p (h.heaps p hp)
  have hlaid : LaidOut (k'.procs p).heapStart (k'.procByte p) := by
    have hstart : (k'.procs p).heapStart = (w.procs p).heapStart :=
      (hs.starts p).1.trans (hw.heapStart p hp).symm
    rw [hstart]
    refine hdoes.laidOut ?_ ?_ hheap.top
    · change LaidOut _ (k.procByte p)
      rw [← hw.memory hp]
      exact (w.procs p).laidOut
    · change _ ≤ (k.procs p).heapEnd
      rw [← hw.heapEnd hp]
      exact (w.procs p).le
  let w' : World := ⟨Function.update w.procs p (k'.process p hheap hlaid), k'.uartIn, k'.uartOut⟩
  have hself : w'.procs p = k'.process p hheap hlaid := Function.update_self ..
  have hother : ∀ q ≠ p, w'.procs q = w.procs q := fun q hq => Function.update_of_ne hq ..
  have hseen : w'.seen p = k'.userState p := by
    rw [World.seen, hself]
    rfl
  refine ⟨w', ⟨?_, ?_, ?_, hother⟩, ?_, ?_, ?_, rfl, rfl⟩
  · rw [hw.seen p hp, hseen]
    exact hdoes
  · rw [hself]
    exact (hs.starts p).2.trans (hw.pid p hp).symm
  · rw [hself]
    exact (hs.starts p).1.trans (hw.heapStart p hp).symm
  · intro q hq
    by_cases hqp : q = p
    · rw [hqp, hseen]
    · have hrecord : (Proc.stateless (k'.procs q)).heapEnd = (Proc.stateless (k.procs q)).heapEnd := by
        rw [hs.records q hqp (hidle q hq)]
      have hend : (k'.procs q).heapEnd = (k.procs q).heapEnd := hrecord
      rw [World.seen, hother q hqp, hw.memory hq, hw.heapEnd hq, Kernel.userState, hs.procByte_other h hq hqp, hend]
  · intro q hq
    by_cases hqp : q = p
    · rw [hqp, hself]
      rfl
    · rw [hother q hqp, hw.heapStart q hq, (hs.starts q).1]
  · intro q hq
    by_cases hqp : q = p
    · rw [hqp, hself]
      rfl
    · rw [hother q hqp, hw.pid q hq, (hs.starts q).2]

/-- The other registers of the hart are no part of the invariant. -/
theorem SystemInv.setCtx (h : SystemInv ps k live taken given fl) (c : Context) :
    SystemInv ps (k.setCtx c) live taken given fl :=
  ⟨⟨h.isolated, h.objects, h.kstacks, h.frames, h.heaps⟩,
    ⟨h.loaded.procs, h.loaded.idle, h.loaded.curr, h.loaded.process, h.loaded.kernel⟩, h.closed⟩

/-- A trap that is no system call of a process is not seen. -/
theorem SystemInv.takeTrap_quiet (h : SystemInv ps k live taken given fl) (hsaves : k.SavesFrame ps t)
    (hother : k.cpu.proc ∈ ps → ¬IsEcall t) (hcall : k.takeTrap t = .ok k') :
    Quiet k.cpu.proc k k' ∧ k'.uart = k.uart := by
  have hidle : ∀ {k₂ : Kernel}, Quiet k.cpu.proc k k₂ → Steady ps k k₂ → k₂.trapEnd = .ok k' →
      Quiet k.cpu.proc k k' := by
    intro k₂ hquiet hsteady hend
    have hidle₂ : (k₂.procs k₂.idleProc).isIdle = true := by
      change k₂.switchView.isIdle k₂.switchView.idle = true
      rw [hsteady.switchView]
      exact h.loaded.idle.2
    have hproc : k₂.cpu.proc = k.cpu.proc := congrArg SwitchView.curr hsteady.switchView
    exact hquiet.trans (hproc ▸ quiet_trapEnd hidle₂ hend)
  have hentry := h.trapEntry_quiet hsaves
  have hsteady : Steady ps k (k.trapEntry t) := trapEntry_steady
  have huart : (k.trapEntry t).uart = k.uart := rfl
  obtain ⟨k₂, hend, hcase⟩ := takeTrap_parts h.loaded.curr_ne hcall
  rcases hcase with ⟨-, htimer⟩ | ⟨-, rfl⟩ | ⟨hnot, hecall, -⟩
  · exact ⟨hidle (hentry.trans (timerHandle_quiet htimer))
      (hsteady.trans (timerHandle_steady h.closed htimer)) hend,
      (uart_trapEnd hend).trans ((uart_timerHandle htimer).trans huart)⟩
  · exact ⟨hidle hentry hsteady hend, (uart_trapEnd hend).trans huart⟩
  · exact absurd hecall (hother (h.loaded.mem_of_not_idle hnot))

/-- What user code does not see. -/
theorem Represents.quiet (hw : Represents ps k w) (hquiet : Quiet q k k') (huart : k'.uart = k.uart) :
    Represents ps k' w := by
  obtain ⟨hin, hout⟩ := Prod.mk.inj huart
  refine ⟨fun p hp => ?_, fun p hp => ?_, fun p hp => ?_, hw.typed.trans hin.symm, hw.sent.trans hout.symm⟩
  · rw [hw.seen p hp, hquiet.userState hin hout]
  · obtain ⟨-, -, -, hstart, -, -⟩ := Proc.space_eq_iff.mp (hquiet.spaces p)
    rw [hw.heapStart p hp, hstart]
  · obtain ⟨-, -, -, -, -, hpid⟩ := Proc.space_eq_iff.mp (hquiet.spaces p)
    rw [hw.pid p hp, hpid]

/-- Where a byte has been stored, a process is current: the kernel has no pages of user code. -/
theorem SystemInv.store_current {va : Nat} {c : UInt8} (h : SystemInv ps k live taken given fl)
    (hstore : k.userStore va c = some k') : k.cpu.proc ∈ ps := by
  by_contra hcurr
  obtain ⟨o, ho, hcase, -⟩ := h.satpRoot
  have hnone : o = none := by
    refine hcase.resolve_right fun hsome => ?_
    rw [hsome, tableRoots_of_notMem hcurr] at ho
    cases ho
  obtain ⟨pa, haccess, -⟩ := Option.map_eq_some_iff.mp hstore
  unfold userAccess at haccess
  split at haccess
  · next pa' f htr =>
    split at haccess
    · next hflags =>
      obtain ⟨pa₀, hpage, -⟩ := userPage_of_translate h.isolated ho htr hflags.1
      rw [hnone, h.isolated.kernel_userPages] at hpage
      cases hpage
    · cases haccess
  · cases haccess

/-- **Step lemma**: a step of the system is one of the world, or none. -/
theorem Represents.step (hw : Represents ps k w) (h : SystemInv ps k live taken given fl)
    (hstep : ActionStep ps k es k') : ∃ w', w.Run es w' ∧ Represents ps k' w' := by
  have hidle : ∀ q ∈ ps, (k.procs q).isIdle = false := fun q hq => (h.loaded.procs q hq).2
  cases hstep with
  | @store _ va c hstore =>
      have hcurr := h.store_current hstore
      obtain ⟨hs, -⟩ := h.userStore hstore
      obtain ⟨hat, hbytes⟩ := h.store_seen hcurr hstore
      obtain ⟨pa, -, rfl⟩ := Option.map_eq_some_iff.mp hstore
      obtain ⟨w', hdoes, hw'⟩ := hw.acts (a := .store va c) h.toSeparated hcurr hs hidle ⟨hat, by
        rw [userState, hbytes]
        rfl⟩
      exact ⟨w', .step .refl hdoes, hw'⟩
  | @call _ t c hcurr hecall hsaves hunmap hcall =>
      obtain ⟨hs, -⟩ := (SystemStep.trap hsaves (fun _ => hunmap) hcall).serves h
      have hspec := h.ecall_spec hcurr hsaves hecall hunmap hcall
      obtain ⟨w', hdoes, hw'⟩ := hw.acts (a := .call t.frame.regs ((k'.frames t.tf).regs 10)) h.toSeparated
        hcurr hs hidle (hspec.congr (hw.pid _ hcurr) (hw.heapEnd hcurr))
      exact ⟨w', .step .refl hdoes, hw'⟩
  | @trap _ t c hother hsaves hunmap hcall =>
      obtain ⟨hquiet, huart⟩ := (h.setCtx c).takeTrap_quiet hsaves hother hcall
      have hctx : Quiet k.cpu.proc k (k.setCtx c) := .of_eq rfl rfl rfl rfl rfl rfl
      exact ⟨w, .refl, hw.quiet (hctx.trans hquiet) huart⟩
  | idle hcurr =>
      have hquiet : Quiet k.cpu.proc k k.idleLoop := .of_eq rfl rfl rfl rfl rfl rfl
      exact ⟨w, .refl, hw.quiet hquiet rfl⟩

/-! ### The first world -/

/-- The pages of a new process are laid out. -/
theorem laidOut_firstPage {V : Mapping (Option Nat) PageNo PageBytes Nat} {start : Nat}
    (halign : start % pageSize = 0) (htop : start ≤ userHeapEnd)
    (hpages : ∀ n b f, V (some p) n = some (b, f) → FirstPage start n b f) : LaidOut start (bytesOf V p) := by
  intro va c f hat
  by_cases hva : Canonical va
  swap
  · rw [bytesOf_noncanonical hva] at hat
    cases hat
  rw [bytesOf_canonical hva] at hat
  obtain ⟨⟨b, f'⟩, hpage, heq⟩ := Option.map_eq_some_iff.mp hat
  obtain ⟨-, rfl⟩ := Prod.mk.inj heq
  rcases hpages _ b f' hpage with ⟨hlt, rfl⟩ | ⟨hstack, -, rfl⟩
  · refine Or.inl ⟨?_, rfl⟩
    simp only [pageNo, vpage, Canonical, userHeapEnd, userStackBase, userStackSize, userEndVa, pageSize] at *
    omega
  · refine Or.inr ⟨Or.inr ?_, rfl⟩
    have hnum : vpage va = vpage userStackBase := congrArg Fin.val hstack
    simp only [vpage, Canonical, userStackTop, userStackBase, userStackSize, userEndVa, pageSize] at *
    omega

/-- **New processes** are laid out, with empty heaps. -/
theorem Populated.laidOut (h : Populated L m stack ps k) : ∀ p ∈ ps,
    LaidOut (k.procs p).heapStart (k.procByte p) ∧ (k.procs p).heapEnd = (k.procs p).heapStart := by
  induction h with
  | boot => exact fun p hp => absurd hp List.not_mem_nil
  | @create ps k k' binary size p h hsize hcall hp ih =>
      obtain ⟨-, -, live, taken, given, fl, hsep⟩ := h.separated
      obtain ⟨hnew, -, -, -, hjoins, live', taken', given', fl', hsep'⟩ := hsep.create hsize hcall hp
      intro q hq
      have hbytes : k'.procByte q = bytesOf (userViews (k'.tableRoots (ps ++ [p])) k'.mm.mem) q :=
        procByte_eq hsep'.isolated (tableRoots_of_mem hq)
      rcases List.mem_append.mp hq with hold | hold
      · have hsame : k'.procByte q = k.procByte q := by
          rw [hbytes, procByte_eq hsep.isolated (tableRoots_of_mem hold)]
          unfold bytesOf
          rw [hjoins.views q hold]
        rw [hsame, hjoins.procs q hold]
        exact ih q hold
      · obtain rfl := List.mem_singleton.mp hold
        have hheap := hsep'.heaps q hq
        rw [hbytes]
        exact ⟨laidOut_firstPage hheap.start (hheap.le.trans hheap.top) hjoins.pages, hjoins.heapEnd⟩

end Kernel

namespace World

variable {w w' w₁ : World} {es es' : List (Nat × Action)}

theorem Run.trans (h : w.Run es w₁) (h' : w₁.Run es' w') : w.Run (es ++ es') w' := by
  induction h' with
  | refl => rwa [List.append_nil]
  | step _ hstep ih =>
      rw [← List.append_assoc]
      exact ih.step hstep

end World

namespace Kernel

variable {L : Layout} {m : Nat → UInt8} {k k' : Kernel} {stack : Nat} {ps : List Nat}
  {es : List (Nat × Action)} {w : World}

/-- **Run lemma.** -/
theorem Represents.path (hw : Represents ps k w) (h : SystemRun L m stack ps k)
    (hpath : ActionPath ps k es k') :
    SystemRun L m stack ps k' ∧ ∃ w', w.Run es w' ∧ Represents ps k' w' := by
  induction hpath with
  | refl => exact ⟨h, w, .refl, hw⟩
  | step _ hstep ih =>
      obtain ⟨hrun, w₁, hworld, hw₁⟩ := ih
      obtain ⟨-, live, taken, given, fl, hinv⟩ := hrun.inv
      obtain ⟨es', hsystem⟩ := hstep.system
      obtain ⟨w', hworld', hw'⟩ := hw₁.step hinv hstep
      exact ⟨hrun.step hsystem, w', hworld.trans hworld', hw'⟩

end Kernel

end SystemN
