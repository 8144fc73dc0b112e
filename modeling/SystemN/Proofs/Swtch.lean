/-
What `swtch` keeps.

The offsets in the assembly are those of `context_t`, so a call writes the caller's
registers into its own object and fills the registers from the other one.  An object is
written by the call of its own context only.  A context that has called `swtch` is not
running, and nobody else touches its object or its stack, so what it saved is there when
somebody switches to it: that is the invariant of the runs below, in which any number of
contexts switch to each other in any order.
-/
import SystemN.Swtch
import SystemN.Proofs.Sched
import Mathlib.Data.Set.Basic
import Mathlib.Order.CompletePartialOrder

namespace SystemN.Swtch

open RiscV

/-! ### One call -/

/-- The registers of a context and their offsets in a `context_t`. -/
def slots : List (Reg × Nat) :=
  [(ra, 0), (sp, 8), (s0, 16), (s1, 24), (s2, 32), (s3, 40), (s4, 48), (s5, 56), (s6, 64), (s7, 72),
    (s8, 80), (s9, 88), (s10, 96), (s11, 104)]

theorem save_eq : save = storeSlots a0 slots := rfl

theorem load_eq : load = loadSlots a1 slots := rfl

theorem slots_lt : ∀ x ∈ slots, x.2 < sizeofContext := by decide

theorem mem_slots (i : Fin 12) : (sReg i, 16 + 8 * i.val) ∈ slots := by
  revert i
  decide

/-- The registers of two machines, and the objects of two memories, by their slots. -/
theorem ctx_eq {c c' : Context} (hra : c.ra = c'.ra) (hsp : c.sp = c'.sp) (hs : ∀ i, c.s i = c'.s i) :
    c = c' := by
  cases c
  cases c'
  rw [Context.mk.injEq]
  exact ⟨hra, hsp, funext hs⟩

theorem ctxOf_eq {m : Machine} {c : Context} {a : Word} {m' : Machine}
    (h : ∀ x ∈ slots, (m.get x.1).toNat = field m' a x.2) (hc : c = ctxAt m' a) : ctxOf m = c := by
  rw [hc]
  exact ctx_eq (h (ra, 0) (by decide)) (h (sp, 8) (by decide)) fun i => h _ (mem_slots i)

/-- **What a call of `swtch` does**, whatever the objects hold. -/
structure Switched (m m' : Machine) : Prop where
  /-- The caller's registers are in its object. -/
  saved : ctxAt m' (m.get a0) = ctxOf m
  /-- The registers are those that the other object holds, and the code goes on at `ra`. -/
  loaded : ctxOf m' = ctxAt m' (m.get a1)
  pc : m'.pc = m'.get ra
  /-- No other memory is written. -/
  frame : ∀ a, (∀ n < sizeofContext, a ≠ m.get a0 + BitVec.ofNat 64 n) → m'.mem a = m.mem a

theorem swtch_switched (m : Machine) : Switched m (swtch m) := by
  have hstore := storeSlots_spec (ι := Empty) a0 slots m
    (fun x hx => lt_trans (slots_lt x hx) (by decide)) (by decide)
  rw [← save_eq] at hstore
  have hswtch : swtch m = ret (load.foldl Instr.step (save.foldl Instr.step m)) := by
    rw [swtch, List.foldl_append]
  generalize save.foldl Instr.step m = m₁ at hstore hswtch
  obtain ⟨hget, -, -, hslot, hframe⟩ := hstore
  have hfill := loadSlots_spec (ι := Empty) a1 slots m₁ (by decide) (by decide) (by decide)
  rw [← load_eq] at hfill
  generalize load.foldl Instr.step m₁ = m₂ at hfill hswtch
  obtain ⟨hmem, -, -, hload, -⟩ := hfill
  rw [hswtch]
  refine ⟨?_, ?_, ?_, fun a ha => ?_⟩
  · refine (ctxOf_eq (fun x hx => ?_) rfl).symm
    rw [field, ret_mem, hmem]
    exact congrArg BitVec.toNat (hslot x hx).symm
  · refine ctxOf_eq (fun x hx => ?_) rfl
    rw [ret_get, field, ret_mem, hmem, hload x hx, Machine.addr, hget]
  · rw [ret_pc, ret_get]
  · rw [ret_mem, hmem]
    exact hframe a fun x hx => ha x.2 (slots_lt x hx)

/-- An object that the call does not write. -/
theorem ctxAt_congr {m m' : Machine} {a : Word}
    (h : ∀ n < sizeofContext, m'.mem (a + BitVec.ofNat 64 n) = m.mem (a + BitVec.ofNat 64 n)) :
    ctxAt m' a = ctxAt m a := by
  refine ctx_eq ?_ ?_ fun i => ?_
  · exact congrArg BitVec.toNat (h 0 (by decide))
  · exact congrArg BitVec.toNat (h 8 (by decide))
  · exact congrArg BitVec.toNat (h _ (by have hi := i.isLt; simp only [sizeofContext]; omega))

/-! ### Any number of contexts -/

/-- Where the `context_t` objects and the stacks of some contexts lie: no two of them meet. -/
structure Objects (ι : Type) where
  ctx : ι → Word
  stack : ι → Set Word
  apart : ∀ i j, i ≠ j → ∀ m n, m < sizeofContext → n < sizeofContext →
    ctx i + BitVec.ofNat 64 m ≠ ctx j + BitVec.ofNat 64 n
  stacksApart : ∀ i j, i ≠ j → Disjoint (stack i) (stack j)
  outside : ∀ i j n, n < sizeofContext → ctx i + BitVec.ofNat 64 n ∉ stack j

section Runs

variable {ι : Type} [DecidableEq ι] {L : Objects ι} {saved : ι → Option Machine} {cur new : ι}
  {m m' e : Machine}

/-- The object and the stack of context `i` hold what they held. -/
def Objects.Same (L : Objects ι) (i : ι) (m m' : Machine) : Prop :=
  (∀ n < sizeofContext, m'.mem (L.ctx i + BitVec.ofNat 64 n) = m.mem (L.ctx i + BitVec.ofNat 64 n)) ∧
    ∀ a ∈ L.stack i, m'.mem a = m.mem a

/-- The runs of the contexts on one hart.  `cur` is the one that is running; for one that has called
`swtch`, `saved` is the machine at the first instruction of that call, when `ra` holds the address
of the instruction after the call. -/
inductive Run (L : Objects ι) : (ι → Option Machine) → ι → Machine → Prop
  | start (cur : ι) (m : Machine) : Run L (fun _ => none) cur m
  /-- What the running context does, which leaves the others' objects and stacks alone. -/
  | work {saved : ι → Option Machine} {cur : ι} {m m' : Machine} (hrun : Run L saved cur m)
      (hsame : ∀ i, i ≠ cur → L.Same i m m') : Run L saved cur m'
  /-- It calls `swtch(old, new)`. -/
  | swtch {saved : ι → Option Machine} {cur new : ι} {m : Machine} (hrun : Run L saved cur m)
      (hold : m.get a0 = L.ctx cur) (hnew : m.get a1 = L.ctx new) :
      Run L (Function.update (Function.update saved cur (some m)) new none) new (swtch m)

/-- What a waiting context has saved is where it was put. -/
def Kept (L : Objects ι) (saved : ι → Option Machine) (m : Machine) : Prop :=
  ∀ i e, saved i = some e → ctxAt m (L.ctx i) = ctxOf e ∧ ∀ a ∈ L.stack i, m.mem a = e.mem a

/-- **Step lemma**: a call of `swtch` adds the caller to those that are kept. -/
theorem Kept.swtch (h : Kept L saved m) (hold : m.get a0 = L.ctx cur) :
    Kept L (Function.update saved cur (some m)) (Swtch.swtch m) := by
  have hs := swtch_switched m
  have hframe : ∀ a, (∀ n < sizeofContext, a ≠ L.ctx cur + BitVec.ofNat 64 n) →
      (Swtch.swtch m).mem a = m.mem a := hold ▸ hs.frame
  have hstack : ∀ i, ∀ a ∈ L.stack i, (Swtch.swtch m).mem a = m.mem a := fun i a ha =>
    hframe a fun n hn heq => L.outside cur i n hn (heq ▸ ha)
  intro i e he
  by_cases hi : i = cur
  · subst hi
    rw [Function.update_self] at he
    obtain rfl := Option.some.inj he
    exact ⟨hold ▸ hs.saved, hstack i⟩
  · rw [Function.update_of_ne hi] at he
    obtain ⟨hctx, hold⟩ := h i e he
    refine ⟨?_, fun a ha => (hstack i a ha).trans (hold a ha)⟩
    rw [ctxAt_congr fun n hn => hframe _ fun k hk => L.apart i cur hi n k hn hk, hctx]

/-- The one that is running keeps nothing there, and none of the others is touched. -/
structure Waiting (L : Objects ι) (saved : ι → Option Machine) (cur : ι) (m : Machine) : Prop where
  kept : Kept L saved m
  running : saved cur = none

/-- **Run lemma**. -/
theorem Run.waiting (h : Run L saved cur m) : Waiting L saved cur m := by
  induction h with
  | start cur m => exact ⟨fun i e he => (by cases he), rfl⟩
  | @work saved cur m m' hrun hsame ih =>
      refine ⟨fun i e he => ?_, ih.running⟩
      have hi : i ≠ cur := by
        rintro rfl
        rw [ih.running] at he
        cases he
      obtain ⟨hobject, hstack⟩ := hsame i hi
      obtain ⟨hctx, hold⟩ := ih.kept i e he
      exact ⟨(ctxAt_congr hobject).trans hctx, fun a ha => (hstack a ha).trans (hold a ha)⟩
  | @swtch saved cur new m hrun hold hnew ih =>
      refine ⟨fun i e he => ?_, Function.update_self ..⟩
      have hi : i ≠ new := by
        rintro rfl
        rw [Function.update_self] at he
        cases he
      rw [Function.update_of_ne hi] at he
      exact ih.kept.swtch hold i e he

/--
**Every context comes back as it went.**  In every run of any number of contexts, a call of `swtch`
to one that is waiting goes on at the instruction after that context's own call, with the `ra`,
`sp` and `s0` to `s11` and the stack it had then.
-/
theorem Run.swtch_resumes (h : Run L saved cur m) (hold : m.get a0 = L.ctx cur)
    (hnew : m.get a1 = L.ctx new) (he : Function.update saved cur (some m) new = some e) :
    (Swtch.swtch m).pc = e.get ra ∧ ctxOf (Swtch.swtch m) = ctxOf e ∧
      ∀ a ∈ L.stack new, (Swtch.swtch m).mem a = e.mem a := by
  have hs := swtch_switched m
  obtain ⟨hctx, hstack⟩ := h.waiting.kept.swtch hold new e he
  have hregs : ctxOf (Swtch.swtch m) = ctxOf e := by
    rw [hs.loaded, hnew, hctx]
  have hra : ((Swtch.swtch m).get ra).toNat = (e.get ra).toNat := congrArg Context.ra hregs
  exact ⟨hs.pc.trans (BitVec.eq_of_toNat_eq hra), hregs, hstack⟩

end Runs

/-- Two contexts, with a doubleword of stack each. -/
def twoContexts : Objects Bool where
  ctx i := if i then 0x1000#64 else 0x2000#64
  stack i := {a | a = if i then 0x3000#64 else 0x4000#64}
  apart i j hij m n hm hn := by
    cases i <;> cases j <;> simp only [sizeofContext] at * <;> first | exact absurd rfl hij | simp; bv_omega
  stacksApart i j hij := by
    rw [Set.disjoint_left]
    cases i <;> cases j <;> first | exact absurd rfl hij | (rintro a rfl; decide)
  outside i j n hn := by
    cases i <;> cases j <;> simp only [sizeofContext] at * <;> simp <;> bv_omega

/-- A machine that is about to switch from the context whose object is at `old`. -/
def aboutTo (old new : Word) (mem : Word → Word) : Machine where
  regs r := if r = a0 then old else if r = a1 then new else 7#64
  csrs _ := 0
  mem := mem
  mode := .supervisor
  pc := 0

/-- A context switches to another one and is switched back to. -/
theorem swtch_resumes_twoContexts :
    ∃ m m' : Machine, Run twoContexts (fun i => if i then none else some m) true m' ∧
      (swtch m').pc = m.get ra ∧ ctxOf (swtch m') = ctxOf m ∧
        ∀ a ∈ twoContexts.stack false, (swtch m').mem a = m.mem a := by
  let m := aboutTo 0x2000#64 0x1000#64 fun _ => 0
  let m' := aboutTo 0x1000#64 0x2000#64 (swtch m).mem
  have hnew : m.get a1 = twoContexts.ctx true := rfl
  have hback : m'.get a1 = twoContexts.ctx false := rfl
  have hrun := (Run.start (L := twoContexts) false m).swtch rfl hnew
  have hsaved : Function.update (Function.update (fun _ => none) false (some m)) true none
      = fun i => if i then none else some m := by
    funext i
    cases i
    · rfl
    · rfl
  rw [hsaved] at hrun
  have hrun' : Run twoContexts (fun i => if i then none else some m) true m' :=
    hrun.work fun i _ => ⟨fun _ _ => rfl, fun _ _ => rfl⟩
  exact ⟨m, m', hrun', hrun'.swtch_resumes rfl hback rfl⟩

/-! ### The context switch of the kernel model -/

section Model

variable {ι : Type} {L : Objects ι} {proc : ι → Nat} {k : Kernel} {m : Machine} {old new : ι}

/-- The machine holds the contexts that the model keeps: the running one in the registers, and
that of each process in its object. -/
structure Holds (L : Objects ι) (proc : ι → Nat) (k : Kernel) (m : Machine) : Prop where
  regs : ctxOf m = k.hart.ctx
  objects : ∀ i, ctxAt m (L.ctx i) = (k.procs (proc i)).ctx

/-- **The assembly refines the model**: `Kernel.swtch` is what the instructions do. -/
theorem Holds.swtch (h : Holds L proc k m) (hinj : Function.Injective proc)
    (hold : m.get a0 = L.ctx old) (hnew : m.get a1 = L.ctx new) :
    Holds L proc (k.swtch (proc old) (proc new)) (Swtch.swtch m) := by
  have hs := swtch_switched m
  have hobjects : ∀ i, ctxAt (Swtch.swtch m) (L.ctx i)
      = ((k.setProc (proc old) { k.procs (proc old) with ctx := k.hart.ctx }).procs (proc i)).ctx := by
    intro i
    by_cases hi : i = old
    · subst hi
      rw [← hold, hs.saved, h.regs, Kernel.setProc_procs, Function.update_self]
    · rw [Kernel.setProc_procs, Function.update_of_ne (hinj.ne hi), ← h.objects i]
      refine ctxAt_congr fun n hn => hs.frame _ fun j hj => ?_
      rw [hold]
      exact L.apart i old hi n j hn hj
  refine ⟨?_, hobjects⟩
  rw [hs.loaded, hnew, hobjects new]
  rfl

end Model

end SystemN.Swtch
