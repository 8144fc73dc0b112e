/-
A small RV64 supervisor machine: the instructions a trap entry is made of.

Memory is read and written a doubleword at a time, at addresses that differ by
multiples of eight.  A program is a list of instructions with labels between them;
`exec` runs it up to the next `call` or `sret` and hands over what is left, so that
a C function called from assembly can be any function on machine states.

The rules are those of straight-line code: `exec_straight` for a block without
jumps, and for the two blocks every trap entry has, a run of stores and a run of
loads, what they do to memory and to the registers.
-/
import Mathlib.Data.BitVec
import Mathlib.Logic.Function.Basic
import Mathlib.Tactic.Linarith

namespace SystemN.RiscV

abbrev Word := BitVec 64

/-- There are 32 registers. -/
instance neZeroRegs : NeZero 32 := ⟨by decide⟩

/-- A register number; `x0` reads as zero. -/
abbrev Reg := Fin 32

inductive Csr where
  | sepc
  | sstatus
  | scause
  | stval
  | sscratch
  deriving DecidableEq, Repr

inductive Mode where
  | user
  | supervisor
  deriving DecidableEq, Repr

structure Machine where
  regs : Reg → Word
  csrs : Csr → Word
  mem : Word → Word
  mode : Mode
  pc : Word

namespace Machine

def get (s : Machine) (r : Reg) : Word := if r = 0 then 0 else s.regs r

def set (s : Machine) (r : Reg) (v : Word) : Machine :=
  { s with regs := Function.update s.regs r v }

def setCsr (s : Machine) (c : Csr) (v : Word) : Machine :=
  { s with csrs := Function.update s.csrs c v }

def store (s : Machine) (a v : Word) : Machine := { s with mem := Function.update s.mem a v }

variable {s : Machine} {r q : Reg} {v a b : Word} {c d : Csr}

@[simp] theorem get_zero : s.get 0 = 0 := rfl

theorem get_set : (s.set r v).get q = if q = r ∧ q ≠ 0 then v else s.get q := by
  unfold get set
  by_cases hq : q = 0
  · simp [hq]
  · by_cases hr : q = r
    · subst hr
      simp [hq]
    · simp [hq, hr]

theorem get_set_of_ne (h : q ≠ r) : (s.set r v).get q = s.get q := by simp [get_set, h]

theorem get_set_self (h : r ≠ 0) : (s.set r v).get r = v := by simp [get_set, h]

@[simp] theorem set_csrs : (s.set r v).csrs = s.csrs := rfl
@[simp] theorem set_mem : (s.set r v).mem = s.mem := rfl
@[simp] theorem set_mode : (s.set r v).mode = s.mode := rfl
@[simp] theorem set_pc : (s.set r v).pc = s.pc := rfl
@[simp] theorem setCsr_get : (s.setCsr c v).get r = s.get r := rfl
@[simp] theorem setCsr_csrs : (s.setCsr c v).csrs = Function.update s.csrs c v := rfl
@[simp] theorem setCsr_mem : (s.setCsr c v).mem = s.mem := rfl
@[simp] theorem setCsr_mode : (s.setCsr c v).mode = s.mode := rfl
@[simp] theorem store_get : (s.store a v).get r = s.get r := rfl
@[simp] theorem store_csrs : (s.store a v).csrs = s.csrs := rfl
@[simp] theorem store_mode : (s.store a v).mode = s.mode := rfl
@[simp] theorem store_mem : (s.store a v).mem = Function.update s.mem a v := rfl

end Machine

/-! ### Traps -/

/-- `SPP`, bit 8 of `sstatus`: the mode a trap came from. -/
def spp : Word := 0x100#64

/-- `SPIE` and `SIE`, bits 5 and 1. -/
def spie : Word := 0x20#64
def sie : Word := 0x2#64

/-- The mode `SPP` stands for. -/
def modeOf (sstatus : Word) : Mode := if sstatus &&& spp = 0 then .user else .supervisor

/-- The hardware's part of a trap: `scause` and `stval` say what it is, `stvec` where it goes. -/
def Machine.trap (s : Machine) (scause stval stvec : Word) : Machine :=
  let sstatus := (s.csrs .sstatus &&& ~~~(spp ||| spie ||| sie)) |||
    (if s.mode = .supervisor then spp else 0) |||
    (if s.csrs .sstatus &&& sie = 0 then 0 else spie)
  let s := ((s.setCsr .scause scause).setCsr .stval stval).setCsr .sepc s.pc
  { s.setCsr .sstatus sstatus with mode := .supervisor, pc := stvec }

/-- `sret`. -/
def Machine.sret (s : Machine) : Machine :=
  let sstatus := s.csrs .sstatus
  let sstatus' := (sstatus &&& ~~~(spp ||| sie)) ||| spie |||
    (if sstatus &&& spie = 0 then 0 else sie)
  { s.setCsr .sstatus sstatus' with mode := modeOf sstatus, pc := s.csrs .sepc }

/-! ### Instructions -/

inductive Instr (ι : Type) where
  | label (l : ι)
  | csrr (rd : Reg) (c : Csr)
  | csrw (c : Csr) (rs : Reg)
  | andi (rd rs : Reg) (imm : Word)
  | addi (rd rs : Reg) (imm : Word)
  | mv (rd rs : Reg)
  /-- `sd rs, off(base)`. -/
  | sd (rs : Reg) (off : Nat) (base : Reg)
  /-- `ld rd, off(base)`. -/
  | ld (rd : Reg) (off : Nat) (base : Reg)
  | beqz (rs : Reg) (l : ι)
  | bnez (rs : Reg) (l : ι)
  | j (l : ι)
  /-- The return address it leaves in `ra` is not kept: no code here reads it. -/
  | call
  | sret

variable {ι : Type}

/-- An instruction after which the next one is executed. -/
def Instr.isStraight : Instr ι → Bool
  | .beqz .. | .bnez .. | .j _ | .call | .sret => false
  | _ => true

/-- The address `off(base)`. -/
def Machine.addr (s : Machine) (off : Nat) (base : Reg) : Word := s.get base + BitVec.ofNat 64 off

/-- What a straight instruction does. -/
def Instr.step (s : Machine) : Instr ι → Machine
  | .csrr rd c => s.set rd (s.csrs c)
  | .csrw c rs => s.setCsr c (s.get rs)
  | .andi rd rs imm => s.set rd (s.get rs &&& imm)
  | .addi rd rs imm => s.set rd (s.get rs + imm)
  | .mv rd rs => s.set rd (s.get rs)
  | .sd rs off base => s.store (s.addr off base) (s.get rs)
  | .ld rd off base => s.set rd (s.mem (s.addr off base))
  | _ => s

/-- The code behind label `l`. -/
def target [DecidableEq ι] (l : ι) : List (Instr ι) → List (Instr ι)
  | [] => []
  | .label l' :: rest => if l' = l then rest else target l rest
  | _ :: rest => target l rest

/-- Where a run of a program stops. -/
inductive Outcome (ι : Type) where
  /-- At a `call`, with the code to go on with. -/
  | call (s : Machine) (rest : List (Instr ι))
  /-- After an `sret`. -/
  | sret (s : Machine)
  | stuck

/-- Run the code `rest` of the program `prog`, for at most `fuel` instructions. -/
def exec [DecidableEq ι] (prog : List (Instr ι)) : Nat → List (Instr ι) → Machine → Outcome ι
  | 0, _, _ => .stuck
  | _ + 1, [], _ => .stuck
  | fuel + 1, i :: rest, s =>
      match i with
      | .beqz rs l => exec prog fuel (if s.get rs = 0 then target l prog else rest) s
      | .bnez rs l => exec prog fuel (if s.get rs = 0 then rest else target l prog) s
      | .j l => exec prog fuel (target l prog) s
      | .call => .call s rest
      | .sret => .sret s.sret
      | i => exec prog fuel rest (i.step s)

/-! ### Straight-line code -/

variable {prog block rest : List (Instr ι)} {fuel : Nat} {s : Machine}

theorem exec_straight [DecidableEq ι] (h : ∀ i ∈ block, i.isStraight = true) :
    exec prog (block.length + fuel) (block ++ rest) s =
      exec prog fuel rest (block.foldl Instr.step s) := by
  induction block generalizing s with
  | nil => simp
  | cons i block ih =>
      have hi := h i List.mem_cons_self
      have htail := ih (s := i.step s) fun i hi => h i (List.mem_cons_of_mem _ hi)
      rw [List.length_cons, show block.length + 1 + fuel = block.length + fuel + 1 by omega,
        List.cons_append, List.foldl_cons, ← htail]
      cases i <;> first | rfl | cases hi

section

variable [DecidableEq ι] {rs : Reg} {l : ι}

theorem exec_beqz : exec prog (fuel + 1) (.beqz rs l :: rest) s =
    exec prog fuel (if s.get rs = 0 then target l prog else rest) s := rfl

theorem exec_bnez : exec prog (fuel + 1) (.bnez rs l :: rest) s =
    exec prog fuel (if s.get rs = 0 then rest else target l prog) s := rfl

theorem exec_j : exec prog (fuel + 1) (.j l :: rest) s = exec prog fuel (target l prog) s := rfl

theorem exec_call : exec prog (fuel + 1) (.call :: rest) s = .call s rest := rfl

/-- A run that ends after an `sret` has executed one. -/
theorem exec_eq_sret {s' : Machine} (h : exec prog fuel rest s = .sret s') :
    ∃ t : Machine, s' = t.sret := by
  induction fuel generalizing rest s with
  | zero => cases h
  | succ fuel ih =>
      cases rest with
      | nil => cases h
      | cons i rest =>
          cases i with
          | sret =>
              cases h
              exact ⟨s, rfl⟩
          | call => cases h
          | _ => exact ih h

end

/-! ### Runs of stores and loads -/

/-- Different offsets are different addresses. -/
theorem addr_ne {b : Word} {m n : Nat} (hm : m < 2 ^ 64) (hn : n < 2 ^ 64) (h : m ≠ n) :
    b + BitVec.ofNat 64 m ≠ b + BitVec.ofNat 64 n := by
  intro heq
  have := congrArg BitVec.toNat (add_left_cancel heq)
  simp only [BitVec.toNat_ofNat, Nat.mod_eq_of_lt hm, Nat.mod_eq_of_lt hn] at this
  exact h this

/-- The store of each register to its slot; a slot is given by its offset from the base. -/
def storeSlots (base : Reg) (slots : List (Reg × Nat)) : List (Instr ι) :=
  slots.map fun x => .sd x.1 x.2 base

/-- The load of each register from its slot. -/
def loadSlots (base : Reg) (slots : List (Reg × Nat)) : List (Instr ι) :=
  slots.map fun x => .ld x.1 x.2 base

/-- A run of stores changes the slots it writes, and nothing else. -/
theorem storeSlots_spec (base : Reg) (slots : List (Reg × Nat)) (s : Machine)
    (hlt : ∀ x ∈ slots, x.2 < 2 ^ 64) (hone : ∀ x ∈ slots, ∀ y ∈ slots, x.2 = y.2 → x.1 = y.1) :
    let s' := (storeSlots base slots : List (Instr ι)).foldl Instr.step s
    (∀ r, s'.get r = s.get r) ∧ s'.csrs = s.csrs ∧ s'.mode = s.mode ∧
      (∀ x ∈ slots, s'.mem (s.addr x.2 base) = s.get x.1) ∧
      ∀ a, (∀ x ∈ slots, a ≠ s.addr x.2 base) → s'.mem a = s.mem a := by
  induction slots generalizing s with
  | nil => simp [storeSlots]
  | cons y slots ih =>
      have htail := fun x hx => List.mem_cons_of_mem y (a := x) (l := slots) hx
      obtain ⟨hget, hcsrs, hmode, hslot, hframe⟩ := ih (s.store (s.addr y.2 base) (s.get y.1))
        (fun x hx => hlt x (htail x hx)) fun x hx z hz => hone x (htail x hx) z (htail z hz)
      have haddr : ∀ n, (s.store (s.addr y.2 base) (s.get y.1)).addr n base = s.addr n base :=
        fun _ => rfl
      simp only [haddr, Machine.store_get, Machine.store_csrs, Machine.store_mode,
        Machine.store_mem] at hget hcsrs hmode hslot hframe
      refine ⟨hget, hcsrs, hmode, fun x hx => ?_, fun a ha => ?_⟩
      · by_cases hlater : ∃ z ∈ slots, z.2 = x.2
        · -- a later store to the same slot is of the same register
          obtain ⟨z, hz, heq⟩ := hlater
          rw [← heq, ← hone z (htail z hz) x hx heq]
          exact hslot z hz
        · have hne : ∀ z ∈ slots, s.addr x.2 base ≠ s.addr z.2 base := fun z hz =>
            addr_ne (hlt x hx) (hlt z (htail z hz)) fun heq => hlater ⟨z, hz, heq.symm⟩
          obtain rfl : x = y := (List.mem_cons.mp hx).resolve_right fun hm => hlater ⟨x, hm, rfl⟩
          exact (hframe _ hne).trans (Function.update_self ..)
      · exact (hframe a fun x hx => ha x (htail x hx)).trans
          (Function.update_of_ne (ha y List.mem_cons_self) ..)

/-- A run of loads that does not load its base fills the registers it names. -/
theorem loadSlots_spec (base : Reg) (slots : List (Reg × Nat)) (s : Machine)
    (hbase : ∀ x ∈ slots, x.1 ≠ base) (hzero : ∀ x ∈ slots, x.1 ≠ 0)
    (hone : ∀ x ∈ slots, ∀ y ∈ slots, x.1 = y.1 → x.2 = y.2) :
    let s' := (loadSlots base slots : List (Instr ι)).foldl Instr.step s
    s'.mem = s.mem ∧ s'.csrs = s.csrs ∧ s'.mode = s.mode ∧
      (∀ x ∈ slots, s'.get x.1 = s.mem (s.addr x.2 base)) ∧
      ∀ r, (∀ x ∈ slots, x.1 ≠ r) → s'.get r = s.get r := by
  induction slots generalizing s with
  | nil => simp [loadSlots]
  | cons y slots ih =>
      have htail := fun x hx => List.mem_cons_of_mem y (a := x) (l := slots) hx
      have hy : y ∈ y :: slots := List.mem_cons_self
      obtain ⟨hmem, hcsrs, hmode, hload, hframe⟩ := ih (s.set y.1 (s.mem (s.addr y.2 base)))
        (fun x hx => hbase x (htail x hx)) (fun x hx => hzero x (htail x hx))
        fun x hx z hz => hone x (htail x hx) z (htail z hz)
      have haddr : ∀ n, (s.set y.1 (s.mem (s.addr y.2 base))).addr n base = s.addr n base := by
        intro n
        unfold Machine.addr
        rw [Machine.get_set_of_ne (hbase y hy).symm]
      simp only [haddr, Machine.set_mem, Machine.set_csrs, Machine.set_mode] at hmem hcsrs hmode hload
      refine ⟨hmem, hcsrs, hmode, fun x hx => ?_, fun r hr => ?_⟩
      · by_cases hlater : ∃ z ∈ slots, z.1 = x.1
        · obtain ⟨z, hz, heq⟩ := hlater
          rw [← heq, ← hone z (htail z hz) x hx heq]
          exact hload z hz
        · obtain rfl : x = y := (List.mem_cons.mp hx).resolve_right fun hm => hlater ⟨x, hm, rfl⟩
          exact (hframe x.1 fun z hz heq => hlater ⟨z, hz, heq⟩).trans
            (Machine.get_set_self (hzero x hx))
      · exact (hframe r fun x hx => hr x (htail x hx)).trans (Machine.get_set_of_ne (hr y hy).symm)

/-- The store of each register of `rs` to its slot, as in `sd x5, 40(sp)`. -/
def saves (base : Reg) (rs : List Reg) : List (Instr ι) := rs.map fun r => .sd r (8 * r) base

/-- The load of each register of `rs` from its slot. -/
def loads (base : Reg) (rs : List Reg) : List (Instr ι) := rs.map fun r => .ld r (8 * r) base

theorem saves_straight {base : Reg} {rs : List Reg} :
    ∀ i ∈ (saves base rs : List (Instr ι)), i.isStraight = true := by
  intro i hi
  obtain ⟨r, -, rfl⟩ := List.mem_map.mp hi
  rfl

theorem loads_straight {base : Reg} {rs : List Reg} :
    ∀ i ∈ (loads base rs : List (Instr ι)), i.isStraight = true := by
  intro i hi
  obtain ⟨r, -, rfl⟩ := List.mem_map.mp hi
  rfl

/-- The slots of registers that are kept by their numbers. -/
def numbered (rs : List Reg) : List (Reg × Nat) := rs.map fun r => (r, 8 * r.val)

theorem mem_numbered {rs : List Reg} {x : Reg × Nat} (hx : x ∈ numbered rs) :
    x.1 ∈ rs ∧ x.2 = 8 * x.1.val := by
  obtain ⟨r, hr, rfl⟩ := List.mem_map.mp hx
  exact ⟨hr, rfl⟩

theorem saves_spec (base : Reg) (rs : List Reg) (s : Machine) :
    let s' := (saves base rs : List (Instr ι)).foldl Instr.step s
    (∀ r, s'.get r = s.get r) ∧ s'.csrs = s.csrs ∧ s'.mode = s.mode ∧
      (∀ r ∈ rs, s'.mem (s.addr (8 * r) base) = s.get r) ∧
      ∀ n < 2 ^ 64, (∀ r ∈ rs, 8 * r.val ≠ n) → s'.mem (s.addr n base) = s.mem (s.addr n base) := by
  have hsaves : (saves base rs : List (Instr ι)) = storeSlots base (numbered rs) := by
    rw [saves, storeSlots, numbered, List.map_map]
    rfl
  have hlt : ∀ x ∈ numbered rs, x.2 < 2 ^ 64 := fun x hx => by
    rw [(mem_numbered hx).2]
    omega
  obtain ⟨hget, hcsrs, hmode, hslot, hframe⟩ := storeSlots_spec (ι := ι) base (numbered rs) s hlt
    fun x hx y hy heq => by
      rw [(mem_numbered hx).2, (mem_numbered hy).2] at heq
      exact Fin.ext (by omega)
  rw [hsaves]
  refine ⟨hget, hcsrs, hmode, fun r hr => hslot (r, 8 * r.val) (List.mem_map_of_mem hr), fun n hn hne => ?_⟩
  refine hframe _ fun x hx => addr_ne hn (hlt x hx) ?_
  rw [(mem_numbered hx).2]
  exact (hne x.1 (mem_numbered hx).1).symm

theorem loads_spec (base : Reg) (rs : List Reg) (hbase : base ∉ rs) (hzero : 0 ∉ rs) (s : Machine) :
    let s' := (loads base rs : List (Instr ι)).foldl Instr.step s
    s'.mem = s.mem ∧ s'.csrs = s.csrs ∧ s'.mode = s.mode ∧
      (∀ r ∈ rs, s'.get r = s.mem (s.addr (8 * r) base)) ∧
      ∀ r ∉ rs, s'.get r = s.get r := by
  have hloads : (loads base rs : List (Instr ι)) = loadSlots base (numbered rs) := by
    rw [loads, loadSlots, numbered, List.map_map]
    rfl
  obtain ⟨hmem, hcsrs, hmode, hload, hframe⟩ := loadSlots_spec (ι := ι) base (numbered rs) s
    (fun x hx heq => hbase (heq ▸ (mem_numbered hx).1))
    (fun x hx heq => hzero (heq ▸ (mem_numbered hx).1))
    fun x hx y hy heq => by rw [(mem_numbered hx).2, (mem_numbered hy).2, heq]
  rw [hloads]
  refine ⟨hmem, hcsrs, hmode, fun r hr => hload (r, 8 * r.val) (List.mem_map_of_mem hr), fun r hr => ?_⟩
  exact hframe r fun x hx heq => hr (heq ▸ (mem_numbered hx).1)

end SystemN.RiscV
