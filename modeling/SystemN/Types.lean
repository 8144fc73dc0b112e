/-
The constants of `types.h`, `mm/mapping.h` and `mm/mem.h`, and what a kernel
function can come back with.

Addresses and `ulong` values are natural numbers; where the C code can wrap
around, the wrap is written out with `u64` and `sub64`.  A function that can end
in one of the kernel's `while (1)` loops returns in `Except Stop`, so that a
caller cannot go on after a callee that never comes back.
-/
import Mathlib.Data.Nat.Bitwise
import Mathlib.Tactic.Ring
import Mathlib.Tactic.Linarith

namespace SystemN

/-- Why a call does not come back. -/
inductive Stop where
  /-- It reached an explicit halt loop: `while (1) asm volatile("wfi");`. -/
  | halt
  /-- It runs through a loop whose exit condition never holds. -/
  | diverge
  deriving DecidableEq, Repr

/-- The values of type `ulong`. -/
abbrev u64 (n : Nat) : Nat := n % 2 ^ 64

/-- Unsigned 64-bit subtraction. -/
def sub64 (a b : Nat) : Nat := (a + (2 ^ 64 - b % 2 ^ 64)) % 2 ^ 64

theorem sub64_of_le {a b : Nat} (h : b ≤ a) (ha : a < 2 ^ 64) : sub64 a b = a - b := by
  unfold sub64
  have hb : b % 2 ^ 64 = b := Nat.mod_eq_of_lt (by omega)
  rw [hb]
  omega

theorem sub64_lt (a b : Nat) : sub64 a b < 2 ^ 64 := Nat.mod_lt _ (by norm_num)

/-! ### `mm/mapping.h` -/

@[simp] abbrev kernelStart : Nat := 0x80000000
@[simp] abbrev kernelEndPhys : Nat := 0x80800000
@[simp] abbrev userEnd : Nat := 0x88000000
@[simp] abbrev kernelStartVa : Nat := 0xffffffff80000000
@[simp] abbrev userStartVa : Nat := 0x0
@[simp] abbrev userEndVa : Nat := 0x7800000

/-- `VA_OFFSET`, what is added to a physical address once the kernel runs in S-mode. -/
@[simp] abbrev vaOffsetConst : Nat := kernelStartVa - kernelStart

/-! ### `mm/mem.h` -/

@[simp] abbrev pageSize : Nat := 4096
@[simp] abbrev maxOrder : Nat := 10
@[simp] abbrev kstackSize : Nat := pageSize
@[simp] abbrev userStackSize : Nat := pageSize
@[simp] abbrev userStackTop : Nat := userEndVa
@[simp] abbrev userStackBase : Nat := userEndVa - userStackSize
@[simp] abbrev userHeapEnd : Nat := userStackBase - pageSize

/-- `ALIGN_UP`: the mask `~(PAGE_SIZE - 1)` clears the twelve low bits. -/
def alignUp (addr : Nat) : Nat := u64 (addr + pageSize - 1) / pageSize * pageSize

theorem alignUp_mod (addr : Nat) : alignUp addr % pageSize = 0 := Nat.mul_mod_left _ _

theorem le_alignUp {addr : Nat} (h : addr + pageSize ≤ 2 ^ 64) : addr ≤ alignUp addr := by
  simp only [alignUp, u64, pageSize] at *
  omega

theorem alignUp_lt {addr : Nat} : alignUp addr < addr + pageSize := by
  simp only [alignUp, u64, pageSize] at *
  omega

theorem alignUp_of_mod {addr : Nat} (h : addr % pageSize = 0) (hlt : addr + pageSize ≤ 2 ^ 64) :
    alignUp addr = addr := by
  simp only [alignUp, u64, pageSize] at *
  omega

/-- The number of pages that `size` bytes take. -/
def pagesOf (size : Nat) : Nat := (size + pageSize - 1) / pageSize

/-! ### `kernel.ld` -/

/-- The symbols of a linked kernel, as physical addresses.  The linker script puts the text at
`KERNEL_START` and starts each further section on a page boundary; the image is loaded into the
machine's memory, which ends at `USER_END`. -/
structure Layout where
  textEnd : Nat
  rodataEnd : Nat
  /-- `_kernel_end`. -/
  kernelEnd : Nat
  textStart_le : kernelStart ≤ textEnd
  textEnd_le : textEnd ≤ rodataEnd
  rodataStart_le : alignUp textEnd ≤ rodataEnd
  rodataEnd_le : rodataEnd ≤ kernelEnd
  dataStart_le : alignUp rodataEnd ≤ kernelEnd
  inMemory : kernelEnd ≤ userEnd

namespace Layout

/-- `_kernel_text_start`. -/
def textStart (_ : Layout) : Nat := kernelStart

/-- `_kernel_rodata_start`. -/
def rodataStart (L : Layout) : Nat := alignUp L.textEnd

/-- `_kernel_data_start`. -/
def dataStart (L : Layout) : Nat := alignUp L.rodataEnd

end Layout

/-! ### Sequencing calls that may not come back -/

theorem bind_eq_ok {α β : Type} {x : Except Stop α} {f : α → Except Stop β} {b : β} :
    (x >>= f) = .ok b ↔ ∃ a, x = .ok a ∧ f a = .ok b := by
  cases x with
  | error e => simp [bind, Except.bind]
  | ok a => simp [bind, Except.bind]

/-- One of two calls, and what follows either. -/
theorem ite_bind_eq_ok {α β : Type} {c : Prop} [Decidable c] {x y : Except Stop α}
    {f : α → Except Stop β} {b : β} (h : (if c then x >>= f else y >>= f) = .ok b) :
    ∃ a, (if c then x else y) = .ok a ∧ f a = .ok b := by
  rw [← bind_eq_ok]
  split
  · next hc => rwa [if_pos hc] at h
  · next hc => rwa [if_neg hc] at h

@[simp] theorem ok_bind {α β : Type} (a : α) (f : α → Except Stop β) :
    ((Except.ok a : Except Stop α) >>= f) = f a := rfl

@[simp] theorem error_bind {α β : Type} (e : Stop) (f : α → Except Stop β) :
    ((Except.error e : Except Stop α) >>= f) = .error e := rfl

end SystemN
