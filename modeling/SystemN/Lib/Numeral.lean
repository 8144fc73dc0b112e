/-
Numerals.

A numeral is a list of characters, the highest digit first, and what it stands for is found by
reading it from the left.  Mathlib's lists of digits start with the lowest, and are numbers; the
two are tied together here, for any characters that stand for the digits.
-/
import Mathlib.Data.Nat.Digits.Lemmas

namespace SystemN.Numeral

variable {γ : Type*} {value : γ → Option Nat} {char : Nat → γ} {b n x : Nat}

/-- The number a numeral to the base `b` stands for; it has none if a character is not a digit. -/
def read (value : γ → Option Nat) (b : Nat) (cs : List γ) : Option Nat :=
  cs.foldlM (fun acc c => (value c).map (b * acc + ·)) 0

theorem read_concat (cs : List γ) (c : γ) :
    read value b (cs ++ [c]) = (read value b cs).bind fun acc => (value c).map (b * acc + ·) := by
  simp only [read, List.foldlM_append, List.foldlM_cons, List.foldlM_nil, bind_pure]
  rfl

/-- The digits `ds`, the lowest first, as a numeral. -/
def write (char : Nat → γ) (ds : List Nat) : List γ := ds.reverse.map char

theorem write_cons (d : Nat) (ds : List Nat) : write char (d :: ds) = write char ds ++ [char d] := by
  simp [write]

theorem length_write (ds : List Nat) : (write char ds).length = ds.length := by simp [write]

theorem read_write {ds : List Nat} (h : ∀ d ∈ ds, value (char d) = some d) :
    read value b (write char ds) = some (Nat.ofDigits b ds) := by
  induction ds with
  | nil => rfl
  | cons d ds ih =>
      have hd := h d List.mem_cons_self
      rw [write_cons, read_concat, ih fun e he => h e (List.mem_cons_of_mem d he), Option.bind_some, hd,
        Option.map_some, Nat.ofDigits_cons, Nat.add_comm]

/-! ### As long as need be -/

/-- Reading what has been written for a number gives the number. -/
theorem read_digits (hb : 1 < b) (h : ∀ d < b, value (char d) = some d) (x : Nat) :
    read value b (write char (Nat.digits b x)) = some x := by
  rw [read_write fun d hd => h d (Nat.digits_lt_base hb hd), Nat.ofDigits_digits]

/-- There is no zero in front. -/
theorem head_digits (hb : 1 < b) (h : ∀ d < b, value (char d) = some d) (hx : x ≠ 0) :
    ∃ c, (write char (Nat.digits b x)).head? = some c ∧ value c ≠ some 0 := by
  have hne : Nat.digits b x ≠ [] := Nat.digits_ne_nil_iff_ne_zero.mpr hx
  refine ⟨char ((Nat.digits b x).getLast hne), ?_, ?_⟩
  · rw [write, List.head?_map, List.head?_reverse, List.getLast?_eq_some_getLast hne, Option.map_some]
  · rw [h _ (Nat.digits_lt_base hb (List.getLast_mem hne))]
    exact fun hzero => Nat.getLast_digit_ne_zero b hx (Option.some.inj hzero)

/-! ### Of a fixed length -/

/-- The `n` low digits of a number, the lowest first. -/
def fixedDigits (b n x : Nat) : List Nat := (List.range n).map fun i => x / b ^ i % b

theorem ofDigits_fixedDigits (b n x : Nat) : Nat.ofDigits b (fixedDigits b n x) = x % b ^ n := by
  induction n with
  | zero => simp [fixedDigits, Nat.mod_one]
  | succ n ih =>
      rw [fixedDigits, List.range_succ, List.map_append, Nat.ofDigits_append, ← fixedDigits, ih,
        Nat.mod_pow_succ]
      simp [fixedDigits]

theorem read_fixedDigits (hb : 0 < b) (h : ∀ d < b, value (char d) = some d) (n x : Nat) :
    read value b (write char (fixedDigits b n x)) = some (x % b ^ n) := by
  rw [read_write, ofDigits_fixedDigits]
  intro d hd
  obtain ⟨i, -, rfl⟩ := List.mem_map.mp hd
  exact h _ (Nat.mod_lt _ hb)

end SystemN.Numeral
