/-
Little-endian numbers in byte memory.

A memory is a function from addresses to bytes.  `loadLE` and `storeLE` read and
write a number of `n` bytes; what a later proof needs is that a load sees the last
store to its own bytes and none to others.
-/
import Mathlib.Data.UInt
import Mathlib.Tactic.Ring

namespace SystemN.Bytes

variable {m m' : Nat → UInt8} {a b n k v : Nat}

/-- The number held by the `n` bytes from `a`, lowest byte first. -/
def loadLE (m : Nat → UInt8) (a : Nat) : Nat → Nat
  | 0 => 0
  | n + 1 => (m a).toNat + 256 * loadLE m (a + 1) n

/-- Put `v` into the `n` bytes from `a`. -/
def storeLE (m : Nat → UInt8) (a n v : Nat) : Nat → UInt8 := fun x =>
  if a ≤ x ∧ x < a + n then UInt8.ofNat (v / 256 ^ (x - a)) else m x

theorem loadLE_congr (h : ∀ x, a ≤ x → x < a + n → m' x = m x) : loadLE m' a n = loadLE m a n := by
  induction n generalizing a with
  | zero => rfl
  | succ n ih =>
      have htail := ih (a := a + 1) fun x hx hx' => h x (by omega) (by omega)
      simp only [loadLE, htail, h a (le_refl a) (by omega)]

theorem storeLE_of_notMem {x : Nat} (h : ¬(a ≤ x ∧ x < a + n)) : storeLE m a n v x = m x :=
  if_neg h

/-- **Read after write.** -/
theorem loadLE_storeLE : loadLE (storeLE m a n v) a n = v % 256 ^ n := by
  induction n generalizing m a v with
  | zero => simp [loadLE, Nat.mod_one]
  | succ n ih =>
      have htail : loadLE (storeLE m a (n + 1) v) (a + 1) n = v / 256 % 256 ^ n := by
        rw [← ih (m := m) (a := a + 1)]
        refine loadLE_congr fun x hx hx' => ?_
        simp only [storeLE]
        rw [if_pos ⟨by omega, by omega⟩, if_pos ⟨hx, hx'⟩, Nat.div_div_eq_div_mul, ← pow_succ',
          show x - (a + 1) + 1 = x - a by omega]
      have hhead : (storeLE m a (n + 1) v a).toNat = v % 256 := by
        simp [storeLE, UInt8.toNat_ofNat']
      rw [loadLE, htail, hhead, pow_succ', Nat.mod_mul]

/-- A load does not see a store to other bytes. -/
theorem loadLE_storeLE_of_disjoint (h : a + n ≤ b ∨ b + k ≤ a) :
    loadLE (storeLE m b k v) a n = loadLE m a n := by
  refine loadLE_congr fun x hx hx' => ?_
  exact storeLE_of_notMem (by omega)

theorem loadLE_zero (h : ∀ x, a ≤ x → x < a + n → m x = 0) : loadLE m a n = 0 := by
  induction n generalizing a with
  | zero => rfl
  | succ n ih =>
      have htail := ih (a := a + 1) fun x hx hx' => h x (by omega) (by omega)
      simp only [loadLE, htail, h a (le_refl a) (by omega)]
      rfl

end SystemN.Bytes
