/-
Tilings of an interval of naturals by blocks of power-of-two size.

A block is a head and an order, and covers `2 ^ order` naturals from its head on.
A multiset of blocks tiles `[0, n)` when every natural below `n` lies in exactly
one block and no block reaches past `n`.  Counting, rather than set disjointness,
is what makes "two copies of one block" as much of an overlap as two different
blocks that meet.

The two moves of a buddy system are one equivalence here: `split_iff` says that a
block may be replaced by its halves, or two halves by their union, and the tiling
neither gains nor loses a point.

Nothing asks a head to be a multiple of the block's size.  `pairHead` and the
lemmas on `xor` describe the other half of a pair by arithmetic on the head alone.
-/
import Mathlib.Data.Multiset.Count
import Mathlib.Data.Multiset.Basic
import Mathlib.Algebra.Order.BigOperators.Group.Finset
import Mathlib.Algebra.BigOperators.Fin
import Mathlib.Tactic.Ring
import Mathlib.Tactic.Linarith

namespace SystemN.Tiling

/-- A block: its head and its order. -/
abbrev Block := Nat × Nat

/-- The block `B` contains `i`. -/
def Covers (i : Nat) (B : Block) : Prop := B.1 ≤ i ∧ i < B.1 + 2 ^ B.2

instance (i : Nat) : DecidablePred (Covers i) := fun B => by unfold Covers; infer_instance

/-- Every natural below `n` lies in exactly one block of `S`, and no other in any. -/
def IsTiling (n : Nat) (S : Multiset Block) : Prop :=
  ∀ i, S.countP (Covers i) = if i < n then 1 else 0

theorem covers_head (B : Block) : Covers B.1 B :=
  ⟨Nat.le_refl _, Nat.lt_add_of_pos_right (Nat.two_pow_pos _)⟩

variable {n : Nat} {S : Multiset Block}

/-! ### Splitting and merging -/

theorem covers_succ (i h o : Nat) :
    Covers i (h, o + 1) ↔ Covers i (h, o) ∨ Covers i (h + 2 ^ o, o) := by
  have hpow : 2 ^ (o + 1) = 2 ^ o + 2 ^ o := by ring
  simp only [Covers, hpow]
  omega

theorem countP_halves (i h o : Nat) :
    Multiset.countP (Covers i) ((h, o + 1) ::ₘ S)
      = Multiset.countP (Covers i) ((h, o) ::ₘ (h + 2 ^ o, o) ::ₘ S) := by
  have hexcl : ¬ (Covers i (h, o) ∧ Covers i (h + 2 ^ o, o)) := by
    simp only [Covers]
    omega
  by_cases hlo : Covers i (h, o)
  · have hhi : ¬ Covers i (h + 2 ^ o, o) := fun hc => hexcl ⟨hlo, hc⟩
    rw [Multiset.countP_cons_of_pos _ ((covers_succ i h o).mpr (Or.inl hlo)),
      Multiset.countP_cons_of_pos _ hlo, Multiset.countP_cons_of_neg _ hhi]
  · by_cases hhi : Covers i (h + 2 ^ o, o)
    · rw [Multiset.countP_cons_of_pos _ ((covers_succ i h o).mpr (Or.inr hhi)),
        Multiset.countP_cons_of_neg _ hlo, Multiset.countP_cons_of_pos _ hhi]
    · have hsucc : ¬ Covers i (h, o + 1) := fun hc =>
        ((covers_succ i h o).mp hc).elim hlo hhi
      rw [Multiset.countP_cons_of_neg _ hsucc, Multiset.countP_cons_of_neg _ hlo,
        Multiset.countP_cons_of_neg _ hhi]

/-- **A block and its two halves tile alike.** -/
theorem split_iff (h o : Nat) :
    IsTiling n ((h, o + 1) ::ₘ S) ↔ IsTiling n ((h, o) ::ₘ (h + 2 ^ o, o) ::ₘ S) := by
  unfold IsTiling
  simp only [countP_halves]

theorem isTiling_zero : IsTiling 0 0 := fun i => by simp

/-- A block put at the end of a tiling lengthens it. -/
theorem IsTiling.extend (ht : IsTiling n S) (o : Nat) : IsTiling (n + 2 ^ o) ((n, o) ::ₘ S) := by
  intro i
  have hi := ht i
  by_cases hcov : Covers i (n, o)
  · rw [Multiset.countP_cons_of_pos _ hcov, hi]
    obtain ⟨h1, h2⟩ := hcov
    rw [if_neg (Nat.not_lt.mpr h1), if_pos h2]
  · rw [Multiset.countP_cons_of_neg _ hcov, hi]
    have hpos := Nat.two_pow_pos o
    unfold Covers at hcov
    simp only at hcov
    by_cases hin : i < n
    · rw [if_pos hin, if_pos (by omega)]
    · rw [if_neg hin, if_neg (by omega)]

/-! ### What a tiling says of its blocks -/

theorem IsTiling.end_le (ht : IsTiling n S) {B : Block} (hB : B ∈ S) : B.1 + 2 ^ B.2 ≤ n := by
  by_contra hc
  have hpos : 0 < 2 ^ B.2 := Nat.two_pow_pos _
  -- the last natural of the block would lie past the end
  have hcov : Covers (B.1 + 2 ^ B.2 - 1) B := ⟨by omega, by omega⟩
  have hcount : 0 < S.countP (Covers (B.1 + 2 ^ B.2 - 1)) :=
    Multiset.countP_pos.mpr ⟨B, hB, hcov⟩
  rw [ht, if_neg (by omega)] at hcount
  exact absurd hcount (Nat.lt_irrefl 0)

theorem IsTiling.head_lt (ht : IsTiling n S) {B : Block} (hB : B ∈ S) : B.1 < n :=
  Nat.lt_of_lt_of_le (Nat.lt_add_of_pos_right (Nat.two_pow_pos _)) (ht.end_le hB)

theorem IsTiling.exists_covers (ht : IsTiling n S) {i : Nat} (hi : i < n) :
    ∃ B ∈ S, Covers i B := by
  have hcount : 0 < S.countP (Covers i) := by rw [ht, if_pos hi]; exact Nat.one_pos
  exact Multiset.countP_pos.mp hcount

/-- Two blocks of one tiling do not meet. -/
theorem IsTiling.cons_disjoint {B C : Block} (ht : IsTiling n (B ::ₘ S)) (hC : C ∈ S) {i : Nat}
    (hB : Covers i B) : ¬ Covers i C := by
  intro hcov
  have hle : S.countP (Covers i) + 1 ≤ 1 := by
    have := ht i
    rw [Multiset.countP_cons_of_pos _ hB] at this
    rw [this]
    split <;> omega
  have hpos : 0 < S.countP (Covers i) := Multiset.countP_pos.mpr ⟨C, hC, hcov⟩
  omega

theorem IsTiling.eq_of_covers (ht : IsTiling n S) {B C : Block} (hB : B ∈ S) (hC : C ∈ S)
    {i : Nat} (hcB : Covers i B) (hcC : Covers i C) : B = C := by
  by_contra hne
  obtain ⟨T, rfl⟩ := Multiset.exists_cons_of_mem hB
  rcases Multiset.mem_cons.mp hC with hCB | hCT
  · exact hne hCB.symm
  · exact ht.cons_disjoint hCT hcB hcC

/-- No block is there twice. -/
theorem IsTiling.not_mem_of_cons {B : Block} (ht : IsTiling n (B ::ₘ S)) : B ∉ S :=
  fun hmem => ht.cons_disjoint hmem (covers_head B) (covers_head B)

theorem IsTiling.nodup (ht : IsTiling n S) : S.Nodup := by
  rw [Multiset.nodup_iff_ne_cons_cons]
  rintro B T rfl
  exact ht.not_mem_of_cons (Multiset.mem_cons_self B T)

/-- Two blocks of a tiling with one head are one block. -/
theorem IsTiling.eq_of_head (ht : IsTiling n S) {B C : Block} (hB : B ∈ S) (hC : C ∈ S)
    (h : B.1 = C.1) : B = C :=
  ht.eq_of_covers hB hC (covers_head B) (h ▸ covers_head C)

/-! ### The number of points -/

theorem card_covers {B : Block} (h : B.1 + 2 ^ B.2 ≤ n) :
    ((Finset.range n).filter fun i => Covers i B).card = 2 ^ B.2 := by
  have hset : ((Finset.range n).filter fun i => Covers i B) = Finset.Ico B.1 (B.1 + 2 ^ B.2) := by
    ext i
    rw [Finset.mem_filter, Finset.mem_range, Finset.mem_Ico]
    unfold Covers
    omega
  rw [hset, Nat.card_Ico, Nat.add_sub_cancel_left]

/-- The points counted block by block. -/
theorem sum_countP (hS : ∀ B ∈ S, B.1 + 2 ^ B.2 ≤ n) :
    ∑ i ∈ Finset.range n, S.countP (Covers i) = (S.map fun B => 2 ^ B.2).sum := by
  induction S using Multiset.induction_on with
  | empty => simp
  | cons B S ih =>
      have hB := card_covers (hS B (Multiset.mem_cons_self B S))
      rw [Finset.card_filter] at hB
      have hS' := ih fun C hC => hS C (Multiset.mem_cons_of_mem hC)
      rw [Multiset.map_cons, Multiset.sum_cons, ← hB, ← hS', ← Finset.sum_add_distrib]
      apply Finset.sum_congr rfl
      intro i _
      rw [Multiset.countP_cons, add_comm]

/-- **The blocks of a tiling have as many points as it.** -/
theorem IsTiling.sum_size (ht : IsTiling n S) : (S.map fun B => 2 ^ B.2).sum = n := by
  rw [← sum_countP fun B hB => ht.end_le hB]
  calc ∑ i ∈ Finset.range n, S.countP (Covers i) = ∑ _i ∈ Finset.range n, 1 :=
        Finset.sum_congr rfl fun i hi => by rw [ht, if_pos (Finset.mem_range.mp hi)]
    _ = n := by rw [Finset.sum_const, Finset.card_range, smul_eq_mul, mul_one]

/-! ### Pairs

Flipping bit `k` of a head gives the head of the other half of a pair; `pairHead`
is the lower of the two.
-/

theorem xor_one_of_even {m : Nat} (h : m % 2 = 0) : m ^^^ 1 = m + 1 := by
  have hdiv : (m ^^^ 1) / 2 = m / 2 := by
    rw [← Nat.pow_one 2, Nat.xor_div_two_pow]
    simp
  have hmod : (m ^^^ 1) % 2 = 1 := by
    rw [← Nat.pow_one 2, Nat.xor_mod_two_pow, Nat.pow_one, h]
    rfl
  omega

theorem xor_one_of_odd {m : Nat} (h : m % 2 = 1) : m ^^^ 1 = m - 1 := by
  have hdiv : (m ^^^ 1) / 2 = m / 2 := by
    rw [← Nat.pow_one 2, Nat.xor_div_two_pow]
    simp
  have hmod : (m ^^^ 1) % 2 = 0 := by
    rw [← Nat.pow_one 2, Nat.xor_mod_two_pow, Nat.pow_one, h]
    rfl
  omega

/-- The lower head of the pair of order-`k` blocks one of which is headed by `j`. -/
def pairHead (j k : Nat) : Nat := if j / 2 ^ k % 2 = 0 then j else j - 2 ^ k

theorem xor_two_pow_eq (j k : Nat) : j ^^^ 2 ^ k = (j / 2 ^ k ^^^ 1) * 2 ^ k + j % 2 ^ k := by
  have hdiv : (j ^^^ 2 ^ k) / 2 ^ k = j / 2 ^ k ^^^ 1 := by
    rw [Nat.xor_div_two_pow, Nat.div_self (Nat.two_pow_pos k)]
  have hmod : (j ^^^ 2 ^ k) % 2 ^ k = j % 2 ^ k := by
    rw [Nat.xor_mod_two_pow, Nat.mod_self, Nat.xor_zero]
  have := Nat.div_add_mod' (j ^^^ 2 ^ k) (2 ^ k)
  rw [hdiv, hmod] at this
  exact this.symm

theorem xor_of_lower {j k : Nat} (h : j / 2 ^ k % 2 = 0) : j ^^^ 2 ^ k = j + 2 ^ k := by
  rw [xor_two_pow_eq, xor_one_of_even h]
  have := Nat.div_add_mod' j (2 ^ k)
  rw [Nat.add_mul, Nat.one_mul]
  omega

theorem two_pow_le_of_upper {j k : Nat} (h : j / 2 ^ k % 2 = 1) : 2 ^ k ≤ j := by
  by_contra hc
  rw [Nat.div_eq_of_lt (Nat.not_le.mp hc)] at h
  exact absurd h (by decide)

theorem xor_of_upper {j k : Nat} (h : j / 2 ^ k % 2 = 1) : j ^^^ 2 ^ k = j - 2 ^ k := by
  rw [xor_two_pow_eq, xor_one_of_odd h]
  have hdm := Nat.div_add_mod' j (2 ^ k)
  have hle := two_pow_le_of_upper h
  have hmul : (j / 2 ^ k - 1) * 2 ^ k = j / 2 ^ k * 2 ^ k - 2 ^ k := by
    rw [Nat.sub_mul, Nat.one_mul]
  have hone : 2 ^ k ≤ j / 2 ^ k * 2 ^ k :=
    Nat.le_mul_of_pos_left _ (Nat.div_pos hle (Nat.two_pow_pos k))
  omega

/-- The two heads of a pair are its lower head and `2 ^ k` above it. -/
theorem pair_cases (j k : Nat) :
    (pairHead j k = j ∧ j ^^^ 2 ^ k = j + 2 ^ k) ∨
      (pairHead j k + 2 ^ k = j ∧ (j ^^^ 2 ^ k) + 2 ^ k = j) := by
  unfold pairHead
  rcases Nat.mod_two_eq_zero_or_one (j / 2 ^ k) with h | h
  · exact Or.inl ⟨if_pos h, xor_of_lower h⟩
  · have hle := two_pow_le_of_upper h
    rw [if_neg (by omega), xor_of_upper h]
    exact Or.inr ⟨by omega, by omega⟩

theorem xor_ne (j k : Nat) : j ^^^ 2 ^ k ≠ j := by
  have hpos := Nat.two_pow_pos k
  rcases pair_cases j k with ⟨-, h⟩ | ⟨-, h⟩ <;> omega

/-- The head of the block that grows out of the one at `c` of order `k`, by merging at each order
from `k` up to `j`. -/
def mergedHead (c k j : Nat) : Nat := c / 2 ^ j * 2 ^ j + c % 2 ^ k

@[simp] theorem mergedHead_self (c k : Nat) : mergedHead c k k = c := Nat.div_add_mod' c (2 ^ k)

theorem pairHead_eq (c k : Nat) : pairHead c k = mergedHead c k (k + 1) := by
  have hdm := Nat.div_add_mod' c (2 ^ k)
  have hhalf : c / 2 ^ (k + 1) = c / 2 ^ k / 2 := by rw [Nat.pow_succ, Nat.div_div_eq_div_mul]
  have hmul : c / 2 ^ k / 2 * 2 ^ (k + 1) = (c / 2 ^ k / 2 * 2) * 2 ^ k := by
    rw [Nat.pow_succ]
    ring
  unfold mergedHead pairHead
  rw [hhalf, hmul]
  rcases Nat.mod_two_eq_zero_or_one (c / 2 ^ k) with h | h
  · have heven : c / 2 ^ k / 2 * 2 = c / 2 ^ k := by omega
    rw [if_pos h, heven, hdm]
  · have hodd : c / 2 ^ k / 2 * 2 = c / 2 ^ k - 1 := by omega
    have hle := two_pow_le_of_upper h
    rw [if_neg (by omega), hodd, Nat.sub_mul, Nat.one_mul]
    have hone : 2 ^ k ≤ c / 2 ^ k * 2 ^ k :=
      Nat.le_mul_of_pos_left _ (Nat.div_pos hle (Nat.two_pow_pos k))
    omega

theorem mergedHead_div (c : Nat) {k j : Nat} (hj : k ≤ j) : mergedHead c k j / 2 ^ j = c / 2 ^ j := by
  have hlt : c % 2 ^ k < 2 ^ j :=
    (Nat.mod_lt _ (Nat.two_pow_pos k)).trans_le (Nat.pow_le_pow_right (by norm_num) hj)
  unfold mergedHead
  rw [Nat.mul_comm, Nat.mul_add_div (Nat.two_pow_pos j), Nat.div_eq_of_lt hlt, Nat.add_zero]

theorem mergedHead_mod (c : Nat) {k j : Nat} (hj : k ≤ j) : mergedHead c k j % 2 ^ j = c % 2 ^ k := by
  have hlt : c % 2 ^ k < 2 ^ j :=
    (Nat.mod_lt _ (Nat.two_pow_pos k)).trans_le (Nat.pow_le_pow_right (by norm_num) hj)
  unfold mergedHead
  rw [Nat.mul_comm, Nat.mul_add_mod, Nat.mod_eq_of_lt hlt]

/-- Merging at order `k` and then up to `j` is merging up to `j`. -/
theorem mergedHead_pairHead (c : Nat) {k j : Nat} (hj : k + 1 ≤ j) :
    mergedHead (pairHead c k) (k + 1) j = mergedHead c k j := by
  have hmod : pairHead c k % 2 ^ (k + 1) = c % 2 ^ k := by
    rw [pairHead_eq, mergedHead_mod c (Nat.le_succ k)]
  have hdiv : pairHead c k / 2 ^ j = c / 2 ^ j := by
    obtain ⟨d, rfl⟩ := Nat.exists_eq_add_of_le hj
    rw [Nat.pow_add, ← Nat.div_div_eq_div_mul, ← Nat.div_div_eq_div_mul, pairHead_eq,
      mergedHead_div c (Nat.le_succ k)]
  unfold mergedHead
  rw [hmod, hdiv]

theorem mergedHead_testBit (c : Nat) {k j : Nat} (hj : k ≤ j) :
    (mergedHead c k j ^^^ 2 ^ j).testBit j = !c.testBit j := by
  have hbit : (mergedHead c k j).testBit j = c.testBit j := by
    rw [Nat.testBit_eq_decide_div_mod_eq, Nat.testBit_eq_decide_div_mod_eq, mergedHead_div c hj]
  rw [Nat.testBit_xor, Nat.testBit_two_pow_self, hbit, Bool.xor_true]

/-- The buddies met on the way up are not the block. -/
theorem mergedHead_xor_ne_self (c : Nat) {k j : Nat} (hj : k ≤ j) :
    mergedHead c k j ^^^ 2 ^ j ≠ c := by
  intro heq
  have hbit := mergedHead_testBit c hj
  rw [heq] at hbit
  cases h : c.testBit j <;> simp [h] at hbit

/-- They are different pages. -/
theorem mergedHead_xor_ne (c : Nat) {k j : Nat} (hj : k < j) :
    mergedHead c k j ^^^ 2 ^ j ≠ c ^^^ 2 ^ k := by
  intro heq
  have hbit := mergedHead_testBit c hj.le
  rw [heq, Nat.testBit_xor, Nat.testBit_two_pow_of_ne (Nat.ne_of_lt hj), Bool.xor_false] at hbit
  cases h : c.testBit j <;> simp [h] at hbit

/-! ### Aligned blocks

A block is aligned when its head is a multiple of its size.  Two blocks that are both
aligned are nested or disjoint, so a tiling by aligned blocks in which no two are a
pair has no small blocks at all.
-/

theorem pairHead_dvd {c k : Nat} (h : 2 ^ k ∣ c) : 2 ^ (k + 1) ∣ pairHead c k := by
  rw [pairHead_eq]
  unfold mergedHead
  rw [Nat.mod_eq_zero_of_dvd h, Nat.add_zero]
  exact Nat.dvd_mul_left _ _

theorem xor_xor_two_pow (h k : Nat) : (h ^^^ 2 ^ k) ^^^ 2 ^ k = h := by
  rw [Nat.xor_assoc, Nat.xor_self, Nat.xor_zero]

/-- A multiple of `d` that is at most `x` is at most the last one. -/
theorem dvd_le_floor {d m x : Nat} (hd : d ∣ m) (hle : m ≤ x) : m ≤ x / d * d := by
  obtain ⟨q, rfl⟩ := hd
  rcases Nat.eq_zero_or_pos d with rfl | hpos
  · simp
  · rw [Nat.mul_comm d q]
    refine Nat.mul_le_mul_right d ?_
    rw [Nat.le_div_iff_mul_le hpos, Nat.mul_comm]
    exact hle

/-- A multiple of `d` beyond `x` is beyond all of the stretch of `d` that holds `x`. -/
theorem floor_add_le_dvd {d m x : Nat} (hd : d ∣ m) (hlt : x < m) : x / d * d + d ≤ m := by
  obtain ⟨q, rfl⟩ := hd
  have hq : x / d < q := Nat.div_lt_of_lt_mul hlt
  calc x / d * d + d = (x / d + 1) * d := by ring
    _ ≤ q * d := Nat.mul_le_mul_right d hq
    _ = d * q := Nat.mul_comm q d

/-- A pair lies in one stretch of twice the size. -/
theorem pair_floor (h o : Nat) : (h ^^^ 2 ^ o) / 2 ^ (o + 1) = h / 2 ^ (o + 1) := by
  rw [Nat.xor_div_two_pow, Nat.div_eq_of_lt (Nat.pow_lt_pow_right (by norm_num) (Nat.lt_succ_self o)),
    Nat.xor_zero]

theorem xor_two_pow_dvd {h o : Nat} (hd : 2 ^ o ∣ h) : 2 ^ o ∣ h ^^^ 2 ^ o := by
  rw [xor_two_pow_eq, Nat.mod_eq_zero_of_dvd hd, Nat.add_zero]
  exact Nat.dvd_mul_left _ _

/-- Two multiples of `d` less than `d` apart. -/
theorem eq_of_dvd_of_lt {d c b : Nat} (hc : d ∣ c) (hb : d ∣ b) (hle : c ≤ b) (hlt : b < c + d) :
    b = c := by
  have hzero : b - c = 0 := Nat.eq_zero_of_dvd_of_lt (Nat.dvd_sub hb hc) (by omega)
  omega

/-- **Fully coalesced**: in a tiling by aligned blocks no larger than `2 ^ k`, of a multiple of
`2 ^ k` pages, in which no two blocks are a pair, all blocks are of order `k`. -/
theorem IsTiling.uniform {k : Nat} (ht : IsTiling n S) (hal : ∀ B ∈ S, 2 ^ B.2 ∣ B.1)
    (hle : ∀ B ∈ S, B.2 ≤ k) (hn : 2 ^ k ∣ n)
    (hapart : ∀ B ∈ S, B.2 < k → (B.1 ^^^ 2 ^ B.2, B.2) ∉ S) : ∀ B ∈ S, B.2 = k := by
  -- no order below `k` is left, by induction on the order
  have hno : ∀ o, o < k → ∀ h, (h, o) ∉ S := by
    intro o
    induction o using Nat.strong_induction_on with
    | _ o ih =>
        intro ho h hB
        have hdn : 2 ^ (o + 1) ∣ n := (Nat.pow_dvd_pow 2 ho).trans hn
        have hh : 2 ^ o ∣ h := hal (h, o) hB
        have hlast := Nat.lt_div_mul_add (a := h ^^^ 2 ^ o) (Nat.two_pow_pos (o + 1))
        have hb : h ^^^ 2 ^ o < n := by
          have hend : h / 2 ^ (o + 1) * 2 ^ (o + 1) + 2 ^ (o + 1) ≤ n :=
            floor_add_le_dvd hdn (ht.head_lt hB)
          rw [pair_floor] at hlast
          omega
        obtain ⟨⟨c, j⟩, hC, hcov⟩ := ht.exists_covers hb
        have hc : 2 ^ j ∣ c := hal (c, j) hC
        have hclo : c ≤ h ^^^ 2 ^ o := hcov.1
        have hchi : h ^^^ 2 ^ o < c + 2 ^ j := hcov.2
        rcases Nat.lt_trichotomy j o with hlt | rfl | hgt
        · exact ih j hlt (by omega) c hC
        · have hbc := eq_of_dvd_of_lt hc (xor_two_pow_dvd hh) hclo hchi
          refine hapart (h, j) hB ho ?_
          rw [hbc]
          exact hC
        · -- a larger block around the buddy is around the block as well
          have hpow : 2 ^ (o + 1) ∣ 2 ^ j := Nat.pow_dvd_pow 2 hgt
          have h1 := dvd_le_floor (hpow.trans hc) hclo
          have h2 := floor_add_le_dvd (Nat.dvd_add (hpow.trans hc) hpow) hchi
          rw [pair_floor] at h1 h2
          have hlo := Nat.div_mul_le_self h (2 ^ (o + 1))
          have hhi := Nat.lt_div_mul_add (a := h) (Nat.two_pow_pos (o + 1))
          have heq := ht.eq_of_covers hC hB (i := h) ⟨by simp only; omega, by simp only; omega⟩
            (covers_head (h, o))
          have horder : j = o := congrArg Prod.snd heq
          omega
  intro B hB
  refine Nat.le_antisymm (hle B hB) (Nat.not_lt.mp fun hlt => ?_)
  exact hno B.2 hlt B.1 hB

/-- The blocks of such a tiling. -/
theorem IsTiling.uniform_mem {k : Nat} (ht : IsTiling n S) (hal : ∀ B ∈ S, 2 ^ B.2 ∣ B.1)
    (hall : ∀ B ∈ S, B.2 = k) (h o : Nat) : (h, o) ∈ S ↔ o = k ∧ 2 ^ k ∣ h ∧ h < n := by
  constructor
  · intro hB
    have ho : o = k := hall (h, o) hB
    subst ho
    exact ⟨rfl, hal (h, o) hB, ht.head_lt hB⟩
  · rintro ⟨rfl, hd, hlt⟩
    obtain ⟨⟨c, j⟩, hC, hcov⟩ := ht.exists_covers hlt
    obtain rfl : j = o := hall (c, j) hC
    have hc : 2 ^ j ∣ c := hal (c, j) hC
    have hclo : c ≤ h := hcov.1
    have hchi : h < c + 2 ^ j := hcov.2
    rw [eq_of_dvd_of_lt hc hd hclo hchi]
    exact hC

/-- The block before a block. -/
theorem IsTiling.exists_before (ht : IsTiling n S) {B : Block} (hB : B ∈ S) (hpos : 0 < B.1) :
    ∃ C ∈ S, C.1 + 2 ^ C.2 = B.1 := by
  have hlt := ht.head_lt hB
  obtain ⟨C, hC, hcov⟩ := ht.exists_covers (i := B.1 - 1) (by omega)
  refine ⟨C, hC, Nat.le_antisymm ?_ ?_⟩
  · by_contra hc
    have hin : Covers B.1 C := ⟨by have := hcov.1; omega, by omega⟩
    have heq := ht.eq_of_covers hC hB hin (covers_head B)
    have := hcov.1
    rw [heq] at this
    omega
  · have := hcov.2
    omega

/-! ### Pairs inside a larger block

A buddy system leaves marks behind: the head of an absorbed half still says that
it is free.  Such a mark is harmless while the whole pair lies, aligned, inside
one larger block and is not that block's own head: the other half is then no
block of its own, so nobody asks about this one.  `Settled` is that condition; it
survives splits and merges, except when a split makes the marked head a block
again.
-/

/-- The order-`k` pair of `j` lies inside a larger block of `S`, at a multiple of its own
size from the block's head, and `j` is not that head. -/
def Settled (S : Multiset Block) (j k : Nat) : Prop :=
  ∃ B ∈ S, k < B.2 ∧ j ≠ B.1 ∧
    ∃ t, pairHead j k = B.1 + t * 2 ^ (k + 1) ∧ t * 2 ^ (k + 1) < 2 ^ B.2

theorem Settled.mono {T : Multiset Block} {j k : Nat} (h : Settled S j k)
    (hsub : ∀ B ∈ S, k < B.2 → B ∈ T) : Settled T j k := by
  obtain ⟨B, hB, hk, hrest⟩ := h
  exact ⟨B, hsub B hB hk, hk, hrest⟩

/-- A multiple of `2 ^ a` below `2 ^ b` leaves room for one more. -/
theorem succ_mul_le {a b t : Nat} (hab : a ≤ b) (h : t * 2 ^ a < 2 ^ b) :
    t * 2 ^ a + 2 ^ a ≤ 2 ^ b := by
  obtain ⟨c, rfl⟩ := Nat.exists_eq_add_of_le hab
  rw [Nat.pow_add, Nat.mul_comm (2 ^ a)] at *
  have hlt : t < 2 ^ c := Nat.lt_of_mul_lt_mul_right h
  calc t * 2 ^ a + 2 ^ a = (t + 1) * 2 ^ a := by ring
    _ ≤ 2 ^ c * 2 ^ a := Nat.mul_le_mul_right _ hlt

/-- **The other half of a settled pair is no block.** -/
theorem IsTiling.not_mem_of_settled (ht : IsTiling n S) {j k : Nat} (h : Settled S j k) :
    (j ^^^ 2 ^ k, k) ∉ S := by
  intro hmem
  obtain ⟨B, hB, hk, -, t, hpair, hlt⟩ := h
  have hroom := succ_mul_le (show k + 1 ≤ B.2 from hk) hlt
  have hpow : 2 ^ (k + 1) = 2 ^ k + 2 ^ k := by ring
  have hpos := Nat.two_pow_pos k
  -- the other head lies in the larger block as well, so the two blocks are one
  have hcov : Covers (j ^^^ 2 ^ k) B := by
    unfold Covers
    rcases pair_cases j k with ⟨h1, h2⟩ | ⟨h1, h2⟩ <;> constructor <;> omega
  have heq := ht.eq_of_covers hB hmem hcov (covers_head (j ^^^ 2 ^ k, k))
  rw [heq] at hk
  exact absurd hk (Nat.lt_irrefl k)

/-- Splitting a block keeps every settled pair but the one whose upper half appears. -/
theorem Settled.split {h o j k : Nat} (hs : Settled ((h, o + 1) ::ₘ S) j k)
    (hne : j ≠ h + 2 ^ o) : Settled ((h, o) ::ₘ (h + 2 ^ o, o) ::ₘ S) j k := by
  obtain ⟨B, hB, hk, hj, t, hpair, hlt⟩ := hs
  rcases Multiset.mem_cons.mp hB with rfl | hBS
  · simp only at hk hj hpair hlt
    rcases Nat.lt_or_ge k o with hko | hko
    · rcases Nat.lt_or_ge (t * 2 ^ (k + 1)) (2 ^ o) with hlow | hhigh
      · exact ⟨(h, o), by simp, hko, hj, t, hpair, hlow⟩
      · obtain ⟨c, rfl⟩ := Nat.exists_eq_add_of_le (show k + 1 ≤ o from hko)
        have hc : 2 ^ (k + 1 + c) = 2 ^ c * 2 ^ (k + 1) := by rw [Nat.pow_add, Nat.mul_comm]
        have hct : 2 ^ c ≤ t := by
          rw [hc] at hhigh
          exact Nat.le_of_mul_le_mul_right hhigh (Nat.two_pow_pos _)
        have hsub : (t - 2 ^ c) * 2 ^ (k + 1) = t * 2 ^ (k + 1) - 2 ^ (k + 1 + c) := by
          rw [Nat.sub_mul, hc]
        have hpow : 2 ^ (k + 1 + c + 1) = 2 ^ (k + 1 + c) + 2 ^ (k + 1 + c) := by ring
        refine ⟨(h + 2 ^ (k + 1 + c), k + 1 + c), by simp, hko, hne, t - 2 ^ c, ?_, ?_⟩
        · rw [hsub, hpair]
          simp only
          omega
        · rw [hsub]
          simp only
          omega
    · -- the pair is the block itself: `j` is one of the two halves
      obtain rfl : k = o := by omega
      have ht0 : t = 0 := by
        by_contra hc
        have := Nat.le_mul_of_pos_left (2 ^ (k + 1)) (Nat.pos_of_ne_zero hc)
        omega
      subst ht0
      exfalso
      rcases pair_cases j k with ⟨h1, -⟩ | ⟨h1, -⟩ <;> omega
  · exact ⟨B, by simp [hBS], hk, hj, t, hpair, hlt⟩

/-- Merging two halves keeps every settled pair. -/
theorem Settled.merge {h o j k : Nat} (hs : Settled ((h, o) ::ₘ (h + 2 ^ o, o) ::ₘ S) j k) :
    Settled ((h, o + 1) ::ₘ S) j k := by
  obtain ⟨B, hB, hk, hj, t, hpair, hlt⟩ := hs
  have hpow : 2 ^ (o + 1) = 2 ^ o + 2 ^ o := by ring
  rcases Multiset.mem_cons.mp hB with rfl | hB
  · exact ⟨(h, o + 1), by simp, Nat.lt_succ_of_lt hk, hj, t, hpair, by simp only at hlt ⊢; omega⟩
  · rcases Multiset.mem_cons.mp hB with rfl | hBS
    · simp only at hk hj hpair hlt
      obtain ⟨c, rfl⟩ := Nat.exists_eq_add_of_le (show k + 1 ≤ o from hk)
      have hc : 2 ^ (k + 1 + c) = 2 ^ c * 2 ^ (k + 1) := by rw [Nat.pow_add, Nat.mul_comm]
      have hpos := Nat.two_pow_pos (k + 1 + c)
      refine ⟨(h, k + 1 + c + 1), by simp, by simp only; omega, ?_, t + 2 ^ c, ?_, ?_⟩
      · have hup : h + 2 ^ (k + 1 + c) ≤ pairHead j k := by omega
        have hposk := Nat.two_pow_pos k
        simp only
        rcases pair_cases j k with ⟨h1, -⟩ | ⟨h1, -⟩ <;> omega
      · rw [Nat.add_mul, ← hc]
        simp only
        omega
      · rw [Nat.add_mul, ← hc]
        simp only
        omega
    · exact ⟨B, by simp [hBS], hk, hj, t, hpair, hlt⟩

/-- A head whose pair has just been merged is settled, unless it heads the union. -/
theorem settled_of_merged {j k : Nat} (hj : pairHead j k ≠ j) :
    Settled ((pairHead j k, k + 1) ::ₘ S) j k :=
  ⟨(pairHead j k, k + 1), by simp, Nat.lt_succ_self k, fun hc => hj hc.symm, 0, by simp,
    by simp⟩

/-! ### Blocks filed by order

An allocator keeps one list of heads for each order up to a largest one.  `filed`
is the multiset of blocks such lists stand for.
-/

/-- The blocks on the lists `fl 0`, ..., `fl m`. -/
def filed (m : Nat) (fl : Nat → List Nat) : Multiset Block :=
  ∑ o ∈ Finset.range (m + 1), ((fl o : Multiset Nat).map fun h => (h, o))

theorem mem_filed {m : Nat} {fl : Nat → List Nat} {B : Block} :
    B ∈ filed m fl ↔ B.2 ≤ m ∧ B.1 ∈ fl B.2 := by
  unfold filed
  rw [Multiset.mem_sum]
  constructor
  · rintro ⟨o, ho, hB⟩
    obtain ⟨h, hh, rfl⟩ := Multiset.mem_map.mp hB
    exact ⟨Nat.lt_succ_iff.mp (Finset.mem_range.mp ho), hh⟩
  · rintro ⟨ho, hB⟩
    exact ⟨B.2, Finset.mem_range.mpr (Nat.lt_succ_of_le ho), Multiset.mem_map.mpr ⟨B.1, hB, rfl⟩⟩

/-- Lists that differ at order `o` alone stand for multisets that differ there alone. -/
theorem filed_update {m o : Nat} (ho : o ≤ m) (fl : Nat → List Nat) (xs : List Nat) :
    filed m (Function.update fl o xs) + (fl o : Multiset Nat).map (fun h => (h, o))
      = (xs : Multiset Nat).map (fun h => (h, o)) + filed m fl := by
  unfold filed
  have hmem : o ∈ Finset.range (m + 1) := Finset.mem_range.mpr (Nat.lt_succ_of_le ho)
  rw [← Finset.add_sum_erase _ _ hmem, ← Finset.add_sum_erase _ _ hmem, Function.update_self]
  have hoff : ∑ i ∈ (Finset.range (m + 1)).erase o,
      ((Function.update fl o xs i : List Nat) : Multiset Nat).map (fun h => (h, i))
      = ∑ i ∈ (Finset.range (m + 1)).erase o, ((fl i : Multiset Nat).map fun h => (h, i)) := by
    refine Finset.sum_congr rfl fun i hi => ?_
    rw [Function.update_of_ne (Finset.ne_of_mem_erase hi)]
  rw [hoff, add_assoc, add_comm (∑ i ∈ _, _)]

/-- Filing one more block. -/
theorem filed_cons {m o : Nat} (ho : o ≤ m) (fl : Nat → List Nat) (h : Nat) :
    filed m (Function.update fl o (h :: fl o)) = (h, o) ::ₘ filed m fl := by
  have := filed_update ho fl (h :: fl o)
  rw [← Multiset.cons_coe, Multiset.map_cons, Multiset.cons_add, ← Multiset.add_cons,
    add_comm _ ((h, o) ::ₘ filed m fl)] at this
  exact add_right_cancel this

/-- Taking one block out. -/
theorem filed_erase {m o : Nat} (ho : o ≤ m) {fl : Nat → List Nat} {h : Nat} (hh : h ∈ fl o) :
    filed m fl = (h, o) ::ₘ filed m (Function.update fl o ((fl o).erase h)) := by
  have := filed_update ho fl ((fl o).erase h)
  have hperm : ((fl o : List Nat) : Multiset Nat) = h ::ₘ (((fl o).erase h : List Nat) : Multiset Nat) :=
    Multiset.coe_eq_coe.mpr (List.perm_cons_erase hh)
  rw [hperm, Multiset.map_cons, Multiset.add_cons, ← Multiset.cons_add,
    add_comm _ (filed m fl)] at this
  exact (add_right_cancel this).symm

end SystemN.Tiling
