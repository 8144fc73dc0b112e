/-
The numbers that the kernel prints.

`uart_putlong` fills its buffer from the end, a digit at a time, and stops where the value
is used up or the buffer is.  A 64-bit value has twenty digits at the most, and so it is
always the value that ends the loop.  `uart_puthex` writes all sixteen nibbles, whatever
they are.
-/
import SystemN.Kernel
import SystemN.Lib.Numeral

namespace SystemN.Kernel

open Numeral (read write read_digits head_digits fixedDigits read_fixedDigits)

variable {k : Kernel} {x : Nat}

/-! ### What is sent -/

/-- The characters `cs` have been sent. -/
def emit (k : Kernel) (cs : List UInt8) : Kernel := { k with uartOut := cs.reverse ++ k.uartOut }

theorem emit_cons (k : Kernel) (c : UInt8) (cs : List UInt8) :
    k.emit (c :: cs) = (k.uartPutc c).emit cs := by
  simp [emit, uartPutc]

theorem foldl_uartPutc (cs : List UInt8) (k : Kernel) : cs.foldl uartPutc k = k.emit cs := by
  induction cs generalizing k with
  | nil => rfl
  | cons c cs ih => rw [List.foldl_cons, ih, emit_cons]

theorem emit_append (k : Kernel) (cs ds : List UInt8) : (k.emit cs).emit ds = k.emit (cs ++ ds) := by
  rw [← foldl_uartPutc, ← foldl_uartPutc, ← foldl_uartPutc, List.foldl_append]

theorem uartPutsArray_eq {cs : List UInt8} (h : 0 ∉ cs) (rest : List UInt8) (k : Kernel) :
    k.uartPutsArray (cs ++ 0 :: rest) = some (k.emit cs) := by
  induction cs generalizing k with
  | nil => rfl
  | cons c cs ih =>
      rw [List.mem_cons, not_or] at h
      rw [List.cons_append, uartPutsArray, if_neg (Ne.symm h.1), ih h.2, emit_cons]

/-! ### Decimal -/

/-- The digit `d`, as `uart_putlong` stores it. -/
def decDigit (d : Nat) : UInt8 := UInt8.ofNat (48 + d)

/-- What a decimal digit stands for. -/
def decValue (c : UInt8) : Option Nat := if 48 ≤ c ∧ c ≤ 57 then some (c.toNat - 48) else none

theorem decValue_decDigit : ∀ d < 10, decValue (decDigit d) = some d := by decide

/-- `cs` is the decimal numeral of `x`, with no zero in front. -/
structure Decimal (cs : List UInt8) (x : Nat) : Prop where
  reads : read decValue 10 cs = some x
  nonempty : cs ≠ []
  head : cs.head? = some 48 → cs = [48]

/-- What `uart_putlong` sends. -/
def decimal (x : Nat) : List UInt8 := if x = 0 then [48] else write decDigit (Nat.digits 10 x)

theorem decimal_of_ne (hx : x ≠ 0) : decimal x = write decDigit (Nat.digits 10 x) := if_neg hx

theorem decimal_reads (x : Nat) : Decimal (decimal x) x := by
  by_cases hx : x = 0
  · rw [hx]
    exact ⟨rfl, List.cons_ne_nil _ _, fun _ => rfl⟩
  · obtain ⟨c, hc, hc0⟩ := head_digits (by norm_num) decValue_decDigit hx
    rw [decimal_of_ne hx]
    refine ⟨read_digits (by norm_num) decValue_decDigit x, ?_, ?_⟩
    · intro hnil
      rw [hnil] at hc
      cases hc
    · intro hhead
      rw [hc] at hhead
      obtain rfl := Option.some.inj hhead
      exact absurd rfl hc0

/-- `Calls.uartPutlong` takes its characters from `Nat.toDigits`; they are these. -/
theorem decimal_eq_toDigits (x : Nat) :
    decimal x = (Nat.toDigits 10 x).map fun c => UInt8.ofNat c.toNat := by
  have hchar : ∀ d < 10, decDigit d = UInt8.ofNat (Nat.digitChar d).toNat := by decide
  induction x using Nat.strong_induction_on with
  | _ x ih =>
      by_cases hlt : x < 10
      · rw [Nat.toDigits_of_lt_base hlt, List.map_singleton, ← hchar x hlt]
        by_cases hx : x = 0
        · rw [hx]
          rfl
        · rw [decimal_of_ne hx, Nat.digits_of_lt 10 x hx hlt]
          rfl
      · have hdiv : x / 10 ≠ 0 := by omega
        rw [Nat.toDigits_of_base_le (by norm_num) (Nat.le_of_not_lt hlt), List.map_append,
          List.map_singleton, ← hchar _ (Nat.mod_lt x (by norm_num)), ← ih (x / 10) (by omega),
          decimal_of_ne hdiv, decimal_of_ne (by omega), Nat.digits_def' (by norm_num) (by omega),
          Numeral.write_cons]

theorem zero_notMem_digits (x : Nat) : 0 ∉ write decDigit (Nat.digits 10 x) := by
  intro hmem
  obtain ⟨d, hd, hzero⟩ := List.mem_map.mp hmem
  have hlt : d < 10 := Nat.digits_lt_base (by norm_num) (List.mem_reverse.mp hd)
  have hval := decValue_decDigit d hlt
  rw [hzero] at hval
  cases hval

theorem drop_set {buf : List UInt8} {n : Nat} (hn : n < buf.length) (c : UInt8) :
    (buf.set n c).drop n = c :: buf.drop (n + 1) := by
  rw [List.drop_eq_getElem_cons (by rwa [List.length_set]), List.getElem_set_self,
    List.drop_set_of_lt (Nat.lt_succ_self n)]

/-- The loop ends because the value is used up, and has put its digits before what was there. -/
theorem putlongLoop_eq {n val : Nat} {buf : List UInt8} (hval : val < 10 ^ n) (hn : n ≤ buf.length) :
    ∃ i buf', putlongLoop n val buf = some (i, buf') ∧
      buf'.drop i = write decDigit (Nat.digits 10 val) ++ buf.drop n := by
  induction n generalizing val buf with
  | zero =>
      obtain rfl : val = 0 := by simpa using hval
      exact ⟨0, buf, rfl, rfl⟩
  | succ n ih =>
      rcases Nat.eq_zero_or_pos val with rfl | hpos
      · exact ⟨n + 1, buf, rfl, rfl⟩
      · have hstore : storeChar buf n (decDigit (val % 10)) = some (buf.set n (decDigit (val % 10))) :=
          if_pos hn
        have hlt : val / 10 < 10 ^ n := by
          rw [Nat.div_lt_iff_lt_mul (by norm_num), ← Nat.pow_succ]
          exact hval
        have hlen : n ≤ (buf.set n (decDigit (val % 10))).length := by
          rw [List.length_set]
          omega
        obtain ⟨i, buf', hloop, hdrop⟩ := ih hlt hlen
        refine ⟨i, buf', ?_, ?_⟩
        · rw [putlongLoop, if_pos hpos]
          exact (congrArg (· >>= _) hstore).trans hloop
        · rw [hdrop, drop_set hn, Nat.digits_def' (by norm_num) hpos, Numeral.write_cons,
            List.append_assoc]
          rfl

/-- `uart_putlong` stays inside its buffer, and sends the numeral. -/
theorem uartPutlong_eq (hx : x < 2 ^ 64) (buf : Vector UInt8 21) (k : Kernel) :
    k.uartPutlong buf x = some (k.emit (decimal x)) := by
  have hlen : buf.toList.length = 21 := by simp
  have hstore : storeChar buf.toList 20 0 = some (buf.toList.set 20 0) := if_pos (by omega)
  rw [uartPutlong, hstore]
  by_cases hzero : x = 0
  · rw [hzero]
    rfl
  · have hlt : x < 10 ^ 20 := lt_trans hx (by norm_num)
    have hset : 20 ≤ (buf.toList.set 20 0).length := by
      rw [List.length_set]
      omega
    obtain ⟨i, buf', hloop, hdrop⟩ := putlongLoop_eq hlt hset
    simp only [Option.bind_eq_bind, Option.bind_some, if_neg hzero, hloop]
    rw [hdrop, drop_set (by omega), uartPutsArray_eq (zero_notMem_digits x), decimal_of_ne hzero]

/-! ### Hexadecimal -/

/-- What a hexadecimal digit stands for; the letters are lower case. -/
def hexValue (c : UInt8) : Option Nat :=
  if 48 ≤ c ∧ c ≤ 57 then some (c.toNat - 48)
  else if 97 ≤ c ∧ c ≤ 102 then some (c.toNat - 97 + 10)
  else none

theorem hexValue_hexDigit : ∀ d < 16, hexValue (hexDigit d) = some d := by decide

theorem nibble_eq (x i : Nat) : x >>> (i * 4) &&& 0xf = x / 16 ^ i % 16 := by
  have hmask := Nat.and_two_pow_sub_one_eq_mod (x >>> (i * 4)) 4
  rw [Nat.shiftRight_eq_div_pow, Nat.mul_comm, Nat.pow_mul] at hmask ⊢
  exact hmask

theorem uartPuthex_eq (k : Kernel) (x : Nat) :
    k.uartPuthex x = k.emit ([48, 120] ++ write hexDigit (fixedDigits 16 16 x)) := by
  have hdigits : (List.range 16).reverse.map (fun i => hexDigit (x >>> (i * 4) &&& 0xf)) =
      write hexDigit (fixedDigits 16 16 x) := by
    rw [write, fixedDigits, ← List.map_reverse, List.map_map]
    exact List.map_congr_left fun i _ => congrArg hexDigit (nibble_eq x i)
  have hbytes : "0x".toUTF8.toList = [48, 120] := by decide +kernel
  have hprefix : k.uartPuts "0x" = k.emit [48, 120] := by rw [uartPuts, hbytes, foldl_uartPutc]
  rw [uartPuthex, hprefix, ← emit_append, ← hdigits, ← foldl_uartPutc _ (k.emit _), List.foldl_map]

/-! ### Both -/

/-- **Numbers are printed faithfully**, by `uart_putlong` and by `uart_puthex`, up to the last
64-bit value. -/
theorem numbers_faithful (k : Kernel) (buf : Vector UInt8 21) (x : UInt64) :
    (∃ cs, k.uartPutlong buf x.toNat = some (k.emit cs) ∧ Decimal cs x.toNat) ∧
      ∃ cs, k.uartPuthex x.toNat = k.emit ([48, 120] ++ cs) ∧ cs.length = 16 ∧
        read hexValue 16 cs = some x.toNat := by
  have hx : x.toNat < 2 ^ 64 := x.toNat_lt
  refine ⟨⟨decimal x.toNat, uartPutlong_eq hx buf k, decimal_reads _⟩,
    write hexDigit (fixedDigits 16 16 x.toNat), uartPuthex_eq k _, ?_, ?_⟩
  · rw [Numeral.length_write, fixedDigits, List.length_map, List.length_range]
  · have hmod : x.toNat % 16 ^ 16 = x.toNat := Nat.mod_eq_of_lt (lt_of_lt_of_eq hx (by norm_num))
    rw [read_fixedDigits (by norm_num) hexValue_hexDigit, hmod]

end SystemN.Kernel
