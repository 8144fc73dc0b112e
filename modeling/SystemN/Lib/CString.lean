/-
C strings.

An array is the list of its bytes, and a pointer into it is what there is of the array from
there on; a function that reads past the end answers `none`.  A string is what comes before
the first NUL, and is told without it.

`strtok` splits a string at its delimiters.  Called again and again, it gives the components of
the string, which are what `List.splitOn` makes of it, less the empty ones.
-/
import Mathlib.Data.UInt
import Mathlib.Data.List.Infix

namespace SystemN.CString

variable {d : UInt8} {cs s t a : List UInt8} {src : Nat → UInt8} {n : Nat}

/-! ### Strings in memory -/

/-- The string in memory at `src` is `cs`. -/
def IsString : (Nat → UInt8) → List UInt8 → Prop
  | src, [] => src 0 = 0
  | src, c :: cs => src 0 = c ∧ c ≠ 0 ∧ IsString (fun i => src (i + 1)) cs

instance decidableIsString : (src : Nat → UInt8) → (cs : List UInt8) → Decidable (IsString src cs)
  | src, [] => inferInstanceAs (Decidable (src 0 = 0))
  | src, c :: cs =>
      have := decidableIsString (fun i => src (i + 1)) cs
      inferInstanceAs (Decidable (src 0 = c ∧ c ≠ 0 ∧ IsString (fun i => src (i + 1)) cs))

theorem IsString.noNul (h : IsString src cs) : 0 ∉ cs := by
  induction cs generalizing src with
  | nil => exact List.not_mem_nil
  | cons c cs ih =>
      obtain ⟨-, hc, hrest⟩ := h
      rw [List.mem_cons, not_or]
      exact ⟨hc.symm, ih hrest⟩

theorem IsString.head {c : UInt8} (h : IsString src cs) (hhead : cs.head? = some c) : src 0 = c := by
  cases cs with
  | nil => cases hhead
  | cons c' cs => exact h.1.trans (Option.some.inj hhead)

/-! ### `strncpy` -/

/-- `strncpy`: the `n` bytes it stores, which are zeros from the first NUL on. -/
def strncpy (src : Nat → UInt8) : Nat → List UInt8
  | 0 => []
  | n + 1 =>
      if src 0 = 0 then List.replicate (n + 1) 0
      else src 0 :: strncpy (fun i => src (i + 1)) n

theorem length_strncpy : (strncpy src n).length = n := by
  induction n generalizing src with
  | zero => rfl
  | succ n ih =>
      rw [strncpy]
      split
      · exact List.length_replicate
      · rw [List.length_cons, ih]

theorem strncpy_eq (h : IsString src cs) :
    strncpy src n = cs.take n ++ List.replicate (n - cs.length) 0 := by
  induction n generalizing src cs with
  | zero => rw [strncpy, List.take_zero, Nat.zero_sub]; rfl
  | succ n ih =>
      rw [strncpy]
      cases cs with
      | nil =>
          rw [if_pos (show src 0 = 0 from h)]
          rfl
      | cons c cs =>
          obtain ⟨rfl, hc, hrest⟩ := h
          rw [if_neg hc, ih hrest, List.length_cons, Nat.succ_sub_succ]
          rfl

/-- A string that is short enough is there with its NUL. -/
theorem strncpy_of_lt (h : IsString src cs) (hlt : cs.length < n) :
    ∃ tail, strncpy src n = cs ++ 0 :: tail := by
  refine ⟨List.replicate (n - cs.length - 1) 0, ?_⟩
  rw [strncpy_eq h, List.take_of_length_le hlt.le, ← List.replicate_succ,
    Nat.sub_add_cancel (Nat.sub_pos_of_lt hlt)]

/-! ### `strcmp` -/

/-- `strcmp` of an array and a string: the difference of the first bytes that differ. -/
def strcmp : List UInt8 → List UInt8 → Option Int
  | [], _ => none
  | c :: _, [] => some c.toNat
  | c :: a, d :: s => if c = d then strcmp a s else some (c.toNat - d.toNat)

/-- It reads past the end if no byte of the array is different. -/
theorem strcmp_eq_none : strcmp a s = none ↔ a <+: s := by
  induction a generalizing s with
  | nil => exact ⟨fun _ => List.nil_prefix, fun _ => rfl⟩
  | cons c a ih =>
      cases s with
      | nil =>
          rw [List.prefix_nil]
          exact ⟨nofun, nofun⟩
      | cons d s =>
          rw [strcmp, List.cons_prefix_cons]
          by_cases hcd : c = d
          · rw [if_pos hcd, ih, and_iff_right hcd]
          · rw [if_neg hcd]
            exact ⟨nofun, fun h => absurd h.1 hcd⟩

/-- The array holds the string. -/
theorem strcmp_eq_zero : strcmp a s = some 0 ↔ s ++ [0] <+: a := by
  induction a generalizing s with
  | nil =>
      rw [List.prefix_nil, List.append_eq_nil_iff]
      exact ⟨nofun, fun h => nomatch h.2⟩
  | cons c a ih =>
      cases s with
      | nil =>
          rw [strcmp, List.nil_append, List.cons_prefix_cons, and_iff_left List.nil_prefix,
            Option.some_inj, Int.natCast_eq_zero, ← UInt8.toNat_inj]
          exact eq_comm
      | cons d s =>
          rw [strcmp, List.cons_append, List.cons_prefix_cons]
          by_cases hcd : c = d
          · rw [if_pos hcd, ih, and_iff_right hcd.symm]
          · rw [if_neg hcd, Option.some_inj]
            refine ⟨fun h => absurd (UInt8.toNat_inj.mp ?_) hcd, fun h => absurd h.1.symm hcd⟩
            omega

/-- The array holds another string. -/
theorem strcmp_differs : (∃ diff, diff ≠ 0 ∧ strcmp a s = some diff) ↔ ¬a <+: s ∧ ¬s ++ [0] <+: a := by
  rw [← strcmp_eq_none, ← strcmp_eq_zero]
  cases strcmp a s with
  | none =>
      refine ⟨?_, fun h => absurd rfl h.1⟩
      rintro ⟨diff, -, heq⟩
      cases heq
  | some diff =>
      simp only [Option.some_inj, reduceCtorEq, not_false_eq_true, true_and]
      refine ⟨?_, fun hne => ⟨diff, hne, rfl⟩⟩
      rintro ⟨diff', hne, rfl⟩
      exact hne

/-- What `strncpy` has stored is a string only if that was short enough. -/
theorem prefix_strncpy (h : IsString src cs) (hs : 0 ∉ s) :
    s ++ [0] <+: strncpy src n ↔ s = cs ∧ cs.length < n := by
  have hcs := h.noNul
  rw [strncpy_eq h]
  constructor
  · intro hprefix
    induction n generalizing src cs s with
    | zero =>
        rw [List.take_zero, Nat.zero_sub] at hprefix
        simp at hprefix
    | succ n ih =>
        cases cs with
        | nil =>
            cases s with
            | nil => exact ⟨rfl, Nat.succ_pos n⟩
            | cons c s =>
                -- all of the array is zero
                have hc := hprefix.subset List.mem_cons_self
                rw [List.take_nil, List.nil_append] at hc
                exact absurd (List.eq_of_mem_replicate hc ▸ List.mem_cons_self) hs
        | cons c cs =>
            rw [List.take_succ_cons, List.length_cons, Nat.succ_sub_succ, List.cons_append] at hprefix
            cases s with
            | nil =>
                obtain ⟨hc, -⟩ := List.cons_prefix_cons.mp hprefix
                exact absurd (hc ▸ List.mem_cons_self) hcs
            | cons c' s =>
                obtain ⟨rfl, hrest⟩ := List.cons_prefix_cons.mp hprefix
                obtain ⟨rfl, hlt⟩ := ih h.2.2 (fun hzero => hs (List.mem_cons_of_mem _ hzero))
                  h.2.2.noNul hrest
                exact ⟨rfl, Nat.succ_lt_succ hlt⟩
  · rintro ⟨rfl, hlt⟩
    obtain ⟨tail, htail⟩ := strncpy_of_lt h hlt
    rw [← strncpy_eq h, htail]
    exact ⟨tail, by rw [List.append_assoc]; rfl⟩

/-! ### `strtok` -/

/-- The token at the start of an array, up to a delimiter or the NUL, and where the next call of
`strtok` goes on. -/
def tokenEnd (d : UInt8) : List UInt8 → Option (List UInt8 × List UInt8)
  | [] => none
  | c :: s =>
      if c = d then some ([], s)
      else if c = 0 then some ([], c :: s)
      else (tokenEnd d s).map fun (token, saved) => (c :: token, saved)

/-- `strtok` with the delimiter `d`, at the pointer it is given or has saved: the token, if there is
one, and the pointer it saves. -/
def strtok (d : UInt8) : List UInt8 → Option (Option (List UInt8) × List UInt8)
  | [] => none
  | c :: s =>
      if c = d then strtok d s
      else if c = 0 then some (none, c :: s)
      else (tokenEnd d (c :: s)).map fun (token, saved) => (some token, saved)

/-- The parts of a string between its delimiters that are not empty. -/
def components (d : UInt8) (cs : List UInt8) : List (List UInt8) := (cs.splitOn d).filter (· ≠ [])

theorem components_delim : components d (d :: cs) = components d cs := by
  unfold components
  rw [List.splitOn_cons_eq_if_modifyHead, if_pos (BEq.refl d)]
  rfl

theorem components_token (ht : t ≠ []) (hd : d ∉ t) :
    components d (t ++ d :: cs) = t :: components d cs := by
  unfold components
  rw [List.splitOn_append_cons_self_of_not_mem hd, List.filter_cons_of_pos (by simpa using ht)]

theorem components_single (ht : t ≠ []) (hd : d ∉ t) : components d t = [t] := by
  unfold components
  rw [List.splitOn_eq_singleton hd, List.filter_cons_of_pos (by simpa using ht)]
  rfl

/-- The token is the string, or ends at the next delimiter. -/
theorem tokenEnd_string (hd0 : d ≠ 0) (hcs : 0 ∉ cs) (tail : List UInt8) :
    (d ∉ cs ∧ tokenEnd d (cs ++ 0 :: tail) = some (cs, 0 :: tail)) ∨
      ∃ t rest, cs = t ++ d :: rest ∧ d ∉ t ∧
        tokenEnd d (cs ++ 0 :: tail) = some (t, rest ++ 0 :: tail) := by
  induction cs with
  | nil =>
      refine Or.inl ⟨List.not_mem_nil, ?_⟩
      rw [List.nil_append, tokenEnd, if_neg hd0.symm, if_pos rfl]
  | cons c cs ih =>
      rw [List.mem_cons, not_or] at hcs
      obtain ⟨hc, hcs⟩ := hcs
      rw [List.cons_append, tokenEnd]
      by_cases hcd : c = d
      · refine Or.inr ⟨[], cs, by rw [hcd]; rfl, List.not_mem_nil, ?_⟩
        rw [if_pos hcd]
      · rw [if_neg hcd, if_neg (Ne.symm hc)]
        rcases ih hcs with ⟨hd, hend⟩ | ⟨t, rest, rfl, hd, hend⟩
        · refine Or.inl ⟨?_, by rw [hend]; rfl⟩
          rw [List.mem_cons, not_or]
          exact ⟨Ne.symm hcd, hd⟩
        · refine Or.inr ⟨c :: t, rest, rfl, ?_, by rw [hend]; rfl⟩
          rw [List.mem_cons, not_or]
          exact ⟨Ne.symm hcd, hd⟩

/-- **`strtok` takes the components one by one.** -/
theorem strtok_string (hd : d ≠ 0) (hcs : 0 ∉ cs) (tail : List UInt8) :
    (components d cs = [] ∧ strtok d (cs ++ 0 :: tail) = some (none, 0 :: tail)) ∨
      ∃ t rest, components d cs = t :: components d rest ∧ 0 ∉ rest ∧ rest.length < cs.length ∧
        strtok d (cs ++ 0 :: tail) = some (some t, rest ++ 0 :: tail) := by
  induction cs with
  | nil =>
      refine Or.inl ⟨rfl, ?_⟩
      rw [List.nil_append, strtok, if_neg (Ne.symm hd), if_pos rfl]
  | cons c cs ih =>
      rw [List.cons_append, strtok]
      by_cases hcd : c = d
      · rw [if_pos hcd, hcd, components_delim]
        rcases ih fun hzero => hcs (List.mem_cons_of_mem _ hzero) with
          hnone | ⟨t, rest, hcomp, hrest, hlt, htok⟩
        · exact Or.inl hnone
        · exact Or.inr ⟨t, rest, hcomp, hrest, Nat.lt_succ_of_lt hlt, htok⟩
      · have hc : c ≠ 0 := fun hzero => hcs (hzero ▸ List.mem_cons_self)
        rw [if_neg hcd, if_neg hc, ← List.cons_append]
        refine Or.inr ?_
        rcases tokenEnd_string hd hcs tail with ⟨hno, hend⟩ | ⟨t, rest, heq, hno, hend⟩
        · refine ⟨c :: cs, [], components_single (List.cons_ne_nil _ _) hno, List.not_mem_nil,
            Nat.succ_pos _, ?_⟩
          rw [hend]
          rfl
        · rw [hend]
          rw [heq] at hcs ⊢
          have ht : t ≠ [] := by
            rintro rfl
            exact hcd (List.cons.inj heq).1
          refine ⟨t, rest, components_token ht hno, fun hzero => hcs ?_, ?_, rfl⟩
          · exact List.mem_append_right _ (List.mem_cons_of_mem _ hzero)
          · rw [List.length_append, List.length_cons]
            omega

theorem tokenEnd_token {saved : List UInt8} (h : tokenEnd d s = some (t, saved)) :
    d ∉ t ∧ 0 ∉ t := by
  induction s generalizing t saved with
  | nil => cases h
  | cons c s ih =>
      rw [tokenEnd] at h
      split at h
      · obtain ⟨rfl, -⟩ := Prod.mk.inj (Option.some.inj h)
        exact ⟨List.not_mem_nil, List.not_mem_nil⟩
      · split at h
        · obtain ⟨rfl, -⟩ := Prod.mk.inj (Option.some.inj h)
          exact ⟨List.not_mem_nil, List.not_mem_nil⟩
        · next hcd hc =>
            obtain ⟨⟨t', saved'⟩, ht', heq⟩ := Option.map_eq_some_iff.mp h
            obtain ⟨rfl, -⟩ := Prod.mk.inj heq
            obtain ⟨hd', hzero'⟩ := ih ht'
            simp only [List.mem_cons, not_or]
            exact ⟨⟨Ne.symm hcd, hd'⟩, Ne.symm hc, hzero'⟩

/-- A token is not empty, and has neither a delimiter nor a NUL in it. -/
theorem strtok_token {saved : List UInt8} (h : strtok d s = some (some t, saved)) :
    t ≠ [] ∧ d ∉ t ∧ 0 ∉ t := by
  induction s with
  | nil => cases h
  | cons c s ih =>
      rw [strtok] at h
      split at h
      · exact ih h
      · split at h
        · cases h
        · next hcd hc =>
            obtain ⟨⟨t', saved'⟩, ht', heq⟩ := Option.map_eq_some_iff.mp h
            obtain ⟨htok, -⟩ := Prod.mk.inj heq
            obtain rfl := Option.some.inj htok
            refine ⟨?_, tokenEnd_token ht'⟩
            rintro rfl
            rw [tokenEnd, if_neg hcd, if_neg hc] at ht'
            obtain ⟨_, _, heq'⟩ := Option.map_eq_some_iff.mp ht'
            cases heq'

end SystemN.CString
