/-
Which ranges `is_user_addr` accepts.

The subtraction does not wrap, as `va < USER_END_VA` is tested before it, and `len` is
widened for the comparison; so no kernel address passes.  But the comparison is strict: a
range that ends at `USER_END_VA`, as the last bytes of every stack do, is refused.
-/
import SystemN.Proofs.UserCopy

namespace SystemN.Kernel

variable {k : Kernel} {va len : Nat}

/-- The range `[va, va + len)` is not empty and lies below `USER_END_VA`. -/
def InUserRange (va len : Nat) : Prop := 0 < len ∧ va + len ≤ userEndVa

instance : Decidable (InUserRange va len) := inferInstanceAs (Decidable (_ ∧ _))

theorem isUserAddr_iff : isUserAddr va len = true ↔ 0 < len ∧ va + len < userEndVa := by
  unfold isUserAddr
  simp only [Bool.and_eq_true, bne_iff_ne, decide_eq_true_eq]
  omega

/-- `copy_from_user` does not answer -1. -/
def CopiesFrom (k : Kernel) (va len : Nat) : Prop := ∀ k', k.copyFromUser va len ≠ .ok (none, k')

/-- `copy_to_user` does not answer -1. -/
def CopiesTo (k : Kernel) (va : Nat) (buf : List UInt8) : Prop :=
  ∀ k', k.copyToUser va buf ≠ .ok (false, k')

theorem copiesFrom_iff : k.CopiesFrom va len ↔ isUserAddr va len = true := by
  unfold CopiesFrom copyFromUser
  cases hnum : isUserAddr va len with
  | false => simp
  | true =>
      simp only [Bool.not_true, Bool.false_eq_true, if_false, iff_true]
      intro k' h
      obtain ⟨buf, -, h⟩ := bind_eq_ok.mp h
      cases Except.ok.inj h

theorem copiesTo_iff {buf : List UInt8} : k.CopiesTo va buf ↔ isUserAddr va buf.length = true := by
  unfold CopiesTo copyToUser
  cases hnum : isUserAddr va buf.length with
  | false => simp
  | true =>
      simp only [Bool.not_true, Bool.false_eq_true, if_false, iff_true]
      intro k' h
      obtain ⟨k₁, -, h⟩ := bind_eq_ok.mp h
      cases Except.ok.inj h

/-- What is accepted is in the range. -/
theorem inUserRange_of_isUserAddr (h : isUserAddr va len = true) : InUserRange va len :=
  ⟨(isUserAddr_iff.mp h).1, Nat.le_of_lt (isUserAddr_iff.mp h).2⟩

/-- Both copies accept `(va, len)` if and only if the range is one of user addresses. -/
structure RangeExact (k : Kernel) (va len : Nat) : Prop where
  fromUser : k.CopiesFrom va len ↔ InUserRange va len
  toUser : ∀ buf, buf.length = len → (k.CopiesTo va buf ↔ InUserRange va len)

/-- **The range check is exact**, but for the ranges that end at `USER_END_VA`. -/
theorem rangeExact_iff (k : Kernel) (va len : Nat) :
    k.RangeExact va len ↔ ¬(0 < len ∧ va + len = userEndVa) := by
  have hexact : (isUserAddr va len = true ↔ InUserRange va len) ↔
      ¬(0 < len ∧ va + len = userEndVa) := by
    rw [isUserAddr_iff, InUserRange]
    omega
  constructor
  · intro h
    have hfrom := h.fromUser
    rw [copiesFrom_iff] at hfrom
    exact hexact.mp hfrom
  · intro h
    have hrange := hexact.mpr h
    refine ⟨copiesFrom_iff.trans hrange, ?_⟩
    rintro buf rfl
    exact copiesTo_iff.trans hrange

/-- Neither copy takes the last 16 bytes of the stack. -/
theorem top_of_stack_refused :
    InUserRange (userStackTop - 16) 16 ∧
      textProcs.copyFromUser (userStackTop - 16) 16 = .ok (none, textProcs) ∧
      textProcs.copyToUser (userStackTop - 16) (List.replicate 16 0) = .ok (false, textProcs) ∧
      ¬textProcs.RangeExact (userStackTop - 16) 16 := by
  refine ⟨by decide, rfl, rfl, fun h => ?_⟩
  have hcopies := h.fromUser.mpr (by decide)
  rw [copiesFrom_iff] at hcopies
  exact absurd hcopies (by decide)

end SystemN.Kernel
