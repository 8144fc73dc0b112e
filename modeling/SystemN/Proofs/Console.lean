/-
What goes through the UART.

All processes share one UART, and nothing stops a process from being preempted.  But a system call is
not: what it sends it sends in one piece, and the characters it takes are those that wait first.  So
over any run the output is that of the calls, one after the other, and the characters that were typed
are dealt out among the calls of `read` in the order in which they came (`Action.Passes`).
-/
import SystemN.Proofs.World

namespace SystemN

open Kernel

/-- What an action takes from the UART, and what it sends.  `write` sends as many bytes as it answers,
and no NUL; `read` echoes what it takes, and answers how much that is, or loses it. -/
def Action.Passes : Action → List UInt8 → List UInt8 → Prop
  | .store .., taken, out => taken = [] ∧ out = []
  | .call regs v, taken, out =>
      if regs 17 % 2 ^ 32 = SYS_write then
        taken = [] ∧ (v = minusOne ∧ out = [] ∨ v = out.length ∧ 0 ∉ out)
      else if regs 17 % 2 ^ 32 = SYS_read then
        out = taken.map crToLf ∧ (v = minusOne ∨ v = taken.length)
      else taken = [] ∧ out = []

/-- What each of the actions `es` takes and sends. -/
def PassesAll (es : List (Nat × Action)) (cs : List (List UInt8 × List UInt8)) : Prop :=
  List.Forall₂ (fun e c => e.2.Passes c.1 c.2) es cs

section Calls

variable {v : Nat} {s s' : UserState} {P : Proc} {regs : Nat → Nat}

/-- A call that does nothing with the UART. -/
theorem passes_nothing (hwrite : regs 17 % 2 ^ 32 ≠ SYS_write) (hread : regs 17 % 2 ^ 32 ≠ SYS_read)
    (htyped : s'.typed = s.typed) (hsent : s'.sent = s.sent) :
    ∃ taken out, (Action.call regs v).Passes taken out ∧ s.typed = taken ++ s'.typed ∧
      s'.sent = out.reverse ++ s.sent := by
  refine ⟨[], [], ?_, by simp [htyped], by simp [hsent]⟩
  rw [Action.Passes, if_neg hwrite, if_neg hread]
  exact ⟨rfl, rfl⟩

/-- **One call.** -/
theorem CallSpec.passes (h : CallSpec v s s' P regs) :
    ∃ taken out, (Action.call regs v).Passes taken out ∧ s.typed = taken ++ s'.typed ∧
      s'.sent = out.reverse ++ s.sent := by
  by_cases hwrite : regs 17 % 2 ^ 32 = SYS_write
  · rw [CallSpec, hwrite] at h
    have hspec : WriteSpec v s s' (regs 10 % 2 ^ 32) (regs 11) (regs 12 % 2 ^ 32) := h
    unfold WriteSpec at hspec
    split at hspec
    · obtain ⟨rfl, rfl⟩ := hspec
      refine ⟨[], [], ?_, by simp, by simp⟩
      rw [Action.Passes, if_pos hwrite]
      exact ⟨rfl, Or.inl ⟨rfl, rfl⟩⟩
    · obtain ⟨bytes, -, -, hv, rfl⟩ := hspec
      refine ⟨[], bytes.takeWhile (· ≠ 0), ?_, rfl, rfl⟩
      rw [Action.Passes, if_pos hwrite]
      refine ⟨rfl, Or.inr ⟨hv, fun hzero => ?_⟩⟩
      have hne := List.mem_takeWhile_imp hzero
      simp at hne
  by_cases hread : regs 17 % 2 ^ 32 = SYS_read
  · rw [CallSpec, hread] at h
    have hspec : ReadSpec v s s' (regs 10 % 2 ^ 32) (regs 11) (regs 12 % 2 ^ 32) := h
    unfold ReadSpec at hspec
    split at hspec
    · obtain ⟨rfl, rfl⟩ := hspec
      refine ⟨[], [], ?_, by simp, by simp⟩
      rw [Action.Passes, if_neg hwrite, if_pos hread]
      exact ⟨rfl, Or.inl rfl⟩
    · obtain ⟨hlen, hv, rfl⟩ := hspec
      rw [List.length_map] at hlen
      refine ⟨_, _, ?_, (List.take_append_drop _ _).symm, rfl⟩
      rw [Action.Passes, if_neg hwrite, if_pos hread, hlen]
      refine ⟨rfl, ?_⟩
      split at hv
      · exact Or.inr hv
      · exact Or.inl hv
  unfold CallSpec at h
  split at h
  · next hnum => exact absurd hnum hwrite
  · next hnum => exact absurd hnum hread
  · rcases h with ⟨-, rfl⟩ | ⟨-, mid, -, -, rfl⟩
    · exact passes_nothing hwrite hread rfl rfl
    · exact passes_nothing hwrite hread rfl rfl
  · obtain ⟨mid, -, rfl, -⟩ := h
    exact passes_nothing hwrite hread rfl rfl
  all_goals
    obtain ⟨-, rfl⟩ := h
    exact passes_nothing hwrite hread rfl rfl

end Calls

namespace World

variable {w w' : World} {p : Nat} {a : Action} {es : List (Nat × Action)}

/-- **Step lemma.** -/
theorem Step.passes (h : w.Step p a w') : ∃ taken out, a.Passes taken out ∧
    w.typed = taken ++ w'.typed ∧ w'.sent = out.reverse ++ w.sent := by
  have hdoes := h.does
  cases a with
  | store va c =>
      have hseen : w'.seen p = { w.seen p with memory := (w.seen p).memory.write va [c] } := hdoes.2
      have htyped : w'.typed = w.typed := congrArg UserState.typed hseen
      have hsent : w'.sent = w.sent := congrArg UserState.sent hseen
      exact ⟨[], [], ⟨rfl, rfl⟩, by simp [htyped], by simp [hsent]⟩
  | call regs v => exact CallSpec.passes hdoes

/-- **Run lemma**: what the actions take and send, put together in their order. -/
theorem Run.passes (h : w.Run es w') : ∃ cs, PassesAll es cs ∧
    w.typed = (cs.map Prod.fst).flatten ++ w'.typed ∧
      w'.sent = (cs.map Prod.snd).flatten.reverse ++ w.sent := by
  induction h with
  | refl => exact ⟨[], .nil, by simp, by simp⟩
  | step h hstep ih =>
      obtain ⟨cs, hall, htyped, hsent⟩ := ih
      obtain ⟨taken, out, hpasses, htyped', hsent'⟩ := hstep.passes
      refine ⟨cs ++ [(taken, out)], List.rel_append hall (.cons hpasses .nil), ?_, ?_⟩
      · rw [htyped, htyped']
        simp
      · rw [hsent', hsent]
        simp

end World

namespace Kernel

variable {L : Layout} {m : Nat → UInt8} {k k' : Kernel} {stack : Nat} {ps : List Nat}
  {es : List (Nat × Action)}

end Kernel

end SystemN
