/-
The memory that `malloc` gives.

`malloc` asks `sbrk` for as much as it is asked for, and there is no `free`.  What it has given is safe
as long as the process does not itself move the end of its heap down or remove pages.  Under that
condition, which is on the program alone (`Action.Grows`), its blocks stay apart, aligned and mapped
however the processes take turns (`Blocks`).

The argument of `malloc` is unsigned and that of `sys_sbrk` is not.  From 2^63 on, if `malloc` returns
an address, then the heap has not got longer and there is no block at that address.
-/
import SystemN.Proofs.SbrkFail
import SystemN.Proofs.World

namespace SystemN

open Mm Kernel RiscV TrapVec

/-! ### What one call gives -/

section Calls

variable {va lo hi n v f : Nat} {M : UserMemory} {bytes : List UInt8} {s s' : UserState} {P : Proc}
  {regs : Nat → Nat} {size : Word} {u : Machine}

namespace UserMemory

/-- The pages of `M` are still there in `M'`, with their permissions. -/
def Keeps (M M' : UserMemory) : Prop := ∀ va c f, M va = some (c, f) → ∃ c', M' va = some (c', f)

theorem Keeps.refl (M : UserMemory) : Keeps M M := fun _ c _ hat => ⟨c, hat⟩

theorem keeps_write : Keeps M (M.write va bytes) := by
  intro va' c f hat
  unfold write
  rw [hat]
  split
  · exact ⟨_, rfl⟩
  · exact ⟨c, rfl⟩

theorem keeps_extend : Keeps M (M.extend lo hi f) := by
  intro va' c f' hat
  unfold extend
  rw [hat, if_neg fun h => Option.some_ne_none _ h.2.2]
  exact ⟨c, rfl⟩

/-- All of the range has pages. -/
theorem extend_mem (hlo : lo ≤ va) (hhi : va < hi) : ∃ c f', M.extend lo hi f va = some (c, f') := by
  unfold extend
  cases hM : M va with
  | none => exact ⟨0, f, if_pos ⟨hlo, hhi, rfl⟩⟩
  | some e => exact ⟨e.1, e.2, if_neg fun h => Option.some_ne_none _ h.2.2⟩

end UserMemory

open UserMemory

/-- Below 2^63 the end of the heap goes up, by `n` at least. -/
theorem newBrk_grow (hend : P.heapEnd ≤ userHeapEnd) (hn : n < 2 ^ 63) : P.heapEnd + n ≤ newBrk P n := by
  simp only [newBrk, alignUp, u64, pageSize, userHeapEnd, userStackBase, userStackSize, userEndVa] at *
  omega

/-- The action gives nothing back: no `munmap`, and no `sbrk` that the kernel takes as negative. -/
def Action.Grows : Action → Prop
  | .store .. => True
  | .call regs _ => regs 17 % 2 ^ 32 ≠ SYS_munmap ∧ (regs 17 % 2 ^ 32 = SYS_sbrk → regs 10 < 2 ^ 63)

/-- **Without `munmap` and negative `sbrk`** a call takes no page away. -/
theorem CallSpec.keeps (h : CallSpec v s s' P regs) (hP : P.heapEnd = s.heapEnd)
    (hend : s.heapEnd ≤ userHeapEnd) (hgrows : (Action.call regs v).Grows) :
    Keeps s.memory s'.memory ∧ s.heapEnd ≤ s'.heapEnd := by
  obtain ⟨hmunmap, hsbrk⟩ := hgrows
  unfold CallSpec at h
  split at h
  · unfold WriteSpec at h
    split at h
    · rw [h.2]
      exact ⟨Keeps.refl _, le_refl _⟩
    · obtain ⟨bytes, -, -, -, rfl⟩ := h
      exact ⟨Keeps.refl _, le_refl _⟩
  · unfold ReadSpec at h
    split at h
    · rw [h.2]
      exact ⟨Keeps.refl _, le_refl _⟩
    · obtain ⟨-, -, rfl⟩ := h
      refine ⟨?_, le_refl _⟩
      dsimp only
      split
      · exact keeps_write
      · exact Keeps.refl _
  · next hnum =>
    have hup : P.heapEnd + regs 10 ≤ newBrk P (regs 10) := newBrk_grow (by omega) (hsbrk hnum)
    rcases h with ⟨-, rfl⟩ | ⟨-, mid, -, -, rfl⟩
    · have hle : s.heapEnd ≤ newBrk P (regs 10) := by omega
      refine ⟨?_, hle⟩
      dsimp only
      rw [remove_empty hle]
      exact keeps_extend
    · exact ⟨keeps_extend, le_refl _⟩
  · next hnum => exact absurd hnum hmunmap
  all_goals
    rw [h.2]
    exact ⟨Keeps.refl _, le_refl _⟩

/-- The block that `malloc` gives, if the action is one of `malloc` and it gives one. -/
def Action.block : Action → Option (Nat × Nat)
  | .store .. => none
  | .call regs v =>
      if regs 17 % 2 ^ 32 = SYS_sbrk ∧ v ≠ minusOne then some (User.malloc v, regs 10) else none

theorem Action.block_eq_some {a : Action} (h : a.block = some (v, n)) :
    ∃ regs, a = .call regs v ∧ regs 17 % 2 ^ 32 = SYS_sbrk ∧ v ≠ minusOne ∧ n = regs 10 := by
  cases a with
  | store va c => cases h
  | call regs r =>
      by_cases hc : regs 17 % 2 ^ 32 = SYS_sbrk ∧ r ≠ minusOne
      · rw [Action.block, if_pos hc] at h
        obtain ⟨rfl, rfl⟩ := Prod.mk.inj (Option.some.inj h)
        have hr : User.malloc r = r := if_neg hc.2
        rw [hr]
        exact ⟨regs, rfl, hc.1, hc.2, rfl⟩
      · rw [Action.block, if_neg hc] at h
        cases h

end Calls

/-! ### What a run gives -/

/-- The blocks `bs`, from first to last, in the memory `M` between `lo` and `hi`. -/
structure Blocks (M : UserMemory) (lo hi : Nat) (bs : List (Nat × Nat)) : Prop where
  apart : bs.Pairwise fun a b => a.1 + a.2 ≤ b.1
  aligned : ∀ b ∈ bs, b.1 % pageSize = 0
  within : ∀ b ∈ bs, lo ≤ b.1 ∧ b.1 + b.2 ≤ hi
  backed : ∀ b ∈ bs, ∀ va, b.1 ≤ va → va < b.1 + b.2 → ∃ c, M va = some (c, mapFlags heapPerm)

namespace Blocks

open UserMemory

variable {M M' : UserMemory} {lo hi hi' n : Nat} {bs : List (Nat × Nat)}

theorem nil : Blocks M lo hi [] :=
  ⟨.nil, fun _ hb => absurd hb List.not_mem_nil, fun _ hb => absurd hb List.not_mem_nil,
    fun _ hb => absurd hb List.not_mem_nil⟩

theorem mono (h : Blocks M lo hi bs) (hkeeps : Keeps M M') (hle : hi ≤ hi') : Blocks M' lo hi' bs := by
  refine ⟨h.apart, h.aligned, fun b hb => ⟨(h.within b hb).1, (h.within b hb).2.trans hle⟩, ?_⟩
  intro b hb va hlo hhi
  obtain ⟨c, hat⟩ := h.backed b hb va hlo hhi
  exact hkeeps va c _ hat

/-- A block that starts where all others have ended. -/
theorem append (h : Blocks M lo hi bs) (hkeeps : Keeps M M') (hlo : lo ≤ hi) (halign : hi % pageSize = 0)
    (hup : hi + n ≤ hi')
    (hbacked : ∀ va, hi ≤ va → va < hi + n → ∃ c, M' va = some (c, mapFlags heapPerm)) :
    Blocks M' lo hi' (bs ++ [(hi, n)]) := by
  have hold := h.mono hkeeps (Nat.le_of_add_right_le hup)
  have hapart : ∀ b ∈ bs, ∀ c ∈ [(hi, n)], b.1 + b.2 ≤ c.1 := by
    intro b hb c hc
    obtain rfl := List.mem_singleton.mp hc
    exact (h.within b hb).2
  refine ⟨List.pairwise_append.mpr ⟨h.apart, List.pairwise_singleton .., hapart⟩, ?_, ?_, ?_⟩
  all_goals
    intro b hmem
    rcases List.mem_append.mp hmem with hmem | hmem
  · exact hold.aligned b hmem
  · obtain rfl := List.mem_singleton.mp hmem
    exact halign
  · exact hold.within b hmem
  · obtain rfl := List.mem_singleton.mp hmem
    exact ⟨hlo, hup⟩
  · exact hold.backed b hmem
  · obtain rfl := List.mem_singleton.mp hmem
    exact hbacked

end Blocks

namespace World

open UserMemory

variable {w w' : World} {p q v n : Nat} {a : Action} {es : List (Nat × Action)} {bs : List (Nat × Nat)}
  {lo : Nat}

/-- The blocks that `malloc` gives to the process `p`, in order. -/
def blocks (p : Nat) (es : List (Nat × Action)) : List (Nat × Nat) :=
  es.filterMap fun e => if e.1 = p then e.2.block else none

theorem blocks_append (es : List (Nat × Action)) (e : Nat × Action) :
    blocks p (es ++ [e]) = blocks p es ++ (if e.1 = p then e.2.block else none).toList := by
  unfold blocks
  rw [List.filterMap_append]
  congr 1

/-- **Step lemma**: the pages of a process that gives nothing back. -/
theorem Step.keeps (h : w.Step p a w') (hgrows : a.Grows) :
    Keeps (w.procs p).memory (w'.procs p).memory ∧ (w.procs p).heapEnd ≤ (w'.procs p).heapEnd := by
  have hdoes := h.does
  cases a with
  | store va c =>
      have hseen : w'.seen p = { w.seen p with memory := (w.seen p).memory.write va [c] } := hdoes.2
      have hmem : (w'.procs p).memory = (w.procs p).memory.write va [c] := congrArg UserState.memory hseen
      have hend : (w'.procs p).heapEnd = (w.procs p).heapEnd := congrArg UserState.heapEnd hseen
      rw [hmem, hend]
      exact ⟨keeps_write, le_refl _⟩
  | call regs r => exact CallSpec.keeps hdoes rfl (w.procs p).top hgrows

/-- What `malloc` does if it does not fail. -/
theorem Step.malloc (h : w.Step p a w') (hb : a.block = some (v, n)) :
    v = (w.procs p).heapEnd ∧ (w'.procs p).heapEnd = newBrk (w.procs p).record n ∧
      ∀ va, v ≤ va → va < newBrk (w.procs p).record n → ∃ c f, (w'.procs p).memory va = some (c, f) := by
  obtain ⟨regs, rfl, hnum, hv, rfl⟩ := Action.block_eq_some hb
  have hdoes : CallSpec v (w.seen p) (w'.seen p) (w.procs p).record regs := h.does
  unfold CallSpec at hdoes
  rw [hnum] at hdoes
  rcases hdoes with ⟨rfl, hseen⟩ | ⟨rfl, -⟩
  swap
  · exact absurd rfl hv
  refine ⟨rfl, congrArg UserState.heapEnd hseen, fun va hlo hhi => ?_⟩
  have hmem := congrFun (congrArg UserState.memory hseen) va
  have hat : (w'.procs p).memory va = _ := hmem
  rw [hat]
  exact extend_mem hlo hhi

/-- In the heap all pages are readable and writable. -/
theorem heap_perm {P : Process} {va f : Nat} {c : UInt8} (hat : P.memory va = some (c, f))
    (hlo : P.heapStart ≤ va) : f = mapFlags heapPerm := by
  rcases P.laidOut va c f hat with ⟨hlt, -⟩ | ⟨-, hf⟩
  · omega
  · exact hf

/-- **What `malloc` gives is a block of `n` bytes** unless `n` is 2^63 or more. -/
theorem Step.backed_iff (h : w.Step p a w') (hb : a.block = some (v, n)) :
    (∀ va, v ≤ va → va < v + n → ∃ c, (w'.procs p).memory va = some (c, mapFlags heapPerm)) ↔
      n < 2 ^ 63 := by
  obtain ⟨rfl, -, hpages⟩ := h.malloc hb
  constructor
  · intro hall
    by_contra hn
    -- the last byte of the block is far above all memory of the process
    obtain ⟨c, hat⟩ := hall ((w.procs p).heapEnd + n - 1) (by omega) (by omega)
    have hstart := (w'.procs p).le.trans (w'.procs p).top
    rcases (w'.procs p).laidOut _ _ _ hat with ⟨hlt, -⟩ | ⟨hin, -⟩
    all_goals
      simp only [userHeapEnd, userStackBase, userStackTop, userStackSize, userEndVa, pageSize] at *
      omega
  · intro hn va hlo hhi
    have hup := newBrk_grow (P := (w.procs p).record) (w.procs p).top hn
    obtain ⟨c, f, hat⟩ := hpages va hlo (hhi.trans_le hup)
    have hstart : (w'.procs p).heapStart ≤ va := h.heapStart.le.trans ((w.procs p).le.trans hlo)
    rw [heap_perm hat hstart] at hat
    exact ⟨c, hat⟩

/-- **Step lemma**: the blocks stay, and the new one lies above them. -/
theorem Step.blocks (hstep : w.Step p a w') (hgrows : a.Grows) (hlo : lo ≤ (w.procs p).heapEnd)
    (h : Blocks (w.procs p).memory lo (w.procs p).heapEnd bs) :
    Blocks (w'.procs p).memory lo (w'.procs p).heapEnd (bs ++ a.block.toList) := by
  obtain ⟨hkeeps, hend⟩ := hstep.keeps hgrows
  cases hb : a.block with
  | none => simpa using h.mono hkeeps hend
  | some b =>
      obtain ⟨v, n⟩ := b
      obtain ⟨regs, rfl, hnum, -, rfl⟩ := Action.block_eq_some hb
      have hn : regs 10 < 2 ^ 63 := hgrows.2 hnum
      have hbacked := (hstep.backed_iff hb).mpr hn
      obtain ⟨rfl, hnew, -⟩ := hstep.malloc hb
      have hup := newBrk_grow (P := (w.procs p).record) (w.procs p).top hn
      rw [← hnew] at hup
      exact h.append hkeeps hlo (w.procs p).endAligned hup hbacked

/-- **Run lemma.** -/
theorem Run.blocks (h : w.Run es w') (hgrows : ∀ a, (p, a) ∈ es → a.Grows) :
    (w.procs p).heapEnd ≤ (w'.procs p).heapEnd ∧
      Blocks (w'.procs p).memory (w.procs p).heapEnd (w'.procs p).heapEnd (blocks p es) := by
  induction h with
  | refl => exact ⟨le_refl _, .nil⟩
  | @step es w₁ w' q a h hstep ih =>
      obtain ⟨hle, hblocks⟩ := ih fun a ha => hgrows a (List.mem_append_left _ ha)
      rw [blocks_append]
      by_cases hq : q = p
      · subst hq
        have ha : a.Grows := hgrows a (List.mem_append_right _ (List.mem_singleton_self _))
        rw [if_pos rfl]
        exact ⟨hle.trans (hstep.keeps ha).2, hstep.blocks ha hle hblocks⟩
      · rw [if_neg hq, hstep.others p (Ne.symm hq)]
        simpa using And.intro hle hblocks

theorem Run.nil (h : w.Run [] w') : w' = w := by
  generalize hes : ([] : List (Nat × Action)) = es at h
  cases h with
  | refl => rfl
  | step => simp at hes

theorem Run.single (h : w.Run [(p, a)] w') : w.Step p a w' := by
  generalize hes : [(p, a)] = es at h
  cases h with
  | refl => cases hes
  | step h hstep =>
      have happend : [] ++ [(p, a)] = _ := hes
      obtain ⟨hnil, hlast⟩ := List.append_inj' happend rfl
      cases hlast
      rw [← hnil] at h
      rwa [h.nil] at hstep

end World

/-! ### In the system -/

namespace Kernel

variable {L : Layout} {m : Nat → UInt8} {k k' k₁ : Kernel} {p r v n stack : Nat} {ps : List Nat}
  {es : List (Nat × Action)} {a : Action} {size : Word}

end Kernel

end SystemN
