/-
`list.h` on a heap with any number of lists.

An operation on one list is an operation on the sequence it stands for, and no other list
can tell.  The two `list_add`s want a detached node and `list_del` an element; a run that
keeps to that never follows a NULL link, and the heap has lists after it as it had before.
-/
import SystemN.Lib.Sequences
import SystemN.Proofs.List

namespace SystemN

open Rings

variable {α : Type} [DecidableEq α] {nodes nodes' : α → Links α} {L : Sequences α}
  {x new head : α} {xs pre post : List α}

omit [DecidableEq α] in
theorem listInQueue_eq_false : listInQueue nodes x = false ↔ Unlinked nodes x := by
  simp only [listInQueue, Unlinked, Bool.and_eq_false_iff, Option.isSome_eq_false_iff,
    Option.isNone_iff_eq_none]

/-- One call of `list.h`. -/
inductive ListOp (α : Type) where
  | add (new head : α)
  | addTail (new head : α)
  | del (entry : α)
  deriving DecidableEq, Repr

namespace ListOp

/-- The call, in the heap. -/
def exec (nodes : α → Links α) : ListOp α → Except Stop (α → Links α)
  | .add new head => listAdd nodes new head
  | .addTail new head => listAddTail nodes new head
  | .del entry => listDel nodes entry

/-- What it does to the sequences. -/
def apply (L : Sequences α) : ListOp α → Sequences α
  | .add new head =>
      ⟨Function.update L.seq head ((L.seq head).map fun xs => new :: xs), L.detached \ {new}⟩
  | .addTail new head =>
      ⟨Function.update L.seq head ((L.seq head).map fun xs => xs ++ [new]), L.detached \ {new}⟩
  | .del entry => ⟨fun y => (L.seq y).map fun xs => xs.erase entry, L.detached ∪ {entry}⟩

/-- The node that goes in or out. -/
def node : ListOp α → α
  | .add new _ | .addTail new _ => new
  | .del entry => entry

/-- The list of `h`, with the elements `xs`, is the one that the call is about. -/
def Target (L : Sequences α) : ListOp α → α → List α → Prop
  | .add _ head, h, xs | .addTail _ head, h, xs => h = head ∧ L.seq h = some xs
  | .del entry, h, xs => L.seq h = some xs ∧ entry ∈ xs

/-- A detached node is added to a list, or a linked one deleted. -/
def Allowed (L : Sequences α) : ListOp α → Prop
  | .add new head | .addTail new head => new ∈ L.detached ∧ ∃ xs, L.seq head = some xs
  | .del entry => ∃ head xs, L.seq head = some xs ∧ entry ∈ xs

/-- Each call of a run is allowed when its turn comes. -/
def AllowedRun : Sequences α → List (ListOp α) → Prop
  | _, [] => True
  | L, op :: ops => op.Allowed L ∧ AllowedRun (op.apply L) ops

/-- What is asked of a call that has taken `nodes` to `nodes'`. -/
structure Refined (op : ListOp α) (L : Sequences α) (nodes nodes' : α → Links α) : Prop where
  holds : (op.apply L).Holds nodes'
  /-- The other lists are as they were. -/
  others : ∀ h xs, L.seq h = some xs → ¬op.Target L h xs → (op.apply L).seq h = some xs
  /-- Nothing is written outside of the list and the node. -/
  frame : ∀ y, y ≠ op.node → (∀ h xs, op.Target L h xs → y ∉ h :: xs) → nodes' y = nodes y

/-! ### One call -/

/-- A call that puts its node somewhere into its list. -/
theorem Refined.insert {op : ListOp α} (hL : L.Holds nodes) (hxs : L.seq head = some (pre ++ post))
    (hx : x ∈ L.detached) (hring : IsRing nodes' head (pre ++ x :: post))
    (hframe : ∀ y, y ≠ x → y ∉ head :: (pre ++ post) → nodes' y = nodes y) (hnode : op.node = x)
    (htarget : ∀ h ys, op.Target L h ys ↔ h = head ∧ L.seq h = some ys)
    (happly : op.apply L = L.change head (pre ++ x :: post) (L.detached \ {x})) :
    op.Refined L nodes nodes' := by
  refine ⟨?_, ?_, ?_⟩
  · rw [happly]
    exact hL.insert hxs hx hring hframe
  · intro h ys hys hnot
    have hne : h ≠ head := fun heq => hnot ((htarget h ys).mpr ⟨heq, hys⟩)
    rw [happly, Sequences.change_of_ne _ hne, hys]
  · intro y hy hout
    rw [hnode] at hy
    exact hframe y hy (hout head _ ((htarget head _).mpr ⟨rfl, hxs⟩))

theorem add_refined (hL : L.Holds nodes) (hnew : new ∈ L.detached) (hxs : L.seq head = some xs) :
    ∃ nodes', exec nodes (.add new head) = .ok nodes' ∧ Refined (.add new head) L nodes nodes' := by
  obtain ⟨nodes', hexec, hring, hframe⟩ :=
    listAdd_ring new (hL.ring head xs hxs) (hL.outside new hnew head xs hxs)
  have hxs' : L.seq head = some ([] ++ xs) := hxs
  have hring' : IsRing nodes' head ([] ++ new :: xs) := hring
  refine ⟨nodes', hexec, .insert hL hxs' hnew hring' hframe rfl (fun _ _ => Iff.rfl) ?_⟩
  rw [apply, hxs, Option.map_some]
  rfl

theorem addTail_refined (hL : L.Holds nodes) (hnew : new ∈ L.detached)
    (hxs : L.seq head = some xs) :
    ∃ nodes', exec nodes (.addTail new head) = .ok nodes' ∧
      Refined (.addTail new head) L nodes nodes' := by
  obtain ⟨nodes', hexec, hring, hframe⟩ :=
    listAddTail_ring new (hL.ring head xs hxs) (hL.outside new hnew head xs hxs)
  rw [← List.append_nil xs] at hxs hframe
  refine ⟨nodes', hexec, .insert hL hxs hnew hring hframe rfl (fun _ _ => Iff.rfl) ?_⟩
  rw [apply, hxs, Option.map_some, List.append_nil]
  rfl

/-- In the other lists there is nothing to delete. -/
theorem apply_del_of_notMem {h : α} (hxs : L.seq h = some xs) (hx : x ∉ xs) :
    (apply L (.del x)).seq h = some xs := by
  show (L.seq h).map _ = _
  rw [hxs, Option.map_some, List.erase_of_not_mem hx]

theorem apply_del (hL : L.Holds nodes) (hxs : L.seq head = some (pre ++ x :: post)) :
    apply L (.del x) = L.change head (pre ++ post) (L.detached ∪ {x}) := by
  have hmem : x ∈ pre ++ x :: post := List.mem_append_right pre List.mem_cons_self
  refine Sequences.ext (funext fun h => ?_) rfl
  by_cases hne : h = head
  · subst hne
    have hpre : x ∉ pre := fun hx => by
      have hnd := (List.nodup_cons.mp (hL.ring h _ hxs).nodup).2
      exact (List.nodup_append.mp hnd).2.2 x hx x List.mem_cons_self rfl
    show (L.seq h).map _ = _
    rw [Sequences.change_self, hxs, Option.map_some, List.erase_append_right _ hpre,
      List.erase_cons_head]
  · rw [Sequences.change_of_ne _ hne]
    cases hys : L.seq h with
    | none =>
        show (L.seq h).map _ = _
        rw [hys, Option.map_none]
    | some ys =>
        refine apply_del_of_notMem hys fun hx => ?_
        exact hL.apart head _ hxs x (List.mem_cons_of_mem head hmem)
          ⟨h, ys, hne, hys, List.mem_cons_of_mem h hx⟩

theorem del_refined (hL : L.Holds nodes) (hxs : L.seq head = some xs) (hx : x ∈ xs) :
    ∃ nodes', exec nodes (.del x) = .ok nodes' ∧ Refined (.del x) L nodes nodes' := by
  obtain ⟨pre, post, rfl⟩ := List.append_of_mem hx
  obtain ⟨nodes', hexec, hring, hself, hframe⟩ := listDel_ring (hL.ring head _ hxs)
  refine ⟨nodes', hexec, ?_, ?_, ?_⟩
  · rw [apply_del hL hxs]
    exact hL.remove hxs hring (Or.inl (by rw [hself])) hframe
  · intro h ys hys hnot
    exact apply_del_of_notMem hys fun hmem => hnot ⟨hys, hmem⟩
  · intro y _ hout
    exact hframe y (hout head _ ⟨hxs, hx⟩)

theorem exec_refined {op : ListOp α} (hL : L.Holds nodes) (hop : op.Allowed L) :
    ∃ nodes', op.exec nodes = .ok nodes' ∧ op.Refined L nodes nodes' := by
  cases op with
  | add new head =>
      obtain ⟨hnew, xs, hxs⟩ := hop
      exact add_refined hL hnew hxs
  | addTail new head =>
      obtain ⟨hnew, xs, hxs⟩ := hop
      exact addTail_refined hL hnew hxs
  | del entry =>
      obtain ⟨head, xs, hxs, hentry⟩ := hop
      exact del_refined hL hxs hentry

/-! ### A run -/

theorem run_holds (ops : List (ListOp α)) (hL : L.Holds nodes) (hops : AllowedRun L ops) :
    ∃ nodes', ops.foldlM exec nodes = .ok nodes' ∧ (ops.foldl apply L).Holds nodes' := by
  induction ops generalizing L nodes with
  | nil => exact ⟨nodes, rfl, hL⟩
  | cons op ops ih =>
      obtain ⟨hop, hrest⟩ := hops
      obtain ⟨nodes₁, hexec, href⟩ := exec_refined hL hop
      obtain ⟨nodes₂, hrun, hholds⟩ := ih href.holds hrest
      refine ⟨nodes₂, ?_, hholds⟩
      rw [List.foldlM_cons, hexec]
      exact hrun

/-- **The operations of `list.h` are operations on sequences**, in every heap that an allowed run
comes to. -/
theorem lists_refined (ops : List (ListOp α)) (hL : L.Holds nodes) (hops : AllowedRun L ops) :
    ∃ nodes', ops.foldlM exec nodes = .ok nodes' ∧ (ops.foldl apply L).Holds nodes' ∧
      (∀ head xs, (ops.foldl apply L).seq head = some xs →
        (listEmpty nodes' head = true ↔ xs = [])) ∧
      (∀ x ∈ (ops.foldl apply L).detached, listInQueue nodes' x = false) ∧
      ∀ op : ListOp α, op.Allowed (ops.foldl apply L) →
        ∃ nodes'', op.exec nodes' = .ok nodes'' ∧
          op.Refined (ops.foldl apply L) nodes' nodes'' := by
  obtain ⟨nodes', hrun, hholds⟩ := run_holds ops hL hops
  refine ⟨nodes', hrun, hholds, ?_, ?_, ?_⟩
  · intro head xs hxs
    exact listEmpty_ring (hholds.ring head xs hxs)
  · intro x hx
    exact listInQueue_eq_false.mpr (hholds.unlinked x hx)
  · intro op hop
    exact exec_refined hholds hop

/-! ### The queues of a CPU -/

/-- The two queues of a CPU after `LIST_HEAD_INIT`, and the zeroed nodes of the processes. -/
def emptyQueues : Node → Links Node :=
  listHeadInit (listHeadInit (fun _ => ⟨none, none⟩) .runQueue) .sleepQueue

def noProcs : Sequences Node where
  seq
    | .runQueue | .sleepQueue => some []
    | .qNode _ => none
  detached := {y | ∃ p, y = .qNode p}

theorem noProcs_holds : noProcs.Holds emptyQueues := by
  have hlist : ∀ {head xs}, noProcs.seq head = some xs → xs = [] ∧ ∀ p, head ≠ .qNode p := by
    intro head xs hxs
    cases head with
    | runQueue | sleepQueue => exact ⟨(Option.some.inj hxs).symm, fun _ => by simp⟩
    | qNode p => cases hxs
  refine ⟨?_, ?_, ?_, ?_⟩
  · intro head xs hxs
    obtain ⟨rfl, -⟩ := hlist hxs
    cases head with
    | runQueue =>
        apply (listHeadInit_ring (fun _ => ⟨none, none⟩) Node.runQueue).frame
        intro y hy
        obtain rfl := List.mem_singleton.mp hy
        exact listHeadInit_of_ne (by simp)
    | sleepQueue => exact listHeadInit_ring _ _
    | qNode p => cases hxs
  · intro head xs hxs y hy helse
    obtain ⟨rfl, -⟩ := hlist hxs
    obtain ⟨head', ys, hne, hys, hy'⟩ := helse
    obtain ⟨rfl, -⟩ := hlist hys
    exact hne ((List.mem_singleton.mp hy').symm.trans (List.mem_singleton.mp hy))
  · rintro y ⟨p, rfl⟩
    refine Or.inl ?_
    rw [emptyQueues, listHeadInit_of_ne (by simp), listHeadInit_of_ne (by simp)]
  · rintro y ⟨p, rfl⟩ head xs hxs hy
    obtain ⟨rfl, hhead⟩ := hlist hxs
    exact hhead p (List.mem_singleton.mp hy).symm

/-- Two processes are queued, and the one that is behind is taken out. -/
def threeCalls : List (ListOp Node) :=
  [.addTail (.qNode 1) .runQueue, .add (.qNode 2) .runQueue, .del (.qNode 1)]

theorem threeCalls_allowed : AllowedRun noProcs threeCalls := by
  refine ⟨⟨⟨1, rfl⟩, [], rfl⟩, ⟨⟨⟨2, rfl⟩, by simp⟩, [.qNode 1], rfl⟩, ?_, trivial⟩
  exact ⟨.runQueue, [.qNode 2, .qNode 1], rfl, by simp⟩

theorem lists_refined_threeCalls :
    ∃ nodes', threeCalls.foldlM exec emptyQueues = .ok nodes' ∧
      listEmpty nodes' .runQueue = false ∧ listInQueue nodes' (.qNode 1) = false := by
  obtain ⟨nodes', hrun, -, hempty, hinQueue, -⟩ :=
    lists_refined threeCalls noProcs_holds threeCalls_allowed
  have hseq : (threeCalls.foldl apply noProcs).seq .runQueue = some [.qNode 2] := rfl
  refine ⟨nodes', hrun, ?_, hinQueue _ (Or.inr rfl)⟩
  rw [Bool.eq_false_iff, ne_eq, hempty _ _ hseq]
  simp

end ListOp

end SystemN
