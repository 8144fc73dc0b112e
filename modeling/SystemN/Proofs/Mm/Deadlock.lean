/-
The locks of the allocators and no deadlock.

A call takes its locks in the order of their ranks.  So a hart that spins on a lock holds
only locks of smaller rank, and the hart that holds the lock spun on can itself only spin on
a lock of greater rank.  From hart to hart the ranks rise, and they end at `uart_lock`.

What the argument needs of a run is that the locks a hart will hold when the call of
`spin_lock` or `spin_unlock` in progress is over are those its program counts on.
-/
import SystemN.Proofs.Mm.Calls
import SystemN.Proofs.Spinlock

namespace SystemN.Calls

open Programs Programs.Prog
open Spinlock (Pc Outcome exec track)

variable {ι : Type*} [DecidableEq ι] {s s' : System ι} {h : ι}

/-! ### One hart -/

/-- It belongs to `spin_trylock`, which the allocators do not use. -/
def tries : Pc Lock → Bool
  | .testDepth isTry _ => isTry
  | .readCsr isTry _ => isTry
  | .save isTry _ _ => isTry
  | .clearSie isTry _ => isTry
  | .incDepth isTry _ => isTry
  | .compareExchange _ => true
  | _ => false

/-- The locks held when the call in progress is over. -/
def heldAfter : Option (Pc Lock) → List Lock → List Lock
  | none, held => held
  | some (.checkDepth l), held => held.erase l
  | some (.decDepth l), held => held.erase l
  | some (.atomicClear l), held => held.erase l
  | some pc, held => (wanted pc).toList ++ held

/-- The unfinished calls of a hart, the first of them with the locks `held`. -/
def Accounted (held : List Lock) : List (Code Unit) → Prop
  | [] => held = []
  | p :: rest => (p.Ordered Lock.rank held fun held' _ => held' = []) ∧
      ∀ q ∈ rest, q.Balanced Lock.rank []

/-- A hart with the locks `held`, the call `call` of spinlock code in progress, and the
unfinished calls `calls`. -/
structure HartInv (held : List Lock) (call : Option (Pc Lock)) (calls : List (Code Unit)) :
    Prop where
  /-- The lock taken last ranks highest. -/
  ranks : held.Pairwise fun l l' => l'.rank < l.rank
  spinLock : ∀ pc, call = some pc → tries pc = false
  above : ∀ pc l, call = some pc → wanted pc = some l → ∀ l' ∈ held, l'.rank < l.rank
  busy : call ≠ none → calls ≠ []
  accounted : Accounted (heldAfter call held) calls

variable {held : List Lock} {call : Option (Pc Lock)} {calls : List (Code Unit)} {pc : Pc Lock}
  {c c' : Spinlock.LockCpu} {locks locks' : Lock → Bool} {out : Outcome Lock}

theorem Lock.rank_lt (l : Lock) : l.rank < 3 := by
  cases l with
  | cache i => exact Nat.zero_lt_succ 2
  | buddy => exact Nat.succ_lt_succ (Nat.zero_lt_succ 1)
  | uart => exact Nat.lt_succ_self 2

/-- A hart holds three locks at most. -/
theorem HartInv.length_le (hs : HartInv held call calls) : held.length ≤ 3 := by
  have hlt : (held.map Lock.rank).Pairwise fun a b => b < a := List.pairwise_map.mpr hs.ranks
  have hnodup : (held.map Lock.rank).Nodup := hlt.imp fun hab => (ne_of_lt hab).symm
  have hsub : held.map Lock.rank ⊆ List.range 3 := by
    intro r hr
    obtain ⟨l, -, rfl⟩ := List.mem_map.mp hr
    exact List.mem_range.mpr l.rank_lt
  have hle := (List.subperm_of_subset hnodup hsub).length_le
  rwa [List.length_map, List.length_range] at hle

/-- **A step of spinlock code** is on its way to the same locks. -/
theorem exec_after (hexec : exec pc c locks = (out, c', locks')) (hpanic : out.call ≠ some .panic)
    (htry : tries pc = false) : heldAfter out.call (track pc locks held) = heldAfter (some pc) held := by
  cases pc with
  | testDepth b l =>
      rw [exec] at hexec
      split at hexec
      · obtain ⟨rfl, rfl, rfl⟩ := hexec
        rfl
      · obtain ⟨rfl, rfl, rfl⟩ := hexec
        rfl
  | incDepth b l =>
      obtain ⟨rfl, rfl, rfl⟩ := hexec
      have hb : b = false := htry
      subst hb
      rfl
  | testAndSet l =>
      rw [exec] at hexec
      rw [track]
      split at hexec
      · rename_i hl
        obtain ⟨rfl, rfl, rfl⟩ := hexec
        rw [if_pos hl]
        rfl
      · rename_i hl
        obtain ⟨rfl, rfl, rfl⟩ := hexec
        rw [if_neg hl]
        rfl
  | compareExchange l => cases htry
  | checkDepth l =>
      rw [exec] at hexec
      split at hexec
      · obtain ⟨rfl, rfl, rfl⟩ := hexec
        exact absurd rfl hpanic
      · obtain ⟨rfl, rfl, rfl⟩ := hexec
        rfl
  | testLast =>
      rw [exec] at hexec
      split at hexec
      · obtain ⟨rfl, rfl, rfl⟩ := hexec
        rfl
      · obtain ⟨rfl, rfl, rfl⟩ := hexec
        rfl
  | readCsr b l | save b l v | clearSie b l | decDepth l | atomicClear l | restore | panic =>
      obtain ⟨rfl, rfl, rfl⟩ := hexec
      rfl

/-- It goes on to take the lock it was taking, with the locks it had. -/
theorem exec_wanted (held : List Lock) (hexec : exec pc c locks = (out, c', locks')) (htry : tries pc = false)
    {pc' : Pc Lock} (hnext : out.call = some pc') :
    tries pc' = false ∧
      ∀ l, wanted pc' = some l → wanted pc = some l ∧ track pc locks held = held := by
  cases pc with
  | testDepth b l =>
      rw [exec] at hexec
      split at hexec
      · obtain ⟨rfl, rfl, rfl⟩ := hexec
        obtain ⟨rfl⟩ := hnext
        exact ⟨htry, fun _ hl => ⟨hl, rfl⟩⟩
      · obtain ⟨rfl, rfl, rfl⟩ := hexec
        obtain ⟨rfl⟩ := hnext
        exact ⟨htry, fun _ hl => ⟨hl, rfl⟩⟩
  | readCsr b l | save b l v | clearSie b l =>
      obtain ⟨rfl, rfl, rfl⟩ := hexec
      obtain ⟨rfl⟩ := hnext
      exact ⟨htry, fun _ hl => ⟨hl, rfl⟩⟩
  | incDepth b l =>
      obtain ⟨rfl, rfl, rfl⟩ := hexec
      have hb : b = false := htry
      subst hb
      obtain ⟨rfl⟩ := hnext
      exact ⟨rfl, fun _ hl => ⟨hl, rfl⟩⟩
  | testAndSet l =>
      rw [exec] at hexec
      split at hexec
      · rename_i hl
        obtain ⟨rfl, rfl, rfl⟩ := hexec
        obtain ⟨rfl⟩ := hnext
        exact ⟨rfl, fun _ hl' => ⟨hl', if_pos hl⟩⟩
      · obtain ⟨rfl, rfl, rfl⟩ := hexec
        cases hnext
  | compareExchange l => cases htry
  | checkDepth l =>
      rw [exec] at hexec
      split at hexec
      · obtain ⟨rfl, rfl, rfl⟩ := hexec
        obtain ⟨rfl⟩ := hnext
        exact ⟨rfl, fun l hl => by cases hl⟩
      · obtain ⟨rfl, rfl, rfl⟩ := hexec
        obtain ⟨rfl⟩ := hnext
        exact ⟨rfl, fun l hl => by cases hl⟩
  | testLast =>
      rw [exec] at hexec
      split at hexec
      · obtain ⟨rfl, rfl, rfl⟩ := hexec
        obtain ⟨rfl⟩ := hnext
        exact ⟨rfl, fun l hl => by cases hl⟩
      · obtain ⟨rfl, rfl, rfl⟩ := hexec
        cases hnext
  | decDepth l | atomicClear l | panic =>
      obtain ⟨rfl, rfl, rfl⟩ := hexec
      obtain ⟨rfl⟩ := hnext
      exact ⟨rfl, fun l hl => by cases hl⟩
  | restore =>
      obtain ⟨rfl, rfl, rfl⟩ := hexec
      cases hnext

/-- A lock is taken only where `spin_lock` spins on it. -/
theorem track_cases (locks : Lock → Bool) (held : List Lock) (htry : tries pc = false) :
    (track pc locks held).Sublist held ∨
      ∃ l, pc = .testAndSet l ∧ track pc locks held = l :: held := by
  cases pc with
  | testAndSet l =>
      rw [track]
      split
      · exact Or.inl (List.Sublist.refl held)
      · exact Or.inr ⟨l, rfl, rfl⟩
  | compareExchange l => cases htry
  | atomicClear l => exact Or.inl List.erase_sublist
  | testDepth b l | readCsr b l | save b l v | clearSie b l | incDepth b l | checkDepth l
  | decDepth l | testLast | restore | panic => exact Or.inl (List.Sublist.refl held)

/-- **Step lemma** for a step of spinlock code. -/
theorem HartInv.run (hs : HartInv held (some pc) calls)
    (hexec : exec pc c locks = (out, c', locks')) (hpanic : out.call ≠ some .panic) :
    HartInv (track pc locks held) out.call calls := by
  have htry : tries pc = false := hs.spinLock pc rfl
  refine ⟨?_, ?_, ?_, fun _ => hs.busy (Option.some_ne_none pc), ?_⟩
  · rcases track_cases locks held htry with hsub | ⟨l, rfl, htrack⟩
    · exact hs.ranks.sublist hsub
    · rw [htrack]
      exact List.pairwise_cons.mpr ⟨hs.above _ l rfl rfl, hs.ranks⟩
  · intro pc' hnext
    exact (exec_wanted held hexec htry hnext).1
  · intro pc' l hnext hl
    obtain ⟨hwanted, htrack⟩ := (exec_wanted held hexec htry hnext).2 l hl
    rw [htrack]
    exact hs.above pc l rfl hwanted
  · rw [exec_after hexec hpanic htry]
    exact hs.accounted

variable {p next : Code Unit} {rest : List (Code Unit)} {l : Lock}

theorem accounted_nil : Accounted [] calls ↔ ∀ q ∈ calls, q.Balanced Lock.rank [] := by
  cases calls with
  | nil => exact ⟨fun _ q hq => absurd hq List.not_mem_nil, fun _ => rfl⟩
  | cons p rest => exact Iff.symm (List.forall_mem_cons (p := fun q : Code Unit => q.Balanced Lock.rank []))

/-- Between two calls of spinlock code. -/
theorem hartInv_none (hranks : held.Pairwise fun l l' => l'.rank < l.rank)
    (hcalls : Accounted held calls) : HartInv held none calls :=
  ⟨hranks, nofun, nofun, fun hne => absurd rfl hne, hcalls⟩

theorem HartInv.act {upd : Shared → Shared} {next : Shared → Code Unit}
    (hs : HartInv held none (.act upd next :: rest)) (x : Shared) :
    HartInv held none (next x :: rest) :=
  hartInv_none hs.ranks ⟨hs.accounted.1 x, hs.accounted.2⟩

theorem HartInv.lock (hs : HartInv held none (.lock l next :: rest)) :
    HartInv held (some (Spinlock.spinLock l)) (next :: rest) := by
  obtain ⟨⟨habove, hnext⟩, hrest⟩ := hs.accounted
  refine ⟨hs.ranks, ?_, ?_, fun _ => List.cons_ne_nil next rest, hnext, hrest⟩
  · intro pc hpc
    obtain ⟨rfl⟩ := hpc
    rfl
  · intro pc l' hpc hl'
    obtain ⟨rfl⟩ := hpc
    obtain ⟨rfl⟩ := hl'
    exact habove

theorem HartInv.unlock (hs : HartInv held none (.unlock l next :: rest)) :
    l ∈ held ∧ HartInv held (some (Spinlock.spinUnlock l)) (next :: rest) := by
  obtain ⟨⟨hl, hnext⟩, hrest⟩ := hs.accounted
  refine ⟨hl, hs.ranks, ?_, ?_, fun _ => List.cons_ne_nil next rest, hnext, hrest⟩
  · intro pc hpc
    obtain ⟨rfl⟩ := hpc
    rfl
  · intro pc l' hpc hl'
    obtain ⟨rfl⟩ := hpc
    cases hl'

theorem HartInv.ret (hs : HartInv held none (.ret () :: rest)) : HartInv held none rest := by
  obtain ⟨hheld, hrest⟩ := hs.accounted
  refine hartInv_none hs.ranks ?_
  have hnil : held = [] := hheld
  rw [hnil]
  exact accounted_nil.mpr hrest

/-- A hart that holds no lock may run any calls. -/
theorem HartInv.run_calls (hcalls : ∀ q ∈ calls, q.Balanced Lock.rank []) :
    HartInv [] none calls :=
  hartInv_none List.Pairwise.nil (accounted_nil.mpr hcalls)

/-! ### Any number of harts -/

/-- A lock that is taken is held by a hart, and by one only. -/
structure Inv (s : System ι) : Prop where
  spin : Spinlock.Inv s.spin
  owned : ∀ l, s.spin.locks l = true → ∃ h, l ∈ s.spin.held h
  harts : ∀ h, HartInv (s.spin.held h) (s.spin.call h) (s.calls h)

omit [DecidableEq ι] in
theorem Inv.init (hspin : Spinlock.Initial s.spin) (hcalls : ∀ h, s.calls h = []) : Inv s := by
  refine ⟨Spinlock.Inv.init hspin, ?_, ?_⟩
  · intro l hl
    rw [hspin.locks l] at hl
    cases hl
  · intro h
    rw [hspin.held h, hspin.call h, hcalls h]
    exact HartInv.run_calls (List.forall_mem_nil _)

omit [DecidableEq ι] in
theorem Inv.clean (hs : Inv s) (h : ι) : Spinlock.Clean s.spin h := by
  refine ⟨?_, ?_⟩
  · intro l hl
    have htry := (hs.harts h).spinLock _ hl
    cases htry
  · have hle := (hs.harts h).length_le
    omega

/-- A step of `h` leaves the other harts where they are. -/
theorem Inv.update (hs : Inv s) {call : Option (Pc Lock)} (hnew : HartInv held call calls) (i : ι) :
    HartInv (Function.update s.spin.held h held i) (Function.update s.spin.call h call i)
      (Function.update s.calls h calls i) := by
  by_cases hi : i = h
  · subst hi
    rwa [Function.update_self, Function.update_self, Function.update_self]
  · rw [Function.update_of_ne hi, Function.update_of_ne hi, Function.update_of_ne hi]
    exact hs.harts i

theorem Inv.update_calls (hs : Inv s) {call : Option (Pc Lock)}
    (hnew : HartInv (s.spin.held h) call calls) (i : ι) :
    HartInv (s.spin.held i) (Function.update s.spin.call h call i)
      (Function.update s.calls h calls i) := by
  have hi := hs.update (h := h) hnew i
  rwa [Function.update_eq_self] at hi

/-- What a step of spinlock code does to the owners. -/
theorem Inv.owned_run (hs : Inv s) (hexec : exec pc c s.spin.locks = (out, c', locks')) (l : Lock)
    (hl : locks' l = true) :
    ∃ i, l ∈ Function.update s.spin.held h (track pc s.spin.locks (s.spin.held h)) i := by
  rcases Spinlock.exec_locks (s.spin.held h) hexec with ⟨hlocks, htrack⟩ | ⟨k, -, hlocks, htrack⟩ |
    ⟨k, -, hlocks, htrack⟩
  · rw [htrack, Function.update_eq_self]
    exact hs.owned l (by rwa [hlocks] at hl)
  · rw [htrack]
    by_cases hlk : l = k
    · exact ⟨h, by rw [Function.update_self, hlk]; exact List.mem_cons_self⟩
    · rw [hlocks, Function.update_of_ne hlk] at hl
      obtain ⟨i, hi⟩ := hs.owned l hl
      refine ⟨i, ?_⟩
      by_cases hih : i = h
      · subst hih
        rw [Function.update_self]
        exact List.mem_cons_of_mem k hi
      · rwa [Function.update_of_ne hih]
  · rw [htrack]
    by_cases hlk : l = k
    · rw [hlocks, hlk, Function.update_self] at hl
      cases hl
    · rw [hlocks, Function.update_of_ne hlk] at hl
      obtain ⟨i, hi⟩ := hs.owned l hl
      refine ⟨i, ?_⟩
      by_cases hih : i = h
      · subst hih
        rw [Function.update_self]
        exact (List.mem_erase_of_ne hlk).mpr hi
      · rwa [Function.update_of_ne hih]

/-- **Step lemma**. -/
theorem Inv.step (hs : Inv s) (hstep : Step s h s') : Inv s' := by
  have hself := hs.harts h
  cases hstep with
  | act upd next rest hc hcall =>
      rw [hc, hcall] at hself
      have hharts := hs.update_calls (h := h) (hself.act s.shared)
      rw [← hcall, Function.update_eq_self] at hharts
      exact ⟨hs.spin, hs.owned, hharts⟩
  | lock l next rest hc hcall =>
      rw [hc, hcall] at hself
      exact ⟨hs.spin.step (hs.clean h) (.lock l hcall), hs.owned, hs.update_calls hself.lock⟩
  | unlock l next rest hc hcall =>
      rw [hc, hcall] at hself
      obtain ⟨hl, hnext⟩ := hself.unlock
      exact ⟨hs.spin.step (hs.clean h) (.unlock l hcall hl), hs.owned, hs.update_calls hnext⟩
  | spin pc out c locks hcall hexec =>
      have hspin := hs.spin.step (hs.clean h) (.run pc out c locks hcall hexec)
      have hpanic : out.call ≠ some .panic := by
        intro hpanic
        have hhart := hspin.hart h
        dsimp only at hhart
        rw [Function.update_self, Function.update_self, hpanic] at hhart
        exact hhart
      rw [hcall] at hself
      have hharts := hs.update (h := h) (hself.run hexec hpanic)
      rw [Function.update_eq_self] at hharts
      exact ⟨hspin, hs.owned_run hexec, hharts⟩
  | loop rest hc hcall => exact hs
  | ret rest hc hcall =>
      rw [hc, hcall] at hself
      have hharts := hs.update_calls (h := h) hself.ret
      rw [← hcall, Function.update_eq_self] at hharts
      exact ⟨hs.spin, hs.owned, hharts⟩

theorem Inv.event (hs : Inv s) (hevent : Event s h s') : Inv s' := by
  have hself := hs.harts h
  have hcalls : s.Free h → ∀ q ∈ s.calls h, q.Balanced Lock.rank [] := by
    intro hfree
    have haccounted := hself.accounted
    rw [hfree.call, hfree.held] at haccounted
    exact accounted_nil.mp haccounted
  have hnew : ∀ calls, s.Free h → (∀ q ∈ calls, q.Balanced Lock.rank []) →
      Inv { s with calls := Function.update s.calls h calls } := by
    intro calls hfree hbalanced
    have hrun : HartInv (s.spin.held h) none calls := by
      rw [hfree.held]
      exact HartInv.run_calls hbalanced
    have hharts := hs.update_calls hrun
    rw [← hfree.call, Function.update_eq_self] at hharts
    exact ⟨hs.spin, hs.owned, hharts⟩
  cases hevent with
  | enter call hfree =>
      exact hnew _ hfree (List.forall_mem_cons.mpr ⟨call.balanced, hcalls hfree⟩)
  | switch calls hperm hfree =>
      exact hnew calls hfree fun q hq => hcalls hfree q (hperm.subset hq)
  | other v hfree =>
      exact ⟨hs.spin.step (hs.clean h) (.other v hfree.call hfree.held), hs.owned, hs.harts⟩

/-- **Run lemma**. -/
theorem Run.inv (hrun : Run s) : Inv s := by
  induction hrun with
  | init hspin hcalls => exact Inv.init hspin hcalls
  | step _ hstep ih => exact ih.step hstep
  | event _ hevent ih => exact ih.event hevent

/-! ### Progress -/

/-- A hart with an unfinished call has a step, unless it has entered a halt loop. -/
theorem exists_step (hcalls : s.calls h ≠ [])
    (hhalt : ∀ p ∈ s.calls h, p ≠ .stop .halt) : ∃ s', Step s h s' := by
  cases hcall : s.spin.call h with
  | some pc => exact ⟨_, .spin pc _ _ _ hcall rfl⟩
  | none =>
      cases hc : s.calls h with
      | nil => exact absurd hc hcalls
      | cons p rest =>
          cases p with
          | ret a => exact ⟨_, .ret rest hc hcall⟩
          | act upd next => exact ⟨_, .act upd next rest hc hcall⟩
          | lock l next => exact ⟨_, .lock l next rest hc hcall⟩
          | unlock l next => exact ⟨_, .unlock l next rest hc hcall⟩
          | stop e =>
              cases e with
              | halt => exact absurd rfl (hhalt _ (hc ▸ List.mem_cons_self))
              | diverge => exact ⟨_, .loop rest hc hcall⟩

omit [DecidableEq ι] in
/-- A hart that holds a lock has an unfinished call. -/
theorem Inv.calls_ne_nil (hs : Inv s) (hl : l ∈ s.spin.held h) : s.calls h ≠ [] := by
  intro hnil
  have hcall : s.spin.call h = none := by
    by_contra hbusy
    exact (hs.harts h).busy hbusy hnil
  have haccounted := (hs.harts h).accounted
  rw [hcall, hnil] at haccounted
  have hheld : s.spin.held h = [] := haccounted
  rw [hheld] at hl
  cases hl

omit [DecidableEq ι] in
theorem Inv.not_mem_of_waits (hs : Inv s) (hwaits : s.Waits h l) : l ∉ s.spin.held h := by
  obtain ⟨pc, hcall, hwanted⟩ := hwaits
  intro hl
  exact absurd ((hs.harts h).above pc l hcall hwanted l hl) (Nat.lt_irrefl _)

/-- Along the harts that spin the ranks rise. -/
theorem Inv.progress (hs : Inv s) (hhalt : ∀ h, ∀ p ∈ s.calls h, p ≠ .stop .halt) :
    ∀ n h, s.calls h ≠ [] → (∀ l, s.Spins h l → 3 - l.rank ≤ n) →
      ∃ h', s.calls h' ≠ [] ∧ (∃ s', Step s h' s') ∧ ∀ l, ¬s.Spins h' l := by
  intro n
  induction n with
  | zero =>
      intro h hcalls hrank
      refine ⟨h, hcalls, exists_step hcalls (hhalt h), ?_⟩
      intro l hspins
      have hle := hrank l hspins
      have hlt := l.rank_lt
      omega
  | succ n ih =>
      intro h hcalls hrank
      by_cases hspins : ∃ l, s.Spins h l
      · obtain ⟨l, hl⟩ := hspins
        obtain ⟨h', howner⟩ := hs.owned l hl.2
        apply ih h' (hs.calls_ne_nil howner)
        intro l' hl'
        have hlt : l.rank < l'.rank := (hs.harts h').above _ l' hl'.1 rfl l howner
        have hle := hrank l hl
        omega
      · exact ⟨h, hcalls, exists_step hcalls (hhalt h), not_exists.mp hspins⟩

/-- **No deadlock**: in a run of any calls on any harts, no hart waits for a lock it holds, and
as long as none has entered a halt loop and a call is unfinished, a hart with an unfinished
call can go on and does not spin on a lock that is taken. -/
theorem Run.no_deadlock (hrun : Run s) :
    (∀ h l, s.Waits h l → l ∉ s.spin.held h) ∧
      ((∀ h, ∀ p ∈ s.calls h, p ≠ .stop .halt) → (∃ h, s.calls h ≠ []) →
        ∃ h, s.calls h ≠ [] ∧ (∃ s', Step s h s') ∧ ∀ l, ¬s.Spins h l) := by
  refine ⟨fun h l => hrun.inv.not_mem_of_waits, ?_⟩
  intro hhalt ⟨h, hcalls⟩
  apply hrun.inv.progress hhalt 3 h hcalls
  intro l _
  exact Nat.sub_le 3 l.rank

/-- Two harts with interrupts on, before the first call. -/
def twoHarts : System Bool where
  spin := ⟨fun _ => ⟨0, 0#64, RiscV.sie⟩, fun _ => false, fun _ => none, fun _ => [], fun _ => true⟩
  calls _ := []
  shared := ⟨Snub.snubInit (Mm.reset fun _ => 0), []⟩

/-- Both have called `kmalloc(8)`. -/
def bothCalled : System Bool :=
  let s := { twoHarts with
    calls := Function.update twoHarts.calls false ((Call.kmalloc 8).code :: twoHarts.calls false) }
  { s with calls := Function.update s.calls true ((Call.kmalloc 8).code :: s.calls true) }

theorem run_bothCalled : Run bothCalled := by
  have hinit : Run twoHarts :=
    Run.init ⟨fun _ => rfl, fun _ => rfl, fun _ => rfl, fun _ => rfl,
      fun _ => (by decide : true = Spinlock.enabled RiscV.sie)⟩ fun _ => rfl
  exact (hinit.event (.enter (.kmalloc 8) ⟨rfl, rfl⟩)).event (.enter (.kmalloc 8) ⟨rfl, rfl⟩)

/-- One of the two can go on. -/
theorem no_deadlock_bothCalled :
    ∃ h, bothCalled.calls h ≠ [] ∧ (∃ s', Step bothCalled h s') ∧ ∀ l, ¬bothCalled.Spins h l := by
  apply (Run.no_deadlock run_bothCalled).2
  · intro h p hp
    have hcode : p = (Call.kmalloc 8).code := by
      cases h with
      | false => exact List.mem_singleton.mp hp
      | true => exact List.mem_singleton.mp hp
    rw [hcode]
    nofun
  · exact ⟨true, List.cons_ne_nil _ _⟩

end SystemN.Calls
