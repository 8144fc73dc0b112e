/-
A component whose calls do their work under one lock.

A call is entered, waits for the lock, runs its body, releases the lock, and may have
something left to do after that.  A hart is a place where one call at a time is made;
there are any number of them, and between two steps of one any others may go on.

The rule is `Run.spec`.  At most one hart is between taking the lock and releasing it.
So the bodies are run one at a time in the order the lock was taken, and a relation
between the shared state and that of a serial run which every step keeps makes every
result the serial one.  What a step may do outside the lock is in that relation.
-/
import Mathlib.Logic.Function.Basic
import Mathlib.Data.List.Infix
import Mathlib.Tactic.Common

namespace SystemN.Locked

variable {ι κ ρ τ σ α : Type*}

/-- Where a hart is: `κ` are the calls, `ρ` their results, `τ` what is left to do. -/
inductive Phase (κ ρ τ : Type*) where
  | idle
  /-- In front of the lock. -/
  | want (c : κ)
  /-- Behind it; the body comes next. -/
  | body (c : κ)
  /-- The body is done, and the lock is still taken. -/
  | unlock (c : κ) (r : ρ)
  /-- The lock has been released. -/
  | after (c : κ) (r : ρ) (x : τ)

/-- Between taking the lock and releasing it. -/
def Phase.Inside : Phase κ ρ τ → Prop
  | .body _ => True
  | .unlock _ _ => True
  | _ => False

/-- What the calls do to the shared state. -/
structure Component (ι κ ρ τ σ : Type*) where
  /-- The result of a call that returns before it gets to the lock. -/
  early : κ → Option ρ
  /-- The hart may make the call, and this is the state it leaves. -/
  enter : ι → κ → σ → σ → Prop
  /-- A body that never ends does not occur here. -/
  body : κ → σ → ρ → σ → Prop
  /-- What is left to do after the release, if anything. -/
  rest : κ → ρ → Option τ
  /-- One step of it. -/
  after : κ → ρ → τ → σ → Option τ × σ
  /-- The result is handed to the hart. -/
  leave : ι → κ → ρ → σ → σ

/-- The harts, the lock and what is shared. -/
structure State (ι κ ρ τ σ : Type*) where
  locked : Bool
  phase : ι → Phase κ ρ τ
  shared : σ
  /-- The calls in the order in which the lock was taken. -/
  calls : List κ
  /-- The number of the call each hart is in. -/
  ticket : ι → Nat
  /-- What the calls have returned, by number. -/
  returned : Nat → Option ρ

/-- No call has been made. -/
def State.start (x : σ) : State ι κ ρ τ σ := ⟨false, fun _ => .idle, x, [], fun _ => 0, fun _ => none⟩

variable [DecidableEq ι]

/-- The hart `h` is in phase `p`. -/
def State.setPhase (s : State ι κ ρ τ σ) (h : ι) (p : Phase κ ρ τ) : State ι κ ρ τ σ :=
  { s with phase := Function.update s.phase h p }

/-- The call of `h` returns `r` and leaves the state `x`. -/
def State.giveBack (s : State ι κ ρ τ σ) (h : ι) (r : ρ) (x : σ) : State ι κ ρ τ σ :=
  { s.setPhase h .idle with
    shared := x
    returned := Function.update s.returned (s.ticket h) (some r) }

/-- A step of the hart `h`. -/
inductive Step (C : Component ι κ ρ τ σ) (s : State ι κ ρ τ σ) (h : ι) :
    State ι κ ρ τ σ → Prop
  | early (c : κ) (r : ρ) (hp : s.phase h = .idle) (hearly : C.early c = some r) : Step C s h s
  | enter (c : κ) (x : σ) (hp : s.phase h = .idle) (henter : C.enter h c s.shared x) :
      Step C s h { s.setPhase h (.want c) with shared := x }
  /-- A test-and-set that finds the lock taken. -/
  | spin (c : κ) (hp : s.phase h = .want c) (hl : s.locked = true) : Step C s h s
  /-- A test-and-set that takes it. -/
  | acquire (c : κ) (hp : s.phase h = .want c) (hl : s.locked = false) :
      Step C s h { s.setPhase h (.body c) with
        locked := true
        calls := s.calls ++ [c]
        ticket := Function.update s.ticket h s.calls.length }
  | body (c : κ) (r : ρ) (x : σ) (hp : s.phase h = .body c) (hbody : C.body c s.shared r x) :
      Step C s h { s.setPhase h (.unlock c r) with shared := x }
  | release (c : κ) (r : ρ) (t : τ) (hp : s.phase h = .unlock c r) (hrest : C.rest c r = some t) :
      Step C s h { s.setPhase h (.after c r t) with locked := false }
  | releaseLast (c : κ) (r : ρ) (hp : s.phase h = .unlock c r) (hrest : C.rest c r = none) :
      Step C s h { s.giveBack h r (C.leave h c r s.shared) with locked := false }
  | after (c : κ) (r : ρ) (t t' : τ) (x : σ) (hp : s.phase h = .after c r t)
      (hafter : C.after c r t s.shared = (some t', x)) :
      Step C s h { s.setPhase h (.after c r t') with shared := x }
  | afterLast (c : κ) (r : ρ) (t : τ) (x : σ) (hp : s.phase h = .after c r t)
      (hafter : C.after c r t s.shared = (none, x)) :
      Step C s h (s.giveBack h r (C.leave h c r x))

/-- The states that the harts can reach. -/
inductive Run (C : Component ι κ ρ τ σ) (x : σ) : State ι κ ρ τ σ → Prop
  | start : Run C x (State.start x)
  | step {s s' : State ι κ ρ τ σ} {h : ι} (hrun : Run C x s) (hstep : Step C s h s') : Run C x s'

/-! ### One call at a time -/

/-- The calls of a list, made one after the other, with their results. -/
inductive Serial (serial : κ → α → ρ → α → Prop) (a₀ : α) : List κ → List ρ → α → Prop
  | nil : Serial serial a₀ [] [] a₀
  | concat {cs : List κ} {rs : List ρ} {a a' : α} {c : κ} {r : ρ} (h : Serial serial a₀ cs rs a)
      (hc : serial c a r a') : Serial serial a₀ (cs ++ [c]) (rs ++ [r]) a'

theorem Serial.length_eq {serial : κ → α → ρ → α → Prop} {a₀ a : α} {cs : List κ} {rs : List ρ}
    (h : Serial serial a₀ cs rs a) : rs.length = cs.length := by
  induction h with
  | nil => rfl
  | concat _ _ ih => simp [ih]

/-- The relation `I`, between the phases, the shared state and the state of a serial run, is kept by
every step; a body is matched by a serial call with its result, and so is, in any state, a call that
returns early. -/
structure Simulates (C : Component ι κ ρ τ σ) (serial : κ → α → ρ → α → Prop)
    (I : (ι → Phase κ ρ τ) → σ → α → Prop) : Prop where
  early : ∀ {c r}, C.early c = some r → ∀ a, serial c a r a
  enter : ∀ {ph x a h c x'}, I ph x a → ph h = .idle → C.enter h c x x' →
    I (Function.update ph h (.want c)) x' a
  acquire : ∀ {ph x a h c}, I ph x a → ph h = .want c → I (Function.update ph h (.body c)) x a
  body : ∀ {ph x a h c r x'}, I ph x a → ph h = .body c → C.body c x r x' →
    ∃ a', serial c a r a' ∧ I (Function.update ph h (.unlock c r)) x' a'
  release : ∀ {ph x a h c r t}, I ph x a → ph h = .unlock c r → C.rest c r = some t →
    I (Function.update ph h (.after c r t)) x a
  releaseLast : ∀ {ph x a h c r}, I ph x a → ph h = .unlock c r → C.rest c r = none →
    I (Function.update ph h .idle) (C.leave h c r x) a
  after : ∀ {ph x a h c r t t' x'}, I ph x a → ph h = .after c r t → C.after c r t x = (some t', x') →
    I (Function.update ph h (.after c r t')) x' a
  afterLast : ∀ {ph x a h c r t x'}, I ph x a → ph h = .after c r t → C.after c r t x = (none, x') →
    I (Function.update ph h .idle) (C.leave h c r x') a

/-! ### The invariant -/

variable {ph : ι → Phase κ ρ τ} {locked : Bool} {tk : ι → Nat} {calls done : List κ}
  {ret : Nat → Option ρ} {rs : List ρ} {h : ι} {p : Phase κ ρ τ} {c : κ} {r : ρ}

/-- One hart is inside at most, and then the lock is taken. -/
structure Exclusive (ph : ι → Phase κ ρ τ) (locked : Bool) : Prop where
  unique : ∀ g h, (ph g).Inside → (ph h).Inside → g = h
  taken : ∀ h, (ph h).Inside → locked = true

/-- The calls whose body is done: all that have taken the lock, but for one that is about to run its
body. -/
def Done (ph : ι → Phase κ ρ τ) (tk : ι → Nat) (calls done : List κ) : Prop :=
  (calls = done ∧ ∀ h c, ph h ≠ .body c) ∨
    ∃ h c, ph h = .body c ∧ tk h = done.length ∧ calls = done ++ [c]

/-- Every result that is there is that of the serial run, by the number of its call. -/
structure Recorded (ph : ι → Phase κ ρ τ) (tk : ι → Nat) (ret : Nat → Option ρ) (rs : List ρ) :
    Prop where
  unlock : ∀ h c r, ph h = .unlock c r → rs[tk h]? = some r
  after : ∀ h c r t, ph h = .after c r t → rs[tk h]? = some r
  returned : ∀ n r, ret n = some r → rs[n]? = some r

namespace Exclusive

/-- A hart that stays outside. -/
theorem outside (he : Exclusive ph locked) (hp : ¬p.Inside) :
    Exclusive (Function.update ph h p) locked := by
  have hold : ∀ g, (Function.update ph h p g).Inside → (ph g).Inside := by
    intro g hg
    rcases eq_or_ne g h with rfl | hne
    · rw [Function.update_self] at hg
      exact absurd hg hp
    · rwa [Function.update_of_ne hne] at hg
  exact ⟨fun f g hf hg => he.unique f g (hold f hf) (hold g hg), fun g hg => he.taken g (hold g hg)⟩

/-- A hart that stays inside. -/
theorem inside (he : Exclusive ph locked) (hin : (ph h).Inside) :
    Exclusive (Function.update ph h p) locked := by
  have hold : ∀ g, (Function.update ph h p g).Inside → (ph g).Inside := by
    intro g hg
    rcases eq_or_ne g h with rfl | hne
    · exact hin
    · rwa [Function.update_of_ne hne] at hg
  exact ⟨fun f g hf hg => he.unique f g (hold f hf) (hold g hg), fun g hg => he.taken g (hold g hg)⟩

/-- A hart that finds the lock free. -/
theorem acquire (he : Exclusive ph false) : Exclusive (Function.update ph h p) true := by
  have hself : ∀ g, (Function.update ph h p g).Inside → g = h := by
    intro g hg
    by_contra hne
    rw [Function.update_of_ne hne] at hg
    exact Bool.false_ne_true (he.taken g hg)
  exact ⟨fun f g hf hg => (hself f hf).trans (hself g hg).symm, fun _ _ => rfl⟩

/-- A hart that goes outside leaves nobody inside. -/
theorem release (he : Exclusive ph locked) (hin : (ph h).Inside) (hp : ¬p.Inside) :
    Exclusive (Function.update ph h p) false := by
  have hnone : ∀ g, ¬(Function.update ph h p g).Inside := by
    intro g hg
    rcases eq_or_ne g h with rfl | hne
    · rw [Function.update_self] at hg
      exact hp hg
    · rw [Function.update_of_ne hne] at hg
      exact hne (he.unique g h hg hin)
  exact ⟨fun f _ hf _ => absurd hf (hnone f), fun g hg => absurd hg (hnone g)⟩

end Exclusive

namespace Done

/-- A step from and to a phase that is not in front of the body. -/
theorem set (hd : Done ph tk calls done) (hh : ∀ c, ph h ≠ .body c) (hp : ∀ c, p ≠ .body c) :
    Done (Function.update ph h p) tk calls done := by
  rcases hd with ⟨hcalls, hno⟩ | ⟨g, c, hg, htk, hcalls⟩
  · refine Or.inl ⟨hcalls, fun g c hg => ?_⟩
    rcases eq_or_ne g h with rfl | hne
    · rw [Function.update_self] at hg
      exact hp c hg
    · rw [Function.update_of_ne hne] at hg
      exact hno g c hg
  · have hne : g ≠ h := by
      rintro rfl
      exact hh c hg
    exact Or.inr ⟨g, c, by rw [Function.update_of_ne hne]; exact hg, htk, hcalls⟩

theorem acquire (hd : Done ph tk calls done) (hfree : ∀ g, ¬(ph g).Inside) :
    Done (Function.update ph h (.body c)) (Function.update tk h calls.length) (calls ++ [c]) done := by
  rcases hd with ⟨rfl, -⟩ | ⟨g, d, hg, -⟩
  · exact Or.inr ⟨h, c, Function.update_self .., Function.update_self .., rfl⟩
  · refine absurd ?_ (hfree g)
    rw [hg]
    trivial

theorem body (hd : Done ph tk calls done) (he : Exclusive ph locked) (hh : ph h = .body c) :
    tk h = done.length ∧ Done (Function.update ph h (.unlock c r)) tk calls (done ++ [c]) := by
  rcases hd with ⟨-, hno⟩ | ⟨g, d, hg, htk, hcalls⟩
  · exact absurd hh (hno h c)
  · have hin : (ph h).Inside := by
      rw [hh]
      trivial
    have hing : (ph g).Inside := by
      rw [hg]
      trivial
    obtain rfl := he.unique g h hing hin
    rw [hh] at hg
    obtain rfl := Phase.body.inj hg
    refine ⟨htk, Or.inl ⟨hcalls, fun f e hf => ?_⟩⟩
    rcases eq_or_ne f g with rfl | hne
    · rw [Function.update_self] at hf
      cases hf
    · rw [Function.update_of_ne hne] at hf
      refine hne (he.unique f g ?_ hin)
      rw [hf]
      trivial

omit [DecidableEq ι] in
/-- The calls that are done are those that took the lock first. -/
theorem isPrefix (hd : Done ph tk calls done) : done <+: calls ∧ calls.length ≤ done.length + 1 := by
  rcases hd with ⟨rfl, -⟩ | ⟨h, c, -, -, rfl⟩
  · exact ⟨List.prefix_rfl, Nat.le_succ _⟩
  · exact ⟨List.prefix_append done [c], by simp⟩

end Done

namespace Recorded

/-- A hart goes on to a phase with no result, or the one recorded. -/
theorem set (hr : Recorded ph tk ret rs) (hu : ∀ c r, p = .unlock c r → rs[tk h]? = some r)
    (ha : ∀ c r t, p = .after c r t → rs[tk h]? = some r) :
    Recorded (Function.update ph h p) tk ret rs := by
  refine ⟨fun g c r hg => ?_, fun g c r t hg => ?_, hr.returned⟩
  · rcases eq_or_ne g h with rfl | hne
    · rw [Function.update_self] at hg
      exact hu c r hg
    · rw [Function.update_of_ne hne] at hg
      exact hr.unlock g c r hg
  · rcases eq_or_ne g h with rfl | hne
    · rw [Function.update_self] at hg
      exact ha c r t hg
    · rw [Function.update_of_ne hne] at hg
      exact hr.after g c r t hg

theorem acquire (hr : Recorded ph tk ret rs) (n : Nat) :
    Recorded (Function.update ph h (.body c)) (Function.update tk h n) ret rs := by
  refine ⟨fun g d r hg => ?_, fun g d r t hg => ?_, hr.returned⟩
  · rcases eq_or_ne g h with rfl | hne
    · rw [Function.update_self] at hg
      cases hg
    · rw [Function.update_of_ne hne] at hg ⊢
      exact hr.unlock g d r hg
  · rcases eq_or_ne g h with rfl | hne
    · rw [Function.update_self] at hg
      cases hg
    · rw [Function.update_of_ne hne] at hg ⊢
      exact hr.after g d r t hg

omit [DecidableEq ι] in
theorem append (hr : Recorded ph tk ret rs) (r' : ρ) : Recorded ph tk ret (rs ++ [r']) := by
  have hkeep : ∀ {n : Nat} {r : ρ}, rs[n]? = some r → (rs ++ [r'])[n]? = some r := by
    intro n r hn
    obtain ⟨hlt, -⟩ := List.getElem?_eq_some_iff.mp hn
    rw [List.getElem?_append_left hlt]
    exact hn
  exact ⟨fun h c r hh => hkeep (hr.unlock h c r hh), fun h c r t hh => hkeep (hr.after h c r t hh),
    fun n r hn => hkeep (hr.returned n r hn)⟩

omit [DecidableEq ι] in
/-- A call returns the result recorded. -/
theorem giveBack (hr : Recorded ph tk ret rs) {n : Nat} (hn : rs[n]? = some r) :
    Recorded ph tk (Function.update ret n (some r)) rs := by
  refine ⟨hr.unlock, hr.after, fun m r' hm => ?_⟩
  rcases eq_or_ne m n with rfl | hne
  · rw [Function.update_self] at hm
    rw [hn]
    exact hm
  · rw [Function.update_of_ne hne] at hm
    exact hr.returned m r' hm

end Recorded

/-- What holds in every state of a run. -/
structure Inv (serial : κ → α → ρ → α → Prop) (I : (ι → Phase κ ρ τ) → σ → α → Prop) (a₀ : α)
    (s : State ι κ ρ τ σ) (done : List κ) (rs : List ρ) (a : α) : Prop where
  exclusive : Exclusive s.phase s.locked
  bodies : Done s.phase s.ticket s.calls done
  recorded : Recorded s.phase s.ticket s.returned rs
  serial : Serial serial a₀ done rs a
  rel : I s.phase s.shared a

theorem Inv.step {C : Component ι κ ρ τ σ} {serial : κ → α → ρ → α → Prop}
    {I : (ι → Phase κ ρ τ) → σ → α → Prop} (hsim : Simulates C serial I) {a₀ a : α}
    {s s' : State ι κ ρ τ σ} (hi : Inv serial I a₀ s done rs a) (hstep : Step C s h s') :
    ∃ done' rs' a', Inv serial I a₀ s' done' rs' a' := by
  obtain ⟨he, hd, hr, hs, hI⟩ := hi
  cases hstep with
  | early c r hp hearly => exact ⟨done, rs, a, he, hd, hr, hs, hI⟩
  | enter c x hp henter =>
      refine ⟨done, rs, a, he.outside id, hd.set ?_ ?_, hr.set ?_ ?_, hs, hsim.enter hI hp henter⟩
      · rw [hp]
        exact fun _ => nofun
      · exact fun _ => nofun
      · exact fun _ _ => nofun
      · exact fun _ _ _ => nofun
  | spin c hp hl => exact ⟨done, rs, a, he, hd, hr, hs, hI⟩
  | acquire c hp hl =>
      rw [hl] at he
      have hfree : ∀ g, ¬(s.phase g).Inside := fun g hg => Bool.false_ne_true (he.taken g hg)
      exact ⟨done, rs, a, he.acquire, hd.acquire hfree, hr.acquire _, hs, hsim.acquire hI hp⟩
  | body c r x hp hbody =>
      have hin : (s.phase h).Inside := by
        rw [hp]
        trivial
      obtain ⟨htk, hd'⟩ := hd.body (r := r) he hp
      obtain ⟨a', hserial, hI'⟩ := hsim.body hI hp hbody
      refine ⟨_, _, a', he.inside hin, hd', (hr.append r).set ?_ ?_, hs.concat hserial, hI'⟩
      · rintro d q hq
        obtain ⟨-, rfl⟩ := Phase.unlock.inj hq
        rw [htk, ← hs.length_eq]
        exact List.getElem?_concat_length
      · exact fun _ _ _ => nofun
  | release c r t hp hrest =>
      have hin : (s.phase h).Inside := by
        rw [hp]
        trivial
      refine ⟨done, rs, a, he.release hin id, hd.set ?_ ?_, hr.set ?_ ?_, hs,
        hsim.release hI hp hrest⟩
      · rw [hp]
        exact fun _ => nofun
      · exact fun _ => nofun
      · exact fun _ _ => nofun
      · rintro d q t' hq
        obtain ⟨-, rfl, -⟩ := Phase.after.inj hq
        exact hr.unlock h c r hp
  | releaseLast c r hp hrest =>
      have hin : (s.phase h).Inside := by
        rw [hp]
        trivial
      refine ⟨done, rs, a, he.release hin id, hd.set ?_ ?_,
        (hr.set ?_ ?_).giveBack (hr.unlock h c r hp), hs, hsim.releaseLast hI hp hrest⟩
      · rw [hp]
        exact fun _ => nofun
      · exact fun _ => nofun
      · exact fun _ _ => nofun
      · exact fun _ _ _ => nofun
  | after c r t t' x hp hafter =>
      refine ⟨done, rs, a, he.outside id, hd.set ?_ ?_, hr.set ?_ ?_, hs, hsim.after hI hp hafter⟩
      · rw [hp]
        exact fun _ => nofun
      · exact fun _ => nofun
      · exact fun _ _ => nofun
      · rintro d q u hq
        obtain ⟨-, rfl, -⟩ := Phase.after.inj hq
        exact hr.after h c r t hp
  | afterLast c r t x hp hafter =>
      refine ⟨done, rs, a, he.outside id, hd.set ?_ ?_,
        (hr.set ?_ ?_).giveBack (hr.after h c r t hp), hs, hsim.afterLast hI hp hafter⟩
      · rw [hp]
        exact fun _ => nofun
      · exact fun _ => nofun
      · exact fun _ _ => nofun
      · exact fun _ _ _ => nofun

/-- **Calls under one lock are serial.**  In every state one hart is inside at most, and what has
been returned is what a serial run of the calls returns, in the order in which they took the
lock. -/
theorem Run.spec {C : Component ι κ ρ τ σ} {serial : κ → α → ρ → α → Prop}
    {I : (ι → Phase κ ρ τ) → σ → α → Prop} (hsim : Simulates C serial I) {x : σ} {a₀ : α}
    (hstart : I (fun _ => .idle) x a₀) {s : State ι κ ρ τ σ} (hrun : Run C x s) :
    ∃ done rs a, Inv serial I a₀ s done rs a := by
  induction hrun with
  | start =>
      refine ⟨[], [], a₀, ⟨fun _ _ hg => hg.elim, fun _ hg => hg.elim⟩, Or.inl ⟨rfl, fun _ _ => nofun⟩,
        ⟨fun _ _ _ => nofun, fun _ _ _ _ => nofun, fun _ _ => nofun⟩, .nil, hstart⟩
  | step _ hstep ih =>
      obtain ⟨done, rs, a, hi⟩ := ih
      exact hi.step hsim hstep

end SystemN.Locked
