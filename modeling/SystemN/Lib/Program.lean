/-
Programs that share a state and take locks.

A program is a tree of steps.  A step changes the shared state and goes on according to
what it has found there; between two steps of one program others may run.  Taking and
releasing a lock are steps of their own, and so is coming to an end that is no return.

Three things can be said of a program without running it with others.  `alone` is what it
does when it is run by itself, and `Ends` compares that with what a function says.  `Keeps`
says what none of its steps destroys, and so holds where it stops as well.  `Ordered` is the
discipline that keeps it out of deadlocks: it takes a lock only when that ranks above all it
holds, and releases only what it holds.  All go along `bind`, so they are proved of a program
piece by piece.
-/
import Mathlib.Tactic.Common

namespace SystemN.Programs

variable {ε κ σ α β : Type}

/-- A program with locks `κ` over the state `σ`. -/
inductive Prog (ε κ σ : Type) (α : Type) where
  | ret (a : α)
  /-- One step: the state it leaves, and what comes next, both from the state it finds. -/
  | act (upd : σ → σ) (next : σ → Prog ε κ σ α)
  | lock (l : κ) (next : Prog ε κ σ α)
  | unlock (l : κ) (next : Prog ε κ σ α)
  /-- It does not return. -/
  | stop (e : ε)

namespace Prog

/-- One program after another. -/
def bind (p : Prog ε κ σ α) (f : α → Prog ε κ σ β) : Prog ε κ σ β :=
  match p with
  | ret a => f a
  | act upd next => act upd fun s => (next s).bind f
  | lock l next => lock l (next.bind f)
  | unlock l next => unlock l (next.bind f)
  | stop e => stop e

instance : Monad (Prog ε κ σ) where
  pure := ret
  bind := bind

def acquire (l : κ) : Prog ε κ σ Unit := lock l (ret ())

def release (l : κ) : Prog ε κ σ Unit := unlock l (ret ())

/-! ### One program by itself -/

/-- The end of a run with no other program about, and the state it leaves. -/
def alone : Prog ε κ σ α → σ → Except ε α × σ
  | ret a, s => (.ok a, s)
  | act upd next, s => (next s).alone (upd s)
  | lock _ next, s => next.alone s
  | unlock _ next, s => next.alone s
  | stop e, s => (.error e, s)

theorem alone_bind (p : Prog ε κ σ α) (f : α → Prog ε κ σ β) (s : σ) :
    (p >>= f).alone s = match p.alone s with
      | (.ok a, t) => (f a).alone t
      | (.error e, t) => (.error e, t) := by
  induction p generalizing s with
  | ret a => rfl
  | act upd next ih => exact ih s (upd s)
  | lock l next ih => exact ih s
  | unlock l next ih => exact ih s
  | stop e => rfl

/-- The locks it holds in the end, when it starts with `held`. -/
def heldAlone [BEq κ] : Prog ε κ σ α → List κ → σ → List κ
  | ret _, held, _ => held
  | act upd next, held, s => (next s).heldAlone held (upd s)
  | lock l next, held, s => next.heldAlone (l :: held) s
  | unlock l next, held, s => next.heldAlone (held.erase l) s
  | stop _, held, _ => held

/-- A part `τ` of the state. -/
structure Part (σ τ : Type) where
  get : σ → τ
  put : σ → τ → σ
  get_put : ∀ x t, get (put x t) = t
  put_put : ∀ x t t', put (put x t) t' = put x t'

variable {τ γ : Type}

/-- Read a part of the state. -/
def Part.read (P : Part σ τ) : Prog ε κ σ τ := act id fun x => ret (P.get x)

/-- Change a part of the state. -/
def Part.modify (P : Part σ τ) (f : τ → τ) : Prog ε κ σ Unit :=
  act (fun x => P.put x (f (P.get x))) fun _ => ret ()

/-- By itself, with `t` in the part `P` of the state and `x` elsewhere, the program ends as `r` says:
with this result and this in the part, or without a return. -/
def Ends (P : Part σ τ) (x : σ) (p : Prog ε κ σ α) (t : τ) : Except ε (α × τ) → Prop
  | .ok (a, t') => p.alone (P.put x t) = (.ok a, P.put x t')
  | .error e => (p.alone (P.put x t)).1 = .error e

namespace Ends

variable {P : Part σ τ} {x : σ} {p p' : Prog ε κ σ α} {t : τ} {r r' : Except ε (α × τ)}

/-- **The ends go along `bind`.**  `φ` is where the function keeps its result and the state. -/
theorem bind {c : Except ε γ} (φ : γ → α × τ) {q : α → Prog ε κ σ β} {g : γ → Except ε (β × τ)}
    (h : Ends P x p t (c.map φ)) (hq : ∀ y, Ends P x (q (φ y).1) (φ y).2 (g y)) :
    Ends P x (p >>= q) t (c >>= g) := by
  cases c with
  | error e =>
      have hp : (p.alone (P.put x t)).1 = .error e := h
      show ((p >>= q).alone (P.put x t)).1 = .error e
      rw [alone_bind]
      generalize p.alone (P.put x t) = y at hp
      obtain ⟨y, t'⟩ := y
      subst hp
      rfl
  | ok y =>
      have hp : p.alone (P.put x t) = (.ok (φ y).1, P.put x (φ y).2) := h
      have hbind : (p >>= q).alone (P.put x t) = (q (φ y).1).alone (P.put x (φ y).2) := by
        rw [alone_bind, hp]
      have hnext := hq y
      show Ends P x (p >>= q) t (g y)
      unfold Ends at hnext ⊢
      rwa [hbind]

/-- The same under a function that says how the result is kept. -/
theorem bind_map {δ : Type} {c : Except ε γ} (φ : γ → α × τ) {q : α → Prog ε κ σ β}
    {g : γ → Except ε δ} {ψ : δ → β × τ} (h : Ends P x p t (c.map φ))
    (hq : ∀ y, Ends P x (q (φ y).1) (φ y).2 ((g y).map ψ)) :
    Ends P x (p >>= q) t ((c >>= g).map ψ) := by
  have hmap : (c >>= g).map ψ = c >>= fun y => (g y).map ψ := by
    cases c with
    | error e => rfl
    | ok y => rfl
  rw [hmap]
  exact bind φ h hq

theorem bind_ok {y : α × τ} {q : α → Prog ε κ σ β} {r : Except ε (β × τ)}
    (h : Ends P x p t (.ok y)) (hq : Ends P x (q y.1) y.2 r) : Ends P x (p >>= q) t r :=
  bind (c := Except.ok ()) (g := fun _ => r) (fun _ => y) h fun _ => hq

theorem pure (a : α) (t : τ) : Ends P x (pure a : Prog ε κ σ α) t (.ok (a, t)) := rfl

theorem stop (e : ε) (t : τ) : Ends P x (Prog.stop e : Prog ε κ σ α) t (.error e) := rfl

theorem read {q : τ → Prog ε κ σ α} (h : Ends P x (q t) t r) : Ends P x (P.read >>= q) t r := by
  have hbind : (P.read >>= q).alone (P.put x t) = (q (P.get (P.put x t))).alone (P.put x t) := rfl
  rw [P.get_put] at hbind
  unfold Ends at h ⊢
  rwa [hbind]

theorem modify {u : τ → τ} {q : Unit → Prog ε κ σ α} (h : Ends P x (q ()) (u t) r) :
    Ends P x (P.modify u >>= q) t r := by
  have hbind : (P.modify u >>= q).alone (P.put x t)
      = (q ()).alone (P.put (P.put x t) (u (P.get (P.put x t)))) := rfl
  rw [P.get_put, P.put_put] at hbind
  unfold Ends at h ⊢
  rwa [hbind]

theorem modified (u : τ → τ) (t : τ) : Ends P x (P.modify u : Prog ε κ σ Unit) t (.ok ((), u t)) :=
  modify (q := fun _ => ret ()) (pure () (u t))

theorem acquire {l : κ} {q : Unit → Prog ε κ σ α} (h : Ends P x (q ()) t r) :
    Ends P x (Prog.acquire l >>= q) t r := h

theorem release {l : κ} {q : Unit → Prog ε κ σ α} (h : Ends P x (q ()) t r) :
    Ends P x (Prog.release l >>= q) t r := h

theorem released (l : κ) (t : τ) : Ends P x (Prog.release l : Prog ε κ σ Unit) t (.ok ((), t)) := rfl

theorem ite {c : Prop} [Decidable c] (h : c → Ends P x p t r) (h' : ¬c → Ends P x p' t r') :
    Ends P x (if c then p else p') t (if c then r else r') := by
  split
  · rename_i hc
    exact h hc
  · rename_i hc
    exact h' hc

theorem ite_map {δ : Type} {c : Prop} [Decidable c] {d d' : Except ε δ} {ψ : δ → α × τ}
    (h : c → Ends P x p t (d.map ψ)) (h' : ¬c → Ends P x p' t (d'.map ψ)) :
    Ends P x (if c then p else p') t ((if c then d else d').map ψ) := by
  rw [apply_ite (Except.map ψ)]
  exact ite h h'

end Ends

/-! ### What every step keeps -/

/-- Every step of the program keeps `R`, whatever state it finds. -/
def Keeps (R : σ → Prop) : Prog ε κ σ α → Prop
  | ret _ => True
  | act upd next => ∀ s, (R s → R (upd s)) ∧ (next s).Keeps R
  | lock _ next => next.Keeps R
  | unlock _ next => next.Keeps R
  | stop _ => True

namespace Keeps

variable {R : σ → Prop} {p p' : Prog ε κ σ α}

/-- Then `R` holds in the end, also where the program does not return. -/
theorem alone (h : p.Keeps R) {s : σ} (hs : R s) : R (p.alone s).2 := by
  induction p generalizing s with
  | ret a => exact hs
  | act upd next ih => exact ih s (h s).2 ((h s).1 hs)
  | lock l next ih => exact ih h hs
  | unlock l next ih => exact ih h hs
  | stop e => exact hs

theorem bind {f : α → Prog ε κ σ β} (hp : p.Keeps R) (hf : ∀ a, (f a).Keeps R) :
    (p >>= f).Keeps R := by
  induction p with
  | ret a => exact hf a
  | act upd next ih => exact fun s => ⟨(hp s).1, ih s (hp s).2⟩
  | lock l next ih => exact ih hp
  | unlock l next ih => exact ih hp
  | stop e => trivial

theorem pure (a : α) : (pure a : Prog ε κ σ α).Keeps R := trivial

theorem stop (e : ε) : (Prog.stop e : Prog ε κ σ α).Keeps R := trivial

theorem acquire (l : κ) : (Prog.acquire l : Prog ε κ σ Unit).Keeps R := trivial

theorem release (l : κ) : (Prog.release l : Prog ε κ σ Unit).Keeps R := trivial

theorem read (P : Part σ τ) : (P.read : Prog ε κ σ τ).Keeps R := fun _ => ⟨id, trivial⟩

theorem modify {P : Part σ τ} {f : τ → τ} (h : ∀ x, R x → R (P.put x (f (P.get x)))) :
    (P.modify f : Prog ε κ σ Unit).Keeps R := fun x => ⟨h x, trivial⟩

theorem ite {c : Prop} [Decidable c] (h : p.Keeps R) (h' : p'.Keeps R) :
    (if c then p else p').Keeps R := by
  split
  · exact h
  · exact h'

end Keeps

/-! ### The order of the locks -/

/-- From the locks `held` on, the program takes locks in the order of their ranks, and when it
returns `Q` holds of the locks it holds then. -/
def Ordered [BEq κ] (rank : κ → Nat) : Prog ε κ σ α → List κ → (List κ → α → Prop) → Prop
  | ret a, held, Q => Q held a
  | act _ next, held, Q => ∀ s, (next s).Ordered rank held Q
  | lock l next, held, Q => (∀ x ∈ held, rank x < rank l) ∧ next.Ordered rank (l :: held) Q
  | unlock l next, held, Q => l ∈ held ∧ next.Ordered rank (held.erase l) Q
  | stop _, _, _ => True

/-- It returns with the locks it started with. -/
def Balanced [BEq κ] (rank : κ → Nat) (held : List κ) (p : Prog ε κ σ α) : Prop :=
  p.Ordered rank held fun held' _ => held' = held

section Ordered

variable [BEq κ] {rank : κ → Nat} {held : List κ}

theorem Ordered.mono {p : Prog ε κ σ α} {Q Q' : List κ → α → Prop} (h : p.Ordered rank held Q)
    (hQ : ∀ held a, Q held a → Q' held a) : p.Ordered rank held Q' := by
  induction p generalizing held with
  | ret a => exact hQ held a h
  | act upd next ih => exact fun s => ih s (h s)
  | lock l next ih => exact ⟨h.1, ih h.2⟩
  | unlock l next ih => exact ⟨h.1, ih h.2⟩
  | stop e => trivial

theorem ordered_bind {p : Prog ε κ σ α} {f : α → Prog ε κ σ β} {Q : List κ → β → Prop} :
    (p >>= f).Ordered rank held Q ↔ p.Ordered rank held fun held' a => (f a).Ordered rank held' Q := by
  induction p generalizing held with
  | ret a => exact Iff.rfl
  | act upd next ih => exact forall_congr' fun s => ih s
  | lock l next ih => exact and_congr_right fun _ => ih
  | unlock l next ih => exact and_congr_right fun _ => ih
  | stop e => exact Iff.rfl

/-- What `Ordered` says of the locks in the end holds of a run with no other program about. -/
theorem Ordered.heldAlone {p : Prog ε κ σ α} {Q : List κ → α → Prop} (h : p.Ordered rank held Q)
    {s t : σ} {a : α} (hend : p.alone s = (.ok a, t)) : Q (p.heldAlone held s) a := by
  induction p generalizing held s with
  | ret b =>
      obtain rfl : b = a := Except.ok.inj (congrArg Prod.fst hend)
      exact h
  | act upd next ih => exact ih s (h s) hend
  | lock l next ih => exact ih h.2 hend
  | unlock l next ih => exact ih h.2 hend
  | stop e => cases congrArg Prod.fst hend

/-- **The discipline goes along `bind`.** -/
theorem Balanced.bind {p : Prog ε κ σ α} {f : α → Prog ε κ σ β} {Q : List κ → β → Prop}
    (hp : p.Balanced rank held) (hf : ∀ a, (f a).Ordered rank held Q) :
    (p >>= f).Ordered rank held Q := by
  apply ordered_bind.mpr
  apply Ordered.mono hp
  intro held' a hheld
  rw [hheld]
  exact hf a

theorem Balanced.pure (a : α) : (pure a : Prog ε κ σ α).Balanced rank held := rfl

theorem Balanced.stop (e : ε) : (Prog.stop e : Prog ε κ σ α).Balanced rank held := trivial

theorem Balanced.read (P : Part σ τ) : (P.read : Prog ε κ σ τ).Balanced rank held := fun _ => rfl

theorem Balanced.modify (P : Part σ τ) (f : τ → τ) :
    (P.modify f : Prog ε κ σ Unit).Balanced rank held :=
  fun _ => rfl

/-- What is done under one more lock. -/
theorem Balanced.locked [LawfulBEq κ] {l : κ} {p : Prog ε κ σ α}
    (hl : ∀ x ∈ held, rank x < rank l)
    (hp : p.Ordered rank (l :: held) fun held' _ => held' = held) :
    (Prog.acquire l >>= fun _ => p).Balanced rank held := ⟨hl, hp⟩

/-- The lock taken last is released. -/
theorem Ordered.released [LawfulBEq κ] {l : κ} {p : Unit → Prog ε κ σ α} {Q : List κ → α → Prop}
    (hp : (p ()).Ordered rank held Q) :
    (Prog.release l >>= p).Ordered rank (l :: held) Q := by
  refine ⟨List.mem_cons_self, ?_⟩
  rw [List.erase_cons_head]
  exact hp

end Ordered

end Prog

end SystemN.Programs
