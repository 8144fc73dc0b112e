/-
The page allocator on many harts is the one on one hart.

The lock makes the bodies run one at a time.  What a body leaves differs from what the
whole call leaves in bytes only, for the block is cleared later; so the shared state and
that of the serial run have the same free lists, block for block, and the next body finds
the same block in both.  The blocks the harts own, with those that calls in progress have
taken or are giving back, are the blocks handed out, and no two of those meet.
-/
import SystemN.Mm.Harts
import SystemN.Proofs.Mm.Coalesce
import SystemN.Proofs.Mm.Halt

namespace SystemN

namespace Mm

open Tiling Chain

variable {fl : Nat → List Nat} {live : Multiset (Nat × Nat)} {s s' t : Mm} {order : Nat}

/-! ### The body and the whole call -/

theorem takeBlock_eq (s : Mm) (order o block : Nat) :
    s.takeBlock order o block = (s.takeLocked order o block >>= fun (addr, s) => do
      let m ← memset s.mem addr 0 (pageSize <<< order)
      pure (addr, (s.deref (s.physToVirt addr) (pageSize <<< order)).setMem m)) := by
  unfold takeBlock takeLocked
  simp only [bind_assoc, pure_bind]

/-- The whole call finds nothing when the body does, and else clears the block as well. -/
theorem allocLockedFrom_cases (ho : order ≤ maxOrder) {r : Option Nat} :
    ∀ (n o : Nat), allocLockedFrom order n o s = .ok (r, s') →
      (r = none ∧ s' = s ∧ allocFrom order n o s = .ok (0, s) ∧
        ∀ x, o ≤ x → x < o + n → s.freeLists x = none) ∨
      ∃ a m x, r = some a ∧ o ≤ x ∧ x < o + n ∧ s.freeLists x ≠ none ∧
        allocFrom order n o s
          = .ok (a, (s'.deref (s'.physToVirt a) (pageSize <<< order)).setMem m) := by
  intro n
  induction n with
  | zero =>
      intro o h
      obtain ⟨rfl, rfl⟩ := Prod.mk.inj (Except.ok.inj h)
      exact Or.inl ⟨rfl, rfl, rfl, fun x h1 h2 => by omega⟩
  | succ n ih =>
      intro o h
      rw [allocLockedFrom] at h
      rw [allocFrom]
      cases hl : s.freeLists o with
      | none =>
          rw [hl] at h
          rcases ih (o + 1) h with ⟨rfl, rfl, hnull, hnone⟩ | ⟨a, m, x, rfl, h1, h2, hx, hok⟩
          · refine Or.inl ⟨rfl, rfl, hnull, fun x h1 h2 => ?_⟩
            rcases Nat.eq_or_lt_of_le h1 with rfl | hlt
            · exact hl
            · exact hnone x hlt (by omega)
          · exact Or.inr ⟨a, m, x, rfl, by omega, by omega, hx, hok⟩
      | some block =>
          rw [hl] at h
          simp only at h ⊢
          rw [bind_eq_ok] at h
          obtain ⟨⟨a, s₁⟩, htake, h⟩ := h
          obtain ⟨rfl, rfl⟩ := Prod.mk.inj (Except.ok.inj h)
          have hsmall : pageSize <<< order < 2 ^ 32 := by
            rw [Nat.shiftLeft_eq, show pageSize = 2 ^ 12 by norm_num, ← Nat.pow_add]
            exact Nat.pow_lt_pow_right (by norm_num) (by simp only [maxOrder] at ho; omega)
          rw [takeBlock_eq, htake, ok_bind]
          simp only
          rw [memset_eq _ _ _ hsmall, ok_bind]
          exact Or.inr ⟨a, _, o, rfl, Nat.le_refl o, by omega, by simp [hl], rfl⟩

/-- The body ends when the whole call does. -/
theorem exists_allocLockedFrom {a : Nat} :
    ∀ (n o : Nat), allocFrom order n o s = .ok (a, t) →
      ∃ r s', allocLockedFrom order n o s = .ok (r, s') := by
  intro n
  induction n with
  | zero => exact fun o _ => ⟨none, s, rfl⟩
  | succ n ih =>
      intro o h
      rw [allocFrom] at h
      rw [allocLockedFrom]
      cases hl : s.freeLists o with
      | none =>
          rw [hl] at h
          exact ih (o + 1) h
      | some block =>
          rw [hl] at h
          simp only at h ⊢
          rw [takeBlock_eq, bind_eq_ok] at h
          obtain ⟨⟨b, s₁⟩, htake, -⟩ := h
          exact ⟨some b, s₁, by rw [htake]; rfl⟩

/-! ### Two states with the same lists -/

/-- The blocks on the lists, and those handed out, are the same in `s` and `t`. -/
structure Agree (fl : Nat → List Nat) (live : Multiset (Nat × Nat)) (s t : Mm) : Prop where
  run : RunInv s live
  inv : BuddyInv s fl (handedOut s live) 0
  inv' : BuddyInv t fl (handedOut t live) 0
  statics : SameStatics s t

theorem Agree.run' (h : Agree fl live s t) : RunInv t live := by
  refine ⟨h.run.region.congr h.statics, ⟨fl, h.inv'⟩, fun B hB => ?_⟩
  rw [h.statics.base, h.statics.numPages]
  exact h.run.addr B hB

/-- **`alloc_pages` takes the same block in both states.** -/
theorem Agree.allocPages (h : Agree fl live s t) (ho : order ≤ maxOrder) {a : Nat}
    (hcall : s.allocPages order = .ok (a, s')) :
    ∃ t' fl', t.allocPages order = .ok (a, t') ∧
      Agree fl' (if a = 0 then live else (a, order) ::ₘ live) s' t' := by
  have hrun := runInv_alloc h.run ho hcall
  rcases h.run.allocPages_lists h.inv ho with
    ⟨hnull, hnone⟩ | ⟨o, b, r, a₁, s₁, h1, h2, hbefore, hfl, hcall₁, hne, hst, hidx, hi⟩
  · rw [hnull] at hcall
    obtain ⟨rfl, rfl⟩ := Prod.mk.inj (Except.ok.inj hcall)
    rcases h.run'.allocPages_lists h.inv' ho with ⟨hnull', -⟩ | ⟨o, b, r, -, -, h1, h2, -, hfl, -⟩
    · exact ⟨t, fl, hnull', h⟩
    · rw [hnone o h1 h2] at hfl
      cases hfl
  · rw [hcall] at hcall₁
    obtain ⟨rfl, rfl⟩ := Prod.mk.inj (Except.ok.inj hcall₁)
    rcases h.run'.allocPages_lists h.inv' ho with
      ⟨-, hnone⟩ | ⟨o', b', r', a', t', h1', -, hbefore', hfl', hcall', hne', hst', hidx', hi'⟩
    · rw [hnone o h1 h2] at hfl
      cases hfl
    · -- the first list that is not empty is the same, and so is its first block
      have hoo : o' = o := by
        rcases Nat.lt_trichotomy o' o with hlt | heq | hgt
        · rw [hbefore o' h1' hlt] at hfl'
          cases hfl'
        · exact heq
        · rw [hbefore' o h1 hgt] at hfl
          cases hfl
      subst hoo
      rw [hfl] at hfl'
      obtain ⟨rfl, rfl⟩ := List.cons.inj hfl'
      rw [if_neg hne] at hrun ⊢
      have hrun' := runInv_alloc h.run' ho hcall'
      rw [if_neg hne'] at hrun'
      have haddr : a' = a := by
        have ha := hrun.addr_of_pageIdx (Multiset.mem_cons_self (a, order) live)
        have ha' := hrun'.addr_of_pageIdx (Multiset.mem_cons_self (a', order) live)
        simp only at ha ha'
        rw [pageIdx_congr hst, hidx, hst.base] at ha
        rw [pageIdx_congr hst', hidx', hst'.base, h.statics.base] at ha'
        exact ha'.trans ha.symm
      subst haddr
      exact ⟨t', Buddy.splitLists b order (o' - order) (Function.update fl o' r), hcall',
        hrun, hi, hi', hst.symm.trans (h.statics.trans hst')⟩

/-- **The body of `alloc_pages` takes the block that the whole call takes.** -/
theorem Agree.alloc (h : Agree fl live s t) (ho : order ≤ maxOrder) {r : Option Nat}
    (hcall : s.allocLocked order = .ok (r, s')) :
    ∃ a t' fl', t.allocPages order = .ok (a, t') ∧ r = (if a = 0 then none else some a) ∧
      Agree fl' (if a = 0 then live else (a, order) ::ₘ live) s' t' := by
  have hpages : s.allocPages order = allocFrom order (maxOrder + 1 - order) order s := by
    unfold Mm.allocPages
    exact if_neg (Nat.not_lt.mpr ho)
  rcases allocLockedFrom_cases ho _ _ hcall with
    ⟨rfl, rfl, hnull, -⟩ | ⟨a, m, x, rfl, hx1, hx2, hxl, hok⟩
  · rw [← hpages] at hnull
    obtain ⟨t', fl', hcall', hagree⟩ := h.allocPages ho hnull
    exact ⟨0, t', fl', hcall', rfl, hagree⟩
  · rw [← hpages] at hok
    have hne : a ≠ 0 := by
      rcases h.run.allocPages_lists h.inv ho with
        ⟨-, hnone⟩ | ⟨-, -, -, a₁, s₁, -, -, -, -, hcall₁, hne, -⟩
      · have hchain := h.inv.chain x (by omega)
        rw [hnone x hx1 (by omega), isChain_nil] at hchain
        exact absurd hchain hxl
      · rw [hok] at hcall₁
        obtain ⟨rfl, -⟩ := Prod.mk.inj (Except.ok.inj hcall₁)
        exact hne
    obtain ⟨t', fl', hcall', hagree⟩ := h.allocPages ho hok
    obtain ⟨hrun, hi, hi', hst⟩ := hagree
    exact ⟨a, t', fl', hcall', (if_neg hne).symm,
      ⟨⟨hrun.region.1, hrun.region.2, hrun.region.3⟩, hrun.inv, hrun.addr⟩, hi, hi',
      ⟨hst.1, hst.2, hst.3, hst.4⟩⟩

/-- **`free_pages` merges the same blocks in both states.** -/
theorem Agree.free {B : Nat × Nat} (h : Agree fl (B ::ₘ live) s t)
    (hcall : s.freePages B.1 = .ok s') :
    ∃ t' fl', t.freePages B.1 = .ok t' ∧ Agree fl' live s' t' := by
  rcases h.run.freePages_lists h.inv with
    hhalt | ⟨s₁, fl', c, k, hok, hk, hmerges, hstop, hst, hi⟩
  · rw [hhalt] at hcall
    cases hcall
  · rw [hok] at hcall
    obtain rfl := Except.ok.inj hcall
    rw [← pageIdx_congr h.statics] at hmerges
    obtain ⟨t', hok', hst', hi'⟩ := h.run'.freePages_of_merges h.inv' hk hmerges fun hlt => by
      rw [h.statics.numPages]
      exact hstop hlt
    exact ⟨t', _, hok', runInv_free h.run hok, hi, hi',
      hst.symm.trans (h.statics.trans hst')⟩

end Mm

namespace Harts

open Mm Locked Tiling

variable {ι : Type*} [DecidableEq ι] [Fintype ι] {ph : ι → Phase Call (Option Nat) Nat}
  {x x' : Shared ι} {t : Mm} {h : ι} {p : Phase Call (Option Nat) Nat}

/-! ### The blocks of the harts -/

/-- The block that a call in progress is giving back, or has taken. -/
def inFlight : Phase Call (Option Nat) Nat → Multiset (Nat × Nat)
  | .want (.free B) => {B}
  | .body (.free B) => {B}
  | .unlock (.alloc order) (some a) => {(a, order)}
  | .after (.alloc order) (some a) _ => {(a, order)}
  | _ => 0

/-- The blocks of hart `h`. -/
def blocks (ph : ι → Phase Call (Option Nat) Nat) (x : Shared ι) (h : ι) : Multiset (Nat × Nat) :=
  x.owned h + inFlight (ph h)

/-- The blocks of all harts. -/
def allOwned (ph : ι → Phase Call (Option Nat) Nat) (x : Shared ι) : Multiset (Nat × Nat) :=
  ∑ h, blocks ph x h

/-- The blocks of the other harts. -/
def othersOwned (ph : ι → Phase Call (Option Nat) Nat) (x : Shared ι) (h : ι) :
    Multiset (Nat × Nat) :=
  ∑ g ∈ Finset.univ.erase h, blocks ph x g

theorem allOwned_eq (ph : ι → Phase Call (Option Nat) Nat) (x : Shared ι) (h : ι) :
    allOwned ph x = blocks ph x h + othersOwned ph x h :=
  (Finset.add_sum_erase _ _ (Finset.mem_univ h)).symm

theorem mem_othersOwned {g : ι} (hne : g ≠ h) {B : Nat × Nat} (hB : B ∈ blocks ph x g) :
    B ∈ othersOwned ph x h :=
  Multiset.mem_sum.mpr ⟨g, Finset.mem_erase.mpr ⟨hne, Finset.mem_univ g⟩, hB⟩

/-- A step of `h` leaves the blocks of the others alone. -/
theorem othersOwned_step (howned : ∀ g, g ≠ h → x'.owned g = x.owned g) :
    othersOwned (Function.update ph h p) x' h = othersOwned ph x h := by
  refine Finset.sum_congr rfl fun g hg => ?_
  have hne := Finset.ne_of_mem_erase hg
  unfold blocks
  rw [howned g hne, Function.update_of_ne hne]

/-- A step that leaves the blocks of `h` as they are. -/
theorem allOwned_step (howned : ∀ g, g ≠ h → x'.owned g = x.owned g)
    (hsame : x'.owned h + inFlight p = blocks ph x h) :
    allOwned (Function.update ph h p) x' = allOwned ph x := by
  rw [allOwned_eq _ _ h, allOwned_eq ph x h, othersOwned_step howned]
  unfold blocks at hsame ⊢
  rw [Function.update_self, hsame]

/-- A step that takes a block. -/
theorem allOwned_take (howned : ∀ g, g ≠ h → x'.owned g = x.owned g) {B : Nat × Nat}
    (htake : x'.owned h + inFlight p = B ::ₘ blocks ph x h) :
    allOwned (Function.update ph h p) x' = B ::ₘ allOwned ph x := by
  rw [allOwned_eq _ _ h, allOwned_eq ph x h, othersOwned_step howned, ← Multiset.cons_add, ← htake]
  unfold blocks
  rw [Function.update_self]

/-- A step that gives one back. -/
theorem allOwned_give (howned : ∀ g, g ≠ h → x'.owned g = x.owned g) {B : Nat × Nat}
    (hgive : blocks ph x h = B ::ₘ (x'.owned h + inFlight p)) :
    allOwned ph x = B ::ₘ allOwned (Function.update ph h p) x' := by
  rw [allOwned_eq ph x h, allOwned_eq (Function.update ph h p) x' h, othersOwned_step howned, hgive,
    Multiset.cons_add]
  unfold blocks
  rw [Function.update_self]

theorem add_block (S : Multiset (Nat × Nat)) (B : Nat × Nat) : S + {B} = B ::ₘ S := by
  rw [add_comm]
  exact Multiset.singleton_add B S

/-! ### The relation to the serial run -/

/-- The order of a call is one that gets to the lock. -/
def Call.Ok : Call → Prop
  | .alloc order => order ≤ maxOrder
  | .free _ => True

/-- The phase is one a call can be in. -/
def PhaseOk : Phase Call (Option Nat) Nat → Prop
  | .want c => c.Ok
  | .body c => c.Ok
  | .after (.alloc order) (some _) i => i < 2 ^ order
  | .after _ _ _ => False
  | _ => True

/-- The harts own the blocks handed out, and the lists are those of the serial run. -/
structure Rel (ph : ι → Phase Call (Option Nat) Nat) (x : Shared ι) (t : Mm) : Prop where
  agree : ∃ fl, Agree fl (allOwned ph x) x.mm t
  phase : ∀ h, PhaseOk (ph h)

omit [Fintype ι] in
theorem phaseOk_update (hph : ∀ h, PhaseOk (ph h)) (hp : PhaseOk p) (g : ι) :
    PhaseOk (Function.update ph h p g) := by
  rcases eq_or_ne g h with rfl | hne
  · rw [Function.update_self]
    exact hp
  · rw [Function.update_of_ne hne]
    exact hph g

/-- A step that changes neither the lists nor what `h` has. -/
theorem Rel.set (hrel : Rel ph x t) (howned : ∀ g, g ≠ h → x'.owned g = x.owned g)
    (hsame : x'.owned h + inFlight p = blocks ph x h)
    (hmm : ∀ fl live, Agree fl live x.mm t → Agree fl live x'.mm t) (hp : PhaseOk p) :
    Rel (Function.update ph h p) x' t := by
  obtain ⟨fl, hagree⟩ := hrel.agree
  refine ⟨⟨fl, hmm fl _ ?_⟩, phaseOk_update hrel.phase hp⟩
  rw [allOwned_step howned hsame]
  exact hagree

theorem clearPage_agree {fl : Nat → List Nat} {live : Multiset (Nat × Nat)} {s : Mm} (pa : Nat)
    (hagree : Agree fl live s t) : Agree fl live (s.clearPage pa) t := by
  obtain ⟨hrun, hi, hi', hst⟩ := hagree
  exact ⟨⟨⟨hrun.region.1, hrun.region.2, hrun.region.3⟩, hrun.inv, hrun.addr⟩, hi, hi',
    ⟨hst.1, hst.2, hst.3, hst.4⟩⟩

/-- What returns early does so in every state, and changes none. -/
theorem early_alone {c : Call} {r : Option Nat} (hearly : early c = some r) (t : Mm) :
    Alone c t r t := by
  cases c with
  | alloc order =>
      obtain ⟨hlt, hr⟩ := Option.ite_none_right_eq_some.mp hearly
      obtain rfl := Option.some.inj hr
      have hcall : t.allocPages order = .ok (0, t) := by
        unfold Mm.allocPages
        exact if_pos hlt
      exact .alloc hcall
  | free B =>
      obtain ⟨hnull, hr⟩ := Option.ite_none_right_eq_some.mp hearly
      obtain rfl := Option.some.inj hr
      have hcall : t.freePages B.1 = .ok t := by
        unfold Mm.freePages
        exact if_pos hnull
      exact .free hcall

/-- **Every step keeps the relation**, and a body does what the call made alone does. -/
theorem allocator_simulates : Simulates (allocator (ι := ι)) Alone Rel where
  early := early_alone
  enter := by
    intro ph x t h c x' hrel hp henter
    cases henter with
    | alloc ho =>
        refine hrel.set (fun _ _ => rfl) ?_ (fun _ _ => id) ho
        rw [blocks, hp]
        rfl
    | @free _ B hB hne =>
        refine hrel.set (fun g hg => Function.update_of_ne hg ..) ?_ (fun _ _ => id) trivial
        rw [blocks, hp]
        show Function.update x.owned h ((x.owned h).erase B) h + {B} = x.owned h + 0
        rw [Function.update_self, add_zero, add_block, Multiset.cons_erase hB]
  acquire := by
    intro ph x t h c hrel hp
    have hok := hrel.phase h
    rw [hp] at hok
    refine hrel.set (fun _ _ => rfl) ?_ (fun _ _ => id) hok
    rw [blocks, hp]
    cases c <;> rfl
  body := by
    intro ph x t h c r x' hrel hp hbody
    obtain ⟨fl, hagree⟩ := hrel.agree
    have hok := hrel.phase h
    rw [hp] at hok
    cases hbody with
    | @alloc _ order r mm hcall =>
        obtain ⟨a, t', fl', halone, rfl, hagree'⟩ := hagree.alloc hok hcall
        refine ⟨t', .alloc halone, ⟨fl', ?_⟩, phaseOk_update hrel.phase trivial⟩
        by_cases ha : a = 0
        · rw [if_pos ha] at hagree' ⊢
          have hsame : allOwned (Function.update ph h (.unlock (.alloc order) none))
              { x with mm := mm } = allOwned ph x := by
            refine allOwned_step (fun _ _ => rfl) ?_
            rw [blocks, hp]
            rfl
          rw [hsame]
          exact hagree'
        · rw [if_neg ha] at hagree' ⊢
          have htake : allOwned (Function.update ph h (.unlock (.alloc order) (some a)))
              { x with mm := mm } = (a, order) ::ₘ allOwned ph x := by
            refine allOwned_take (fun _ _ => rfl) ?_
            rw [blocks, hp]
            show x.owned h + {(a, order)} = (a, order) ::ₘ (x.owned h + 0)
            rw [add_zero, add_block]
          rw [htake]
          exact hagree'
    | @free _ B mm hcall =>
        have hgive : allOwned ph x = B ::ₘ allOwned (Function.update ph h (.unlock (.free B) none))
            { x with mm := mm } := by
          refine allOwned_give (fun _ _ => rfl) ?_
          rw [blocks, hp]
          show x.owned h + {B} = B ::ₘ (x.owned h + 0)
          rw [add_zero, add_block]
        rw [hgive] at hagree
        obtain ⟨t', fl', halone, hagree'⟩ := hagree.free hcall
        exact ⟨t', .free halone, ⟨fl', hagree'⟩, phaseOk_update hrel.phase trivial⟩
  release := by
    intro ph x t h c r i hrel hp hrest
    cases c with
    | free B => cases hrest
    | alloc order =>
        cases r with
        | none => cases hrest
        | some a =>
            obtain rfl := Option.some.inj hrest
            refine hrel.set (fun _ _ => rfl) ?_ (fun _ _ => id) (Nat.two_pow_pos order)
            rw [blocks, hp]
            rfl
  releaseLast := by
    intro ph x t h c r hrel hp hrest
    cases c with
    | free B =>
        refine hrel.set (fun _ _ => rfl) ?_ (fun _ _ => id) trivial
        rw [blocks, hp]
        rfl
    | alloc order =>
        cases r with
        | some a => cases hrest
        | none =>
            refine hrel.set (fun _ _ => rfl) ?_ (fun _ _ => id) trivial
            rw [blocks, hp]
            rfl
  after := by
    intro ph x t h c r i i' x' hrel hp hafter
    have hok := hrel.phase h
    rw [hp] at hok
    cases c with
    | free B => exact hok.elim
    | alloc order =>
        cases r with
        | none => exact hok.elim
        | some a =>
            obtain ⟨hi', rfl⟩ := Prod.mk.inj hafter
            have hlt : i + 1 < 2 ^ order ∧ i' = i + 1 := by
              split at hi'
              · exact ⟨‹_›, (Option.some.inj hi').symm⟩
              · cases hi'
            refine hrel.set (fun _ _ => rfl) ?_ (fun _ _ => clearPage_agree _) ?_
            · rw [blocks, hp]
              rfl
            · rw [hlt.2]
              exact hlt.1
  afterLast := by
    intro ph x t h c r i x' hrel hp hafter
    have hok := hrel.phase h
    rw [hp] at hok
    cases c with
    | free B => exact hok.elim
    | alloc order =>
        cases r with
        | none => exact hok.elim
        | some a =>
            obtain ⟨-, rfl⟩ := Prod.mk.inj hafter
            refine hrel.set (fun g hg => Function.update_of_ne hg ..) ?_
              (fun _ _ => clearPage_agree _) trivial
            rw [blocks, hp]
            show Function.update x.owned h ((a, order) ::ₘ x.owned h) h + 0 = x.owned h + {(a, order)}
            rw [Function.update_self, add_zero, add_block]

/-! ### What is cleared -/

/-- Page `p` is managed, and it is in no free block, in no block that a hart has been given and has
not given back, and in no block of a call in progress on another hart than `h`. -/
structure ClearsOwn (s : State ι Call (Option Nat) Nat (Shared ι)) (h : ι) (p : Nat) : Prop where
  managed : p < s.shared.mm.numPages
  notFree : ∀ o ≤ maxOrder, ∀ b, OnFreeList s.shared.mm o b → ¬Covers p (b, o)
  notOwned : ∀ g, ∀ B ∈ s.shared.owned g, ¬Covers p (s.shared.mm.pageIdx B.1, B.2)
  notInFlight : ∀ g, g ≠ h → ∀ B ∈ inFlight (s.phase g), ¬Covers p (s.shared.mm.pageIdx B.1, B.2)

theorem Rel.clearsOwn {s : State ι Call (Option Nat) Nat (Shared ι)} (hrel : Rel s.phase s.shared t)
    {order a i : Nat} (hp : s.phase h = .after (.alloc order) (some a) i) :
    ClearsOwn s h (s.shared.mm.pageIdx (clearAddr a i)) := by
  obtain ⟨fl, hagree⟩ := hrel.agree
  have hlt : i < 2 ^ order := by
    have hok := hrel.phase h
    rw [hp] at hok
    exact hok
  -- the block that is cleared, and all others
  have hall : allOwned s.phase s.shared =
      (a, order) ::ₘ (s.shared.owned h + othersOwned s.phase s.shared h) := by
    rw [allOwned_eq _ _ h, blocks, hp, ← Multiset.cons_add, ← add_block]
    rfl
  obtain ⟨hrun, hinv, -, -⟩ := hagree
  rw [hall] at hrun hinv
  have haddr := hrun.addr_of_pageIdx (Multiset.mem_cons_self _ _)
  rw [handedOut_cons] at hinv
  have htiling := hinv.tiling
  rw [Buddy.allBlocks_live] at htiling
  have hend : s.shared.mm.pageIdx a + 2 ^ order ≤ s.shared.mm.numPages :=
    htiling.end_le (Multiset.mem_cons_self _ _)
  have hidx : s.shared.mm.pageIdx (clearAddr a i) = s.shared.mm.pageIdx a + i := by
    have hpage := hrun.region.pageIdx_head (i := s.shared.mm.pageIdx a + i) (by omega)
    rw [← hpage]
    congr 1
    simp only at haddr
    unfold clearAddr
    rw [Nat.add_mul, ← Nat.add_assoc, ← haddr]
  rw [hidx]
  have hcov : Covers (s.shared.mm.pageIdx a + i) (s.shared.mm.pageIdx a, order) :=
    ⟨Nat.le_add_right _ _, Nat.add_lt_add_left hlt _⟩
  have hother : ∀ B ∈ s.shared.owned h + othersOwned s.phase s.shared h,
      ¬Covers (s.shared.mm.pageIdx a + i) (s.shared.mm.pageIdx B.1, B.2) := by
    intro B hB
    refine htiling.cons_disjoint (Buddy.mem_allBlocks_of_live ?_) hcov
    exact Multiset.mem_map.mpr ⟨B, hB, rfl⟩
  refine ⟨by omega, ?_, ?_, ?_⟩
  · intro o ho b hfree
    exact htiling.cons_disjoint (Buddy.mem_allBlocks_of_free ho ((onFreeList_iff hinv ho).mp hfree))
      hcov
  · intro g B hB
    refine hother B ?_
    rcases eq_or_ne g h with rfl | hne
    · exact Multiset.mem_add.mpr (Or.inl hB)
    · exact Multiset.mem_add.mpr
        (Or.inr (mem_othersOwned hne (Multiset.mem_add.mpr (Or.inl hB))))
  · intro g hne B hB
    exact hother B (Multiset.mem_add.mpr
      (Or.inr (mem_othersOwned hne (Multiset.mem_add.mpr (Or.inr hB)))))

/-! ### Runs -/

variable {L : Layout} {m : Nat → UInt8} {kp : Nat} {s₀ : Mm}

omit [DecidableEq ι] in
/-- At boot nobody owns anything. -/
theorem rel_start (hinit : buddyAllocatorInit L m = .ok (kp, s₀)) (vaOffset : Nat) :
    Rel (fun _ => .idle) (⟨{ s₀ with vaOffset := vaOffset }, fun _ => 0⟩ : Shared ι)
      { s₀ with vaOffset := vaOffset } := by
  have hrun := (AllocRun.init vaOffset hinit).runInv
  obtain ⟨fl, hi⟩ := hrun.inv
  have hnone : allOwned (fun _ => .idle)
      (⟨{ s₀ with vaOffset := vaOffset }, fun _ => 0⟩ : Shared ι) = 0 :=
    Finset.sum_eq_zero fun _ _ => rfl
  refine ⟨⟨fl, ?_⟩, fun _ => trivial⟩
  rw [hnone]
  exact ⟨hrun, hi, hi, SameStatics.refl _⟩

/-- **Concurrent allocation is serial.**  Whatever the harts do, one of them is between the lock and
the unlock at most; the results are those of the calls made one at a time in the order in which
they took the lock, or for one that returns before the lock, in any state; and what is cleared behind
the unlock belongs to the call that clears it. -/
theorem run_serializable (hinit : buddyAllocatorInit L m = .ok (kp, s₀)) (vaOffset : Nat)
    {s : State ι Call (Option Nat) Nat (Shared ι)}
    (hrun : Run allocator ⟨{ s₀ with vaOffset := vaOffset }, fun _ => 0⟩ s) :
    (∀ g h, (s.phase g).Inside → (s.phase h).Inside → g = h) ∧
    (∃ done rs t, done <+: s.calls ∧ s.calls.length ≤ done.length + 1 ∧
      Serial Alone { s₀ with vaOffset := vaOffset } done rs t ∧
      ∀ n r, s.returned n = some r → rs[n]? = some r) ∧
    (∀ c r, early c = some r → ∀ t, Alone c t r t) ∧
    ∀ h order a i, s.phase h = .after (.alloc order) (some a) i →
      ClearsOwn s h (s.shared.mm.pageIdx (clearAddr a i)) := by
  obtain ⟨done, rs, t, hi⟩ := hrun.spec allocator_simulates (rel_start hinit vaOffset)
  obtain ⟨hfront, hlen⟩ := hi.bodies.isPrefix
  exact ⟨hi.exclusive.unique, ⟨done, rs, t, hfront, hlen, hi.serial, hi.recorded.returned⟩,
    fun c r hearly => early_alone hearly, fun h order a i hp => hi.rel.clearsOwn hp⟩

/-- One hart is clearing the page it has taken, and another waits. -/
theorem run_serializable_smallLayout :
    ∃ kp s₀ s a, buddyAllocatorInit smallLayout (fun _ => 0) = .ok (kp, s₀) ∧
      s.phase true = .after (.alloc 0) (some a) 0 ∧ s.phase false = .want (.alloc 3) ∧
      (∀ g h : Bool, (s.phase g).Inside → (s.phase h).Inside → g = h) ∧
      (∃ done rs t, done <+: s.calls ∧ s.calls.length ≤ done.length + 1 ∧
        Serial Alone { s₀ with vaOffset := vaOffsetConst } done rs t ∧
        ∀ n r, s.returned n = some r → rs[n]? = some r) ∧
      (∀ c r, early c = some r → ∀ t, Alone c t r t) ∧
      ∀ h order a i, s.phase h = .after (.alloc order) (some a) i →
        ClearsOwn s h (s.shared.mm.pageIdx (clearAddr a i)) := by
  obtain ⟨kp, s₀, hinit, hnum⟩ := exists_init_smallLayout
  have hfirst := (AllocRun.init vaOffsetConst hinit).runInv
  obtain ⟨fl, hi⟩ := hfirst.inv
  obtain ⟨h, a, t, fl', hcall, hall⟩ := exists_alloc hfirst.region hi (by rw [hnum]; norm_num)
  have hne : a ≠ 0 := by
    have hbase := hfirst.region.pos
    have haddr := hall.addr
    omega
  have hbody : ∃ mm, ({ s₀ with vaOffset := vaOffsetConst } : Mm).allocLocked 0 = .ok (some a, mm) := by
    obtain ⟨r, mm, hlocked⟩ := exists_allocLockedFrom _ _ hcall
    rcases allocLockedFrom_cases (Nat.zero_le _) _ _ hlocked with
      ⟨-, -, hnull, -⟩ | ⟨a', m, x, rfl, -, -, -, hok⟩
    · exact absurd (Prod.mk.inj (Except.ok.inj (hcall.symm.trans hnull))).1 hne
    · obtain rfl := (Prod.mk.inj (Except.ok.inj (hcall.symm.trans hok))).1
      exact ⟨mm, hlocked⟩
  obtain ⟨mm, hbody⟩ := hbody
  let X : Shared Bool := ⟨{ s₀ with vaOffset := vaOffsetConst }, fun _ => 0⟩
  let Y : Shared Bool := { X with mm := mm }
  have henter : Enter true (.alloc 0) X X := .alloc (Nat.zero_le _)
  have htake : Body (.alloc 0) X (some a) Y := .alloc hbody
  have henter' : Enter false (.alloc 3) Y Y := .alloc (by decide)
  have hwant : Run allocator X _ :=
    Run.start.step (Step.enter (h := true) (Call.alloc 0) X rfl henter)
  have hlock := hwant.step (Step.acquire (h := true) (Call.alloc 0) rfl rfl)
  have hdone := hlock.step (Step.body (h := true) (Call.alloc 0) (some a) Y rfl htake)
  have hspin := hdone.step (Step.enter (h := false) (Call.alloc 3) Y rfl henter')
  have hrun := hspin.step (Step.release (h := true) (Call.alloc 0) (some a) 0 rfl rfl)
  exact ⟨kp, s₀, _, a, hinit, rfl, rfl, run_serializable hinit vaOffsetConst hrun⟩

end Harts

end SystemN
