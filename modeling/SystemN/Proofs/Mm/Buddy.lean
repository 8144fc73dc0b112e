/-
The invariant of the buddy allocator, and what each of its moves does to it.

`Inv` is about the records, the list heads, and two ghosts: `fl`, the heads each
free list visits, and `live`, the blocks handed out.  A third, `hand`, holds the
block a call is working on, which is on no list and belongs to nobody; between
calls it is empty.

The delicate part is `stale`.  `free_pages` decides a merge from the record of one
page, and the head of an absorbed upper half keeps saying that it is free.  What
the invariant keeps of such a record is that it is `Settled`: its whole pair lies
inside one larger block.  Then the other half is not a block, so no merge can ask
about the record.  Nothing here asks heads to be aligned: blocks start out aligned
absolutely and are merged relative to `buddy_base_phys`, and the two need not agree.

Each move of the code (pop, split, hand out, take back, merge, file) has one lemma,
and the loops of the code are inductions over them.
-/
import SystemN.Mm.Mem
import SystemN.Lib.Tiling
import SystemN.Lib.Chain

namespace SystemN.Buddy

open Tiling Chain

variable {n : Nat} {pages : Nat → Page} {lists : Nat → Option Nat}
variable {fl : Nat → List Nat} {live hand : Multiset Block}

/-- Every block: the one in hand, those handed out, those on the free lists. -/
def allBlocks (fl : Nat → List Nat) (live hand : Multiset Block) : Multiset Block :=
  hand + (live + filed maxOrder fl)

/-- The invariant of `mem.c`. -/
structure Inv (n : Nat) (pages : Nat → Page) (lists : Nat → Option Nat) (fl : Nat → List Nat)
    (live hand : Multiset Block) : Prop where
  /-- The blocks partition the pages. -/
  tiling : IsTiling n (allBlocks fl live hand)
  /-- Each list is NULL-terminated and visits `fl`. -/
  chain : ∀ o ≤ maxOrder, IsChain (fun i => (pages i).next) (lists o) (fl o)
  /-- The heads on list `o` say that they are free blocks of order `o`. -/
  freeRec : ∀ o ≤ maxOrder, ∀ h ∈ fl o, (pages h).order = o ∧ (pages h).isFree = true
  /-- The heads handed out say the opposite, and remember their order. -/
  liveRec : ∀ B ∈ live, (pages B.1).order = B.2 ∧ (pages B.1).isFree = false ∧ B.2 ≤ maxOrder
  /-- A record that says "free" is on its list or settled. -/
  stale : ∀ j, (∀ B ∈ hand, j ≠ B.1) → (pages j).isFree = true →
    ((pages j).order ≤ maxOrder ∧ j ∈ fl (pages j).order) ∨
      Settled (allBlocks fl live hand) j (pages j).order

/-! ### Where blocks are -/

theorem mem_allBlocks_of_free {o h : Nat} (ho : o ≤ maxOrder) (hh : h ∈ fl o) :
    (h, o) ∈ allBlocks fl live hand :=
  Multiset.mem_add.mpr (Or.inr (Multiset.mem_add.mpr (Or.inr (mem_filed.mpr ⟨ho, hh⟩))))

theorem mem_allBlocks_of_live {B : Block} (hB : B ∈ live) : B ∈ allBlocks fl live hand :=
  Multiset.mem_add.mpr (Or.inr (Multiset.mem_add.mpr (Or.inl hB)))

theorem mem_allBlocks_of_hand {B : Block} (hB : B ∈ hand) : B ∈ allBlocks fl live hand :=
  Multiset.mem_add.mpr (Or.inl hB)

theorem allBlocks_hand (B : Block) : allBlocks fl live {B} = B ::ₘ allBlocks fl live 0 := by
  simp [allBlocks]

theorem allBlocks_live (B : Block) : allBlocks fl (B ::ₘ live) 0 = B ::ₘ allBlocks fl live 0 := by
  simp [allBlocks]

theorem allBlocks_push {o : Nat} (ho : o ≤ maxOrder) (h : Nat) :
    allBlocks (Function.update fl o (h :: fl o)) live hand
      = (h, o) ::ₘ allBlocks fl live hand := by
  rw [allBlocks, filed_cons ho, Multiset.add_cons, Multiset.add_cons]
  rfl

theorem allBlocks_take {o h : Nat} (ho : o ≤ maxOrder) (hh : h ∈ fl o) :
    allBlocks fl live hand
      = (h, o) ::ₘ allBlocks (Function.update fl o ((fl o).erase h)) live hand := by
  rw [allBlocks, filed_erase ho hh, Multiset.add_cons, Multiset.add_cons]
  rfl

namespace Inv

theorem nodup (hi : Inv n pages lists fl live hand) {o : Nat} (ho : o ≤ maxOrder) :
    (fl o).Nodup := by
  rw [List.nodup_iff_count_le_one]
  intro h
  by_contra hc
  have hmem : h ∈ fl o := List.count_pos_iff.mp (by omega)
  have hmem' : h ∈ (fl o).erase h := by
    rw [← List.count_pos_iff, List.count_erase_self]
    omega
  -- a head listed twice would be two blocks with one head
  have ht := hi.tiling
  rw [allBlocks_take ho hmem] at ht
  refine ht.not_mem_of_cons (mem_allBlocks_of_free ho ?_)
  rw [Function.update_self]
  exact hmem'

theorem eq_of_mem (hi : Inv n pages lists fl live hand) {o o' h : Nat} (ho : o ≤ maxOrder)
    (ho' : o' ≤ maxOrder) (hh : h ∈ fl o) (hh' : h ∈ fl o') : o = o' := by
  have := hi.tiling.eq_of_head (mem_allBlocks_of_free ho hh) (mem_allBlocks_of_free ho' hh') rfl
  simpa using this

theorem free_lt (hi : Inv n pages lists fl live hand) {o h : Nat} (ho : o ≤ maxOrder)
    (hh : h ∈ fl o) : h < n :=
  hi.tiling.head_lt (mem_allBlocks_of_free ho hh)

/-- A free list is no longer than the number of pages. -/
theorem length_le (hi : Inv n pages lists fl live hand) {o : Nat} (ho : o ≤ maxOrder) :
    (fl o).length ≤ n := by
  have hsub : fl o ⊆ List.range n := fun h hh => List.mem_range.mpr (hi.free_lt ho hh)
  have := (List.subperm_of_subset (hi.nodup ho) hsub).length_le
  rwa [List.length_range] at this

/-- The block in hand is on no list. -/
theorem hand_notMem {B : Block} (hi : Inv n pages lists fl live {B}) {o : Nat}
    (ho : o ≤ maxOrder) : B.1 ∉ fl o := by
  intro hmem
  have ht := hi.tiling
  rw [allBlocks_hand] at ht
  exact ht.cons_disjoint (mem_allBlocks_of_free ho hmem) (covers_head B) (covers_head (B.1, o))

/-- The block in hand is not handed out. -/
theorem hand_ne_live {B : Block} (hi : Inv n pages lists fl live {B}) {C : Block}
    (hC : C ∈ live) : C.1 ≠ B.1 := by
  intro heq
  have ht := hi.tiling
  rw [allBlocks_hand] at ht
  exact ht.cons_disjoint (mem_allBlocks_of_live hC) (covers_head B) (heq ▸ covers_head C)

/-- No free head is handed out. -/
theorem free_ne_live (hi : Inv n pages lists fl live hand) {o h : Nat} (ho : o ≤ maxOrder)
    (hh : h ∈ fl o) {C : Block} (hC : C ∈ live) : C.1 ≠ h := by
  intro heq
  have h1 := (hi.liveRec C hC).2.1
  have h2 := (hi.freeRec o ho h hh).2
  rw [heq, h2] at h1
  exact Bool.noConfusion h1

/-! ### Filing -/

/-- Filing block `b` of order `k` with a fresh record, when it is on no list and nobody's. -/
theorem push_chain (hi : Inv n pages lists fl live hand) {b k : Nat}
    (hnot : ∀ o ≤ maxOrder, b ∉ fl o) :
    ∀ o ≤ maxOrder, IsChain
      (fun i => (Function.update pages b ⟨k, true, lists k⟩ i).next)
      (Function.update lists k (some b) o) (Function.update fl k (b :: fl k) o) := by
  intro o ho
  have hnext : (fun i => (Function.update pages b ⟨k, true, lists k⟩ i).next)
      = Function.update (fun i => (pages i).next) b (lists k) := by
    funext i
    by_cases hib : i = b
    · rw [hib, Function.update_self, Function.update_self]
    · rw [Function.update_of_ne hib, Function.update_of_ne hib]
  rw [hnext]
  by_cases hok : o = k
  · subst hok
    rw [Function.update_self, Function.update_self]
    exact (hi.chain o ho).push (hnot o ho)
  · rw [Function.update_of_ne hok, Function.update_of_ne hok]
    exact (hi.chain o ho).update_of_notMem (hnot o ho)

theorem push_freeRec (hi : Inv n pages lists fl live hand) {b k : Nat}
    (hnot : ∀ o ≤ maxOrder, b ∉ fl o) :
    ∀ o ≤ maxOrder, ∀ x ∈ Function.update fl k (b :: fl k) o,
      (Function.update pages b ⟨k, true, lists k⟩ x).order = o ∧
        (Function.update pages b ⟨k, true, lists k⟩ x).isFree = true := by
  intro o ho x hx
  by_cases hok : o = k
  · subst hok
    rw [Function.update_self] at hx
    rcases List.mem_cons.mp hx with rfl | hxo
    · rw [Function.update_self]
      exact ⟨rfl, rfl⟩
    · have hxb : x ≠ b := by rintro rfl; exact hnot o ho hxo
      rw [Function.update_of_ne hxb]
      exact hi.freeRec o ho x hxo
  · rw [Function.update_of_ne hok] at hx
    have hxb : x ≠ b := by rintro rfl; exact hnot o ho hx
    rw [Function.update_of_ne hxb]
    exact hi.freeRec o ho x hx

/-! ### The move of `buddy_allocator_init` -/

theorem empty (hlists : ∀ o, lists o = none) (hpages : ∀ i, (pages i).isFree = false) :
    Inv 0 pages lists (fun _ => []) 0 0 where
  tiling := by
    have : allBlocks (fun _ => []) 0 0 = 0 := by simp [allBlocks, filed]
    rw [this]
    exact isTiling_zero
  chain := fun o _ => hlists o
  freeRec := fun o _ h hh => by simp at hh
  liveRec := fun B hB => by simp at hB
  stale := fun j _ hfree => by rw [hpages j] at hfree; exact Bool.noConfusion hfree

/-- Filing a block at the end of the pages seen so far. -/
theorem extend (hi : Inv n pages lists fl 0 0) {o : Nat} (ho : o ≤ maxOrder) :
    Inv (n + 2 ^ o) (Function.update pages n ⟨o, true, lists o⟩)
      (Function.update lists o (some n)) (Function.update fl o (n :: fl o)) 0 0 := by
  have hnot : ∀ o ≤ maxOrder, n ∉ fl o := fun o ho hmem => Nat.lt_irrefl n (hi.free_lt ho hmem)
  have hall : allBlocks (Function.update fl o (n :: fl o)) 0 0 = (n, o) ::ₘ allBlocks fl 0 0 :=
    allBlocks_push ho n
  refine ⟨hall ▸ hi.tiling.extend o, hi.push_chain hnot, hi.push_freeRec hnot, ?_, ?_⟩
  · intro B hB
    simp at hB
  · intro j _ hfree
    by_cases hjn : j = n
    · subst hjn
      rw [Function.update_self]
      exact Or.inl ⟨ho, by simp⟩
    · rw [Function.update_of_ne hjn] at hfree ⊢
      rw [hall]
      rcases hi.stale j (by simp) hfree with ⟨hle, hfl⟩ | hset
      · refine Or.inl ⟨hle, ?_⟩
        by_cases hoo : (pages j).order = o
        · rw [hoo, Function.update_self]
          exact List.mem_cons_of_mem _ (hoo ▸ hfl)
        · rw [Function.update_of_ne hoo]
          exact hfl
      · exact Or.inr (hset.mono fun B hB _ => Multiset.mem_cons_of_mem hB)

/-! ### The moves of `alloc_pages` -/

/-- Popping the first block of list `o`, whose record is overwritten on the way. -/
theorem pop (hi : Inv n pages lists fl live 0) {o h : Nat} (order : Nat) (ho : o ≤ maxOrder)
    (hh : lists o = some h) :
    ∃ t, fl o = h :: t ∧
      Inv n (Function.update pages h ⟨order, false, (pages h).next⟩)
        (Function.update lists o (pages h).next) (Function.update fl o t) live {(h, o)} := by
  have hchain := hi.chain o ho
  rw [hh] at hchain
  obtain ⟨t, ht⟩ : ∃ t, fl o = h :: t := by
    cases hfl : fl o with
    | nil => rw [hfl] at hchain; simp at hchain
    | cons x t => rw [hfl] at hchain; exact ⟨t, by rw [Option.some.inj hchain.1]⟩
  rw [ht] at hchain
  have hmem : h ∈ fl o := by simp [ht]
  have hnd := hi.nodup ho
  rw [ht] at hnd
  have herase : (fl o).erase h = t := by rw [ht, List.erase_cons_head]
  have hall : allBlocks (Function.update fl o t) live {(h, o)} = allBlocks fl live 0 := by
    rw [allBlocks_hand, allBlocks_take ho hmem, herase]
  have hne : ∀ o' ≤ maxOrder, ∀ x ∈ Function.update fl o t o', x ≠ h ∧ x ∈ fl o' := by
    intro o' ho' x hx
    by_cases hoo : o' = o
    · subst hoo
      rw [Function.update_self] at hx
      exact ⟨fun hc => (List.nodup_cons.mp hnd).1 (hc ▸ hx), by simp [ht, hx]⟩
    · rw [Function.update_of_ne hoo] at hx
      exact ⟨fun hc => hoo (hi.eq_of_mem ho' ho (hc ▸ hx) hmem), hx⟩
  refine ⟨t, ht, ⟨by rw [hall]; exact hi.tiling, ?_, ?_, ?_, ?_⟩⟩
  · intro o' ho'
    have hnext : (fun i => (Function.update pages h ⟨order, false, (pages h).next⟩ i).next)
        = fun i => (pages i).next := by
      funext i
      by_cases hih : i = h
      · rw [hih, Function.update_self]
      · rw [Function.update_of_ne hih]
    rw [hnext]
    by_cases hoo : o' = o
    · subst hoo
      rw [Function.update_self, Function.update_self]
      exact hchain.2
    · rw [Function.update_of_ne hoo, Function.update_of_ne hoo]
      exact hi.chain o' ho'
  · intro o' ho' x hx
    obtain ⟨hxh, hxfl⟩ := hne o' ho' x hx
    rw [Function.update_of_ne hxh]
    exact hi.freeRec o' ho' x hxfl
  · intro B hB
    rw [Function.update_of_ne (hi.free_ne_live ho hmem hB)]
    exact hi.liveRec B hB
  · intro j hj hfree
    have hjh : j ≠ h := hj (h, o) (by simp)
    rw [Function.update_of_ne hjh] at hfree ⊢
    rw [hall]
    rcases hi.stale j (by simp) hfree with ⟨hle, hfl⟩ | hset
    · refine Or.inl ⟨hle, ?_⟩
      by_cases hoo : (pages j).order = o
      · rw [hoo, Function.update_self]
        rw [hoo, ht] at hfl
        exact (List.mem_cons.mp hfl).resolve_left hjh
      · rw [Function.update_of_ne hoo]
        exact hfl
    · exact Or.inr hset

/-- Halving the block in hand: the upper half is filed, the lower one stays in hand. -/
theorem split {h k : Nat} (hi : Inv n pages lists fl live {(h, k + 1)}) (hk : k ≤ maxOrder) :
    Inv n (Function.update pages (h + 2 ^ k) ⟨k, true, lists k⟩)
      (Function.update lists k (some (h + 2 ^ k)))
      (Function.update fl k ((h + 2 ^ k) :: fl k)) live {(h, k)} := by
  have hpos := Nat.two_pow_pos k
  have hpow : 2 ^ (k + 1) = 2 ^ k + 2 ^ k := by ring
  have ht := hi.tiling
  rw [allBlocks_hand] at ht
  -- the new head lies in the block in hand, hence heads no other block
  have hcov : Covers (h + 2 ^ k) (h, k + 1) := ⟨by omega, by simp only; omega⟩
  have hnot : ∀ o ≤ maxOrder, h + 2 ^ k ∉ fl o := fun o ho hmem =>
    ht.cons_disjoint (mem_allBlocks_of_free ho hmem) hcov (covers_head (h + 2 ^ k, o))
  have hlive : ∀ B ∈ live, B.1 ≠ h + 2 ^ k := fun B hB heq =>
    ht.cons_disjoint (mem_allBlocks_of_live hB) hcov (heq ▸ covers_head B)
  have hall : allBlocks (Function.update fl k ((h + 2 ^ k) :: fl k)) live {(h, k)}
      = (h, k) ::ₘ (h + 2 ^ k, k) ::ₘ allBlocks fl live 0 := by
    rw [allBlocks_hand, allBlocks_push hk]
  refine ⟨?_, hi.push_chain hnot, hi.push_freeRec hnot, ?_, ?_⟩
  · rw [hall]
    exact (split_iff h k).mp ht
  · intro B hB
    rw [Function.update_of_ne (hlive B hB)]
    exact hi.liveRec B hB
  · intro j hj hfree
    by_cases hjb : j = h + 2 ^ k
    · subst hjb
      rw [Function.update_self]
      exact Or.inl ⟨hk, by simp⟩
    · rw [Function.update_of_ne hjb] at hfree ⊢
      have hjh : ∀ B ∈ ({(h, k + 1)} : Multiset Block), j ≠ B.1 := by
        intro B hB
        rw [Multiset.mem_singleton.mp hB]
        exact hj (h, k) (by simp)
      rcases hi.stale j hjh hfree with ⟨hle, hfl⟩ | hset
      · refine Or.inl ⟨hle, ?_⟩
        by_cases hok : (pages j).order = k
        · rw [hok, Function.update_self]
          exact List.mem_cons_of_mem _ (hok ▸ hfl)
        · rw [Function.update_of_ne hok]
          exact hfl
      · rw [allBlocks_hand] at hset
        rw [hall]
        exact Or.inr (hset.split hjb)

/-- Handing out the block in hand. -/
theorem handOut {h k : Nat} (hi : Inv n pages lists fl live {(h, k)}) (hk : k ≤ maxOrder)
    (horder : (pages h).order = k) (hfree : (pages h).isFree = false) :
    Inv n pages lists fl ((h, k) ::ₘ live) 0 := by
  have hall : allBlocks fl ((h, k) ::ₘ live) 0 = allBlocks fl live {(h, k)} := by
    rw [allBlocks_live, allBlocks_hand]
  refine ⟨hall ▸ hi.tiling, hi.chain, hi.freeRec, ?_, ?_⟩
  · intro B hB
    rcases Multiset.mem_cons.mp hB with rfl | hB
    · exact ⟨horder, hfree, hk⟩
    · exact hi.liveRec B hB
  · intro j _ hjfree
    rw [hall]
    refine hi.stale j ?_ hjfree
    intro B hB heq
    rw [Multiset.mem_singleton.mp hB] at heq
    rw [heq, hfree] at hjfree
    exact Bool.noConfusion hjfree

/-! ### The moves of `free_pages` -/

/-- Taking back a block that was handed out; its record now says "free". -/
theorem takeBack {B : Block} (hi : Inv n pages lists fl (B ::ₘ live) 0) :
    Inv n (Function.update pages B.1 { pages B.1 with isFree := true }) lists fl live {B} := by
  have hall : allBlocks fl live {B} = allBlocks fl (B ::ₘ live) 0 := by
    rw [allBlocks_live, allBlocks_hand]
  have hne : ∀ o ≤ maxOrder, ∀ x ∈ fl o, x ≠ B.1 := fun o ho x hx =>
    (hi.free_ne_live ho hx (Multiset.mem_cons_self B live)).symm
  have hnext : (fun i => (Function.update pages B.1 { pages B.1 with isFree := true } i).next)
      = fun i => (pages i).next := by
    funext i
    by_cases hiB : i = B.1
    · rw [hiB, Function.update_self]
    · rw [Function.update_of_ne hiB]
  refine ⟨hall ▸ hi.tiling, ?_, ?_, ?_, ?_⟩
  · rw [hnext]
    exact hi.chain
  · intro o ho x hx
    rw [Function.update_of_ne (hne o ho x hx)]
    exact hi.freeRec o ho x hx
  · intro C hC
    have ht := hi.tiling
    rw [allBlocks_live] at ht
    have hCB : C.1 ≠ B.1 := fun heq =>
      ht.cons_disjoint (mem_allBlocks_of_live hC) (covers_head B) (heq ▸ covers_head C)
    rw [Function.update_of_ne hCB]
    exact hi.liveRec C (Multiset.mem_cons_of_mem hC)
  · intro j hj hfree
    rw [Function.update_of_ne (hj B (by simp))] at hfree ⊢
    rw [hall]
    exact hi.stale j (by simp) hfree

/-- **A record consulted by a merge is never stale.**  If the buddy of the block in hand says
that it is free at that order, it is on the list. -/
theorem buddy_mem {c k : Nat} (hi : Inv n pages lists fl live {(c, k)})
    (hfree : (pages (c ^^^ 2 ^ k)).isFree = true) (horder : (pages (c ^^^ 2 ^ k)).order = k) :
    c ^^^ 2 ^ k ∈ fl k := by
  have hhand : ∀ B ∈ ({(c, k)} : Multiset Block), c ^^^ 2 ^ k ≠ B.1 := by
    intro B hB
    rw [Multiset.mem_singleton.mp hB]
    exact xor_ne c k
  rcases hi.stale _ hhand hfree with ⟨-, hfl⟩ | hset
  · rwa [horder] at hfl
  · rw [horder] at hset
    -- the buddy of the buddy is the block in hand itself
    have hself : (c ^^^ 2 ^ k) ^^^ 2 ^ k = c := by
      rw [Nat.xor_assoc, Nat.xor_self, Nat.xor_zero]
    have hnot := hi.tiling.not_mem_of_settled hset
    rw [hself] at hnot
    exact absurd (mem_allBlocks_of_hand (by simp)) hnot

/-- Joining the block in hand with its buddy.  `pages'` and `lists'` are what unlinking the
buddy and clearing its flag leave. -/
theorem merge {c k : Nat} (hi : Inv n pages lists fl live {(c, k)}) (pages' : Nat → Page)
    (lists' : Nat → Option Nat) (hk : k ≤ maxOrder)
    (hb : c ^^^ 2 ^ k ∈ fl k)
    (hc : (pages c).isFree = true →
      (pages c).order = k ∨ ((pages c).order < k ∧ pairHead c (pages c).order = c))
    (hrec : ∀ j, (pages' j).order = (pages j).order ∧
      (pages' j).isFree = if j = c ^^^ 2 ^ k then false else (pages j).isFree)
    (hchain : ∀ o ≤ maxOrder, IsChain (fun i => (pages' i).next) (lists' o)
      (Function.update fl k ((fl k).erase (c ^^^ 2 ^ k)) o)) :
    Inv n pages' lists' (Function.update fl k ((fl k).erase (c ^^^ 2 ^ k))) live
      {(pairHead c k, k + 1)} := by
  set b := c ^^^ 2 ^ k with hbdef
  set fl' := Function.update fl k ((fl k).erase b) with hfl'
  have hpos := Nat.two_pow_pos k
  have hflmem : ∀ o ≤ maxOrder, ∀ x, x ∈ fl' o ↔ x ≠ b ∧ x ∈ fl o := by
    intro o ho x
    by_cases hok : o = k
    · subst hok
      rw [hfl', Function.update_self]
      exact (hi.nodup ho).mem_erase_iff
    · rw [hfl', Function.update_of_ne hok]
      exact ⟨fun hx => ⟨fun hxb => hok (hi.eq_of_mem ho hk hx (hxb ▸ hb)), hx⟩, And.right⟩
  have hall : allBlocks fl live {(c, k)} = (c, k) ::ₘ (b, k) ::ₘ allBlocks fl' live 0 := by
    rw [allBlocks_hand, allBlocks_take hk hb]
  -- the two halves in order
  have hhalves : (c, k) ::ₘ (b, k) ::ₘ allBlocks fl' live 0
      = (pairHead c k, k) ::ₘ (pairHead c k + 2 ^ k, k) ::ₘ allBlocks fl' live 0 := by
    rcases pair_cases c k with ⟨h1, h2⟩ | ⟨h1, h2⟩
    · rw [h1, ← h2]
    · rw [h1, show pairHead c k = b by omega, Multiset.cons_swap]
  have hnewall : allBlocks fl' live {(pairHead c k, k + 1)}
      = (pairHead c k, k + 1) ::ₘ allBlocks fl' live 0 := allBlocks_hand _
  refine ⟨?_, hchain, ?_, ?_, ?_⟩
  · rw [hnewall, split_iff, ← hhalves, ← hall]
    exact hi.tiling
  · intro o ho x hx
    obtain ⟨hxb, hxfl⟩ := (hflmem o ho x).mp hx
    rw [(hrec x).1, (hrec x).2, if_neg hxb]
    exact hi.freeRec o ho x hxfl
  · intro B hB
    have hBb : B.1 ≠ b := hi.free_ne_live hk hb hB
    rw [(hrec B.1).1, (hrec B.1).2, if_neg hBb]
    exact hi.liveRec B hB
  · intro j hj hfree
    rw [(hrec j).2] at hfree
    have hjb : j ≠ b := by
      rintro rfl
      rw [if_pos rfl] at hfree
      exact Bool.noConfusion hfree
    rw [if_neg hjb] at hfree
    rw [(hrec j).1, hnewall]
    have hjp : j ≠ pairHead c k := hj (pairHead c k, k + 1) (by simp)
    by_cases hjc : j = c
    · -- the head just absorbed: its pair is the union, or lies inside its own half
      subst hjc
      refine Or.inr ?_
      rcases hc hfree with horder | ⟨hlt, hlow⟩
      · rw [horder]
        exact settled_of_merged fun h => hjp h.symm
      · have hup : pairHead j k + 2 ^ k = j := by
          rcases pair_cases j k with ⟨h1, -⟩ | ⟨h1, -⟩
          · exact absurd h1.symm hjp
          · exact h1
        obtain ⟨d, hd⟩ := Nat.exists_eq_add_of_lt hlt
        have hpowk : 2 ^ k = 2 ^ d * 2 ^ ((pages j).order + 1) := by
          rw [← Nat.pow_add]
          congr 1
          omega
        refine ⟨(pairHead j k, k + 1), by simp, by simp only; omega, hjp, 2 ^ d, ?_, ?_⟩
        · rw [hlow, ← hpowk]
          exact hup.symm
        · rw [← hpowk]
          exact Nat.pow_lt_pow_right (by omega) (Nat.lt_succ_self k)
    · rcases hi.stale j (by simpa using hjc) hfree with ⟨hle, hfl⟩ | hset
      · exact Or.inl ⟨hle, (hflmem _ hle j).mpr ⟨hjb, hfl⟩⟩
      · rw [hall, hhalves] at hset
        exact Or.inr hset.merge

/-- Filing the block in hand. -/
theorem file {c k : Nat} (hi : Inv n pages lists fl live {(c, k)}) (hk : k ≤ maxOrder) :
    Inv n (Function.update pages c ⟨k, true, lists k⟩) (Function.update lists k (some c))
      (Function.update fl k (c :: fl k)) live 0 := by
  have hnot : ∀ o ≤ maxOrder, c ∉ fl o := fun o ho => hi.hand_notMem ho
  have hall : allBlocks (Function.update fl k (c :: fl k)) live 0 = allBlocks fl live {(c, k)} := by
    rw [allBlocks_push hk, allBlocks_hand]
  refine ⟨hall ▸ hi.tiling, hi.push_chain hnot, hi.push_freeRec hnot, ?_, ?_⟩
  · intro B hB
    rw [Function.update_of_ne (hi.hand_ne_live hB)]
    exact hi.liveRec B hB
  · intro j _ hfree
    by_cases hjc : j = c
    · subst hjc
      rw [Function.update_self]
      exact Or.inl ⟨hk, by simp⟩
    · rw [Function.update_of_ne hjc] at hfree ⊢
      rw [hall]
      rcases hi.stale j (by simpa using hjc) hfree with ⟨hle, hfl⟩ | hset
      · refine Or.inl ⟨hle, ?_⟩
        by_cases hok : (pages j).order = k
        · rw [hok, Function.update_self]
          exact List.mem_cons_of_mem _ (hok ▸ hfl)
        · rw [Function.update_of_ne hok]
          exact hfl
      · exact Or.inr hset

end Inv

/-! ### Runs of moves -/

/-- The free lists after the block at `h` has been split from order `order + d` down to `order`. -/
def splitLists (h order : Nat) : Nat → (Nat → List Nat) → Nat → List Nat
  | 0, fl => fl
  | d + 1, fl =>
      splitLists h order d
        (Function.update fl (order + d) ((h + 2 ^ (order + d)) :: fl (order + d)))

theorem mem_splitLists {h order d o x : Nat} :
    x ∈ splitLists h order d fl o ↔ (order ≤ o ∧ o < order + d ∧ x = h + 2 ^ o) ∨ x ∈ fl o := by
  induction d generalizing fl with
  | zero =>
      refine ⟨Or.inr, fun hx => hx.resolve_left ?_⟩
      rintro ⟨h1, h2, -⟩
      omega
  | succ d ih =>
      rw [splitLists, ih]
      by_cases ho : o = order + d
      · subst ho
        rw [Function.update_self, List.mem_cons]
        constructor
        · rintro (⟨-, hlt, -⟩ | hx | hx)
          · omega
          · exact Or.inl ⟨by omega, by omega, hx⟩
          · exact Or.inr hx
        · rintro (⟨-, -, hx⟩ | hx)
          · exact Or.inr (Or.inl hx)
          · exact Or.inr (Or.inr hx)
      · rw [Function.update_of_ne ho]
        constructor
        · rintro (⟨h1, h2, h3⟩ | hx)
          · exact Or.inl ⟨h1, by omega, h3⟩
          · exact Or.inr hx
        · rintro (⟨h1, h2, h3⟩ | hx)
          · exact Or.inl ⟨h1, by omega, h3⟩
          · exact Or.inr hx

/-- Merging the block in hand with buddies on the lists, any number of times. -/
inductive Merges : (Nat → List Nat) → Block → (Nat → List Nat) → Block → Prop
  | refl (fl : Nat → List Nat) (B : Block) : Merges fl B fl B
  | step {fl fl' : Nat → List Nat} {B : Block} {c k : Nat} (hk : k < maxOrder)
      (hb : c ^^^ 2 ^ k ∈ fl k)
      (h : Merges (Function.update fl k ((fl k).erase (c ^^^ 2 ^ k))) (pairHead c k, k + 1) fl' B) :
      Merges fl (c, k) fl' B

end SystemN.Buddy
