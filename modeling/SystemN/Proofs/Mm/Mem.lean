/-
What the functions of `mem.c` do to the allocator's invariant.

Each function has one specification: from a state that satisfies the invariant it
comes back (or halts, where the code can) in a state that satisfies it again, and
the rest of the statics is as it was.  The loops are inductions over the moves of
`Proofs/Mm/Buddy.lean`; callers cite the specification and never look inside.
-/
import SystemN.Proofs.Mm.Buddy

namespace SystemN

open Tiling Chain

/-! ### `memset` -/

theorem memsetLoop_spec (dst : Nat) (c : UInt8) (n : Nat) (hn : n < 2 ^ 32) :
    ∀ (fuel i : Nat) (m : Nat → UInt8), i ≤ n → n - i < fuel →
      memsetLoop dst c n fuel i m
        = .ok fun a => if dst + i ≤ a ∧ a < dst + n then c else m a := by
  intro fuel
  induction fuel with
  | zero => intro i m _ hlt; omega
  | succ fuel ih =>
      intro i m hi hlt
      rw [memsetLoop]
      by_cases hin : i < n
      · rw [if_pos hin, Nat.mod_eq_of_lt (by omega), ih (i + 1) _ hin (by omega)]
        congr 1
        funext a
        by_cases ha : a = dst + i
        · subst ha
          rw [if_neg (by omega), if_pos (by omega), Function.update_self]
        · rw [Function.update_of_ne ha]
          by_cases hr : dst + (i + 1) ≤ a ∧ a < dst + n
          · rw [if_pos hr, if_pos (by omega)]
          · rw [if_neg hr, if_neg (by omega)]
      · rw [if_neg hin]
        congr 1
        funext a
        rw [if_neg (by omega)]

/-- With a length that fits a `uint`, exactly the `n` bytes from `dst` are set. -/
theorem memset_eq (m : Nat → UInt8) (dst : Nat) (c : UInt8) {n : Nat} (hn : n < 2 ^ 32) :
    memset m dst c n = .ok fun a => if dst ≤ a ∧ a < dst + n then c else m a :=
  memsetLoop_spec dst c n hn _ 0 m (Nat.zero_le _) (by omega)

theorem memsetLoop_diverge (dst : Nat) (c : UInt8) (n : Nat) (hn : 2 ^ 32 ≤ n) :
    ∀ (fuel i : Nat) (m : Nat → UInt8), i < 2 ^ 32 →
      memsetLoop dst c n fuel i m = .error .diverge := by
  intro fuel
  induction fuel with
  | zero => intro i m _; rfl
  | succ fuel ih =>
      intro i m hi
      rw [memsetLoop, if_pos (Nat.lt_of_lt_of_le hi hn)]
      exact ih _ _ (Nat.mod_lt _ (by norm_num))

/-- With any other length the `uint` counter never reaches it. -/
theorem memset_diverge (m : Nat → UInt8) (dst : Nat) (c : UInt8) {n : Nat} (hn : 2 ^ 32 ≤ n) :
    memset m dst c n = .error .diverge :=
  memsetLoop_diverge dst c n hn _ 0 m (by norm_num)

/-- `memset` ends after finitely many rounds, and has set the `n` bytes from `dst` and no other. -/
def MemsetExact (m : Nat → UInt8) (dst : Nat) (c : UInt8) (n : Nat) : Prop :=
  ∃ rounds m', memsetLoop dst c n rounds 0 m = .ok m' ∧
    ∀ a, m' a = if dst ≤ a ∧ a < dst + n then c else m a

/-- **`memset` is exact** if and only if its `uint` counter can come to `n`. -/
theorem memset_exact_iff (m : Nat → UInt8) (dst : Nat) (c : UInt8) (n : Nat) :
    MemsetExact m dst c n ↔ n < 2 ^ 32 := by
  constructor
  · rintro ⟨rounds, m', hloop, -⟩
    by_contra hn
    rw [memsetLoop_diverge dst c n (Nat.le_of_not_lt hn) rounds 0 m (by norm_num)] at hloop
    cases hloop
  · intro hn
    exact ⟨2 ^ 32, _, memset_eq m dst c hn, fun _ => rfl⟩

/-- 4 GiB are never set, however long the loop runs. -/
theorem memset_four_gib :
    (∀ rounds, memsetLoop 0x80000000 0 (2 ^ 32) rounds 0 (fun _ => 0xff) = .error .diverge) ∧
      ¬MemsetExact (fun _ => 0xff) 0x80000000 0 (2 ^ 32) := by
  have hnever : ∀ rounds,
      memsetLoop 0x80000000 0 (2 ^ 32) rounds 0 (fun _ => 0xff) = .error .diverge := fun rounds =>
    memsetLoop_diverge 0x80000000 0 (2 ^ 32) (Nat.le_refl _) rounds 0 _ (by norm_num)
  refine ⟨hnever, ?_⟩
  rintro ⟨rounds, m', hloop, -⟩
  rw [hnever] at hloop
  cases hloop

namespace Mm

/-- The memory with the `n` bytes from `dst` cleared. -/
def zeroed (m : Nat → UInt8) (dst n : Nat) : Nat → UInt8 :=
  fun a => if dst ≤ a ∧ a < dst + n then 0 else m a

/-! ### What stays -/

/-- The statics that no call after `buddy_allocator_init` writes. -/
structure SameStatics (s s' : Mm) : Prop where
  vaOffset : s'.vaOffset = s.vaOffset
  base : s'.buddyBasePhys = s.buddyBasePhys
  numPages : s'.numPages = s.numPages
  pageArray : s'.pageArray = s.pageArray

namespace SameStatics

theorem refl (s : Mm) : SameStatics s s := ⟨rfl, rfl, rfl, rfl⟩

theorem symm {s s' : Mm} (h : SameStatics s s') : SameStatics s' s :=
  ⟨h.vaOffset.symm, h.base.symm, h.numPages.symm, h.pageArray.symm⟩

theorem trans {s s' s'' : Mm} (h : SameStatics s s') (h' : SameStatics s' s'') :
    SameStatics s s'' :=
  ⟨h'.vaOffset.trans h.vaOffset, h'.base.trans h.base, h'.numPages.trans h.numPages,
    h'.pageArray.trans h.pageArray⟩

theorem virtToPhys {s s' : Mm} (h : SameStatics s s') (va : Nat) :
    s'.virtToPhys va = s.virtToPhys va := by
  rw [Mm.virtToPhys, Mm.virtToPhys, h.vaOffset]

theorem physToVirt {s s' : Mm} (h : SameStatics s s') (pa : Nat) :
    s'.physToVirt pa = s.physToVirt pa := by
  rw [Mm.physToVirt, Mm.physToVirt, h.vaOffset]

end SameStatics

/-- The allocator's invariant, of a state of `mem.c`. -/
abbrev BuddyInv (s : Mm) (fl : Nat → List Nat) (live hand : Multiset Block) : Prop :=
  Buddy.Inv s.numPages s.pages s.freeLists fl live hand

/-- The managed pages lie below `USER_END`, from a page boundary above zero. -/
structure Region (s : Mm) : Prop where
  pos : 0 < s.buddyBasePhys
  aligned : s.buddyBasePhys % pageSize = 0
  top : s.buddyBasePhys + s.numPages * pageSize ≤ userEnd

theorem Region.congr {s s' : Mm} (h : Region s) (hs : SameStatics s s') : Region s' :=
  ⟨hs.base ▸ h.pos, hs.base ▸ h.aligned, by rw [hs.base, hs.numPages]; exact h.top⟩

/-! ### Addresses and indices -/

/-- The index `get_page_struct` computes. -/
def pageIdx (s : Mm) (pa : Nat) : Nat := sub64 pa s.buddyBasePhys / pageSize

theorem getPageStruct_eq (s : Mm) (pa : Nat) :
    s.getPageStruct pa = if s.numPages ≤ s.pageIdx pa then .error .halt else .ok (s.pageIdx pa) :=
  rfl

theorem getPageStruct_ok {s : Mm} {pa : Nat} (h : s.pageIdx pa < s.numPages) :
    s.getPageStruct pa = .ok (s.pageIdx pa) := by
  rw [getPageStruct_eq, if_neg (Nat.not_le.mpr h)]

theorem getPageStruct_halt {s : Mm} {pa : Nat} (h : s.numPages ≤ s.pageIdx pa) :
    s.getPageStruct pa = .error .halt := by
  rw [getPageStruct_eq, if_pos h]

theorem pageIdx_congr {s s' : Mm} (h : SameStatics s s') (pa : Nat) :
    s'.pageIdx pa = s.pageIdx pa := by
  unfold pageIdx
  rw [h.base]

theorem sub64_add_cancel {x b : Nat} (hx : x < 2 ^ 64) (hb : b < 2 ^ 64) :
    sub64 (u64 (x + b)) b = x := by
  unfold sub64 u64
  rw [Nat.mod_eq_of_lt hb]
  omega

theorem add_sub64_cancel {a b : Nat} (ha : a < 2 ^ 64) (hb : b < 2 ^ 64) :
    u64 (sub64 a b + b) = a := by
  unfold sub64 u64
  rw [Nat.mod_eq_of_lt hb]
  omega

namespace Region

variable {s : Mm}

theorem base_lt (h : Region s) : s.buddyBasePhys < 2 ^ 64 := by
  have := h.top
  simp only [userEnd] at this
  omega

/-- An address whose index is in range is that many pages, and an offset, above the base. -/
theorem addr_eq (h : Region s) {pa : Nat} (hpa : pa < 2 ^ 64) (hidx : s.pageIdx pa < s.numPages) :
    pa = s.buddyBasePhys + sub64 pa s.buddyBasePhys := by
  have hcancel := add_sub64_cancel hpa h.base_lt
  have hoff : sub64 pa s.buddyBasePhys < s.numPages * pageSize := by
    unfold pageIdx at hidx
    exact (Nat.div_lt_iff_lt_mul (by norm_num)).mp hidx
  have := h.top
  unfold u64 at hcancel
  simp only [userEnd] at this
  omega

theorem pageIdx_page (h : Region s) {i : Nat} (hi : i < s.numPages) (off : Nat)
    (hoff : off < pageSize) : s.pageIdx (s.buddyBasePhys + i * pageSize + off) = i := by
  have := h.top
  unfold pageIdx
  simp only [userEnd, pageSize] at *
  rw [sub64_of_le (by omega) (by omega)]
  omega

theorem pageIdx_head (h : Region s) {i : Nat} (hi : i < s.numPages) :
    s.pageIdx (s.buddyBasePhys + i * pageSize) = i := by
  have := h.pageIdx_page hi 0 (by norm_num)
  simpa using this

theorem pageAddr_eq (h : Region s) {i : Nat} (hi : i < s.numPages) :
    s.pageAddr i = .ok (s.buddyBasePhys + i * pageSize) := by
  have := h.top
  unfold pageAddr
  rw [if_neg (Nat.not_le.mpr hi), u64, Nat.mod_eq_of_lt]
  simp only [userEnd, pageSize] at *
  omega

/-- The buddy of an address lies one flipped bit of the index away, at the same offset. -/
theorem pageIdx_buddyOf (h : Region s) (addr : Nat) {k : Nat} (hk : k ≤ maxOrder) :
    s.pageIdx (s.buddyOf addr k) = s.pageIdx addr ^^^ 2 ^ k := by
  have hsize : pageSize <<< k = 2 ^ (12 + k) := by
    rw [Nat.shiftLeft_eq, Nat.pow_add]
  have hlt : sub64 addr s.buddyBasePhys ^^^ (pageSize <<< k) < 2 ^ 64 := by
    refine Nat.xor_lt_two_pow (sub64_lt _ _) ?_
    rw [hsize]
    exact Nat.pow_lt_pow_right (by norm_num) (by simp only [maxOrder] at hk; omega)
  unfold pageIdx buddyOf
  simp only
  rw [sub64_add_cancel hlt h.base_lt, show pageSize = 2 ^ 12 by norm_num, Nat.xor_div_two_pow,
    Nat.shiftLeft_eq, ← Nat.pow_add, Nat.pow_div (by omega) (by norm_num), Nat.add_sub_cancel_left]

theorem buddyOf_lt (s : Mm) (addr k : Nat) : s.buddyOf addr k < 2 ^ 64 :=
  Nat.mod_lt _ (by norm_num)

/-- The offset inside the page is the same for both buddies. -/
theorem buddyOf_mod (h : Region s) (addr : Nat) {k : Nat} (hk : k ≤ maxOrder) :
    sub64 (s.buddyOf addr k) s.buddyBasePhys % pageSize
      = sub64 addr s.buddyBasePhys % pageSize := by
  have hlt : sub64 addr s.buddyBasePhys ^^^ (pageSize <<< k) < 2 ^ 64 := by
    refine Nat.xor_lt_two_pow (sub64_lt _ _) ?_
    rw [Nat.shiftLeft_eq, show pageSize = 2 ^ 12 by norm_num, ← Nat.pow_add]
    exact Nat.pow_lt_pow_right (by norm_num) (by simp only [maxOrder] at hk; omega)
  unfold buddyOf
  simp only
  rw [sub64_add_cancel hlt h.base_lt, show pageSize = 2 ^ 12 by norm_num, Nat.xor_mod_two_pow,
    Nat.shiftLeft_eq, Nat.mul_mod_right, Nat.xor_zero]

/-- The lower of two buddies' addresses is that of the lower index. -/
theorem min_addr (h : Region s) {addr k : Nat} (hk : k ≤ maxOrder) (haddr : addr < 2 ^ 64)
    (hidx : s.pageIdx addr < s.numPages) (hb : s.pageIdx (s.buddyOf addr k) < s.numPages) :
    s.pageIdx (if s.buddyOf addr k < addr then s.buddyOf addr k else addr)
      = pairHead (s.pageIdx addr) k := by
  have hmod := h.buddyOf_mod addr hk
  have hxor := h.pageIdx_buddyOf addr hk
  have ha := h.addr_eq haddr hidx
  have hba := h.addr_eq (buddyOf_lt s addr k) hb
  have hpos := Nat.two_pow_pos k
  unfold pageIdx at *
  simp only [pageSize] at *
  split
  · rcases pair_cases (sub64 addr s.buddyBasePhys / 4096) k with ⟨h1, h2⟩ | ⟨h1, h2⟩ <;> omega
  · rcases pair_cases (sub64 addr s.buddyBasePhys / 4096) k with ⟨h1, h2⟩ | ⟨h1, h2⟩ <;> omega

end Region

/-! ### `alloc_pages` -/

variable {fl : Nat → List Nat} {live : Multiset Block}

/-- The split loop leaves the lower part in hand and files the rest. -/
theorem splitLoop_spec (order h : Nat) :
    ∀ (d : Nat) (s : Mm) (fl : Nat → List Nat), order + d ≤ maxOrder →
      BuddyInv s fl live {(h, order + d)} →
      ∃ s', splitLoop order h d s = .ok s' ∧
        BuddyInv s' (Buddy.splitLists h order d fl) live {(h, order)} ∧ SameStatics s s' ∧
        s'.mem = s.mem ∧ s'.pages h = s.pages h := by
  intro d
  induction d with
  | zero =>
      intro s fl _ hi
      exact ⟨s, rfl, hi, SameStatics.refl s, rfl, rfl⟩
  | succ d ih =>
      intro s fl hle hi
      have hpos := Nat.two_pow_pos (order + d)
      have hpow : 2 ^ (order + d + 1) = 2 ^ (order + d) + 2 ^ (order + d) := by ring
      -- the upper half lies in the block, so its index is in range
      have hend : h + 2 ^ (order + d + 1) ≤ s.numPages :=
        hi.tiling.end_le (Buddy.mem_allBlocks_of_hand (Multiset.mem_singleton_self _))
      have hin : ¬ s.numPages ≤ h + 2 ^ (order + d) := by omega
      have hsplit := Buddy.Inv.split (k := order + d) hi (by omega)
      obtain ⟨s', hs', hi', hst, hmem, hpg⟩ :=
        ih (s.pushFree s.vaOffset (h + 2 ^ (order + d)) (order + d)) _ (by omega) hsplit
      refine ⟨s', ?_, hi', ⟨hst.1, hst.2, hst.3, hst.4⟩, hmem, ?_⟩
      · rw [splitLoop]
        simp only [show order + (d + 1) - 1 = order + d by omega]
        rw [if_neg hin]
        exact hs'
      · rw [hpg]
        show Function.update s.pages (h + 2 ^ (order + d)) _ h = s.pages h
        rw [Function.update_of_ne (by omega)]

/-- What a successful allocation does: a block of order `order` headed by page `h` is handed
out, and zeroed. -/
structure Allocated (s : Mm) (live : Multiset Block) (order a : Nat) (s' : Mm) (h : Nat)
    (fl' : Nat → List Nat) : Prop where
  addr : a = s.buddyBasePhys + h * pageSize
  fits : h + 2 ^ order ≤ s.numPages
  inv : BuddyInv s' fl' ((h, order) ::ₘ live) 0
  statics : SameStatics s s'
  mem : s'.mem = zeroed s.mem a (pageSize <<< order)

theorem takeBlock_spec {s : Mm} (hr : Region s) (hi : BuddyInv s fl live 0) {order o h : Nat}
    (ho : o ≤ maxOrder) (hle : order ≤ o) (hh : s.freeLists o = some h) :
    ∃ t a s', fl o = h :: t ∧ s.takeBlock order o h = .ok (a, s') ∧
      Allocated s live order a s' h
        (Buddy.splitLists h order (o - order) (Function.update fl o t)) := by
  obtain ⟨t, ht, hpop⟩ := hi.pop order ho hh
  obtain ⟨d, rfl⟩ := Nat.exists_eq_add_of_le hle
  obtain ⟨s', hs', hi', hst, hmem, hpg⟩ := splitLoop_spec order h d
    (((s.derefPage s.vaOffset h).setPage h ⟨order, false, (s.pages h).next⟩).setList (order + d)
      (s.pages h).next) _ ho hpop
  have hst' : SameStatics s s' := ⟨hst.1, hst.2, hst.3, hst.4⟩
  have hrec : s'.pages h = ⟨order, false, (s.pages h).next⟩ := by
    rw [hpg]
    show Function.update s.pages h _ h = _
    rw [Function.update_self]
  have hout := hi'.handOut (by omega) (by rw [hrec]) (by rw [hrec])
  have hfits : h + 2 ^ order ≤ s.numPages := by
    rw [← hst'.numPages]
    exact hout.tiling.end_le (Buddy.mem_allBlocks_of_live (Multiset.mem_cons_self (h, order) live))
  have hpos := Nat.two_pow_pos order
  have haddr : s'.pageAddr h = .ok (s.buddyBasePhys + h * pageSize) := by
    rw [(hr.congr hst').pageAddr_eq (by rw [hst'.numPages]; omega), hst'.base]
  have hsmall : pageSize <<< order < 2 ^ 32 := by
    rw [Nat.shiftLeft_eq, show pageSize = 2 ^ 12 by norm_num, ← Nat.pow_add]
    exact Nat.pow_lt_pow_right (by norm_num) (by simp only [maxOrder] at ho; omega)
  simp only [Nat.add_sub_cancel_left]
  refine ⟨t, s.buddyBasePhys + h * pageSize,
    (s'.deref (s'.physToVirt (s.buddyBasePhys + h * pageSize)) (pageSize <<< order)).setMem
      (zeroed s.mem (s.buddyBasePhys + h * pageSize) (pageSize <<< order)),
    ht, ?_, rfl, hfits, hout, ⟨hst'.1, hst'.2, hst'.3, hst'.4⟩, rfl⟩
  unfold takeBlock
  simp only [Nat.add_sub_cancel_left]
  rw [show (s.derefPage s.vaOffset h).pages = s.pages from rfl, hs', ok_bind, haddr, ok_bind,
    memset_eq _ _ _ hsmall, ok_bind, hmem]
  rfl

/-- The block comes from the first list from `order` on that is not empty, and `NULL` only when
there is none. -/
theorem allocFrom_spec {s : Mm} (hr : Region s) (hi : BuddyInv s fl live 0) (order : Nat) :
    ∀ (n o : Nat), o + n = maxOrder + 1 → order ≤ o →
      (allocFrom order n o s = .ok (0, s) ∧
        ∀ o', o ≤ o' → o' ≤ maxOrder → s.freeLists o' = none) ∨
      ∃ o' h t a s', o ≤ o' ∧ o' ≤ maxOrder ∧ (∀ x, o ≤ x → x < o' → s.freeLists x = none) ∧
        fl o' = h :: t ∧ allocFrom order n o s = .ok (a, s') ∧
        Allocated s live order a s' h
          (Buddy.splitLists h order (o' - order) (Function.update fl o' t)) := by
  intro n
  induction n with
  | zero => intro o hn _; exact Or.inl ⟨rfl, fun o' h1 h2 => by omega⟩
  | succ n ih =>
      intro o hn hle
      rw [allocFrom]
      cases hl : s.freeLists o with
      | none =>
          simp only
          have hempty : ∀ x, o ≤ x → x < o + 1 → s.freeLists x = none := by
            intro x h1 h2
            obtain rfl : x = o := by omega
            exact hl
          rcases ih (o + 1) (by omega) (by omega) with
            ⟨hnull, hnone⟩ | ⟨o', h, t, a, s', h1, h2, hnone, hfl, hs', hall⟩
          · refine Or.inl ⟨hnull, fun x h1 h2 => ?_⟩
            rcases Nat.lt_or_ge x (o + 1) with hlt | hge
            · exact hempty x h1 hlt
            · exact hnone x hge h2
          · refine Or.inr ⟨o', h, t, a, s', by omega, h2, fun x h3 h4 => ?_, hfl, hs', hall⟩
            rcases Nat.lt_or_ge x (o + 1) with hlt | hge
            · exact hempty x h3 hlt
            · exact hnone x hge h4
      | some h =>
          simp only
          obtain ⟨t, a, s', hfl, hs', hall⟩ := takeBlock_spec hr hi (show o ≤ maxOrder by omega) hle hl
          exact Or.inr ⟨o, h, t, a, s', Nat.le_refl o, by omega,
            fun x h1 h2 => absurd h2 (Nat.not_lt.mpr h1), hfl, hs', hall⟩

/-- **`alloc_pages`**, with the free lists it leaves. -/
theorem allocPages_lists {s : Mm} (hr : Region s) (hi : BuddyInv s fl live 0) {order : Nat}
    (ho : order ≤ maxOrder) :
    (s.allocPages order = .ok (0, s) ∧
      ∀ o, order ≤ o → o ≤ maxOrder → s.freeLists o = none) ∨
    ∃ o h t a s', order ≤ o ∧ o ≤ maxOrder ∧ (∀ x, order ≤ x → x < o → s.freeLists x = none) ∧
      fl o = h :: t ∧ s.allocPages order = .ok (a, s') ∧
      Allocated s live order a s' h
        (Buddy.splitLists h order (o - order) (Function.update fl o t)) := by
  unfold allocPages
  rw [if_neg (Nat.not_lt.mpr ho)]
  exact allocFrom_spec hr hi order _ _ (by omega) (Nat.le_refl _)

/-- **`alloc_pages` keeps the invariant**, and comes back from every state that satisfies it. -/
theorem allocPages_spec {s : Mm} (hr : Region s) (hi : BuddyInv s fl live 0) {order : Nat}
    (ho : order ≤ maxOrder) :
    (s.allocPages order = .ok (0, s) ∧
      ∀ o, order ≤ o → o ≤ maxOrder → s.freeLists o = none) ∨
    ∃ h a s' fl', s.allocPages order = .ok (a, s') ∧ Allocated s live order a s' h fl' := by
  rcases allocPages_lists hr hi ho with hnull | ⟨o, h, t, a, s', -, -, -, -, hs', hall⟩
  · exact Or.inl hnull
  · exact Or.inr ⟨h, a, s', _, hs', hall⟩

/-! ### `free_pages` -/

/-- The walk from a link that a chain hangs on stops at the link that points to the buddy. -/
theorem findLink_spec (o b : Nat) :
    ∀ (xs : List Nat) (fuel : Nat) (p : Link) (s : Mm),
      IsChain (fun i => (s.pages i).next) (s.readLink o p) xs → b ∈ xs → xs.length < fuel →
      ∃ pre post p' s', xs = pre ++ b :: post ∧ findLink o b fuel p s = .ok (p', s') ∧
        p' = (pre.getLast?.map Link.next).getD p ∧
        SameStatics s s' ∧ s'.mem = s.mem ∧ s'.pages = s.pages ∧ s'.freeLists = s.freeLists := by
  intro xs
  induction xs with
  | nil => intro fuel p s _ hb; simp at hb
  | cons x xs ih =>
      intro fuel p s hc hb hlen
      obtain ⟨fuel, rfl⟩ : ∃ f, fuel = f + 1 := ⟨fuel - 1, by simp at hlen; omega⟩
      -- looking at a link records an access and nothing else
      have hsame : SameStatics s (s.derefLink p) ∧ (s.derefLink p).mem = s.mem ∧
          (s.derefLink p).pages = s.pages ∧ (s.derefLink p).freeLists = s.freeLists := by
        cases p <;> exact ⟨⟨rfl, rfl, rfl, rfl⟩, rfl, rfl, rfl⟩
      obtain ⟨hst, hmem, hpages, hlists⟩ := hsame
      have hread : ∀ q, (s.derefLink p).readLink o q = s.readLink o q := by
        intro q
        cases q with
        | head => show (s.derefLink p).freeLists o = _; rw [hlists]; rfl
        | next i => show ((s.derefLink p).pages i).next = _; rw [hpages]; rfl
      rw [findLink]
      simp only [hread, hc.1]
      by_cases hxb : x = b
      · subst hxb
        exact ⟨[], xs, p, _, rfl, by simp, rfl, hst, hmem, hpages, hlists⟩
      · rw [if_neg hxb]
        have hb' : b ∈ xs := (List.mem_cons.mp hb).resolve_left fun h => hxb h.symm
        have hc' : IsChain (fun i => ((s.derefLink p).pages i).next)
            ((s.derefLink p).readLink o (.next x)) xs := by
          rw [hread, hpages]
          exact hc.2
        obtain ⟨pre, post, p', s', rfl, hs', hp', hst', hmem', hpages', hlists'⟩ :=
          ih fuel (.next x) (s.derefLink p) hc' hb' (by simpa using hlen)
        refine ⟨x :: pre, post, p', s', rfl, hs', ?_, hst.trans hst', hmem'.trans hmem,
          hpages'.trans hpages, hlists'.trans hlists⟩
        rw [hp']
        cases pre with
        | nil => rfl
        | cons y pre =>
            rw [List.getLast?_cons_cons, List.getLast?_eq_some_getLast (List.cons_ne_nil y pre)]
            rfl

/-- Unlinking a buddy that is on the list takes it out, and no other field changes. -/
theorem unlink_spec {s : Mm} {hand : Multiset Block} (hi : BuddyInv s fl live hand) {o b : Nat}
    (ho : o ≤ maxOrder) (hb : b ∈ fl o) :
    ∃ s', s.unlink o b = .ok s' ∧ SameStatics s s' ∧ s'.mem = s.mem ∧
      (∀ j, (s'.pages j).order = (s.pages j).order ∧ (s'.pages j).isFree = (s.pages j).isFree) ∧
      ∀ o' ≤ maxOrder, IsChain (fun i => (s'.pages i).next) (s'.freeLists o')
        (Function.update fl o ((fl o).erase b) o') := by
  have hchain := hi.chain o ho
  have hnd := hi.nodup ho
  obtain ⟨pre, post, l, s₁, hfl, hfind, hl, hst, hmem, hpages, hlists⟩ :=
    findLink_spec o b (fl o) (s.numPages + 1) .head s hchain hb
      (Nat.lt_succ_of_le (hi.length_le ho))
  rw [hfl] at hchain hnd
  have herase : (fl o).erase b = pre ++ post := by
    rw [hfl, List.erase_append_right _ (fun hc => (List.disjoint_of_nodup_append hnd) hc (by simp)),
      List.erase_cons_head]
  unfold unlink
  rw [hfind, ok_bind]
  rcases List.eq_nil_or_concat pre with rfl | ⟨pre', p, hpre⟩
  · -- the buddy is the first of its list
    have hread : s₁.readLink o .head = some b := by
      show s₁.freeLists o = some b
      rw [hlists]
      exact hchain.1
    simp only [List.getLast?_nil, Option.map_none, Option.getD_none] at hl
    subst hl
    simp only
    rw [if_pos hread]
    refine ⟨_, rfl, ⟨hst.1, hst.2, hst.3, hst.4⟩, hmem, fun j => ?_, fun o' ho' => ?_⟩
    · show (s₁.pages j).order = _ ∧ (s₁.pages j).isFree = _
      rw [hpages]
      exact ⟨rfl, rfl⟩
    · show IsChain (fun i => (s₁.pages i).next)
        (Function.update s₁.freeLists o (s₁.pages b).next o') _
      rw [hpages, hlists, herase]
      by_cases hoo : o' = o
      · subst hoo
        rw [Function.update_self, Function.update_self]
        exact hchain.2
      · rw [Function.update_of_ne hoo, Function.update_of_ne hoo]
        exact hi.chain o' ho'
  · -- the buddy follows `p`
    rw [List.concat_eq_append] at hpre
    subst hpre
    rw [List.getLast?_concat] at hl
    subst hl
    have hsplit : pre' ++ [p] ++ b :: post = pre' ++ p :: b :: post := by simp
    rw [hsplit] at hchain hnd
    have hpnot : p ∉ pre' ++ b :: post := by
      intro hc
      have hmid : (pre' ++ p :: b :: post).Perm (p :: (pre' ++ b :: post)) := List.perm_middle
      exact (List.nodup_cons.mp (hmid.nodup_iff.mp hnd)).1 hc
    have hpfl : p ∈ fl o := by rw [hfl, hsplit]; simp
    have hread : s₁.readLink o (.next p) = some b := by
      have hpb : ∀ (l : List Nat) (h : Option Nat),
          IsChain (fun i => (s.pages i).next) h (l ++ p :: b :: post) →
          (s.pages p).next = some b := by
        intro l
        induction l with
        | nil => intro h hc; exact hc.2.1
        | cons y l ihl => intro h hc; exact ihl _ hc.2
      show (s₁.pages p).next = some b
      rw [hpages]
      exact hpb pre' _ hchain
    simp only [Option.map_some, Option.getD_some]
    rw [if_pos hread]
    have hnext : (fun i => (Function.update s.pages p { s.pages p with next := (s.pages b).next } i).next)
        = Function.update (fun i => (s.pages i).next) p (s.pages b).next := by
      funext i
      by_cases hip : i = p
      · rw [hip, Function.update_self, Function.update_self]
      · rw [Function.update_of_ne hip, Function.update_of_ne hip]
    refine ⟨_, rfl, ⟨hst.1, hst.2, hst.3, hst.4⟩, hmem, fun j => ?_, fun o' ho' => ?_⟩
    · show (Function.update s₁.pages p _ j).order = _ ∧ (Function.update s₁.pages p _ j).isFree = _
      rw [hpages]
      by_cases hjp : j = p
      · rw [hjp, Function.update_self]
        exact ⟨rfl, rfl⟩
      · rw [Function.update_of_ne hjp]
        exact ⟨rfl, rfl⟩
    · show IsChain (fun i => (Function.update s₁.pages p { s₁.pages p with next := (s₁.pages b).next } i).next)
        (s₁.freeLists o') _
      rw [hpages, hlists, hnext, herase]
      by_cases hoo : o' = o
      · subst hoo
        rw [Function.update_self, List.append_assoc]
        exact hchain.unlink hpnot
      · rw [Function.update_of_ne hoo]
        refine (hi.chain o' ho').update_of_notMem fun hc => hoo ?_
        exact hi.eq_of_mem ho' ho hc hpfl

/-- What the record of the head in hand may say while blocks are merged: nothing, or the order
it was freed at, and then it has been the lower half ever since. -/
def HeadRec (s : Mm) (c k : Nat) : Prop :=
  (s.pages c).isFree = true →
    (s.pages c).order = k ∨ ((s.pages c).order < k ∧ pairHead c (s.pages c).order = c)

/-- What one round of the merge loop leaves when it goes on: the merged block `(pairHead c k, k + 1)`
in hand, and the buddy off its list. -/
structure Merged (s : Mm) (fl : Nat → List Nat) (live : Multiset Block) (c k addr' : Nat) (s' : Mm) :
    Prop where
  addr : addr' < 2 ^ 64
  head : s'.pageIdx addr' = pairHead c k
  inv : BuddyInv s' (Function.update fl k ((fl k).erase (c ^^^ 2 ^ k))) live
    {(s'.pageIdx addr', k + 1)}
  headRec : HeadRec s' (s'.pageIdx addr') (k + 1)
  records : ∀ j, (s'.pages j).order = (s.pages j).order ∧
    (s'.pages j).isFree = if j = c ^^^ 2 ^ k then false else (s.pages j).isFree
  statics : SameStatics s s'
  mem : s'.mem = s.mem

/-- **One round of the merge loop**: it halts on a buddy past the end, stops at one that is not a
free block of the same order, or merges with it. -/
theorem mergeLoop_step {s : Mm} {fl : Nat → List Nat} {m k addr : Nat} (hk : k = maxOrder - (m + 1))
    (hm : m + 1 ≤ maxOrder) (hr : Region s) (haddr : addr < 2 ^ 64)
    (hi : BuddyInv s fl live {(s.pageIdx addr, k)}) (hhead : HeadRec s (s.pageIdx addr) k) :
    (s.numPages ≤ s.pageIdx addr ^^^ 2 ^ k ∧ mergeLoop (m + 1) addr s = .error .halt) ∨
    (s.pageIdx addr ^^^ 2 ^ k < s.numPages ∧ s.pageIdx addr ^^^ 2 ^ k ∉ fl k ∧
      mergeLoop (m + 1) addr s = .ok (addr, k, s.derefPage 0 (s.pageIdx addr ^^^ 2 ^ k))) ∨
    (s.pageIdx addr ^^^ 2 ^ k < s.numPages ∧ s.pageIdx addr ^^^ 2 ^ k ∈ fl k ∧
      ∃ addr' s', mergeLoop (m + 1) addr s = mergeLoop m addr' s' ∧
        Merged s fl live (s.pageIdx addr) k addr' s') := by
  have hkle : k ≤ maxOrder := by omega
  have hin : s.pageIdx addr < s.numPages :=
    hi.tiling.head_lt (Buddy.mem_allBlocks_of_hand (Multiset.mem_singleton_self _))
  have hbidx := hr.pageIdx_buddyOf addr hkle
  rw [mergeLoop]
  simp only [← hk]
  rw [← hbidx]
  by_cases hbin : s.numPages ≤ s.pageIdx (s.buddyOf addr k)
  · -- `get_page_struct` halts on a buddy past the end
    rw [getPageStruct_halt hbin]
    exact Or.inl ⟨hbin, rfl⟩
  · have hbin' := Nat.not_le.mp hbin
    rw [getPageStruct_ok hbin', ok_bind]
    set b := s.pageIdx (s.buddyOf addr k) with hb
    refine Or.inr ?_
    by_cases hstop : (!((s.derefPage 0 b).pages b).isFree ||
        ((s.derefPage 0 b).pages b).order != k) = true
    · rw [if_pos hstop]
      refine Or.inl ⟨hbin', fun hmem => ?_, rfl⟩
      obtain ⟨horder, hfree⟩ := hi.freeRec k hkle b hmem
      have hstop' : (!(s.pages b).isFree || (s.pages b).order != k) = true := hstop
      rw [horder, hfree] at hstop'
      simp at hstop'
    · rw [if_neg hstop]
      have hrec : (s.pages b).isFree = true ∧ (s.pages b).order = k := by
        have hstop' : ¬ (!(s.pages b).isFree || (s.pages b).order != k) = true := hstop
        simpa using hstop'
      have hmem : b ∈ fl k := by
        rw [hbidx]
        exact hi.buddy_mem (by rw [← hbidx]; exact hrec.1) (by rw [← hbidx]; exact hrec.2)
      obtain ⟨s₁, hs₁, hst, hmem₁, hsame, hchain⟩ :=
        unlink_spec (s := s.derefPage 0 b) hi hkle hmem
      rw [hs₁, ok_bind]
      set s₂ := s₁.setPage b { s₁.pages b with isFree := false } with hs₂
      have hst₂ : SameStatics s s₂ := ⟨hst.1, hst.2, hst.3, hst.4⟩
      have hpage : ∀ j, s₂.pages j
          = if j = b then { s₁.pages b with isFree := false } else s₁.pages j := by
        intro j
        show Function.update s₁.pages b _ j = _
        by_cases hjb : j = b
        · rw [hjb, Function.update_self, if_pos rfl]
        · rw [Function.update_of_ne hjb, if_neg hjb]
      have hrec₂ : ∀ j, (s₂.pages j).order = (s.pages j).order ∧
          (s₂.pages j).isFree = if j = b then false else (s.pages j).isFree := by
        intro j
        rw [hpage j]
        by_cases hjb : j = b
        · rw [if_pos hjb, if_pos hjb]
          exact ⟨by rw [hjb]; exact (hsame b).1, rfl⟩
        · rw [if_neg hjb, if_neg hjb]
          exact hsame j
      have hnext : (fun i => (s₂.pages i).next) = fun i => (s₁.pages i).next := by
        funext i
        rw [hpage i]
        by_cases hib : i = b
        · rw [if_pos hib, hib]
        · rw [if_neg hib]
      have hmerged : BuddyInv s₂ (Function.update fl k ((fl k).erase b)) live
          {(pairHead (s.pageIdx addr) k, k + 1)} := by
        have := hi.merge s₂.pages s₂.freeLists hkle
          (hbidx ▸ hmem) hhead (fun j => hbidx ▸ hrec₂ j)
          (fun o ho => by rw [hnext, ← hbidx]; exact hchain o ho)
        rw [← hbidx] at this
        rw [BuddyInv, hst₂.numPages]
        exact this
      set addr' := if s.buddyOf addr k < addr then s.buddyOf addr k else addr with haddr'
      have hlt' : addr' < 2 ^ 64 := by
        rw [haddr']
        split
        · exact Region.buddyOf_lt s addr k
        · exact haddr
      have hidx' : s₂.pageIdx addr' = pairHead (s.pageIdx addr) k := by
        rw [pageIdx_congr hst₂, haddr']
        exact hr.min_addr hkle haddr hin hbin'
      rw [← hidx'] at hmerged
      have hhead' : HeadRec s₂ (s₂.pageIdx addr') (k + 1) := by
        rw [hidx']
        intro hfree
        rw [(hrec₂ _).2] at hfree
        by_cases hpb : pairHead (s.pageIdx addr) k = b
        · rw [if_pos hpb] at hfree
          exact absurd hfree (by decide)
        · rw [if_neg hpb] at hfree
          -- the head is the lower half, so it is the head it was
          have hlow : pairHead (s.pageIdx addr) k = s.pageIdx addr := by
            rcases pair_cases (s.pageIdx addr) k with ⟨h1, -⟩ | ⟨h1, h2⟩
            · exact h1
            · exact absurd (by omega) hpb
          rw [hlow] at hfree ⊢
          rw [(hrec₂ _).1]
          rcases hhead hfree with horder | ⟨hlt, hpair⟩
          · exact Or.inr ⟨by omega, by rw [horder]; exact hlow⟩
          · exact Or.inr ⟨by omega, hpair⟩
      refine Or.inr ⟨hbin', hmem, addr', s₂, rfl, hlt', hidx', ?_, hhead', ?_, hst₂, hmem₁⟩
      · rw [← hbidx]
        exact hmerged
      · rw [← hbidx]
        exact hrec₂

/-- The merge loop halts, or comes back with the merged block in hand, whose buddy is a managed page
and not on its list. -/
theorem mergeLoop_spec :
    ∀ (m : Nat) (s : Mm) (fl : Nat → List Nat) (addr : Nat), m ≤ maxOrder → Region s →
      addr < 2 ^ 64 → BuddyInv s fl live {(s.pageIdx addr, maxOrder - m)} →
      HeadRec s (s.pageIdx addr) (maxOrder - m) →
      mergeLoop m addr s = .error .halt ∨
      ∃ addr' k s' fl', mergeLoop m addr s = .ok (addr', k, s') ∧ addr' < 2 ^ 64 ∧
        k ≤ maxOrder ∧ BuddyInv s' fl' live {(s'.pageIdx addr', k)} ∧ SameStatics s s' ∧
        s'.mem = s.mem ∧
        Buddy.Merges fl (s.pageIdx addr, maxOrder - m) fl' (s'.pageIdx addr', k) ∧
        (k < maxOrder → s'.pageIdx addr' ^^^ 2 ^ k < s'.numPages ∧
          s'.pageIdx addr' ^^^ 2 ^ k ∉ fl' k) := by
  intro m
  induction m with
  | zero =>
      intro s fl addr _ _ haddr hi _
      exact Or.inr ⟨addr, maxOrder, s, fl, rfl, haddr, Nat.le_refl _, hi, SameStatics.refl s, rfl,
        Buddy.Merges.refl _ _, fun h => absurd h (Nat.lt_irrefl _)⟩
  | succ m ih =>
      intro s fl addr hm hr haddr hi hhead
      have hk1 : maxOrder - (m + 1) + 1 = maxOrder - m := by omega
      rcases mergeLoop_step rfl hm hr haddr hi hhead with ⟨-, hhalt⟩ | ⟨hin, hnot, hstop⟩ |
        ⟨-, hmem, addr', s₂, hgo, hmerged⟩
      · exact Or.inl hhalt
      · exact Or.inr ⟨addr, _, _, fl, hstop, haddr, Nat.sub_le _ _, hi, ⟨rfl, rfl, rfl, rfl⟩, rfl,
          Buddy.Merges.refl _ _, fun _ => ⟨hin, hnot⟩⟩
      · have hi₂ := hmerged.inv
        have hhead₂ := hmerged.headRec
        rw [hk1] at hi₂ hhead₂
        rw [hgo]
        rcases ih s₂ _ addr' (by omega) (hr.congr hmerged.statics) hmerged.addr hi₂ hhead₂ with
          hhalt | ⟨a, k, s', fl', hs', ha, hk, hi', hst', hmem', hmerges, hstop⟩
        · exact Or.inl hhalt
        · rw [hmerged.head, ← hk1] at hmerges
          exact Or.inr ⟨a, k, s', fl', hs', ha, hk, hi', hmerged.statics.trans hst',
            hmem'.trans hmerged.mem, .step (by omega) hmem hmerges, hstop⟩

/-- The loop makes the merges it can: those that lead to a block whose buddy is a managed page and
not on the list. -/
theorem mergeLoop_of_merges {fl fl' : Nat → List Nat} {B B' : Block} (h : Buddy.Merges fl B fl' B')
    (hstop : B'.2 < maxOrder → B'.1 ^^^ 2 ^ B'.2 ∉ fl' B'.2) :
    ∀ (m : Nat) (s : Mm) (addr : Nat), m ≤ maxOrder → B = (s.pageIdx addr, maxOrder - m) →
      Region s → addr < 2 ^ 64 → BuddyInv s fl live {(s.pageIdx addr, maxOrder - m)} →
      HeadRec s (s.pageIdx addr) (maxOrder - m) →
      (B'.2 < maxOrder → B'.1 ^^^ 2 ^ B'.2 < s.numPages) →
      ∃ addr' s', mergeLoop m addr s = .ok (addr', B'.2, s') ∧ s'.pageIdx addr' = B'.1 ∧
        BuddyInv s' fl' live {B'} ∧ SameStatics s s' := by
  induction h with
  | refl fl B =>
      rintro m s addr hm rfl hr haddr hi hhead hin
      cases m with
      | zero => exact ⟨addr, s, rfl, rfl, hi, SameStatics.refl s⟩
      | succ m =>
          have hk : maxOrder - (m + 1) < maxOrder := by omega
          rcases mergeLoop_step rfl hm hr haddr hi hhead with ⟨hout, -⟩ | ⟨-, -, hs⟩ |
            ⟨-, hmem, -⟩
          · exact absurd (hin hk) (Nat.not_lt.mpr hout)
          · exact ⟨addr, _, hs, rfl, hi, ⟨rfl, rfl, rfl, rfl⟩⟩
          · exact absurd hmem (hstop hk)
  | @step fl fl' B' c k hk hb _ ih =>
      intro m s addr hm hB hr haddr hi hhead hin
      obtain ⟨rfl, rfl⟩ := Prod.mk.inj hB
      obtain ⟨m, rfl⟩ : ∃ m', m = m' + 1 := ⟨m - 1, by omega⟩
      have hk1 : maxOrder - (m + 1) + 1 = maxOrder - m := by omega
      rcases mergeLoop_step rfl hm hr haddr hi hhead with ⟨hout, -⟩ | ⟨-, hnot, -⟩ |
        ⟨-, -, addr', s₂, hgo, hmerged⟩
      · exact absurd (hi.free_lt (Nat.sub_le _ _) hb) (Nat.not_lt.mpr hout)
      · exact absurd hb hnot
      · have hi₂ := hmerged.inv
        have hhead₂ := hmerged.headRec
        rw [hk1] at hi₂ hhead₂
        have hin₂ : B'.2 < maxOrder → B'.1 ^^^ 2 ^ B'.2 < s₂.numPages := by
          rw [hmerged.statics.numPages]
          exact hin
        obtain ⟨a, s', hs', hidx, hi', hst⟩ := ih hstop m s₂ addr' (by omega)
          (by rw [hmerged.head, hk1]) (hr.congr hmerged.statics) hmerged.addr hi₂ hhead₂ hin₂
        exact ⟨a, s', hgo.trans hs', hidx, hi', hmerged.statics.trans hst⟩

/-- `free_pages` of a block that is handed out: what it has in hand when the merge loop starts. -/
structure TakenBack (s : Mm) (fl : Nat → List Nat) (live : Multiset Block) (B : Block) (addr : Nat)
    (s' : Mm) : Prop where
  head : s'.pageIdx addr = B.1
  inv : BuddyInv s' fl live {(s'.pageIdx addr, B.2)}
  headRec : HeadRec s' (s'.pageIdx addr) B.2
  records : ∀ j, j ≠ B.1 → s'.pages j = s.pages j
  statics : SameStatics s s'
  mem : s'.mem = s.mem

theorem freePages_start {s : Mm} {B : Block} (hi : BuddyInv s fl (B ::ₘ live) 0) {addr : Nat}
    (hidx : s.pageIdx addr = B.1) (hne : addr ≠ 0) :
    B.2 ≤ maxOrder ∧ ∃ s', TakenBack s fl live B addr s' ∧ s.freePages addr = (do
      let (addr, order, s) ← mergeLoop (maxOrder - B.2) addr s'
      let merged ← s.getPageStruct addr
      pure (s.pushFree 0 merged order)) := by
  have hlt : s.pageIdx addr < s.numPages := by
    rw [hidx]
    exact hi.tiling.head_lt (Buddy.mem_allBlocks_of_live (Multiset.mem_cons_self B live))
  obtain ⟨horder, hfree, hle⟩ := hi.liveRec B (Multiset.mem_cons_self B live)
  rw [← hidx] at horder hfree
  unfold freePages
  rw [if_neg hne, getPageStruct_ok hlt, ok_bind]
  set pg := s.pageIdx addr with hpg
  have hnot : ¬ ((s.derefPage 0 pg).pages pg).isFree = true := by
    show ¬ (s.pages pg).isFree = true
    rw [hfree]
    decide
  rw [if_neg hnot]
  have hback := hi.takeBack
  rw [← hidx] at hback
  have hord : ((s.derefPage 0 pg).pages pg).order = B.2 := horder
  rw [hord]
  set s₁ := (s.derefPage 0 pg).setPage pg { (s.derefPage 0 pg).pages pg with isFree := true }
    with hs₁
  have hst₁ : SameStatics s s₁ := ⟨rfl, rfl, rfl, rfl⟩
  have hidx₁ : s₁.pageIdx addr = pg := pageIdx_congr hst₁ addr
  refine ⟨hle, s₁, ⟨hidx₁.trans hidx, ?_, ?_, ?_, hst₁, rfl⟩, rfl⟩
  · rw [hidx₁]
    have hB : B = (pg, B.2) := Prod.ext hidx.symm rfl
    rw [hB] at hback
    exact hback
  · rw [hidx₁]
    intro _
    refine Or.inl ?_
    show (Function.update s.pages pg { s.pages pg with isFree := true } pg).order = _
    rw [Function.update_self]
    exact horder
  · intro j hj
    exact Function.update_of_ne (by rwa [hidx]) ..

/-- **`free_pages` of a block that is handed out**, with the free lists it leaves, unless it halts:
the block has been merged as far as its buddies were free, and filed. -/
theorem freePages_lists {s : Mm} (hr : Region s) {B : Block} (hi : BuddyInv s fl (B ::ₘ live) 0)
    {addr : Nat} (haddr : addr < 2 ^ 64) (hidx : s.pageIdx addr = B.1) (hne : addr ≠ 0) :
    s.freePages addr = .error .halt ∨
    ∃ s' fl' c k, s.freePages addr = .ok s' ∧ k ≤ maxOrder ∧ Buddy.Merges fl B fl' (c, k) ∧
      (k < maxOrder → c ^^^ 2 ^ k ∉ fl' k ∧ c ^^^ 2 ^ k < s.numPages) ∧
      BuddyInv s' (Function.update fl' k (c :: fl' k)) live 0 ∧ SameStatics s s' ∧
      s'.mem = s.mem := by
  obtain ⟨hle, s₁, hback, heq⟩ := freePages_start hi hidx hne
  have hk : maxOrder - (maxOrder - B.2) = B.2 := by omega
  have hi₁ := hback.inv
  have hhead₁ := hback.headRec
  rw [← hk] at hi₁ hhead₁
  rw [heq]
  rcases mergeLoop_spec (maxOrder - B.2) s₁ fl addr (Nat.sub_le _ _) (hr.congr hback.statics) haddr
      hi₁ hhead₁ with hhalt | ⟨a, k, s₂, fl₂, hs₂, ha, hk', hi₂, hst₂, hmem₂, hmerges, hstop⟩
  · rw [hhalt]
    exact Or.inl rfl
  · rw [hs₂, ok_bind]
    simp only
    have hin : s₂.pageIdx a < s₂.numPages :=
      hi₂.tiling.head_lt (Buddy.mem_allBlocks_of_hand (Multiset.mem_singleton_self _))
    rw [getPageStruct_ok hin, ok_bind]
    rw [hk, hback.head] at hmerges
    have hst := hback.statics.trans hst₂
    refine Or.inr ⟨_, fl₂, _, k, rfl, hk', hmerges, fun hlt => ?_, hi₂.file hk',
      ⟨hst.1, hst.2, hst.3, hst.4⟩, hmem₂.trans hback.mem⟩
    rw [← hst.numPages]
    exact (hstop hlt).symm

/-- **`free_pages` of a block that is handed out keeps the invariant**, unless it halts. -/
theorem freePages_spec {s : Mm} (hr : Region s) {B : Block} (hi : BuddyInv s fl (B ::ₘ live) 0)
    {addr : Nat} (haddr : addr < 2 ^ 64) (hidx : s.pageIdx addr = B.1) (hne : addr ≠ 0) :
    s.freePages addr = .error .halt ∨
    ∃ s' fl', s.freePages addr = .ok s' ∧ BuddyInv s' fl' live 0 ∧ SameStatics s s' ∧
      s'.mem = s.mem := by
  rcases freePages_lists hr hi haddr hidx hne with hhalt | ⟨s', fl', c, k, hs', -, -, -, hi', hst, hmem⟩
  · exact Or.inl hhalt
  · exact Or.inr ⟨s', _, hs', hi', hst, hmem⟩

/-- `free_pages` of a block that can be merged to `(c, k)` and no further. -/
theorem freePages_of_merges {s : Mm} (hr : Region s) {B : Block}
    (hi : BuddyInv s fl (B ::ₘ live) 0) {addr : Nat} (haddr : addr < 2 ^ 64)
    (hidx : s.pageIdx addr = B.1) (hne : addr ≠ 0) {fl' : Nat → List Nat} {c k : Nat}
    (hk : k ≤ maxOrder) (hmerges : Buddy.Merges fl B fl' (c, k))
    (hstop : k < maxOrder → c ^^^ 2 ^ k ∉ fl' k ∧ c ^^^ 2 ^ k < s.numPages) :
    ∃ s', s.freePages addr = .ok s' ∧ SameStatics s s' ∧
      BuddyInv s' (Function.update fl' k (c :: fl' k)) live 0 := by
  obtain ⟨hle, s₁, hback, heq⟩ := freePages_start hi hidx hne
  have hkB : maxOrder - (maxOrder - B.2) = B.2 := by omega
  have hi₁ := hback.inv
  have hhead₁ := hback.headRec
  rw [← hkB] at hi₁ hhead₁
  have hin : k < maxOrder → c ^^^ 2 ^ k < s₁.numPages := by
    rw [hback.statics.numPages]
    exact fun h => (hstop h).2
  obtain ⟨a, s₂, hs₂, hidx₂, hi₂, hst₂⟩ := mergeLoop_of_merges hmerges (fun h => (hstop h).1)
    (maxOrder - B.2) s₁ addr (Nat.sub_le _ _) (by rw [hback.head, hkB]) (hr.congr hback.statics)
    haddr hi₁ hhead₁ hin
  have hin₂ : s₂.pageIdx a < s₂.numPages := by
    rw [hidx₂]
    exact hi₂.tiling.head_lt (Buddy.mem_allBlocks_of_hand (Multiset.mem_singleton_self _))
  have hst := hback.statics.trans hst₂
  rw [heq, hs₂, ok_bind]
  simp only
  rw [getPageStruct_ok hin₂, ok_bind, hidx₂]
  exact ⟨_, rfl, ⟨hst.1, hst.2, hst.3, hst.4⟩, hi₂.file hk⟩

end Mm

end SystemN
