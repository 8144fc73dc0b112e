/-
What a second `free_pages` of the same address does.

The only guard is the `is_free` flag of the record the address belongs to.  `free_pages`
sets that flag, so at first the guard is there; but each merge clears the flag of the
buddy it takes in, whichever of the two is the lower.  A block that was freed first and
taken in by its buddy later is free with its flag cleared, and a second `free_pages`
treats it as allocated: it files a block that lies inside another free one.

The flag of the block in hand is never cleared, since no buddy met on the way up is that
block.  So the second call goes unnoticed exactly when it finds the flag set.
-/
import SystemN.Proofs.Mm.Owned
import SystemN.Proofs.Mm.Halt

namespace SystemN.Mm

open Tiling Chain

variable {s s' : Mm} {live : Multiset (Nat × Nat)} {L : Layout} {m : Nat → UInt8}

/-! ### The flags -/

@[simp] theorem derefLink_pages (s : Mm) (p : Link) : (s.derefLink p).pages = s.pages := by
  cases p <;> rfl

theorem findLink_pages {o buddy fuel : Nat} {p q : Link}
    (h : findLink o buddy fuel p s = .ok (q, s')) : s'.pages = s.pages := by
  induction fuel generalizing p s with
  | zero => simp [findLink] at h
  | succ fuel ih =>
      simp only [findLink] at h
      split at h
      · obtain ⟨-, rfl⟩ : p = q ∧ s.derefLink p = s' := by simpa using h
        exact derefLink_pages s p
      · split at h
        · obtain ⟨-, rfl⟩ : p = q ∧ s.derefLink p = s' := by simpa using h
          exact derefLink_pages s p
        · exact (ih h).trans (derefLink_pages s p)

/-- Writing a link changes no flag. -/
theorem writeLink_isFree (s : Mm) (o : Nat) (v : Option Nat) (p : Link) (x : Nat) :
    ((s.writeLink o v p).pages x).isFree = (s.pages x).isFree := by
  cases p with
  | head => rfl
  | next i =>
      show (Function.update s.pages i { s.pages i with next := v } x).isFree = _
      rcases eq_or_ne x i with rfl | hxi
      · rw [Function.update_self]
      · rw [Function.update_of_ne hxi]

theorem unlink_isFree {o buddy : Nat} (h : s.unlink o buddy = .ok s') (x : Nat) :
    (s'.pages x).isFree = (s.pages x).isFree := by
  obtain ⟨⟨p, t⟩, hfind, h⟩ := bind_eq_ok.mp h
  have hpages : t.pages = s.pages := findLink_pages hfind
  simp only at h
  split at h
  · obtain rfl : t.writeLink o (t.pages buddy).next p = s' := by simpa [pure, Except.pure] using h
    rw [writeLink_isFree, hpages]
  · obtain rfl : t = s' := by simpa [pure, Except.pure] using h
    rw [hpages]

/-- Page `x` is a buddy that merging the block at `c` from order `k` up to order `k'` takes in. -/
def Absorbed (c k k' x : Nat) : Prop := ∃ i, k ≤ i ∧ i < k' ∧ x = mergedHead c k i ^^^ 2 ^ i

theorem not_absorbed_self (c k k' : Nat) : ¬Absorbed c k k' c := by
  intro ⟨i, hi, _, heq⟩
  exact mergedHead_xor_ne_self c hi heq.symm

theorem not_absorbed_of_le {c k k' x : Nat} (h : k' ≤ k) : ¬Absorbed c k k' x := by
  intro ⟨i, hi, hlt, _⟩
  omega

/-- The first buddy, and those that the merged block takes in. -/
theorem absorbed_iff {c k k' x : Nat} (h : k < k') :
    Absorbed c k k' x ↔ x = c ^^^ 2 ^ k ∨ Absorbed (pairHead c k) (k + 1) k' x := by
  constructor
  · intro ⟨i, hi, hlt, heq⟩
    rcases Nat.eq_or_lt_of_le hi with rfl | hki
    · rw [mergedHead_self] at heq
      exact Or.inl heq
    · rw [← mergedHead_pairHead c hki] at heq
      exact Or.inr ⟨i, hki, hlt, heq⟩
  · intro hor
    apply hor.elim
    · intro heq
      exact ⟨k, Nat.le_refl k, h, by rwa [mergedHead_self]⟩
    · intro ⟨i, hi, hlt, heq⟩
      rw [mergedHead_pairHead c hi] at heq
      exact ⟨i, by omega, hlt, heq⟩

/-- What a merge loop that started with page `c` at order `k` has done to the flags, and where it
has got to. -/
structure MergedUp (s : Mm) (c k addr' k' : Nat) (s' : Mm) : Prop where
  le : k ≤ k'
  head : s'.pageIdx addr' = mergedHead c k k'
  flags : ∀ x, (s'.pages x).isFree = true ↔ (s.pages x).isFree = true ∧ ¬Absorbed c k k' x
  /-- It has gone past a buddy that was free. -/
  goes : k < maxOrder → IsFreeOf s (c ^^^ 2 ^ k) k → k < k'

theorem mergeLoop_flags {k' addr' : Nat} {s' : Mm} :
    ∀ (n : Nat) (s : Mm) (addr : Nat), n ≤ maxOrder → Region s → addr < 2 ^ 64 →
      s.pageIdx addr < s.numPages → mergeLoop n addr s = .ok (addr', k', s') →
      MergedUp s (s.pageIdx addr) (maxOrder - n) addr' k' s' := by
  intro n
  induction n with
  | zero =>
      intro s addr _ hr _ _ h
      obtain ⟨rfl, rfl, rfl⟩ : addr = addr' ∧ maxOrder = k' ∧ s = s' := by simpa [mergeLoop] using h
      refine ⟨Nat.le_refl _, (mergedHead_self _ _).symm, fun x => ?_, fun hlt => ?_⟩
      · exact ⟨fun hx => ⟨hx, not_absorbed_of_le (Nat.le_refl _)⟩, And.left⟩
      · exact absurd hlt (Nat.lt_irrefl _)
  | succ n ih =>
      intro s addr hn hr haddr hin h
      set c := s.pageIdx addr with hc
      set k := maxOrder - (n + 1) with hk
      have hkle : k ≤ maxOrder := Nat.sub_le _ _
      have hk1 : k + 1 = maxOrder - n := by omega
      obtain ⟨buddy, hbuddy, h⟩ := bind_eq_ok.mp h
      rw [getPageStruct_eq, hr.pageIdx_buddyOf addr hkle] at hbuddy
      split at hbuddy
      · cases hbuddy
      · rename_i hbin
        obtain rfl : c ^^^ 2 ^ k = buddy := by simpa using hbuddy
        simp only at h
        split at h
        · rename_i hstop
          obtain ⟨rfl, hpair⟩ := Prod.mk.inj (Except.ok.inj h)
          obtain ⟨hkk, rfl⟩ := Prod.mk.inj hpair
          rw [← hk] at hkk hstop
          rw [← hkk]
          refine ⟨Nat.le_refl _, (mergedHead_self _ _).symm, fun x => ?_, fun _ hfree => ?_⟩
          · exact ⟨fun hx => ⟨hx, not_absorbed_of_le (Nat.le_refl _)⟩, And.left⟩
          · have hflag : ((s.derefPage 0 (c ^^^ 2 ^ k)).pages (c ^^^ 2 ^ k)).isFree = true := hfree.1
            have horder : ((s.derefPage 0 (c ^^^ 2 ^ k)).pages (c ^^^ 2 ^ k)).order = k := hfree.2
            rw [hflag, horder] at hstop
            simp at hstop
        · obtain ⟨t, hunlink, h⟩ := bind_eq_ok.mp h
          have hflag := unlink_isFree hunlink
          obtain ⟨hlater, -⟩ := unlink_frame hunlink
          set t' := t.setPage (c ^^^ 2 ^ k) { t.pages (c ^^^ 2 ^ k) with isFree := false } with ht'
          have hst : SameStatics s t' := ⟨hlater.statics.1, hlater.statics.2, hlater.statics.3,
            hlater.statics.4⟩
          have hbin' : s.pageIdx (s.buddyOf addr k) < s.numPages := by
            rw [hr.pageIdx_buddyOf addr hkle]
            exact Nat.not_le.mp hbin
          have hidx := hr.min_addr hkle haddr hin hbin'
          set next := if s.buddyOf addr k < addr then s.buddyOf addr k else addr with hnext
          have hnlt : next < 2 ^ 64 := by
            rw [hnext]
            split
            · exact Region.buddyOf_lt s addr k
            · exact haddr
          have hnin : s.pageIdx next < s.numPages := by
            rw [hnext]
            split
            · exact hbin'
            · exact hin
          have hup := ih t' next (by omega) (hr.congr hst) hnlt
            (by rw [pageIdx_congr hst, hst.numPages]; exact hnin) h
          rw [pageIdx_congr hst, hidx, ← hk1] at hup
          have hlt : k < k' := hup.le
          refine ⟨hlt.le, ?_, fun x => ?_, fun _ _ => hlt⟩
          · rw [hup.head, mergedHead_pairHead c hlt]
          · have hrec : (t'.pages x).isFree = true ↔
                (s.pages x).isFree = true ∧ x ≠ c ^^^ 2 ^ k := by
              rcases eq_or_ne x (c ^^^ 2 ^ k) with rfl | hx
              · simp [ht', setPage]
              · have hpage : t'.pages x = t.pages x := Function.update_of_ne hx ..
                rw [hpage, hflag x]
                exact ⟨fun hfree => ⟨hfree, hx⟩, And.left⟩
            rw [hup.flags x, hrec, absorbed_iff hlt, not_or, and_assoc]

/-- **The flags after `free_pages`** of a page whose flag is clear: that of the page is set, and so
is that of the merged block; those of the buddies it took in are not. -/
theorem freePages_flags {addr : Nat} (hr : Region s) (haddr : addr < 2 ^ 64) (hne : addr ≠ 0)
    (hflag : (s.pages (s.pageIdx addr)).isFree = false) (h : s.freePages addr = .ok s') :
    ∃ k k', k = min (s.pages (s.pageIdx addr)).order maxOrder ∧ k ≤ k' ∧
      (∀ x, (s'.pages x).isFree = true ↔ x = mergedHead (s.pageIdx addr) k k' ∨
        (x = s.pageIdx addr ∨ (s.pages x).isFree = true) ∧
          ¬Absorbed (s.pageIdx addr) k k' x) ∧
      (k < maxOrder → IsFreeOf s (s.pageIdx addr ^^^ 2 ^ k) k → k < k') := by
  unfold freePages at h
  rw [if_neg hne] at h
  obtain ⟨pg, hpg, h⟩ := bind_eq_ok.mp h
  rw [getPageStruct_eq] at hpg
  split at hpg
  · cases hpg
  · rename_i hin
    obtain rfl : s.pageIdx addr = pg := by simpa using hpg
    set c := s.pageIdx addr with hc
    have hread : ((s.derefPage 0 c).pages c).isFree = false := hflag
    simp only [hread] at h
    rw [if_neg (by decide)] at h
    obtain ⟨⟨addr', k', t⟩, hmerge, h⟩ := bind_eq_ok.mp h
    obtain ⟨merged, hmerged, h⟩ := bind_eq_ok.mp h
    obtain rfl : t.pushFree 0 merged k' = s' := by simpa [pure, Except.pure] using h
    set s₁ := (s.derefPage 0 c).setPage c { (s.derefPage 0 c).pages c with isFree := true } with hs₁
    have hst : SameStatics s s₁ := ⟨rfl, rfl, rfl, rfl⟩
    have hself : s₁.pages c = { s.pages c with isFree := true } := Function.update_self ..
    have hother : ∀ x, x ≠ c → s₁.pages x = s.pages x := fun x hx => Function.update_of_ne hx ..
    have hup := mergeLoop_flags _ s₁ addr (Nat.sub_le _ _) (hr.congr hst) haddr
      (by rw [pageIdx_congr hst]; exact Nat.not_le.mp hin) hmerge
    have hk : maxOrder - (maxOrder - (s.pages c).order) = min (s.pages c).order maxOrder := by omega
    rw [pageIdx_congr hst] at hup
    change MergedUp s₁ c (maxOrder - (maxOrder - (s.pages c).order)) addr' k' t at hup
    rw [hk] at hup
    obtain rfl : mergedHead c (min (s.pages c).order maxOrder) k' = merged := by
      simp only at hmerged
      rw [getPageStruct_eq, hup.head] at hmerged
      split at hmerged
      · cases hmerged
      · simpa using hmerged
    refine ⟨_, k', rfl, hup.le, fun x => ?_, fun hlt hfree => ?_⟩
    · rcases eq_or_ne x (mergedHead c (min (s.pages c).order maxOrder) k') with rfl | hx
      · simp [pushFree, setPage, setList, derefPage, deref]
      · have hpage : (t.pushFree 0 (mergedHead c (min (s.pages c).order maxOrder) k') k').pages x
            = t.pages x := Function.update_of_ne hx ..
        rw [hpage, hup.flags x, or_iff_right hx]
        rcases eq_or_ne x c with rfl | hxc
        · simp [hself]
        · rw [hother x hxc, or_iff_right hxc]
    · refine hup.goes hlt ⟨?_, ?_⟩
      · rw [hother _ (xor_ne c _)]
        exact hfree.1
      · rw [hother _ (xor_ne c _)]
        exact hfree.2

/-! ### Runs that remember what was freed -/

/-- The states a run can reach, with the blocks handed out, and the blocks that were handed out and
have been freed, as long as no page of them is handed out again.  A second `free_pages` is a step
where it finds the flag set. -/
inductive FreedRun (L : Layout) (m : Nat → UInt8) :
    Mm → Multiset (Nat × Nat) → Set (Nat × Nat) → Prop
  | init {kernelPagetable : Nat} {s : Mm} (vaOffset : Nat)
      (hinit : buddyAllocatorInit L m = .ok (kernelPagetable, s)) :
      FreedRun L m { s with vaOffset := vaOffset } 0 ∅
  | alloc {s s' : Mm} {live : Multiset (Nat × Nat)} {freed : Set (Nat × Nat)} {order a : Nat}
      (hrun : FreedRun L m s live freed) (horder : order ≤ maxOrder)
      (hcall : s.allocPages order = .ok (a, s')) :
      FreedRun L m s' (if a = 0 then live else (a, order) ::ₘ live)
        (if a = 0 then freed else {B ∈ freed | ∀ x, InBlock B x → ¬InBlock (a, order) x})
  | free {s s' : Mm} {live : Multiset (Nat × Nat)} {freed : Set (Nat × Nat)} {B : Nat × Nat}
      (hrun : FreedRun L m s (B ::ₘ live) freed) (hcall : s.freePages B.1 = .ok s') :
      FreedRun L m s' live (insert B freed)
  | again {s s' : Mm} {live : Multiset (Nat × Nat)} {freed : Set (Nat × Nat)} {B : Nat × Nat}
      (hrun : FreedRun L m s live freed) (hB : B ∈ freed)
      (hflag : (s.pages (s.pageIdx B.1)).isFree = true) (hcall : s.freePages B.1 = .ok s') :
      FreedRun L m s' live freed

/-- What holds in every state of such a run: a block that was freed is where one can be. -/
structure FreedInv (s : Mm) (live : Multiset (Nat × Nat)) (freed : Set (Nat × Nat)) : Prop where
  inv : RunInv s live
  addr : ∀ B ∈ freed, ∃ h < s.numPages, B.1 = s.buddyBasePhys + h * pageSize

theorem FreedInv.pageIdx_lt {freed : Set (Nat × Nat)} (hi : FreedInv s live freed) {B : Nat × Nat}
    (hB : B ∈ freed) : s.pageIdx B.1 < s.numPages ∧ B.1 < 2 ^ 64 ∧ B.1 ≠ 0 := by
  obtain ⟨h, hlt, haddr⟩ := hi.addr B hB
  have htop := hi.inv.region.top
  have hpos := hi.inv.region.pos
  refine ⟨?_, ?_, ?_⟩
  · rw [haddr, hi.inv.region.pageIdx_head hlt]
    exact hlt
  · simp only [userEnd, pageSize] at htop haddr
    omega
  · omega

/-- The flag set, `free_pages` comes back at once. -/
theorem freePages_of_isFree {addr : Nat} (hin : s.pageIdx addr < s.numPages) (hne : addr ≠ 0)
    (hflag : (s.pages (s.pageIdx addr)).isFree = true) :
    s.freePages addr = .ok (s.derefPage 0 (s.pageIdx addr)) := by
  have hread : ((s.derefPage 0 (s.pageIdx addr)).pages (s.pageIdx addr)).isFree = true := hflag
  unfold freePages
  rw [if_neg hne, getPageStruct_ok hin, ok_bind]
  simp only [hread]
  rfl

theorem FreedRun.freedInv {freed : Set (Nat × Nat)} (hrun : FreedRun L m s live freed) :
    FreedInv s live freed := by
  induction hrun with
  | init v hinit => exact ⟨(AllocRun.init v hinit).runInv, fun B hB => absurd hB (Set.notMem_empty B)⟩
  | @alloc s s' live freed order a _ horder hcall ih =>
      have hst := (allocPages_frame hcall).statics
      refine ⟨runInv_alloc ih.inv horder hcall, fun B hB => ?_⟩
      rw [hst.base, hst.numPages]
      apply ih.addr B
      split at hB
      · exact hB
      · exact hB.1
  | @free s s' live freed B _ hcall ih =>
      have hst := (freePages_frame hcall).1.statics
      refine ⟨runInv_free ih.inv hcall, fun C hC => ?_⟩
      rw [hst.base, hst.numPages]
      apply (Set.mem_insert_iff.mp hC).elim
      · intro heq
        exact heq ▸ ih.inv.addr B (Multiset.mem_cons_self B live)
      · exact ih.addr C
  | @again s s' live freed B _ hB hflag hcall ih =>
      obtain ⟨hin, -, hne⟩ := ih.pageIdx_lt hB
      rw [freePages_of_isFree hin hne hflag] at hcall
      obtain rfl := Except.ok.inj hcall
      exact ⟨ih.inv.congr ⟨rfl, rfl, rfl, rfl⟩ rfl rfl, ih.addr⟩

/-- The call comes back and has changed nothing. -/
def Harmless (s : Mm) (addr : Nat) : Prop := ∃ s', s.freePages addr = .ok s' ∧ Traced s s'

/-- With the flag clear it has set the flag, if it comes back at all. -/
theorem not_harmless_of_clear {addr : Nat} (hr : Region s) (haddr : addr < 2 ^ 64) (hne : addr ≠ 0)
    (hflag : (s.pages (s.pageIdx addr)).isFree = false) : ¬Harmless s addr := by
  intro ⟨s', hcall, d, hs'⟩
  obtain ⟨k, k', -, -, hflags, -⟩ := freePages_flags hr haddr hne hflag hcall
  have hset : (s'.pages (s.pageIdx addr)).isFree = true :=
    (hflags _).mpr (Or.inr ⟨Or.inl rfl, not_absorbed_self _ k k'⟩)
  rw [hs'] at hset
  rw [show ({ s with derefs := d ++ s.derefs } : Mm).pages = s.pages from rfl, hflag] at hset
  exact absurd hset (by decide)

/--
**A second `free_pages` is harmless** if and only if it finds the flag of the block's record set.
By `freePages_flags` the flag is set when the block is freed, and cleared when a block that is freed
later takes the block in as its buddy.
-/
theorem FreedRun.free_again_iff {freed : Set (Nat × Nat)} (hrun : FreedRun L m s live freed)
    {B : Nat × Nat} (hB : B ∈ freed) :
    Harmless s B.1 ↔ (s.pages (s.pageIdx B.1)).isFree = true := by
  obtain ⟨hin, hlt, hne⟩ := hrun.freedInv.pageIdx_lt hB
  constructor
  · intro hharm
    by_contra hclear
    exact not_harmless_of_clear hrun.freedInv.inv.region hlt hne (Bool.eq_false_of_not_eq_true hclear)
      hharm
  · intro hflag
    exact ⟨_, freePages_of_isFree hin hne hflag, Traced.deref s _ _⟩

/-! ### Two pages freed in the wrong order -/

/-- An image of 899 pages, behind which the managed pages are 31 blocks of the largest order. -/
def alignedLayout : Layout where
  textEnd := 0x80100000
  rodataEnd := 0x80180000
  kernelEnd := 0x80383000
  textStart_le := by decide
  textEnd_le := by decide
  rodataStart_le := by decide
  rodataEnd_le := by decide
  dataStart_le := by decide
  inMemory := by decide

/-- Both halves of a pair of pages have been handed out. -/
structure PairTaken (L : Layout) (m : Nat → UInt8) (s : Mm) (a b h : Nat) (fl : Nat → List Nat) :
    Prop where
  run : ∃ freed, FreedRun L m s ((b, 0) ::ₘ (a, 0) ::ₘ 0) freed
  inv : BuddyInv s fl (handedOut s ((b, 0) ::ₘ (a, 0) ::ₘ 0)) 0
  dvd : 2 ^ maxOrder ∣ s.numPages
  lower : s.pageIdx a = h
  upper : s.pageIdx b = h + 1
  even : h ^^^ 1 = h + 1

/-- Two requests for a page split a block of the largest order down to a pair of pages. -/
theorem exists_pairTaken {kp : Nat} {s₀ : Mm} (hinit : buddyAllocatorInit L m = .ok (kp, s₀))
    (hdvd : 2 ^ maxOrder ∣ s₀.numPages) (hpos : 0 < s₀.numPages) :
    ∃ s a b h fl, PairTaken L m s a b h fl := by
  obtain ⟨-, fl₀, hi₀, hb⟩ := exists_initBlocks hinit
  have hfits : Fits s₀.numPages maxOrder := ⟨Nat.le_refl _, hdvd, Or.inl rfl⟩
  have huni := hb.uniform hi₀ hfits
  have hrun₀ := FreedRun.init vaOffsetConst hinit
  have hinv₀ : BuddyInv { s₀ with vaOffset := vaOffsetConst } fl₀
      (handedOut { s₀ with vaOffset := vaOffsetConst } 0) 0 := hi₀
  rcases hrun₀.freedInv.inv.allocPages_lists hinv₀ (Nat.zero_le maxOrder) with
    ⟨-, hnone⟩ | ⟨o, h, r, a, s₁, -, ho, -, hfl, hcall, hne, hst, hidx, hi₁⟩
  · -- some block covers the first page
    obtain ⟨B, hB, -⟩ := (tiling_filed hi₀).exists_covers hpos
    obtain ⟨hle, hmem⟩ := mem_filed.mp hB
    rw [hnone B.2 (Nat.zero_le _) hle] at hmem
    cases hmem
  · obtain ⟨rfl, hd⟩ := huni h o ho (by rw [hfl]; exact List.mem_cons_self)
    have heven : h ^^^ 1 = h + 1 := by
      have hlow : h / 2 ^ 0 % 2 = 0 := by
        have htwo : 2 ∣ h := (Dvd.intro (2 ^ 9) (by norm_num)).trans hd
        omega
      exact xor_of_lower hlow
    have hrun₁ := hrun₀.alloc (Nat.zero_le maxOrder) hcall
    rw [if_neg hne] at hrun₁
    set fl₁ := Buddy.splitLists h 0 (maxOrder - 0) (Function.update fl₀ maxOrder r) with hfl₁
    -- list 0 holds the upper page and nothing else
    have hmem₁ : ∀ x, x ∈ fl₁ 0 ↔ x = h + 1 := by
      intro x
      rw [hfl₁, Buddy.mem_splitLists]
      constructor
      · intro hor
        apply hor.elim
        · intro ⟨_, _, heq⟩
          exact heq
        · intro hx
          have hx₀ : x ∈ fl₀ 0 := update_tail_subset hfl 0 hx
          exact absurd (huni x 0 (Nat.zero_le _) hx₀).1 (by decide)
      · intro heq
        exact Or.inl ⟨Nat.le_refl 0, by decide, heq⟩
    rcases hrun₁.freedInv.inv.allocPages_lists hi₁ (Nat.zero_le maxOrder) with
      ⟨-, hnone⟩ | ⟨o, h', r', b, s₂, -, -, hnone, hfl', hcall', hne', hst', hidx', hi₂⟩
    · have hmem := (hmem₁ (h + 1)).mpr rfl
      rw [hnone 0 (Nat.le_refl 0) (Nat.zero_le _)] at hmem
      cases hmem
    · obtain rfl : o = 0 := by
        by_contra ho0
        have hmem := (hmem₁ (h + 1)).mpr rfl
        rw [hnone 0 (Nat.le_refl 0) (Nat.pos_of_ne_zero ho0)] at hmem
        cases hmem
      obtain rfl : h' = h + 1 := (hmem₁ h').mp (by rw [hfl']; exact List.mem_cons_self)
      have hrun₂ := hrun₁.alloc (Nat.zero_le maxOrder) hcall'
      rw [if_neg hne'] at hrun₂
      have hst₂ : SameStatics { s₀ with vaOffset := vaOffsetConst } s₂ := hst.trans hst'
      refine ⟨s₂, a, b, h, _, ⟨_, hrun₂⟩, hi₂, ?_, ?_, ?_, heven⟩
      · rw [hst₂.numPages]
        exact hdvd
      · rw [pageIdx_congr hst₂]
        exact hidx
      · rw [pageIdx_congr hst']
        exact hidx'

/-- The upper page freed first and the lower one after it, a second free of the upper one is not
harmless. -/
theorem PairTaken.not_harmless {a b h : Nat} {fl : Nat → List Nat}
    (hp : PairTaken L m s a b h fl) :
    ∃ s' freed, FreedRun L m s' 0 freed ∧ (b, 0) ∈ freed ∧ ¬Harmless s' b := by
  obtain ⟨freed, hrun⟩ := hp.run
  have hi := hrun.freedInv.inv
  have hodd : (h + 1) ^^^ 2 ^ 0 = h := by
    rw [pow_zero, ← hp.even, Nat.xor_xor_cancel_right]
  have hfits : h + 1 + 2 ^ 0 ≤ s.numPages := by
    have := hi.fits (B := (b, 0)) (Multiset.mem_cons_self _ _)
    rwa [hp.upper] at this
  have hlower : ((h, 0) : Block) ∈ handedOut s ((b, 0) ::ₘ (a, 0) ::ₘ 0) := by
    rw [handedOut_cons, handedOut_cons, hp.lower]
    exact Multiset.mem_cons_of_mem (Multiset.mem_cons_self _ _)
  -- the lower page is still handed out, so the upper one stays what it is
  have hnot : h ∉ fl 0 := fun hmem => hp.inv.free_ne_live (Nat.zero_le _) hmem hlower rfl
  obtain ⟨s₁, hcall, hst, hi₁⟩ := hi.freePages_of_merges hp.inv (Nat.zero_le maxOrder)
    (by rw [hp.upper]; exact Buddy.Merges.refl fl (h + 1, 0)) fun _ => by
      rw [hodd]
      exact ⟨hnot, by omega⟩
  have hrun₁ := hrun.free hcall
  have hidx₁ : s₁.pageIdx a = h := (pageIdx_congr hst a).trans hp.lower
  obtain ⟨horder, hfree⟩ := hi₁.freeRec 0 (Nat.zero_le _) (h + 1)
    (by rw [Function.update_self]; exact List.mem_cons_self)
  obtain ⟨hlorder, hlfree, -⟩ := hi₁.liveRec (h, 0) (by
    rw [handedOut_cons, hidx₁]
    exact Multiset.mem_cons_self _ _)
  obtain ⟨s₂, hcall₂⟩ : ∃ s₂, s₁.freePages a = .ok s₂ := by
    rw [hrun₁.freedInv.inv.freePages_ok_iff (B := (a, 0))]
    apply mergesInRange_of_dvd
    · rw [hst.numPages]
      exact hp.dvd
    · rw [hidx₁, hst.numPages]
      omega
  have hrun₂ := hrun₁.free (B := (a, 0)) hcall₂
  have hst₂ := (freePages_frame hcall₂).1.statics
  obtain ⟨hlt, hne⟩ := hrun₁.freedInv.inv.addr_lt (B := (a, 0)) (Multiset.mem_cons_self _ _)
  obtain ⟨k, k', hk, -, hflags, hgoes⟩ := freePages_flags hrun₁.freedInv.inv.region hlt hne
    (by rw [hidx₁]; exact hlfree) hcall₂
  rw [hidx₁] at hk hflags hgoes
  obtain rfl : k = 0 := by
    rw [hk, hlorder]
    rfl
  have hup : 0 < k' := by
    apply hgoes (by decide)
    rw [pow_zero, hp.even]
    exact ⟨hfree, horder⟩
  -- the upper page is the buddy of the first merge
  have hclear : ¬(s₂.pages (h + 1)).isFree = true := by
    rw [hflags (h + 1)]
    intro hor
    apply hor.elim
    · intro heq
      have hle : mergedHead h 0 k' ≤ h := by
        unfold mergedHead
        rw [pow_zero, Nat.mod_one, Nat.add_zero]
        exact Nat.div_mul_le_self h _
      omega
    · intro ⟨_, habs⟩
      exact habs ((absorbed_iff hup).mpr (Or.inl (by rw [pow_zero, hp.even])))
  have hmem : (b, 0) ∈ insert (a, 0) (insert (b, 0) freed) :=
    Set.mem_insert_of_mem _ (Set.mem_insert _ _)
  have hidx₂ : s₂.pageIdx b = h + 1 := by
    rw [pageIdx_congr hst₂, pageIdx_congr hst, hp.upper]
  refine ⟨s₂, _, hrun₂, hmem, ?_⟩
  obtain ⟨-, hblt, hbne⟩ := hrun₂.freedInv.pageIdx_lt hmem
  apply not_harmless_of_clear hrun₂.freedInv.inv.region hblt hbne
  rw [hidx₂]
  exact Bool.eq_false_of_not_eq_true hclear

/-- The boot of the aligned image. -/
theorem exists_init_alignedLayout :
    ∃ kp s₀, buddyAllocatorInit alignedLayout (fun _ => 0) = .ok (kp, s₀) ∧
      s₀.numPages = 31 * 2 ^ maxOrder := by
  obtain ⟨s₀, fl, hs, -, hst, -⟩ := buddyAllocatorInit_spec (L := alignedLayout) (by decide)
    fun _ => 0
  have hnum : (userEnd - initBase alignedLayout) / pageSize = 31 * 2 ^ maxOrder := by decide
  exact ⟨_, s₀, hs, hst.numPages.trans hnum⟩

theorem free_again_alignedLayout :
    ∃ s live freed B, FreedRun alignedLayout (fun _ => 0) s live freed ∧ B ∈ freed ∧
      (Harmless s B.1 ↔ (s.pages (s.pageIdx B.1)).isFree = true) := by
  obtain ⟨kp, s₀, hinit, hnum⟩ := exists_init_alignedLayout
  obtain ⟨s, a, b, h, fl, hp⟩ := exists_pairTaken hinit (hnum ▸ Nat.dvd_mul_left _ _)
    (hnum ▸ by decide)
  obtain ⟨s', freed, hrun, hmem, -⟩ := hp.not_harmless
  exact ⟨s', 0, freed, (b, 0), hrun, hmem, hrun.free_again_iff hmem⟩

/-- Take two pages, free the upper, free the lower, and free the upper once more. -/
theorem free_again_harms_alignedLayout :
    ∃ s freed B, FreedRun alignedLayout (fun _ => 0) s 0 freed ∧ B ∈ freed ∧ ¬Harmless s B.1 := by
  obtain ⟨kp, s₀, hinit, hnum⟩ := exists_init_alignedLayout
  obtain ⟨s, a, b, h, fl, hp⟩ := exists_pairTaken hinit (hnum ▸ Nat.dvd_mul_left _ _)
    (hnum ▸ by decide)
  obtain ⟨s', freed, hrun, hmem, hharm⟩ := hp.not_harmless
  exact ⟨s', freed, (b, 0), hrun, hmem, hharm⟩

end SystemN.Mm
