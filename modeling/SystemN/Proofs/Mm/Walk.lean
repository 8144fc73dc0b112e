/-
`walk`, `map_page` and `unmap_page` over the trees of `Proofs.Mm.Pagetable`.

Without allocation `walk` changes nothing but the trace and finds the entry that the tree
has.  With allocation it can be called under any invariant that survives what it does on
the way: an access, a call of `alloc_page`, and the link to the page that came back.
`Supply` is that closure, with the number of pages it takes; `Source` is one that takes any number.
-/
import SystemN.Proofs.Mm.Pagetable
import SystemN.Proofs.Mm.Frame

namespace SystemN.Mm

open Radix

/-! ### Accesses through `PHYS_TO_VIRT` -/

/-- RAM lies below the top of the address space in the half the code runs in. -/
def InSpace (s : Mm) : Prop := s.vaOffset + userEnd ≤ 2 ^ 64

theorem InSpace.congr {s s' : Mm} (h : s.InSpace) (hst : SameStatics s s') : s'.InSpace := by
  unfold InSpace at h ⊢
  rwa [hst.vaOffset]

section Access

variable {s : Mm} {n i : Nat} (hs : s.InSpace) (hn : IsPage n) (hi : i < pteCount)
include hs hn hi

theorem pteAddr_eq : pteAddr (s.physToVirt n) i = n + s.vaOffset + 8 * i := by
  have hle := hn.le
  simp only [InSpace, userEnd, pageSize, pteCount] at hs hle hi
  simp only [pteAddr, physToVirt, u64]
  omega

/-- The address of an entry is never `NULL`. -/
theorem pteAddr_ne_zero : pteAddr (s.physToVirt n) i ≠ 0 := by
  have hpos := hn.pos
  rw [pteAddr_eq hs hn hi]
  omega

theorem virtToPhys_pteAddr : s.virtToPhys (pteAddr (s.physToVirt n) i) = n + 8 * i := by
  have hle := hn.le
  rw [pteAddr_eq hs hn hi, virtToPhys, sub64_of_le (by omega)]
  · omega
  · simp only [InSpace, userEnd, pageSize, pteCount] at hs hle hi
    omega

end Access

section Vpn

variable {s : Mm} {n : Nat} (hs : s.InSpace) (hn : IsPage n)
include hs hn

theorem loadPte_eq (va level : Nat) : s.loadPte (pteAddr (s.physToVirt n) (vpnLevel va level)) =
    entry s.mem n (vpn va level) := by
  rw [loadPte, virtToPhys_pteAddr hs hn (vpnLevel_lt va level)]
  rfl

theorem storePte_eq (va level v : Nat) : s.storePte (pteAddr (s.physToVirt n) (vpnLevel va level)) v =
    (s.deref (pteAddr (s.physToVirt n) (vpnLevel va level)) 8).setMem
      (putEntry s.mem n (vpn va level) v) := by
  rw [storePte, virtToPhys_pteAddr hs hn (vpnLevel_lt va level)]
  rfl

theorem storePte_mem (va level v : Nat) :
    (s.storePte (pteAddr (s.physToVirt n) (vpnLevel va level)) v).mem =
      putEntry s.mem n (vpn va level) v := by
  rw [storePte_eq hs hn]
  rfl

end Vpn

@[simp] theorem deref_mem (s : Mm) (a len : Nat) : (s.deref a len).mem = s.mem := rfl
@[simp] theorem deref_vaOffset (s : Mm) (a len : Nat) : (s.deref a len).vaOffset = s.vaOffset := rfl

@[simp] theorem deref_physToVirt (s : Mm) (a len n : Nat) :
    (s.deref a len).physToVirt n = s.physToVirt n := rfl

@[simp] theorem deref_loadPte (s : Mm) (a len pte : Nat) :
    (s.deref a len).loadPte pte = s.loadPte pte := rfl

@[simp] theorem storePte_vaOffset (s : Mm) (pte v : Nat) :
    (s.storePte pte v).vaOffset = s.vaOffset := rfl

theorem Later.storePte (s : Mm) (pte v : Nat) : Later s (s.storePte pte v) :=
  (Later.deref s pte 8).trans (Later.setMem _ _)

/-- Only the trace has changed. -/
def Traced (s s' : Mm) : Prop := ∃ d, s' = { s with derefs := d ++ s.derefs }

namespace Traced

theorem refl (s : Mm) : Traced s s := ⟨[], rfl⟩

theorem deref (s : Mm) (a len : Nat) : Traced s (s.deref a len) := ⟨[(a, len)], rfl⟩

theorem trans {s s' s'' : Mm} (h : Traced s s') (h' : Traced s' s'') : Traced s s'' := by
  obtain ⟨d, rfl⟩ := h
  obtain ⟨d', rfl⟩ := h'
  exact ⟨d' ++ d, by simp⟩

theorem mem {s s' : Mm} (h : Traced s s') : s'.mem = s.mem := by
  obtain ⟨d, rfl⟩ := h
  rfl

theorem vaOffset {s s' : Mm} (h : Traced s s') : s'.vaOffset = s.vaOffset := by
  obtain ⟨d, rfl⟩ := h
  rfl

theorem physToVirt {s s' : Mm} (h : Traced s s') (pa : Nat) :
    s'.physToVirt pa = s.physToVirt pa := by
  obtain ⟨d, rfl⟩ := h
  rfl

theorem later {s s' : Mm} (h : Traced s s') : Later s s' := by
  obtain ⟨d, rfl⟩ := h
  exact ⟨⟨rfl, rfl, rfl, rfl⟩, d, rfl⟩

end Traced

/-! ### `walk` without allocation -/

section Find

variable {ω : Type} {s : Mm} {roots : ω → Option Nat} {o : ω} {n va : Nat}

/-- The pointer that a walk to the table `t` returns: `NULL` if there is none. -/
def entryPtr (s : Mm) (va : Nat) : Option Nat → Nat
  | none => 0
  | some t => pteAddr (s.physToVirt t) (vpnLevel va 0)

theorem walkLoop_find (alloc : AllocPage) (hs : s.InSpace) (hT : Tables s.mem roots) (va : Nat)
    {level : Nat} (hlevel : level ≤ 2) (hn : tableAt s.mem roots o (vpnPath va level) = some n) :
    ∃ s', walkLoop alloc va false level (s.physToVirt n) s =
      .ok (s.entryPtr va (tableAt s.mem roots o (vpnPath va 0)), s') ∧ Traced s s' := by
  induction level generalizing n s with
  | zero =>
      rw [hn]
      exact ⟨s, rfl, Traced.refl s⟩
  | succ level ih =>
      have hpage := hT.page n (isNode_of_nodeAt hn (by rw [vpnPath_length va hlevel]; omega))
      have hlt : level < 2 := by omega
      set pte := pteAddr (s.physToVirt n) (vpnLevel va (level + 1)) with hpte
      have hload : (s.deref pte 8).loadPte pte = entry s.mem n (vpn va (level + 1)) :=
        loadPte_eq hs hpage _ _
      have hstep := tableAt_step va hlt hn
      simp only [walkLoop, ← hpte, hload]
      by_cases hV : entry s.mem n (vpn va (level + 1)) &&& pteV = 0
      · rw [pteNext_eq_none.mpr hV] at hstep
        rw [if_neg (not_not.mpr hV), tableAt_none va hlt hstep]
        exact ⟨s.deref pte 8, rfl, Traced.deref s _ _⟩
      · rw [if_pos hV]
        rw [pteNext, if_neg hV] at hstep
        obtain ⟨s', hs', htr⟩ := ih (s := s.deref pte 8) hs hT (by omega) hstep
        exact ⟨s', hs', (Traced.deref s _ _).trans htr⟩

/-- **`walk` without allocation** finds the entry that the tree has, and writes nothing. -/
theorem walk_find (alloc : AllocPage) (hs : s.InSpace) (hT : Tables s.mem roots) {root : Nat}
    (hroot : roots o = some root) (va : Nat) :
    ∃ s', walk alloc (s.physToVirt root) va false s =
      .ok (s.entryPtr va (tableAt s.mem roots o (vpnPath va 0)), s') ∧ Traced s s' :=
  walkLoop_find alloc hs hT va (le_refl 2) hroot

end Find

/-! ### `walk` with allocation -/

/-- `J` survives what `walk` does when it allocates: every access, every call of the allocator,
and the link to the page that the call returned. -/
structure Source {ω : Type} (alloc : AllocPage) (roots : ω → Option Nat) (J : Mm → Prop) :
    Prop where
  tables : ∀ s, J s → Tables s.mem roots
  inSpace : ∀ s, J s → s.InSpace
  deref : ∀ s a len, J s → J (s.deref a len)
  call : ∀ s, J s → ∃ a s', alloc s = .ok (a, s') ∧ s'.vaOffset = s.vaOffset ∧ (a = 0 → J s') ∧
    (a ≠ 0 → ∀ o p n i, p.length < 2 → tableAt s.mem roots o p = some n →
      entry s.mem n i &&& pteV = 0 → NewTable s.mem s'.mem roots o p n i a ∧
        ∀ pte, J ((s'.deref pte 8).setMem (linkTable s'.mem n i a)))

section Alloc

variable {ω : Type} [DecidableEq ω] {s : Mm} {roots : ω → Option Nat} {o : ω} {n root : Nat}
  {alloc : AllocPage} {J : Mm → Prop}

/-- What `walk` asks of its allocator, with the number of pages it may still take: `J` survives every
access, a call of the allocator, and the link to the page that the call returned; after a call that
returned nothing `Dry` holds. -/
structure Supply (alloc : AllocPage) (roots : ω → Option Nat) (J : Nat → Mm → Prop)
    (Dry : Mm → Prop) : Prop where
  tables : ∀ k s, J k s → Tables s.mem roots
  inSpace : ∀ k s, J k s → s.InSpace
  deref : ∀ k s a len, J k s → J k (s.deref a len)
  weaken : ∀ k s, J (k + 1) s → J k s
  call : ∀ k s, J (k + 1) s → ∃ a s', alloc s = .ok (a, s') ∧ s'.vaOffset = s.vaOffset ∧
    (a = 0 → J k s' ∧ Dry s') ∧
    (a ≠ 0 → ∀ o p n i, p.length < 2 → tableAt s.mem roots o p = some n →
      entry s.mem n i &&& pteV = 0 → NewTable s.mem s'.mem roots o p n i a ∧
        ∀ pte, J k ((s'.deref pte 8).setMem (linkTable s'.mem n i a)))

/-- What the walk to `va` in the tree of `o` asks: here the allocator is told which entry the page
is for. -/
structure SupplyAt (alloc : AllocPage) (roots : ω → Option Nat) (o : ω) (va : Nat)
    (J : Nat → Mm → Prop) (Dry : Mm → Prop) : Prop where
  tables : ∀ k s, J k s → Tables s.mem roots
  inSpace : ∀ k s, J k s → s.InSpace
  deref : ∀ k s a len, J k s → J k (s.deref a len)
  weaken : ∀ k s, J (k + 1) s → J k s
  call : ∀ k s n, k < 2 → J (k + 1) s → tableAt s.mem roots o (vpnPath va (k + 1)) = some n →
    entry s.mem n (vpn va (k + 1)) &&& pteV = 0 →
    ∃ a s', alloc s = .ok (a, s') ∧ s'.vaOffset = s.vaOffset ∧ (a = 0 → J k s' ∧ Dry s') ∧
      (a ≠ 0 → NewTable s.mem s'.mem roots o (vpnPath va (k + 1)) n (vpn va (k + 1)) a ∧
        ∀ pte, J k ((s'.deref pte 8).setMem (linkTable s'.mem n (vpn va (k + 1)) a)))

section Supply

variable {K : Nat → Mm → Prop} {Dry : Mm → Prop}

omit [DecidableEq ω] in
theorem Supply.at (hsup : Supply alloc roots K Dry) (o : ω) (va : Nat) :
    SupplyAt alloc roots o va K Dry where
  tables := hsup.tables
  inSpace := hsup.inSpace
  deref := hsup.deref
  weaken := hsup.weaken
  call k s n hk hK hn hfree := by
    obtain ⟨a, s', hcall, hoff, hnull, hlink⟩ := hsup.call k s hK
    refine ⟨a, s', hcall, hoff, hnull, fun ha => hlink ha o _ n _ ?_ hn hfree⟩
    rw [vpnPath_length va (show k + 1 ≤ 2 from hk)]
    omega

variable {va : Nat}

omit [DecidableEq ω] in
theorem SupplyAt.weaken_le (hsup : SupplyAt alloc roots o va K Dry) {k j : Nat} (hle : k ≤ j)
    (hK : K j s) : K k s := by
  induction hle with
  | refl => exact hK
  | step _ ih => exact ih (hsup.weaken _ _ hK)

theorem SupplyAt.walkLoop (hsup : SupplyAt alloc roots o va K Dry) {level : Nat} (hK : K level s)
    (hlevel : level ≤ 2) (hn : tableAt s.mem roots o (vpnPath va level) = some n) :
    ∃ pte s', walkLoop alloc va true level (s.physToVirt n) s = .ok (pte, s') ∧ K 0 s' ∧
      (pte = 0 ∧ Dry s' ∨
        ∃ t, tableAt s'.mem roots o (vpnPath va 0) = some t ∧
          pte = pteAddr (s'.physToVirt t) (vpnLevel va 0)) := by
  induction level generalizing n s with
  | zero => exact ⟨_, s, rfl, hK, .inr ⟨n, hn, rfl⟩⟩
  | succ level ih =>
      have hlen : (vpnPath va (level + 1)).length < 2 := by
        rw [vpnPath_length va hlevel]
        omega
      have hpage := (hsup.tables _ s hK).page n (isNode_of_nodeAt hn hlen.le)
      have hs := hsup.inSpace _ s hK
      have hcons := vpnPath_cons va (show level < 2 by omega)
      set pte := pteAddr (s.physToVirt n) (vpnLevel va (level + 1)) with hpte
      have hload : (s.deref pte 8).loadPte pte = entry s.mem n (vpn va (level + 1)) :=
        loadPte_eq hs hpage _ _
      simp only [Mm.walkLoop, ← hpte, hload, Bool.not_true, Bool.false_eq_true, if_false]
      have hKd := hsup.deref _ s pte 8 hK
      by_cases hV : entry s.mem n (vpn va (level + 1)) &&& pteV = 0
      · -- the entry is empty: ask for a page and link it
        rw [if_neg (not_not.mpr hV)]
        obtain ⟨a, s', hcall, hoff, hnull, hlink⟩ :=
          hsup.call level (s.deref pte 8) n (by omega) hKd hn hV
        rw [hcall, ok_bind]
        by_cases ha : a = 0
        · simp only [ha, if_true]
          obtain ⟨hK', hdry⟩ := hnull ha
          exact ⟨0, s', rfl, hsup.weaken_le (Nat.zero_le _) hK', .inl ⟨rfl, hdry⟩⟩
        · obtain ⟨hnew, hK'⟩ := hlink ha
          have hoff' : s'.physToVirt n = s.physToVirt n := by
            simp only [physToVirt, hoff, deref_vaOffset]
          have hs' : s'.InSpace := by
            rw [InSpace, hoff]
            exact hs
          have hstore := storePte_eq hs' hpage va (level + 1) (pa2pte a ||| pteV)
          rw [hoff', ← hpte] at hstore
          have hat := hnew.tableAt_new
          rw [← hcons] at hat
          simp only [ha, if_false]
          rw [hstore]
          exact ih (hK' pte) (by omega) hat
      · rw [if_pos hV]
        have hstep := tableAt_step va (show level < 2 by omega) hn
        rw [pteNext, if_neg hV] at hstep
        exact ih (hsup.weaken _ _ hKd) (by omega) hstep

/-- **What `map_page` does** with such an allocator: it fails because a page was refused, or it
finds the page mapped, or it writes the entry. -/
theorem SupplyAt.mapPage (hsup : SupplyAt alloc roots o va K Dry) (hK : K 2 s)
    (hroot : roots o = some root) (pa perm : Nat) :
    ∃ s', K 0 s' ∧
      (mapPageWith alloc root va pa perm s = .ok (false, s') ∧ Dry s' ∨
       mapPageWith alloc root va pa perm s = .ok (true, s') ∧ leafOf s'.mem roots o va ≠ none ∨
       ∃ t pte, tableAt s'.mem roots o (vpnPath va 0) = some t ∧ leafOf s'.mem roots o va = none ∧
         mapPageWith alloc root va pa perm s = .ok (true, (s'.deref pte 8).setMem
           (putEntry s'.mem t (vpn va 0) (pa2pte pa ||| mapFlags perm)))) := by
  obtain ⟨pte, s', hwalk, hK', hres⟩ := hsup.walkLoop hK (le_refl 2) hroot
  have hwalk' : walk alloc (s.physToVirt root) va true s = .ok (pte, s') := hwalk
  rcases hres with ⟨rfl, hdry⟩ | ⟨t, ht, rfl⟩
  · exact ⟨s', hK', .inl ⟨by rw [mapPageWith, hwalk']; rfl, hdry⟩⟩
  · have hs := hsup.inSpace _ s' hK'
    have hpage := (hsup.tables _ s' hK').page t (isNode_of_nodeAt ht (le_refl 2))
    have hload := loadPte_eq hs hpage va 0
    have hne := pteAddr_ne_zero hs hpage (vpnLevel_lt va 0)
    set pte := pteAddr (s'.physToVirt t) (vpnLevel va 0)
    have hstore := storePte_eq (s := s'.deref pte 8) hs hpage va 0
    have hleaf : leafOf s'.mem roots o va = pteLeaf (entry s'.mem t (vpn va 0)) :=
      lookup_of_nodeAt ht
    by_cases hV : entry s'.mem t (vpn va 0) &&& pteV = 0
    · refine ⟨s'.deref pte 8, hsup.deref _ s' pte 8 hK', .inr (.inr ⟨t, pte, ht, ?_, ?_⟩)⟩
      · exact hleaf.trans (pteLeaf_eq_none.mpr hV)
      · rw [mapPageWith, hwalk', ok_bind]
        simp only [if_neg hne, deref_loadPte, hload, hV, if_true, mapEntry_eq]
        exact congrArg (fun x => Except.ok (true, x)) (hstore _)
    · refine ⟨s'.deref pte 8, hsup.deref _ s' pte 8 hK', .inr (.inl ⟨?_, ?_⟩)⟩
      · rw [mapPageWith, hwalk', ok_bind]
        simp only [if_neg hne, deref_loadPte, hload, hV, if_false]
        rfl
      · exact fun hnone => hV (pteLeaf_eq_none.mp (hleaf.symm.trans hnone))

end Supply

/-- A call of the allocator that gave nothing. -/
def Refused (alloc : AllocPage) (J : Mm → Prop) : Prop := ∃ t t', J t ∧ alloc t = .ok (0, t')

omit [DecidableEq ω] in
theorem Source.supply (hsrc : Source alloc roots J) :
    Supply alloc roots (fun _ => J) fun _ => Refused alloc J where
  tables _ := hsrc.tables
  inSpace _ := hsrc.inSpace
  deref _ := hsrc.deref
  weaken _ _ h := h
  call _ s hJ := by
    obtain ⟨a, s', hcall, hoff, hnull, hlink⟩ := hsrc.call s hJ
    exact ⟨a, s', hcall, hoff, fun ha => ⟨hnull ha, s, s', hJ, ha ▸ hcall⟩, hlink⟩

/-- **What `map_page` does** under an invariant of its allocator: it fails because a page was
refused, or it finds the page mapped, or it writes the entry. -/
theorem mapPageWith_cases (hsrc : Source alloc roots J) (hJ : J s) (hroot : roots o = some root)
    (va pa perm : Nat) :
    ∃ s', J s' ∧
      (mapPageWith alloc root va pa perm s = .ok (false, s') ∧ Refused alloc J ∨
       mapPageWith alloc root va pa perm s = .ok (true, s') ∧ leafOf s'.mem roots o va ≠ none ∨
       ∃ t pte, tableAt s'.mem roots o (vpnPath va 0) = some t ∧ leafOf s'.mem roots o va = none ∧
         mapPageWith alloc root va pa perm s = .ok (true, (s'.deref pte 8).setMem
           (putEntry s'.mem t (vpn va 0) (pa2pte pa ||| mapFlags perm)))) :=
  (hsrc.supply.at o va).mapPage hJ hroot pa perm

end Alloc

/-! ### `unmap_page` -/

/-- **What `unmap_page` does**: it fails on a page that is not mapped, and else clears the entry
once `free_page` has come back. -/
theorem unmapPage_cases {ω : Type} {s : Mm} {roots : ω → Option Nat} {o : ω} {root : Nat}
    (hs : s.InSpace) (hT : Tables s.mem roots) (hroot : roots o = some root) (va : Nat) :
    ∃ t, Traced s t ∧
      (leafOf s.mem roots o va = none ∧ unmapPage root va s = .ok (false, t) ∨
       ∃ n pa f, tableAt s.mem roots o (vpnPath va 0) = some n ∧
         leafOf s.mem roots o va = some (pa, f) ∧
         unmapPage root va s = do
           let t' ← t.freePage pa
           pure (true, t'.storePte (pteAddr (s.physToVirt n) (vpnLevel va 0)) 0)) := by
  obtain ⟨t, hwalk, htr⟩ := walk_find Mm.allocPage hs hT hroot va
  cases hn : tableAt s.mem roots o (vpnPath va 0) with
  | none =>
      refine ⟨t, htr, .inl ⟨lookup_of_nodeAt_none hn, ?_⟩⟩
      rw [unmapPage, hwalk, ok_bind, hn]
      rfl
  | some n =>
      have hpage := hT.page n (isNode_of_nodeAt hn (le_refl 2))
      have hne := pteAddr_ne_zero hs hpage (vpnLevel_lt va 0)
      have hleaf : leafOf s.mem roots o va = pteLeaf (entry s.mem n (vpn va 0)) :=
        lookup_of_nodeAt hn
      have hload : t.loadPte (pteAddr (s.physToVirt n) (vpnLevel va 0)) =
          entry s.mem n (vpn va 0) := by
        obtain ⟨d, rfl⟩ := htr
        exact loadPte_eq hs hpage _ _
      rw [hn] at hwalk
      refine ⟨t.deref (pteAddr (s.physToVirt n) (vpnLevel va 0)) 8,
        htr.trans (Traced.deref t _ _), ?_⟩
      rw [unmapPage, hwalk, ok_bind]
      simp only [entryPtr, if_neg hne, deref_loadPte, hload]
      by_cases hV : entry s.mem n (vpn va 0) &&& pteV = 0
      · rw [if_pos hV]
        exact .inl ⟨hleaf.trans (pteLeaf_eq_none.mpr hV), rfl⟩
      · rw [if_neg hV]
        refine .inr ⟨n, pte2pa (entry s.mem n (vpn va 0)), pteFlags (entry s.mem n (vpn va 0)),
          rfl, ?_, rfl⟩
        rw [hleaf, pteLeaf, if_neg hV]

/-! ### The hardware walk -/

section Hardware

variable {ω : Type} {roots : ω → Option Nat} {o : ω}

/-- Above the last level an entry has none of `R`, `W`, `X`. -/
def Pointers (m : Nat → UInt8) (roots : ω → Option Nat) : Prop :=
  ∀ o p n i, p.length < 2 → tableAt m roots o p = some n → entry m n i &&& pteV ≠ 0 →
    entry m n i &&& (pteR ||| pteW ||| pteX) = 0

/-- What the hardware makes of an entry of the last level: a pointer has no place there. -/
def hwLeaf (pte : Nat) : Option (Nat × Nat) :=
  if pte &&& pteV = 0 then none
  else if pte &&& (pteR ||| pteW ||| pteX) ≠ 0 then some (pte2pa pte, pteFlags pte)
  else none

theorem leafFrom_eq {s : Mm} (hP : Pointers s.mem roots) (va : Nat) {level n : Nat}
    (hlevel : level ≤ 2) (hn : tableAt s.mem roots o (vpnPath va level) = some n) :
    (s.leafFrom va level n).map (fun (pte, level) =>
        (pte2pa pte + va % (pageSize <<< (9 * level)), pteFlags pte)) =
      (lookup pteNext (entry s.mem) roots hwLeaf o (vpn va 0) (vpnPath va 0)).map
        fun (pa, f) => (pa + va % pageSize, f) := by
  induction level generalizing n with
  | zero =>
      rw [lookup_of_nodeAt hn, leafFrom, hwLeaf]
      simp only [show s.entryAt n (vpnLevel va 0) = entry s.mem n (vpn va 0) from rfl]
      split
      · rfl
      · split <;> rfl
  | succ level ih =>
      have hlt : level < 2 := by omega
      have hlen : (vpnPath va (level + 1)).length < 2 := by
        rw [vpnPath_length va hlevel]
        omega
      have hstep := tableAt_step va hlt hn
      rw [leafFrom]
      simp only [show s.entryAt n (vpnLevel va (level + 1)) = entry s.mem n (vpn va (level + 1))
        from rfl]
      by_cases hV : entry s.mem n (vpn va (level + 1)) &&& pteV = 0
      · rw [pteNext_eq_none.mpr hV] at hstep
        rw [if_pos hV, lookup_of_nodeAt_none (tableAt_none va hlt hstep)]
        rfl
      · rw [pteNext, if_neg hV] at hstep
        rw [if_neg hV, if_neg (not_not.mpr (hP o _ n _ hlen hn hV))]
        exact ih (by omega) hstep

theorem translate_lookup {s : Mm} {root : Nat} (hP : Pointers s.mem roots)
    (hroot : roots o = some root) {va : Nat} (hva : Canonical va) :
    s.translate root va =
      (lookup pteNext (entry s.mem) roots hwLeaf o (vpn va 0) (vpnPath va 0)).map
        fun (pa, f) => (pa + va % pageSize, f) := by
  rw [translate, if_pos hva]
  exact leafFrom_eq hP va (le_refl 2) hroot

/-- **The hardware and the tree agree.** -/
theorem translate_eq {s : Mm} {root : Nat} (hT : Tables s.mem roots) (hroot : roots o = some root)
    {va : Nat} (hva : Canonical va) :
    s.translate root va =
      (leafOf s.mem roots o va).map fun (pa, f) => (pa + va % pageSize, f) := by
  rw [translate_lookup hT.pointer hroot hva]
  cases hn : tableAt s.mem roots o (vpnPath va 0) with
  | none => rw [leafOf, lookup_of_nodeAt_none hn, lookup_of_nodeAt_none hn]
  | some t =>
      rw [leafOf, lookup_of_nodeAt hn, lookup_of_nodeAt hn, hwLeaf, pteLeaf]
      by_cases hV : entry s.mem t (vpn va 0) &&& pteV = 0
      · rw [if_pos hV, if_pos hV]
      · rw [if_neg hV, if_neg hV, if_pos (hT.leaf o _ t (vpn va 0) rfl hn hV)]

end Hardware

end SystemN.Mm
