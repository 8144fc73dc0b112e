/-
`free_pagetable` after the boot.

The function moves its argument to the upper half first, `pagetable =
PHYS_TO_VIRT(pagetable)`, and gives the moved address to `free_page` at the end.
`get_page_struct` wants a physical address: it subtracts `buddy_base_phys` and looks at the
page number, and for an address of the upper half that number is beyond every record.  So
with `va_offset = VA_OFFSET` the deepest call that is reached first ends in the halt loop, and
no page of any table is ever freed.
-/
import SystemN.Proofs.Mm.MapPage

namespace SystemN.Mm

open Radix

/-! ### Addresses of the upper half -/

section Upper

variable {s : Mm} {n : Nat} (hoff : s.vaOffset = vaOffsetConst) (hn : IsPage n)
include hoff hn

theorem physToVirt_upper : s.physToVirt n = n + vaOffsetConst := by
  have hle := hn.le
  rw [physToVirt, hoff, u64]
  simp only [userEnd, pageSize, vaOffsetConst, kernelStartVa, kernelStart] at *
  omega

/-- No record of `page_array` is for an address of the upper half. -/
theorem freePage_upper (hregion : Region s) : s.freePage (s.physToVirt n) = .error .halt := by
  have htop := hregion.top
  have hle := hn.le
  have hvirt := physToVirt_upper hoff hn
  have hhalt : s.getPageStruct (s.physToVirt n) = .error .halt := by
    rw [getPageStruct_eq, if_pos]
    simp only [userEnd, pageSize, vaOffsetConst, kernelStartVa, kernelStart] at *
    rw [hvirt, pageIdx, sub64_of_le (by omega) (by omega)]
    simp only [pageSize]
    omega
  have hne : s.physToVirt n ≠ 0 := by
    rw [hvirt]
    exact Nat.ne_of_gt (Nat.add_pos_right n (by decide))
  rw [freePage, freePages, if_neg hne, hhalt]
  rfl

end Upper

/-! ### The recursion -/

/-- A loop whose rounds either halt or change nothing but the trace. -/
theorem foldlM_traced (s₀ : Mm) (f : Mm → Nat → Except Stop Mm) (l : List Nat)
    (hstep : ∀ s, ∀ i ∈ l, Traced s₀ s → f s i = .error .halt ∨ ∃ s', f s i = .ok s' ∧ Traced s₀ s')
    {s : Mm} (hs : Traced s₀ s) :
    l.foldlM f s = .error .halt ∨ ∃ s', l.foldlM f s = .ok s' ∧ Traced s₀ s' := by
  induction l generalizing s with
  | nil => exact .inr ⟨s, rfl, hs⟩
  | cons i l ih =>
      rw [List.foldlM_cons]
      rcases hstep s i List.mem_cons_self hs with hhalt | ⟨s', hcall, hs'⟩
      · exact .inl (by rw [hhalt]; rfl)
      · rw [hcall, ok_bind]
        exact ih (fun t j hj ht => hstep t j (List.mem_cons_of_mem _ hj) ht) hs'

section Tables

variable {ω : Type} {roots : ω → Option Nat} {o : ω} {s : Mm} {live : Multiset (Nat × Nat)}
  {n root : Nat} {p : List Index}

/-- **The deepest call halts**, and with it all calls above it.  The induction is on the levels
below the table. -/
theorem freePagetableLoop_halts (hregion : Region s) (hoff : s.vaOffset = vaOffsetConst)
    (hT : Tables s.mem roots) {level fuel : Nat} (hlen : p.length + level = 2)
    (hn : tableAt s.mem roots o p = some n) (hfuel : level < fuel) :
    freePagetableLoop fuel n s = .error .halt := by
  have hs : s.InSpace := by
    rw [InSpace, hoff]
    decide
  induction fuel generalizing level n p s with
  | zero => omega
  | succ fuel ih =>
      have hpage := hT.page n (isNode_of_nodeAt hn (by omega))
      have hloop := foldlM_traced s (fun t i => do
        let t := t.deref (pteAddr (s.physToVirt n) i) 8
        let pte := t.loadPte (pteAddr (s.physToVirt n) i)
        if pte &&& pteV ≠ 0 ∧ pte &&& (pteR ||| pteW ||| pteX) = 0 then
          freePagetableLoop fuel (pte2pa pte) t
        else pure t) (List.range pteCount) ?_ (Traced.refl s)
      · rw [freePagetableLoop]
        rcases hloop with hhalt | ⟨t, hall, d, rfl⟩
        · exact congrArg (· >>= _) hhalt
        · refine (congrArg (· >>= _) hall).trans ?_
          exact freePage_upper (s := { s with derefs := d ++ s.derefs }) hoff hpage
            ⟨hregion.pos, hregion.aligned, hregion.top⟩
      · rintro t i hi ⟨d, rfl⟩
        set j : Index := ⟨i, List.mem_range.mp hi⟩ with hj
        set a := pteAddr (s.physToVirt n) i with ha
        have hload : ({ s with derefs := d ++ s.derefs } : Mm).loadPte a = entry s.mem n j := by
          show Bytes.loadLE s.mem (s.virtToPhys a) 8 = _
          rw [ha, virtToPhys_pteAddr hs hpage j.isLt]
          rfl
        simp only [deref_loadPte, hload]
        by_cases hchild : entry s.mem n j &&& pteV ≠ 0 ∧
            entry s.mem n j &&& (pteR ||| pteW ||| pteX) = 0
        · left
          rw [if_pos hchild]
          cases level with
          | zero => exact absurd hchild.2 (hT.leaf o p n j hlen hn hchild.1)
          | succ level =>
              have hnext : tableAt s.mem roots o (j :: p) = some (pte2pa (entry s.mem n j)) := by
                rw [tableAt, nodeAt_cons hn, pteNext, if_neg hchild.1]
              have hlen' : (j :: p).length + level = 2 := by
                rw [List.length_cons]
                omega
              exact ih (s := Mm.deref { s with derefs := d ++ s.derefs } a 8)
                ⟨hregion.pos, hregion.aligned, hregion.top⟩ hoff hT hlen' hnext (by omega) hs
        · right
          rw [if_neg hchild]
          exact ⟨_, rfl, (a, 8) :: d, rfl⟩

theorem freePagetable_halts (hregion : Region s) (hoff : s.vaOffset = vaOffsetConst)
    (hT : Tables s.mem roots) (hroot : roots o = some root) :
    s.freePagetable root = .error .halt :=
  freePagetableLoop_halts hregion hoff hT (show ([] : List Index).length + 2 = 2 from rfl) hroot
    (by decide)

/-- What `free_pagetable` is for: it comes back, and of the blocks handed out exactly the pages of
the table have become free. -/
def FreesTree (roots : ω → Option Nat) (o : ω) (root : Nat) (s : Mm) (live : Multiset (Nat × Nat)) :
    Prop :=
  ∃ s' tabs live', s.freePagetable root = .ok s' ∧ tabs.Nodup ∧
    (∀ n, n ∈ tabs ↔ ∃ p, p.length ≤ 2 ∧ tableAt s.mem roots o p = some n) ∧
    live = pageBlocks tabs + live' ∧ RunInv s' live'

/--
**No table is ever freed.**  With `va_offset = VA_OFFSET` the call ends in the halt loop of
`get_page_struct` for every table, whatever it maps.
-/
theorem Owned.not_freesTree (h : Owned roots s live) (hoff : s.vaOffset = vaOffsetConst)
    (hroot : roots o = some root) :
    s.freePagetable root = .error .halt ∧ ¬FreesTree roots o root s live := by
  have hhalt := freePagetable_halts h.run.region hoff h.tables hroot
  refine ⟨hhalt, ?_⟩
  rintro ⟨s', -, -, hcall, -⟩
  rw [hhalt] at hcall
  cases hcall

end Tables

theorem exists_upper_smallLayout :
    ∃ s root, Owned (fun _ : Unit => some root) s {(root, 0)} ∧ s.vaOffset = vaOffsetConst := by
  obtain ⟨s, root, howned, -⟩ := exists_table_smallLayout
  exact ⟨{ s with vaOffset := vaOffsetConst }, root, howned.setOffset (by decide), rfl⟩

theorem not_freesTree_smallLayout :
    ∃ s root, s.freePagetable root = .error .halt ∧
      ¬FreesTree (fun _ : Unit => some root) () root s {(root, 0)} := by
  obtain ⟨s, root, howned, hoff⟩ := exists_upper_smallLayout
  exact ⟨s, root, howned.not_freesTree (o := ()) hoff rfl⟩

/-- The table that `alloc_pagetable` has just returned, after the boot, is not freed. -/
theorem freePagetable_halts_smallLayout :
    ∃ s root, Owned (fun _ : Unit => some root) s {(root, 0)} ∧ s.vaOffset = vaOffsetConst ∧
      ¬FreesTree (fun _ : Unit => some root) () root s {(root, 0)} := by
  obtain ⟨s, root, howned, hoff⟩ := exists_upper_smallLayout
  refine ⟨s, root, howned, hoff, ?_⟩
  rintro ⟨s', -, -, hcall, -⟩
  rw [freePagetable_halts (o := ()) howned.run.region hoff howned.tables rfl] at hcall
  cases hcall

end SystemN.Mm
