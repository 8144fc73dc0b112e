/-
`kmalloc` when no page is left.

`alloc_page` returns `NULL`, and `kmalloc` adds `va_offset` before it looks.  Where that is
zero the call ends there: it has changed nothing and the lock of the cache is free again.
Anywhere else `va_offset` itself passes for a page, and is cut into objects that lie over the
first page of physical memory.

The last object of such a page may be `NULL` once more, where an address wraps.  Its link is
then the object before it, so the cache has changed if the result has not.
-/
import SystemN.Proofs.Mm.Calls
import SystemN.Proofs.Mm.Slab
import SystemN.Proofs.KernelRun

namespace SystemN

open Mm Programs Programs.Prog

theorem Mm.physToVirt_zero (s : Mm) : s.physToVirt 0 = s.vaOffset % 2 ^ 64 := by
  rw [physToVirt, Nat.zero_add, u64]

/-! ### `kmalloc` -/

namespace Snub

variable {s s' : Snub} {size i p : Nat}

theorem refill_zero (hnull : s.mm.allocPage = .ok (0, s.mm)) (hoff : s.mm.physToVirt 0 = 0) :
    s.refill i = .ok (false, s) := by
  unfold refill
  rw [hnull, ok_bind]
  exact if_pos hoff

theorem kmalloc_zero (hnull : s.mm.allocPage = .ok (0, s.mm)) (hoff : s.mm.physToVirt 0 = 0)
    (hclass : sizeToIdx size = some i) (hempty : (s.caches i).partialList = 0) :
    s.kmalloc size = .ok (0, s) :=
  kmalloc_of_refill hclass hempty (refill_zero hnull hoff)

/-- The last round of the loop stores the link of the object that becomes the head. -/
theorem threadObjs_succ (page objectSize n : Nat) :
    ∀ (j head : Nat) (s : Snub), ∃ s' : Snub, SameRecords s.mm s'.mm ∧
      threadObjs page objectSize (n + 1) j head s = (u64 (page + (j + n) * objectSize),
        s'.storePtr (u64 (page + (j + n) * objectSize))
          (if n = 0 then head else u64 (page + (j + n - 1) * objectSize))) := by
  induction n with
  | zero => exact fun j head s => ⟨s, ⟨SameStatics.refl s.mm, rfl, rfl⟩, rfl⟩
  | succ n ih =>
      intro j head s
      obtain ⟨s', hst, hrun⟩ := ih (j + 1) (u64 (page + j * objectSize))
        (s.storePtr (u64 (page + j * objectSize)) head)
      refine ⟨s', (storePtr_sameRecords s _ head).trans hst, ?_⟩
      rw [threadObjs, hrun, if_neg (Nat.succ_ne_zero n), show j + 1 + n = j + (n + 1) by omega]
      cases n with
      | zero => rfl
      | succ n => rfl

/-- From an address that is not zero a page is threaded, and the head does not lead to itself. -/
theorem threadObjs_link {page : Nat} (hi : i ≤ 8) (hpage : page ≠ 0) (hlt : page < 2 ^ 64)
    (s : Snub) : ∃ (n : Nat) (s' : Snub), perPage i = n + 1 ∧ SameRecords s.mm s'.mm ∧
      threadObjs page (classSize i) (perPage i) 0 0 s = (u64 (page + n * classSize i), s') ∧
      s'.loadPtr (u64 (page + n * classSize i)) ≠ u64 (page + n * classSize i) := by
  obtain ⟨n, hn⟩ : ∃ n, perPage i = n + 1 := ⟨perPage i - 1, by
    have hpos : 0 < perPage i := Nat.two_pow_pos _
    omega⟩
  obtain ⟨s', hst, hrun⟩ := threadObjs_succ page (classSize i) n 0 0 s
  rw [Nat.zero_add] at hrun
  refine ⟨n, _, hn, hst.trans (storePtr_sameRecords s' _ _), hn ▸ hrun, ?_⟩
  rw [loadPtr_storePtr]
  cases n with
  | zero =>
      rw [Nat.zero_mul, Nat.add_zero, u64, Nat.mod_eq_of_lt hlt]
      exact hpage.symm
  | succ n =>
      have hge := classSize_ge i
      have hle : classSize i ≤ pageSize := by
        have hmul := perPage_mul hi
        rw [hn, Nat.succ_mul] at hmul
        omega
      rw [if_neg (Nat.succ_ne_zero n), Nat.add_sub_cancel, Nat.succ_mul]
      simp only [u64, pageSize] at *
      omega

/-- Where `va_offset` passes for a page, the last of its objects is returned. -/
theorem kmalloc_offset (hnull : s.mm.allocPage = .ok (0, s.mm)) (hoff : s.mm.physToVirt 0 ≠ 0)
    (hclass : sizeToIdx size = some i) (hempty : (s.caches i).partialList = 0)
    (hsize : (s.caches i).objectSize = classSize i) :
    ∃ n p s', perPage i = n + 1 ∧ p = u64 (s.mm.physToVirt 0 + n * classSize i) ∧
      SameRecords s.mm s'.mm ∧ s.kmalloc size = .ok (p, s') ∧ (s'.caches i).partialList ≠ p := by
  have hi := (sizeToIdx_some hclass).1
  have hlt : s.mm.physToVirt 0 < 2 ^ 64 := Nat.mod_lt _ (by decide)
  obtain ⟨n, s', hn, hst, hthread, hne⟩ := threadObjs_link hi hoff hlt s
  obtain ⟨p, hp⟩ : ∃ p, p = u64 (s.mm.physToVirt 0 + n * classSize i) := ⟨_, rfl⟩
  rw [← hp] at hthread hne
  have hrefill : s.refill i = .ok (true, s'.setCache i p) := by
    unfold refill
    rw [hnull, ok_bind]
    dsimp only
    rw [if_neg hoff, hsize, pageSize_div hi, hthread]
    rfl
  have hcall := kmalloc_of_refill hclass hempty hrefill
  have hpop : (s'.setCache i p).popObj i = (p, ((s'.setCache i p).popObj i).2) := by
    rw [popObj, partialList_setCache_self]
  rw [if_pos rfl, hpop] at hcall
  have hst' : SameRecords s.mm ((s'.setCache i p).popObj i).2.mm :=
    hst.trans ⟨⟨rfl, rfl, rfl, rfl⟩, rfl, rfl⟩
  refine ⟨n, p, _, hn, hp, hst', hcall, ?_⟩
  rw [popObj, partialList_setCache_self, partialList_setCache_self]
  exact hne

/-- `kzalloc` returns `NULL` only where `kmalloc` does. -/
theorem kzalloc_null (h : s.kzalloc size = .ok (0, s')) : s.kmalloc size = .ok (0, s') := by
  obtain ⟨⟨p, t⟩, hmalloc, h⟩ := bind_eq_ok.mp h
  dsimp only at h
  split at h
  · rename_i hp
    rw [hmalloc, hp]
    exact h
  · rename_i hp
    obtain ⟨m, -, h⟩ := bind_eq_ok.mp h
    exact absurd (Prod.mk.inj (Except.ok.inj h)).1 hp

end Snub

/-! ### The calls with their locks -/

namespace Calls

variable {x : Shared} {mm : Mm} {size i : Nat} {p : Code Nat} {S : Snub} {a : Nat}

/-- The call has returned `NULL`: no memory is written, the caches are what they were, and no lock is
held. -/
structure ReportsNull (p : Code Nat) (x : Shared) : Prop where
  returns : (p.alone x).1 = .ok 0
  mem : (p.alone x).2.snub.mm.mem = x.snub.mm.mem
  caches : (p.alone x).2.snub.caches = x.snub.caches
  locks : p.heldAlone [] x = []

theorem reportsNull_of_ends (hbal : p.Balanced Lock.rank [])
    (hends : Ends snubPart x p x.snub (.ok (0, x.snub))) : ReportsNull p x := by
  have hend : p.alone x = (.ok 0, x) := hends
  refine ⟨?_, ?_, ?_, Ordered.heldAlone hbal hend⟩
  · rw [hend]
  · rw [hend]
  · rw [hend]

theorem ReportsNull.ends (h : ReportsNull p x)
    (hends : Ends snubPart x p x.snub (.ok (a, S))) : a = 0 ∧ S.caches = x.snub.caches := by
  have hend : p.alone x = (.ok a, snubPart.put x S) := hends
  have hreturns := h.returns
  have hcaches := h.caches
  rw [hend] at hreturns hcaches
  exact ⟨Except.ok.inj hreturns, hcaches⟩

/-- A `NULL` of either call would be one of `kmalloc`, and then the list of the class is not empty. -/
theorem not_reportsNull (hnull : x.snub.mm.allocPage = .ok (0, x.snub.mm))
    (hoff : x.snub.mm.physToVirt 0 ≠ 0) (hclass : sizeToIdx size = some i)
    (hempty : (x.snub.caches i).partialList = 0)
    (hsize : (x.snub.caches i).objectSize = Snub.classSize i) :
    ¬ReportsNull (kmalloc size) x ∧ ¬ReportsNull (kzalloc size) x := by
  obtain ⟨n, p, s', -, -, -, hcall, hne⟩ := Snub.kmalloc_offset hnull hoff hclass hempty hsize
  have hnot : ∀ S, x.snub.kmalloc size = .ok (0, S) → S.caches ≠ x.snub.caches := by
    intro S hS hcaches
    rw [hcall] at hS
    obtain ⟨rfl, rfl⟩ := Prod.mk.inj (Except.ok.inj hS)
    rw [hcaches, hempty] at hne
    exact hne rfl
  constructor
  · intro h
    have hends := kmalloc_ends (x := x) x.snub size
    rw [hcall] at hends
    obtain ⟨rfl, hcaches⟩ := h.ends hends
    exact hnot s' hcall hcaches
  · intro h
    have hends := kzalloc_ends (x := x) x.snub size
    cases hz : x.snub.kzalloc size with
    | error e =>
        rw [hz] at hends
        have hend : ((kzalloc size).alone x).1 = .error e := hends
        rw [h.returns] at hend
        cases hend
    | ok r =>
        rw [hz] at hends
        obtain ⟨hp, hcaches⟩ := h.ends hends
        have hr : x.snub.kzalloc size = .ok (0, r.2) := by rw [hz, ← hp]
        exact hnot r.2 (Snub.kzalloc_null hr) hcaches

/--
**Exhaustion is reported without `va_offset` only.**  When the partial list is empty and `alloc_page`
returns `NULL`, then `kmalloc` and `kzalloc` return `NULL` with nothing changed if and only if
`PHYS_TO_VIRT` takes `NULL` to itself.
-/
theorem exhaustion_reported_iff (hr : Region x.snub.mm)
    (hsize : (x.snub.caches i).objectSize = Snub.classSize i) (hclass : sizeToIdx size = some i)
    (hempty : (x.snub.caches i).partialList = 0) (hnull : x.snub.mm.allocPage = .ok (0, mm)) :
    (ReportsNull (kmalloc size) x ↔ x.snub.mm.vaOffset % 2 ^ 64 = 0) ∧
      (ReportsNull (kzalloc size) x ↔ x.snub.mm.vaOffset % 2 ^ 64 = 0) := by
  obtain rfl : mm = x.snub.mm := allocPages_null hr hnull
  rw [← physToVirt_zero]
  by_cases hoff : x.snub.mm.physToVirt 0 = 0
  · have hmalloc := kmalloc_ends (x := x) x.snub size
    have hzalloc := kzalloc_ends (x := x) x.snub size
    have hzero := Snub.kmalloc_zero hnull hoff hclass hempty
    have hzero' : x.snub.kzalloc size = .ok (0, x.snub) := by
      rw [Snub.kzalloc, hzero]
      rfl
    rw [hzero] at hmalloc
    rw [hzero'] at hzalloc
    exact ⟨iff_of_true (reportsNull_of_ends (kmalloc_balanced size) hmalloc) hoff,
      iff_of_true (reportsNull_of_ends (kzalloc_balanced size) hzalloc) hoff⟩
  · obtain ⟨hmalloc, hzalloc⟩ := not_reportsNull hnull hoff hclass hempty hsize
    exact ⟨iff_of_false hmalloc hoff, iff_of_false hzalloc hoff⟩

/-! ### A small image -/

/-- After the boot all pages can be taken, and then `alloc_page` returns `NULL`. -/
theorem exists_exhausted_smallLayout :
    ∃ kp S n as t, mmInit smallLayout (fun _ => 0) = .ok (kp, S) ∧ takePages n S.mm = .ok (as, t) ∧
      t.allocPage = .ok (0, t) ∧ Region t ∧ t.vaOffset = vaOffsetConst := by
  obtain ⟨kp, S, n, as, t, hS, htake, ht, hzero⟩ := exists_left_smallLayout (Nat.zero_le 2049)
  obtain ⟨tabs, hi⟩ := ht.inv
  exact ⟨kp, S, n, as, t, hS, htake, hi.run.allocPage_noPage (hi.run.noPage_iff.mpr hzero),
    hi.run.region, hi.vaOffset⟩

theorem exhaustion_reported_iff_smallLayout :
    ∃ t, (ReportsNull (kmalloc 16) ⟨Snub.snubInit t, []⟩ ↔ t.vaOffset % 2 ^ 64 = 0) ∧
      (ReportsNull (kzalloc 16) ⟨Snub.snubInit t, []⟩ ↔ t.vaOffset % 2 ^ 64 = 0) := by
  obtain ⟨kp, S, n, as, t, -, -, hnull, hr, -⟩ := exists_exhausted_smallLayout
  exact ⟨t, exhaustion_reported_iff (x := ⟨Snub.snubInit t, []⟩) hr (Snub.objectSize_snubInit t 0)
    (show sizeToIdx 16 = some 0 by decide) rfl hnull⟩

/-- When all pages are taken after the boot, neither call returns `NULL`. -/
theorem kmalloc_not_null_smallLayout :
    ∃ kp S n as t, mmInit smallLayout (fun _ => 0) = .ok (kp, S) ∧ takePages n S.mm = .ok (as, t) ∧
      t.allocPage = .ok (0, t) ∧ ¬ReportsNull (kmalloc 16) ⟨Snub.snubInit t, []⟩ ∧
      ¬ReportsNull (kzalloc 16) ⟨Snub.snubInit t, []⟩ := by
  obtain ⟨kp, S, n, as, t, hS, htake, hnull, -, hoff⟩ := exists_exhausted_smallLayout
  have hvirt : t.physToVirt 0 ≠ 0 := by
    rw [physToVirt_zero, hoff]
    decide
  exact ⟨kp, S, n, as, t, hS, htake, hnull, not_reportsNull (x := ⟨Snub.snubInit t, []⟩) hnull hvirt
    (show sizeToIdx 16 = some 0 by decide) rfl (Snub.objectSize_snubInit t 0)⟩

end Calls

end SystemN
