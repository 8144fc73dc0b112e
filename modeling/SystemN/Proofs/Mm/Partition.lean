/-
Runs of the page allocator: no page is lost and none is in two blocks.

A run starts with `buddy_allocator_init` for some kernel image, under the `va_offset` of
either half of the boot, and goes on with any calls of `alloc_pages` and any calls of `free_pages` on blocks still handed out.  A
call that halts is no step, so it ends the run.  `live` keeps what the callers know:
the address each block was returned at, and the order that was asked for.

The step lemma is the allocator's specification; the run lemma is its induction.
-/
import SystemN.Proofs.Mm.Init

namespace SystemN.Mm

open Tiling Chain

/-- The states a run can reach, with the addresses and orders of the blocks handed out. -/
inductive AllocRun (L : Layout) (m : Nat → UInt8) : Mm → Multiset (Nat × Nat) → Prop
  | init {kernelPagetable : Nat} {s : Mm} (vaOffset : Nat)
      (hinit : buddyAllocatorInit L m = .ok (kernelPagetable, s)) :
      AllocRun L m { s with vaOffset := vaOffset } 0
  | alloc {s s' : Mm} {live : Multiset (Nat × Nat)} {order a : Nat} (hrun : AllocRun L m s live)
      (horder : order ≤ maxOrder) (hcall : s.allocPages order = .ok (a, s')) :
      AllocRun L m s' (if a = 0 then live else (a, order) ::ₘ live)
  | free {s s' : Mm} {live : Multiset (Nat × Nat)} {B : Nat × Nat}
      (hrun : AllocRun L m s (B ::ₘ live)) (hcall : s.freePages B.1 = .ok s') :
      AllocRun L m s' live

/-- The blocks handed out, by the index of their head. -/
def handedOut (s : Mm) (live : Multiset (Nat × Nat)) : Multiset Block :=
  live.map fun B => (s.pageIdx B.1, B.2)

theorem handedOut_congr {s s' : Mm} (h : SameStatics s s') (live : Multiset (Nat × Nat)) :
    handedOut s' live = handedOut s live := by
  unfold handedOut
  simp only [pageIdx_congr h]

/-- What holds in every state of a run. -/
structure RunInv (s : Mm) (live : Multiset (Nat × Nat)) : Prop where
  region : Region s
  inv : ∃ fl, BuddyInv s fl (handedOut s live) 0
  /-- The addresses handed out are those of page boundaries. -/
  addr : ∀ B ∈ live, ∃ h < s.numPages, B.1 = s.buddyBasePhys + h * pageSize

theorem RunInv.addr_lt {s : Mm} {live : Multiset (Nat × Nat)} (hi : RunInv s live)
    {B : Nat × Nat} (hB : B ∈ live) : B.1 < 2 ^ 64 ∧ B.1 ≠ 0 := by
  obtain ⟨h, hlt, haddr⟩ := hi.addr B hB
  have htop := hi.region.top
  have hpos := hi.region.pos
  simp only [userEnd, pageSize] at htop haddr
  omega

/-- What `buddy_allocator_init` returns is a state it was specified to return. -/
theorem runInv_init {L : Layout} {m : Nat → UInt8} {kernelPagetable : Nat} {s : Mm}
    (h : buddyAllocatorInit L m = .ok (kernelPagetable, s)) : RunInv s 0 := by
  rcases Nat.lt_or_ge userEnd (L.kernelEnd + pageSize) with hL | hL
  · rw [buddyAllocatorInit_diverge hL] at h
    exact absurd h (by simp)
  · obtain ⟨s', fl, hs', hi, hst, -⟩ := buddyAllocatorInit_spec hL m
    obtain ⟨-, rfl⟩ : initTable L = kernelPagetable ∧ s' = s := by
      rw [hs'] at h
      simpa using h
    exact ⟨region_of_init hL hst, ⟨fl, hi⟩, by simp⟩

theorem runInv_alloc {s s' : Mm} {live : Multiset (Nat × Nat)} {order a : Nat}
    (hi : RunInv s live) (ho : order ≤ maxOrder) (h : s.allocPages order = .ok (a, s')) :
    RunInv s' (if a = 0 then live else (a, order) ::ₘ live) := by
  obtain ⟨fl, hinv⟩ := hi.inv
  rcases allocPages_spec hi.region hinv ho with ⟨hnull, -⟩ | ⟨p, a', t, fl', hcall, hall⟩
  · rw [hnull] at h
    obtain ⟨rfl, rfl⟩ : 0 = a ∧ s = s' := by simpa using h
    exact hi
  · rw [hcall] at h
    obtain ⟨rfl, rfl⟩ : a' = a ∧ t = s' := by simpa using h
    have hst := hall.statics
    have hpos := Nat.two_pow_pos order
    have hlt : p < s.numPages := by
      have := hall.fits
      omega
    have hne : a' ≠ 0 := by
      rw [hall.addr]
      have := hi.region.pos
      omega
    rw [if_neg hne]
    have hidx : s.pageIdx a' = p := by
      rw [hall.addr]
      exact hi.region.pageIdx_head hlt
    refine ⟨hi.region.congr hst, ⟨fl', ?_⟩, ?_⟩
    · rw [handedOut_congr hst]
      show BuddyInv t fl' (Multiset.map _ ((a', order) ::ₘ live)) 0
      rw [Multiset.map_cons]
      simp only [hidx]
      exact hall.inv
    · intro B hB
      rw [hst.base, hst.numPages]
      rcases Multiset.mem_cons.mp hB with rfl | hB
      · exact ⟨p, hlt, hall.addr⟩
      · exact hi.addr B hB

theorem runInv_free {s s' : Mm} {live : Multiset (Nat × Nat)} {B : Nat × Nat}
    (hi : RunInv s (B ::ₘ live)) (h : s.freePages B.1 = .ok s') : RunInv s' live := by
  obtain ⟨fl, hinv⟩ := hi.inv
  obtain ⟨hlt, hne⟩ := hi.addr_lt (Multiset.mem_cons_self B live)
  have hcons : handedOut s (B ::ₘ live) = (s.pageIdx B.1, B.2) ::ₘ handedOut s live :=
    Multiset.map_cons _ _ _
  rw [hcons] at hinv
  rcases freePages_spec hi.region hinv hlt rfl hne with hhalt | ⟨t, fl', hcall, hi', hst, -⟩
  · rw [hhalt] at h
    exact absurd h (by simp)
  · rw [hcall] at h
    obtain rfl : t = s' := by simpa using h
    refine ⟨hi.region.congr hst, ⟨fl', by rw [handedOut_congr hst]; exact hi'⟩, ?_⟩
    intro C hC
    rw [hst.base, hst.numPages]
    exact hi.addr C (Multiset.mem_cons_of_mem hC)

theorem AllocRun.runInv {L : Layout} {m : Nat → UInt8} {s : Mm} {live : Multiset (Nat × Nat)}
    (h : AllocRun L m s live) : RunInv s live := by
  induction h with
  | init v hinit =>
      obtain ⟨hr, ⟨fl, hi⟩, haddr⟩ := runInv_init hinit
      exact ⟨⟨hr.1, hr.2, hr.3⟩, ⟨fl, hi⟩, haddr⟩
  | alloc _ ho hcall ih => exact runInv_alloc ih ho hcall
  | free _ hcall ih => exact runInv_free ih hcall

/--
**The blocks partition the pages.**  In every state of every run the free lists are
NULL-terminated, the heads they visit carry the order of their list, and these blocks together
with those handed out cover each managed page exactly once, and nothing else.
-/
theorem AllocRun.blocks_partition {L : Layout} {m : Nat → UInt8} {s : Mm}
    {live : Multiset (Nat × Nat)} (h : AllocRun L m s live) :
    ∃ fl : Nat → List Nat,
      (∀ o ≤ maxOrder, IsChain (fun i => (s.pages i).next) (s.freeLists o) (fl o)) ∧
      (∀ o ≤ maxOrder, ∀ i ∈ fl o, (s.pages i).order = o ∧ (s.pages i).isFree = true) ∧
      IsTiling s.numPages (handedOut s live + filed maxOrder fl) := by
  obtain ⟨fl, hi⟩ := h.runInv.inv
  refine ⟨fl, hi.chain, hi.freeRec, ?_⟩
  have := hi.tiling
  rwa [Buddy.allBlocks, zero_add] at this

/-- A small image: a page of text, a page of read-only data, fourteen of data. -/
def smallLayout : Layout where
  textEnd := 0x80001000
  rodataEnd := 0x80002000
  kernelEnd := 0x80010000
  textStart_le := by decide
  textEnd_le := by decide
  rodataStart_le := by decide
  rodataEnd_le := by decide
  dataStart_le := by decide
  inMemory := by decide

theorem smallLayout_fits : smallLayout.kernelEnd + pageSize ≤ userEnd := by decide

/-- The run of a booted small kernel that has asked for one page. -/
theorem blocks_partition_smallLayout :
    ∃ s live, AllocRun smallLayout (fun _ => 0) s live ∧ ∃ fl : Nat → List Nat,
      (∀ o ≤ maxOrder, IsChain (fun i => (s.pages i).next) (s.freeLists o) (fl o)) ∧
      (∀ o ≤ maxOrder, ∀ i ∈ fl o, (s.pages i).order = o ∧ (s.pages i).isFree = true) ∧
      IsTiling s.numPages (handedOut s live + filed maxOrder fl) := by
  obtain ⟨s, fl, hs, hi, hst, -⟩ := buddyAllocatorInit_spec smallLayout_fits fun _ => 0
  have hr := region_of_init smallLayout_fits hst
  have hinit := AllocRun.init vaOffsetConst hs
  rcases allocPages_spec (s := { s with vaOffset := vaOffsetConst }) ⟨hr.1, hr.2, hr.3⟩ hi
      (Nat.zero_le maxOrder) with ⟨hcall, -⟩ | ⟨p, a, t, -, hcall, -⟩
  · have hrun := hinit.alloc (by decide) hcall
    exact ⟨_, _, hrun, hrun.blocks_partition⟩
  · have hrun := hinit.alloc (by decide) hcall
    exact ⟨_, _, hrun, hrun.blocks_partition⟩

end SystemN.Mm
