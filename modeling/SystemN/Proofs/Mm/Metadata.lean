/-
Whether `page_array` holds a record for every managed page.

`buddy_allocator_init` reserves room for an estimated number of records and counts the
pages afterwards, from the base the reservation has moved.  Three roundings meet: the
estimate is rounded down to whole pages with their records, the room is rounded up to whole
pages, and what is left is a whole number of pages.

Counted in pages everything depends on `k`, the pages behind the kernel page table.  Each
257 of them are a page of records and the 256 pages they describe; a rest of one page is too
little for a page and its record, so the estimate passes it over, yet the count takes it in.
Its record lies at the base, in the first managed page.
-/
import SystemN.Proofs.Mm.Partition

namespace SystemN.Mm

/-- The records of the managed pages are where `early_alloc` reserved room for them, and no
managed page is. -/
structure MetadataFits (L : Layout) (s : Mm) : Prop where
  count : s.numPages ≤ initEstimate L
  reserved : ∀ i < s.numPages, s.pageArray ≤ s.pagePtr i ∧
    s.pagePtr i + sizeofPage ≤ s.pageArray + alignUp (initEstimate L * sizeofPage)
  below : ∀ i < s.numPages, s.pagePtr i + sizeofPage ≤ s.buddyBasePhys
  /-- No byte of a record is a byte of a managed page. -/
  apart : ∀ i < s.numPages, ∀ j < s.numPages, ∀ a,
    s.pagePtr i ≤ a → a < s.pagePtr i + sizeofPage →
    ¬(s.buddyBasePhys + j * pageSize ≤ a ∧ a < s.buddyBasePhys + (j + 1) * pageSize)

/-! ### The roundings, in pages -/

/-- The pages from behind the kernel page table to `USER_END`. -/
def initRoom (L : Layout) : Nat := (userEnd - (initTable L + pageSize)) / pageSize

theorem initRoom_spec {L : Layout} (hL : L.kernelEnd + pageSize ≤ userEnd) :
    initTable L + pageSize + initRoom L * pageSize = userEnd := by
  obtain ⟨-, htop, hmod⟩ := initTable_bounds hL
  unfold initRoom
  simp only [userEnd, pageSize] at *
  omega

/-- The pages from the end of the image on, in terms of which the condition is put. -/
theorem kernelEnd_room {L : Layout} (hL : L.kernelEnd + pageSize ≤ userEnd) :
    (userEnd - alignUp L.kernelEnd) / pageSize = initRoom L + 1 := by
  have hroom := initRoom_spec hL
  unfold initTable at hroom
  simp only [userEnd, pageSize] at *
  omega

theorem initEstimate_eq {L : Layout} (hL : L.kernelEnd + pageSize ≤ userEnd) :
    initEstimate L = 256 * initRoom L / 257 := by
  have hroom := initRoom_spec hL
  unfold initEstimate
  simp only [userEnd, pageSize, sizeofPage] at *
  omega

/-- The room for the records is a whole number of pages, 256 records to each. -/
theorem alignUp_estimate {L : Layout} (hL : L.kernelEnd + pageSize ≤ userEnd) :
    alignUp (initEstimate L * sizeofPage) = (initEstimate L + 255) / 256 * pageSize := by
  obtain ⟨-, -, -, -, hlt⟩ := initBase_bounds hL
  simp only [alignUp, u64, sizeofPage, pageSize] at *
  omega

theorem initBase_eq {L : Layout} (hL : L.kernelEnd + pageSize ≤ userEnd) :
    initBase L = initTable L + pageSize + (initEstimate L + 255) / 256 * pageSize := by
  unfold initBase
  rw [alignUp_estimate hL]

theorem numPages_eq {L : Layout} (hL : L.kernelEnd + pageSize ≤ userEnd) :
    (userEnd - initBase L) / pageSize = initRoom L - (initEstimate L + 255) / 256 := by
  have hroom := initRoom_spec hL
  rw [initBase_eq hL]
  simp only [userEnd, pageSize] at *
  omega

/-- The estimate takes 256 pages of each 257, and all but one of the rest. -/
theorem estimate_of_room (k : Nat) : 256 * k / 257 = 256 * (k / 257) + (k % 257 - 1) := by
  obtain ⟨q, r, hk, hr⟩ : ∃ q r, k = 257 * q + r ∧ r < 257 :=
    ⟨k / 257, k % 257, (Nat.div_add_mod k 257).symm, Nat.mod_lt k (by norm_num)⟩
  subst hk
  have hq : (257 * q + r) / 257 = q := by omega
  have hr' : (257 * q + r) % 257 = r := by omega
  have hrest : 256 * r / 257 = r - 1 := by omega
  calc 256 * (257 * q + r) / 257 = (256 * r + 257 * (256 * q)) / 257 := by ring_nf
    _ = 256 * r / 257 + 256 * q := Nat.add_mul_div_left _ _ (by norm_num)
    _ = 256 * ((257 * q + r) / 257) + ((257 * q + r) % 257 - 1) := by rw [hq, hr', hrest]; ring

/-- The count exceeds the estimate where one page is left over, and there by one. -/
theorem numPages_le_iff {L : Layout} (hL : L.kernelEnd + pageSize ≤ userEnd) :
    (userEnd - initBase L) / pageSize ≤ initEstimate L ↔ initRoom L % 257 ≠ 1 := by
  rw [numPages_eq hL, initEstimate_eq hL, estimate_of_room]
  have hrest : initRoom L % 257 < 257 := Nat.mod_lt _ (by norm_num)
  have hroom : 257 * (initRoom L / 257) + initRoom L % 257 = initRoom L := Nat.div_add_mod _ _
  omega

/-- As many records as were estimated end before the base. -/
theorem records_below {L : Layout} (hL : L.kernelEnd + pageSize ≤ userEnd) {i : Nat}
    (hi : i < initEstimate L) :
    initTable L + pageSize + i * sizeofPage + sizeofPage ≤ initBase L := by
  obtain ⟨-, -, -, hrec, -⟩ := initBase_bounds hL
  simp only [sizeofPage] at *
  omega

/-! ### What `buddy_allocator_init` returns -/

/-- Boot comes back only where the page table fits below `USER_END`, and with these statics. -/
theorem statics_of_init {L : Layout} {m : Nat → UInt8} {kernelPagetable : Nat} {s : Mm}
    (h : buddyAllocatorInit L m = .ok (kernelPagetable, s)) :
    L.kernelEnd + pageSize ≤ userEnd ∧ kernelPagetable = initTable L ∧
      SameStatics (initStatics L m) s := by
  rcases Nat.lt_or_ge userEnd (L.kernelEnd + pageSize) with hL | hL
  · rw [buddyAllocatorInit_diverge hL] at h
    exact absurd h (by simp)
  · obtain ⟨s', fl, hs', -, hst, -⟩ := buddyAllocatorInit_spec hL m
    rw [hs'] at h
    obtain ⟨hkp, hs⟩ : initTable L = kernelPagetable ∧ s' = s := by simpa using h
    exact ⟨hL, hkp.symm, hs ▸ hst⟩

/--
**The records fit their array** if and only if the image does not end two pages past a multiple
of 257 pages below `USER_END`.  One of these two pages is the kernel page table; the other is the
page that is counted and has no record.
-/
theorem buddyAllocatorInit_metadata_iff {L : Layout} {m : Nat → UInt8} {kernelPagetable : Nat}
    {s : Mm} (h : buddyAllocatorInit L m = .ok (kernelPagetable, s)) :
    MetadataFits L s ↔ (userEnd - alignUp L.kernelEnd) / pageSize % 257 ≠ 2 := by
  obtain ⟨hL, -, hst⟩ := statics_of_init h
  have hnum : s.numPages = (userEnd - initBase L) / pageSize := hst.numPages
  have hbase : s.buddyBasePhys = initBase L := hst.base
  have harr : s.pageArray = initTable L + pageSize := hst.pageArray
  have hres : (userEnd - alignUp L.kernelEnd) / pageSize % 257 ≠ 2 ↔ initRoom L % 257 ≠ 1 := by
    rw [kernelEnd_room hL]
    omega
  have hend : initBase L = s.pageArray + alignUp (initEstimate L * sizeofPage) := by
    rw [harr]
    rfl
  rw [hres, ← numPages_le_iff hL, ← hnum]
  constructor
  · intro hfits
    exact hfits.count
  · intro hcount
    have hbelow : ∀ i < s.numPages, s.pagePtr i + sizeofPage ≤ initBase L := by
      intro i hi
      have := records_below hL (Nat.lt_of_lt_of_le hi hcount)
      rwa [← harr] at this
    refine ⟨hcount, ?_, ?_, ?_⟩
    · intro i hi
      exact ⟨Nat.le_add_right _ _, hend ▸ hbelow i hi⟩
    · intro i hi
      exact hbase ▸ hbelow i hi
    · intro i hi j hj a hlo hhi hpage
      have := hbelow i hi
      rw [hbase] at hpage
      omega

/-- The small image ends elsewhere. -/
theorem metadata_iff_smallLayout :
    ∃ kernelPagetable s, buddyAllocatorInit smallLayout (fun _ => 0) = .ok (kernelPagetable, s) ∧
      (MetadataFits smallLayout s ↔
        (userEnd - alignUp smallLayout.kernelEnd) / pageSize % 257 ≠ 2) := by
  obtain ⟨s, fl, hs, -⟩ := buddyAllocatorInit_spec smallLayout_fits fun _ => 0
  exact ⟨_, s, hs, buddyAllocatorInit_metadata_iff hs⟩

/-- An image of 127 pages, which leaves 257 times 127 pages and two more. -/
def oddLayout : Layout where
  textEnd := 0x80008000
  rodataEnd := 0x8000a000
  kernelEnd := 0x8007f000
  textStart_le := by decide
  textEnd_le := by decide
  rodataStart_le := by decide
  rodataEnd_le := by decide
  dataStart_le := by decide
  inMemory := by decide

/-- It is given room for 32512 records and has 32513 pages to manage: the last record is at the
address of the first page. -/
theorem metadata_overlaps_oddLayout :
    ∃ kernelPagetable s, oddLayout.kernelEnd % pageSize = 0 ∧
      buddyAllocatorInit oddLayout (fun _ => 0) = .ok (kernelPagetable, s) ∧
      s.numPages = 32513 ∧ initEstimate oddLayout = 32512 ∧
      s.pagePtr 32512 = s.buddyBasePhys ∧ ¬MetadataFits oddLayout s := by
  obtain ⟨s, fl, hs, -, hst, -⟩ := buddyAllocatorInit_spec (L := oddLayout) (by decide) fun _ => 0
  have hnum : s.numPages = 32513 := hst.numPages.trans (by decide)
  have hptr : s.pagePtr 32512 = s.buddyBasePhys := by
    unfold pagePtr
    rw [hst.pageArray, hst.base]
    decide
  refine ⟨_, s, by decide, hs, hnum, by decide, hptr, ?_⟩
  intro hfits
  have hcount := hfits.count
  rw [hnum] at hcount
  exact absurd hcount (by decide)

end SystemN.Mm
