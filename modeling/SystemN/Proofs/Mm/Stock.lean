/-
The slab allocator over the page allocator, after the boot.

`Proofs.Mm.Objects` leaves open where the pages of the caches come from.  Here they are among
the blocks the page allocator has handed out, so a page it gives out later is none of them, and
`kzalloc` comes to one of three things: the first free object of the class is returned; or a
new page is cut and one of its objects returned; or no page is free, and what is returned lies
over physical page 0.
-/
import SystemN.Proofs.Mm.SlabRun

namespace SystemN

open Mm Chain

/-- `size` bytes from `p` on are cleared. -/
def Snub.cleared (S : Snub) (p size : Nat) : Snub :=
  let mm := S.mm.deref p size
  { S with mm := mm.setMem (zeroed S.mm.mem (S.mm.virtToPhys p) size) }

theorem Snub.cleared_records (S : Snub) (p size : Nat) : SameRecords S.mm (S.cleared p size).mm :=
  ⟨⟨rfl, rfl, rfl, rfl⟩, rfl, rfl⟩

theorem Snub.kzalloc_eq {S S' : Snub} {p size : Nat} (hlt : size < 2 ^ 32) (hp : p ≠ 0)
    (hmalloc : S.kmalloc size = .ok (p, S')) : S.kzalloc size = .ok (p, S'.cleared p size) := by
  unfold Snub.kzalloc
  rw [hmalloc, ok_bind]
  dsimp only
  rw [if_neg hp, memset_eq _ _ _ hlt]
  rfl

/-- Both allocators: the pages the caches have taken are handed out. -/
structure Stocked (S : Snub) (live : Multiset (Nat × Nat)) (taken given fl : Nat → List Nat) :
    Prop where
  run : RunInv S.mm live
  slabs : Snub.SlabInv S taken given fl
  held : ∀ i, ∀ pa ∈ taken i, (pa, 0) ∈ live
  start_le : kernelStart ≤ S.mm.buddyBasePhys
  upper : S.mm.vaOffset = vaOffsetConst

namespace Stocked

open Snub

variable {S S' : Snub} {live : Multiset (Nat × Nat)} {taken given fl : Nat → List Nat}
  {size i p q pa x : Nat} {mm : Mm}

theorem booted (h : Stocked S live taken given fl) : Booted S.mm where
  region := h.run.region
  start_le := h.start_le
  space := h.slabs.space
  aligned := by
    rw [h.upper]
    decide

/-- A page that has just been handed out is no page of the caches. -/
theorem notMem_taken (h : Stocked S live taken given fl) (hnew : NewPage S.mm live pa mm) (k : Nat) :
    pa ∉ taken k :=
  fun hmem => hnew.ne (Or.inr (h.held k pa hmem)) rfl

/-- The caches take no page before the first call. -/
theorem init {mm : Mm} (hrun : RunInv mm live) (hboot : Booted mm)
    (hupper : mm.vaOffset = vaOffsetConst) :
    Stocked (snubInit mm) live (fun _ => []) (fun _ => []) (fun _ => []) where
  run := hrun
  slabs := slabInv_init hboot
  held _ _ := nofun
  start_le := hboot.start_le
  upper := hupper

/-- An object given out is written, or memory that is no object. -/
theorem write (h : Stocked S live taken given fl) (hrec : SameRecords S.mm S'.mm)
    (hcaches : S'.caches = S.caches) (hsame : KeepsFree S S' taken given) :
    Stocked S' live taken given fl where
  run := h.run.congr hrec.statics hrec.pages hrec.lists
  slabs := h.slabs.keepsFree hrec.statics hcaches hsame
  held := h.held
  start_le := hrec.statics.base ▸ h.start_le
  upper := hrec.statics.vaOffset.trans h.upper

/-- Another caller takes a page. -/
theorem alloc (h : Stocked S live taken given fl) (hnew : NewPage S.mm live pa mm)
    (hmm : S'.mm = mm) (hcaches : S'.caches = S.caches) :
    Stocked S' ((pa, 0) ::ₘ live) taken given fl where
  run := hmm ▸ hnew.run
  slabs := by
    refine h.slabs.keepsFree (hmm ▸ hnew.statics) hcaches fun k pa' hpa' x hx _ => ?_
    rw [hmm]
    exact hnew.same x (hnew.not_inPage (Or.inr (h.held k pa' hpa')) hx)
  held k pa' hpa' := Multiset.mem_cons_of_mem (h.held k pa' hpa')
  start_le := by
    rw [hmm, hnew.statics.base]
    exact h.start_le
  upper := by
    rw [hmm, hnew.statics.vaOffset]
    exact h.upper

/-! ### `kmalloc` -/

theorem kmalloc_pop {rest : List Nat} (h : Stocked S live taken given fl)
    (hclass : sizeToIdx size = some i) (hfl : fl i = p :: rest) :
    ∃ S', S.kmalloc size = .ok (p, S') ∧
      Stocked S' live taken (Function.update given i (p :: given i)) (Function.update fl i rest) ∧
      SameRecords S.mm S'.mm ∧ S'.mm.mem = S.mm.mem := by
  obtain ⟨hp, hinv⟩ := h.slabs.popObj hfl
  have hrec : SameRecords S.mm (S.popObj i).2.mm := ⟨⟨rfl, rfl, rfl, rfl⟩, rfl, rfl⟩
  have hne : (S.caches i).partialList ≠ 0 := by
    rw [(h.slabs.partialList_of_cons hfl).1]
    exact h.slabs.ne_zero (List.mem_append_left _ (hfl ▸ List.mem_cons_self))
  refine ⟨(S.popObj i).2, ?_, ⟨?_, hinv, h.held, h.start_le, h.upper⟩, hrec, rfl⟩
  · rw [kmalloc_of_ne hclass hne, ← hp]
  · exact h.run.congr hrec.statics hrec.pages hrec.lists

theorem kmalloc_refill (h : Stocked S live taken given fl) (hclass : sizeToIdx size = some i)
    (hempty : fl i = []) (hcall : S.mm.allocPage = .ok (pa, mm)) (hne : pa ≠ 0)
    (hnew : NewPage S.mm live pa mm) :
    ∃ j < perPage i, ∃ S' fl', S.kmalloc size = .ok (objAt S.mm.vaOffset pa i j, S') ∧
      Stocked S' ((pa, 0) ::ₘ live) (Function.update taken i (pa :: taken i))
        (Function.update given i (objAt S.mm.vaOffset pa i j :: given i)) fl' ∧
      OnPage pa mm S'.mm := by
  obtain ⟨S₁, hrefill, hst, hon, hinv⟩ := h.slabs.refill (sizeToIdx_some hclass).1 hcall hne
    (h.notMem_taken hnew) hempty
  have hlen : 0 < (Function.update fl i (pageObjs S.mm.vaOffset i pa).reverse i).length := by
    rw [Function.update_self, List.length_reverse, length_pageObjs]
    exact Nat.two_pow_pos (8 - i)
  obtain ⟨p, rest, hfl⟩ := List.exists_cons_of_length_pos hlen
  have hobj : p ∈ pageObjs S.mm.vaOffset i pa := by
    rw [Function.update_self] at hfl
    exact List.mem_reverse.mp (hfl ▸ List.mem_cons_self)
  obtain ⟨j, hj, rfl⟩ := mem_pageObjs.mp hobj
  obtain ⟨hp, hpop⟩ := hinv.popObj hfl
  have hon' : OnPage pa mm (S₁.popObj i).2.mm :=
    hon.trans ⟨⟨rfl, rfl, rfl, rfl⟩, rfl, rfl, fun _ _ => rfl⟩
  refine ⟨j, hj, (S₁.popObj i).2, _, ?_, ⟨?_, hpop, ?_, ?_, ?_⟩, hon'⟩
  · rw [kmalloc_of_refill hclass (h.slabs.partialList_zero_iff.mpr hempty) hrefill, ← hp]
    rfl
  · exact hnew.run.congr hon'.statics hon'.pages hon'.lists
  · intro k pa' hpa'
    rcases (mem_record taken i k pa pa').mp hpa' with ⟨-, rfl⟩ | hold
    · exact Multiset.mem_cons_self _ _
    · exact Multiset.mem_cons_of_mem (h.held k pa' hold)
  · exact (hst.trans hon'.statics).base ▸ h.start_le
  · exact (hst.trans hon'.statics).vaOffset.trans h.upper

/-! ### `kzalloc` -/

/-- The object is cleared, up to the size that was asked for. -/
theorem kzalloc_of_kmalloc (h : Stocked S' live taken given fl) (hclass : sizeToIdx size = some i)
    (hp : p ∈ given i) (hmalloc : S.kmalloc size = .ok (p, S')) :
    ∃ S'', S.kzalloc size = .ok (p, S'') ∧ Stocked S'' live taken given fl ∧
      SameRecords S'.mm S''.mm ∧ S''.mm.mem = zeroed S'.mm.mem (S'.mm.virtToPhys p) size := by
  have hobj := List.mem_append_right (fl i) hp
  obtain ⟨hi, hfit, -⟩ := sizeToIdx_some hclass
  obtain ⟨pa, hpa, j, hj, hat⟩ := h.slabs.exists_objAt hobj
  have hfits := obj_fits hi hj
  have hphys : S'.mm.virtToPhys p = pa + j * classSize i := by
    rw [hat]
    exact virtToPhys_objAt (h.slabs.page i pa hpa).1 hi hj h.slabs.space rfl
  have hlt : size < 2 ^ 32 := (sizeToIdx_le hclass).trans_lt (by decide)
  have hrec := S'.cleared_records p size
  refine ⟨S'.cleared p size, kzalloc_eq hlt (h.slabs.ne_zero hobj) hmalloc, h.write hrec rfl ?_,
    hrec, rfl⟩
  intro k pa' hpa' x hx hout
  refine if_neg fun hin => hout i p hp ?_
  rw [hphys] at hin
  unfold objAt at hat
  omega

/-- `kzalloc` returns a free object of the class, or an object of a new page. -/
inductive Supplied (S : Snub) (live : Multiset (Nat × Nat)) (taken given fl : Nat → List Nat)
    (size i : Nat) : Nat → Snub → Prop
  | pop {p : Nat} {rest : List Nat} {S' : Snub} (hfl : fl i = p :: rest)
      (hstock : Stocked S' live taken (Function.update given i (p :: given i))
        (Function.update fl i rest))
      (hrec : SameRecords S.mm S'.mm)
      (hmem : S'.mm.mem = zeroed S.mm.mem (S.mm.virtToPhys p) size) :
      Supplied S live taken given fl size i p S'
  | refill {j pa : Nat} {mm : Mm} {fl' : Nat → List Nat} {S' : Snub} (hempty : fl i = [])
      (hj : j < perPage i) (hne : pa ≠ 0) (hnew : NewPage S.mm live pa mm)
      (hstock : Stocked S' ((pa, 0) ::ₘ live) (Function.update taken i (pa :: taken i))
        (Function.update given i (objAt S.mm.vaOffset pa i j :: given i)) fl')
      (hon : OnPage pa mm S'.mm)
      (hzero : ∀ x, objAt S.mm.vaOffset pa i j ≤ x + S.mm.vaOffset →
        x + S.mm.vaOffset < objAt S.mm.vaOffset pa i j + size → S'.mm.mem x = 0) :
      Supplied S live taken given fl size i (objAt S.mm.vaOffset pa i j) S'

/-- No page is free: what is returned is no object, and the records are what they were. -/
structure Astray (S : Snub) (i p : Nat) (S' : Snub) : Prop where
  empty : (S.caches i).partialList = 0
  noPage : NoPage S.mm
  addr : p = u64 (S.mm.physToVirt 0 + (perPage i - 1) * classSize i)
  records : SameRecords S.mm S'.mm

theorem kmalloc_astray (h : Stocked S live taken given fl) (hclass : sizeToIdx size = some i)
    (hempty : fl i = []) (hnull : S.mm.allocPage = .ok (0, S.mm)) (hnone : NoPage S.mm) :
    ∃ p S', S.kmalloc size = .ok (p, S') ∧ Astray S i p S' := by
  have hvirt : S.mm.physToVirt 0 ≠ 0 := by
    rw [physToVirt_zero, h.upper]
    decide
  have hlist := h.slabs.partialList_zero_iff.mpr hempty
  obtain ⟨n, p, S', hn, hp, hrec, hcall, -⟩ :=
    kmalloc_offset hnull hvirt hclass hlist (h.slabs.sizes i)
  refine ⟨p, S', hcall, hlist, hnone, ?_, hrec⟩
  rw [hp, hn, Nat.add_sub_cancel]

theorem Astray.virt (h : Stocked S live taken given fl) (hi : i ≤ 8) (ha : Astray S i p S') :
    p = vaOffsetConst + (perPage i - 1) * classSize i := by
  have hpos : 0 < perPage i := Nat.two_pow_pos _
  have hfits := obj_fits hi (show perPage i - 1 < perPage i by omega)
  have hge := classSize_ge i
  rw [ha.addr, physToVirt_zero, h.upper]
  simp only [u64, pageSize, vaOffsetConst, kernelStartVa, kernelStart] at *
  omega

/-- **`kzalloc`** never returns `NULL` for a size that has a class. -/
theorem kzalloc (h : Stocked S live taken given fl) (hclass : sizeToIdx size = some i) :
    ∃ p S', S.kzalloc size = .ok (p, S') ∧ p ≠ 0 ∧
      (Supplied S live taken given fl size i p S' ∨ Astray S i p S') := by
  obtain ⟨hi, hfit, -⟩ := sizeToIdx_some hclass
  have hself : ∀ q, q ∈ Function.update given i (q :: given i) i := by
    intro q
    rw [Function.update_self]
    exact List.mem_cons_self
  cases hfl : fl i with
  | cons p rest =>
      obtain ⟨S₁, hmalloc, hstock, hrec, hmem⟩ := h.kmalloc_pop hclass hfl
      obtain ⟨S', hcall, hstock', hrec', hmem'⟩ := hstock.kzalloc_of_kmalloc hclass (hself p) hmalloc
      refine ⟨p, S', hcall, hstock'.slabs.ne_zero (List.mem_append_right _ (hself p)), Or.inl ?_⟩
      refine .pop hfl hstock' (hrec.trans hrec') ?_
      rw [hmem', hmem, hrec.statics.virtToPhys]
  | nil =>
      rcases h.run.allocPage with ⟨hnull, hnone⟩ | ⟨pa, mm, halloc, hne, hnew⟩
      · obtain ⟨p, S₁, hmalloc, ha⟩ := h.kmalloc_astray hclass hfl hnull hnone
        have hlt : size < 2 ^ 32 := (sizeToIdx_le hclass).trans_lt (by decide)
        have hp : p ≠ 0 := by
          rw [ha.virt h hi]
          exact Nat.ne_of_gt (Nat.add_pos_left (by decide) _)
        have hrec := ha.records.trans (S₁.cleared_records p size)
        exact ⟨p, _, kzalloc_eq hlt hp hmalloc, hp, Or.inr ⟨ha.empty, hnone, ha.addr, hrec⟩⟩
      · obtain ⟨j, hj, S₁, fl', hmalloc, hstock, hon⟩ := h.kmalloc_refill hclass hfl halloc hne hnew
        obtain ⟨S', hcall, hstock', hrec', hmem'⟩ :=
          hstock.kzalloc_of_kmalloc hclass (hself _) hmalloc
        have hoff : S₁.mm.vaOffset = S.mm.vaOffset :=
          hon.statics.vaOffset.trans hnew.statics.vaOffset
        have hphys : S₁.mm.virtToPhys (objAt S.mm.vaOffset pa i j) = pa + j * classSize i :=
          virtToPhys_objAt hnew.isPage hi hj h.slabs.space hoff
        have hfits := obj_fits hi hj
        refine ⟨_, S', hcall, objAt_ne_zero hnew.isPage, Or.inl (.refill hfl hj hne hnew hstock' ?_ ?_)⟩
        · refine hon.trans ⟨hrec'.statics, hrec'.pages, hrec'.lists, fun x hx => ?_⟩
          rw [hmem', hphys]
          refine if_neg fun hin => hx ?_
          unfold InPage
          omega
        · intro x hlo hhi
          rw [hmem', hphys]
          unfold objAt at hlo hhi
          exact if_pos (by omega)

/-- Without a free page the records stay as they are. -/
theorem kzalloc_noPage (h : Stocked S live taken given fl) (hclass : sizeToIdx size = some i)
    (hnone : NoPage S.mm) :
    ∃ p S', S.kzalloc size = .ok (p, S') ∧ p ≠ 0 ∧ SameRecords S.mm S'.mm := by
  obtain ⟨p, S', hcall, hp, hcase⟩ := h.kzalloc hclass
  refine ⟨p, S', hcall, hp, ?_⟩
  rcases hcase with hsupp | hast
  · cases hsupp with
    | pop _ _ hrec _ => exact hrec
    | refill _ _ _ hnew _ _ _ =>
        have hcount := hnew.freeCount h.run
        rw [h.run.freeCount_of_noPage hnone] at hcount
        cases hcount
  · exact hast.records

/-! ### `kfree` -/

theorem kfree_eq (hdiff : pageSize ≤ S.kfreeDiff p) {s' : Mm}
    (hcall : S.mm.freePages (S.mm.virtToPhys p) = .ok s') : S.kfree p = .ok { S with mm := s' } := by
  unfold Snub.kfree
  rw [kfreeClass_none hdiff]
  dsimp only
  rw [hcall]
  rfl

theorem freePages_of_kfree (hdiff : pageSize ≤ S.kfreeDiff p) (hcall : S.kfree p = .ok S') :
    S.mm.freePages (S.mm.virtToPhys p) = .ok S'.mm := by
  unfold Snub.kfree at hcall
  rw [kfreeClass_none hdiff] at hcall
  obtain ⟨s', hfree, hcall⟩ := bind_eq_ok.mp hcall
  rw [hfree, ← Except.ok.inj hcall]

/-- An object that is given out, its page, and what `kfree` makes of it. -/
theorem exists_page (h : Stocked S live taken given fl) (hp : p ∈ given i) :
    ∃ pa ∈ taken i, ∃ d < pageSize, S.mm.virtToPhys p = pa + d ∧
      S.mm.pageIdx (pa + d) = S.mm.pageIdx pa ∧ pageSize ≤ S.kfreeDiff p := by
  obtain ⟨pa, hpa, j, hj, rfl⟩ := h.slabs.exists_objAt (List.mem_append_right (fl i) hp)
  have hi := h.slabs.classes i pa hpa
  obtain ⟨hpage, hle⟩ := h.slabs.page i pa hpa
  have hfits := obj_fits hi hj
  have hge := classSize_ge i
  have hd : j * classSize i < pageSize := by omega
  have hphys := virtToPhys_objAt hpage hi hj h.slabs.space rfl
  refine ⟨pa, hpa, j * classSize i, hd, hphys, ?_, ?_⟩
  · obtain ⟨b, hb, haddr⟩ := h.run.addr _ (h.held i pa hpa)
    dsimp only at haddr
    rw [haddr, h.run.region.pageIdx_page hb _ hd, h.run.region.pageIdx_head hb]
  · rw [kfreeDiff_objAt h.run.region h.start_le (Or.inr h.upper) hpage hle hi hj, h.upper]
    exact Nat.le_add_left_of_le (by decide)

/-- **`kfree` frees the page** that the object lies in.  When no other page is free it comes back
where there is a buddy to look at. -/
theorem kfree_noPage (h : Stocked S live taken given fl) (hp : p ∈ given i) (hnone : NoPage S.mm) :
    (∀ S', S.kfree p = .ok S' → S.mm.pageIdx (S.mm.virtToPhys p) ^^^ 1 < S.mm.numPages ∧
      FreePage S'.mm (S.mm.pageIdx (S.mm.virtToPhys p))) ∧
    (S.mm.pageIdx (S.mm.virtToPhys p) ^^^ 1 < S.mm.numPages → ∃ S', S.kfree p = .ok S') := by
  obtain ⟨pa, hpa, d, hd, hphys, hidx, hdiff⟩ := h.exists_page hp
  obtain ⟨rest, hlive⟩ := Multiset.exists_cons_of_mem (h.held i pa hpa)
  obtain ⟨bl, hinv⟩ := h.run.inv
  rw [hlive, handedOut_cons] at hinv
  have hnil : ∀ o ≤ maxOrder, bl o = [] := fun o ho => eq_nil_of_none hinv ho (hnone o ho)
  have hpage := h.run.isPage (h.held i pa hpa)
  have htop := hpage.le
  have hlt : pa + d < 2 ^ 64 := by
    simp only [userEnd, pageSize] at *
    omega
  have hne : pa + d ≠ 0 := Nat.ne_of_gt (Nat.add_pos_left (Nat.pos_of_ne_zero hpage.pos) d)
  rw [hphys, hidx]
  constructor
  · intro S' hcall
    have hfree := freePages_of_kfree hdiff hcall
    rw [hphys] at hfree
    rcases freePages_lists h.run.region hinv hlt hidx hne with
      hhalt | ⟨s', fl', c, k, hok, hk, hmerges, hstop, hinv', -⟩
    · rw [hhalt] at hfree
      cases hfree
    · obtain rfl : s' = S'.mm := Except.ok.inj (hok.symm.trans hfree)
      cases hmerges with
      | refl =>
          refine ⟨(hstop (show 0 < maxOrder by decide)).2, 0, Nat.zero_le _, _, ?_, Tiling.covers_head _⟩
          rw [onFreeList_iff hinv' (Nat.zero_le _), Function.update_self]
          exact List.mem_cons_self
      | step hlt' hb =>
          rw [hnil _ hlt'.le] at hb
          exact absurd hb List.not_mem_nil
  · intro hbuddy
    obtain ⟨s', hok, -⟩ := freePages_of_merges h.run.region hinv hlt hidx hne (Nat.zero_le _)
      (.refl bl _) fun _ => ⟨hnil 0 (Nat.zero_le _) ▸ List.not_mem_nil, hbuddy⟩
    exact ⟨_, kfree_eq hdiff (hphys ▸ hok)⟩

/-- The address that is no object is none of a managed page either. -/
theorem Astray.kfree_ne_ok (h : Stocked S live taken given fl) (hi : i < 8) (ha : Astray S i p S')
    (S'' : Snub) : S'.kfree p ≠ .ok S'' := by
  intro hcall
  have hpos : 1 < perPage i := Nat.one_lt_two_pow (by omega)
  have hfits := obj_fits hi.le (show perPage i - 1 < perPage i by omega)
  have hge := classSize_ge i
  have hd : (perPage i - 1) * classSize i < pageSize := by omega
  have hne : 0 < (perPage i - 1) * classSize i := Nat.mul_pos (by omega) (by omega)
  have hst := ha.records.statics
  have hvirt := ha.virt h hi.le
  have haddr := ha.addr
  have hregion := h.run.region.congr hst
  have hdiff : pageSize ≤ S'.kfreeDiff p := by
    rw [haddr, physToVirt_zero, ← hst.vaOffset, ← physToVirt_zero]
    exact kfreeDiff_null (h.booted.congr hst) (hst.vaOffset.trans h.upper) hd
  have hfree := freePages_of_kfree hdiff hcall
  have hphys : S'.mm.virtToPhys p = (perPage i - 1) * classSize i := by
    rw [hvirt, virtToPhys, hst.vaOffset, h.upper]
    simp only [pageSize] at hd
    rw [sub64_of_le (Nat.le_add_right _ _) (by
      simp only [vaOffsetConst, kernelStartVa, kernelStart]
      omega)]
    exact Nat.add_sub_cancel_left _ _
  rw [hphys, freePages, if_neg (Nat.ne_of_gt hne)] at hfree
  have htop := hregion.top
  have hstart : kernelStart ≤ S'.mm.buddyBasePhys := hst.base ▸ h.start_le
  generalize (perPage i - 1) * classSize i = d at *
  have hhalt : S'.mm.getPageStruct d = .error .halt := by
    rw [getPageStruct_eq, if_pos]
    unfold pageIdx sub64
    simp only [userEnd, pageSize, kernelStart] at *
    omega
  rw [hhalt] at hfree
  cases hfree

end Stocked

/-! ### A small image -/

theorem KernelInv.booted {L : Layout} {m : Nat → UInt8} {kp : Nat} {tabs live : Multiset (Nat × Nat)}
    {s : Mm} (h : KernelInv L m kp tabs s live) : Snub.Booted s where
  region := h.run.region
  start_le := by
    rw [h.statics.base]
    exact Snub.kernelStart_le_initBase h.room
  space := by
    rw [InSpace, h.vaOffset]
    decide
  aligned := by
    rw [h.vaOffset]
    decide

/-- When pages have been taken after the boot until `n` are left, the caches have none. -/
theorem exists_stocked_smallLayout {n : Nat} (hn : n ≤ 2049) :
    ∃ kp S N as t live, mmInit smallLayout (fun _ => 0) = .ok (kp, S) ∧
      takePages N S.mm = .ok (as, t) ∧
      Stocked (Snub.snubInit t) live (fun _ => []) (fun _ => []) (fun _ => []) ∧
      Mm.freeCount t = n := by
  obtain ⟨kp, S, N, as, t, hS, htake, ht, hcount⟩ := exists_left_smallLayout hn
  obtain ⟨tabs, hi⟩ := ht.inv
  exact ⟨kp, S, N, as, t, _, hS, htake, .init hi.run hi.booted hi.vaOffset, hcount⟩

end SystemN
