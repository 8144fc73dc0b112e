/-
What `create_proc` leaves behind when it gives up.

All its exits but the first go through `free_proc`.  Once there is a page table, `free_proc` calls
`free_pagetable`, and that call does not come back: it gives `free_page` the address of the
table in the upper half, for which there is no record.  Before there is one, only the record of
the process has to go.  `kfree` does not find its class either and frees the page it lies in,
and that comes back where the page has a buddy to look at.

So the one failure that is cleaned up is that of `alloc_pagetable`.
-/
import SystemN.Proofs.Create
import SystemN.Proofs.Mm.Stock
import SystemN.Proofs.Mm.Statics
import SystemN.Proofs.Mm.FreePagetable

namespace SystemN

open Mm Chain

/-! ### What is claimed of a failure -/

/-- The page at `pa` is cut into objects of one class, and all of them are free. -/
def HoldsFree (S : Snub) (pa : Nat) : Prop :=
  ∃ i ≤ 8, ∃ l, IsChain S.next (Snub.ofPtr (S.caches i).partialList) l ∧
    ∀ p ∈ Snub.pageObjs S.mm.vaOffset i pa, p ∈ l

/-- What was free in `S` is free again in `S'`, or it is with the caches, and free there.  A page
that a call takes was free before it. -/
def NothingLost (S S' : Snub) : Prop :=
  ∀ i, FreePage S.mm i → FreePage S'.mm i ∨ HoldsFree S' (S.mm.buddyBasePhys + i * pageSize)

namespace Kernel

variable {k k' k₁ : Kernel} {p binary size : Nat}

/-- A call of `create_proc` that fails: the object for the process, one of the calls that fill in the
kernel's half of it, those that load the binary, or those that give it a stack. -/
inductive GivesUp (k : Kernel) (binary size : Nat) : Prop
  | noProc {k₀ : Kernel} (halloc : k.allocProc = .ok (0, k₀))
  | kernelHalf {p : Nat} {k₀ k₁ : Kernel} (halloc : k.allocProc = .ok (p, k₀)) (hp : p ≠ 0)
      (hhalf : (k₀.initPid p).createKernelHalf p = .ok (false, k₁))
  | binary {p : Nat} {k₀ k₁ k₂ : Kernel} (halloc : k.allocProc = .ok (p, k₀)) (hp : p ≠ 0)
      (hhalf : (k₀.initPid p).createKernelHalf p = .ok (true, k₁))
      (hload : loadBinary p (size / pageSize + 2) userStartVa size binary k₁ = .ok (none, k₂))
  | userStack {p va : Nat} {k₀ k₁ k₂ k₃ : Kernel} (halloc : k.allocProc = .ok (p, k₀)) (hp : p ≠ 0)
      (hhalf : (k₀.initPid p).createKernelHalf p = .ok (true, k₁))
      (hload : loadBinary p (size / pageSize + 2) userStartVa size binary k₁ = .ok (some va, k₂))
      (hstack : k₂.createUserStack p va = .ok (false, k₃))

/-- The process is in no queue of `k'`, and what else was a queue of `k` still is one. -/
structure Unqueued (k k' : Kernel) (p : Nat) : Prop where
  notMem : ∀ head l, Rings.IsRing k'.nodes head l → .qNode p ∉ head :: l
  others : ∀ head l, .qNode p ∉ head :: l →
    (Rings.IsRing k'.nodes head l ↔ Rings.IsRing k.nodes head l)

/-- `create_proc` comes back with `NULL` and has left nothing behind. -/
def FailsCleanly (k : Kernel) (binary size : Nat) : Prop :=
  ∃ k', k.createProc binary size = .ok (0, k') ∧ NothingLost k.snub k'.snub ∧
    ∀ p k₀, k.allocProc = .ok (p, k₀) → p ≠ 0 → Unqueued k k' p

/-! ### After `alloc_pagetable` -/

/-- The statics of `mem.c` and the table of `p` are what they were. -/
structure KeepsTable (p : Nat) (k k' : Kernel) : Prop where
  statics : SameStatics k.mm k'.mm
  pagetable : (k'.procs p).pagetable = (k.procs p).pagetable

theorem KeepsTable.refl (p : Nat) (k : Kernel) : KeepsTable p k k := ⟨SameStatics.refl _, rfl⟩

theorem KeepsTable.trans (h : KeepsTable p k k₁) (h' : KeepsTable p k₁ k') : KeepsTable p k k' :=
  ⟨h.statics.trans h'.statics, h'.pagetable.trans h.pagetable⟩

theorem KeepsTable.setMm {mm : Mm} (h : SameStatics k.mm mm) : KeepsTable p k (k.setMm mm) :=
  ⟨h, rfl⟩

theorem KeepsTable.setProc {v : Proc} (h : v.pagetable = (k.procs p).pagetable) :
    KeepsTable p k (k.setProc p v) := by
  refine ⟨SameStatics.refl _, ?_⟩
  have hself : (k.setProc p v).procs p = v := Function.update_self ..
  rw [hself, h]

theorem keepsTable_mapPage {pagetable va pa perm : Nat} {r : Bool × Kernel}
    (h : k.mapPage pagetable va pa perm = .ok r) : KeepsTable p k r.2 := by
  obtain ⟨⟨ok, mm⟩, hmap, h⟩ := bind_eq_ok.mp h
  obtain rfl := Except.ok.inj h
  exact .setMm (mapPage_statics hmap)

theorem keepsTable_loadBinary {fuel va remaining src : Nat} {r : Option Nat × Kernel}
    (h : loadBinary p fuel va remaining src k = .ok r) : KeepsTable p k r.2 := by
  induction fuel generalizing k va remaining src with
  | zero => cases h
  | succ fuel ih =>
      rw [loadBinary] at h
      split at h
      · obtain rfl := Except.ok.inj h
        exact .refl p k
      · obtain ⟨⟨userBinPa, mm⟩, halloc, h⟩ := bind_eq_ok.mp h
        have hmm : SameStatics k.mm mm := (allocPages_frame halloc).statics
        dsimp only at h
        split at h
        · obtain rfl := Except.ok.inj h
          exact .setMm hmm
        · obtain ⟨⟨ok, k₁⟩, hmap, h⟩ := bind_eq_ok.mp h
          have hk₁ : KeepsTable p k k₁ := by
            refine KeepsTable.trans (.setMm hmm) (KeepsTable.trans ?_ (keepsTable_mapPage hmap))
            exact .setMm ⟨rfl, rfl, rfl, rfl⟩
          dsimp only at h
          split at h
          · obtain rfl := Except.ok.inj h
            exact hk₁
          · exact hk₁.trans (ih h)

theorem keepsTable_createUserStack {va : Nat} {r : Bool × Kernel}
    (h : k.createUserStack p va = .ok r) : KeepsTable p k r.2 := by
  unfold createUserStack at h
  dsimp only at h
  have h₁ : KeepsTable p k (k.setProc p
      { k.procs p with heapStart := alignUp va, heapEnd := alignUp va }) := .setProc rfl
  generalize k.setProc p { k.procs p with heapStart := alignUp va, heapEnd := alignUp va } = k₁ at h h₁
  obtain ⟨⟨ustack, mm⟩, halloc, h⟩ := bind_eq_ok.mp h
  have h₂ : KeepsTable p k₁ (k₁.setMm mm) := .setMm (allocPages_frame halloc).statics
  have h₃ : KeepsTable p k ((k₁.setMm mm).setProc p { k₁.procs p with ustack := ustack }) :=
    h₁.trans (h₂.trans (.setProc rfl))
  dsimp only at h
  split at h
  · obtain rfl := Except.ok.inj h
    exact h₃
  · exact h₃.trans (keepsTable_mapPage h)

/-- What `create_proc` knows of the new table: its address, and that it is a page. -/
structure HasTable (p : Nat) (k : Kernel) : Prop where
  region : Region k.mm
  upper : k.mm.vaOffset = vaOffsetConst
  page : IsPage (k.procs p).pagetable

theorem HasTable.keeps (h : HasTable p k) (hk : KeepsTable p k k') : HasTable p k' where
  region := h.region.congr hk.statics
  upper := hk.statics.vaOffset.trans h.upper
  page := hk.pagetable ▸ h.page

/-- **`free_proc` does not come back** from a process with a page table. -/
theorem HasTable.fail1_ne_ok (h : HasTable p k) (hp : p ≠ 0) (r : Nat × Kernel) :
    k.fail1 p ≠ .ok r := by
  intro hcall
  obtain ⟨k₁, hfree, -⟩ := bind_eq_ok.mp hcall
  unfold freeProc at hfree
  rw [if_neg hp] at hfree
  obtain ⟨nodes, -, hfree⟩ := ite_bind_eq_ok hfree
  obtain ⟨mm, hstack, hfree⟩ := ite_bind_eq_ok hfree
  obtain ⟨mm', htable, -⟩ := ite_bind_eq_ok hfree
  have hmm : SameStatics k.mm mm := by
    split at hstack
    · exact (freePages_frame hstack).1.statics
    · obtain rfl := Except.ok.inj hstack
      exact SameStatics.refl _
  change (if (k.procs p).pagetable ≠ 0 then mm.freePagetable (k.procs p).pagetable else pure mm) = _
    at htable
  rw [if_pos h.page.pos] at htable
  obtain ⟨t, ht, hlast⟩ := freePagetableLoop_last htable
  have hst := hmm.trans ht
  rw [← ht.physToVirt, freePage_upper (hst.vaOffset.trans h.upper) h.page (h.region.congr hst)] at hlast
  cases hlast

/-- After `alloc_pagetable` the table stays where it is. -/
theorem createKernelHalf_hasTable {pagetable : Nat} {mm : Mm} {r : Bool × Kernel}
    (hr : Region k.mm) (hupper : k.mm.vaOffset = vaOffsetConst)
    (halloc : k.mm.allocPage = .ok (pagetable, mm)) (hne : pagetable ≠ 0)
    (h : k.createKernelHalf p = .ok r) : HasTable p r.2 := by
  have hout : HandsOut k.mm 0 pagetable mm := (allocPages_handsOut halloc).resolve_left fun h => hne h.1
  obtain ⟨-, haligned, htop⟩ := hout.addr_le hr
  have hst := hout.later.statics
  obtain ⟨k₁, hk₁⟩ : ∃ k₁, k₁ = (k.setMm mm).setProc p { k.procs p with pagetable := pagetable } :=
    ⟨_, rfl⟩
  have hself : k₁.procs p = { k.procs p with pagetable := pagetable } := by
    rw [hk₁]
    exact Function.update_self ..
  have hk : HasTable p k₁ := by
    refine ⟨hk₁ ▸ hr.congr hst, hk₁ ▸ hst.vaOffset.trans hupper, ?_⟩
    rw [hself]
    exact ⟨haligned, hne, htop⟩
  unfold createKernelHalf allocPagetable allocPagetableWith at h
  rw [halloc, ok_bind] at h
  dsimp only at h
  rw [if_neg hne, ← hk₁] at h
  obtain ⟨⟨kstack, snub⟩, hkstack, h⟩ := bind_eq_ok.mp h
  have hsnub : SameStatics k₁.mm snub.mm := Snub.kzalloc_statics hkstack
  obtain ⟨k₂, hk₂⟩ : ∃ k₂, k₂ = (k₁.setSnub snub).setProc p { k₁.procs p with kstack := kstack } :=
    ⟨_, rfl⟩
  have h₂ : KeepsTable p k₁ k₂ := by
    have hset : KeepsTable p k₁ (k₁.setSnub snub) := ⟨hsnub, rfl⟩
    rw [hk₂]
    exact hset.trans (.setProc rfl)
  dsimp only at h
  rw [← hk₂] at h
  split at h
  · obtain rfl := Except.ok.inj h
    exact hk.keeps h₂
  · obtain ⟨⟨ok, k₃⟩, hmap₃, h⟩ := bind_eq_ok.mp h
    have h₃ := h₂.trans (keepsTable_mapPage hmap₃)
    dsimp only at h
    split at h
    · obtain rfl := Except.ok.inj h
      exact hk.keeps h₃
    · obtain ⟨⟨ok', k₄⟩, hmap₄, h⟩ := bind_eq_ok.mp h
      have h₄ := h₃.trans (keepsTable_mapPage hmap₄)
      dsimp only at h
      split at h
      · obtain rfl := Except.ok.inj h
        exact hk.keeps h₄
      · obtain rfl := Except.ok.inj h
        have hlast : ∀ (v : Proc) (tf : Nat) (f : TrapFrame),
            v.pagetable = (k₄.procs p).pagetable → KeepsTable p k₁ ((k₄.setProc p v).setFrame tf f) :=
          fun v tf f hv => h₄.trans (KeepsTable.trans (.setProc hv) ⟨SameStatics.refl _, rfl⟩)
        exact hk.keeps (hlast _ _ _ rfl)

/-! ### The record alone -/

/-- The object for the process, with a zeroed record and a node in no list. -/
def withRecord (k : Kernel) (p : Nat) (S : Snub) : Kernel :=
  ((k.setSnub S).setProc p Proc.zero).setNodes (Function.update k.nodes (.qNode p) ⟨none, none⟩)

theorem allocProc_eq {S : Snub} (hz : k.snub.kzalloc sizeofProc = .ok (p, S)) (hp : p ≠ 0) :
    k.allocProc = .ok (p, k.withRecord p S) := by
  unfold allocProc
  rw [hz, ok_bind]
  dsimp only
  rw [if_neg hp]
  rfl

theorem unqueued_of_nodes (h : k'.nodes = Function.update k.nodes (.qNode p) ⟨none, none⟩) :
    Unqueued k k' p where
  notMem head l hr hmem := by
    have hnone : (k'.nodes (.qNode p)).next = none := by
      rw [h, Function.update_self]
    rcases List.mem_cons.mp hmem with rfl | hmem
    · rw [hr.head_next] at hnone
      cases hnone
    · obtain ⟨pre, post, rfl⟩ := List.append_of_mem hmem
      rw [hr.element.2] at hnone
      cases hnone
  others head l hnot := by
    have hsame : ∀ x ∈ head :: l, k'.nodes x = k.nodes x := by
      intro x hx
      rw [h]
      refine Function.update_of_ne ?_ _ _
      rintro rfl
      exact hnot hx
    exact ⟨fun hr => hr.frame fun x hx => (hsame x hx).symm, fun hr => hr.frame hsame⟩

/-- `free_proc` of a process that is only a record. -/
theorem fail1_record (hp : p ≠ 0) (hq : listInQueue k.nodes (.qNode p) = false)
    (hustack : (k.procs p).ustack = 0) (htable : (k.procs p).pagetable = 0)
    (hkstack : (k.procs p).kstack = 0) :
    k.fail1 p = k.snub.kfree p >>= fun S => pure (0, k.setSnub S) := by
  have hnodes : k.setNodes k.nodes = k := rfl
  have hmm : k.setMm k.mm = k := rfl
  have hsnub : k.setSnub k.snub = k := rfl
  have hfree : k.freeProc p = k.snub.kfree p >>= fun S => pure (k.setSnub S) := by
    unfold freeProc
    rw [if_neg hp]
    simp only [hq, Bool.false_eq_true, if_false, pure_bind, hnodes, hmm, hsnub, ne_eq, hustack,
      htable, hkstack, not_true_eq_false]
  unfold fail1
  rw [hfree, bind_assoc]
  rfl

theorem createKernelHalf_noTable {mm : Mm} (hnull : k.mm.allocPage = .ok (0, mm)) :
    k.createKernelHalf p = .ok (false, (k.setMm mm).setProc p { k.procs p with pagetable := 0 }) := by
  unfold createKernelHalf allocPagetable allocPagetableWith
  rw [hnull, ok_bind]
  rfl

/-- When there is no page for the table, `create_proc` frees the record and is done. -/
theorem createProc_noTable {S : Snub} (hz : k.snub.kzalloc sizeofProc = .ok (p, S)) (hp : p ≠ 0)
    (hnull : S.mm.allocPage = .ok (0, S.mm)) :
    ∃ k₁ : Kernel, k₁.nodes = Function.update k.nodes (.qNode p) ⟨none, none⟩ ∧
      ∀ binary size, k.createProc binary size = S.kfree p >>= fun S' => pure (0, k₁.setSnub S') := by
  obtain ⟨k₁, hk₁⟩ : ∃ k₁, k₁ = (k.withRecord p S).initPid p := ⟨_, rfl⟩
  obtain ⟨k₂, hk₂⟩ : ∃ k₂, k₂ = (k₁.setMm S.mm).setProc p { k₁.procs p with pagetable := 0 } :=
    ⟨_, rfl⟩
  have hnodes : k₂.nodes = Function.update k.nodes (.qNode p) ⟨none, none⟩ := by
    rw [hk₂, hk₁]
    rfl
  have hsnub : k₂.snub = S := by
    rw [hk₂, hk₁]
    rfl
  have hhalf : k₁.createKernelHalf p = .ok (false, k₂) := by
    have hmm : k₁.mm = S.mm := by
      rw [hk₁]
      rfl
    rw [hk₂]
    exact createKernelHalf_noTable (hmm ▸ hnull)
  have hrecord : k₂.procs p = { Proc.zero with
      pid := ((k.withRecord p S).nextPid + 1) % 2 ^ 32, boundCpu := 2 ^ 32 - 1 } := by
    rw [hk₂, hk₁]
    simp only [setProc, initPid, withRecord, setNodes, setMm, Function.update_self]
    rfl
  have hq : listInQueue k₂.nodes (.qNode p) = false := by
    rw [hnodes, listInQueue, Function.update_self]
    rfl
  refine ⟨k₂, hnodes, fun binary size => ?_⟩
  unfold createProc
  rw [allocProc_eq hz hp, ok_bind]
  dsimp only
  rw [if_neg hp, ← hk₁, hhalf, ok_bind]
  have hfail := fail1_record hp hq (by rw [hrecord]; rfl) (by rw [hrecord]; rfl) (by rw [hrecord]; rfl)
  rw [hsnub] at hfail
  exact hfail

theorem failsCleanly_noTable_iff {S : Snub} (hz : k.snub.kzalloc sizeofProc = .ok (p, S))
    (hp : p ≠ 0) (hnull : S.mm.allocPage = .ok (0, S.mm)) :
    FailsCleanly k binary size ↔ ∃ S', S.kfree p = .ok S' ∧ NothingLost k.snub S' := by
  obtain ⟨k₁, hnodes, hcall⟩ := createProc_noTable hz hp hnull
  unfold FailsCleanly
  rw [hcall]
  constructor
  · rintro ⟨k', hret, hlost, -⟩
    obtain ⟨S', hfree, hret⟩ := bind_eq_ok.mp hret
    obtain rfl := (Prod.mk.inj (Except.ok.inj hret)).2
    exact ⟨S', hfree, hlost⟩
  · rintro ⟨S', hfree, hlost⟩
    refine ⟨k₁.setSnub S', ?_, hlost, ?_⟩
    · rw [hfree]
      rfl
    · intro q k₀ halloc _
      rw [allocProc_eq hz hp] at halloc
      obtain rfl := (Prod.mk.inj (Except.ok.inj halloc)).1
      exact unqueued_of_nodes hnodes

/-- When there is one, and a later call fails, `create_proc` does not come back. -/
theorem createProc_ne_ok {S : Snub} {pagetable : Nat} {mm : Mm}
    (hz : k.snub.kzalloc sizeofProc = .ok (p, S)) (hp : p ≠ 0) (hr : Region S.mm)
    (hupper : S.mm.vaOffset = vaOffsetConst) (halloc : S.mm.allocPage = .ok (pagetable, mm))
    (hne : pagetable ≠ 0) (hgives : GivesUp k binary size) (r : Nat × Kernel) :
    k.createProc binary size ≠ .ok r := by
  intro hcall
  have hproc := allocProc_eq hz hp
  have hmm : ((k.withRecord p S).initPid p).mm = S.mm := rfl
  have htable : ∀ {r : Bool × Kernel},
      ((k.withRecord p S).initPid p).createKernelHalf p = .ok r → HasTable p r.2 := by
    intro r h
    rw [← hmm] at hr hupper halloc
    exact createKernelHalf_hasTable hr hupper halloc hne h
  -- The state that a later call has failed in is the one that `free_proc` is called in.
  have hsame : ∀ {q : Nat} {k₀ : Kernel}, k.allocProc = .ok (q, k₀) → q = p ∧ k₀ = k.withRecord p S := by
    intro q k₀ h
    exact Prod.mk.inj (Except.ok.inj (h.symm.trans hproc))
  unfold createProc at hcall
  rw [hproc, ok_bind] at hcall
  dsimp only at hcall
  rw [if_neg hp] at hcall
  cases hgives with
  | noProc h => exact hp (hsame h).1.symm
  | kernelHalf h _ hhalf =>
      obtain ⟨rfl, rfl⟩ := hsame h
      rw [hhalf, ok_bind] at hcall
      exact (htable hhalf).fail1_ne_ok hp r hcall
  | binary h _ hhalf hload =>
      obtain ⟨rfl, rfl⟩ := hsame h
      rw [hhalf, ok_bind] at hcall
      dsimp only at hcall
      rw [if_neg (by decide), hload, ok_bind] at hcall
      exact ((htable hhalf).keeps (keepsTable_loadBinary hload)).fail1_ne_ok hp r hcall
  | userStack h _ hhalf hload hstack =>
      obtain ⟨rfl, rfl⟩ := hsame h
      rw [hhalf, ok_bind] at hcall
      dsimp only at hcall
      rw [if_neg (by decide), hload, ok_bind] at hcall
      dsimp only at hcall
      rw [hstack, ok_bind] at hcall
      have hkeep := (keepsTable_loadBinary hload).trans (keepsTable_createUserStack hstack)
      exact ((htable hhalf).keeps hkeep).fail1_ne_ok hp r hcall

/-! ### Which failures are cleaned up -/

/-- The object for the process is all that can be had: no other page is free, and the page of the
object has a buddy.  A `proc_t` is in class 4. -/
def RecordOnly (S : Snub) : Prop :=
  ((S.caches 4).partialList ≠ 0 ∧ freeCount S.mm = 0 ∧
      S.mm.pageIdx (S.mm.virtToPhys (S.caches 4).partialList) ^^^ 1 < S.mm.numPages) ∨
    ((S.caches 4).partialList = 0 ∧ freeCount S.mm = 1 ∧
      ∀ i, FreePage S.mm i → i ^^^ 1 < S.mm.numPages)

theorem sizeToIdx_proc : sizeToIdx sizeofProc = some 4 := by decide

section

variable {live : Multiset (Nat × Nat)} {taken given fl : Nat → List Nat} {S : Snub}

/-- An object from the free list. -/
theorem failsCleanly_pop_iff {rest : List Nat} (h : Stocked k.snub live taken given fl)
    (hfl : fl 4 = p :: rest)
    (hstock : Stocked S live taken (Function.update given 4 (p :: given 4))
      (Function.update fl 4 rest)) (hrec : Snub.SameRecords k.snub.mm S.mm)
    (hz : k.snub.kzalloc sizeofProc = .ok (p, S)) (hp : p ≠ 0) (hnone : NoPage S.mm) :
    FailsCleanly k binary size ↔ RecordOnly k.snub := by
  have hhead := (h.slabs.partialList_of_cons hfl).1
  have hcount : freeCount k.snub.mm = 0 := by
    rw [← hrec.freeCount]
    exact hstock.run.freeCount_of_noPage hnone
  have hself : p ∈ Function.update given 4 (p :: given 4) 4 := by
    rw [Function.update_self]
    exact List.mem_cons_self
  have hidx : S.mm.pageIdx (S.mm.virtToPhys p) =
      k.snub.mm.pageIdx (k.snub.mm.virtToPhys (k.snub.caches 4).partialList) := by
    rw [hhead, pageIdx_congr hrec.statics, hrec.statics.virtToPhys]
  obtain ⟨honly, hback⟩ := hstock.kfree_noPage hself hnone
  rw [hidx, hrec.statics.numPages] at honly hback
  rw [failsCleanly_noTable_iff hz hp (hstock.run.allocPage_noPage hnone)]
  have hne : (k.snub.caches 4).partialList ≠ 0 := hhead ▸ hp
  constructor
  · rintro ⟨S', hfree, -⟩
    exact Or.inl ⟨hne, hcount, (honly S' hfree).1⟩
  · rintro (⟨-, -, hbuddy⟩ | ⟨hzero, -⟩)
    · obtain ⟨S', hfree⟩ := hback hbuddy
      refine ⟨S', hfree, fun i hi => ?_⟩
      exact absurd hi (h.run.not_freePage (h.run.noPage_iff.mpr hcount) i)
    · exact absurd hzero hne

/-- An object of a page that was taken for it. -/
theorem failsCleanly_refill_iff {j pa : Nat} {mm : Mm} {taken' fl' : Nat → List Nat}
    (h : Stocked k.snub live taken given fl) (hempty : fl 4 = []) (hnew : NewPage k.snub.mm live pa mm)
    (hj : j < Snub.perPage 4)
    (hstock : Stocked S ((pa, 0) ::ₘ live) taken'
      (Function.update given 4 (Snub.objAt k.snub.mm.vaOffset pa 4 j :: given 4)) fl')
    (hon : Snub.OnPage pa mm S.mm)
    (hz : k.snub.kzalloc sizeofProc = .ok (Snub.objAt k.snub.mm.vaOffset pa 4 j, S))
    (hnone : NoPage S.mm) : FailsCleanly k binary size ↔ RecordOnly k.snub := by
  have hst := hnew.statics.trans hon.statics
  have hlist := h.slabs.partialList_zero_iff.mpr hempty
  have hmm : Snub.SameRecords mm S.mm := ⟨hon.statics, hon.pages, hon.lists⟩
  have hcount : freeCount k.snub.mm = 1 := by
    rw [← hnew.freeCount h.run, ← hmm.freeCount, hstock.run.freeCount_of_noPage hnone]
  have hnone' : ∀ i, ¬FreePage mm i := by
    apply hnew.run.not_freePage
    rw [hnew.run.noPage_iff, ← hmm.freeCount]
    exact hstock.run.freeCount_of_noPage hnone
  -- The one page that was free is the one that the object lies in.
  have hfree : ∀ i, FreePage k.snub.mm i ↔ i < k.snub.mm.numPages ∧ i = k.snub.mm.pageIdx pa := by
    intro i
    constructor
    · intro hi
      have hlt := h.run.freePage_lt hi
      exact ⟨hlt, ((hnew.freePage_iff h.run hlt).mp hi).resolve_right (hnone' i)⟩
    · rintro ⟨hlt, heq⟩
      exact (hnew.freePage_iff h.run hlt).mpr (Or.inl heq)
  have hself : Snub.objAt k.snub.mm.vaOffset pa 4 j ∈
      Function.update given 4 (Snub.objAt k.snub.mm.vaOffset pa 4 j :: given 4) 4 := by
    rw [Function.update_self]
    exact List.mem_cons_self
  obtain ⟨honly, hback⟩ := hstock.kfree_noPage hself hnone
  have hphys : S.mm.virtToPhys (Snub.objAt k.snub.mm.vaOffset pa 4 j) = pa + j * Snub.classSize 4 :=
    Snub.virtToPhys_objAt hnew.isPage (by decide) hj h.slabs.space hst.vaOffset
  have hpage : k.snub.mm.pageIdx pa < k.snub.mm.numPages ∧
      k.snub.mm.pageIdx (pa + j * Snub.classSize 4) = k.snub.mm.pageIdx pa := by
    obtain ⟨b, hb, haddr⟩ := hnew.run.addr _ (Multiset.mem_cons_self _ _)
    rw [hnew.statics.numPages] at hb
    rw [hnew.statics.base] at haddr
    have hfits := Snub.obj_fits (show 4 ≤ 8 by decide) hj
    have hge := Snub.classSize_ge 4
    dsimp only at haddr
    rw [haddr, h.run.region.pageIdx_head hb, h.run.region.pageIdx_page hb _ (by omega)]
    exact ⟨hb, rfl⟩
  rw [hphys, pageIdx_congr hst, hpage.2, hst.numPages] at honly hback
  rw [failsCleanly_noTable_iff hz (Snub.objAt_ne_zero hnew.isPage)
    (hstock.run.allocPage_noPage hnone)]
  constructor
  · rintro ⟨S', hcall, -⟩
    refine Or.inr ⟨hlist, hcount, fun i hi => ?_⟩
    rw [((hfree i).mp hi).2]
    exact (honly S' hcall).1
  · rintro (⟨hne, -⟩ | ⟨-, -, hbuddy⟩)
    · exact absurd hlist hne
    · obtain ⟨S', hcall⟩ := hback (hbuddy _ ((hfree _).mpr ⟨hpage.1, rfl⟩))
      refine ⟨S', hcall, fun i hi => Or.inl ?_⟩
      rw [((hfree i).mp hi).2]
      exact (honly S' hcall).2

/--
**A failure of `create_proc` is cleaned up** if and only if the object for the process is all that
it has got.
-/
theorem createProc_failsCleanly_iff (h : Stocked k.snub live taken given fl)
    (hgives : GivesUp k binary size) : FailsCleanly k binary size ↔ RecordOnly k.snub := by
  obtain ⟨p, S, hz, hp, hcase⟩ := h.kzalloc sizeToIdx_proc
  -- With a page for the table the call does not come back, and there was a page too much.
  have htable : ∀ {live' : Multiset (Nat × Nat)} {pagetable : Nat} {mm : Mm}, RunInv S.mm live' →
      S.mm.vaOffset = vaOffsetConst → S.mm.allocPage = .ok (pagetable, mm) → pagetable ≠ 0 →
      ¬FailsCleanly k binary size := by
    rintro live' pagetable mm hi hupper halloc hne ⟨k', hcall, -⟩
    exact createProc_ne_ok hz hp hi.region hupper halloc hne hgives _ hcall
  rcases hcase with hsupp | hast
  · cases hsupp with
    | pop hfl hstock hrec hmem =>
        rcases hstock.run.allocPage with ⟨-, hnone⟩ | ⟨pagetable, mm, halloc, hne, hnew⟩
        · exact failsCleanly_pop_iff h hfl hstock hrec hz hp hnone
        · refine iff_of_false (htable hstock.run hstock.upper halloc hne) ?_
          have hcount := hnew.freeCount hstock.run
          rw [hrec.freeCount] at hcount
          rintro (⟨-, hzero, -⟩ | ⟨hnull, -⟩)
          · omega
          · rw [(h.slabs.partialList_of_cons hfl).1] at hnull
            exact hp hnull
    | refill hempty hj hne hnew hstock hon hzero =>
        rcases hstock.run.allocPage with ⟨-, hnone⟩ | ⟨pagetable, mm, halloc, hne', hnew'⟩
        · exact failsCleanly_refill_iff h hempty hnew hj hstock hon hz hnone
        · refine iff_of_false (htable hstock.run hstock.upper halloc hne') ?_
          have hcount := hnew'.freeCount hstock.run
          have hcount' := hnew.freeCount h.run
          have hmm : freeCount S.mm = freeCount _ := freeCount_congr hon.pages hon.lists
          rintro (⟨-, hzero, -⟩ | ⟨-, hone, -⟩) <;> omega
  · have hi := hast.records.runInv h.run
    have hnone := hast.records.noPage hast.noPage
    rw [failsCleanly_noTable_iff hz hp (hi.allocPage_noPage hnone)]
    refine iff_of_false ?_ ?_
    · rintro ⟨S', hcall, -⟩
      exact hast.kfree_ne_ok h (by decide) S' hcall
    · rintro (⟨hne, -⟩ | ⟨-, hone, -⟩)
      · exact hne hast.empty
      · rw [h.run.freeCount_of_noPage hast.noPage] at hone
        cases hone

end

/-! ### Calls that fail -/

section

variable {live : Multiset (Nat × Nat)} {S S' : Snub} {pagetable kstack : Nat} {mm : Mm}

theorem mapPage_noPage (hi : RunInv k.mm live) (hnone : NoPage k.mm) (pagetable va pa perm : Nat) :
    ∃ ok k', k.mapPage pagetable va pa perm = .ok (ok, k') ∧ Snub.SameRecords k.mm k'.mm := by
  obtain ⟨ok, s', hmap, hrec⟩ := Mm.mapPage_noPage hi hnone pagetable va pa perm
  refine ⟨ok, k.setMm s', ?_, hrec⟩
  unfold mapPage
  rw [hmap]
  rfl

/-- When the table has got the last page, the kernel's half is left as it comes. -/
theorem createKernelHalf_noPage (halloc : k.mm.allocPage = .ok (pagetable, mm)) (hne : pagetable ≠ 0)
    (hi : RunInv mm live) (hnone : NoPage mm)
    (hz : Snub.kzalloc ⟨mm, k.snub.caches⟩ kstackSize = .ok (kstack, S))
    (hrec : Snub.SameRecords mm S.mm) :
    ∃ ok k', k.createKernelHalf p = .ok (ok, k') ∧ Snub.SameRecords mm k'.mm := by
  obtain ⟨k₁, hk₁⟩ : ∃ k₁, k₁ = (k.setMm mm).setProc p { k.procs p with pagetable := pagetable } :=
    ⟨_, rfl⟩
  have hz₁ : k₁.snub.kzalloc kstackSize = .ok (kstack, S) := by
    rw [hk₁]
    exact hz
  obtain ⟨k₂, hk₂⟩ : ∃ k₂, k₂ = (k₁.setSnub S).setProc p { k₁.procs p with kstack := kstack } :=
    ⟨_, rfl⟩
  have hrec₂ : Snub.SameRecords mm k₂.mm := hk₂ ▸ hrec
  obtain ⟨ok₃, k₃, hmap₃, hrec₃⟩ := mapPage_noPage (hrec₂.runInv hi) (hrec₂.noPage hnone)
    (k₂.procs p).pagetable p (k₂.mm.virtToPhys p) (pteR ||| pteW)
  replace hrec₃ := hrec₂.trans hrec₃
  obtain ⟨ok₄, k₄, hmap₄, hrec₄⟩ := mapPage_noPage (hrec₃.runInv hi) (hrec₃.noPage hnone)
    (k₃.procs p).pagetable kstack (k₃.mm.virtToPhys kstack) (pteR ||| pteW)
  replace hrec₄ := hrec₃.trans hrec₄
  unfold createKernelHalf allocPagetable allocPagetableWith
  rw [halloc, ok_bind]
  dsimp only
  rw [if_neg hne, ← hk₁, hz₁, ok_bind]
  dsimp only
  rw [← hk₂]
  split
  · exact ⟨false, k₂, rfl, hrec₂⟩
  · unfold mapObject
    rw [hmap₃, ok_bind]
    dsimp only
    split
    · exact ⟨false, k₃, rfl, hrec₃⟩
    · rw [hmap₄, ok_bind]
      dsimp only
      split
      · exact ⟨false, k₄, rfl, hrec₄⟩
      · exact ⟨true, _, rfl, hrec₄.trans ⟨⟨rfl, rfl, rfl, rfl⟩, rfl, rfl⟩⟩

/-- Nothing of a binary is loaded without a page. -/
theorem loadBinary_noPage (hi : RunInv k.mm live) (hnone : NoPage k.mm) (hsize : size ≠ 0)
    (fuel va src : Nat) : loadBinary p (fuel + 1) va size src k = .ok (none, k) := by
  rw [loadBinary, if_neg hsize, hi.allocPage_noPage hnone, ok_bind]
  rfl

theorem givesUp_noTable (hz : k.snub.kzalloc sizeofProc = .ok (p, S)) (hp : p ≠ 0)
    (hnull : S.mm.allocPage = .ok (0, S.mm)) : GivesUp k binary size := by
  have hnull' : ((k.withRecord p S).initPid p).mm.allocPage = .ok (0, S.mm) := hnull
  exact .kernelHalf (allocProc_eq hz hp) hp (createKernelHalf_noTable hnull')

theorem givesUp_noPage (hz : k.snub.kzalloc sizeofProc = .ok (p, S)) (hp : p ≠ 0)
    (halloc : S.mm.allocPage = .ok (pagetable, mm)) (hne : pagetable ≠ 0) (hi : RunInv mm live)
    (hnone : NoPage mm) (hz' : Snub.kzalloc ⟨mm, S.caches⟩ kstackSize = .ok (kstack, S'))
    (hrec : Snub.SameRecords mm S'.mm) (hsize : size ≠ 0) : GivesUp k binary size := by
  have hproc := allocProc_eq hz hp
  have hsnub : ((k.withRecord p S).initPid p).snub = S := rfl
  have hmm : ((k.withRecord p S).initPid p).mm = S.mm := rfl
  rw [← hmm] at halloc
  rw [← hsnub] at hz'
  obtain ⟨ok, k₁, hhalf, hrec₁⟩ := createKernelHalf_noPage (p := p) halloc hne hi hnone hz' hrec
  cases ok with
  | false => exact .kernelHalf hproc hp hhalf
  | true =>
      exact .binary hproc hp hhalf
        (loadBinary_noPage (hrec₁.runInv hi) (hrec₁.noPage hnone) hsize _ _ _)

end

/-! ### A small image -/

/-- A kernel without processes, over the allocators `S`. -/
def bootedKernel (kp : Nat) (S : Snub) : Kernel where
  layout := smallLayout
  symbols := ⟨0xffffffff80001000, 0xffffffff80002000⟩
  snub := S
  kernelPagetable := kp
  nextPid := 0
  procs _ := Proc.zero
  frames _ := TrapFrame.zero
  nodes _ := ⟨none, none⟩
  cpu := ⟨0, false, 0⟩
  hart := ⟨0, .trapVector, 0, 0, 0, 0, Context.zero⟩
  uartIn := []
  uartOut := []

theorem givesUp_one {t : Mm} {live : Multiset (Nat × Nat)} {kp : Nat}
    (h : Stocked (Snub.snubInit t) live (fun _ => []) (fun _ => []) (fun _ => []))
    (hone : freeCount t = 1) : GivesUp (bootedKernel kp (Snub.snubInit t)) binary size := by
  obtain ⟨p, S, hz, hp, hcase⟩ := h.kzalloc sizeToIdx_proc
  rcases hcase with hsupp | hast
  · cases hsupp with
    | pop hfl _ _ _ => cases hfl
    | refill _ _ _ hnew hstock hon _ =>
        have hcount := hnew.freeCount h.run
        rw [← freeCount_congr hon.pages hon.lists] at hcount
        have hzero : freeCount S.mm = 0 := Nat.succ.inj (hcount.trans hone)
        exact givesUp_noTable hz hp
          (hstock.run.allocPage_noPage (hstock.run.noPage_iff.mpr hzero))
  · have hzero : freeCount t = 0 := h.run.freeCount_of_noPage hast.noPage
    rw [hzero] at hone
    cases hone

/-- With two pages the second one becomes the table, and then nothing can be loaded. -/
theorem givesUp_two {t : Mm} {live : Multiset (Nat × Nat)} (kp binary : Nat)
    (h : Stocked (Snub.snubInit t) live (fun _ => []) (fun _ => []) (fun _ => []))
    (htwo : freeCount t = 2) (hsize : size ≠ 0) :
    GivesUp (bootedKernel kp (Snub.snubInit t)) binary size ∧
      ∀ r, (bootedKernel kp (Snub.snubInit t)).createProc binary size ≠ .ok r := by
  obtain ⟨p, S, hz, hp, hcase⟩ := h.kzalloc sizeToIdx_proc
  rcases hcase with hsupp | hast
  · cases hsupp with
    | pop hfl _ _ _ => cases hfl
    | refill _ _ _ hnew hstock hon _ =>
        have hcount := hnew.freeCount h.run
        rw [← freeCount_congr hon.pages hon.lists] at hcount
        have hone : freeCount S.mm = 1 := Nat.succ.inj (hcount.trans htwo)
        rcases hstock.run.allocPage with ⟨-, hnone⟩ | ⟨pagetable, mm, halloc, hne, hnew'⟩
        · rw [hstock.run.freeCount_of_noPage hnone] at hone
          cases hone
        · have hcount' := hnew'.freeCount hstock.run
          have hnone : NoPage mm := hnew'.run.noPage_iff.mpr (Nat.succ.inj (hcount'.trans hone))
          have hstock' : Stocked ⟨mm, S.caches⟩ _ _ _ _ := hstock.alloc hnew' rfl rfl
          obtain ⟨kstack, S', hz', -, hrec⟩ :=
            hstock'.kzalloc_noPage (show sizeToIdx kstackSize = some 8 by decide) hnone
          have hgives : GivesUp (bootedKernel kp (Snub.snubInit t)) binary size :=
            givesUp_noPage hz hp halloc hne hnew'.run hnone hz' hrec hsize
          exact ⟨hgives, createProc_ne_ok hz hp hstock.run.region hstock.upper halloc hne hgives⟩
  · have hzero : freeCount t = 0 := h.run.freeCount_of_noPage hast.noPage
    rw [hzero] at htwo
    cases htwo

theorem createProc_failsCleanly_smallLayout :
    ∃ k : Kernel, FailsCleanly k 0x80020000 100 ↔ RecordOnly k.snub := by
  obtain ⟨kp, S, N, as, t, live, -, -, hstock, hone⟩ := exists_stocked_smallLayout (show 1 ≤ 2049 by decide)
  exact ⟨bootedKernel kp (Snub.snubInit t),
    createProc_failsCleanly_iff hstock (givesUp_one hstock hone)⟩

/-- When two pages are left after the boot, a binary of one byte cannot be loaded, and
`create_proc` does not come back. -/
theorem not_failsCleanly_smallLayout :
    ∃ kp S N as t, mmInit smallLayout (fun _ => 0) = .ok (kp, S) ∧ takePages N S.mm = .ok (as, t) ∧
      freeCount t = 2 ∧ GivesUp (bootedKernel kp (Snub.snubInit t)) 0x80020000 1 ∧
      ¬FailsCleanly (bootedKernel kp (Snub.snubInit t)) 0x80020000 1 := by
  obtain ⟨kp, S, N, as, t, live, hS, htake, hstock, htwo⟩ :=
    exists_stocked_smallLayout (show 2 ≤ 2049 by decide)
  obtain ⟨hgives, hnever⟩ := givesUp_two kp 0x80020000 hstock htwo one_ne_zero
  refine ⟨kp, S, N, as, t, hS, htake, htwo, hgives, ?_⟩
  rintro ⟨k', hcall, -⟩
  exact hnever _ hcall

end Kernel

end SystemN
