/-
The records of `page_array`, as the allocator looks at them under the kernel page table.

`alloc_pages` turns every `page_t *` into a virtual address before it follows it, and
`free_pages` follows it as it is.  Under the table no address of RAM itself is mapped, so of
the two only `alloc_pages` has its records mapped, and only those below `KERNEL_END`.

A call may halt in the middle, so its accesses are those of the program, which leaves them
behind wherever it stops.
-/
import SystemN.Proofs.KernelRun
import SystemN.Proofs.Mm.Calls

namespace SystemN

open Mm Radix Programs Calls

variable {L : Layout} {m : Nat → UInt8} {kp order o b a i : Nat} {s s' : Mm}
  {live tabs : Multiset (Nat × Nat)} {x : Shared} {e : Nat × Nat}

/-! ### The accesses of a call -/

/-- A call of the page allocator, with a block to free that its caller holds. -/
inductive PageCall (live : Multiset (Nat × Nat)) : Call → Prop
  | alloc (order : Nat) : PageCall live (.allocPages order)
  | free {B : Nat × Nat} (hB : B ∈ live) : PageCall live (.freePages B.1)

/-- The addresses and lengths of the call's accesses, the last one first. -/
def Calls.Call.accesses (call : Call) (x : Shared) (s : Mm) : List (Nat × Nat) :=
  (call.code.alone (mmPart.put x { s with derefs := [] })).2.snub.mm.derefs

/-- Every byte of every `page_t` that the call follows a pointer to is mapped. -/
def RecordsMapped (kp : Nat) (x : Shared) (s : Mm) (call : Call) : Prop :=
  ∀ d ∈ call.accesses x s, d.2 = sizeofPage → ∀ j < sizeofPage, s.translate kp (u64 (d.1 + j)) ≠ none

/-! ### Where the records are -/

/-- At most one page is counted for which there is no room. -/
theorem numPages_le (hL : L.kernelEnd + pageSize ≤ userEnd) :
    (userEnd - initBase L) / pageSize ≤ initEstimate L + 1 := by
  rw [numPages_eq hL, initEstimate_eq hL, estimate_of_room]
  have hrest : initRoom L % 257 < 257 := Nat.mod_lt _ (by norm_num)
  have hroom : 257 * (initRoom L / 257) + initRoom L % 257 = initRoom L := Nat.div_add_mod _ _
  omega

namespace KernelInv

/-- The records are in RAM, and none of them lies in two pages. -/
theorem pagePtr_bounds (h : KernelInv L m kp tabs s live) (hi : i < s.numPages) :
    s.pagePtr i % sizeofPage = 0 ∧ L.dataStart ≤ s.pagePtr i ∧ s.pagePtr i + sizeofPage ≤ userEnd := by
  obtain ⟨-, -, hmod⟩ := initTable_bounds h.room
  obtain ⟨-, htop, hbmod, hrec, -⟩ := initBase_bounds h.room
  have hnum : s.numPages = (userEnd - initBase L) / pageSize := h.statics.numPages
  have harr : s.pageArray = initTable L + pageSize := h.statics.pageArray
  have hle := numPages_le h.room
  have hlo := h.dataStart_le.1
  rw [← hnum] at hle
  rw [hnum] at hi
  simp only [pagePtr, harr, sizeofPage, userEnd, pageSize] at *
  omega

/-- Through `PHYS_TO_VIRT` a record is mapped when it lies below `KERNEL_END`. -/
theorem record_mapped_iff (h : KernelInv L m kp tabs s live) (hi : i < s.numPages) {j : Nat}
    (hj : j < sizeofPage) :
    s.translate kp (u64 (u64 (s.pagePtr i + s.vaOffset) + j)) ≠ none ↔ s.pagePtr i < kernelEndPhys := by
  obtain ⟨hmod, hlo, hhi⟩ := h.pagePtr_bounds hi
  have haddr : u64 (u64 (s.pagePtr i + s.vaOffset) + j) = s.pagePtr i + j + vaOffsetConst := by
    rw [h.vaOffset]
    simp only [u64, vaOffsetConst, kernelStartVa, kernelStart, userEnd, sizeofPage] at *
    omega
  rw [haddr, h.translate (by omega) (by omega)]
  split
  · next hlt => exact iff_of_true (Option.some_ne_none _) (by omega)
  · next hge =>
    refine iff_of_false (fun hne => hne rfl) ?_
    simp only [kernelEndPhys, sizeofPage] at *
    omega

/-- As it is, never. -/
theorem record_unmapped (h : KernelInv L m kp tabs s live) (hi : i < s.numPages) :
    s.translate kp (u64 (u64 (s.pagePtr i + 0) + 0)) = none := by
  obtain ⟨-, -, hhi⟩ := h.pagePtr_bounds hi
  have haddr : u64 (u64 (s.pagePtr i + 0) + 0) = s.pagePtr i := by
    simp only [u64, userEnd, sizeofPage] at *
    omega
  rw [haddr]
  apply h.translate_low
  simp only [userEnd, sizeofPage] at *
  omega

end KernelInv

/-! ### `alloc_pages` -/

/-- The access to record `i` through its virtual address. -/
def recordAccess (s : Mm) (i : Nat) : Nat × Nat := (u64 (s.pagePtr i + s.vaOffset), sizeofPage)

theorem recordAccess_congr (h : SameStatics s s') (i : Nat) : recordAccess s' i = recordAccess s i := by
  rw [recordAccess, recordAccess, pagePtr, pagePtr, h.pageArray, h.vaOffset]

/-- The split loop looks at the buddies of the halves it keeps. -/
theorem splitLoop_derefs {d : Nat} (h : s.splitLoop order b d = .ok s') :
    e ∈ s'.derefs ↔ e ∈ s.derefs ∨ ∃ j < d, e = recordAccess s (b + 2 ^ (order + j)) := by
  induction d generalizing s with
  | zero =>
      obtain rfl : s = s' := Except.ok.inj h
      simp
  | succ d ih =>
      rw [Mm.splitLoop] at h
      split at h
      · cases h
      · have hrec := recordAccess_congr (Later.pushFree s s.vaOffset (b + 2 ^ (order + (d + 1) - 1))
          (order + (d + 1) - 1)).statics
        rw [ih h]
        simp only [hrec]
        rw [show (s.pushFree s.vaOffset (b + 2 ^ (order + (d + 1) - 1)) (order + (d + 1) - 1)).derefs
          = recordAccess s (b + 2 ^ (order + d)) :: s.derefs from rfl, List.mem_cons]
        constructor
        · rintro ((rfl | hold) | ⟨j, hj, he⟩)
          · exact Or.inr ⟨d, Nat.lt_succ_self d, rfl⟩
          · exact Or.inl hold
          · exact Or.inr ⟨j, Nat.lt_succ_of_lt hj, he⟩
        · rintro (hold | ⟨j, hj, he⟩)
          · exact Or.inl (Or.inr hold)
          · rcases Nat.eq_or_lt_of_le (Nat.le_of_lt_succ hj) with rfl | hlt
            · exact Or.inl (Or.inl he)
            · exact Or.inr ⟨j, hlt, he⟩

/-- The records that are looked at when block `b` of order `o` is taken for one of order `order`. -/
def TakenRecord (order o b i : Nat) : Prop := i = b ∨ ∃ j < o - order, i = b + 2 ^ (order + j)

/-- Besides these records there is the block itself, which is zeroed. -/
theorem takeBlock_derefs (h : s.takeBlock order o b = .ok (a, s')) :
    e ∈ s'.derefs ↔ e ∈ s.derefs ∨ (∃ i, TakenRecord order o b i ∧ e = recordAccess s i) ∨
      e = (s.physToVirt a, pageSize <<< order) := by
  obtain ⟨t, hsplit, h⟩ := bind_eq_ok.mp h
  obtain ⟨addr, -, h⟩ := bind_eq_ok.mp h
  obtain ⟨mem, -, h⟩ := bind_eq_ok.mp h
  obtain ⟨rfl, rfl⟩ := Prod.mk.inj (Except.ok.inj h)
  have hst := (splitLoop_frame hsplit).1.statics
  have hvirt : t.physToVirt addr = s.physToVirt addr := hst.physToVirt addr
  show e ∈ (t.physToVirt addr, pageSize <<< order) :: t.derefs ↔ _
  rw [List.mem_cons, splitLoop_derefs hsplit, hvirt]
  show e = _ ∨ (e ∈ recordAccess s b :: s.derefs ∨ ∃ j < o - order, e = recordAccess s _) ↔ _
  rw [List.mem_cons]
  constructor
  · rintro (rfl | (rfl | hold) | ⟨j, hj, rfl⟩)
    · exact Or.inr (Or.inr rfl)
    · exact Or.inr (Or.inl ⟨b, Or.inl rfl, rfl⟩)
    · exact Or.inl hold
    · exact Or.inr (Or.inl ⟨_, Or.inr ⟨j, hj, rfl⟩, rfl⟩)
  · rintro (hold | ⟨i, rfl | ⟨j, hj, rfl⟩, rfl⟩ | rfl)
    · exact Or.inr (Or.inl (Or.inr hold))
    · exact Or.inr (Or.inl (Or.inl rfl))
    · exact Or.inr (Or.inr ⟨j, hj, rfl⟩)
    · exact Or.inl rfl

/-- The last of these records. -/
def lastRecord (order o b : Nat) : Nat := if o = order then b else b + 2 ^ (o - 1)

theorem TakenRecord.le (h : TakenRecord order o b i) : i ≤ lastRecord order o b := by
  unfold lastRecord
  rcases h with rfl | ⟨j, hj, rfl⟩
  · split
    · exact Nat.le_refl _
    · exact Nat.le_add_right _ _
  · rw [if_neg (by omega)]
    exact Nat.add_le_add_left (Nat.pow_le_pow_right (by decide) (by omega)) b

theorem takenRecord_last (hle : order ≤ o) : TakenRecord order o b (lastRecord order o b) := by
  unfold lastRecord
  split
  · exact Or.inl rfl
  · next hne => exact Or.inr ⟨o - 1 - order, by omega, by rw [Nat.add_sub_cancel' (by omega)]⟩

/-- A free block is managed as a whole. -/
theorem FirstBlock.fits (h : FirstBlock s order o b) (hi : RunInv s live) : b + 2 ^ o ≤ s.numPages := by
  obtain ⟨fl, hinv⟩ := hi.inv
  obtain ⟨t, -, -, hfl, -, -⟩ := takeBlock_spec hi.region hinv h.le h.order_le h.head
  have hmem : b ∈ fl o := hfl ▸ List.mem_cons_self
  exact hinv.tiling.end_le (Buddy.mem_allBlocks_of_free h.le hmem)

theorem FirstBlock.last_lt (h : FirstBlock s order o b) (hi : RunInv s live) :
    lastRecord order o b < s.numPages := by
  have hfits := h.fits hi
  have hpos := Nat.two_pow_pos o
  unfold lastRecord
  split
  · omega
  · next hne =>
    have hlt : 2 ^ (o - 1) < 2 ^ o := Nat.pow_lt_pow_right (by decide) (by have := h.order_le; omega)
    omega

/-- The accesses of `alloc_pages`. -/
theorem FirstBlock.accesses (h : FirstBlock s order o b) (hi : RunInv s live) (x : Shared) :
    e ∈ (Call.allocPages order).accesses x s ↔
      (∃ i, TakenRecord order o b i ∧ e = recordAccess s i) ∨
        e = (s.physToVirt (s.buddyBasePhys + b * pageSize), pageSize <<< order) := by
  have hfirst : FirstBlock { s with derefs := [] } order o b := ⟨h.order_le, h.le, h.before, h.head⟩
  obtain ⟨s', htake, -, -⟩ := hfirst.taken (hi.congr ⟨rfl, rfl, rfl, rfl⟩ rfl rfl)
  have hends := allocPages_ends (x := x) (s := { s with derefs := [] }) order
  rw [hfirst.allocPages, htake] at hends
  have hbind : (Call.allocPages order).accesses x s = s'.derefs := by
    rw [Call.accesses, Call.code, Prog.alone_bind, show (Calls.allocPages order).alone _ = _ from hends]
    rfl
  rw [hbind, takeBlock_derefs htake]
  exact or_iff_right List.not_mem_nil

/-- Where there is no block there are no accesses. -/
theorem accesses_of_none (h : ∀ o b, ¬FirstBlock s order o b) (x : Shared) :
    (Call.allocPages order).accesses x s = [] := by
  rcases firstBlock_cases { s with derefs := [] } order with ⟨o, b, hfirst⟩ | ⟨-, hnull⟩
  · exact absurd ⟨hfirst.order_le, hfirst.le, hfirst.before, hfirst.head⟩ (h o b)
  · have hends := allocPages_ends (x := x) (s := { s with derefs := [] }) order
    rw [hnull] at hends
    rw [Call.accesses, Call.code, Prog.alone_bind, show (Calls.allocPages order).alone _ = _ from hends]
    rfl

/-! ### `free_pages`

It looks at the record of the block before anything else.  What it does then takes nothing
off the trace, whether it returns or not.
-/

/-- The access has been made. -/
def Seen (e : Nat × Nat) (x : Shared) : Prop := e ∈ x.snub.mm.derefs

theorem modifyMm_seen {f : Mm → Mm} (h : ∀ s, Later s (f s)) : (modifyMm f).Keeps (Seen e) :=
  Prog.Keeps.modify fun x hx => (h x.snub.mm).mem_derefs hx

theorem uartPuts_seen (cs : List Char) : (uartPuts cs).Keeps (Seen e) := by
  induction cs with
  | nil => exact Prog.Keeps.pure ()
  | cons c cs ih => exact (Prog.Keeps.modify fun _ hx => hx).bind fun _ => ih

theorem getPageStruct_seen (pa : Nat) : (Calls.getPageStruct pa).Keeps (Seen e) := by
  apply (Prog.Keeps.read mmPart).bind
  intro s
  apply Prog.Keeps.ite
  · apply (uartPuts_seen _).bind
    intro _
    apply (uartPuts_seen _).bind
    intro _
    exact (Prog.Keeps.modify fun _ hx => hx).bind fun _ => Prog.Keeps.stop Stop.halt
  · exact Prog.Keeps.pure _

theorem findLink_seen (o buddy : Nat) :
    ∀ (fuel : Nat) (p : Mm.Link), (Calls.findLink o buddy fuel p).Keeps (Seen e) := by
  intro fuel
  induction fuel with
  | zero => exact fun p => Prog.Keeps.stop Stop.diverge
  | succ fuel ih =>
      intro p
      apply (modifyMm_seen fun s => Later.derefLink s p).bind
      intro _
      apply (Prog.Keeps.read mmPart).bind
      intro s
      cases s.readLink o p with
      | none => exact Prog.Keeps.pure p
      | some q => exact Prog.Keeps.ite (Prog.Keeps.pure p) (ih (.next q))

theorem unlink_seen (o buddy : Nat) : (Calls.unlink o buddy).Keeps (Seen e) := by
  apply (Prog.Keeps.read mmPart).bind
  intro s
  apply (findLink_seen o buddy _ _).bind
  intro p
  apply (Prog.Keeps.read mmPart).bind
  intro _
  exact Prog.Keeps.ite (modifyMm_seen fun s => Later.writeLink s o _ p) (Prog.Keeps.pure ())

theorem mergeLoop_seen : ∀ n addr : Nat, (Calls.mergeLoop n addr).Keeps (Seen e) := by
  intro n
  induction n with
  | zero => exact fun addr => Prog.Keeps.pure _
  | succ n ih =>
      intro addr
      apply (Prog.Keeps.read mmPart).bind
      intro s
      apply (getPageStruct_seen _).bind
      intro buddy
      apply (modifyMm_seen fun s => Later.derefPage s 0 buddy).bind
      intro _
      apply (Prog.Keeps.read mmPart).bind
      intro _
      apply Prog.Keeps.ite
      · exact Prog.Keeps.pure _
      · apply (unlink_seen _ buddy).bind
        intro _
        apply (modifyMm_seen fun s => Later.setPage s buddy _).bind
        exact fun _ => ih _

/-- The record of the block is looked at where its pointer says. -/
theorem freePages_accesses {addr pg : Nat} (hne : addr ≠ 0) (hpg : s.getPageStruct addr = .ok pg)
    (x : Shared) : (u64 (s.pagePtr pg + 0), sizeofPage) ∈ (Call.freePages addr).accesses x s := by
  have hends := getPageStruct_ends (x := x) (s := { s with derefs := [] }) addr
  rw [show Mm.getPageStruct { s with derefs := [] } addr = .ok pg from hpg] at hends
  rw [Call.accesses, Call.code, Calls.freePages, if_neg hne, Prog.alone_bind]
  dsimp only [Prog.acquire, Prog.alone]
  rw [Prog.alone_bind, show (Calls.getPageStruct addr).alone _ = _ from hends]
  dsimp only
  rw [Prog.alone_bind]
  refine Prog.Keeps.alone (R := Seen _) ?_ List.mem_cons_self
  apply (Prog.Keeps.read mmPart).bind
  intro s
  apply Prog.Keeps.ite
  · exact Prog.Keeps.release Lock.buddy
  · apply (modifyMm_seen fun s => Later.setPage s pg _).bind
    intro _
    apply (mergeLoop_seen _ _).bind
    rintro ⟨merged, k⟩
    apply (getPageStruct_seen merged).bind
    intro i
    exact (modifyMm_seen fun s => Later.pushFree s 0 i k).bind fun _ => Prog.Keeps.release Lock.buddy

/-! ### Which calls find their records mapped -/

theorem KernelInv.alloc_mapped_iff (h : KernelInv L m kp tabs s live) (x : Shared) (order : Nat) :
    RecordsMapped kp x s (.allocPages order) ↔
      ∀ o b, FirstBlock s order o b → s.pagePtr (lastRecord order o b) < kernelEndPhys := by
  constructor
  · intro hall o b hfirst
    have hmem := (hfirst.accesses h.run x).mpr (Or.inl ⟨_, takenRecord_last hfirst.order_le, rfl⟩)
    exact (h.record_mapped_iff (hfirst.last_lt h.run) (by decide)).mp (hall _ hmem rfl 0 (by decide))
  · intro hlast d hd hlen j hj
    rcases firstBlock_cases s order with ⟨o, b, hfirst⟩ | ⟨hnone, -⟩
    · rcases (hfirst.accesses h.run x).mp hd with ⟨i, hi, rfl⟩ | rfl
      · have hle := hi.le
        refine (h.record_mapped_iff (hle.trans_lt (hfirst.last_lt h.run)) hj).mpr ?_
        refine Nat.lt_of_le_of_lt ?_ (hlast o b hfirst)
        exact Nat.add_le_add_left (Nat.mul_le_mul_right _ hle) _
      · -- the block is zeroed, and that is no access to a record
        have hlarge : pageSize ≤ pageSize <<< order := by
          rw [Nat.shiftLeft_eq]
          exact Nat.le_mul_of_pos_right _ (Nat.two_pow_pos order)
        rw [show pageSize <<< order = sizeofPage from hlen] at hlarge
        exact absurd hlarge (by decide)
    · rw [accesses_of_none hnone] at hd
      cases hd

theorem KernelInv.free_unmapped {B : Nat × Nat} (h : KernelInv L m kp tabs s live) (hB : B ∈ live)
    (x : Shared) : ¬RecordsMapped kp x s (.freePages B.1) := by
  intro hall
  have hB' : B ∈ tabs + live := Multiset.mem_add.mpr (Or.inr hB)
  have hlt : s.pageIdx B.1 < s.numPages := by
    have hfits := h.run.fits hB'
    have hpos := Nat.two_pow_pos B.2
    omega
  have hmem := freePages_accesses (h.run.addr_lt hB').2 (getPageStruct_ok hlt) x
  exact hall _ hmem rfl 0 (by decide) (h.record_unmapped hlt)

/--
**The records are mapped** under a call of `alloc_pages` if the last of those that it looks at lies
below `KERNEL_END`, or it finds no block; under a call of `free_pages` never.
-/
theorem KernelRun.records_mapped_iff (h : KernelRun L m kp s live) {call : Call}
    (hcall : PageCall live call) (x : Shared) :
    RecordsMapped kp x s call ↔ ∃ order, call = .allocPages order ∧
      ∀ o b, FirstBlock s order o b → s.pagePtr (lastRecord order o b) < kernelEndPhys := by
  obtain ⟨tabs, hi⟩ := h.inv
  cases hcall with
  | alloc order =>
      rw [hi.alloc_mapped_iff]
      constructor
      · exact fun hlast => ⟨order, rfl, hlast⟩
      · rintro ⟨order', heq, hlast⟩
        obtain rfl : order = order' := by simpa using heq
        exact hlast
  | free hB =>
      refine iff_of_false (hi.free_unmapped hB x) ?_
      rintro ⟨order, heq, -⟩
      cases heq

/-- The first call of the small image. -/
theorem records_mapped_iff_smallLayout :
    ∃ kp S, mmInit smallLayout (fun _ => 0) = .ok (kp, S) ∧
      (RecordsMapped kp ⟨S, []⟩ S.mm (.allocPages 0) ↔ ∃ order, Call.allocPages 0 = .allocPages order ∧
        ∀ o b, FirstBlock S.mm order o b → S.mm.pagePtr (lastRecord order o b) < kernelEndPhys) := by
  obtain ⟨kp, S, hS, -⟩ := exists_boot_smallLayout
  exact ⟨kp, S, hS, KernelRun.records_mapped_iff (.boot hS) (.alloc 0) ⟨S, []⟩⟩

/-- It takes a page after the boot, and gives it back. -/
theorem free_page_unmapped_smallLayout :
    ∃ kp S s a, mmInit smallLayout (fun _ => 0) = .ok (kp, S) ∧ S.mm.allocPages 0 = .ok (a, s) ∧
      KernelRun smallLayout (fun _ => 0) kp s {(a, 0)} ∧
      ∀ x, ¬RecordsMapped kp x s (.freePages a) := by
  obtain ⟨kp, S, hS, hfree⟩ := exists_boot_smallLayout
  have hrun := KernelRun.boot hS
  obtain ⟨tabs, hi⟩ := hrun.inv
  rcases hi.run.allocPage with ⟨-, hnone⟩ | ⟨a, s, hcall, ha, -⟩
  · rw [hi.run.freeCount_of_noPage hnone] at hfree
    exact absurd hfree (by decide)
  · have hrun' := hrun.alloc hcall
    have hi' := hi.alloc hcall
    rw [if_neg ha] at hrun' hi'
    exact ⟨kp, S, s, a, hS, hcall, hrun', hi'.free_unmapped (Multiset.mem_cons_self (a, 0) 0)⟩

end SystemN
