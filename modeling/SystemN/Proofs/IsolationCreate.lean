/-
A new process is kept apart from the others.

`create_proc` takes its memory page by page and object by object, and maps each where the invariant
of `Proofs.Isolation` allows it: the binary and the stack in the lower half, the kernel image, the
UART and the two objects of the process in the kernel's.  The other processes see nothing of it.

Only the way to a process that is returned is followed.  On the other ways `free_proc` gives whole
pages of the caches back, and what is still in them is lost.
-/
import SystemN.Proofs.Isolation
import SystemN.Proofs.FirstEntry
import SystemN.Proofs.Sbrk

namespace SystemN

open Mm Radix Spaces

/-- `memcpy` writes to its destination. -/
theorem memcpy_outside {x : Nat} : ∀ {n dst src : Nat} {m : Nat → UInt8},
    ¬(dst ≤ x ∧ x < dst + n) → memcpy dst src n m x = m x := by
  intro n
  induction n with
  | zero => exact fun {dst src m} _ => rfl
  | succ n ih =>
      intro dst src m hx
      rw [memcpy, ih (by omega), Function.update_of_ne (by omega)]

/-- A new page is filled, wherever the bytes come from. -/
theorem Mm.NewPage.copied {s t : Mm} {live : Multiset (Nat × Nat)} {a src n : Nat}
    (hnew : NewPage s live a t) (hn : n ≤ pageSize) : Filled s live a (t.copyIn a src n) := by
  refine ⟨t, hnew, ⟨⟨rfl, rfl, rfl, rfl⟩, rfl, rfl⟩, fun x hx => memcpy_outside fun hin => hx ?_⟩
  exact ⟨hin.1, hin.2.trans_le (Nat.add_le_add_left hn a)⟩

namespace Kernel

variable {k k' k₁ : Kernel} {p root va pa perm : Nat} {live : Multiset (Nat × Nat)}
  {taken given fl : Nat → List Nat} {roots : Option Nat → Option Nat}
  {Q Q' : PageNo → PageBytes → Nat → Prop}

/-- What `p` sees, of the pages of `V'`, it saw before or it is said by `Q`. -/
def Gets (Q : PageNo → PageBytes → Nat → Prop) (p : Nat)
    (V V' : Mapping (Option Nat) PageNo PageBytes Nat) : Prop :=
  ∀ n b f, V' (some p) n = some (b, f) → V (some p) n = some (b, f) ∨ Q n b f

theorem Gets.trans {V V₁ V' : Mapping (Option Nat) PageNo PageBytes Nat} (h : Gets Q p V V₁)
    (h' : Gets Q p V₁ V') : Gets Q p V V' :=
  fun n b f hpage => (h' n b f hpage).elim (h n b f) Or.inr

/-- Pages have been mapped for the process `p`, those of user code as `Q` says, and no record of a
process has been written. -/
structure Extends (Q : PageNo → PageBytes → Nat → Prop) (roots : Option Nat → Option Nat) (p : Nat)
    (taken given fl : Nat → List Nat) (k k' : Kernel) : Prop where
  same : SameProcs k k'
  isolated : ∃ live, Isolated k'.layout roots k'.snub live taken given fl
  others : ∀ o ≠ some p, userViews roots k'.mm.mem o = userViews roots k.mm.mem o
  gets : Gets Q p (userViews roots k.mm.mem) (userViews roots k'.mm.mem)

/-- What no process sees. -/
theorem Extends.of_views (hsame : SameProcs k k')
    (hi : ∃ live, Isolated k'.layout roots k'.snub live taken given fl)
    (hviews : userViews roots k'.mm.mem = userViews roots k.mm.mem) :
    Extends Q roots p taken given fl k k' :=
  ⟨hsame, hi, fun o _ => congrFun hviews o, fun n b f hpage => Or.inl (by rwa [hviews] at hpage)⟩

theorem Extends.refl (h : Isolated k.layout roots k.snub live taken given fl) :
    Extends Q roots p taken given fl k k :=
  .of_views (SameProcs.refl k) ⟨live, h⟩ rfl

theorem Extends.trans (h : Extends Q roots p taken given fl k k₁)
    (h' : Extends Q roots p taken given fl k₁ k') : Extends Q roots p taken given fl k k' :=
  ⟨h.same.trans h'.same, h'.isolated, fun o ho => (h'.others o ho).trans (h.others o ho),
    h.gets.trans h'.gets⟩

theorem Extends.mono (h : Extends Q roots p taken given fl k k') (hsub : ∀ n b f, Q n b f → Q' n b f) :
    Extends Q' roots p taken given fl k k' :=
  ⟨h.same, h.isolated, h.others, fun n b f hpage => (h.gets n b f hpage).imp id (hsub n b f)⟩

theorem Extends.printed (h : Extends Q roots p taken given fl k k₁) (hp : Printed k₁ k') :
    Extends Q roots p taken given fl k k' := by
  obtain ⟨out, rfl⟩ := hp
  exact ⟨⟨h.same.procs, h.same.layout, h.same.kernelPagetable, h.same.caches⟩, h.isolated, h.others, h.gets⟩

/-! ### Pages for the kernel -/

theorem mapKernel_extends {ok : Bool} (h : Isolated k.layout roots k.snub live taken given fl)
    (hroot : roots (some p) = some root) (hperm : IsPerm perm)
    (hentry : KernelEntry k.layout k.mm.buddyBasePhys va pa (mapFlags perm))
    (hcall : k.mapPage root va pa perm = .ok (ok, k')) : Extends Q roots p taken given fl k k' := by
  obtain ⟨⟨ok', mm⟩, hmap, hk⟩ := bind_eq_ok.mp hcall
  obtain ⟨rfl, rfl⟩ := Prod.mk.inj (Except.ok.inj hk)
  obtain ⟨live', hi, hviews⟩ := h.mapKernel hroot hperm hentry hmap
  exact .of_views ⟨rfl, rfl, rfl, rfl⟩ ⟨live', hi⟩ hviews

/-- A leaf of the kernel's table can be copied. -/
theorem kernelLeaf_entry {L : Layout} {e : Nat × Nat} (base : Nat)
    (h : kernelLeaf L (vpage va) = some e) :
    ∃ perm, IsPerm perm ∧ e.2 = mapFlags perm ∧ KernelEntry L base va e.1 (mapFlags perm) := by
  have hlt : vpage va < 2 ^ 27 := Nat.mod_lt _ (by decide)
  unfold kernelLeaf at h
  split at h
  · next hge =>
    obtain ⟨perm, hperm, rfl⟩ := Option.map_eq_some_iff.mp h
    have hpa : (vpage va - 0x7f00000) * pageSize < 2 ^ 32 := by
      simp only [pageSize]
      omega
    refine ⟨perm, (kernelPerm_facts hperm).1, rfl, Nat.mul_mod_left _ _, hpa, ?_, perm, rfl, Or.inl hperm⟩
    rw [vpage_kernel hpa, Nat.mul_div_cancel _ (by decide), Nat.add_sub_cancel' hge]
  · cases h

/-- **`copy_kernel_mappings`.** -/
theorem copyLoop_extends {kp : Nat} (hkp : roots none = some kp) (hroot : roots (some p) = some root) :
    ∀ {n va : Nat} {k : Kernel} {live : Multiset (Nat × Nat)},
      Isolated k.layout roots k.snub live taken given fl →
      copyLoop root (k.mm.physToVirt kp) n va k = .ok k' → Extends Q roots p taken given fl k k' := by
  intro n
  induction n with
  | zero =>
      intro va k live h hcall
      obtain rfl := Except.ok.inj hcall
      exact Extends.refl h
  | succ n ih =>
      intro va k live h hcall
      have hvirt : ∀ {k₁ : Kernel} {live₁ : Multiset (Nat × Nat)},
          Isolated k₁.layout roots k₁.snub live₁ taken given fl →
          k₁.mm.physToVirt kp = k.mm.physToVirt kp := by
        intro k₁ live₁ h₁
        have hoff : k₁.mm.vaOffset = k.mm.vaOffset := h₁.stocked.upper.trans h.stocked.upper.symm
        rw [physToVirt, physToVirt, hoff]
      have hread : ∀ {t}, Traced k.mm t → Extends Q roots p taken given fl k (k.setMm t) := by
        intro t htr
        obtain ⟨hi, hviews⟩ : Isolated k.layout roots { k.snub with mm := t } (0 + live) taken given fl ∧
            userViews roots t.mem = userViews roots k.mm.mem :=
          h.remap (Isolated.changed_traced h.owned htr) rfl h.stocked.held rfl h.entries h.apart
        exact .of_views ⟨rfl, rfl, rfl, rfl⟩ ⟨_, hi⟩ hviews
      have hnext : ∀ {k₁}, Extends Q roots p taken given fl k k₁ →
          copyLoop root (k.mm.physToVirt kp) n (va + pageSize) k₁ = .ok k' →
          Extends Q roots p taken given fl k k' := by
        intro k₁ hext hrest
        obtain ⟨live₁, h₁⟩ := hext.isolated
        rw [← hvirt h₁] at hrest
        exact hext.trans (ih h₁ hrest)
      rcases copyLoop_succ h.owned.inSpace h.owned.tables hkp root n va with
        ⟨-, t, k₁, htr, hprinted, hround⟩ | ⟨e, t, hleaf, htr, hround⟩
      · rw [hround] at hcall
        exact hnext ((hread htr).printed hprinted) hcall
      · rw [hround] at hcall
        obtain ⟨⟨ok, k₁⟩, hmap, hrest⟩ := bind_eq_ok.mp hcall
        have hkernel : kernelLeaf k.layout (vpage va) = some e := (h.kernel va).symm.trans hleaf
        obtain ⟨perm, hperm, hflags, hentry⟩ := kernelLeaf_entry k.mm.buddyBasePhys hkernel
        rw [hflags, mapPage_mapFlags] at hmap
        obtain ⟨live₁, h₁⟩ := (hread htr).isolated
        have hbase : (k.setMm t).mm.buddyBasePhys = k.mm.buddyBasePhys := by
          obtain ⟨d, rfl⟩ := htr
          rfl
        have hmapped := (hread htr).trans (mapKernel_extends h₁ hroot hperm (hbase ▸ hentry) hmap)
        cases ok with
        | true => exact hnext hmapped hrest
        | false =>
            exact hnext (hmapped.printed (printed_message k₁
              "copy_kernel_mappings: map_page failed at " va 10)) hrest

/-- **What every process shares**: the kernel image and the UART. -/
theorem createShared_extends (h : Isolated k.layout roots k.snub live taken given fl)
    (hkp : roots none = some k.kernelPagetable) (hroot : roots (some p) = some (k.procs p).pagetable)
    (hcall : k.createShared p = .ok k') : Extends Q roots p taken given fl k k' := by
  obtain ⟨k₁, hcopy, hcall⟩ := bind_eq_ok.mp hcall
  have hcopied : Extends Q roots p taken given fl k k₁ := copyLoop_extends hkp hroot h hcopy
  obtain ⟨⟨ok, k₂⟩, hmap, hcall⟩ := bind_eq_ok.mp hcall
  cases ok with
  | false => cases hcall
  | true =>
      obtain rfl := Except.ok.inj hcall
      obtain ⟨live₁, h₁⟩ := hcopied.isolated
      have hphys : k₁.mm.virtToPhys uart0 = uartPhys := by
        rw [virtToPhys, show k₁.mm.vaOffset = vaOffsetConst from h₁.stocked.upper]
        decide
      rw [hphys, hcopied.same.procs] at hmap
      refine hcopied.trans (mapKernel_extends h₁ hroot (by decide) ⟨by decide, by decide, by decide, ?_⟩ hmap)
      exact ⟨pteR ||| pteW, rfl, Or.inl (if_pos rfl)⟩

/-! ### Pages for user code -/

/-- A page that has been filled is mapped for user code. -/
theorem mapUser_extends {mm t : Mm} {ok : Bool} {a : Nat}
    (h : Isolated k.layout roots k.snub live taken given fl) (hfill : Filled k.mm live a t)
    (hroot : roots (some p) = some root) (hlow : vpage va < userEndVa / pageSize) (hperm : IsPerm perm)
    (huser : perm &&& pteU ≠ 0) (hwx : perm &&& pteW = 0 ∨ perm &&& pteX = 0)
    (hcall : Mm.mapPage root va a perm t = .ok (ok, mm)) :
    Extends (fun n b f => n = pageNo va ∧ b = contents t.mem a ∧ f = mapFlags perm) roots p taken given fl k
      (k.setMm mm) := by
  obtain ⟨live', hi, hviews⟩ := h.mapUser hfill hroot hlow hperm huser hwx hcall
  have hfilled : Confined (fun _ => True) (some p) (userViews roots k.mm.mem)
      (fill (userViews roots k.mm.mem) (some p) {pageNo va} (contents t.mem a, mapFlags perm)) :=
    Confined.fill fun _ => trivial
  have hviews' : userViews roots (k.setMm mm).mm.mem = _ := hviews
  refine ⟨⟨rfl, rfl, rfl, rfl⟩, ⟨live', hi⟩, fun o ho => ?_, fun n b f hpage => ?_⟩
  · rw [hviews']
    split
    · exact hfilled.others o ho
    · rfl
  · rw [hviews'] at hpage
    split at hpage
    · unfold fill at hpage
      split at hpage
      · next hat =>
        obtain ⟨rfl, rfl⟩ := Prod.mk.inj (Option.some.inj hpage)
        exact Or.inr ⟨hat.2.1, rfl, rfl⟩
      · exact Or.inl hpage
    · exact Or.inl hpage

/-- **The loop that loads the binary.** -/
theorem loadBinary_extends {fuel : Nat} :
    ∀ {va remaining src last : Nat} {k : Kernel} {live : Multiset (Nat × Nat)},
      Isolated k.layout roots k.snub live taken given fl →
      roots (some p) = some (k.procs p).pagetable → va % pageSize = 0 →
      va + remaining ≤ userHeapEnd →
      loadBinary p fuel va remaining src k = .ok (some last, k') →
      Extends (fun n _ f => (n : Nat) * pageSize < last ∧ f = mapFlags (pteR ||| pteX ||| pteU)) roots p taken
          given fl k k' ∧
        last % pageSize = 0 ∧ va ≤ last ∧ last ≤ userHeapEnd := by
  induction fuel with
  | zero =>
      intro va remaining src last k live h hroot hva hle hcall
      cases hcall
  | succ fuel ih =>
      intro va remaining src last k live h hroot hva hle hcall
      by_cases hzero : remaining = 0
      · rw [loadBinary, if_pos hzero] at hcall
        obtain ⟨hlast, rfl⟩ := Prod.mk.inj (Except.ok.inj hcall)
        obtain rfl := Option.some.inj hlast
        exact ⟨Extends.refl h, hva, le_refl va, by omega⟩
      · rcases h.stocked.run.allocPage with ⟨hnull, -⟩ | ⟨a, mm, halloc, hne, hnew⟩
        · have hnull' : k.mm.allocPage = .ok (0, k.mm) := hnull
          rw [loadBinary, if_neg hzero, hnull', ok_bind] at hcall
          cases hcall
        · rw [loadBinary_succ hzero halloc hne] at hcall
          obtain ⟨⟨ok, k₁⟩, hmap, hrest⟩ := bind_eq_ok.mp hcall
          cases ok with
          | false => cases hrest
          | true =>
              obtain ⟨⟨ok', mm'⟩, hmap', hk⟩ := bind_eq_ok.mp hmap
              obtain ⟨-, rfl⟩ := Prod.mk.inj (Except.ok.inj hk)
              have hlow : vpage va < userEndVa / pageSize ∧ va + pageSize ≤ userHeapEnd ∧
                  vpage va * pageSize = va := by
                simp only [vpage, userHeapEnd, userStackBase, userStackSize, userEndVa, pageSize] at *
                omega
              have hext := mapUser_extends h (hnew.copied (Nat.min_le_left _ _)) hroot hlow.1 (by decide)
                (by decide) (by decide) hmap'
              obtain ⟨live₁, h₁⟩ := hext.isolated
              have hu64 : u64 (va + pageSize) = va + pageSize := Nat.mod_eq_of_lt (by
                have := hlow.2.1
                simp only [userHeapEnd, userStackBase, userStackSize, userEndVa] at this
                omega)
              obtain ⟨hext', hmod, hge, htop⟩ := ih h₁ hroot (by rw [hu64, Nat.add_mod_right, hva]) (by
                rw [hu64]
                have := hlow.2.1
                omega) hrest
              have hlt : va < last := by
                rw [hu64] at hge
                exact Nat.lt_of_lt_of_le (Nat.lt_add_of_pos_right (by decide)) hge
              refine ⟨(hext.mono ?_).trans hext', hmod, hlt.le, htop⟩
              rintro n b f ⟨rfl, -, rfl⟩
              exact ⟨hlow.2.2.trans_lt hlt, rfl⟩

/-! ### The process itself -/

/-- Nothing has happened to the other processes, while the tables are those of `roots` and later of
`roots'`, and the process has pages as `Q` says. -/
structure Aside (Q : PageNo → PageBytes → Nat → Prop) (p : Nat) (roots roots' : Option Nat → Option Nat)
    (k k' : Kernel) : Prop where
  procs : ∀ q ≠ p, k'.procs q = k.procs q
  layout : k'.layout = k.layout
  kernelPagetable : k'.kernelPagetable = k.kernelPagetable
  views : ∀ o ≠ some p, userViews roots' k'.mm.mem o = userViews roots k.mm.mem o
  gets : Gets Q p (userViews roots k.mm.mem) (userViews roots' k'.mm.mem)

theorem Aside.trans {roots₁ roots' : Option Nat → Option Nat} (h : Aside Q p roots roots₁ k k₁)
    (h' : Aside Q p roots₁ roots' k₁ k') : Aside Q p roots roots' k k' where
  procs q hq := (h'.procs q hq).trans (h.procs q hq)
  layout := h'.layout.trans h.layout
  kernelPagetable := h'.kernelPagetable.trans h.kernelPagetable
  views o ho := (h'.views o ho).trans (h.views o ho)
  gets := h.gets.trans h'.gets

theorem Aside.of_views {roots' : Option Nat → Option Nat} (hprocs : ∀ q ≠ p, k'.procs q = k.procs q)
    (hlayout : k'.layout = k.layout) (hkp : k'.kernelPagetable = k.kernelPagetable)
    (hviews : userViews roots' k'.mm.mem = userViews roots k.mm.mem) : Aside Q p roots roots' k k' :=
  ⟨hprocs, hlayout, hkp, fun o _ => congrFun hviews o, fun n b f hpage => Or.inl (by rwa [hviews] at hpage)⟩

theorem Extends.aside (h : Extends Q roots p taken given fl k k') : Aside Q p roots roots k k' :=
  ⟨fun q _ => congrFun h.same.procs q, h.same.layout, h.same.kernelPagetable, h.others, h.gets⟩

/-- The record of the process is written. -/
theorem Aside.setProc (h : Aside Q p roots roots k k') (v : Proc) :
    Aside Q p roots roots k (k'.setProc p v) :=
  ⟨fun q hq => (Function.update_of_ne hq _ _).trans (h.procs q hq), h.layout, h.kernelPagetable, h.views,
    h.gets⟩

theorem Aside.setFrame (h : Aside Q p roots roots k k') (tf : Nat) (f : TrapFrame) :
    Aside Q p roots roots k (k'.setFrame tf f) :=
  ⟨h.procs, h.layout, h.kernelPagetable, h.views, h.gets⟩

/-- The pages of a process that has just been created: its binary up to `last`, and a blank stack. -/
def FirstPage (last : Nat) (n : PageNo) (b : PageBytes) (f : Nat) : Prop :=
  (n : Nat) * pageSize < last ∧ f = mapFlags (pteR ||| pteX ||| pteU) ∨
    n = pageNo userStackBase ∧ b = blankPage ∧ f = mapFlags (pteR ||| pteW ||| pteU)

/-- **The heap bounds and the user stack.** -/
theorem createUserStack_aside (last : Nat) (h : Isolated k.layout roots k.snub live taken given fl)
    (hroot : roots (some p) = some (k.procs p).pagetable)
    (hcall : k.createUserStack p va = .ok (true, k')) :
    (∃ live', Isolated k'.layout roots k'.snub live' taken given fl) ∧
      Aside (FirstPage last) p roots roots k k' ∧
      (k'.procs p).pagetable = (k.procs p).pagetable ∧ (k'.procs p).tf = (k.procs p).tf ∧
      (k'.procs p).heapStart = alignUp va ∧ (k'.procs p).heapEnd = alignUp va := by
  obtain ⟨⟨a, mm⟩, halloc, hcall⟩ := bind_eq_ok.mp hcall
  rcases h.stocked.run.allocPage with ⟨hnull, -⟩ | ⟨a', mm', hok, hne, hnew⟩
  · obtain ⟨rfl, -⟩ := Prod.mk.inj (Except.ok.inj (hnull.symm.trans halloc))
    cases hcall
  · obtain ⟨rfl, rfl⟩ := Prod.mk.inj (Except.ok.inj (hok.symm.trans halloc))
    dsimp only at hcall
    rw [if_neg hne] at hcall
    obtain ⟨⟨ok, mm₂⟩, hmap, hk⟩ := bind_eq_ok.mp hcall
    obtain ⟨-, rfl⟩ := Prod.mk.inj (Except.ok.inj hk)
    simp only [setProc, setMm, Function.update_self] at hmap
    have hext : Extends (FirstPage last) roots p taken given fl k (k.setMm mm₂) := by
      refine (mapUser_extends h hnew.filled hroot (by decide) (by decide) (by decide) (by decide) hmap).mono ?_
      rintro n b f ⟨rfl, rfl, rfl⟩
      exact Or.inr ⟨rfl, Isolated.contents_zero hnew.zero, rfl⟩
    refine ⟨hext.isolated, ⟨fun q hq => ?_, rfl, rfl, hext.others, hext.gets⟩, ?_, ?_, ?_, ?_⟩
    · simp only [setProc, setMm]
      rw [Function.update_of_ne hq, Function.update_of_ne hq]
    all_goals simp only [setProc, setMm, Function.update_self]

/-- An object of the caches can be mapped for the kernel. -/
theorem object_entry {L : Layout} {S : Snub} {q i : Nat} (h : Isolated L roots S live taken given fl)
    (hq : q ∈ given i) :
    KernelEntry L S.mm.buddyBasePhys q (S.mm.virtToPhys q / pageSize * pageSize)
      (mapFlags (pteR ||| pteW)) := by
  obtain ⟨pa, hpa, d, hd, hphys, -⟩ := h.stocked.exists_page hq
  obtain ⟨hlo, hhi⟩ := h.stocked.object_bounds hq
  obtain ⟨hpage, hbase⟩ := h.stocked.slabs.page i pa hpa
  have haligned := hpage.aligned
  have htop := hpage.le
  have hq' : q = pa + d + vaOffsetConst := by
    rw [← hphys, virtToPhys, h.stocked.upper, sub64_of_le hlo hhi]
    omega
  have hround : (pa + d) / pageSize * pageSize = pa := by
    simp only [pageSize] at *
    omega
  have hlt : pa + d < 2 ^ 32 := by
    simp only [userEnd, pageSize] at *
    omega
  refine ⟨Nat.mul_mod_left _ _, ?_, ?_, pteR ||| pteW, rfl, Or.inr ⟨rfl, ?_⟩⟩ <;> rw [hphys, hround]
  · omega
  · rw [hq', vpage_kernel_inj hlt (by omega)]
    rw [← hround, Nat.mul_div_cancel _ (by decide), hround]
  · exact hbase

theorem mapObject_extends {ok : Bool} {q i : Nat} (h : Isolated k.layout roots k.snub live taken given fl)
    (hroot : roots (some p) = some (k.procs p).pagetable) (hq : q ∈ given i)
    (hcall : k.mapObject p q = .ok (ok, k')) : Extends Q roots p taken given fl k k' := by
  unfold mapObject mapPage at hcall
  rw [← mapPage_round] at hcall
  exact mapKernel_extends h hroot (by decide) (object_entry h hq) hcall

/-- Where the trap frame of a process is, in the page of its kernel stack. -/
def frameIn (kstack : Nat) : Nat := u64 (kstack + (kstackSize - sizeofTrapFrame))

/-- **The page table and the kernel stack**, unless the last page has gone. -/
theorem createKernelHalf_aside {i : Nat} (h : Isolated k.layout roots k.snub live taken given fl)
    (hnone : roots (some p) = none) (hp : p ∈ given i)
    (hcall : k.createKernelHalf p = .ok (true, k')) :
    (∃ live', RunInv k'.mm live' ∧ NoPage k'.mm) ∨
      ∃ root kstack live' taken' fl', (k'.procs p).pagetable = root ∧ (k'.procs p).tf = frameIn kstack ∧
        Isolated k'.layout (Function.update roots (some p) (some root)) k'.snub live' taken'
          (Function.update given 8 (kstack :: given 8)) fl' ∧
        Aside Q p roots (Function.update roots (some p) (some root)) k k' := by
  obtain ⟨⟨a, mm⟩, halloc, hrest⟩ := bind_eq_ok.mp hcall
  dsimp only at hrest
  by_cases hne : a = 0
  · rw [if_pos hne] at hrest
    cases hrest
  rw [if_neg hne] at hrest
  obtain ⟨h₁, hviews₁⟩ := h.newTable hnone halloc hne
  obtain ⟨⟨kstack, S⟩, hz, hrest⟩ := bind_eq_ok.mp hrest
  dsimp only at hrest
  have hclass : sizeToIdx kstackSize = some 8 := by decide
  rcases h₁.alloc hclass hz with ⟨live₂, taken₂, fl₂, h₂, hviews₂⟩ | hastray
  · refine Or.inr ⟨a, kstack, ?_⟩
    by_cases hstack : kstack = 0
    · rw [if_pos hstack] at hrest
      cases hrest
    rw [if_neg hstack] at hrest
    obtain ⟨⟨ok₃, k₃⟩, hmap₃, hrest⟩ := bind_eq_ok.mp hrest
    cases ok₃ with
    | false => cases hrest
    | true =>
        obtain ⟨⟨ok₄, k₄⟩, hmap₄, hrest⟩ := bind_eq_ok.mp hrest
        cases ok₄ with
        | false => cases hrest
        | true =>
            obtain ⟨-, rfl⟩ := Prod.mk.inj (Except.ok.inj hrest)
            obtain ⟨k₂, hk₂⟩ : ∃ k₂ : Kernel, k₂ =
                (((k.setMm mm).setProc p { k.procs p with pagetable := a }).setSnub S).setProc p
                  { ((k.setMm mm).setProc p { k.procs p with pagetable := a }).procs p with
                    kstack := kstack } := ⟨_, rfl⟩
            rw [← hk₂] at hmap₃
            have htable : (k₂.procs p).pagetable = a := by
              rw [hk₂]
              simp [setProc]
            have haside : Aside Q p roots (Function.update roots (some p) (some a)) k k₂ := by
              rw [hk₂]
              refine .of_views (fun q hq => ?_) rfl rfl (hviews₂.trans hviews₁)
              simp [setProc, setSnub, setMm, hq]
            have hi₂ : Isolated k₂.layout (Function.update roots (some p) (some a)) k₂.snub live₂ taken₂
                (Function.update given 8 (kstack :: given 8)) fl₂ := by
              rw [hk₂]
              exact h₂
            have hp₂ : p ∈ Function.update given 8 (kstack :: given 8) i := by
              by_cases hi : i = 8
              · subst hi
                rw [Function.update_self]
                exact List.mem_cons_of_mem _ hp
              · rwa [Function.update_of_ne hi]
            have hkstack₂ : kstack ∈ Function.update given 8 (kstack :: given 8) 8 := by
              rw [Function.update_self]
              exact List.mem_cons_self
            have hext₃ : Extends Q (Function.update roots (some p) (some a)) p taken₂
                (Function.update given 8 (kstack :: given 8)) fl₂ k₂ k₃ :=
              mapObject_extends hi₂ (by rw [Function.update_self, htable]) hp₂ hmap₃
            have htable₃ : (k₃.procs p).pagetable = a := by rw [hext₃.same.procs, htable]
            obtain ⟨live₃, hi₃⟩ := hext₃.isolated
            have hext₄ := hext₃.trans
              (mapObject_extends hi₃ (by rw [Function.update_self, htable₃]) hkstack₂ hmap₄)
            have htable₄ : (k₄.procs p).pagetable = a := by rw [hext₄.same.procs, htable]
            obtain ⟨live₄, hi₄⟩ := hext₄.isolated
            refine ⟨live₄, taken₂, fl₂, ?_, ?_, hi₄, haside.trans ((hext₄.aside.setProc _).setFrame _ _)⟩
            · simp only [setFrame, setProc, Function.update_self]
              exact htable₄
            · simp only [setFrame, setProc, Function.update_self]
              rfl
  · obtain ⟨hrun, hdry⟩ : RunInv mm ((a, 0) ::ₘ live) ∧ NoPage mm := ⟨h₁.stocked.run, hastray.noPage⟩
    obtain ⟨ok, k₁, hcall', hrec⟩ :=
      createKernelHalf_noPage (p := p) halloc hne hrun hdry hz hastray.records
    obtain ⟨-, rfl⟩ := Prod.mk.inj (Except.ok.inj (hcall'.symm.trans hcall))
    exact Or.inl ⟨_, hrec.runInv hrun, hrec.noPage hdry⟩

/-- The last step writes the state of the process. -/
theorem enqueue_aside (roots : Option Nat → Option Nat) (hcall : k.enqueue p = .ok k') :
    k'.snub = k.snub ∧ k'.layout = k.layout ∧ Aside Q p roots roots k k' ∧
      k'.procs p = { k.procs p with state := .runnable } := by
  obtain ⟨nodes, -, hk⟩ := bind_eq_ok.mp hcall
  obtain rfl := Except.ok.inj hk
  refine ⟨rfl, rfl, .of_views (fun q hq => ?_) rfl rfl rfl, ?_⟩
  · simp [setNodes, setState, setProc, hq]
  · simp [setNodes, setState, setProc]

/-- **The user half**, with the kernel's half in place. -/
theorem createUserHalf_aside {binary size : Nat} {r : Nat × Kernel}
    (h : Isolated k.layout roots k.snub live taken given fl) (hkp : roots none = some k.kernelPagetable)
    (hroot : roots (some p) = some (k.procs p).pagetable) (hsize : size ≤ userHeapEnd)
    (hcall : k.createUserHalf p binary size = .ok r) (hr : r.1 ≠ 0) :
    r.1 = p ∧ (∃ live', Isolated r.2.layout roots r.2.snub live' taken given fl) ∧
      Aside (FirstPage (r.2.procs p).heapStart) p roots roots k r.2 ∧
      (r.2.procs p).pagetable = (k.procs p).pagetable ∧ (r.2.procs p).tf = (k.procs p).tf ∧
      HeapOk (r.2.procs p) ∧ (r.2.procs p).heapEnd = (r.2.procs p).heapStart := by
  obtain ⟨⟨last, k₁⟩, hload, hcall⟩ := bind_eq_ok.mp hcall
  cases last with
  | none => exact absurd (fail1_zero hcall) hr
  | some last =>
      have hstart : userStartVa + size ≤ userHeapEnd := by rwa [show userStartVa = 0 from rfl, Nat.zero_add]
      obtain ⟨hext, hmod, -, hle⟩ := loadBinary_extends h hroot (by decide) hstart hload
      have hext₁ : Extends (FirstPage last) roots p taken given fl k k₁ :=
        hext.mono fun n b f hnew => Or.inl hnew
      obtain ⟨live₁, h₁⟩ := hext₁.isolated
      obtain ⟨⟨ok, k₂⟩, hstack, hcall⟩ := bind_eq_ok.mp hcall
      cases ok with
      | false => exact absurd (fail1_zero hcall) hr
      | true =>
          obtain ⟨⟨live₂, h₂⟩, haside₂, htable₂, htf₂, hstart₂, hend₂⟩ :=
            createUserStack_aside last h₁ (by rw [hext₁.same.procs, hroot]) hstack
          obtain ⟨k₃, hshared, hcall⟩ := bind_eq_ok.mp hcall
          have hall₂ := hext₁.aside.trans haside₂
          have hroot₂ : roots (some p) = some (k₂.procs p).pagetable := by
            rw [htable₂, hext₁.same.procs, hroot]
          have hext₃ : Extends (FirstPage last) roots p taken given fl k₂ k₃ :=
            createShared_extends h₂ (by rw [hall₂.kernelPagetable, hkp]) hroot₂ hshared
          obtain ⟨live₃, h₃⟩ := hext₃.isolated
          obtain ⟨k₄, hq, hcall⟩ := bind_eq_ok.mp hcall
          obtain rfl := Except.ok.inj hcall
          obtain ⟨hsnub, hlayout, haside₄, hproc⟩ := enqueue_aside roots hq
          have hlast : alignUp last = last := alignUp_of_mod hmod (by
            simp only [userHeapEnd, userStackBase, userStackSize, userEndVa, pageSize] at *
            omega)
          have hstart₄ : (k₄.procs p).heapStart = last := by
            rw [hproc, hext₃.same.procs]
            exact hstart₂.trans hlast
          refine ⟨rfl, ⟨live₃, by rwa [hsnub, hlayout]⟩, ?_, ?_, ?_, ?_, ?_⟩
          · rw [hstart₄]
            exact (hall₂.trans hext₃.aside).trans haside₄
          · rw [hproc, hext₃.same.procs]
            exact htable₂.trans (by rw [hext₁.same.procs])
          · rw [hproc, hext₃.same.procs]
            exact htf₂.trans (by rw [hext₁.same.procs])
          · rw [hproc, hext₃.same.procs]
            refine ⟨?_, ?_, ?_, ?_⟩ <;> simp only [hstart₂, hend₂, hlast]
            · exact hmod
            · exact hmod
            · exact le_refl _
            · exact hle
          · rw [hstart₄, hproc, hext₃.same.procs]
            exact hend₂.trans hlast

/-- Without a page the user half is not made. -/
theorem createUserHalf_noPage {binary size : Nat} {r : Nat × Kernel} (hrun : RunInv k.mm live)
    (hdry : NoPage k.mm) (hcall : k.createUserHalf p binary size = .ok r) : r.1 = 0 := by
  obtain ⟨⟨last, k₁⟩, hload, hcall⟩ := bind_eq_ok.mp hcall
  by_cases hsize : size = 0
  · subst hsize
    rw [loadBinary, if_pos rfl] at hload
    obtain ⟨rfl, rfl⟩ := Prod.mk.inj (Except.ok.inj hload)
    obtain ⟨⟨ok, k₂⟩, hstack, hcall⟩ := bind_eq_ok.mp hcall
    obtain ⟨⟨a, mm⟩, halloc, hstack⟩ := bind_eq_ok.mp hstack
    obtain ⟨rfl, -⟩ := Prod.mk.inj (Except.ok.inj ((hrun.allocPage_noPage hdry).symm.trans halloc))
    obtain ⟨rfl, -⟩ := Prod.mk.inj (Except.ok.inj hstack)
    exact fail1_zero hcall
  · rw [loadBinary_noPage hrun hdry hsize] at hload
    obtain ⟨rfl, -⟩ := Prod.mk.inj (Except.ok.inj hload)
    exact fail1_zero hcall

/-- **`create_proc`**, when it returns a process: this has a table of its own, the heap is empty, and
the others see what they saw. -/
theorem createProc_aside {binary size : Nat} (h : Isolated k.layout roots k.snub live taken given fl)
    (hkp : roots none = some k.kernelPagetable) (hfree : ∀ q, q ∉ given 4 → roots (some q) = none)
    (hsize : size ≤ userHeapEnd) (hcall : k.createProc binary size = .ok (p, k')) (hp : p ≠ 0) :
    ∃ root kstack live' taken' fl', (k'.procs p).pagetable = root ∧ p ∉ given 4 ∧
      (k'.procs p).tf = frameIn kstack ∧ kstack ∉ given 8 ∧ Isolated k'.layout (Function.update roots (some p) (some root)) k'.snub live' taken'
        (Function.update (Function.update given 4 (p :: given 4)) 8 (kstack :: given 8)) fl' ∧
      Aside (FirstPage (k'.procs p).heapStart) p roots (Function.update roots (some p) (some root)) k k' ∧
      HeapOk (k'.procs p) ∧ (k'.procs p).heapEnd = (k'.procs p).heapStart := by
  obtain ⟨q, S, hz, hq, -⟩ := h.stocked.kzalloc sizeToIdx_proc
  rcases h.alloc sizeToIdx_proc hz with ⟨live₁, taken₁, fl₁, h₁, hviews₁⟩ | hastray
  · rw [createProc_eq hz hq] at hcall
    obtain ⟨k₁, hk₁⟩ : ∃ k₁, k₁ = (k.withRecord q S).initPid q := ⟨_, rfl⟩
    rw [← hk₁] at hcall
    obtain ⟨⟨ok, k₂⟩, hhalf, hcall⟩ := bind_eq_ok.mp hcall
    cases ok with
    | false => exact absurd (fail1_zero hcall) hp
    | true =>
        have hgiven : q ∈ Function.update given 4 (q :: given 4) 4 := by
          rw [Function.update_self]
          exact List.mem_cons_self
        have hfresh : q ∉ given 4 := by
          have hnodup := (List.nodup_append.mp (h₁.stocked.slabs.objs_nodup 4)).2.1
          rw [Function.update_self] at hnodup
          exact (List.nodup_cons.mp hnodup).1
        have hi₁ : Isolated k₁.layout roots k₁.snub live₁ taken₁ (Function.update given 4 (q :: given 4))
            fl₁ := by
          rw [hk₁]
          exact h₁
        have haside₁ : Aside (FirstPage (k'.procs p).heapStart) q roots roots k k₁ := by
          rw [hk₁]
          refine .of_views (fun q' hq' => ?_) rfl rfl hviews₁
          simp [initPid, withRecord, setProc, setNodes, setSnub, hq']
        rcases createKernelHalf_aside hi₁ (hfree q hfresh) hgiven hhalf with
          ⟨live₂, hrun, hdry⟩ | ⟨root, kstack, live₂, taken₂, fl₂, htable, htf, h₂, haside₂⟩
        · exact absurd (createUserHalf_noPage hrun hdry hcall) hp
        · have hall₂ := haside₁.trans haside₂
          have hkp₂ : Function.update roots (some q) (some root) none = some k₂.kernelPagetable := by
            rw [Function.update_of_ne (by simp), hkp, hall₂.kernelPagetable]
          have hroot₂ : Function.update roots (some q) (some root) (some q) =
              some (k₂.procs q).pagetable := by rw [Function.update_self, htable]
          obtain ⟨rfl, ⟨live₃, h₃⟩, haside₃, htable₃, htf₃, hheap, hend⟩ :=
            createUserHalf_aside h₂ hkp₂ hroot₂ hsize hcall hp
          have hstack : kstack ∉ given 8 := by
            have hnodup := (List.nodup_append.mp (h₂.stocked.slabs.objs_nodup 8)).2.1
            rw [Function.update_self] at hnodup
            exact (List.nodup_cons.mp hnodup).1
          exact ⟨root, kstack, live₃, taken₂, fl₂, htable₃.trans htable, hfresh, htf₃.trans htf, hstack, h₃,
            hall₂.trans haside₃, hheap, hend⟩
  · have hrun : RunInv S.mm live := hastray.records.runInv h.stocked.run
    have hdry : NoPage S.mm := hastray.records.noPage hastray.noPage
    obtain ⟨k₁, -, hend⟩ := createProc_noTable hz hq (hrun.allocPage_noPage hdry)
    rw [hend] at hcall
    obtain ⟨S', -, hcall⟩ := bind_eq_ok.mp hcall
    obtain ⟨rfl, -⟩ := Prod.mk.inj (Except.ok.inj hcall)
    exact absurd rfl hp

end Kernel

end SystemN
