/-
Processes that are kept apart, in every state of the system.

On hart 0 `mm_init` builds the table of the kernel, `create_proc` makes processes, and the shell is
started.  From then on user code stores to memory, in whatever process is current, and traps are
taken; each is one step of the system, and the steps come in any order.

In all states so reached the memory of the processes is `Separated`, and the table that is loaded is
that of the current process.  A step is then seen by the process that is current and by no other,
and what that process sees afterwards it has seen before, or it is zero, or it was typed.
-/
import SystemN.Proofs.IsolationTrap
import SystemN.Proofs.Contexts
import SystemN.Proofs.ProgramImage

namespace SystemN

open Mm Radix Spaces

namespace Kernel

variable {L : Layout} {m : Nat → UInt8} {k k' k₀ : Kernel} {p q kp stack : Nat} {ps : List Nat}
  {t : Trap} {live : Multiset (Nat × Nat)} {taken given fl : Nat → List Nat}
  {roots : Option Nat → Option Nat}

/-! ### The boot -/

section OneTable

variable (hkp : roots none = some kp) (hnone : ∀ q, roots (some q) = none)
include hnone

/-- Where only the kernel has a table, all tables are the kernel's. -/
theorem eq_none_of_tableAt {o : Option Nat} {path : List Index} {n : Nat}
    (h : tableAt m roots o path = some n) : o = none := by
  cases o with
  | none => rfl
  | some q =>
      rw [tableAt, nodeAt_noRoot (hnone q)] at h
      cases h

include hkp

theorem isTable_kernel {n : Nat} : IsTable m roots n ↔ IsTable m (theRoot kp) n := by
  have howner := tableAt_theRoot (m := m) hkp
  constructor
  · rintro ⟨o, path, hlen, htable⟩
    obtain rfl := eq_none_of_tableAt hnone htable
    exact ⟨(), path, hlen, (howner path).symm.trans htable⟩
  · rintro ⟨o, path, hlen, htable⟩
    exact ⟨none, path, hlen, (howner path).trans htable⟩

/-- The tables, told of all owners. -/
theorem tables_kernel (h : Tables m (theRoot kp)) : Tables m roots := by
  have howner := tableAt_theRoot (m := m) hkp
  refine ⟨?_, fun n hn => h.page n ((isTable_kernel hkp hnone).mp hn), ?_, ?_⟩
  · intro o o' path path' n hlen hlen' hn hn'
    obtain rfl := eq_none_of_tableAt hnone hn
    obtain rfl := eq_none_of_tableAt hnone hn'
    have hpath := h.forest hlen hlen' ((howner path).symm.trans hn) ((howner path').symm.trans hn')
    exact ⟨rfl, hpath.2⟩
  · intro o path n i hlen hn
    obtain rfl := eq_none_of_tableAt hnone hn
    exact h.pointer () path n i hlen ((howner path).symm.trans hn)
  · intro o path n i hlen hn
    obtain rfl := eq_none_of_tableAt hnone hn
    exact h.leaf () path n i hlen ((howner path).symm.trans hn)

/-- **After `mm_init`** no process has memory yet. -/
theorem isolated_boot {S : Snub} (h : mmInit L m = .ok (kp, S)) :
    ∃ live, Isolated L roots S live (fun _ => []) (fun _ => []) (fun _ => []) := by
  obtain ⟨tabs, hi⟩ := (KernelRun.boot h).inv
  have hcaches : S = Snub.snubInit S.mm := by
    obtain ⟨⟨kp, s⟩, -, h⟩ := bind_eq_ok.mp h
    obtain ⟨s', -, h⟩ := bind_eq_ok.mp h
    obtain ⟨-, rfl⟩ := Prod.mk.inj (Except.ok.inj h)
    rfl
  have hstock : Stocked S (tabs + 0) (fun _ => []) (fun _ => []) (fun _ => []) := by
    rw [hcaches]
    exact .init hi.run hi.booted hi.vaOffset
  have howner := tableAt_theRoot (m := S.mm.mem) hkp
  have hleaf : ∀ va, leafOf S.mm.mem roots none va = kernelLeaf L (vpage va) := fun va => by
    rw [← mmInit_leaf h va]
    exact congrArg (fun n => n.bind fun n => pteLeaf (entry S.mm.mem n (vpn va 0))) (howner _)
  have hentries : ∀ o va pa f, leafOf S.mm.mem roots o va = some (pa, f) →
      KernelEntry L S.mm.buddyBasePhys va pa f := by
    intro o va pa f hsome
    cases o with
    | none =>
        rw [hleaf] at hsome
        obtain ⟨perm, -, rfl, hentry⟩ := kernelLeaf_entry S.mm.buddyBasePhys hsome
        exact hentry
    | some q =>
        rw [Isolated.leafOf_noRoot _ (hnone q)] at hsome
        cases hsome
  have hnopage : ∀ o n e, userPages (leafOf S.mm.mem roots) o n ≠ some e := by
    intro o n e hpage
    obtain ⟨hsome, huser⟩ := userPages_eq_some.mp hpage
    exact huser (hentries o _ e.1 e.2 hsome).supervisor
  refine ⟨tabs + 0, hstock, ⟨hi.run, hstock.slabs.space, tables_kernel hkp hnone hi.tables, ?_⟩, ?_, hleaf,
    fun i pa hpa => absurd hpa (List.not_mem_nil), fun o va pa f hsome => Or.inr (hentries o va pa f hsome),
    fun o o' n n' f a a' hpage => absurd hpage (hnopage o n _)⟩
  · intro n hn
    exact (hi.held n ((isTable_kernel hkp hnone).mp hn)).mono (SameStatics.refl S.mm)
      (Multiset.subset_of_le (Multiset.le_add_right tabs 0))
  · obtain ⟨hlo, -⟩ := initTable_bounds hi.room
    obtain ⟨hle, -⟩ := initBase_bounds hi.room
    have hbase : S.mm.buddyBasePhys = initBase L := hi.statics.base
    rw [hbase]
    omega

end OneTable

/-- The kernel at the start of `s_mode_main`. -/
structure Entered (L : Layout) (m : Nat → UInt8) (k : Kernel) : Prop where
  layout : k.layout = L
  memory : mmInit L m = .ok (k.kernelPagetable, k.snub)
  /-- `idle_procs` lies in the image. -/
  idle : k.idleProc ≠ 0 ∧ k.idleProc < L.kernelEnd + vaOffsetConst

/-- The states of hart 0 while `create_proc` makes the processes. -/
inductive Populated (L : Layout) (m : Nat → UInt8) (stack : Nat) : List Nat → Kernel → Prop where
  | boot {k : Kernel} (h : Entered L m k) : Populated L m stack [] (k.initQueues.setupIdleProc stack)
  | create {ps : List Nat} {k k' : Kernel} {binary size p : Nat} (h : Populated L m stack ps k)
      (hsize : size ≤ userHeapEnd) (hcall : k.createProc binary size = .ok (p, k')) (hp : p ≠ 0) :
      Populated L m stack (ps ++ [p]) k'

theorem frameIn_inj {a b : Nat} (ha : a < 2 ^ 64) (hb : b < 2 ^ 64) (h : frameIn a = frameIn b) : a = b := by
  simp only [frameIn, u64, kstackSize, pageSize, sizeofTrapFrame] at h
  omega

/-- The processes `ps` have been left alone, and `p` has the pages of a new one. -/
structure Joins (ps : List Nat) (p : Nat) (k k' : Kernel) : Prop where
  procs : ∀ q ∈ ps, k'.procs q = k.procs q
  views : ∀ q ∈ ps, userViews (k'.tableRoots (ps ++ [p])) k'.mm.mem (some q) =
    userViews (k.tableRoots ps) k.mm.mem (some q)
  pages : ∀ n b f, userViews (k'.tableRoots (ps ++ [p])) k'.mm.mem (some p) n = some (b, f) →
    FirstPage (k'.procs p).heapStart n b f
  heapEnd : (k'.procs p).heapEnd = (k'.procs p).heapStart

/-- **A new process.** -/
theorem Separated.create {binary size : Nat} (h : Separated ps k live taken given fl)
    (hsize : size ≤ userHeapEnd) (hcall : k.createProc binary size = .ok (p, k')) (hp : p ≠ 0) :
    p ∉ ps ∧ k.layout.kernelEnd + vaOffsetConst ≤ p ∧ k'.layout = k.layout ∧
      k'.kernelPagetable = k.kernelPagetable ∧ Joins ps p k k' ∧
        ∃ live' taken' given' fl', Separated (ps ++ [p]) k' live' taken' given' fl' := by
  have hfree : ∀ q, q ∉ given 4 → k.tableRoots ps (some q) = none := fun q hq =>
    tableRoots_of_notMem fun hmem => hq (h.objects q hmem)
  obtain ⟨root, kstack, live', taken', fl', hroot, hfresh, htf, hstack, hi, haside, hheap, hend⟩ :=
    createProc_aside h.isolated rfl hfree hsize hcall hp
  have hnew : p ∉ ps := fun hmem => hfresh (h.objects p hmem)
  have hne : ∀ q ∈ ps, q ≠ p := by
    rintro q hq rfl
    exact hnew hq
  have hmem : ∀ q, q ∈ ps ++ [p] → q ≠ p → q ∈ ps := fun q hq hqp => by simpa [hqp] using hq
  set given' := Function.update (Function.update given 4 (p :: given 4)) 8 (kstack :: given 8)
    with hgiven
  have hgiven4 : given' 4 = p :: given 4 := by
    rw [hgiven, Function.update_of_ne (by decide), Function.update_self]
  have hgiven8 : given' 8 = kstack :: given 8 := by rw [hgiven, Function.update_self]
  have hroots : k'.tableRoots (ps ++ [p]) = Function.update (k.tableRoots ps) (some p) (some root) := by
    funext o
    cases o with
    | none =>
        rw [Function.update_of_ne (by simp)]
        exact congrArg some haside.kernelPagetable
    | some q =>
        by_cases hq : q = p
        · rw [hq, Function.update_self, tableRoots_of_mem (by simp), hroot]
        · rw [Function.update_of_ne (by simpa using hq)]
          by_cases hqps : q ∈ ps
          · rw [tableRoots_of_mem hqps, tableRoots_of_mem (List.mem_append_left _ hqps), haside.procs q hq]
          · rw [tableRoots_of_notMem hqps, tableRoots_of_notMem fun hc => hqps (hmem q hc hq)]
  have hbound : ∀ {i q}, q ∈ given' i → q < 2 ^ 64 := fun hq => (hi.stocked.object_bounds hq).2
  have hp4 : p ∈ given' 4 := by
    rw [hgiven4]
    exact List.mem_cons_self
  -- the frame of the new process is in a kernel stack of its own
  have hstacks : ∀ q ∈ ps, (k'.procs q).tf ≠ (k'.procs p).tf := by
    intro q hq heq
    obtain ⟨kst, hkst, htfq⟩ := h.kstacks q hq
    rw [haside.procs q (hne q hq), htfq, htf] at heq
    refine hstack ?_
    rw [← frameIn_inj (hbound (i := 8) ?_) (hbound (i := 8) ?_) heq]
    · exact hkst
    · rw [hgiven8]
      exact List.mem_cons_of_mem _ hkst
    · rw [hgiven8]
      exact List.mem_cons_self
  have himage := hi.object_above hp4
  rw [haside.layout] at himage
  have hjoins : Joins ps p k k' := by
    refine ⟨fun q hq => haside.procs q (hne q hq), fun q hq => ?_, fun n b f hpage => ?_, hend⟩
    · rw [hroots]
      exact haside.views (some q) (by simpa using hne q hq)
    · rw [hroots] at hpage
      refine (haside.gets n b f hpage).resolve_left fun hold => ?_
      rw [userViews, Spaces.view, userPages, Isolated.leafOf_noRoot _ (tableRoots_of_notMem hnew)] at hold
      cases hold
  refine ⟨hnew, himage, haside.layout, haside.kernelPagetable, hjoins, live', taken', given', fl',
    by rwa [hroots], ?_, ?_, ?_, ?_⟩
  · intro q hq
    by_cases hqp : q = p
    · rwa [hqp]
    · rw [hgiven4]
      exact List.mem_cons_of_mem _ (h.objects q (hmem q hq hqp))
  · intro q hq
    rw [hgiven8]
    by_cases hqp : q = p
    · exact ⟨kstack, List.mem_cons_self, by rw [hqp, htf]⟩
    · obtain ⟨kst, hkst, htfq⟩ := h.kstacks q (hmem q hq hqp)
      exact ⟨kst, List.mem_cons_of_mem _ hkst, by rw [haside.procs q hqp, htfq]⟩
  · intro q hq q' hq' heq
    by_cases hqp : q = p
    · by_cases hqp' : q' = p
      · rw [hqp, hqp']
      · rw [hqp] at heq
        exact absurd heq.symm (hstacks q' (hmem q' hq' hqp'))
    · by_cases hqp' : q' = p
      · rw [hqp'] at heq
        exact absurd heq (hstacks q (hmem q hq hqp))
      · rw [haside.procs q hqp, haside.procs q' hqp'] at heq
        exact h.frames q (hmem q hq hqp) q' (hmem q' hq' hqp') heq
  · intro q hq
    by_cases hqp : q = p
    · rwa [hqp]
    · rw [haside.procs q hqp]
      exact h.heaps q (hmem q hq hqp)

/-- **Any number of processes**, each with memory of its own. -/
theorem Populated.separated (h : Populated L m stack ps k) :
    k.layout = L ∧ (∃ k₀, Started k₀ ps k ∧ k₀.idleProc ≠ 0 ∧ k₀.idleProc < L.kernelEnd + vaOffsetConst) ∧
      ∃ live taken given fl, Separated ps k live taken given fl := by
  induction h with
  | @boot k h =>
      obtain ⟨live, hi⟩ : ∃ live, Isolated L (k.tableRoots []) k.snub live (fun _ => []) (fun _ => [])
          (fun _ => []) := isolated_boot rfl (fun q => rfl) h.memory
      have hlayout : (k.initQueues.setupIdleProc stack).layout = k.layout ∧
          (k.initQueues.setupIdleProc stack).snub = k.snub ∧
          (k.initQueues.setupIdleProc stack).kernelPagetable = k.kernelPagetable := by
        unfold setupIdleProc
        dsimp only
        split
        · exact ⟨rfl, rfl, rfl⟩
        · exact ⟨rfl, rfl, rfl⟩
      obtain ⟨hl, hs, hkp⟩ := hlayout
      have hroots : (k.initQueues.setupIdleProc stack).tableRoots [] = k.tableRoots [] :=
        tableRoots_congr (fun q hq => absurd hq List.not_mem_nil) hkp
      have hsep : Isolated (k.initQueues.setupIdleProc stack).layout
          ((k.initQueues.setupIdleProc stack).tableRoots []) (k.initQueues.setupIdleProc stack).snub live
          (fun _ => []) (fun _ => []) (fun _ => []) := by
        rw [hroots, hl, hs, h.layout]
        exact hi
      refine ⟨hl.trans h.layout, ⟨k, Started.init stack, h.idle⟩, live, _, _, _, hsep, ?_, ?_, ?_, ?_⟩
      all_goals exact fun q hq => absurd hq List.not_mem_nil
  | @create ps k k' binary size p h hsize hcall hp ih =>
      obtain ⟨hl, ⟨k₀, hst, hidle⟩, live, taken, given, fl, hsep⟩ := ih
      obtain ⟨hnew, himage, hlayout, -, -, hsep'⟩ := hsep.create hsize hcall hp
      have hneidle : p ≠ k.idleProc := by
        have hidle' : k.idleProc = k₀.idleProc := hst.idle
        rw [hl] at himage
        omega
      refine ⟨hlayout.trans hl, ⟨k₀, ?_, hidle⟩, hsep'⟩
      rcases createProc_cases hcall with ⟨h0, -⟩ | ⟨q, k₁, -, -, v, hisIdle, hout⟩
      · exact absurd h0 hp
      · rcases hout with ⟨h0, -⟩ | ⟨rfl, hcreated, k₂, hm, henq⟩
        · exact absurd h0 hp
        · exact hst.enqueue hnew hp hneidle hisIdle hcreated hm henq

/-! ### The steps of the system -/

/-- What happens on hart 0 while the processes `ps` run, with the bytes that a process stores. -/
inductive SystemStep (ps : List Nat) (k : Kernel) : List (Nat × UInt8) → Kernel → Prop where
  /-- User code stores a byte. -/
  | store {k' : Kernel} {va : Nat} {c : UInt8} (hstore : k.userStore va c = some k') :
      SystemStep ps k [(k.cpu.proc, c)] k'
  /-- A trap; where `schedule` calls `swtch` the hart has the registers `c`. -/
  | trap {k' : Kernel} {t : Trap} {c : Context} (hsaves : k.SavesFrame ps t)
      (hunmap : IsEcall t → (k.trapEntry t).UnmapsOwn k.cpu.proc)
      (hcall : (k.setCtx c).takeTrap t = .ok k') : SystemStep ps k [] k'
  | idle (hcurr : k.cpu.proc ∉ ps) : SystemStep ps k [] k.idleLoop

/-- The steps from the state `k` on. -/
inductive SystemPath (ps : List Nat) (k : Kernel) : List (Nat × UInt8) → Kernel → Prop where
  | refl : SystemPath ps k [] k
  | step {es es' : List (Nat × UInt8)} {k₁ k' : Kernel} (h : SystemPath ps k es k₁)
      (hstep : SystemStep ps k₁ es' k') : SystemPath ps k (es ++ es') k'

/-- The states of hart 0 once the shell has been started, with the processes that there are. -/
inductive SystemRun (L : Layout) (m : Nat → UInt8) (stack : Nat) : List Nat → Kernel → Prop where
  | start {ps : List Nat} {k k' : Kernel} {shell : Nat} (h : Populated L m stack ps k)
      (hshell : shell ∈ ps) (hcall : k.makeCurrent shell = .ok k') :
      SystemRun L m stack ps k'.jumpToUserShell
  | step {ps : List Nat} {es : List (Nat × UInt8)} {k k' : Kernel} (h : SystemRun L m stack ps k)
      (hstep : SystemStep ps k es k') : SystemRun L m stack ps k'

/-- A byte that was stored by `p`, was typed, or is zero. -/
def NewByte (k : Kernel) (es : List (Nat × UInt8)) (p : Nat) (c : UInt8) : Prop :=
  c = 0 ∨ (p, c) ∈ es ∨ c ∈ k.uartIn.map crToLf

/-- **Step lemma.** -/
theorem SystemStep.serves {es : List (Nat × UInt8)} (h : SystemInv ps k live taken given fl)
    (hstep : SystemStep ps k es k') :
    Serves (k.NewByte es k.cpu.proc) (k.tableRoots ps) k.cpu.proc taken given fl k k' ∧
      ∃ live', SystemInv ps k' live' taken given fl := by
  cases hstep with
  | @store _ va c hstore =>
      obtain ⟨hserves, hinv⟩ := h.userStore hstore
      exact ⟨hserves.mono fun b hb => Or.inr (Or.inl (by rw [hb]; exact List.mem_singleton_self _)), hinv⟩
  | @trap _ t c hsaves hunmap hcall =>
      have hctx : Quiet k.cpu.proc k (k.setCtx c) := .of_eq rfl rfl rfl rfl rfl rfl
      have hroots : (k.setCtx c).tableRoots ps = k.tableRoots ps := tableRoots_congr (fun _ _ => rfl) rfl
      have hset : Serves (k.NewByte [] k.cpu.proc) (k.tableRoots ps) k.cpu.proc taken given fl k
        (k.setCtx c) := .of_quiet h.isolated hctx
      have hloaded : Loaded ps (k.setCtx c).kernelPagetable (k.setCtx c).switchView :=
        ⟨h.loaded.procs, h.loaded.idle, h.loaded.curr, h.loaded.process, h.loaded.kernel⟩
      obtain ⟨live', h'⟩ := h.systemInv hset hloaded h.closed
      have htyped : ∀ b ∈ (k.setCtx c).uartIn, k.NewByte [] k.cpu.proc (crToLf b) := fun b hb =>
        Or.inr (Or.inr (List.mem_map_of_mem hb))
      obtain ⟨hserves, hinv⟩ := h'.takeTrap hsaves hunmap (Or.inl rfl) htyped hcall
      rw [hroots] at hserves
      exact ⟨hset.trans hserves, hinv⟩
  | idle hcurr =>
      have hquiet : Quiet k.cpu.proc k k.idleLoop := .of_eq rfl rfl rfl rfl rfl rfl
      have hserves : Serves (k.NewByte [] k.cpu.proc) (k.tableRoots ps) k.cpu.proc taken given fl k
        k.idleLoop := .of_quiet h.isolated hquiet
      have hloaded : Loaded ps k.idleLoop.kernelPagetable k.idleLoop.switchView :=
        ⟨h.loaded.procs, h.loaded.idle, h.loaded.curr, h.loaded.process, h.loaded.kernel⟩
      exact ⟨hserves, h.systemInv hserves hloaded h.closed⟩

theorem jumpToUserShell_quiet : Quiet p k k.jumpToUserShell := by
  have hstatus : ∀ (k : Kernel) v, Quiet p k (k.writeSstatus v) := fun _ _ => .of_eq rfl rfl rfl rfl rfl rfl
  have hscratch : ∀ (k : Kernel) v, Quiet p k (k.writeSscratch v) := fun _ _ => .of_eq rfl rfl rfl rfl rfl rfl
  have hload : ∀ (k : Kernel) v, Quiet p k (k.loadPagetable v) := fun _ _ => .of_eq rfl rfl rfl rfl rfl rfl
  unfold jumpToUserShell clearSum setSum
  refine ((Quiet.trans ?_ (hload _ _)).trans (hstatus _ _)).trans (hstatus _ _)
  exact ((hstatus _ _).trans (hstatus _ _)).trans (hscratch _ _)

theorem makeCurrent_quiet {shell : Nat} (hcall : k.makeCurrent shell = .ok k') : Quiet shell k k' := by
  obtain ⟨nodes, -, hk⟩ := bind_eq_ok.mp hcall
  obtain rfl := Except.ok.inj hk
  have hdel : Quiet shell k (k.setNodes nodes) := .of_eq rfl rfl rfl rfl rfl rfl
  have hbound : Quiet shell ((k.setNodes nodes).setState shell .running)
      (((k.setNodes nodes).setState shell .running).setProc shell
        { ((k.setNodes nodes).setState shell .running).procs shell with boundCpu := 0 }) :=
    .setProc rfl (Or.inl rfl)
  exact ((hdel.trans (.setState shell .running)).trans hbound).trans (.of_eq rfl rfl rfl rfl rfl rfl)

/-- `jump_to_user_shell` loads the table and the frame of the shell. -/
theorem loaded_launch {v : SwitchView} {shell : Nat} (kp : Nat)
    (hprocs : ∀ p ∈ ps, p ≠ 0 ∧ v.isIdle p = false) (hidle : v.idle ≠ 0 ∧ v.isIdle v.idle = true)
    (hshell : shell ∈ ps) :
    Loaded ps kp { v with
      curr := shell, sscratch := v.tf shell, satp := makeSatp (v.pagetable shell) } :=
  ⟨hprocs, hidle, Or.inl hshell, fun _ => ⟨rfl, rfl⟩, fun hn => absurd hshell hn⟩

theorem Populated.start {shell : Nat} (h : Populated L m stack ps k) (hshell : shell ∈ ps)
    (hcall : k.makeCurrent shell = .ok k') :
    k'.jumpToUserShell.layout = L ∧
      ∃ live taken given fl, SystemInv ps k'.jumpToUserShell live taken given fl := by
  obtain ⟨hl, ⟨k₀, hst, hidle⟩, live, taken, given, fl, hsep⟩ := h.separated
  obtain ⟨hview, hclosed⟩ := makeCurrent_launch hshell hcall hst.closed
  have hserves : Serves (· = 0) (k.tableRoots ps) shell taken given fl k k'.jumpToUserShell :=
    .of_quiet hsep.isolated ((makeCurrent_quiet hcall).trans jumpToUserShell_quiet)
  have hloaded : Loaded ps k'.jumpToUserShell.kernelPagetable k'.jumpToUserShell.switchView := by
    have hprocs : ∀ p ∈ ps, p ≠ 0 ∧ k.switchView.isIdle p = false := fun p hp => by
      obtain ⟨h0, -, hisIdle, -⟩ := hst.procs p hp
      exact ⟨h0, hisIdle⟩
    have hne : k.switchView.idle ≠ 0 := fun h0 => hidle.1 (hst.idle.symm.trans h0)
    have hisIdle : k.switchView.isIdle k.switchView.idle = true := hst.isIdle
    rw [switchView_jumpToUserShell, hview]
    exact loaded_launch (v := k.switchView) _ hprocs ⟨hne, hisIdle⟩ hshell
  obtain ⟨live', hinv⟩ := hsep.systemInv hserves hloaded (by rwa [nodes_jumpToUserShell])
  exact ⟨hserves.layout.trans hl, live', taken, given, fl, hinv⟩

/-- **Run lemma.** -/
theorem SystemRun.inv (h : SystemRun L m stack ps k) :
    k.layout = L ∧ ∃ live taken given fl, SystemInv ps k live taken given fl := by
  induction h with
  | start h hshell hcall => exact h.start hshell hcall
  | step h hstep ih =>
      obtain ⟨hl, live, taken, given, fl, hinv⟩ := ih
      obtain ⟨hserves, live', hinv'⟩ := hstep.serves hinv
      exact ⟨hserves.layout.trans hl, live', taken, given, fl, hinv'⟩

/-! ### A shell alone -/

/-- A shell that has just been started, on the page of its stack. -/
structure Alone (p : Nat) (k : Kernel) : Prop where
  run : SystemRun smallLayout (fun _ => 0) 0 [p] k
  curr : k.cpu.proc = p
  queue : Rings.IsRing k.nodes .runQueue []
  stack : ∃ pa, k.mm.translate (k.procs p).pagetable userStackBase =
    some (pa, mapFlags (pteR ||| pteW ||| pteU)) ∧ k.mm.mem pa = 0

/-- The `ecall` of `exit`. -/
def exitTrap (k : Kernel) : Trap where
  tf := k.hart.sscratch
  frame := { TrapFrame.zero with
    regs := Function.update TrapFrame.zero.regs 17 SYS_exit, scause := scauseUserEcall }
  scause := scauseUserEcall
  clock _ := 0

/-- With nobody waiting, `exit` leaves the hart to the idle process. -/
theorem takeTrap_exitTrap (hproc : k.cpu.proc = p) (hp : p ≠ 0) (hidle : (k.procs p).isIdle = false)
    (htf : k.hart.sscratch = (k.procs p).tf) (hnext : (k.nodes .runQueue).next = some .runQueue) :
    ∃ k', k.takeTrap k.exitTrap = .ok k' ∧ k'.cpu.proc = k.idleProc := by
  let k₁ := k.trapEntry k.exitTrap
  let f := k₁.frames k.exitTrap.tf
  let k₂ := k₁.setFrame k.exitTrap.tf { f with sepc := u64 (f.sepc + 4) }
  let k₃ := (k₂.setState p .zombie).setNeedsSched true
  have hf : f = k.exitTrap.frame := Function.update_self _ _ _
  have hreg : k₂.reg p 17 = SYS_exit := by
    have htf₂ : (k₂.procs p).tf = k.exitTrap.tf := htf.symm
    have hf₂ : k₂.frames k.exitTrap.tf = { f with sepc := u64 (f.sepc + 4) } := Function.update_self _ _ _
    rw [reg, htf₂, hf₂, hf]
    rfl
  have hsyscall : k₂.syscallHandler p k.exitTrap.clock = .ok k₃ := by
    rw [syscallHandler, hreg]
    rfl
  have hswitch : k₁.switchCode k.exitTrap.tf p k.exitTrap.clock = .ok k₃ := hsyscall
  have hflag : (k₃.procs p).isIdle = false := by
    simp [k₃, k₂, k₁, setState, setProc, setFrame, setNeedsSched, trapEntry, hidle]
  have hsched : k₃.trapEnd = .ok ((k₃.setNeedsSched false).runIdle p) := by
    have hproc₃ : (k₃.setNeedsSched false).cpu.proc = p := hproc
    have hnext₃ : ((k₃.setNeedsSched false).nodes .runQueue).next = some .runQueue := hnext
    have hflag₃ : ((k₃.setNeedsSched false).procs p).isIdle = false := hflag
    rw [trapEnd, if_pos (show k₃.cpu.needsSched = true from rfl), schedule, hproc₃, hnext₃]
    simp only [follow, ok_bind, ne_eq, not_true_eq_false, if_false, hflag₃, Bool.not_false, if_true, pure,
      Except.pure]
  refine ⟨(k₃.setNeedsSched false).runIdle p, ?_, rfl⟩
  have hproc₁ : k₁.cpu.proc = p := hproc
  have hidle₁ : (k₁.procs p).isIdle = false := hidle
  have hcause : (k₁.frames k.exitTrap.tf).scause = scauseUserEcall := congrArg TrapFrame.scause hf
  change k₁.trapHandler k.exitTrap.tf k.exitTrap.clock = _
  rw [trapHandler, hproc₁, hidle₁, hcause, if_neg (by simp), if_neg (by decide), if_neg hp, hswitch, ok_bind,
    hsched]

namespace Alone

variable (h : Alone p k)
include h

theorem mem : k.cpu.proc ∈ [p] := by
  rw [h.curr]
  exact List.mem_singleton_self p

theorem stackByte : k.procByte p userStackBase = some (0, mapFlags (pteR ||| pteW ||| pteU)) := by
  obtain ⟨pa, htr, hzero⟩ := h.stack
  rw [procByte, htr]
  dsimp only
  rw [if_pos (by decide), hzero]

/-- It can exit. -/
theorem exit_ok : k.SavesFrame [p] k.exitTrap ∧ (k.trapEntry k.exitTrap).UnmapsOwn k.cpu.proc ∧
    ∃ k', (k.setCtx Context.zero).takeTrap k.exitTrap = .ok k' ∧ k'.cpu.proc = k.idleProc := by
  obtain ⟨-, live, taken, given, fl, hinv⟩ := h.run.inv
  obtain ⟨h0, hidle⟩ := hinv.loaded.procs p (List.mem_singleton_self p)
  have htf : k.hart.sscratch = (k.procs p).tf := by
    rw [← h.curr]
    exact (hinv.loaded.process h.mem).2
  obtain ⟨k', hcall, hproc⟩ := takeTrap_exitTrap (k := k.setCtx Context.zero) h.curr h0 hidle htf
    h.queue.head_next
  refine ⟨?_, unmapsOwn_of_ne (by rw [h.curr]; exact htf) ?_, k', hcall, hproc⟩
  · rw [SavesFrame, if_pos h.mem]
    rfl
  · change SYS_exit % 2 ^ 32 ≠ SYS_munmap
    decide

/-- It exits, and the idle process is to run. -/
theorem exits : ∃ k', SystemStep [p] k [] k' ∧ k'.cpu.proc ∉ [p] := by
  obtain ⟨-, live, taken, given, fl, hinv⟩ := h.run.inv
  obtain ⟨hsaves, hunmap, k', hcall, hproc⟩ := h.exit_ok
  refine ⟨k', .trap hsaves (fun _ => hunmap) hcall, ?_⟩
  rw [hproc]
  exact hinv.loaded.idle_notMem

end Alone

end Kernel

end SystemN
