/-
What `create_proc` leaves behind.

Up to its last step it writes memory and the record of the one process it creates; the
queues, the other processes and the hart stay as they are.  `Builds` says so for each of
its paragraphs.  A process that it returns has been put on the run queue, with the
context it was given beside its kernel stack.
-/
import SystemN.Start
import SystemN.Proofs.Syscall

namespace SystemN.Kernel

variable {k k' k₁ : Kernel} {p : Nat}

/-! ### The paragraphs -/

theorem masked_setProc (v : Proc) :
    (k.setProc p v).masked = k.masked.setProc p { v with heapStart := 0, heapEnd := 0 } := by
  unfold masked setProc
  congr 1
  funext q
  by_cases hq : q = p
  · subst hq
    simp
  · simp [hq]

theorem masked_setProc_congr {v : Proc} (h : k'.masked = (k.setProc p v).masked) (w : Proc) :
    (k'.setProc p w).masked = (k.setProc p w).masked := by
  rw [masked_setProc, h, masked_setProc, masked_setProc]
  simp only [setProc, Function.update_idem]

/-- Of all that is not masked, at most the record of `p` has been written. -/
structure Builds (p : Nat) (k k' : Kernel) : Prop where
  masked : k'.masked = (k.setProc p (k'.procs p)).masked
  isIdle : (k'.procs p).isIdle = (k.procs p).isIdle

/-- The record of `p` still has the stack and the context it had. -/
structure KeepsStack (p : Nat) (k k' : Kernel) : Prop where
  ctx : (k'.procs p).ctx = (k.procs p).ctx
  tf : (k'.procs p).tf = (k.procs p).tf
  kstack : (k'.procs p).kstack = (k.procs p).kstack

theorem KeepsStack.trans (h : KeepsStack p k k₁) (h' : KeepsStack p k₁ k') : KeepsStack p k k' :=
  ⟨h'.ctx.trans h.ctx, h'.tf.trans h.tf, h'.kstack.trans h.kstack⟩

/-- The fields that `masked` shows. -/
theorem proc_of_masked {α : Type} (f : Proc → α)
    (hf : ∀ v : Proc, f { v with heapStart := 0, heapEnd := 0 } = f v) (h : k'.masked = k.masked) :
    f (k'.procs p) = f (k.procs p) := by
  have hproc : f (k'.masked.procs p) = f (k.masked.procs p) := by rw [h]
  exact (hf _).symm.trans (hproc.trans (hf _))

theorem KeepsStack.of_masked (h : k'.masked = k.masked) : KeepsStack p k k' :=
  ⟨proc_of_masked Proc.ctx (fun _ => rfl) h, proc_of_masked Proc.tf (fun _ => rfl) h,
    proc_of_masked Proc.kstack (fun _ => rfl) h⟩

theorem Builds.trans (h : Builds p k k₁) (h' : Builds p k₁ k') : Builds p k k' :=
  ⟨h'.masked.trans (masked_setProc_congr h.masked _), h'.isIdle.trans h.isIdle⟩

theorem Builds.of_masked (h : k'.masked = k.masked) : Builds p k k' := by
  refine ⟨?_, proc_of_masked Proc.isIdle (fun _ => rfl) h⟩
  have hproc : k'.masked.procs p = k.masked.procs p := by rw [h]
  rw [masked_setProc, h]
  change _ = k.masked.setProc p (k'.masked.procs p)
  rw [hproc]
  simp only [setProc, Function.update_eq_self]

theorem Builds.setProc {v : Proc} (hv : v.isIdle = (k.procs p).isIdle) :
    Builds p k (k.setProc p v) := by
  have hproc : (k.setProc p v).procs p = v := Function.update_self ..
  refine ⟨?_, ?_⟩
  · rw [hproc]
  · rw [hproc]
    exact hv

theorem bare_mapPage {pagetable va pa perm : Nat} {r : Bool × Kernel}
    (h : k.mapPage pagetable va pa perm = .ok r) : r.2.bare = k.bare := by
  unfold mapPage at h
  rw [bind_eq_ok] at h
  obtain ⟨⟨ok, mm⟩, -, h⟩ := h
  obtain rfl := Except.ok.inj h
  rfl

theorem bare_foldl {α : Type} {f : Kernel → α → Kernel} (hf : ∀ k a, (f k a).bare = k.bare)
    (l : List α) : (l.foldl f k).bare = k.bare := by
  induction l generalizing k with
  | nil => rfl
  | cons a l ih =>
      rw [List.foldl_cons]
      exact ih.trans (hf k a)

theorem bare_uartPuts (s : String) : (k.uartPuts s).bare = k.bare :=
  bare_foldl (fun _ c => bare_uartPutc c) _

theorem bare_uartPuthex (x : Nat) : (k.uartPuthex x).bare = k.bare :=
  (bare_foldl (fun _ _ => bare_uartPutc _) _).trans (bare_uartPuts "0x")

theorem bare_walk {pagetable va : Nat} {alloc : Bool} {r : Nat × Kernel}
    (h : k.walk pagetable va alloc = .ok r) : r.2.bare = k.bare := by
  unfold walk at h
  rw [bind_eq_ok] at h
  obtain ⟨⟨pte, mm⟩, -, h⟩ := h
  obtain rfl := Except.ok.inj h
  rfl

theorem bare_copyLoop {dst src n va : Nat} (h : copyLoop dst src n va k = .ok k') :
    k'.bare = k.bare := by
  induction n generalizing k va with
  | zero =>
      obtain rfl := Except.ok.inj h
      rfl
  | succ n ih =>
      have hmessage : ∀ (k : Kernel) (s : String) (c : UInt8),
          (((k.uartPuts s).uartPuthex va).uartPutc c).bare = k.bare := fun k s c =>
        (bare_uartPutc c).trans ((bare_uartPuthex va).trans (bare_uartPuts s))
      rw [copyLoop, bind_eq_ok] at h
      obtain ⟨⟨srcPte, k₁⟩, hwalk, h⟩ := h
      have hk₂ : (if srcPte = 0 then k₁ else k₁.setMm (k₁.mm.deref srcPte 8)).bare = k.bare := by
        split
        · exact bare_walk hwalk
        · exact bare_walk hwalk
      dsimp only at h
      generalize (if srcPte = 0 then k₁ else k₁.setMm (k₁.mm.deref srcPte 8)) = k₂ at h hk₂
      split at h
      · exact (ih h).trans ((hmessage _ _ _).trans hk₂)
      · rw [bind_eq_ok] at h
        obtain ⟨⟨ok, k₃⟩, hmap, h⟩ := h
        have hk₃ := (bare_mapPage hmap).trans hk₂
        dsimp only at h
        split at h
        · exact (ih h).trans hk₃
        · exact (ih h).trans ((hmessage _ _ _).trans hk₃)

theorem bare_loadBinary {fuel va remaining src : Nat} {r : Option Nat × Kernel}
    (h : loadBinary p fuel va remaining src k = .ok r) : r.2.bare = k.bare := by
  induction fuel generalizing k va remaining src with
  | zero => cases h
  | succ fuel ih =>
      rw [loadBinary] at h
      split at h
      · obtain rfl := Except.ok.inj h
        rfl
      · rw [bind_eq_ok] at h
        obtain ⟨⟨userBinPa, mm⟩, -, h⟩ := h
        dsimp only at h
        split at h
        · obtain rfl := Except.ok.inj h
          rfl
        · rw [bind_eq_ok] at h
          obtain ⟨⟨ok, k₁⟩, hmap, h⟩ := h
          have hk₁ : k₁.bare = k.bare := bare_mapPage hmap
          dsimp only at h
          split at h
          · obtain rfl := Except.ok.inj h
            exact hk₁
          · exact (ih h).trans hk₁

theorem bare_createShared (h : k.createShared p = .ok k') : k'.bare = k.bare := by
  unfold createShared at h
  rw [bind_eq_ok] at h
  obtain ⟨k₁, hcopy, h⟩ := h
  rw [bind_eq_ok] at h
  obtain ⟨⟨ok, k₂⟩, hmap, h⟩ := h
  dsimp only at h
  split at h
  · cases h
  · obtain rfl := Except.ok.inj h
    exact (bare_mapPage hmap).trans (bare_copyLoop hcopy)

theorem createUserStack_builds {va : Nat} {r : Bool × Kernel}
    (h : k.createUserStack p va = .ok r) : Builds p k r.2 ∧ KeepsStack p k r.2 := by
  have hset : ∀ (k : Kernel) (v : Proc), v.isIdle = (k.procs p).isIdle →
      v.ctx = (k.procs p).ctx → v.tf = (k.procs p).tf → v.kstack = (k.procs p).kstack →
      Builds p k (k.setProc p v) ∧ KeepsStack p k (k.setProc p v) := by
    intro k v h1 h2 h3 h4
    have hproc : (k.setProc p v).procs p = v := Function.update_self ..
    exact ⟨Builds.setProc h1, by rw [hproc]; exact h2, by rw [hproc]; exact h3,
      by rw [hproc]; exact h4⟩
  unfold createUserStack at h
  dsimp only at h
  rw [bind_eq_ok] at h
  obtain ⟨⟨ustack, mm⟩, -, h⟩ := h
  have h₁ := hset k { k.procs p with heapStart := alignUp va, heapEnd := alignUp va } rfl rfl rfl rfl
  generalize k.setProc p { k.procs p with heapStart := alignUp va, heapEnd := alignUp va } = k₁
    at h h₁
  have h₂ := hset (k₁.setMm mm) { k₁.procs p with ustack := ustack } rfl rfl rfl rfl
  have hmm : Builds p k₁ (k₁.setMm mm) ∧ KeepsStack p k₁ (k₁.setMm mm) :=
    ⟨Builds.of_masked rfl, KeepsStack.of_masked rfl⟩
  have h₃ : Builds p k ((k₁.setMm mm).setProc p { k₁.procs p with ustack := ustack }) ∧
      KeepsStack p k ((k₁.setMm mm).setProc p { k₁.procs p with ustack := ustack }) :=
    ⟨h₁.1.trans (hmm.1.trans h₂.1), h₁.2.trans (hmm.2.trans h₂.2)⟩
  dsimp only at h
  split at h
  · obtain rfl := Except.ok.inj h
    exact h₃
  · have hmap := masked_of_bare (bare_mapPage h)
    exact ⟨h₃.1.trans (Builds.of_masked hmap), h₃.2.trans (KeepsStack.of_masked hmap)⟩

/-- The stack pointers and the context of a process, as `create_proc` sets them. -/
structure Created (kstack tf : Nat) (ctx : Context) : Prop where
  frame : tf = u64 (kstack + (kstackSize - sizeofTrapFrame))
  sp : ctx.sp = tf
  /-- `create_proc` does not write `ctx.ra`. -/
  ra : ctx.ra = 0

theorem createKernelHalf_builds {r : Bool × Kernel} (hra : (k.procs p).ctx.ra = 0)
    (h : k.createKernelHalf p = .ok r) :
    Builds p k r.2 ∧ (r.1 = true → Created (r.2.procs p).kstack (r.2.procs p).tf (r.2.procs p).ctx) := by
  have hset : ∀ {k k₁ : Kernel} {v : Proc}, Builds p k k₁ → v.isIdle = (k₁.procs p).isIdle →
      Builds p k (k₁.setProc p v) := fun h hv => h.trans (Builds.setProc hv)
  have hself : ∀ (k : Kernel) (v : Proc), (k.setProc p v).procs p = v :=
    fun k v => Function.update_self ..
  unfold createKernelHalf at h
  rw [bind_eq_ok] at h
  obtain ⟨⟨pagetable, mm⟩, -, h⟩ := h
  obtain ⟨k₁, hk₁⟩ : ∃ k₁, k₁ = (k.setMm mm).setProc p { k.procs p with pagetable := pagetable } :=
    ⟨_, rfl⟩
  have h₁ : Builds p k k₁ := by
    have hmm : Builds p k (k.setMm mm) := Builds.of_masked rfl
    rw [hk₁]
    exact hset hmm rfl
  have hra₁ : (k₁.procs p).ctx.ra = 0 := by
    rw [hk₁, hself]
    exact hra
  dsimp only at h
  change (if pagetable = 0 then pure (false, (k.setMm mm).setProc p
    { k.procs p with pagetable := pagetable }) else _) = _ at h
  rw [← hk₁] at h
  split at h
  · obtain rfl := Except.ok.inj h
    exact ⟨h₁, by simp⟩
  · rw [bind_eq_ok] at h
    obtain ⟨⟨kstack, snub⟩, -, h⟩ := h
    obtain ⟨k₂, hk₂⟩ : ∃ k₂, k₂ = (k₁.setSnub snub).setProc p { k₁.procs p with kstack := kstack } :=
      ⟨_, rfl⟩
    have h₂ : Builds p k k₂ := by
      have hsnub : Builds p k₁ (k₁.setSnub snub) := Builds.of_masked rfl
      rw [hk₂]
      exact hset (h₁.trans hsnub) rfl
    have hra₂ : (k₂.procs p).ctx.ra = 0 := by
      rw [hk₂, hself]
      exact hra₁
    have hkstack : (k₂.procs p).kstack = kstack := by rw [hk₂, hself]
    dsimp only at h
    change (if kstack = 0 then pure (false, (k₁.setSnub snub).setProc p
      { k₁.procs p with kstack := kstack }) else _) = _ at h
    rw [← hk₂] at h
    split at h
    · obtain rfl := Except.ok.inj h
      exact ⟨h₂, by simp⟩
    · rw [bind_eq_ok] at h
      obtain ⟨⟨ok, k₃⟩, hmap₃, h⟩ := h
      have hm₃ : k₃.masked = k₂.masked := masked_of_bare (bare_mapPage hmap₃)
      dsimp only at h
      split at h
      · obtain rfl := Except.ok.inj h
        exact ⟨h₂.trans (Builds.of_masked hm₃), by simp⟩
      · rw [bind_eq_ok] at h
        obtain ⟨⟨ok', k₄⟩, hmap₄, h⟩ := h
        have hm₄ : k₄.masked = k₂.masked := (masked_of_bare (bare_mapPage hmap₄)).trans hm₃
        have h₄ := h₂.trans (Builds.of_masked hm₄)
        dsimp only at h
        split at h
        · obtain rfl := Except.ok.inj h
          exact ⟨h₄, by simp⟩
        · obtain rfl := Except.ok.inj h
          have hstack := KeepsStack.of_masked (p := p) hm₄
          have hlast : ∀ (v : Proc) (tf : Nat) (f : TrapFrame), v.isIdle = (k₄.procs p).isIdle →
              Builds p k ((k₄.setProc p v).setFrame tf f) := fun v tf f hv =>
            (hset h₄ hv).trans (Builds.of_masked (masked_setFrame tf f))
          refine ⟨hlast _ _ _ rfl, fun _ => ?_⟩
          change Created ((k₄.setProc p _).procs p).kstack ((k₄.setProc p _).procs p).tf
            ((k₄.setProc p _).procs p).ctx
          rw [hself]
          refine ⟨?_, rfl, ?_⟩
          · change u64 (kstack + _) = u64 ((k₄.procs p).kstack + _)
            rw [hstack.kstack, hkstack]
          · change (k₄.procs p).ctx.ra = 0
            rw [hstack.ctx, hra₂]

/-! ### `create_proc` -/

/-- A new process `p`, on no queue. -/
def withProc (k : Kernel) (p : Nat) (v : Proc) : Kernel :=
  ({ k with nextPid := k.nextPid + 1 }.setProc p v).setNodes
    (Function.update k.nodes (.qNode p) ⟨none, none⟩)

theorem nodes_of_masked (h : k'.masked = k.masked) : k'.nodes = k.nodes := by
  change k'.masked.nodes = k.masked.nodes
  rw [h]

theorem allocProc_cases {r : Nat × Kernel} (h : k.allocProc = .ok r) :
    (r.1 = 0 ∧ r.2.masked = k.masked) ∨
      (r.1 ≠ 0 ∧ ((r.2.initPid r.1).procs r.1).isIdle = false ∧
        ((r.2.initPid r.1).procs r.1).ctx.ra = 0 ∧
        ∀ v, ((r.2.initPid r.1).setProc r.1 v).masked = (k.withProc r.1 v).masked) := by
  unfold allocProc at h
  rw [bind_eq_ok] at h
  obtain ⟨⟨p, snub⟩, -, h⟩ := h
  dsimp only at h
  split at h
  · obtain rfl := Except.ok.inj h
    exact Or.inl ⟨rfl, rfl⟩
  · next hp =>
      obtain rfl := Except.ok.inj h
      have hproc : ∀ (k : Kernel), (k.setProc p Proc.zero).procs p = Proc.zero :=
        fun k => Function.update_self ..
      have hpid : ∀ (k : Kernel), ((k.initPid p).procs p).isIdle = (k.procs p).isIdle ∧
          ((k.initPid p).procs p).ctx = (k.procs p).ctx := by
        intro k
        have hself : (k.initPid p).procs p =
          { k.procs p with pid := (k.nextPid + 1) % 2 ^ 32, boundCpu := 2 ^ 32 - 1 } :=
            Function.update_self ..
        rw [hself]
        exact ⟨rfl, rfl⟩
      refine Or.inr ⟨hp, ?_, ?_, fun v => ?_⟩
      · rw [(hpid _).1]
        change (((k.setSnub snub).setProc p Proc.zero).procs p).isIdle = false
        rw [hproc]
        rfl
      · rw [(hpid _).2]
        change (((k.setSnub snub).setProc p Proc.zero).procs p).ctx.ra = 0
        rw [hproc]
        rfl
      · simp only [initPid, withProc, setProc, setNodes, setSnub, masked, Function.update_idem]

theorem masked_freeProc (hq : listInQueue k.nodes (.qNode p) = false)
    (h : k.freeProc p = .ok k') : k'.masked = k.masked := by
  unfold freeProc at h
  split at h
  · obtain rfl := Except.ok.inj h
    rfl
  · rw [hq] at h
    obtain ⟨nodes, hnodes, h⟩ := ite_bind_eq_ok h
    obtain rfl : k.nodes = nodes := Except.ok.inj hnodes
    obtain ⟨mm, -, h⟩ := ite_bind_eq_ok h
    obtain ⟨mm', -, h⟩ := ite_bind_eq_ok h
    obtain ⟨snub, -, h⟩ := ite_bind_eq_ok h
    dsimp only at h
    rw [bind_eq_ok] at h
    obtain ⟨snub', -, h⟩ := h
    obtain rfl := Except.ok.inj h
    rfl

theorem fail1_cases {r : Nat × Kernel} (hq : listInQueue k.nodes (.qNode p) = false)
    (h : k.fail1 p = .ok r) : r.1 = 0 ∧ r.2.masked = k.masked := by
  unfold fail1 at h
  rw [bind_eq_ok] at h
  obtain ⟨k₁, hfree, h⟩ := h
  obtain rfl := Except.ok.inj h
  exact ⟨rfl, masked_freeProc hq hfree⟩

/-- How `create_proc` ends once it has an object for the process: the process is freed again, or
put on the run queue as the last step. -/
def Outcome (k : Kernel) (p : Nat) (r : Nat × Kernel) : Prop :=
  ∃ v : Proc, v.isIdle = false ∧
    ((r.1 = 0 ∧ r.2.masked = (k.withProc p v).masked) ∨
      (r.1 = p ∧ Created v.kstack v.tf v.ctx ∧ ∃ k₁ : Kernel, k₁.masked = (k.withProc p v).masked ∧
        k₁.enqueue p = .ok r.2))

/-- **`create_proc`**: it does nothing without an object for the process. -/
theorem createProc_cases {binary size : Nat} {r : Nat × Kernel}
    (h : k.createProc binary size = .ok r) :
    (r.1 = 0 ∧ r.2.masked = k.masked) ∨
      ∃ (p : Nat) (k₀ : Kernel), k.allocProc = .ok (p, k₀) ∧ p ≠ 0 ∧ Outcome k p r := by
  unfold createProc at h
  rw [bind_eq_ok] at h
  obtain ⟨⟨p, k₀⟩, halloc, h⟩ := h
  dsimp only at h
  rcases allocProc_cases halloc with ⟨h0, hmasked⟩ | ⟨hp, hidle, hra, hwith⟩
  · rw [if_pos h0] at h
    obtain rfl := Except.ok.inj h
    exact Or.inl ⟨rfl, hmasked⟩
  · rw [if_neg hp] at h
    refine Or.inr ⟨p, k₀, halloc, hp, ?_⟩
    dsimp only at hidle hra hwith
    -- what the paragraphs build is a new process on no queue
    have hbuilt : ∀ {k₁ : Kernel}, Builds p (k₀.initPid p) k₁ →
        k₁.masked = (k.withProc p (k₁.procs p)).masked := fun hb => hb.masked.trans (hwith _)
    have hfail : ∀ {k₁ : Kernel}, Builds p (k₀.initPid p) k₁ → k₁.fail1 p = .ok r →
        Outcome k p r := by
      intro k₁ hb hf
      have hm := hbuilt hb
      have hnode : listInQueue k₁.nodes (.qNode p) = false := by
        rw [nodes_of_masked hm]
        simp [listInQueue, withProc, setNodes]
      obtain ⟨h0, hr⟩ := fail1_cases hnode hf
      exact ⟨_, hb.isIdle.trans hidle, Or.inl ⟨h0, hr.trans hm⟩⟩
    rw [bind_eq_ok] at h
    obtain ⟨⟨ok, k₁⟩, hhalf, h⟩ := h
    obtain ⟨hb₁, hcreated⟩ := createKernelHalf_builds hra hhalf
    dsimp only at h
    split at h
    · exact hfail hb₁ h
    · next hok =>
      rw [bind_eq_ok] at h
      obtain ⟨⟨va, k₂⟩, hload, h⟩ := h
      have hm₂ := masked_of_bare (bare_loadBinary hload)
      have hb₂ := hb₁.trans (Builds.of_masked hm₂)
      cases va with
      | none => exact hfail hb₂ h
      | some va =>
          rw [bind_eq_ok] at h
          obtain ⟨⟨ok₃, k₃⟩, hstack, h⟩ := h
          obtain ⟨hb₃, hkeep₃⟩ := createUserStack_builds hstack
          dsimp only at h
          split at h
          · exact hfail (hb₂.trans hb₃) h
          · rw [bind_eq_ok] at h
            obtain ⟨k₄, hshared, h⟩ := h
            rw [bind_eq_ok] at h
            obtain ⟨k₅, hqueue, h⟩ := h
            obtain rfl := Except.ok.inj h
            have hm₄ := masked_of_bare (bare_createShared hshared)
            have hb₄ := (hb₂.trans hb₃).trans (Builds.of_masked hm₄)
            have hkeep : KeepsStack p k₁ k₄ :=
              (KeepsStack.of_masked hm₂).trans (hkeep₃.trans (KeepsStack.of_masked hm₄))
            have hnew := hcreated (by simpa using hok)
            refine ⟨k₄.procs p, hb₄.isIdle.trans hidle,
              Or.inr ⟨rfl, ⟨?_, ?_, ?_⟩, k₄, hbuilt hb₄, hqueue⟩⟩
            · rw [hkeep.tf, hkeep.kstack]
              exact hnew.frame
            · rw [hkeep.ctx, hkeep.tf]
              exact hnew.sp
            · rw [hkeep.ctx]
              exact hnew.ra

end SystemN.Kernel
