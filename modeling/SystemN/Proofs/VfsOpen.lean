/-
What `vfs_open` leaves behind when it fails.

It can fail three times: the path leads to no inode, `malloc` has no block, no slot is free.
The first two come before anything has been done.  The third comes when the open file has been
allocated, and there is no `free`; the block is lost, and that is the only way to lose one.  Slots
are taken and never given back, so no descriptor is handed out twice, in any run.
-/
import SystemN.Path
import SystemN.Proofs.FsRun

namespace SystemN.Ramfs

/-! ### One call -/

/-- A block that has been allocated. -/
inductive Block where
  /-- The `file_t` at an address. -/
  | file (p : Nat)
  /-- The inode at an address. -/
  | inode (p : Nat)
  /-- The contents of the file in a slot. -/
  | data (k : Nat)
  deriving DecidableEq, Repr

/-- The blocks there are. -/
def live (s : Ramfs) : Set Block
  | .file p => s.fs.files p ≠ none
  | .inode p => s.fs.inodes p ≠ none
  | .data k => (s.fs.fileTable k).data ≠ []

/-- A call of `vfs_open`, with what it was given, what it answered, and the states around it. -/
structure OpenCall where
  path : Option Buf
  /-- What `malloc` gave. -/
  answer : Option Nat
  before : Ramfs
  fd : Int
  after : Ramfs

namespace OpenCall

/-- The call has given the free slot `d` the new open file `p`, at the start of an inode. -/
structure Opened (c : OpenCall) (d p : Nat) : Prop where
  fd : c.fd = d
  lt : d < maxOpenFiles
  free : c.before.fs.openFiles d = none
  new : .file p ∉ c.before.live
  table : c.after.fs.openFiles = Function.update c.before.fs.openFiles d (some p)
  files : ∃ i, c.after.fs.files = Function.update c.before.fs.files p (some ⟨some i, 0, 0⟩)

/-- It has opened a file, or changed neither the table nor the heap. -/
structure Atomic (c : OpenCall) : Prop where
  opened : 0 ≤ c.fd → ∃ d p, c.Opened d p
  refused : c.fd = -1 → c.after.fs.openFiles = c.before.fs.openFiles ∧ c.after.live = c.before.live

/-- If the path leads to an inode and `malloc` gives a block, there is a free slot for it. -/
def Room (c : OpenCall) : Prop :=
  ∀ i p, vfsLookup c.before.rootFs c.path = some (some i) → c.answer = some p →
    ∃ d < maxOpenFiles, c.before.fs.openFiles d = none

end OpenCall

variable {s s' s₀ : Ramfs} {path : Option Buf} {answer : Option Nat} {fd : Int} {i p d : Nat}

/-- Where `vfs_open` of a path comes back. -/
theorem vfsOpen_cases (h : s.vfsOpen path answer = some (fd, s')) :
    (fd = -1 ∧ s' = s ∧ ∀ i p, vfsLookup s.rootFs path = some (some i) → answer ≠ some p) ∨
    ∃ i p, vfsLookup s.rootFs path = some (some i) ∧ answer = some p ∧
      ((∀ d < maxOpenFiles, s.fs.openFiles d ≠ none) ∧ fd = -1 ∧
          s' = { s with fs := s.fs.setOpen p ⟨some i, 0, 0⟩ } ∨
        ∃ d < maxOpenFiles, s.fs.openFiles d = none ∧ (∀ e < d, s.fs.openFiles e ≠ none) ∧ fd = d ∧
          s' = { s with fs := (s.fs.setOpen p ⟨some i, 0, 0⟩).installed d p }) := by
  unfold vfsOpen at h
  obtain ⟨node, hnode, h⟩ := Option.bind_eq_some_iff.mp h
  obtain ⟨⟨fd', fs⟩, hcall⟩ : ∃ r, s.fs.vfsOpen node answer = r := ⟨_, rfl⟩
  rw [hcall] at h
  obtain ⟨rfl, rfl⟩ := Prod.mk.inj (Option.some.inj h)
  rcases Fs.vfsOpen_cases hcall with ⟨rfl, rfl, hnot⟩ | ⟨i, p, rfl, rfl, hcases⟩
  · refine Or.inl ⟨rfl, rfl, fun i p hi => hnot i p ?_⟩
    exact Option.some.inj (hnode.symm.trans hi)
  · refine Or.inr ⟨i, p, hnode, rfl, ?_⟩
    rcases hcases with ⟨htaken, rfl, rfl⟩ | ⟨d, hlt, hd, htaken, rfl, rfl⟩
    · exact Or.inl ⟨htaken, rfl, rfl⟩
    · exact Or.inr ⟨d, hlt, hd, htaken, rfl, rfl⟩

/-- **A call is atomic** if and only if it does not come to a full table with a block in hand. -/
theorem vfsOpen_atomic_iff (h : s.vfsOpen path answer = some (fd, s'))
    (hfresh : ∀ p, answer = some p → .file p ∉ s.live) :
    OpenCall.Atomic ⟨path, answer, s, fd, s'⟩ ↔ OpenCall.Room ⟨path, answer, s, fd, s'⟩ := by
  rcases vfsOpen_cases h with ⟨rfl, rfl, hnot⟩ | ⟨i, p, hi, rfl, ⟨htaken, rfl, rfl⟩ | hopen⟩
  · constructor
    · intro _ i p hi hp
      exact absurd hp (hnot i p hi)
    · intro _
      refine ⟨?_, fun _ => ⟨rfl, rfl⟩⟩
      intro hfd
      have hneg : (0 : Int) ≤ -1 := hfd
      exact absurd hneg (by decide)
  · -- the block is there afterwards, and was not before
    constructor
    · intro hatomic
      have hlive := (hatomic.refused rfl).2
      refine absurd (hlive ▸ ?_) (hfresh p rfl)
      show Function.update s.fs.files p _ p ≠ none
      rw [Function.update_self]
      exact Option.some_ne_none _
    · intro hroom
      obtain ⟨d, hlt, hd⟩ := hroom i p hi rfl
      exact absurd hd (htaken d hlt)
  · obtain ⟨d, hlt, hd, -, rfl, rfl⟩ := hopen
    constructor
    · intro _ _ _ _ _
      exact ⟨d, hlt, hd⟩
    · intro _
      refine ⟨fun _ => ⟨d, p, rfl, hlt, hd, hfresh p rfl, rfl, i, rfl⟩, ?_⟩
      intro hfd
      have hneg : (d : Int) = -1 := hfd
      omega

/-! ### A run -/

/-- Calls of `vfs_open`, the last one first.  `malloc` gives out what is not in use. -/
inductive OpenRun (s₀ : Ramfs) : List OpenCall → Ramfs → Prop
  | start : OpenRun s₀ [] s₀
  | step {calls : List OpenCall} {s s' : Ramfs} {path : Option Buf} {answer : Option Nat} {fd : Int}
      (hrun : OpenRun s₀ calls s)
      (hfresh : ∀ p, answer = some p → .file p ∉ s.live ∧ .inode p ∉ s.live)
      (h : s.vfsOpen path answer = some (fd, s')) :
      OpenRun s₀ (⟨path, answer, s, fd, s'⟩ :: calls) s'

/-- The descriptors that have been handed out. -/
def descriptors (calls : List OpenCall) : List Int := (calls.map (·.fd)).filter (0 ≤ ·)

theorem descriptors_cons (c : OpenCall) (calls : List OpenCall) :
    descriptors (c :: calls) = if 0 ≤ c.fd then c.fd :: descriptors calls else descriptors calls := by
  simp only [descriptors, List.map_cons, List.filter_cons, decide_eq_true_eq]

/-- A slot that has been taken stays taken. -/
theorem vfsOpen_taken (h : s.vfsOpen path answer = some (fd, s')) (hd : s.fs.openFiles d ≠ none) :
    s'.fs.openFiles d ≠ none := by
  rcases vfsOpen_cases h with ⟨-, rfl, -⟩ | ⟨i, p, -, -, ⟨-, -, rfl⟩ | ⟨e, -, -, -, -, rfl⟩⟩
  · exact hd
  · exact hd
  · show Function.update s.fs.openFiles e (some p) d ≠ none
    by_cases hde : d = e
    · subst hde
      simp
    · rwa [Function.update_of_ne hde]

/-- The descriptors are different slots, and all of them are taken. -/
theorem OpenRun.distinct {calls : List OpenCall} (h : OpenRun s₀ calls s) :
    (descriptors calls).Nodup ∧
      ∀ fd ∈ descriptors calls, ∃ d : Nat, fd = d ∧ s.fs.openFiles d ≠ none := by
  induction h with
  | start => exact ⟨List.nodup_nil, fun fd hfd => by cases hfd⟩
  | @step calls s s' path answer fd hrun hfresh h ih =>
      obtain ⟨hnodup, htaken⟩ := ih
      have hold : ∀ fd ∈ descriptors calls, ∃ d : Nat, fd = d ∧ s'.fs.openFiles d ≠ none := by
        intro fd hfd
        obtain ⟨d, rfl, hd⟩ := htaken fd hfd
        exact ⟨d, rfl, vfsOpen_taken h hd⟩
      rw [descriptors_cons]
      by_cases hfd : 0 ≤ fd
      · rw [if_pos hfd]
        obtain ⟨rfl, -⟩ | ⟨i, p, -, -, ⟨-, rfl, -⟩ | ⟨d, -, hd, -, rfl, rfl⟩⟩ := vfsOpen_cases h
        · exact absurd hfd (by decide)
        · exact absurd hfd (by decide)
        · refine ⟨List.nodup_cons.mpr ⟨?_, hnodup⟩, ?_⟩
          · intro hmem
            obtain ⟨e, he, htaken'⟩ := htaken _ hmem
            obtain rfl : d = e := Int.ofNat.inj he
            exact htaken' hd
          · intro fd' hmem
            rcases List.mem_cons.mp hmem with rfl | hmem
            · refine ⟨d, rfl, ?_⟩
              show Function.update s.fs.openFiles d (some p) d ≠ none
              simp
            · exact hold fd' hmem
      · rw [if_neg hfd]
        exact ⟨hnodup, hold⟩

/-- **In every run of `vfs_open`** the descriptors are distinct, and a call is atomic if and only if
it does not come to a full table with a block in hand. -/
theorem OpenRun.atomic_iff {calls : List OpenCall} (h : OpenRun s₀ calls s) :
    (descriptors calls).Nodup ∧ ∀ c ∈ calls, c.Atomic ↔ c.Room := by
  refine ⟨h.distinct.1, ?_⟩
  induction h with
  | start => exact fun c hc => by cases hc
  | step hrun hfresh h ih =>
      intro c hc
      rcases List.mem_cons.mp hc with rfl | hc
      · exact vfsOpen_atomic_iff h fun p hp => (hfresh p hp).1
      · exact ih c hc

/-! ### A table that fills up -/

/-- The path `/`. -/
def pathRoot : Buf := fun i => [slash].getD i 0

/-- The root directory has been opened `n` times. -/
def rootOpened (n : Nat) : Ramfs where
  fs := { Fs.ramfsCreateFs with
    openFiles := fun d => if d < n then some (d + 1) else none
    files := fun p => if 0 < p ∧ p ≤ n then some ⟨some 0, 0, 0⟩ else none }
  names := fun _ => List.replicate maxNameLen 0
  mounted := true

theorem rootOpened_zero : rootOpened 0 = (vfsMount ramfsCreateFs).2 := by
  have hfiles : (fun p => if 0 < p ∧ p ≤ 0 then some (⟨some 0, 0, 0⟩ : File) else none)
      = fun _ => none := funext fun p => if_neg (by omega)
  unfold rootOpened
  rw [hfiles]
  rfl

theorem rootOpened_fresh (n : Nat) :
    .file (n + 1) ∉ (rootOpened n).live ∧ .inode (n + 1) ∉ (rootOpened n).live := by
  have hinode : (rootOpened n).fs.inodes (n + 1) = none :=
    Function.update_of_ne (Nat.succ_ne_zero n) (some Fs.rootInode) fun _ => none
  exact ⟨fun h => h (if_neg (by omega)), fun h => h hinode⟩

theorem rootOpened_call (n : Nat) : (rootOpened n).vfsOpen (some pathRoot) (some (n + 1)) =
    some (((rootOpened n).fs.vfsOpen (some 0) (some (n + 1))).1,
      { rootOpened n with fs := ((rootOpened n).fs.vfsOpen (some 0) (some (n + 1))).2 }) := rfl

/-- As long as there is room, the next slot is taken. -/
theorem rootOpened_step {n : Nat} (hn : n < maxOpenFiles) :
    (rootOpened n).vfsOpen (some pathRoot) (some (n + 1)) = some ((n : Int), rootOpened (n + 1)) := by
  have hcall := rootOpened_call n
  rcases vfsOpen_cases hcall with ⟨-, -, hnot⟩ | ⟨i, p, hi, hp, hrest⟩
  · exact absurd rfl (hnot 0 (n + 1) rfl)
  · obtain rfl := Option.some.inj hp
    obtain rfl : 0 = i := Option.some.inj (Option.some.inj hi)
    rcases hrest with ⟨htaken, -, -⟩ | ⟨d, -, hd, htaken, hfd, hstate⟩
    · exact absurd (if_neg (Nat.lt_irrefl n)) (htaken n hn)
    · have hge : ¬d < n := fun hlt => by
        have hsome : (rootOpened n).fs.openFiles d = some (d + 1) := if_pos hlt
        rw [hsome] at hd
        cases hd
      have hle : ¬n < d := fun hlt => htaken n hlt (if_neg (Nat.lt_irrefl n))
      obtain rfl : d = n := by omega
      have hopenFiles : Function.update (rootOpened d).fs.openFiles d (some (d + 1))
          = (rootOpened (d + 1)).fs.openFiles := by
        funext e
        simp only [rootOpened, Function.update_apply]
        by_cases heq : e = d
        · rw [if_pos heq, if_pos (by omega), heq]
        · rw [if_neg heq]
          exact if_congr (by omega) rfl rfl
      have hfiles : Function.update (rootOpened d).fs.files (d + 1) (some ⟨some 0, 0, 0⟩)
          = (rootOpened (d + 1)).fs.files := by
        funext q
        simp only [rootOpened, Function.update_apply]
        by_cases heq : q = d + 1
        · rw [if_pos heq, if_pos (by omega)]
        · rw [if_neg heq]
          exact if_congr (by omega) rfl rfl
      rw [hcall, hfd, hstate]
      simp only [Fs.installed, Fs.setOpen, hopenFiles, hfiles]
      rfl

/-- `n` calls that have all been answered. -/
theorem rootOpened_run {n : Nat} (hn : n ≤ maxOpenFiles) :
    ∃ calls, calls.length = n ∧ OpenRun (vfsMount ramfsCreateFs).2 calls (rootOpened n) := by
  induction n with
  | zero => exact ⟨[], rfl, rootOpened_zero ▸ .start⟩
  | succ n ih =>
      obtain ⟨calls, hlen, hrun⟩ := ih (Nat.le_of_succ_le hn)
      refine ⟨_ :: calls, congrArg Nat.succ hlen, hrun.step (fun p hp => ?_) (rootOpened_step hn)⟩
      obtain rfl := Option.some.inj hp
      exact rootOpened_fresh n

theorem atomic_iff_firstOpen :
    (descriptors [⟨some pathRoot, some 1, rootOpened 0, 0, rootOpened 1⟩]).Nodup ∧
      ∀ c ∈ [(⟨some pathRoot, some 1, rootOpened 0, 0, rootOpened 1⟩ : OpenCall)],
        c.Atomic ↔ c.Room := by
  refine OpenRun.atomic_iff (.step .start (fun p hp => ?_) (rootOpened_step (by decide)))
  obtain rfl := Option.some.inj hp
  exact rootOpened_fresh 0

/-- The 65th `vfs_open("/")` answers -1, and its `file_t` stays behind. -/
theorem full_table_leaks : ∃ calls c s, calls.length = 64 ∧
    OpenRun (vfsMount ramfsCreateFs).2 (c :: calls) s ∧ c.path = some pathRoot ∧
      c.answer = some 65 ∧ c.fd = -1 ∧ .file 65 ∉ c.before.live ∧ .file 65 ∈ c.after.live ∧
      ¬c.Atomic := by
  obtain ⟨calls, hlen, hrun⟩ := rootOpened_run (Nat.le_refl maxOpenFiles)
  have hfresh := rootOpened_fresh 64
  have hcall := rootOpened_call 64
  have hfull : ∀ d < maxOpenFiles, (rootOpened 64).fs.openFiles d ≠ none := by
    intro d hlt
    rw [show (rootOpened 64).fs.openFiles d = some (d + 1) from if_pos hlt]
    exact Option.some_ne_none _
  rcases vfsOpen_cases hcall with ⟨-, -, hnot⟩ | ⟨i, p, hi, hp, ⟨-, hfd, hstate⟩ | ⟨d, hlt, hd, -⟩⟩
  · exact absurd rfl (hnot 0 65 rfl)
  · obtain rfl := Option.some.inj hp
    have hlive : .file 65 ∈
        live { rootOpened 64 with fs := ((rootOpened 64).fs.vfsOpen (some 0) (some 65)).2 } := by
      rw [hstate]
      show Function.update (rootOpened 64).fs.files 65 _ 65 ≠ none
      rw [Function.update_self]
      exact Option.some_ne_none _
    refine ⟨calls, ⟨_, _, _, _, _⟩, _, hlen, hrun.step (fun p hp => ?_) hcall, rfl, rfl, hfd, hfresh.1,
      hlive, fun hatomic => ?_⟩
    · obtain rfl := Option.some.inj hp
      exact hfresh
    · exact hfresh.1 ((hatomic.refused hfd).2 ▸ hlive)
  · exact absurd hd (hfull d hlt)

end SystemN.Ramfs
