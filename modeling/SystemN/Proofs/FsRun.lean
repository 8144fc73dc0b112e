/-
Runs of the file system refine runs of streams over byte arrays.

A run starts with `ramfs_create()` and makes files, opens descriptors, reads and writes, in
any order.  `malloc` and `realloc` may refuse at any time; what `malloc` gives is not in
use.  The reference model is `Lib.Streams`: one array for each file, one offset for each
descriptor, and nothing else.

The step lemma says that a call does to the view what the reference model does, with the
same answer.  The run lemma carries two invariants along, and only one of them is about the
kernel: that no offset is beyond the end of its file is an invariant of the reference model.
-/
import SystemN.Proofs.Fs

namespace SystemN.Fs

open Streams

variable {s s' : Fs}

/-! ### New files and new descriptors -/

/-- Slot `k` belongs to no inode. -/
theorem FsInv.slot_ne_of_free (hi : FsInv s) {k k' j : Nat} (hk : (s.fileTable k).inode = none)
    (hk' : s.slotOf j = some k') : k' ≠ k := by
  intro heq
  obtain ⟨ino, hino, hint⟩ := Option.bind_eq_some_iff.mp hk'
  apply (hi.inode j ino hino).elim
  · intro hnone
    rw [hnone] at hint
    cases hint
  · intro ⟨x, hx, howner, _⟩
    obtain rfl : x = k' := Option.some.inj (hx.symm.trans hint)
    rw [heq, hk] at howner
    cases howner

/-- Writing a slot that belongs to no inode, and still does not. -/
theorem FsInv.setFile (hi : FsInv s) {k : Nat} {f : RamfsFile} (hk : (s.fileTable k).inode = none)
    (hf : f.inode = none) : FsInv (s.setFile k f) ∧ (s.setFile k f).view = s.view := by
  have hother : ∀ k', k' ≠ k → (s.setFile k f).fileTable k' = s.fileTable k' := fun k' hk' =>
    Function.update_of_ne hk' ..
  have hbytes : (s.setFile k f).bytesOf = s.bytesOf := by
    funext j
    have hslot : (s.setFile k f).slotOf j = s.slotOf j := rfl
    rw [bytesOf, bytesOf, hslot]
    cases hk' : s.slotOf j with
    | none => rfl
    | some k' =>
        rw [Option.bind_some, Option.bind_some, hother k' (hi.slot_ne_of_free hk hk')]
  constructor
  · refine ⟨?_, ?_, hi.file, hi.own⟩
    · intro j ino hj
      apply (hi.inode j ino hj).elim
      · exact Or.inl
      · rintro ⟨k', hk', hrest⟩
        refine Or.inr ⟨k', hk', ?_⟩
        rw [hother k' (hi.slot_ne_of_free hk (slotOf_eq hj hk'))]
        exact hrest
    · intro k' j hj
      by_cases hkk : k' = k
      · subst hkk
        have hself : (s.setFile k' f).fileTable k' = f := Function.update_self ..
        rw [hself, hf] at hj
        cases hj
      · rw [hother k' hkk] at hj
        exact hi.slot k' j hj
  · have hdesc : (s.setFile k f).descOf = s.descOf :=
      hi.descOf_congr rfl (fun _ _ _ => rfl) fun j _ _ => by rw [hbytes]
    unfold view
    rw [hbytes, hdesc]

/-- The file system with a new inode at `p` for slot `k`. -/
def created (s : Fs) (k p mode : Nat) : Fs :=
  (({ s with nextInodeNo := u64 (s.nextInodeNo + 1) }).setInode p
    ⟨s.nextInodeNo, 0, mode, some k⟩).setFile k ⟨[], 0, mode, some p⟩

theorem FsInv.created (hi : FsInv s) {k p : Nat} (hk : (s.fileTable k).inode = none)
    (hp : s.inodes p = none) (mode : Nat) : FsInv (s.created k p mode) ∧
      (s.created k p mode).view = if mode = vfsModeFile then s.view.create p else s.view := by
  have hself : (s.created k p mode).fileTable k = ⟨[], 0, mode, some p⟩ := Function.update_self ..
  have hother : ∀ k', k' ≠ k → (s.created k p mode).fileTable k' = s.fileTable k' := fun k' hk' =>
    Function.update_of_ne hk' ..
  have hnew : (s.created k p mode).inodes p = some ⟨s.nextInodeNo, 0, mode, some k⟩ :=
    Function.update_self ..
  have hold : ∀ j, j ≠ p → (s.created k p mode).inodes j = s.inodes j := fun j hj =>
    Function.update_of_ne hj ..
  have hne : ∀ j ino, s.inodes j = some ino → j ≠ p := by
    intro j ino hj heq
    rw [heq, hp] at hj
    cases hj
  have hbytes : ∀ j, j ≠ p → (s.created k p mode).bytesOf j = s.bytesOf j := by
    intro j hj
    have hslot : (s.created k p mode).slotOf j = s.slotOf j := by
      rw [slotOf, slotOf, hold j hj]
    rw [bytesOf, bytesOf, hslot]
    cases hk' : s.slotOf j with
    | none => rfl
    | some k' =>
        rw [Option.bind_some, Option.bind_some, hother k' (hi.slot_ne_of_free hk hk')]
  have hbytes' : (s.created k p mode).bytesOf p = if mode = vfsModeFile then some [] else none := by
    rw [bytesOf, slotOf, hnew, Option.bind_some, Option.bind_some, hself]
    rfl
  have hdesc : (s.created k p mode).descOf = s.descOf :=
    hi.descOf_congr rfl (fun _ _ _ => rfl) fun j ino hj => by rw [hbytes j (hne j ino hj)]
  constructor
  · refine ⟨?_, ?_, ?_, hi.own⟩
    · intro j ino hj
      by_cases hjp : j = p
      · subst hjp
        rw [hnew] at hj
        obtain rfl := Option.some.inj hj
        refine Or.inr ⟨k, rfl, ?_⟩
        rw [hself]
        exact ⟨rfl, rfl, rfl, rfl, Nat.two_pow_pos 31⟩
      · rw [hold j hjp] at hj
        apply (hi.inode j ino hj).elim
        · exact Or.inl
        · rintro ⟨k', hk', hrest⟩
          refine Or.inr ⟨k', hk', ?_⟩
          rw [hother k' (hi.slot_ne_of_free hk (slotOf_eq hj hk'))]
          exact hrest
    · intro k' j hj
      by_cases hkk : k' = k
      · subst hkk
        rw [hself] at hj
        obtain rfl := Option.some.inj hj
        exact ⟨_, hnew, rfl⟩
      · rw [hother k' hkk] at hj
        obtain ⟨ino, hino, hint⟩ := hi.slot k' j hj
        exact ⟨ino, (hold j (hne j ino hino)).trans hino, hint⟩
    · intro d q hq
      obtain ⟨f, j, hf, hj, ino, hino⟩ := hi.file d q hq
      exact ⟨f, j, hf, hj, ino, (hold j (hne j ino hino)).trans hino⟩
  · have hbytesOf : (s.created k p mode).bytesOf
        = if mode = vfsModeFile then Function.update s.bytesOf p (some []) else s.bytesOf := by
      funext j
      by_cases hjp : j = p
      · subst hjp
        rw [hbytes']
        split
        · rw [Function.update_self]
        · rw [bytesOf, slotOf, hp]
          rfl
      · rw [hbytes j hjp]
        split
        · rw [Function.update_of_ne hjp]
        · rfl
    unfold view
    rw [hbytesOf, hdesc]
    split <;> rfl

/-- **`ramfs_create`** makes a new empty file, or none. -/
theorem FsInv.createLoop (hi : FsInv s) {mode : Nat} {answer : Option Nat}
    (hfresh : ∀ p, answer = some p → s.inodes p = none) {n i : Nat} {ret : Int}
    (h : createLoop mode answer n i s = some (ret, s')) :
    FsInv s' ∧ (ret ≠ 0 ∧ s'.view = s.view ∨
      ∃ p, ret = 0 ∧ answer = some p ∧
        s'.view = if mode = vfsModeFile then s.view.create p else s.view) := by
  induction n generalizing i with
  | zero =>
      obtain ⟨rfl, rfl⟩ := Prod.mk.inj (Option.some.inj h)
      exact ⟨hi, Or.inl ⟨by decide, rfl⟩⟩
  | succ n ih =>
      rw [Fs.createLoop] at h
      split at h
      · cases h
      · split at h
        · rename_i hfree
          cases hanswer : answer with
          | none =>
              rw [hanswer] at h
              obtain ⟨rfl, rfl⟩ := Prod.mk.inj (Option.some.inj h)
              obtain ⟨hi', hview⟩ := hi.setFile (f := { s.fileTable i with
                mode := mode, data := [], size := 0 }) hfree hfree
              exact ⟨hi', Or.inl ⟨by decide, hview⟩⟩
          | some p =>
              rw [hanswer] at h
              obtain ⟨rfl, rfl⟩ := Prod.mk.inj (Option.some.inj h)
              obtain ⟨hi', hview⟩ := hi.created hfree (hfresh p hanswer) mode
              have heq : s.created i p mode = (({ s.setFile i { s.fileTable i with
                  mode := mode, data := [], size := 0 } with
                  nextInodeNo := u64 (s.nextInodeNo + 1) }).setInode p
                  ⟨s.nextInodeNo, 0, mode, some i⟩).setFile i ⟨[], 0, mode, some p⟩ := by
                unfold Fs.created Fs.setFile setInode
                simp only [Function.update_idem]
              rw [heq] at hi' hview
              exact ⟨hi', Or.inr ⟨p, rfl, rfl, hview⟩⟩
        · exact ih h

/-- The loop of `vfs_install_fd` takes the first free slot, if there is one. -/
theorem installLoop_cases (p : Nat) : ∀ (n i : Nat),
    ((∀ d, i ≤ d → d < i + n → s.openFiles d ≠ none) ∧ installLoop p n i s = (-1, s)) ∨
    ∃ d, i ≤ d ∧ d < i + n ∧ s.openFiles d = none ∧ (∀ e, i ≤ e → e < d → s.openFiles e ≠ none) ∧
      installLoop p n i s
        = ((d : Int), { s with openFiles := Function.update s.openFiles d (some p) }) := by
  intro n
  induction n with
  | zero => exact fun i => Or.inl ⟨fun d hle hlt => absurd hle (Nat.not_le_of_lt hlt), rfl⟩
  | succ n ih =>
      intro i
      rw [installLoop]
      by_cases hfree : s.openFiles i = none
      · rw [if_pos hfree]
        exact Or.inr ⟨i, Nat.le_refl i, by omega, hfree,
          fun e hle hlt => absurd hle (Nat.not_le_of_lt hlt), rfl⟩
      · rw [if_neg hfree]
        rcases ih (i + 1) with ⟨htaken, hfull⟩ | ⟨d, hle, hlt, hd, htaken, hok⟩
        · refine Or.inl ⟨fun d hle hlt => ?_, hfull⟩
          rcases Nat.eq_or_lt_of_le hle with rfl | hlt'
          · exact hfree
          · exact htaken d hlt' (by omega)
        · refine Or.inr ⟨d, by omega, by omega, hd, fun e hle' hlt' => ?_, hok⟩
          rcases Nat.eq_or_lt_of_le hle' with rfl | hgt
          · exact hfree
          · exact htaken e hgt hlt'

/-- An open file that no descriptor is for yet. -/
theorem FsInv.newFile (hi : FsInv s) {p : Nat} (hp : s.files p = none) (f : File) :
    FsInv (s.setOpen p f) ∧ (s.setOpen p f).view = s.view := by
  have hne : ∀ d q, s.openFiles d = some q → q ≠ p := by
    intro d q hq heq
    obtain ⟨g, -, hg, -⟩ := hi.file d q hq
    rw [heq, hp] at hg
    cases hg
  have hother : ∀ d q, s.openFiles d = some q → (s.setOpen p f).files q = s.files q := fun d q hq =>
    Function.update_of_ne (hne d q hq) ..
  constructor
  · refine ⟨hi.inode, hi.slot, ?_, hi.own⟩
    intro d q hq
    obtain ⟨g, j, hg, hrest⟩ := hi.file d q hq
    exact ⟨g, j, (hother d q hq).trans hg, hrest⟩
  · have hdesc : (s.setOpen p f).descOf = s.descOf := hi.descOf_congr rfl hother fun _ _ _ => rfl
    have hbytes : (s.setOpen p f).bytesOf = s.bytesOf := rfl
    unfold view
    rw [hbytes, hdesc]

/-- The file system with a descriptor for an open file. -/
def installed (s : Fs) (d p : Nat) : Fs :=
  { s with openFiles := Function.update s.openFiles d (some p) }

theorem FsInv.installed (hi : FsInv s) {d p i : Nat} {ino : Inode} (hd : s.openFiles d = none)
    (hlt : d < maxOpenFiles) (hp : s.files p = some ⟨some i, 0, 0⟩) (hino : s.inodes i = some ino)
    (hnew : ∀ e, s.openFiles e ≠ some p) :
    FsInv (s.installed d p) ∧ s.view.desc d = none ∧ (s.installed d p).view
      = if (s.bytesOf i).isSome then s.view.opened d i else s.view := by
  have hself : (s.installed d p).openFiles d = some p := Function.update_self ..
  have hother : ∀ e, e ≠ d → (s.installed d p).openFiles e = s.openFiles e := fun e he =>
    Function.update_of_ne he ..
  have hnone : s.view.desc d = none := by
    show s.descOf d = none
    rw [descOf, vfsGetFile, if_neg (by omega), Int.toNat_natCast, hd]
    rfl
  refine ⟨⟨hi.inode, hi.slot, ?_, ?_⟩, hnone, ?_⟩
  · intro e q hq
    by_cases he : e = d
    · subst he
      rw [hself] at hq
      obtain rfl := Option.some.inj hq
      exact ⟨_, i, hp, rfl, ino, hino⟩
    · exact hi.file e q ((hother e he).symm.trans hq)
  · intro e e' q he he'
    by_cases h1 : e = d
    · by_cases h2 : e' = d
      · rw [h1, h2]
      · subst h1
        rw [hself] at he
        rw [hother e' h2] at he'
        exact absurd (he'.trans he.symm) (hnew e')
    · by_cases h2 : e' = d
      · subst h2
        rw [hself] at he'
        rw [hother e h1] at he
        exact absurd (he.trans he'.symm) (hnew e)
      · exact hi.own e e' q ((hother e h1).symm.trans he) ((hother e' h2).symm.trans he')
  · have hbytes : (s.installed d p).bytesOf = s.bytesOf := rfl
    have hdesc : (s.installed d p).descOf
        = Function.update s.descOf d (if (s.bytesOf i).isSome then some (i, 0) else none) := by
      funext fd
      by_cases hfd : fd = d
      · subst hfd
        have hget : (s.installed d p).vfsGetFile d = some p := by
          rw [vfsGetFile, if_neg (by omega), Int.toNat_natCast, hself]
        have hfile : (s.installed d p).files p = some ⟨some i, 0, 0⟩ := hp
        rw [Function.update_self, descOf, hget, Option.bind_some, hfile]
        rfl
      · rw [Function.update_of_ne hfd]
        have hget : (s.installed d p).vfsGetFile fd = s.vfsGetFile fd := by
          unfold vfsGetFile
          split
          · rfl
          · exact hother fd.toNat (by omega)
        rw [descOf, descOf, hget]
        rfl
    unfold view
    rw [hbytes, hdesc]
    split
    · rfl
    · have hsame : Function.update s.descOf (d : Int) none = s.descOf :=
        Function.update_eq_self_iff.mpr hnone.symm
      rw [hsame]

/-- Where `vfs_open` comes back. -/
theorem vfsOpen_cases {node answer : Option Nat} {ret : Int} (h : s.vfsOpen node answer = (ret, s')) :
    (ret = -1 ∧ s' = s ∧ ∀ i p, node = some i → answer ≠ some p) ∨
    ∃ i p, node = some i ∧ answer = some p ∧
      ((∀ d < maxOpenFiles, s.openFiles d ≠ none) ∧ ret = -1 ∧ s' = s.setOpen p ⟨some i, 0, 0⟩ ∨
        ∃ d < maxOpenFiles, s.openFiles d = none ∧ (∀ e < d, s.openFiles e ≠ none) ∧ ret = d ∧
          s' = (s.setOpen p ⟨some i, 0, 0⟩).installed d p) := by
  cases node with
  | none =>
      obtain ⟨rfl, rfl⟩ := Prod.mk.inj h
      exact Or.inl ⟨rfl, rfl, fun _ _ hi => by cases hi⟩
  | some i =>
      cases answer with
      | none =>
          obtain ⟨rfl, rfl⟩ := Prod.mk.inj h
          exact Or.inl ⟨rfl, rfl, fun _ _ _ => by simp⟩
      | some p =>
          refine Or.inr ⟨i, p, rfl, rfl, ?_⟩
          change installLoop p maxOpenFiles 0 (s.setOpen p ⟨some i, 0, 0⟩) = (ret, s') at h
          rcases installLoop_cases (s := s.setOpen p ⟨some i, 0, 0⟩) p maxOpenFiles 0 with
            ⟨htaken, hfull⟩ | ⟨d, -, hlt, hd, htaken, hok⟩
          · obtain ⟨rfl, rfl⟩ := Prod.mk.inj (hfull.symm.trans h)
            exact Or.inl ⟨fun d hlt => htaken d (Nat.zero_le d) (by omega), rfl, rfl⟩
          · obtain ⟨rfl, rfl⟩ := Prod.mk.inj (hok.symm.trans h)
            exact Or.inr ⟨d, by omega, hd, fun e he => htaken e (Nat.zero_le e) he, rfl, rfl⟩

/-- **`vfs_open`** gives a new descriptor at the start of the file, or none. -/
theorem FsInv.vfsOpen (hi : FsInv s) {node answer : Option Nat} {ret : Int}
    (hnode : ∀ i, node = some i → ∃ ino, s.inodes i = some ino)
    (hfresh : ∀ p, answer = some p → s.files p = none) (h : s.vfsOpen node answer = (ret, s')) :
    FsInv s' ∧ (ret < 0 ∧ s'.view = s.view ∨ ∃ i, node = some i ∧ 0 ≤ ret ∧ s.view.desc ret = none ∧
      s'.view = if (s.bytesOf i).isSome then s.view.opened ret i else s.view) := by
  rcases vfsOpen_cases h with ⟨rfl, rfl, -⟩ | ⟨i, p, rfl, rfl, hcases⟩
  · exact ⟨hi, Or.inl ⟨by decide, rfl⟩⟩
  · obtain ⟨ino, hino⟩ := hnode i rfl
    have hp := hfresh p rfl
    obtain ⟨hi₁, hview₁⟩ := hi.newFile hp ⟨some i, 0, 0⟩
    rcases hcases with ⟨-, rfl, rfl⟩ | ⟨d, hlt, hd, -, rfl, rfl⟩
    · exact ⟨hi₁, Or.inl ⟨by decide, hview₁⟩⟩
    · have hnew : ∀ e, (s.setOpen p ⟨some i, 0, 0⟩).openFiles e ≠ some p := by
        intro e he
        obtain ⟨f, -, hf, -⟩ := hi.file e p he
        rw [hp] at hf
        cases hf
      obtain ⟨hi', hnone, hview⟩ := hi₁.installed hd hlt (Function.update_self ..) hino hnew
      rw [hview₁] at hnone hview
      exact ⟨hi', Or.inr ⟨i, rfl, Int.natCast_nonneg d, hnone, hview⟩⟩

/-! ### Runs -/

/-- A call, with what it was given and what it came back with. -/
inductive Event where
  /-- `ramfs_create`, with the mode and what `malloc` gave. -/
  | create (mode : Nat) (answer : Option Nat) (ret : Int)
  /-- `vfs_open`, with what `vfs_lookup` and `malloc` gave. -/
  | openFile (node answer : Option Nat) (ret : Int)
  | read (fd : Int) (buf : Buf) (len : Nat) (ret : Int) (buf' : Buf)
  | write (fd : Int) (buf : Buf) (len : Nat) (answer : Option Buf) (ret : Int) (buf' : Buf)

/-- What a `vfs_write` may ask for: no file is to reach 2 GiB. -/
def Small (s : Fs) (fd : Int) (len : Nat) : Prop :=
  ∀ i off, s.descOf fd = some (i, off) → off + len < 2 ^ 31

/-- A call of the kernel, one that comes back.  `malloc` gives out what is not in use. -/
inductive Step (ramfsMaxFiles : Nat) : Fs → Event → Fs → Prop
  | create {s s' : Fs} {mode : Nat} {answer : Option Nat} {ret : Int}
      (hfresh : ∀ p, answer = some p → s.inodes p = none)
      (h : s.ramfsCreate ramfsMaxFiles mode answer = some (ret, s')) :
      Step ramfsMaxFiles s (.create mode answer ret) s'
  | openFile {s s' : Fs} {node answer : Option Nat} {ret : Int}
      (hnode : ∀ i, node = some i → ∃ ino, s.inodes i = some ino)
      (hfresh : ∀ p, answer = some p → s.files p = none) (h : s.vfsOpen node answer = (ret, s')) :
      Step ramfsMaxFiles s (.openFile node answer ret) s'
  | read {s s' : Fs} {fd : Int} {buf buf' : Buf} {len : Nat} {ret : Int} (hlen : len < 2 ^ 31)
      (h : s.vfsRead fd buf len = some (ret, buf', s')) :
      Step ramfsMaxFiles s (.read fd buf len ret buf') s'
  | write {s s' : Fs} {fd : Int} {buf buf' : Buf} {len : Nat} {answer : Option Buf} {ret : Int}
      (hsmall : Small s fd len) (h : s.vfsWrite fd buf len answer = some (ret, buf', s')) :
      Step ramfsMaxFiles s (.write fd buf len answer ret buf') s'

/-- The calls of a kernel since `ramfs_create()`, the last one first. -/
inductive FsRun (ramfsMaxFiles : Nat) : List Event → Fs → Prop
  | start : FsRun ramfsMaxFiles [] ramfsCreateFs
  | step {tr : List Event} {e : Event} {s s' : Fs} (hrun : FsRun ramfsMaxFiles tr s)
      (hstep : Step ramfsMaxFiles s e s') : FsRun ramfsMaxFiles (e :: tr) s'

/-- What the reference model answers.  Reading and writing are determined; which calls make a new
file or a new descriptor is left open, but not what these are. -/
inductive RefStep : Ref → Event → Ref → Prop
  | create {R : Ref} {p : Nat} (hnew : R.bytes p = none) :
      RefStep R (.create vfsModeFile (some p) 0) (R.create p)
  | createNone {R : Ref} {mode : Nat} {answer : Option Nat} {ret : Int}
      (hother : ret ≠ 0 ∨ mode ≠ vfsModeFile) : RefStep R (.create mode answer ret) R
  | openFile {R : Ref} {i : Nat} {answer : Option Nat} {fd : Int} {xs : List UInt8} (hfd : 0 ≤ fd)
      (hnew : R.desc fd = none) (hfile : R.bytes i = some xs) :
      RefStep R (.openFile (some i) answer fd) (R.opened fd i)
  | openNone {R : Ref} {node answer : Option Nat} {ret : Int}
      (hother : ret < 0 ∨ ∀ i, node = some i → R.bytes i = none) :
      RefStep R (.openFile node answer ret) R
  | read {R R' : Ref} {fd : Int} {buf : Buf} {len : Nat} {out : List UInt8}
      (hread : R.read fd len = some (out, R')) :
      RefStep R (.read fd buf len out.length (copied buf out)) R'
  | readNone {R : Ref} {fd : Int} {buf : Buf} {len : Nat} (hclosed : R.desc fd = none) :
      RefStep R (.read fd buf len (-1) buf) R
  | write {R R' : Ref} {fd : Int} {buf : Buf} {len : Nat} {answer : Option Buf}
      (hroom : answer = none → ¬R.Grows fd len)
      (hwrite : R.write fd (bytesFrom buf 0 len) = some R') :
      RefStep R (.write fd buf len answer len buf) R'
  | writeFull {R : Ref} {fd : Int} {buf : Buf} {len : Nat} (hgrow : R.Grows fd len) :
      RefStep R (.write fd buf len none (-1) buf) R
  | writeNone {R : Ref} {fd : Int} {buf : Buf} {len : Nat} {answer : Option Buf}
      (hclosed : R.desc fd = none) : RefStep R (.write fd buf len answer (-1) buf) R

/-- Runs of the reference model, from no files and no descriptors. -/
inductive RefRun : List Event → Ref → Prop
  | start : RefRun [] ⟨fun _ => none, fun _ => none⟩
  | step {tr : List Event} {e : Event} {R R' : Ref} (hrun : RefRun tr R) (hstep : RefStep R e R') :
      RefRun (e :: tr) R'

/-- **The no-gap invariant** of the reference model. -/
theorem RefStep.inBounds {R R' : Ref} {e : Event} (h : RefStep R e R') (hb : R.InBounds) :
    R'.InBounds := by
  cases h with
  | create hnew => exact hb.create hnew
  | createNone => exact hb
  | openFile _ _ hfile => exact hb.opened hfile
  | openNone => exact hb
  | read hread => exact hb.read hread
  | readNone => exact hb
  | write _ hwrite => exact hb.write hwrite
  | writeFull => exact hb
  | writeNone => exact hb

theorem RefRun.inBounds {R : Ref} {tr : List Event} (h : RefRun tr R) : R.InBounds := by
  induction h with
  | start =>
      intro d i off hd
      cases hd
  | step _ hstep ih => exact hstep.inBounds ih

theorem inodes_start (i : Nat) :
    ramfsCreateFs.inodes i = if i = 0 then some rootInode else none := by
  unfold ramfsCreateFs
  exact Function.update_apply (fun _ => none) 0 (some rootInode) i

theorem fsInv_start : FsInv ramfsCreateFs where
  inode i ino h := by
    rw [inodes_start] at h
    split at h
    · obtain rfl := Option.some.inj h
      exact Or.inl rfl
    · cases h
  slot _ _ h := nomatch h
  file _ _ h := nomatch h
  own _ _ _ h := nomatch h

theorem view_start : ramfsCreateFs.view = ⟨fun _ => none, fun _ => none⟩ := by
  have hbytes : ramfsCreateFs.bytesOf = fun _ => none := by
    funext i
    rw [bytesOf, slotOf, inodes_start]
    split <;> rfl
  have hdesc : ramfsCreateFs.descOf = fun _ => none := by
    funext fd
    rw [descOf, vfsGetFile]
    split <;> rfl
  unfold view
  rw [hbytes, hdesc]

/-- **Each call is one of the reference model.** -/
theorem FsInv.step {n : Nat} (hi : FsInv s) (hb : s.view.InBounds) {e : Event}
    (h : Step n s e s') : FsInv s' ∧ RefStep s.view e s'.view := by
  cases h with
  | create hfresh h =>
      obtain ⟨hi', ⟨hne, hview⟩ | ⟨p, rfl, rfl, hview⟩⟩ := hi.createLoop hfresh h
      · rw [hview]
        exact ⟨hi', .createNone (Or.inl hne)⟩
      · refine ⟨hi', ?_⟩
        rw [hview]
        split
        · rename_i hmode
          subst hmode
          apply RefStep.create
          show s.bytesOf p = none
          rw [bytesOf, slotOf, hfresh p rfl]
          rfl
        · rename_i hmode
          exact .createNone (Or.inr hmode)
  | openFile hnode hfresh h =>
      obtain ⟨hi', ⟨hlt, hview⟩ | ⟨i, rfl, hge, hnone, hview⟩⟩ := hi.vfsOpen hnode hfresh h
      · rw [hview]
        exact ⟨hi', .openNone (Or.inl hlt)⟩
      · refine ⟨hi', ?_⟩
        rw [hview]
        split
        · rename_i hsome
          obtain ⟨xs, hxs⟩ := Option.isSome_iff_exists.mp hsome
          exact .openFile hge hnone hxs
        · rename_i hnot
          refine .openNone (Or.inr fun j hj => ?_)
          obtain rfl := Option.some.inj hj
          exact Option.not_isSome_iff_eq_none.mp hnot
  | @read _ fd buf buf' len ret hlen h =>
      rcases hi.vfsRead hb hlen fd buf with ⟨hclosed, hcall⟩ | ⟨out, t, hread, hi', hcall⟩
      · obtain ⟨rfl, rfl, rfl⟩ : (-1 : Int) = ret ∧ buf = buf' ∧ s = s' := by simpa [hcall] using h
        exact ⟨hi, .readNone hclosed⟩
      · obtain ⟨rfl, rfl, rfl⟩ : (out.length : Int) = ret ∧ copied buf out = buf' ∧ t = s' := by
          simpa [hcall] using h
        exact ⟨hi', .read hread⟩
  | @write _ fd buf buf' len answer ret hsmall h =>
      rcases hi.vfsWrite hb hsmall buf answer with
        ⟨hclosed, hcall⟩ | ⟨hgrow, rfl, hcall⟩ | ⟨t, hwrite, hroom, hi', hcall⟩
      · obtain ⟨rfl, rfl, rfl⟩ : (-1 : Int) = ret ∧ buf = buf' ∧ s = s' := by simpa [hcall] using h
        exact ⟨hi, .writeNone hclosed⟩
      · obtain ⟨rfl, rfl, rfl⟩ : (-1 : Int) = ret ∧ buf = buf' ∧ s = s' := by simpa [hcall] using h
        exact ⟨hi, .writeFull hgrow⟩
      · obtain ⟨rfl, rfl, rfl⟩ : (len : Int) = ret ∧ buf = buf' ∧ t = s' := by simpa [hcall] using h
        exact ⟨hi', .write hroom hwrite⟩

theorem FsRun.inv {n : Nat} {tr : List Event} (h : FsRun n tr s) : FsInv s ∧ RefRun tr s.view := by
  induction h with
  | start => exact ⟨fsInv_start, view_start ▸ RefRun.start⟩
  | step _ hstep ih =>
      obtain ⟨hi, href⟩ := ih
      obtain ⟨hi', hstep'⟩ := hi.step href.inBounds hstep
      exact ⟨hi', href.step hstep'⟩

/-- What the reference model says about a state of the kernel, and what it does not see. -/
structure Refines (s : Fs) (tr : List Event) : Prop where
  /-- The calls so far, with their results and buffers, are a run of the reference model. -/
  run : RefRun tr s.view
  /-- No offset is beyond the end of its file. -/
  inBounds : s.view.InBounds
  /-- A further call comes back, and accesses no byte outside of a block. -/
  reads : ∀ fd buf len, len < 2 ^ 31 → ∃ r, s.vfsRead fd buf len = some r
  writes : ∀ fd buf len answer, Small s fd len → ∃ r, s.vfsWrite fd buf len answer = some r
  /-- A write that fails leaves every field as it is. -/
  failed : ∀ fd buf len answer s' buf', Small s fd len →
    s.vfsWrite fd buf len answer = some (-1, buf', s') → s' = s ∧ buf' = buf

/-- **File streams refine byte arrays.** -/
theorem FsRun.same_streams {n : Nat} {tr : List Event} (h : FsRun n tr s) : Refines s tr := by
  obtain ⟨hi, href⟩ := h.inv
  have hb := href.inBounds
  refine ⟨href, hb, ?_, ?_, ?_⟩
  · intro fd buf len hlen
    rcases hi.vfsRead hb hlen fd buf with ⟨-, hcall⟩ | ⟨out, t, -, -, hcall⟩
    · exact ⟨_, hcall⟩
    · exact ⟨_, hcall⟩
  · intro fd buf len answer hsmall
    rcases hi.vfsWrite hb hsmall buf answer with ⟨-, hcall⟩ | ⟨-, -, hcall⟩ | ⟨t, -, -, -, hcall⟩
    · exact ⟨_, hcall⟩
    · exact ⟨_, hcall⟩
    · exact ⟨_, hcall⟩
  · intro fd buf len answer s' buf' hsmall hfail
    rcases hi.vfsWrite hb hsmall buf answer with ⟨-, hcall⟩ | ⟨-, -, hcall⟩ | ⟨t, -, -, -, hcall⟩
    · obtain ⟨rfl, rfl⟩ : buf = buf' ∧ s = s' := by simpa [hcall] using hfail
      exact ⟨rfl, rfl⟩
    · obtain ⟨rfl, rfl⟩ : buf = buf' ∧ s = s' := by simpa [hcall] using hfail
      exact ⟨rfl, rfl⟩
    · rw [hcall] at hfail
      have hret : (len : Int) = -1 := (Prod.mk.inj (Option.some.inj hfail)).1
      omega

/-- One file under two descriptors, and two bytes written through one of them. -/
theorem same_streams_twoDescriptors :
    ∃ tr s, FsRun 64 (.write 0 (fun _ => 7) 2 (some fun _ => 1) 2 (fun _ => 7) :: tr) s ∧
      Refines s (.write 0 (fun _ => 7) 2 (some fun _ => 1) 2 (fun _ => 7) :: tr) := by
  have hfile : FsRun 64 [.create vfsModeFile (some 1) 0] _ :=
    FsRun.start.step (.create (fun p hp => by cases hp; rfl) rfl)
  have hfirst : FsRun 64 [.openFile (some 1) (some 1) 0, .create vfsModeFile (some 1) 0] _ :=
    hfile.step (.openFile (fun i hi => by cases hi; exact ⟨_, rfl⟩) (fun p hp => by cases hp; rfl) rfl)
  have hsecond : FsRun 64 [.openFile (some 1) (some 2) 1, .openFile (some 1) (some 1) 0,
      .create vfsModeFile (some 1) 0] _ :=
    hfirst.step (.openFile (fun i hi => by cases hi; exact ⟨_, rfl⟩) (fun p hp => by cases hp; rfl) rfl)
  have hwrite : FsRun 64 [.write 0 (fun _ => 7) 2 (some fun _ => 1) 2 (fun _ => 7),
      .openFile (some 1) (some 2) 1, .openFile (some 1) (some 1) 0,
      .create vfsModeFile (some 1) 0] _ :=
    hsecond.step (.write (fun i off hd => by cases hd; decide) rfl)
  exact ⟨_, _, hwrite, hwrite.same_streams⟩

end SystemN.Fs
