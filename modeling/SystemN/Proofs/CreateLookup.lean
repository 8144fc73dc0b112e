/-
Whether a file that `vfs_create` has made can be looked up.

Slots are taken in order and never given back, so what a lookup has found it finds again: a new
file comes behind all others.  For the same reason the new file is not found if another one has
its name.  And creation takes all of the path behind its first byte for the name, where lookup
splits it at the slashes and wants one in front; and a name of 64 bytes or more is stored
without its end.
-/
import SystemN.Proofs.Lookup

namespace SystemN

open CString

/-! ### Lookups in general -/

namespace FileSystem

variable {ι : Type} {fs fs' : FileSystem ι} {e : ι}

/-- `fs'` has everything that `fs` has. -/
structure Extends (fs fs' : FileSystem ι) : Prop where
  root : fs'.root = fs.root
  mode : ∀ e m, fs.mode e = some m → fs'.mode e = some m
  lookup : ∀ e c e', fs.lookup e c = some (some e') → fs'.lookup e c = some (some e')

theorem Extends.lookupLoop (h : Extends fs fs') {n : Nat} {token : Option (List UInt8)} {curr : Option ι}
    {saved : List UInt8} (hfound : fs.lookupLoop n token curr saved = some (some e)) :
    fs'.lookupLoop n token curr saved = some (some e) := by
  induction n generalizing token curr saved with
  | zero => cases hfound
  | succ n ih =>
      cases token with
      | none =>
          rw [lookupLoop_done] at hfound ⊢
          exact hfound
      | some t =>
          cases curr with
          | none => cases hfound
          | some dir =>
              rw [FileSystem.lookupLoop] at hfound ⊢
              obtain ⟨m, hmode, hfound⟩ := Option.bind_eq_some_iff.mp hfound
              simp only [h.mode _ _ hmode, Option.bind_eq_bind, Option.bind_some]
              split at hfound
              · next hdir =>
                  obtain ⟨curr, hcurr, hfound⟩ := Option.bind_eq_some_iff.mp hfound
                  obtain ⟨⟨token, saved'⟩, htok, hfound⟩ := Option.bind_eq_some_iff.mp hfound
                  cases curr with
                  | none =>
                      -- nothing is found below nothing
                      cases n with
                      | zero => cases hfound
                      | succ n =>
                          cases token with
                          | none => cases hfound
                          | some t' => cases hfound
                  | some e' =>
                      rw [if_pos hdir, h.lookup _ _ _ hcurr, Option.bind_some, htok]
                      exact ih hfound
              · next hdir =>
                  rw [if_neg hdir]
                  exact hfound

/-- What is found is the root, or has been found by a name that can be a token. -/
theorem lookupLoop_found {n : Nat} {token : Option (List UInt8)} {curr : Option ι} {saved : List UInt8}
    (htoken : ∀ t, token = some t → t ≠ [] ∧ slash ∉ t ∧ 0 ∉ t)
    (hfound : fs.lookupLoop n token curr saved = some (some e)) :
    curr = some e ∨ ∃ dir t, (t ≠ [] ∧ slash ∉ t ∧ 0 ∉ t) ∧ fs.lookup dir t = some (some e) := by
  induction n generalizing token curr saved with
  | zero => cases hfound
  | succ n ih =>
      cases token with
      | none =>
          rw [lookupLoop_done] at hfound
          exact Or.inl (Option.some.inj hfound)
      | some t =>
          cases curr with
          | none => cases hfound
          | some dir =>
              rw [FileSystem.lookupLoop] at hfound
              obtain ⟨m, -, hfound⟩ := Option.bind_eq_some_iff.mp hfound
              split at hfound
              · obtain ⟨curr, hcurr, hfound⟩ := Option.bind_eq_some_iff.mp hfound
                obtain ⟨⟨token, saved'⟩, htok, hfound⟩ := Option.bind_eq_some_iff.mp hfound
                rcases ih (fun t' ht' => strtok_token (ht' ▸ htok)) hfound with rfl | hname
                · exact Or.inr ⟨dir, t, htoken t rfl, hcurr⟩
                · exact Or.inr hname
              · exact Or.inl (Option.some.inj hfound)

theorem Extends.vfsLookup (h : Extends fs fs') {path : Option Buf}
    (hfound : SystemN.vfsLookup (some fs) path = some (some e)) :
    SystemN.vfsLookup (some fs') path = some (some e) := by
  cases path with
  | none => cases hfound
  | some path =>
      unfold SystemN.vfsLookup at hfound ⊢
      simp only at hfound ⊢
      split at hfound
      · cases hfound
      · next habs =>
          obtain ⟨⟨token, saved⟩, htok, hfound⟩ := Option.bind_eq_some_iff.mp hfound
          rw [if_neg habs, htok, h.root]
          exact h.lookupLoop hfound

theorem vfsLookup_found {path : Buf} (hfound : vfsLookup (some fs) (some path) = some (some e)) :
    path 0 = slash ∧
      (fs.root = e ∨ ∃ dir t, (t ≠ [] ∧ slash ∉ t ∧ 0 ∉ t) ∧ fs.lookup dir t = some (some e)) := by
  unfold vfsLookup at hfound
  simp only at hfound
  split at hfound
  · cases hfound
  · next habs =>
      obtain ⟨⟨token, saved⟩, htok, hfound⟩ := Option.bind_eq_some_iff.mp hfound
      refine ⟨not_not.mp habs, ?_⟩
      have htoken : ∀ t, token = some t → t ≠ [] ∧ slash ∉ t ∧ 0 ∉ t :=
        fun t ht => strtok_token (ht ▸ htok)
      rcases lookupLoop_found htoken hfound with hroot | hname
      · exact Or.inl (Option.some.inj hroot)
      · exact Or.inr hname

/-- A path with one component is looked up in the root. -/
theorem vfsLookup_single {path : Buf} {cs t : List UInt8} {mode : Nat} {r : Option ι}
    (hpath : IsString path cs) (hlen : cs.length < maxPathLen) (habs : cs.head? = some slash)
    (hcomp : components slash cs = [t]) (hmode : fs.mode fs.root = some mode)
    (hdir : mode &&& vfsModeDir ≠ 0) (hlookup : fs.lookup fs.root t = some r) :
    SystemN.vfsLookup (some fs) (some path) = some r := by
  obtain ⟨tail, htemp⟩ := strncpy_of_lt hpath hlen
  unfold SystemN.vfsLookup
  simp only
  rw [if_neg (not_not.mpr (hpath.head habs)), htemp]
  rcases strtok_string (d := slash) (by decide) hpath.noNul tail with
    ⟨hnone, -⟩ | ⟨t', rest, hsplit, hrest, -, htok⟩
  · rw [hcomp] at hnone
    cases hnone
  · rw [hcomp] at hsplit
    obtain ⟨rfl, hend⟩ := List.cons.inj hsplit
    rcases strtok_string (d := slash) (by decide) hrest tail with
      ⟨-, htok'⟩ | ⟨t', rest', hsplit', -⟩
    · simp only [htok, Option.bind_eq_bind, Option.bind_some]
      rw [FileSystem.lookupLoop]
      simp only [hmode, hlookup, htok', Option.bind_eq_bind, Option.bind_some]
      rw [if_pos hdir, lookupLoop_done]
    · rw [← hend] at hsplit'
      cases hsplit'

end FileSystem

namespace Ramfs

variable {s s' : Ramfs} {name path : Buf} {cs t : List UInt8} {answer : Option Nat} {mode m n i k p : Nat}

/-! ### The table -/

/-- The slots before `m` are in use, and no others; the inode of slot `k` has the number `k + 1`. -/
structure Filled (s : Ramfs) (m : Nat) : Prop where
  le : m ≤ maxOpenFiles
  mounted : s.mounted = true
  next : s.fs.nextInodeNo = m + 1
  free : ∀ k, m ≤ k → (s.fs.fileTable k).inode = none
  used : ∀ k < m, ∃ p mode, (s.fs.fileTable k).inode = some p ∧
    s.fs.inodes p = some ⟨k + 1, 0, mode, some k⟩
  names : ∀ k < m, (s.names k).length = maxNameLen
  /-- There are no other inodes. -/
  inodes : ∀ p ino, s.fs.inodes p = some ino →
    p = 0 ∧ ino = Fs.rootInode ∨ ∃ k < m, (s.fs.fileTable k).inode = some p
  root : s.fs.inodes 0 = some Fs.rootInode

theorem Filled.used_iff (h : s.Filled m) : (s.fs.fileTable k).inode ≠ none ↔ k < m := by
  constructor
  · intro hused
    by_contra hle
    exact hused (h.free k (Nat.not_lt.mp hle))
  · intro hlt hnone
    obtain ⟨p, mode, hp, -⟩ := h.used k hlt
    rw [hnone] at hp
    cases hp

/-- The numbers of the inodes are no greater than that of slots in use. -/
theorem Filled.inodeNo_le (h : s.Filled m) {ino : Inode} (hino : s.fs.inodes p = some ino) :
    ino.inodeNo ≤ m := by
  rcases h.inodes p ino hino with ⟨-, rfl⟩ | ⟨k, hk, hslot⟩
  · exact Nat.zero_le m
  · obtain ⟨p', mode, hp', hino'⟩ := h.used k hk
    obtain rfl := Option.some.inj (hslot.symm.trans hp')
    rw [← Option.some.inj (hino'.symm.trans hino)]
    exact hk

/-- The state once slot `m` has been filled in, but for its inode. -/
def prepared (s : Ramfs) (m : Nat) (name : Buf) (mode : Nat) : Ramfs :=
  { s with
    names := Function.update s.names m (strncpy name maxNameLen)
    fs := s.fs.setFile m { s.fs.fileTable m with mode := mode, data := [], size := 0 } }

/-- The state once it has one, at `p`. -/
def created (s : Ramfs) (m : Nat) (name : Buf) (mode p : Nat) : Ramfs :=
  let t := s.prepared m name mode
  let fs := { t.fs with nextInodeNo := u64 (t.fs.nextInodeNo + 1) }
  { t with
    fs := (fs.setInode p ⟨t.fs.nextInodeNo, 0, mode, some m⟩).setFile m
      { t.fs.fileTable m with inode := some p } }

/-- **`ramfs_create`** takes the first slot that is not in use. -/
theorem createLoop_eq (h : s.Filled m) (hi : i ≤ m) (hn : i + n = maxOpenFiles) :
    createLoop name mode answer n i s =
      if m = maxOpenFiles then (-1, s)
      else match answer with
        | none => (-1, s.prepared m name mode)
        | some p => (0, s.created m name mode p) := by
  induction n generalizing i with
  | zero =>
      have := h.le
      rw [createLoop, if_pos (by omega)]
  | succ n ih =>
      rw [createLoop]
      rcases Nat.lt_or_eq_of_le hi with hlt | rfl
      · rw [if_neg (h.used_iff.mpr hlt)]
        exact ih hlt (by omega)
      · rw [if_pos (h.free i (Nat.le_refl i)), if_neg (by omega)]
        cases answer with
        | none => rfl
        | some p =>
            have hself : (s.prepared i name mode).fs.fileTable i =
                { s.fs.fileTable i with mode := mode, data := [], size := 0 } :=
              Function.update_self ..
            simp only [created, hself]
            rfl

theorem vfsCreate_eq (h : s.Filled m) :
    s.vfsCreate (some path) mode answer =
      if m = maxOpenFiles then (-1, s)
      else match answer with
        | none => (-1, s.prepared m (fun i => path (i + 1)) mode)
        | some p => (0, s.created m (fun i => path (i + 1)) mode p) := by
  rw [vfsCreate, if_pos h.mounted]
  exact createLoop_eq h (Nat.zero_le m) (Nat.zero_add _)

theorem Filled.prepared (h : s.Filled m) : (s.prepared m name mode).Filled m := by
  have hother : ∀ k, k ≠ m → (s.prepared m name mode).fs.fileTable k = s.fs.fileTable k :=
    fun k hk => Function.update_of_ne hk ..
  have hinode : ∀ k, ((s.prepared m name mode).fs.fileTable k).inode = (s.fs.fileTable k).inode := by
    intro k
    by_cases hk : k = m
    · subst hk
      rw [show (s.prepared k name mode).fs.fileTable k = _ from Function.update_self ..]
    · rw [hother k hk]
  refine ⟨h.le, h.mounted, h.next, fun k hk => ?_, fun k hk => ?_, fun k hk => ?_, fun p ino hino => ?_,
    h.root⟩
  · rw [hinode]
    exact h.free k hk
  · rw [hinode]
    exact h.used k hk
  · rw [show (s.prepared m name mode).names k = s.names k from Function.update_of_ne (Nat.ne_of_lt hk) ..]
    exact h.names k hk
  · rcases h.inodes p ino hino with hroot | ⟨k, hk, hslot⟩
    · exact Or.inl hroot
    · exact Or.inr ⟨k, hk, (hinode k).trans hslot⟩

/-! What the new file changes, and what not. -/

theorem created_inode : ((s.created m name mode p).fs.fileTable m).inode = some p := by
  rw [show (s.created m name mode p).fs.fileTable m = _ from Function.update_self ..]

theorem created_other (hk : k ≠ m) :
    (s.created m name mode p).fs.fileTable k = s.fs.fileTable k :=
  (Function.update_of_ne hk ..).trans (Function.update_of_ne hk ..)

theorem created_name : (s.created m name mode p).names m = strncpy name maxNameLen :=
  Function.update_self ..

theorem created_otherName (hk : k ≠ m) : (s.created m name mode p).names k = s.names k :=
  Function.update_of_ne hk ..

theorem created_inodes (q : Nat) :
    (s.created m name mode p).fs.inodes q =
      if q = p then some ⟨s.fs.nextInodeNo, 0, mode, some m⟩ else s.fs.inodes q :=
  Function.update_apply ..

theorem Filled.created (h : s.Filled m) (hlt : m < maxOpenFiles) (hp : s.fs.inodes p = none) :
    (s.created m name mode p).Filled (m + 1) := by
  have hold : ∀ q, q ≠ p → (s.created m name mode p).fs.inodes q = s.fs.inodes q := fun q hq =>
    (created_inodes q).trans (if_neg hq)
  have hne : ∀ q ino, s.fs.inodes q = some ino → q ≠ p := by
    rintro q ino hino rfl
    rw [hp] at hino
    cases hino
  refine ⟨hlt, h.mounted, ?_, fun k hk => ?_, fun k hk => ?_, fun k hk => ?_, fun q ino hino => ?_, ?_⟩
  · have hnext : (s.created m name mode p).fs.nextInodeNo = u64 (s.fs.nextInodeNo + 1) := rfl
    rw [hnext, h.next, u64, Nat.mod_eq_of_lt]
    simp only [maxOpenFiles] at hlt
    omega
  · rw [created_other (by omega)]
    exact h.free k (by omega)
  · by_cases hkm : k = m
    · subst hkm
      exact ⟨p, mode, created_inode, by rw [created_inodes, if_pos rfl, h.next]⟩
    · obtain ⟨q, mode', hq, hino⟩ := h.used k (by omega)
      refine ⟨q, mode', ?_, ?_⟩
      · rw [created_other hkm]
        exact hq
      · rw [hold q (hne q _ hino)]
        exact hino
  · by_cases hkm : k = m
    · rw [hkm, created_name, length_strncpy]
    · rw [created_otherName hkm]
      exact h.names k (by omega)
  · by_cases hq : q = p
    · exact Or.inr ⟨m, Nat.lt_succ_self m, hq ▸ created_inode⟩
    · rw [hold q hq] at hino
      rcases h.inodes q ino hino with hroot | ⟨k, hk, hslot⟩
      · exact Or.inl hroot
      · refine Or.inr ⟨k, Nat.lt_succ_of_lt hk, ?_⟩
        rw [created_other (Nat.ne_of_lt hk)]
        exact hslot
  · rw [hold 0 (hne 0 _ h.root)]
    exact h.root

/-- The states that calls of `vfs_create` lead to, once `ramfs` has been mounted. -/
inductive Reached : Ramfs → Prop
  | start : Reached ramfsCreateFs.vfsMount.2
  | create {s : Ramfs} {path : Option Buf} {mode : Nat} {answer : Option Nat} (hrun : Reached s)
      (hfresh : ∀ p, answer = some p → s.fs.inodes p = none) :
      Reached (s.vfsCreate path mode answer).2

theorem filled_start : ramfsCreateFs.vfsMount.2.Filled 0 := by
  refine ⟨Nat.zero_le _, rfl, rfl, fun k _ => rfl, fun k hk => absurd hk (Nat.not_lt_zero k),
    fun k hk => absurd hk (Nat.not_lt_zero k), fun p ino hino => Or.inl ?_, rfl⟩
  have hinodes : ramfsCreateFs.vfsMount.2.fs.inodes p = if p = 0 then some Fs.rootInode else none :=
    Function.update_apply (fun _ => none) 0 (some Fs.rootInode) p
  rw [hinodes] at hino
  split at hino
  · next hp => exact ⟨hp, (Option.some.inj hino).symm⟩
  · cases hino

theorem Reached.filled (h : Reached s) : ∃ m, s.Filled m := by
  induction h with
  | start => exact ⟨0, filled_start⟩
  | @create s path mode answer _ hfresh ih =>
      obtain ⟨m, hm⟩ := ih
      cases path with
      | none => exact ⟨m, hm⟩
      | some path =>
          rw [vfsCreate_eq hm]
          by_cases hfull : m = maxOpenFiles
          · rw [if_pos hfull]
            exact ⟨m, hm⟩
          · rw [if_neg hfull]
            cases answer with
            | none => exact ⟨m, hm.prepared⟩
            | some p => exact ⟨m + 1, hm.created (Nat.lt_of_le_of_ne hm.le hfull) (hfresh p rfl)⟩

/-! ### Finding a name -/

/-- The loop of `ramfs_find` goes on behind slot `j`: it is free, or its name is another one. -/
def Passes (s : Ramfs) (t : List UInt8) (j : Nat) : Prop :=
  (s.fs.fileTable j).inode ≠ none → ∃ diff, diff ≠ 0 ∧ strcmp (s.names j) t = some diff

/-- From slot `i` on, the loop stops at slot `k`, which has the name. -/
structure StopsAt (s : Ramfs) (t : List UInt8) (i k : Nat) : Prop where
  le : i ≤ k
  used : (s.fs.fileTable k).inode ≠ none
  named : strcmp (s.names k) t = some 0
  before : ∀ j, i ≤ j → j < k → s.Passes t j

theorem StopsAt.not_passes (h : s.StopsAt t i k) : ¬s.Passes t k := by
  intro hpass
  obtain ⟨diff, hdiff, hcmp⟩ := hpass h.used
  exact hdiff (Option.some.inj (hcmp.symm.trans h.named))

theorem stopsAt_succ (hpass : s.Passes t i) : s.StopsAt t (i + 1) k ↔ s.StopsAt t i k := by
  constructor
  · intro h
    refine ⟨Nat.le_of_succ_le h.le, h.used, h.named, fun j hij hjk => ?_⟩
    rcases Nat.eq_or_lt_of_le hij with rfl | hlt
    · exact hpass
    · exact h.before j hlt hjk
  · intro h
    have hne : i ≠ k := by
      rintro rfl
      exact h.not_passes hpass
    exact ⟨Nat.lt_of_le_of_ne h.le hne, h.used, h.named, fun j hij => h.before j (Nat.le_of_succ_le hij)⟩

/-- A slot in use that does not let the loop pass is the last it looks at. -/
theorem StopsAt.eq_of_not_passes (h : s.StopsAt t i k) (hstop : ¬s.Passes t i) : i = k := by
  by_contra hne
  exact hstop (h.before i (Nat.le_refl i) (Nat.lt_of_le_of_ne h.le hne))

theorem findLoop_eq_some :
    s.findLoop t n i = some (some k) ↔ k < i + n ∧ s.StopsAt t i k := by
  induction n generalizing i with
  | zero =>
      refine ⟨nofun, fun h => ?_⟩
      have := h.2.le
      omega
  | succ n ih =>
      have hrest : s.Passes t i → (s.findLoop t n (i + 1) = some (some k) ↔
          k < i + (n + 1) ∧ s.StopsAt t i k) := by
        intro hpass
        rw [ih, stopsAt_succ hpass, show i + 1 + n = i + (n + 1) by omega]
      rw [findLoop]
      by_cases hused : (s.fs.fileTable i).inode ≠ none
      · rw [if_pos hused]
        cases hcmp : strcmp (s.names i) t with
        | none =>
            -- a name that does not end in time
            refine ⟨nofun, fun ⟨_, h⟩ => ?_⟩
            have hstop : ¬s.Passes t i := by
              intro hpass
              obtain ⟨diff, -, hdiff⟩ := hpass hused
              rw [hcmp] at hdiff
              cases hdiff
            obtain rfl := h.eq_of_not_passes hstop
            have := h.named
            rw [hcmp] at this
            cases this
        | some diff =>
            simp only [Option.bind_eq_bind, Option.bind_some]
            by_cases hzero : diff = 0
            · rw [if_pos hzero]
              rw [hzero] at hcmp
              have hhere : s.StopsAt t i i :=
                ⟨Nat.le_refl i, hused, hcmp, fun j hij hji => absurd hij (Nat.not_le.mpr hji)⟩
              constructor
              · intro heq
                obtain rfl := Option.some.inj (Option.some.inj heq)
                exact ⟨by omega, hhere⟩
              · rintro ⟨-, h⟩
                rw [h.eq_of_not_passes hhere.not_passes]
                rfl
            · rw [if_neg hzero]
              exact hrest fun _ => ⟨diff, hzero, hcmp⟩
      · rw [if_neg hused]
        exact hrest fun h => absurd h hused

/-- The first file named `t` is in slot `k`: no array before it holds `t`, or ends before `t` does. -/
structure FirstNamed (s : Ramfs) (m : Nat) (t : List UInt8) (k : Nat) : Prop where
  lt : k < m
  named : t ++ [0] <+: s.names k
  before : ∀ j < k, ¬s.names j <+: t ∧ ¬t ++ [0] <+: s.names j

theorem Filled.ramfsFind_iff (h : s.Filled m) : s.ramfsFind t = some (some k) ↔ s.FirstNamed m t k := by
  have hle := h.le
  rw [ramfsFind, findLoop_eq_some]
  constructor
  · rintro ⟨-, hstops⟩
    have hlt : k < m := h.used_iff.mp hstops.used
    exact ⟨hlt, strcmp_eq_zero.mp hstops.named, fun j hj =>
      strcmp_differs.mp (hstops.before j (Nat.zero_le j) hj (h.used_iff.mpr (hj.trans hlt)))⟩
  · intro hfirst
    have hlt := hfirst.lt
    exact ⟨by omega, Nat.zero_le k, h.used_iff.mpr hlt, strcmp_eq_zero.mpr hfirst.named, fun j _ hj _ =>
      strcmp_differs.mpr (hfirst.before j hj)⟩

theorem Filled.ramfsLookup_iff (h : s.Filled m) (dir : Nat) : s.ramfsLookup dir t = some (some p) ↔
    ∃ k, s.FirstNamed m t k ∧ (s.fs.fileTable k).inode = some p := by
  unfold ramfsLookup
  constructor
  · intro hfound
    obtain ⟨f, hf, hfound⟩ := Option.bind_eq_some_iff.mp hfound
    obtain ⟨k, rfl, hslot⟩ := Option.bind_eq_some_iff.mp (Option.some.inj hfound)
    exact ⟨k, h.ramfsFind_iff.mp hf, hslot⟩
  · rintro ⟨k, hfirst, hslot⟩
    rw [h.ramfsFind_iff.mpr hfirst]
    exact congrArg some hslot

/-- **What was found is found again.** -/
theorem Filled.extends_created (h : s.Filled m) (hlt : m < maxOpenFiles) (hp : s.fs.inodes p = none) :
    s.ramfsFs.Extends (s.created m name mode p).ramfsFs := by
  refine ⟨rfl, fun e v hmode => ?_, fun e c e' hfound => ?_⟩
  · obtain ⟨ino, hino, hv⟩ := Option.map_eq_some_iff.mp hmode
    refine Option.map_eq_some_iff.mpr ⟨ino, ?_, hv⟩
    rw [created_inodes, if_neg]
    · exact hino
    · rintro rfl
      rw [hp] at hino
      cases hino
  · obtain ⟨k, hfirst, hslot⟩ := (h.ramfsLookup_iff e).mp hfound
    have hk := Nat.ne_of_lt hfirst.lt
    refine ((h.created hlt hp).ramfsLookup_iff e).mpr
      ⟨k, ⟨Nat.lt_succ_of_lt hfirst.lt, ?_, fun j hj => ?_⟩, ?_⟩
    · rw [created_otherName hk]
      exact hfirst.named
    · rw [created_otherName (Nat.ne_of_lt (hj.trans hfirst.lt))]
      exact hfirst.before j hj
    · rw [created_other hk]
      exact hslot

/-! ### Finding the new file -/

/-- The path is a slash and a name without slashes that fits, and no file has it yet. -/
structure NewName (s : Ramfs) (name : List UInt8) : Prop where
  nonempty : name ≠ []
  single : slash ∉ name
  short : name.length < maxNameLen
  new : ∀ k < maxOpenFiles, (s.fs.fileTable k).inode ≠ none → ¬name ++ [0] <+: s.names k

theorem Filled.lookup_created (h : s.Filled m) (hlt : m < maxOpenFiles) (hp : s.fs.inodes p = none)
    (hpath : IsString path cs) :
    vfsLookup (some (s.created m (fun i => path (i + 1)) mode p).ramfsFs) (some path) = some (some p) ↔
      ∃ name, cs = slash :: name ∧ s.NewName name := by
  have hfilled : (s.created m (fun i => path (i + 1)) mode p).Filled (m + 1) := h.created hlt hp
  constructor
  · intro hfound
    obtain ⟨habs, hcase⟩ := FileSystem.vfsLookup_found hfound
    obtain ⟨dir, t, ⟨hne, hsingle, hnul⟩, ht⟩ := hcase.resolve_left fun hroot => by
      obtain rfl : 0 = p := hroot
      rw [h.root] at hp
      cases hp
    obtain ⟨k, hfirst, hslot⟩ := (hfilled.ramfsLookup_iff dir).mp ht
    -- the slots before the new one are those of other inodes
    have hk : k = m := by
      by_contra hkm
      have hkm' : k < m := Nat.lt_of_le_of_ne (Nat.le_of_lt_succ hfirst.lt) hkm
      obtain ⟨q, mode', hq, hino⟩ := h.used k hkm'
      rw [created_other hkm, hq] at hslot
      rw [Option.some.inj hslot, hp] at hino
      cases hino
    subst hk
    cases cs with
    | nil =>
        rw [show path 0 = 0 from hpath] at habs
        cases habs
    | cons c name =>
        obtain ⟨hc, -, hname⟩ := hpath
        have hnamed := hfirst.named
        rw [created_name, prefix_strncpy hname hnul] at hnamed
        obtain ⟨rfl, hshort⟩ := hnamed
        refine ⟨t, by rw [← hc, habs], hne, hsingle, hshort, fun j _ hj => ?_⟩
        have hjk := h.used_iff.mp hj
        have hbefore := (hfirst.before j hjk).2
        rwa [created_otherName (Nat.ne_of_lt hjk)] at hbefore
  · rintro ⟨name, rfl, hnew⟩
    have hname : IsString (fun i => path (i + 1)) name := hpath.2.2
    have hshort := hnew.short
    have hdir : vfsModeDir &&& vfsModeDir ≠ 0 := by decide
    refine FileSystem.vfsLookup_single (t := name) hpath ?_ rfl ?_ ?_ hdir ?_
    · simp only [List.length_cons, maxNameLen, maxPathLen] at *
      omega
    · rw [components_delim, components_single hnew.nonempty hnew.single]
    · refine Option.map_eq_some_iff.mpr ⟨Fs.rootInode, ?_, rfl⟩
      exact hfilled.root
    · refine (hfilled.ramfsLookup_iff 0).mpr ⟨m, ⟨Nat.lt_succ_self m, ?_, fun j hj => ?_⟩, created_inode⟩
      · rw [created_name, prefix_strncpy hname hname.noNul]
        exact ⟨rfl, hshort⟩
      · rw [created_otherName (Nat.ne_of_lt hj)]
        refine ⟨fun hprefix => ?_, hnew.new j (hj.trans hlt) (h.used_iff.mpr hj)⟩
        have hle := hprefix.length_le
        rw [h.names j hj] at hle
        omega

/-- `s'` has a new file at the path, and what has been found is found again. -/
structure FindsNew (s s' : Ramfs) (path : Buf) : Prop where
  found : ∃ p ino, vfsLookup s'.rootFs (some path) = some (some p) ∧ s.fs.inodes p = none ∧
    s'.fs.inodes p = some ino ∧ ino.size = 0 ∧
      ∀ q old, s.fs.inodes q = some old → old.inodeNo ≠ ino.inodeNo
  kept : ∀ path e, vfsLookup s.rootFs path = some (some e) → vfsLookup s'.rootFs path = some (some e)

/-- If `vfs_create` of a file at the path answers 0, then there is a new file. -/
def CreateFinds (s : Ramfs) (path : Buf) (answer : Option Nat) : Prop :=
  ∀ s', s.vfsCreate (some path) vfsModeFile answer = (0, s') → FindsNew s s' path

/-- **Create, then look up**: exactly if the creation fails, or the path is a slash and a name that
is new. -/
theorem createFinds_iff (hrun : Reached s) (hfresh : ∀ p, answer = some p → s.fs.inodes p = none)
    (hpath : IsString path cs) :
    s.CreateFinds path answer ↔ (∀ k < maxOpenFiles, (s.fs.fileTable k).inode ≠ none) ∨
      answer = none ∨ ∃ name, cs = slash :: name ∧ s.NewName name := by
  obtain ⟨m, h⟩ := hrun.filled
  have hcall : s.vfsCreate (some path) vfsModeFile answer = _ := vfsCreate_eq h
  by_cases hfull : m = maxOpenFiles
  · refine ⟨fun _ => Or.inl fun k hk => h.used_iff.mpr (hfull ▸ hk), fun _ s' hs' => ?_⟩
    rw [hcall, if_pos hfull] at hs'
    cases hs'
  · have hlt := Nat.lt_of_le_of_ne h.le hfull
    rw [or_iff_right fun hall => hall m hlt (h.free m (Nat.le_refl m))]
    rw [if_neg hfull] at hcall
    cases answer with
    | none =>
        refine ⟨fun _ => Or.inl rfl, fun _ s' hs' => ?_⟩
        rw [hcall] at hs'
        cases hs'
    | some p =>
        have hp := hfresh p rfl
        have hroot : s.rootFs = some s.ramfsFs := if_pos h.mounted
        have hroot' : (s.created m (fun i => path (i + 1)) vfsModeFile p).rootFs =
            some (s.created m (fun i => path (i + 1)) vfsModeFile p).ramfsFs := if_pos h.mounted
        have hfound : vfsLookup (some (s.created m (fun i => path (i + 1)) vfsModeFile p).ramfsFs)
            (some path) = some (some p) ↔ ∃ name, cs = slash :: name ∧ s.NewName name :=
          h.lookup_created hlt hp hpath
        rw [or_iff_right (Option.some_ne_none p), ← hfound]
        constructor
        · intro hfinds
          obtain ⟨q, ino, hfound, hnew, hino, -⟩ := (hfinds _ hcall).found
          rw [created_inodes] at hino
          split at hino
          · next hq =>
              rw [hroot', hq] at hfound
              exact hfound
          · rw [hnew] at hino
            cases hino
        · intro hfound s' hs'
          rw [hcall] at hs'
          obtain ⟨-, rfl⟩ := Prod.mk.inj hs'
          refine ⟨⟨p, _, by rw [hroot']; exact hfound, hp, by rw [created_inodes, if_pos rfl], rfl, ?_⟩, ?_⟩
          · intro q old hold
            have hle := h.inodeNo_le hold
            simp only [h.next]
            omega
          · intro path' e hold
            rw [hroot] at hold
            rw [hroot']
            exact (h.extends_created hlt hp).vfsLookup hold

/-! ### A second file of the same name -/

/-- The path `/a`. -/
def pathA : Buf := fun i => [slash, 97].getD i 0

theorem createFinds_iff_pathA :
    ramfsCreateFs.vfsMount.2.CreateFinds pathA (some 1) ↔
      (∀ k < maxOpenFiles, (ramfsCreateFs.vfsMount.2.fs.fileTable k).inode ≠ none) ∨
        some 1 = none ∨ ∃ name, [slash, 97] = slash :: name ∧ ramfsCreateFs.vfsMount.2.NewName name :=
  createFinds_iff .start (by rintro p ⟨⟩; rfl) (by decide)

/-- The second file `/a` is created, but what a lookup of `/a` finds is the first one. -/
theorem second_file_not_found :
    ∃ s, Reached s ∧ s.fs.inodes 2 = none ∧ (s.vfsCreate (some pathA) vfsModeFile (some 2)).1 = 0 ∧
      vfsLookup (s.vfsCreate (some pathA) vfsModeFile (some 2)).2.rootFs (some pathA) = some (some 1) ∧
      ¬s.CreateFinds pathA (some 2) := by
  refine ⟨(ramfsCreateFs.vfsMount.2.vfsCreate (some pathA) vfsModeFile (some 1)).2,
    .create .start (by rintro p ⟨⟩; rfl), rfl, rfl, rfl, fun h => ?_⟩
  obtain ⟨p, ino, hfound, hnew, -⟩ := (h _ rfl).found
  obtain rfl : p = 1 := (Option.some.inj (Option.some.inj (hfound.symm.trans rfl)))
  cases hnew

end Ramfs

end SystemN
