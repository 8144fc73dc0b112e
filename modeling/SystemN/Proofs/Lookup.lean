/-
Which inode `vfs_lookup` finds.

A path resolves in a tree of inodes if each of its components is the name of a child of the
directory before it.  `vfs_lookup` finds what the path resolves to.  But its loop ends with the
same answer when there are no more components and when the inode it has come to is no
directory: a path that goes on below a regular file finds that file.
-/
import SystemN.Path

namespace SystemN

open CString

variable {ι : Type}

/-! ### Trees of inodes -/

/-- The inodes behind a mount point, with their modes and their children by name. -/
structure Tree (ι : Type) where
  root : ι
  mode : ι → Nat
  child : ι → List UInt8 → Option ι

namespace Tree

/-- The file system that serves the tree. -/
def served (T : Tree ι) : FileSystem ι :=
  ⟨T.root, fun e => some (T.mode e), fun e c => some (T.child e c)⟩

/-- The inode is a directory. -/
def IsDir (T : Tree ι) (e : ι) : Prop := T.mode e &&& vfsModeDir ≠ 0

instance (T : Tree ι) (e : ι) : Decidable (T.IsDir e) := inferInstanceAs (Decidable (_ ≠ _))

/-- From `e` the components lead to an inode, each of them through a directory. -/
inductive Resolves (T : Tree ι) : ι → List (List UInt8) → ι → Prop
  | here (e : ι) : Resolves T e [] e
  | step {e e' e'' : ι} {c : List UInt8} {cs : List (List UInt8)} (hdir : T.IsDir e)
      (hchild : T.child e c = some e') (hrest : Resolves T e' cs e'') : Resolves T e (c :: cs) e''

/-- What the loop of `vfs_lookup` comes to from `e`. -/
def walk (T : Tree ι) : ι → List (List UInt8) → Option ι
  | e, [] => some e
  | e, c :: cs => if T.IsDir e then (T.child e c).bind fun e' => T.walk e' cs else some e

variable {T : Tree ι} {e e' : ι} {c : List UInt8} {cs : List (List UInt8)}

theorem bind_walk_nil (o : Option ι) : (o.bind fun e => T.walk e []) = o := by
  cases o with
  | none => rfl
  | some e => rfl

theorem Resolves.walk_eq (h : T.Resolves e cs e') : T.walk e cs = some e' := by
  induction h with
  | here e => rfl
  | step hdir hchild hrest ih =>
      rw [walk, if_pos hdir, hchild]
      exact ih

/-- The components go on behind an inode that is no directory. -/
def Below (T : Tree ι) (e : ι) (cs : List (List UInt8)) : Prop :=
  ∃ front c rest e', cs = front ++ c :: rest ∧ T.Resolves e front e' ∧ ¬T.IsDir e'

theorem Below.step (hdir : T.IsDir e) (hchild : T.child e c = some e') (h : T.Below e' cs) :
    T.Below e (c :: cs) := by
  obtain ⟨front, c', rest, e'', rfl, hfront, hnot⟩ := h
  exact ⟨c :: front, c', rest, e'', rfl, .step hdir hchild hfront, hnot⟩

/-- The loop comes to what the components resolve to, or stops on the way. -/
theorem walk_cases (T : Tree ι) (e : ι) (cs : List (List UInt8)) :
    (∃ e', T.Resolves e cs e') ∨ T.walk e cs = none ∨ T.Below e cs := by
  induction cs generalizing e with
  | nil => exact Or.inl ⟨e, .here e⟩
  | cons c cs ih =>
      by_cases hdir : T.IsDir e
      · rw [walk, if_pos hdir]
        cases hchild : T.child e c with
        | none => exact Or.inr (Or.inl rfl)
        | some e' =>
            rcases ih e' with ⟨e'', hrest⟩ | hnone | hbelow
            · exact Or.inl ⟨e'', .step hdir hchild hrest⟩
            · exact Or.inr (Or.inl hnone)
            · exact Or.inr (Or.inr (hbelow.step hdir hchild))
      · exact Or.inr (Or.inr ⟨[], c, cs, e, rfl, .here e, hdir⟩)

/-- Below an inode that is no directory, the components lead nowhere, and the loop to that inode. -/
theorem Below.walk_eq (h : T.Below e cs) :
    ∃ e', T.walk e cs = some e' ∧ ¬T.Resolves e cs e' := by
  obtain ⟨front, c, rest, e', rfl, hfront, hnot⟩ := h
  refine ⟨e', ?_, ?_⟩
  · induction hfront with
    | here e => exact if_neg hnot
    | step hdir hchild hrest ih =>
        rw [List.cons_append, walk, if_pos hdir, hchild]
        exact ih hnot
  · induction hfront with
    | here e =>
        intro hresolves
        cases hresolves with
        | step hdir _ _ => exact hnot hdir
    | step hdir hchild hrest ih =>
        intro hresolves
        cases hresolves with
        | step _ hchild' hrest' =>
            obtain rfl := Option.some.inj (hchild.symm.trans hchild')
            exact ih hnot hrest'

theorem walk_iff_resolves : (∀ e', T.walk e cs = some e' ↔ T.Resolves e cs e') ↔ ¬T.Below e cs := by
  constructor
  · intro hall hbelow
    obtain ⟨e', hwalk, hnot⟩ := hbelow.walk_eq
    exact hnot ((hall e').mp hwalk)
  · intro hnot e'
    refine ⟨fun hwalk => ?_, Resolves.walk_eq⟩
    rcases T.walk_cases e cs with ⟨e'', hresolves⟩ | hnone | hbelow
    · rw [hresolves.walk_eq] at hwalk
      exact Option.some.inj hwalk ▸ hresolves
    · rw [hnone] at hwalk
      cases hwalk
    · exact absurd hbelow hnot

end Tree

/-! ### The loop -/

variable {T : Tree ι} {path : Buf} {cs : List UInt8}

theorem lookupLoop_done (fs : FileSystem ι) (n : Nat) (curr : Option ι) (saved : List UInt8) :
    fs.lookupLoop (n + 1) none curr saved = some curr := by
  cases curr with
  | none => rfl
  | some e => rfl

/-- The rounds of the loop take the components one by one. -/
theorem lookupLoop_served {n : Nat} {curr : Option ι} {token : Option (List UInt8)}
    {saved tail : List UInt8} (hcs : 0 ∉ cs) (hlt : cs.length + 1 < n)
    (hsaved : token ≠ none → saved = cs ++ 0 :: tail) :
    T.served.lookupLoop n token curr saved =
      some (curr.bind fun e => T.walk e (token.elim [] fun t => t :: components slash cs)) := by
  induction n generalizing curr token saved cs with
  | zero => exact absurd hlt (Nat.not_lt_zero _)
  | succ n ih =>
      cases token with
      | none =>
          rw [lookupLoop_done, Option.elim_none, Tree.bind_walk_nil]
      | some t =>
          cases curr with
          | none => rfl
          | some e =>
              obtain rfl := hsaved (Option.some_ne_none t)
              rw [FileSystem.lookupLoop, Option.elim_some, Option.bind_some, Tree.walk]
              by_cases hdir : T.IsDir e
              · rw [if_pos hdir]
                have hmode : T.served.mode e = some (T.mode e) := rfl
                have hlookup : T.served.lookup e t = some (T.child e t) := rfl
                simp only [hmode, hlookup, Option.bind_eq_bind, Option.bind_some]
                rw [if_pos (show T.mode e &&& vfsModeDir ≠ 0 from hdir)]
                rcases strtok_string (d := slash) (by decide) hcs tail with
                  ⟨hnone, htok⟩ | ⟨t', rest, hcomp, hrest, hlen, htok⟩
                · obtain ⟨m, rfl⟩ := Nat.exists_eq_add_of_lt (Nat.lt_of_succ_lt_succ hlt)
                  rw [htok, Option.bind_some, hnone, Tree.bind_walk_nil]
                  exact lookupLoop_done ..
                · rw [htok, Option.bind_some, hcomp]
                  exact ih hrest (by omega) (fun _ => rfl)
              · rw [if_neg hdir]
                have hmode : T.served.mode e = some (T.mode e) := rfl
                simp only [hmode, Option.bind_eq_bind, Option.bind_some]
                rw [if_neg (show ¬(T.mode e &&& vfsModeDir ≠ 0) from hdir)]
                rfl

/-- `vfs_lookup` of a path that fits. -/
theorem vfsLookup_served (hpath : IsString path cs) (hlen : cs.length < maxPathLen)
    (habs : cs.head? = some slash) :
    vfsLookup (some T.served) (some path) = some (T.walk T.root (components slash cs)) := by
  obtain ⟨tail, htemp⟩ := strncpy_of_lt hpath hlen
  unfold vfsLookup
  simp only
  rw [if_neg (not_not.mpr (hpath.head habs)), htemp]
  rcases strtok_string (d := slash) (by decide) hpath.noNul tail with
    ⟨hnone, htok⟩ | ⟨t, rest, hcomp, hrest, hlt, htok⟩
  · rw [htok, hnone]
    rfl
  · simp only [htok, Option.bind_eq_bind, Option.bind_some]
    rw [lookupLoop_served hrest (by omega) (fun _ => rfl), hcomp]
    rfl

/-- A lookup of the path comes back, and finds an inode if and only if the path resolves to it. -/
structure LookupExact (T : Tree ι) (path : Buf) (cs : List UInt8) : Prop where
  returns : ∃ r, vfsLookup (some T.served) (some path) = some r
  found : ∀ e, vfsLookup (some T.served) (some path) = some (some e) ↔
    T.Resolves T.root (components slash cs) e

/-- **`vfs_lookup` consumes the whole path**, exactly if that does not go on below an inode that is no
directory. -/
theorem lookupExact_iff (hpath : IsString path cs) (hlen : cs.length < maxPathLen)
    (habs : cs.head? = some slash) :
    LookupExact T path cs ↔ ¬T.Below T.root (components slash cs) := by
  have hcall : vfsLookup (some T.served) (some path) =
      some (T.walk T.root (components slash cs)) := vfsLookup_served hpath hlen habs
  rw [← Tree.walk_iff_resolves]
  constructor
  · intro h e
    rw [← h.found, hcall, Option.some_inj]
  · intro h
    refine ⟨⟨_, hcall⟩, fun e => ?_⟩
    rw [hcall, Option.some_inj]
    exact h e

/-! ### A file in the root directory -/

/-- The root directory with one regular file, `a`. -/
def oneFile : Tree Bool where
  root := false
  mode := fun e => if e then vfsModeFile else vfsModeDir
  child := fun e c => if e = false ∧ c = [97] then some true else none

/-- The path `/a/b`. -/
def pathBelow : Buf := fun i => [slash, 97, slash, 98].getD i 0

theorem lookupExact_iff_oneFile :
    LookupExact oneFile pathBelow [slash, 97, slash, 98] ↔
      ¬oneFile.Below oneFile.root (components slash [slash, 97, slash, 98]) :=
  lookupExact_iff (by decide) (by decide) rfl

/-- `/a/b` finds `/a`. -/
theorem lookup_below_file :
    vfsLookup (some oneFile.served) (some pathBelow) = some (some true) ∧
      ¬LookupExact oneFile pathBelow [slash, 97, slash, 98] := by
  have hfound : vfsLookup (some oneFile.served) (some pathBelow) = some (some true) := rfl
  refine ⟨hfound, fun h => ?_⟩
  have hresolves := (h.found true).mp hfound
  rw [show components slash [slash, 97, slash, 98] = [[97], [98]] from rfl] at hresolves
  cases hresolves with
  | step _ hchild hrest =>
      cases hrest with
      | step hdir hchild' _ =>
          obtain rfl := Option.some.inj (hchild.symm.trans rfl)
          exact hdir rfl

end SystemN
