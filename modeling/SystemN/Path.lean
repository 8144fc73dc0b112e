/-
Paths: `vfs_lookup`, `vfs_create` and `vfs_open` of `fs/vfs.c`, and the names of the files
in `fs/ramfs.c`, which `Fs` leaves out.

In `vfs_lookup` the path is tokenised before it is copied, from an array that is declared
after it is used; what is modelled is the copy first.  `RAMFS_MAX_FILES` and `RAMFS_NAME_LEN`
are defined nowhere; they are taken to be the sizes of the arrays, `MAX_OPEN_FILES` and
`MAX_NAME_LEN`.
-/
import SystemN.Fs
import SystemN.Lib.CString

namespace SystemN

open CString

@[simp] abbrev maxNameLen : Nat := 64
@[simp] abbrev maxPathLen : Nat := 256

/-- The character `/`. -/
@[simp] abbrev slash : UInt8 := 47

/-! ### `vfs_lookup` -/

/-- `filesystem_t`, as far as a lookup goes: the inode of the root, the modes of the inodes, and
`ops->lookup`.  A call that does not come back, or the mode of no inode, is `none`. -/
structure FileSystem (ι : Type) where
  root : ι
  mode : ι → Option Nat
  lookup : ι → List UInt8 → Option (Option ι)

namespace FileSystem

variable {ι : Type}

/-- The loop of `vfs_lookup`: `saved` is the pointer `strtok` has saved. -/
def lookupLoop (fs : FileSystem ι) :
    Nat → Option (List UInt8) → Option ι → List UInt8 → Option (Option ι)
  | 0, _, _, _ => none
  | n + 1, token, curr, saved =>
      match token, curr with
      | some name, some dir => do
          let mode ← fs.mode dir
          if mode &&& vfsModeDir ≠ 0 then do
            let curr ← fs.lookup dir name
            let (token, saved) ← strtok slash saved
            lookupLoop fs n token curr saved
          else pure (some dir)
      | _, curr => some curr

end FileSystem

/-- `vfs_lookup`, with the file system that is mounted.  A token takes at least one byte of `temp`,
so there are no more rounds than it has bytes. -/
def vfsLookup {ι : Type} (rootFs : Option (FileSystem ι)) (path : Option Buf) : Option (Option ι) :=
  match path, rootFs with
  | some path, some fs =>
      if path 0 ≠ slash then some none
      else do
        let temp := strncpy path maxPathLen
        let (token, saved) ← strtok slash temp
        fs.lookupLoop (maxPathLen + 1) token (some fs.root) saved
  | _, _ => some none

/-! ### `ramfs.c`, with its names -/

/-- The file system, with `name` of each file; `root_fs` is `&ramfs_fs` once that is mounted. -/
structure Ramfs where
  fs : Fs
  names : Nat → List UInt8
  mounted : Bool

namespace Ramfs

/-- `ramfs_create` without arguments, over the statics of a kernel that has just started. -/
def ramfsCreateFs : Ramfs := ⟨Fs.ramfsCreateFs, fun _ => List.replicate maxNameLen 0, false⟩

/-- `vfs_mount` of it. -/
def vfsMount (s : Ramfs) : Int × Ramfs := (0, { s with mounted := true })

/-- The loop of `ramfs_find`: slot `i` is next, `n` are left. -/
def findLoop (s : Ramfs) (name : List UInt8) : Nat → Nat → Option (Option Nat)
  | 0, _ => some none
  | n + 1, i =>
      if (s.fs.fileTable i).inode ≠ none then do
        let diff ← strcmp (s.names i) name
        if diff = 0 then pure (some i) else findLoop s name n (i + 1)
      else findLoop s name n (i + 1)

/-- `ramfs_find`: the index of the file. -/
def ramfsFind (s : Ramfs) (name : List UInt8) : Option (Option Nat) :=
  s.findLoop name maxOpenFiles 0

/-- `ramfs_lookup`. -/
def ramfsLookup (s : Ramfs) (_dir : Nat) (name : List UInt8) : Option (Option Nat) := do
  let f ← s.ramfsFind name
  pure (f.bind fun k => (s.fs.fileTable k).inode)

/-- `ramfs_fs`. -/
def ramfsFs (s : Ramfs) : FileSystem Nat where
  root := 0
  mode := fun p => (s.fs.inodes p).map (·.mode)
  lookup := s.ramfsLookup

/-- The loop of `ramfs_create`: slot `i` is next, `n` are left. -/
def createLoop (name : Buf) (mode : Nat) (answer : Option Nat) : Nat → Nat → Ramfs → Int × Ramfs
  | 0, _, s => (-1, s)
  | n + 1, i, s =>
      if (s.fs.fileTable i).inode = none then
        let s := { s with names := Function.update s.names i (strncpy name maxNameLen) }
        let f := { s.fs.fileTable i with mode := mode, data := [], size := 0 }
        let s := { s with fs := s.fs.setFile i f }
        match answer with
        | none => (-1, s)
        | some p =>
            let inode : Inode := ⟨s.fs.nextInodeNo, 0, mode, some i⟩
            let fs := { s.fs with nextInodeNo := u64 (s.fs.nextInodeNo + 1) }
            (0, { s with fs := (fs.setInode p inode).setFile i { f with inode := some p } })
      else createLoop name mode answer n (i + 1) s

/-- `ramfs_create`, with what `malloc` gives for the inode. -/
def ramfsCreate (s : Ramfs) (name : Buf) (mode : Nat) (answer : Option Nat) : Int × Ramfs :=
  createLoop name mode answer maxOpenFiles 0 s

/-- The file system that is mounted. -/
def rootFs (s : Ramfs) : Option (FileSystem Nat) := if s.mounted then some s.ramfsFs else none

/-- `vfs_create`. -/
def vfsCreate (s : Ramfs) (path : Option Buf) (mode : Nat) (answer : Option Nat) : Int × Ramfs :=
  match path with
  | none => (-1, s)
  | some path =>
      if s.mounted then s.ramfsCreate (fun i => path (i + 1)) mode answer else (-1, s)

/-- `vfs_open`, with what `malloc` gives for the open file. -/
def vfsOpen (s : Ramfs) (path : Option Buf) (answer : Option Nat) : Option (Int × Ramfs) := do
  let node ← vfsLookup s.rootFs path
  let (fd, fs) := s.fs.vfsOpen node answer
  pure (fd, { s with fs := fs })

/-- Without the names this is the `ramfs_create` of `Fs`. -/
theorem createLoop_fs {name : Buf} {mode n i : Nat} {answer : Option Nat} {s : Ramfs}
    (h : i + n ≤ maxOpenFiles) :
    Fs.createLoop mode answer n i s.fs =
      some ((createLoop name mode answer n i s).1, (createLoop name mode answer n i s).2.fs) := by
  induction n generalizing i s with
  | zero => rfl
  | succ n ih =>
      rw [Fs.createLoop, createLoop, if_neg (by omega)]
      by_cases hfree : (s.fs.fileTable i).inode = none
      · rw [if_pos hfree, if_pos hfree]
        cases answer with
        | none => rfl
        | some p => rfl
      · rw [if_neg hfree, if_neg hfree]
        exact ih (by omega)

end Ramfs

end SystemN
