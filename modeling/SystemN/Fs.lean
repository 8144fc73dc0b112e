/-
The virtual file system, `fs/vfs.c`, over the files in memory of `fs/ramfs.c`.

An inode and an open file are what a pointer to them denotes, so two descriptors of one
file hold the same inode.  A block from `malloc` is a list of bytes with its own length,
and `NULL` is the empty block; an access outside of an object, or through a pointer to
none, makes the call `none`.

`malloc` and `realloc` are not part of the kernel: what they answer is an argument of the
call.  So is the node that `vfs_lookup` finds; the names of the files are left out with it.
All inodes are those of `ramfs`, and the calls through `ops` go there directly.
-/
import SystemN.Types
import Mathlib.Logic.Function.Basic

namespace SystemN

@[simp] abbrev maxOpenFiles : Nat := 64
@[simp] abbrev vfsModeDir : Nat := 0x4000
@[simp] abbrev vfsModeFile : Nat := 0x8000

/-- `struct inode`, less the `fs` that all of them share. -/
structure Inode where
  inodeNo : Nat
  size : Nat
  mode : Nat
  /-- The index in `file_table`; the root directory has none. -/
  internal : Option Nat
  deriving DecidableEq, Repr

/-- `file_t`. -/
structure File where
  inode : Option Nat
  offset : Nat
  flags : Int
  deriving DecidableEq, Repr

/-- `ramfs_file_t`. -/
structure RamfsFile where
  data : List UInt8
  size : Nat
  mode : Nat
  inode : Option Nat
  deriving DecidableEq, Repr

/-- The static variables of both files, and the inodes and open files that are pointed to. -/
structure Fs where
  fileTable : Nat → RamfsFile
  nextInodeNo : Nat
  inodes : Nat → Option Inode
  openFiles : Nat → Option Nat
  files : Nat → Option File

/-- The bytes from the address a caller passes. -/
abbrev Buf := Nat → UInt8

/-- The value of an `int` that is assigned a `ulong`. -/
def toInt (n : Nat) : Int := Int.bmod n (2 ^ 32)

namespace Fs

def setFile (s : Fs) (k : Nat) (f : RamfsFile) : Fs :=
  { s with fileTable := Function.update s.fileTable k f }

def setInode (s : Fs) (i : Nat) (inode : Inode) : Fs :=
  { s with inodes := Function.update s.inodes i (some inode) }

def setOpen (s : Fs) (p : Nat) (f : File) : Fs :=
  { s with files := Function.update s.files p (some f) }

/-- `memcpy` from offset `off` of a block: byte `i` is next, `n` are left. -/
def memcpyFrom (data : List UInt8) (off : Nat) : Nat → Nat → Buf → Option Buf
  | 0, _, buf => some buf
  | n + 1, i, buf => do
      let c ← data[off + i]?
      memcpyFrom data off n (i + 1) (Function.update buf i c)

/-- `memcpy` to offset `off` of a block: byte `i` is next, `n` are left. -/
def memcpyTo (buf : Buf) (off : Nat) : Nat → Nat → List UInt8 → Option (List UInt8)
  | 0, _, data => some data
  | n + 1, i, data =>
      if off + i < data.length then memcpyTo buf off n (i + 1) (data.set (off + i) (buf i))
      else none

/-- `realloc`: no block, or one of `n` bytes that starts with the old ones; the bytes after these
are what the answer says. -/
def realloc (old : List UInt8) (n : Nat) (answer : Option Buf) : Option (List UInt8) :=
  answer.map fun junk => (List.range n).map fun j => old.getD j (junk j)

/-! ### `ramfs.c` -/

/-- The root directory, whose inode is not in `file_table`. -/
def rootInode : Inode := ⟨0, 0, vfsModeDir, none⟩

/-- `ramfs_create` without arguments, over the statics of a kernel that has just started; the root
inode is at 0. -/
def ramfsCreateFs : Fs where
  fileTable := fun _ => ⟨[], 0, 0, none⟩
  nextInodeNo := 1
  inodes := Function.update (fun _ => none) 0 (some rootInode)
  openFiles := fun _ => none
  files := fun _ => none

/-- `ramfs_read`. -/
def ramfsRead (s : Fs) (i offset : Nat) (buf : Buf) (len : Nat) : Option (Int × Buf) := do
  let inode ← s.inodes i
  match inode.internal with
  | none => pure (-1, buf)
  | some k =>
      let f := s.fileTable k
      if f.mode ≠ vfsModeFile then pure (-1, buf)
      else if f.size ≤ offset then pure (0, buf)
      else do
        let toRead := if f.size < u64 (offset + len) then f.size - offset else len
        let buf ← memcpyFrom f.data offset toRead 0 buf
        pure (toInt toRead, buf)

/-- `ramfs_write`. -/
def ramfsWrite (s : Fs) (i offset : Nat) (buf : Buf) (len : Nat) (answer : Option Buf) :
    Option (Int × Fs) := do
  let inode ← s.inodes i
  match inode.internal with
  | none => pure (-1, s)
  | some k =>
      let f := s.fileTable k
      if f.mode ≠ vfsModeFile then pure (-1, s)
      else
        let newSize := u64 (offset + len)
        if f.size < newSize then
          match realloc f.data newSize answer with
          | none => pure (-1, s)
          | some newData => do
              let f := { f with data := newData, size := newSize }
              let s := (s.setFile k f).setInode i { inode with size := newSize }
              let data ← memcpyTo buf offset len 0 f.data
              pure (toInt len, s.setFile k { f with data := data })
        else do
          let data ← memcpyTo buf offset len 0 f.data
          pure (toInt len, s.setFile k { f with data := data })

/-- The loop of `ramfs_create`: slot `i` is next, `n` are left.  The loop runs to `RAMFS_MAX_FILES`,
which is defined nowhere, and the table has `MAX_OPEN_FILES` slots. -/
def createLoop (mode : Nat) (answer : Option Nat) : Nat → Nat → Fs → Option (Int × Fs)
  | 0, _, s => some (-1, s)
  | n + 1, i, s =>
      if maxOpenFiles ≤ i then none
      else if (s.fileTable i).inode = none then
        let f := { s.fileTable i with mode := mode, data := [], size := 0 }
        let s := s.setFile i f
        match answer with
        | none => some (-1, s)
        | some p =>
            let inode : Inode := ⟨s.nextInodeNo, 0, mode, some i⟩
            let s := { s with nextInodeNo := u64 (s.nextInodeNo + 1) }
            some (0, (s.setInode p inode).setFile i { f with inode := some p })
      else createLoop mode answer n (i + 1) s

/-- `ramfs_create`, with what `malloc` gives for the inode. -/
def ramfsCreate (s : Fs) (ramfsMaxFiles mode : Nat) (answer : Option Nat) : Option (Int × Fs) :=
  createLoop mode answer ramfsMaxFiles 0 s

/-! ### `vfs.c` -/

/-- The loop of `vfs_install_fd`: slot `i` is next, `n` are left. -/
def installLoop (p : Nat) : Nat → Nat → Fs → Int × Fs
  | 0, _, s => (-1, s)
  | n + 1, i, s =>
      if s.openFiles i = none then (i, { s with openFiles := Function.update s.openFiles i (some p) })
      else installLoop p n (i + 1) s

/-- `vfs_install_fd`. -/
def vfsInstallFd (s : Fs) (p : Nat) : Int × Fs := installLoop p maxOpenFiles 0 s

/-- `vfs_get_file`. -/
def vfsGetFile (s : Fs) (fd : Int) : Option Nat :=
  if fd < 0 ∨ (maxOpenFiles : Int) ≤ fd then none else s.openFiles fd.toNat

/-- `vfs_open`, with the node `vfs_lookup` finds and what `malloc` gives. -/
def vfsOpen (s : Fs) (node answer : Option Nat) : Int × Fs :=
  match node with
  | none => (-1, s)
  | some i =>
      match answer with
      | none => (-1, s)
      | some p => (s.setOpen p ⟨some i, 0, 0⟩).vfsInstallFd p

/-- What `vfs_read` and `vfs_write` have in common: `op` is the operation of the file system, on an
inode and an offset. -/
def vfsStream (s : Fs) (fd : Int) (buf : Buf) (op : Nat → Nat → Option (Int × Buf × Fs)) :
    Option (Int × Buf × Fs) :=
  match s.vfsGetFile fd with
  | none => some (-1, buf, s)
  | some p => do
      let f ← s.files p
      match f.inode with
      | none => pure (-1, buf, s)
      | some i => do
          let inode ← s.inodes i
          if inode.mode &&& vfsModeFile = 0 then pure (-1, buf, s)
          else do
            let (n, buf, s) ← op i f.offset
            pure (n, buf, if 0 < n then s.setOpen p { f with offset := u64 (f.offset + n.toNat) }
              else s)

/-- `vfs_read`: the result, and the buffer after the call. -/
def vfsRead (s : Fs) (fd : Int) (buf : Buf) (len : Nat) : Option (Int × Buf × Fs) :=
  s.vfsStream fd buf fun i offset => do
    let (n, buf) ← s.ramfsRead i offset buf len
    pure (n, buf, s)

/-- `vfs_write`, with what `realloc` answers if it is asked. -/
def vfsWrite (s : Fs) (fd : Int) (buf : Buf) (len : Nat) (answer : Option Buf) :
    Option (Int × Buf × Fs) :=
  s.vfsStream fd buf fun i offset => do
    let (n, s) ← s.ramfsWrite i offset buf len answer
    pure (n, buf, s)

end Fs

end SystemN
