/-
What the streams of `vfs.c` do, seen as streams over byte arrays.

The array of a file is kept three times over: the block, its length in `f->size`, and the
same length again in `inode->size`; the offset is kept with the descriptor.  `view` is the
array and the offset alone.  Under the invariant that the three agree each call does to the
view what the reference model does, and answers the same.

`realloc` hands out a longer block with bytes nobody wrote behind the old ones.  None of
them is left after the write that asked for it, because the offset is not beyond the end;
that fact is about the reference model, where it is proved.
-/
import SystemN.Fs
import SystemN.Lib.Streams

namespace SystemN.Fs

open Streams

variable {s s' : Fs}

/-! ### The view -/

/-- The files by their inodes, and the descriptors of regular files. -/
abbrev Ref := Streams.State Nat Int UInt8

/-- The slot of `file_table` an inode belongs to. -/
def slotOf (s : Fs) (i : Nat) : Option Nat := (s.inodes i).bind (·.internal)

/-- The bytes of a regular file. -/
def bytesOf (s : Fs) (i : Nat) : Option (List UInt8) :=
  (s.slotOf i).bind fun k =>
    if (s.fileTable k).mode = vfsModeFile then
      some ((s.fileTable k).data.take (s.fileTable k).size)
    else none

/-- The file and the offset of a descriptor that is open on a regular file. -/
def descOf (s : Fs) (fd : Int) : Option (Nat × Nat) :=
  (s.vfsGetFile fd).bind fun p => (s.files p).bind fun f => f.inode.bind fun i =>
    if (s.bytesOf i).isSome then some (i, f.offset) else none

def view (s : Fs) : Ref := ⟨s.bytesOf, s.descOf⟩

/-! ### Copying -/

theorem memcpyFrom_eq {data : List UInt8} {off : Nat} :
    ∀ (n i : Nat) (buf : Buf), off + i + n ≤ data.length →
      memcpyFrom data off n i buf
        = some fun j => if i ≤ j ∧ j < i + n then data.getD (off + j) 0 else buf j := by
  intro n
  induction n with
  | zero =>
      intro i buf _
      rw [memcpyFrom]
      congr 1
      funext j
      rw [if_neg (by omega)]
  | succ n ih =>
      intro i buf hle
      have hget : data[off + i]? = some (data.getD (off + i) 0) := by
        rw [List.getD_eq_getElem?_getD, List.getElem?_eq_getElem (by omega)]
        rfl
      rw [memcpyFrom, hget]
      show memcpyFrom data off n (i + 1) _ = _
      rw [ih (i + 1) _ (by omega)]
      congr 1
      funext j
      by_cases hj : j = i
      · subst hj
        rw [if_neg (by omega), if_pos (by omega), Function.update_self]
      · rw [Function.update_of_ne hj]
        by_cases hin : i + 1 ≤ j ∧ j < i + 1 + n
        · rw [if_pos hin, if_pos (by omega)]
        · rw [if_neg hin, if_neg (by omega)]

/-- The `n` bytes of a buffer from byte `i` on. -/
def bytesFrom (buf : Buf) (i n : Nat) : List UInt8 := (List.range' i n).map buf

theorem length_bytesFrom (buf : Buf) (i n : Nat) : (bytesFrom buf i n).length = n := by
  rw [bytesFrom, List.length_map, List.length_range']

theorem memcpyTo_eq {buf : Buf} {off : Nat} :
    ∀ (n i : Nat) (data : List UInt8), off + i + n ≤ data.length →
      memcpyTo buf off n i data = some (overwrite data (off + i) (bytesFrom buf i n)) := by
  intro n
  induction n with
  | zero =>
      intro i data _
      rw [memcpyTo, overwrite]
      simp [bytesFrom]
  | succ n ih =>
      intro i data hle
      have hin : off + i < data.length := by omega
      rw [memcpyTo, if_pos hin, ih (i + 1) _ (by rw [List.length_set]; omega)]
      have hcons : bytesFrom buf i (n + 1) = buf i :: bytesFrom buf (i + 1) n := by
        rw [bytesFrom, List.range'_succ, List.map_cons]
        rfl
      have htake : (data.set (off + i) (buf i)).take (off + (i + 1)) = data.take (off + i) ++ [buf i] := by
        rw [← Nat.add_assoc, List.take_add_one, List.getElem?_set_self hin,
          List.take_set_of_le (Nat.le_refl _)]
        rfl
      have hdrop : (data.set (off + i) (buf i)).drop (off + (i + 1) + n) = data.drop (off + (i + 1) + n) :=
        List.drop_set_of_lt (by omega)
      have hend : off + i + (n + 1) = off + (i + 1) + n := by omega
      unfold overwrite
      rw [hcons, List.length_cons, length_bytesFrom, hend, htake, hdrop]
      simp only [List.append_assoc, List.cons_append, List.nil_append]

/-- A block that `realloc` has made longer, and a write that reaches its end: none of the new bytes
is left as it was. -/
theorem overwrite_realloc {old ys data : List UInt8} {off : Nat} {answer : Option Buf}
    (h : realloc old (off + ys.length) answer = some data) (hle : off ≤ old.length)
    (hgrow : old.length < off + ys.length) : overwrite data off ys = overwrite old off ys := by
  obtain ⟨junk, -, rfl⟩ := Option.map_eq_some_iff.mp h
  have htake : (List.map (fun j => old.getD j (junk j)) (List.range (off + ys.length))).take off
      = old.take off := by
    apply List.ext_getElem
    · simp only [List.length_take, List.length_map, List.length_range]
      omega
    · intro j h1 h2
      simp only [List.length_take] at h2
      simp [List.getD_eq_getElem?_getD, List.getElem?_eq_getElem (show j < old.length by omega)]
  simp only [overwrite, htake]
  congr 1
  rw [List.drop_of_length_le (by simp), List.drop_of_length_le hgrow.le]

theorem toInt_of_lt {n : Nat} (h : n < 2 ^ 31) : toInt n = n := by
  unfold toInt
  apply Int.bmod_eq_of_le
  · omega
  · omega

/-! ### The invariant -/

/-- What holds of a file system that has been used through these calls. -/
structure FsInv (s : Fs) : Prop where
  /-- An inode is the root's, or that of a slot that says the same about the file. -/
  inode : ∀ i ino, s.inodes i = some ino → ino.internal = none ∨
    ∃ k, ino.internal = some k ∧ (s.fileTable k).inode = some i ∧
      (s.fileTable k).mode = ino.mode ∧ (s.fileTable k).size = ino.size ∧
      (s.fileTable k).data.length = ino.size ∧ ino.size < 2 ^ 31
  slot : ∀ k i, (s.fileTable k).inode = some i → ∃ ino, s.inodes i = some ino ∧ ino.internal = some k
  /-- A descriptor is an open file of an inode. -/
  file : ∀ d p, s.openFiles d = some p →
    ∃ f i, s.files p = some f ∧ f.inode = some i ∧ ∃ ino, s.inodes i = some ino
  /-- No open file has two descriptors. -/
  own : ∀ d e p, s.openFiles d = some p → s.openFiles e = some p → d = e

/-- Inode `i` is that of a regular file with the bytes `xs`, in slot `k`. -/
structure Regular (s : Fs) (i k : Nat) (ino : Inode) (xs : List UInt8) : Prop where
  inode : s.inodes i = some ino
  internal : ino.internal = some k
  owner : (s.fileTable k).inode = some i
  mode : (s.fileTable k).mode = vfsModeFile
  inodeMode : ino.mode = vfsModeFile
  data : (s.fileTable k).data = xs
  size : (s.fileTable k).size = xs.length
  inodeSize : ino.size = xs.length
  small : xs.length < 2 ^ 31

theorem slotOf_eq {i k : Nat} {ino : Inode} (h : s.inodes i = some ino) (hk : ino.internal = some k) :
    s.slotOf i = some k := by
  rw [slotOf, h, Option.bind_some, hk]

theorem FsInv.regular (hi : FsInv s) {i : Nat} {xs : List UInt8} (h : s.bytesOf i = some xs) :
    ∃ k ino, Regular s i k ino xs := by
  obtain ⟨k, hslot, hbytes⟩ := Option.bind_eq_some_iff.mp h
  obtain ⟨ino, hino, hint⟩ := Option.bind_eq_some_iff.mp hslot
  split at hbytes
  · rename_i hmode
    apply (hi.inode i ino hino).elim
    · intro hnone
      rw [hnone] at hint
      cases hint
    · intro ⟨k', hk', howner, hmode', hsize, hdata, hsmall⟩
      obtain rfl : k' = k := Option.some.inj (hk'.symm.trans hint)
      rw [hsize, ← hdata, List.take_length] at hbytes
      obtain rfl := Option.some.inj hbytes
      exact ⟨k', ino, hino, hk', howner, hmode, hmode'.symm.trans hmode, rfl,
        hsize.trans hdata.symm, hdata.symm, hdata ▸ hsmall⟩
  · cases hbytes

theorem Regular.bytesOf {i k : Nat} {ino : Inode} {xs : List UInt8} (h : Regular s i k ino xs) :
    s.bytesOf i = some xs := by
  unfold Fs.bytesOf
  rw [slotOf_eq h.inode h.internal, Option.bind_some, if_pos h.mode, h.data, h.size, List.take_length]

/-- The slots of two inodes are different. -/
theorem FsInv.slot_ne (hi : FsInv s) {i j k : Nat} (hk : (s.fileTable k).inode = some i) (hji : j ≠ i)
    {k' : Nat} (hk' : s.slotOf j = some k') : k' ≠ k := by
  intro heq
  obtain ⟨ino, hino, hint⟩ := Option.bind_eq_some_iff.mp hk'
  apply (hi.inode j ino hino).elim
  · intro hnone
    rw [hnone] at hint
    cases hint
  · intro ⟨x, hx, howner, _⟩
    obtain rfl : x = k' := Option.some.inj (hx.symm.trans hint)
    rw [heq, hk] at howner
    exact hji (Option.some.inj howner).symm

/-! ### `ramfs_read` and `ramfs_write` -/

/-- The buffer with `out` in front. -/
def copied (buf : Buf) (out : List UInt8) : Buf := fun j => out.getD j (buf j)

/-- An inode that is not that of a regular file is refused. -/
theorem slot_of_none {i : Nat} (h : s.bytesOf i = none) {ino : Inode} (hino : s.inodes i = some ino) :
    ino.internal = none ∨ ∃ k, ino.internal = some k ∧ (s.fileTable k).mode ≠ vfsModeFile := by
  cases hint : ino.internal with
  | none => exact Or.inl rfl
  | some k =>
      refine Or.inr ⟨k, rfl, fun hmode => ?_⟩
      rw [bytesOf, slotOf_eq hino hint, Option.bind_some, if_pos hmode] at h
      cases h

theorem ramfsRead_none {i offset len : Nat} {buf : Buf} (h : s.bytesOf i = none) {ino : Inode}
    (hino : s.inodes i = some ino) : s.ramfsRead i offset buf len = some (-1, buf) := by
  unfold ramfsRead
  rw [hino]
  rcases slot_of_none h hino with hint | ⟨k, hint, hmode⟩
  · simp only [Option.bind_eq_bind, Option.bind_some, hint]
    rfl
  · simp only [Option.bind_eq_bind, Option.bind_some, hint]
    rw [if_pos hmode]
    rfl

theorem ramfsWrite_none {i offset len : Nat} {buf : Buf} {answer : Option Buf}
    (h : s.bytesOf i = none) {ino : Inode} (hino : s.inodes i = some ino) :
    s.ramfsWrite i offset buf len answer = some (-1, s) := by
  unfold ramfsWrite
  rw [hino]
  rcases slot_of_none h hino with hint | ⟨k, hint, hmode⟩
  · simp only [Option.bind_eq_bind, Option.bind_some, hint]
    rfl
  · simp only [Option.bind_eq_bind, Option.bind_some, hint]
    rw [if_pos hmode]
    rfl

/-- **`ramfs_read`** gets the bytes from the offset on, as far as there are any. -/
theorem Regular.ramfsRead {i k offset len : Nat} {ino : Inode} {xs : List UInt8} {buf : Buf}
    (h : Regular s i k ino xs) (hlen : len < 2 ^ 31) :
    s.ramfsRead i offset buf len
      = some ((((xs.drop offset).take len).length : Int), copied buf ((xs.drop offset).take len)) := by
  have hsmall := h.small
  have hout : ((xs.drop offset).take len).length = min len (xs.length - offset) := by
    rw [List.length_take, List.length_drop]
  unfold Fs.ramfsRead
  rw [h.inode]
  simp only [Option.bind_eq_bind, Option.bind_some, h.internal]
  rw [if_neg (not_not.mpr h.mode), h.size, h.data]
  by_cases hend : xs.length ≤ offset
  · rw [if_pos hend, List.drop_of_length_le hend, List.take_nil]
    rfl
  · have hto : (if xs.length < u64 (offset + len) then xs.length - offset else len)
        = min len (xs.length - offset) := by
      rw [u64, Nat.mod_eq_of_lt (by omega)]
      split <;> omega
    rw [if_neg hend, hto, memcpyFrom_eq _ _ _ (by omega), Option.bind_some,
      toInt_of_lt (by omega), hout]
    show some _ = some _
    congr 2
    funext j
    by_cases hj : j < min len (xs.length - offset)
    · rw [if_pos ⟨Nat.zero_le _, by omega⟩]
      simp only [copied, List.getD_eq_getElem?_getD]
      rw [List.getElem?_take_of_lt (by omega), List.getElem?_drop,
        List.getElem?_eq_getElem (by omega)]
      rfl
    · rw [if_neg (by omega)]
      simp only [copied, List.getD_eq_getElem?_getD]
      rw [List.getElem?_eq_none (by omega)]
      rfl

/-- The file system with other bytes in a file. -/
def stored (s : Fs) (i k : Nat) (ino : Inode) (ys : List UInt8) : Fs :=
  (s.setFile k { s.fileTable k with data := ys, size := ys.length }).setInode i
    { ino with size := ys.length }

/-- **`ramfs_write`** changes the bytes of the range, or nothing if there is no room for them. -/
theorem Regular.ramfsWrite {i k offset len : Nat} {ino : Inode} {xs : List UInt8} {buf : Buf}
    {answer : Option Buf} (h : Regular s i k ino xs) (hoff : offset ≤ xs.length)
    (hlen : offset + len < 2 ^ 31) :
    s.ramfsWrite i offset buf len answer
      = if xs.length < offset + len ∧ answer = none then some (-1, s)
        else some ((len : Int), s.stored i k ino (overwrite xs offset (bytesFrom buf 0 len))) := by
  have hsmall := h.small
  have hwrap : u64 (offset + len) = offset + len := Nat.mod_eq_of_lt (by omega)
  have hys : (overwrite xs offset (bytesFrom buf 0 len)).length = max xs.length (offset + len) := by
    rw [length_overwrite hoff, length_bytesFrom]
  unfold Fs.ramfsWrite
  rw [h.inode]
  simp only [Option.bind_eq_bind, Option.bind_some, h.internal, hwrap]
  rw [if_neg (not_not.mpr h.mode), h.size, h.data]
  by_cases hgrow : xs.length < offset + len
  · rw [if_pos hgrow]
    cases hanswer : realloc xs (offset + len) answer with
    | none =>
        have hnone : answer = none := Option.map_eq_none_iff.mp hanswer
        rw [if_pos ⟨hgrow, hnone⟩]
        rfl
    | some data =>
        have hsome : answer ≠ none := by
          intro hnone
          rw [hnone] at hanswer
          cases hanswer
        have hdata : data.length = offset + len := by
          obtain ⟨junk, -, rfl⟩ := Option.map_eq_some_iff.mp hanswer
          rw [List.length_map, List.length_range]
        have hover : overwrite data offset (bytesFrom buf 0 len)
            = overwrite xs offset (bytesFrom buf 0 len) := by
          have hys : (bytesFrom buf 0 len).length = len := length_bytesFrom ..
          exact overwrite_realloc (by rwa [hys]) hoff (by rwa [hys])
        rw [if_neg fun hc => hsome hc.2]
        simp only
        rw [memcpyTo_eq _ _ _ (by omega), Option.bind_some, Nat.add_zero, hover,
          toInt_of_lt (by omega)]
        show some _ = some _
        congr 2
        unfold stored setFile setInode
        rw [hys, Nat.max_eq_right hgrow.le]
        simp only [Function.update_idem, h.internal]
  · rw [if_neg hgrow, if_neg fun hc => hgrow hc.1, memcpyTo_eq _ _ _ (by omega), Option.bind_some,
      Nat.add_zero, toInt_of_lt (by omega)]
    show some _ = some _
    congr 2
    -- the two sizes are what they were
    have hsize : (overwrite xs offset (bytesFrom buf 0 len)).length = xs.length := by
      rw [hys]
      omega
    have hino : { ino with size := xs.length } = ino := by
      rw [← h.inodeSize]
    unfold stored setFile setInode
    rw [hsize, hino, ← h.inode, Function.update_eq_self, ← h.size]

/-! ### What the calls do to the view -/

theorem FsInv.bytesOf_stored (hi : FsInv s) {i k : Nat} {ino : Inode} {xs : List UInt8}
    (h : Regular s i k ino xs) (ys : List UInt8) :
    (s.stored i k ino ys).bytesOf = Function.update s.bytesOf i (some ys) := by
  funext j
  by_cases hji : j = i
  · subst hji
    rw [Function.update_self]
    have hslot : (s.stored j k ino ys).slotOf j = some k := by
      rw [slotOf]
      show (Function.update s.inodes j (some { ino with size := ys.length }) j).bind _ = _
      rw [Function.update_self]
      exact h.internal
    have hfile : (s.stored j k ino ys).fileTable k
        = { s.fileTable k with data := ys, size := ys.length } := Function.update_self ..
    rw [bytesOf, hslot, Option.bind_some, hfile, if_pos h.mode]
    exact congrArg some (List.take_length ..)
  · rw [Function.update_of_ne hji]
    have hslot : (s.stored i k ino ys).slotOf j = s.slotOf j := by
      rw [slotOf, slotOf]
      show (Function.update s.inodes i _ j).bind _ = _
      rw [Function.update_of_ne hji]
    rw [bytesOf, bytesOf, hslot]
    cases hk : s.slotOf j with
    | none => rfl
    | some k' =>
        have hfile : (s.stored i k ino ys).fileTable k' = s.fileTable k' :=
          Function.update_of_ne (hi.slot_ne h.owner hji hk) ..
        rw [Option.bind_some, Option.bind_some, hfile]

/-- A descriptor is of a number in range. -/
theorem vfsGetFile_eq_some {fd : Int} {p : Nat} (h : s.vfsGetFile fd = some p) :
    0 ≤ fd ∧ fd < maxOpenFiles ∧ s.openFiles fd.toNat = some p := by
  unfold vfsGetFile at h
  split at h
  · cases h
  · exact ⟨by omega, by omega, h⟩

/-- Descriptors are of a regular file before as after. -/
theorem FsInv.descOf_congr (hi : FsInv s) (hopen : s'.openFiles = s.openFiles)
    (hfiles : ∀ d p, s.openFiles d = some p → s'.files p = s.files p)
    (hsome : ∀ i ino, s.inodes i = some ino → (s'.bytesOf i).isSome = (s.bytesOf i).isSome) :
    s'.descOf = s.descOf := by
  funext fd
  have hget : s'.vfsGetFile fd = s.vfsGetFile fd := by
    unfold vfsGetFile
    rw [hopen]
  rw [descOf, descOf, hget]
  cases hp : s.vfsGetFile fd with
  | none => rfl
  | some p =>
      obtain ⟨-, -, hd⟩ := vfsGetFile_eq_some hp
      obtain ⟨f, i, hf, hfi, ino, hino⟩ := hi.file _ p hd
      rw [Option.bind_some, Option.bind_some, hfiles _ p hd, hf, Option.bind_some, Option.bind_some,
        hfi, Option.bind_some, Option.bind_some, hsome i ino hino]

theorem FsInv.view_stored (hi : FsInv s) {i k : Nat} {ino : Inode} {xs ys : List UInt8}
    (h : Regular s i k ino xs) :
    (s.stored i k ino ys).view
      = { s.view with bytes := Function.update s.view.bytes i (some ys) } := by
  have hbytes := hi.bytesOf_stored h ys
  have hdesc : (s.stored i k ino ys).descOf = s.descOf := by
    refine hi.descOf_congr rfl (fun _ _ _ => rfl) fun j _ _ => ?_
    rw [hbytes]
    by_cases hji : j = i
    · subst hji
      rw [Function.update_self, h.bytesOf]
      rfl
    · rw [Function.update_of_ne hji]
  unfold view
  rw [hbytes, hdesc]

theorem FsInv.stored (hi : FsInv s) {i k : Nat} {ino : Inode} {xs ys : List UInt8}
    (h : Regular s i k ino xs) (hys : ys.length < 2 ^ 31) : FsInv (s.stored i k ino ys) := by
  have hfile : ∀ k', k' ≠ k → (s.stored i k ino ys).fileTable k' = s.fileTable k' := fun k' hk' =>
    Function.update_of_ne hk' ..
  have hself : (s.stored i k ino ys).fileTable k
      = { s.fileTable k with data := ys, size := ys.length } := Function.update_self ..
  have hino : (s.stored i k ino ys).inodes i = some { ino with size := ys.length } :=
    Function.update_self ..
  have hother : ∀ j, j ≠ i → (s.stored i k ino ys).inodes j = s.inodes j := fun j hj =>
    Function.update_of_ne hj ..
  refine ⟨?_, ?_, ?_, hi.own⟩
  · intro j jno hj
    by_cases hji : j = i
    · subst hji
      rw [hino] at hj
      obtain rfl := Option.some.inj hj
      refine Or.inr ⟨k, h.internal, ?_⟩
      rw [hself]
      exact ⟨h.owner, h.mode.trans h.inodeMode.symm, rfl, rfl, hys⟩
    · rw [hother j hji] at hj
      apply (hi.inode j jno hj).elim
      · exact Or.inl
      · intro ⟨k', hk', hrest⟩
        refine Or.inr ⟨k', hk', ?_⟩
        rw [hfile k' (hi.slot_ne h.owner hji (slotOf_eq hj hk'))]
        exact hrest
  · intro k' j hj
    have howner : (s.fileTable k').inode = some j := by
      by_cases hk' : k' = k
      · subst hk'
        rw [hself] at hj
        exact hj
      · rwa [hfile k' hk'] at hj
    obtain ⟨jno, hjno, hint⟩ := hi.slot k' j howner
    by_cases hji : j = i
    · subst hji
      rw [h.inode] at hjno
      obtain rfl := Option.some.inj hjno
      exact ⟨_, hino, hint⟩
    · exact ⟨jno, (hother j hji).trans hjno, hint⟩
  · intro d p hp
    obtain ⟨f, j, hf, hj, jno, hjno⟩ := hi.file d p hp
    by_cases hji : j = i
    · rw [hji] at hj
      exact ⟨f, i, hf, hj, _, hino⟩
    · exact ⟨f, j, hf, hj, jno, (hother j hji).trans hjno⟩

/-- Moving the offset of a descriptor that is open on a regular file. -/
theorem FsInv.view_setOpen (hi : FsInv s) {fd : Int} {p i x : Nat} {f : File}
    (hfd : s.vfsGetFile fd = some p) (hf : f.inode = some i) (hb : (s.bytesOf i).isSome) :
    (s.setOpen p { f with offset := x }).view
      = { s.view with desc := Function.update s.view.desc fd (some (i, x)) } := by
  obtain ⟨hnn, -, hopen⟩ := vfsGetFile_eq_some hfd
  have hdesc : (s.setOpen p { f with offset := x }).descOf
      = Function.update s.descOf fd (some (i, x)) := by
    funext e
    have hget : (s.setOpen p { f with offset := x }).vfsGetFile e = s.vfsGetFile e := rfl
    by_cases he : e = fd
    · subst he
      have hfile : (s.setOpen p { f with offset := x }).files p = some { f with offset := x } :=
        Function.update_self ..
      rw [Function.update_self, descOf, hget, hfd, Option.bind_some, hfile, Option.bind_some]
      simp only [hf, Option.bind_some]
      exact if_pos hb
    · rw [Function.update_of_ne he, descOf, descOf, hget]
      cases hq : s.vfsGetFile e with
      | none => rfl
      | some q =>
          obtain ⟨hnn', -, hopen'⟩ := vfsGetFile_eq_some hq
          have hqp : q ≠ p := by
            intro heq
            have := hi.own e.toNat fd.toNat p (heq ▸ hopen') hopen
            omega
          have hfile : (s.setOpen p { f with offset := x }).files q = s.files q :=
            Function.update_of_ne hqp ..
          rw [Option.bind_some, Option.bind_some, hfile]
          rfl
  unfold view
  rw [hdesc]
  rfl

theorem FsInv.setOpen (hi : FsInv s) {p x : Nat} {f : File} (hp : s.files p = some f) :
    FsInv (s.setOpen p { f with offset := x }) := by
  refine ⟨hi.inode, hi.slot, ?_, hi.own⟩
  intro e q hq
  obtain ⟨g, j, hg, hj, hino⟩ := hi.file e q hq
  by_cases hqp : q = p
  · subst hqp
    rw [hp] at hg
    obtain rfl := Option.some.inj hg
    exact ⟨_, j, Function.update_self .., hj, hino⟩
  · exact ⟨g, j, (Function.update_of_ne hqp ..).trans hg, hj, hino⟩

/-! ### `vfs_read` and `vfs_write` -/

/-- A descriptor that is not open on a regular file is refused, by one layer or the other. -/
theorem FsInv.stream_closed (hi : FsInv s) {fd : Int} {buf : Buf}
    {op : Nat → Nat → Option (Int × Buf × Fs)} (hd : s.descOf fd = none)
    (hop : ∀ i offset ino, s.bytesOf i = none → s.inodes i = some ino →
      op i offset = some (-1, buf, s)) :
    s.vfsStream fd buf op = some (-1, buf, s) := by
  unfold vfsStream
  cases hget : s.vfsGetFile fd with
  | none => rfl
  | some p =>
      obtain ⟨-, -, hopen⟩ := vfsGetFile_eq_some hget
      obtain ⟨f, i, hf, hfi, ino, hino⟩ := hi.file _ p hopen
      have hb : s.bytesOf i = none := by
        rw [descOf, hget, Option.bind_some, hf, Option.bind_some, hfi, Option.bind_some] at hd
        split at hd
        · cases hd
        · rename_i hnot
          exact Option.not_isSome_iff_eq_none.mp hnot
      simp only [Option.bind_eq_bind, Option.bind_some, hf, hfi, hino]
      split
      · rfl
      · rw [hop i f.offset ino hb hino]
        rfl

/-- The open file of a descriptor. -/
structure OpenOn (s : Fs) (fd : Int) (i : Nat) (p : Nat) (f : File) : Prop where
  get : s.vfsGetFile fd = some p
  file : s.files p = some f
  inode : f.inode = some i

theorem openOn_of_desc {fd : Int} {i off : Nat} (hd : s.descOf fd = some (i, off)) :
    ∃ p f xs, OpenOn s fd i p f ∧ f.offset = off ∧ s.bytesOf i = some xs := by
  obtain ⟨p, hget, h⟩ := Option.bind_eq_some_iff.mp hd
  obtain ⟨f, hf, h⟩ := Option.bind_eq_some_iff.mp h
  obtain ⟨j, hj, h⟩ := Option.bind_eq_some_iff.mp h
  split at h
  · rename_i hsome
    obtain ⟨rfl, rfl⟩ := Prod.mk.inj (Option.some.inj h)
    obtain ⟨xs, hxs⟩ := Option.isSome_iff_exists.mp hsome
    exact ⟨p, f, xs, ⟨hget, hf, hj⟩, rfl, hxs⟩
  · cases h

/-- The file system after a call that has come back with `n`. -/
def moved (s : Fs) (p : Nat) (f : File) (n : Int) : Fs :=
  if 0 < n then s.setOpen p { f with offset := u64 (f.offset + n.toNat) } else s

theorem OpenOn.stream {fd : Int} {i p : Nat} {f : File} {buf : Buf}
    {op : Nat → Nat → Option (Int × Buf × Fs)} (h : OpenOn s fd i p f) {k : Nat} {ino : Inode}
    {xs : List UInt8} (hreg : Regular s i k ino xs) :
    s.vfsStream fd buf op = (op i f.offset).map fun r => (r.1, r.2.1, r.2.2.moved p f r.1) := by
  have hmode : ¬ino.mode &&& vfsModeFile = 0 := by
    rw [hreg.inodeMode]
    decide
  unfold vfsStream
  simp only [Option.bind_eq_bind, Option.bind_some, h.get, h.file, h.inode, hreg.inode]
  rw [if_neg hmode]
  cases op i f.offset with
  | none => rfl
  | some r =>
      simp only [Option.bind_some, Option.map_some, moved, h.inode]
      rfl

/-- The offset moves by the count, also where that is nothing. -/
theorem FsInv.moved (hi : FsInv s) {fd : Int} {i p n : Nat} {f : File} {xs : List UInt8}
    (h : OpenOn s fd i p f) (hb : s.bytesOf i = some xs) (hsmall : f.offset + n < 2 ^ 64) :
    FsInv (s.moved p f n) ∧ (s.moved p f n).view
      = { s.view with desc := Function.update s.view.desc fd (some (i, f.offset + n)) } := by
  have hsome : (s.bytesOf i).isSome := by rw [hb]; rfl
  unfold Fs.moved
  by_cases hn : (0 : Int) < n
  · rw [if_pos hn, Int.toNat_natCast, u64, Nat.mod_eq_of_lt hsmall]
    exact ⟨hi.setOpen h.file, hi.view_setOpen h.get h.inode hsome⟩
  · rw [if_neg hn]
    refine ⟨hi, ?_⟩
    have hdesc : s.view.desc fd = some (i, f.offset + n) := by
      have hzero : n = 0 := by omega
      rw [hzero, Nat.add_zero]
      show s.descOf fd = _
      rw [descOf, h.get, Option.bind_some, h.file, Option.bind_some, h.inode, Option.bind_some,
        if_pos hsome]
    rw [← hdesc, Function.update_eq_self]

/-- **`vfs_read`** reads the array at the offset of the descriptor. -/
theorem FsInv.vfsRead (hi : FsInv s) (hb : s.view.InBounds) {len : Nat} (hlen : len < 2 ^ 31)
    (fd : Int) (buf : Buf) :
    (s.view.desc fd = none ∧ s.vfsRead fd buf len = some (-1, buf, s)) ∨
    ∃ out s', s.view.read fd len = some (out, s'.view) ∧ FsInv s' ∧
      s.vfsRead fd buf len = some ((out.length : Int), copied buf out, s') := by
  cases hd : s.view.desc fd with
  | none =>
      refine Or.inl ⟨rfl, ?_⟩
      unfold Fs.vfsRead
      apply hi.stream_closed hd
      intro i offset ino hbytes hino
      rw [ramfsRead_none hbytes hino]
      rfl
  | some io =>
      obtain ⟨i, off⟩ := io
      obtain ⟨p, f, xs, hopen, hoff, hxs⟩ := openOn_of_desc hd
      obtain ⟨k, ino, hreg⟩ := hi.regular hxs
      obtain ⟨ys, hys, hle⟩ := hb fd i off hd
      obtain rfl : xs = ys := Option.some.inj (hxs.symm.trans hys)
      have hsmall := hreg.small
      have hslice : s.view.slice i off len = (xs.drop off).take len := by
        rw [State.slice, show s.view.bytes i = some xs from hxs, Option.getD_some]
      have hlength : (s.view.slice i off len).length = min len (xs.length - off) :=
        State.length_slice hys len
      obtain ⟨hi', hview⟩ := hi.moved hopen hxs
        (show f.offset + (s.view.slice i off len).length < 2 ^ 64 by rw [hoff]; omega)
      refine Or.inr ⟨s.view.slice i off len, _, ?_, hi', ?_⟩
      · rw [hview, State.read, hd, hoff]
        rfl
      · unfold Fs.vfsRead
        rw [hopen.stream hreg, hoff, hreg.ramfsRead hlen, ← hslice]
        rfl

/-- **`vfs_write`** writes the array at the offset of the descriptor, unless the file would have to
grow and there is no room. -/
theorem FsInv.vfsWrite (hi : FsInv s) (hb : s.view.InBounds) {fd : Int} {len : Nat}
    (hsize : ∀ i off, s.view.desc fd = some (i, off) → off + len < 2 ^ 31) (buf : Buf)
    (answer : Option Buf) :
    (s.view.desc fd = none ∧ s.vfsWrite fd buf len answer = some (-1, buf, s)) ∨
    (s.view.Grows fd len ∧ answer = none ∧ s.vfsWrite fd buf len answer = some (-1, buf, s)) ∨
    ∃ s', s.view.write fd (bytesFrom buf 0 len) = some s'.view ∧
      (answer = none → ¬s.view.Grows fd len) ∧ FsInv s' ∧
      s.vfsWrite fd buf len answer = some ((len : Int), buf, s') := by
  cases hd : s.view.desc fd with
  | none =>
      refine Or.inl ⟨rfl, ?_⟩
      unfold Fs.vfsWrite
      apply hi.stream_closed hd
      intro i offset ino hbytes hino
      rw [ramfsWrite_none hbytes hino]
      rfl
  | some io =>
      obtain ⟨i, off⟩ := io
      obtain ⟨p, f, xs, hopen, hoff, hxs⟩ := openOn_of_desc hd
      obtain ⟨k, ino, hreg⟩ := hi.regular hxs
      obtain ⟨ys, hys, hle⟩ := hb fd i off hd
      obtain rfl : xs = ys := Option.some.inj (hxs.symm.trans hys)
      have hsmall := hreg.small
      have hend := hsize i off hd
      have hbytes : (s.view.bytes i).getD [] = xs := by
        rw [show s.view.bytes i = some xs from hxs, Option.getD_some]
      have hgrows : s.view.Grows fd len ↔ xs.length < off + len := by
        constructor
        · intro ⟨j, o, hjo, hlt⟩
          obtain ⟨rfl, rfl⟩ := Prod.mk.inj (Option.some.inj (hd.symm.trans hjo))
          rwa [hbytes] at hlt
        · intro hlt
          exact ⟨i, off, hd, by rwa [hbytes]⟩
      refine Or.inr ?_
      unfold Fs.vfsWrite
      rw [hopen.stream hreg, hoff, hreg.ramfsWrite hle hend]
      by_cases hfail : xs.length < off + len ∧ answer = none
      · rw [if_pos hfail]
        exact Or.inl ⟨hgrows.mpr hfail.1, hfail.2, rfl⟩
      · rw [if_neg hfail]
        set zs := overwrite xs off (bytesFrom buf 0 len) with hzs
        have hlen : zs.length < 2 ^ 31 := by
          rw [hzs, length_overwrite hle, length_bytesFrom]
          omega
        have hopen' : OpenOn (s.stored i k ino zs) fd i p f := ⟨hopen.get, hopen.file, hopen.inode⟩
        have hxs' : (s.stored i k ino zs).bytesOf i = some zs := by
          rw [hi.bytesOf_stored hreg, Function.update_self]
        obtain ⟨hi', hview⟩ := (hi.stored hreg hlen).moved hopen' hxs'
          (show f.offset + len < 2 ^ 64 by rw [hoff]; omega)
        refine Or.inr ⟨_, ?_, fun hnone hgrow => hfail ⟨hgrows.mp hgrow, hnone⟩, hi', rfl⟩
        rw [hview, hi.view_stored hreg, State.write, hd, hoff]
        simp only [Option.map_some, hbytes, length_bytesFrom]
        rw [← hzs]

end SystemN.Fs
