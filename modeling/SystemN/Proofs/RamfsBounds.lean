/-
Whether `ramfs` stays inside the bytes of a file.

A block has as many bytes as `f->size` says, whatever is read and written.  But `offset + len`
is computed modulo `2 ^ 64`: if the sum wraps, the bound is not the one meant, and `memcpy`
runs past the end of the block.  Without a wrap the copy is as long as it should be, and the
`int` that is returned is its length if that fits.
-/
import SystemN.Proofs.Fs

namespace SystemN.Fs

open Streams

variable {s s' : Fs} {i k n offset len : Nat} {buf : Buf} {answer : Option Buf} {ret : Int}

/-! ### The blocks of the files -/

/-- The block of each file has at least `f->size` bytes, and it fits in memory. -/
def Sized (s : Fs) : Prop :=
  ∀ k, (s.fileTable k).size ≤ (s.fileTable k).data.length ∧ (s.fileTable k).data.length < 2 ^ 64

theorem Sized.setFile (h : s.Sized) (k : Nat) {f : RamfsFile} (hsize : f.size ≤ f.data.length)
    (hlt : f.data.length < 2 ^ 64) : (s.setFile k f).Sized := by
  intro k'
  by_cases hk : k' = k
  · rw [hk, show (s.setFile k f).fileTable k = f from Function.update_self ..]
    exact ⟨hsize, hlt⟩
  · rw [show (s.setFile k f).fileTable k' = s.fileTable k' from Function.update_of_ne hk ..]
    exact h k'

theorem realloc_length {old data : List UInt8} (h : realloc old n answer = some data) :
    data.length = n := by
  obtain ⟨junk, -, rfl⟩ := Option.map_eq_some_iff.mp h
  rw [List.length_map, List.length_range]

theorem memcpyTo_length {data data' : List UInt8} (h : memcpyTo buf offset n i data = some data') :
    data'.length = data.length := by
  induction n generalizing i data with
  | zero => rw [← Option.some.inj h]
  | succ n ih =>
      rw [memcpyTo] at h
      split at h
      · rw [ih h, List.length_set]
      · cases h

/-! ### Copies that leave the block -/

theorem memcpyFrom_none {data : List UInt8} (hn : 0 < n) (h : data.length < offset + i + n) :
    memcpyFrom data offset n i buf = none := by
  induction n generalizing i buf with
  | zero => exact absurd hn (Nat.lt_irrefl 0)
  | succ n ih =>
      rw [memcpyFrom]
      cases hget : data[offset + i]? with
      | none => rfl
      | some c =>
          obtain ⟨hin, -⟩ := List.getElem?_eq_some_iff.mp hget
          exact ih (by omega) (by omega)

theorem memcpyTo_none {data : List UInt8} (hn : 0 < n) (h : data.length < offset + i + n) :
    memcpyTo buf offset n i data = none := by
  induction n generalizing i data with
  | zero => exact absurd hn (Nat.lt_irrefl 0)
  | succ n ih =>
      rw [memcpyTo]
      by_cases hin : offset + i < data.length
      · rw [if_pos hin]
        exact ih (by omega) (by rw [List.length_set]; omega)
      · rw [if_neg hin]

/-! ### The `int` -/

/-- The number is its own `int`, or that is -1. -/
def IntFits (n : Nat) : Prop := n < 2 ^ 31 ∨ n % 2 ^ 32 = 2 ^ 32 - 1

theorem toInt_fits_iff : toInt n = -1 ∨ toInt n = n ↔ IntFits n := by
  unfold toInt IntFits
  rw [Int.bmod_def]
  split
  · omega
  · omega

/-! ### The two calls -/

/-- The regular file of an inode. -/
def fileOf (s : Fs) (i : Nat) : Option RamfsFile :=
  (s.slotOf i).bind fun k =>
    if (s.fileTable k).mode = vfsModeFile then some (s.fileTable k) else none

/-- How many bytes there are to be read. -/
def readLen (f : RamfsFile) (offset len : Nat) : Nat :=
  if offset < f.size then min len (f.size - offset) else 0

/-- `ramfs_read` copies the bytes there are, and answers how many these are, or -1. -/
def ReadExact (s : Fs) (i offset len : Nat) : Prop :=
  ∀ buf, ∃ ret buf', s.ramfsRead i offset buf len = some (ret, buf') ∧
    match s.fileOf i with
    | none => ret = -1 ∧ buf' = buf
    | some f =>
        (ret = -1 ∨ ret = readLen f offset len) ∧
          ∀ j, buf' j = if j < readLen f offset len then f.data.getD (offset + j) 0 else buf j

/-- The sum does not wrap if there is something to be read, and the number of bytes is an `int`. -/
def ReadFits (s : Fs) (i offset len : Nat) : Prop :=
  ∀ f, s.fileOf i = some f → f.size ≤ offset ∨
    offset + len < 2 ^ 64 ∧ IntFits (readLen f offset len)

/-- A write of `len` bytes at `offset`: it has put them into the file, which has grown to that end,
and nowhere else. -/
structure Written (s : Fs) (i offset : Nat) (buf : Buf) (len : Nat) (answer : Option Buf) (s' : Fs) :
    Prop where
  /-- The bytes are those of the block as it has grown, with the new ones in their place. -/
  bytes : ∀ f, s.fileOf i = some f → ∃ f' grown, s'.fileOf i = some f' ∧ offset + len ≤ f'.size ∧
    (if f.size < offset + len then realloc f.data (offset + len) answer = some grown
      else grown = f.data) ∧ f'.data = overwrite grown offset (bytesFrom buf 0 len)
  other : ∀ k, s.slotOf i ≠ some k → s'.fileTable k = s.fileTable k

/-- `ramfs_write` writes all of it and answers its length, or -1, or it does nothing and answers
-1. -/
def WriteExact (s : Fs) (i offset : Nat) (buf : Buf) (len : Nat) (answer : Option Buf) : Prop :=
  ∃ ret s', s.ramfsWrite i offset buf len answer = some (ret, s') ∧ s'.Sized ∧
    (ret = -1 ∧ s' = s ∨
      (ret = -1 ∨ ret = len) ∧ (s.fileOf i).isSome ∧ Written s i offset buf len answer s')

/-- The file cannot grow, or the sum does not wrap and the length is an `int`. -/
def WriteFits (s : Fs) (i offset len : Nat) (answer : Option Buf) : Prop :=
  ∀ f, s.fileOf i = some f → f.size < u64 (offset + len) ∧ answer = none ∨
    offset + len < 2 ^ 64 ∧ IntFits len

theorem fileOf_eq_some {f : RamfsFile} (h : s.fileOf i = some f) :
    ∃ ino k, s.inodes i = some ino ∧ ino.internal = some k ∧ s.slotOf i = some k ∧
      (s.fileTable k).mode = vfsModeFile ∧ s.fileTable k = f := by
  obtain ⟨k, hslot, hfile⟩ := Option.bind_eq_some_iff.mp h
  obtain ⟨ino, hino, hint⟩ := Option.bind_eq_some_iff.mp hslot
  split at hfile
  · next hmode => exact ⟨ino, k, hino, hint, hslot, hmode, Option.some.inj hfile⟩
  · cases hfile

theorem fileOf_of_slot (hslot : s.slotOf i = some k) (hmode : (s.fileTable k).mode = vfsModeFile) :
    s.fileOf i = some (s.fileTable k) := by
  rw [fileOf, hslot, Option.bind_some, if_pos hmode]

/-- The other inodes are refused. -/
theorem bytesOf_of_fileOf_none (h : s.fileOf i = none) : s.bytesOf i = none := by
  unfold bytesOf
  unfold fileOf at h
  cases hslot : s.slotOf i with
  | none => rfl
  | some k =>
      rw [hslot, Option.bind_some] at h
      rw [Option.bind_some]
      split at h
      · cases h
      · next hmode => exact if_neg hmode

/-! ### `ramfs_read` -/

/-- What a read of a file comes down to. -/
theorem ramfsRead_file {f : RamfsFile} (h : s.fileOf i = some f) :
    s.ramfsRead i offset buf len =
      if f.size ≤ offset then some (0, buf)
      else (memcpyFrom f.data offset
        (if f.size < u64 (offset + len) then f.size - offset else len) 0 buf).map fun buf =>
          (toInt (if f.size < u64 (offset + len) then f.size - offset else len), buf) := by
  obtain ⟨ino, k, hino, hint, -, hmode, rfl⟩ := fileOf_eq_some h
  unfold ramfsRead
  rw [hino]
  simp only [Option.bind_eq_bind, Option.bind_some, hint]
  rw [if_neg (not_not.mpr hmode), Option.map_eq_bind]
  rfl

theorem readExact_file {f : RamfsFile} (h : s.fileOf i = some f) :
    s.ReadExact i offset len ↔ ∀ buf, ∃ ret buf', s.ramfsRead i offset buf len = some (ret, buf') ∧
      (ret = -1 ∨ ret = readLen f offset len) ∧
        ∀ j, buf' j = if j < readLen f offset len then f.data.getD (offset + j) 0 else buf j := by
  unfold ReadExact
  rw [h]

/-- Without a wrap the bound is the one meant. -/
theorem readExact_inside {f : RamfsFile} (hfile : s.fileOf i = some f) (hsize : f.size ≤ f.data.length)
    (hend : offset < f.size) (hwrap : offset + len < 2 ^ 64) :
    s.ReadExact i offset len ↔ IntFits (readLen f offset len) := by
  have hread : readLen f offset len = min len (f.size - offset) := if_pos hend
  have hto : (if f.size < u64 (offset + len) then f.size - offset else len) =
      readLen f offset len := by
    rw [u64, Nat.mod_eq_of_lt hwrap, hread]
    split
    · omega
    · omega
  have hcall : ∀ buf, s.ramfsRead i offset buf len = some (toInt (readLen f offset len),
      fun j => if 0 ≤ j ∧ j < 0 + readLen f offset len then f.data.getD (offset + j) 0
        else buf j) := by
    intro buf
    rw [ramfsRead_file hfile, if_neg (Nat.not_le.mpr hend), hto, memcpyFrom_eq _ _ _ (by omega)]
    rfl
  rw [readExact_file hfile, ← toInt_fits_iff]
  constructor
  · intro hexact
    obtain ⟨ret, buf', hret, hint, -⟩ := hexact fun _ => 0
    rw [hcall] at hret
    obtain ⟨rfl, -⟩ := Prod.mk.inj (Option.some.inj hret)
    exact hint
  · intro hint buf
    refine ⟨_, _, hcall buf, hint, fun j => ?_⟩
    simp only [Nat.zero_le, true_and, Nat.zero_add]

/-- With one, `memcpy` is to copy all of `len`. -/
theorem not_readExact_wrap {f : RamfsFile} (hfile : s.fileOf i = some f)
    (hfit : f.data.length < 2 ^ 64) (hoff : offset < 2 ^ 64) (hlen : len < 2 ^ 64)
    (hend : offset < f.size) (hwrap : ¬offset + len < 2 ^ 64) : ¬s.ReadExact i offset len := by
  have hto : (if f.size < u64 (offset + len) then f.size - offset else len) = len := by
    refine if_neg ?_
    simp only [u64]
    omega
  rw [readExact_file hfile]
  intro hexact
  obtain ⟨ret, buf', hret, -⟩ := hexact fun _ => 0
  rw [ramfsRead_file hfile, if_neg (Nat.not_le.mpr hend), hto,
    memcpyFrom_none (by omega) (by omega)] at hret
  cases hret

theorem readExact_iff {ino : Inode} (hs : s.Sized) (hino : s.inodes i = some ino)
    (hoff : offset < 2 ^ 64) (hlen : len < 2 ^ 64) :
    s.ReadExact i offset len ↔ s.ReadFits i offset len := by
  cases hfile : s.fileOf i with
  | none =>
      have hrefused : ∀ buf, s.ramfsRead i offset buf len = some (-1, buf) := fun buf =>
        ramfsRead_none (bytesOf_of_fileOf_none hfile) hino
      refine ⟨fun _ f hf => ?_, fun _ buf => ⟨-1, buf, hrefused buf, ?_⟩⟩
      · rw [hfile] at hf
        cases hf
      · rw [hfile]
        exact ⟨rfl, rfl⟩
  | some f =>
      obtain ⟨hsize, hfit⟩ : f.size ≤ f.data.length ∧ f.data.length < 2 ^ 64 := by
        obtain ⟨-, k, -, -, -, -, rfl⟩ := fileOf_eq_some hfile
        exact hs k
      have hfits : s.ReadFits i offset len ↔ f.size ≤ offset ∨
          offset + len < 2 ^ 64 ∧ IntFits (readLen f offset len) := by
        unfold ReadFits
        rw [hfile]
        exact ⟨fun hall => hall f rfl, fun hone f' hf' => Option.some.inj hf' ▸ hone⟩
      rw [hfits]
      by_cases hend : f.size ≤ offset
      · have hzero : readLen f offset len = 0 := if_neg (Nat.not_lt.mpr hend)
        rw [readExact_file hfile]
        refine ⟨fun _ => Or.inl hend, fun _ buf => ⟨0, buf, ?_, ?_, fun j => ?_⟩⟩
        · rw [ramfsRead_file hfile, if_pos hend]
        · rw [hzero]
          exact Or.inr rfl
        · rw [hzero, if_neg (Nat.not_lt_zero j)]
      · rw [or_iff_right hend]
        have hend' : offset < f.size := Nat.not_le.mp hend
        by_cases hwrap : offset + len < 2 ^ 64
        · rw [and_iff_right hwrap]
          exact readExact_inside hfile hsize hend' hwrap
        · have hnot := not_readExact_wrap hfile hfit hoff hlen hend' hwrap
          exact ⟨fun hexact => absurd hexact hnot, fun hfits => absurd hfits.1 hwrap⟩

/-! ### `ramfs_write` -/

/-- The file system once the file has been made longer. -/
def grownTo (s : Fs) (i k : Nat) (ino : Inode) (data : List UInt8) (size : Nat) : Fs :=
  (s.setFile k { s.fileTable k with data := data, size := size }).setInode i { ino with size := size }

/-- The file system once `ys` has been written into a block. -/
def putBytes (s : Fs) (k : Nat) (data : List UInt8) : Fs :=
  s.setFile k { s.fileTable k with data := data }

theorem grownTo_file {ino : Inode} {data : List UInt8} {size : Nat} :
    (s.grownTo i k ino data size).fileTable k =
      { s.fileTable k with data := data, size := size } := Function.update_self ..

theorem grownTo_other {ino : Inode} {data : List UInt8} {size k' : Nat} (hk : k' ≠ k) :
    (s.grownTo i k ino data size).fileTable k' = s.fileTable k' := Function.update_of_ne hk ..

/-- What a write to a file comes down to. -/
theorem ramfsWrite_file {ino : Inode} (hino : s.inodes i = some ino) (hint : ino.internal = some k)
    (hmode : (s.fileTable k).mode = vfsModeFile) :
    s.ramfsWrite i offset buf len answer =
      if (s.fileTable k).size < u64 (offset + len) then
        match realloc (s.fileTable k).data (u64 (offset + len)) answer with
        | none => some (-1, s)
        | some data => (memcpyTo buf offset len 0 data).map fun data' =>
            (toInt len, (s.grownTo i k ino data (u64 (offset + len))).putBytes k data')
      else (memcpyTo buf offset len 0 (s.fileTable k).data).map fun data =>
        (toInt len, s.putBytes k data) := by
  unfold ramfsWrite
  rw [hino]
  simp only [Option.bind_eq_bind, Option.bind_some, hint]
  rw [if_neg (not_not.mpr hmode)]
  split
  · cases realloc (s.fileTable k).data (u64 (offset + len)) answer with
    | none => rfl
    | some data =>
        simp only [Option.map_eq_bind, putBytes, grownTo_file]
        simp only [grownTo, hint]
        rfl
  · rw [Option.map_eq_bind]
    rfl

/-- The block is as long as `size` says, and the copy ends inside it. -/
theorem written_putBytes {t : Fs} {grown : List UInt8} (hslot : s.slotOf i = some k)
    (hmode : (s.fileTable k).mode = vfsModeFile) (hslot' : t.slotOf i = some k)
    (hmode' : (t.fileTable k).mode = vfsModeFile) (hother : ∀ k' ≠ k, t.fileTable k' = s.fileTable k')
    (hgrown : if (s.fileTable k).size < offset + len then
        realloc (s.fileTable k).data (offset + len) answer = some grown
      else grown = (s.fileTable k).data) (hend : offset + len ≤ (t.fileTable k).size) :
    Written s i offset buf len answer
      (t.putBytes k (overwrite grown offset (bytesFrom buf 0 len))) := by
  have hself : (t.putBytes k (overwrite grown offset (bytesFrom buf 0 len))).fileTable k =
      { t.fileTable k with data := overwrite grown offset (bytesFrom buf 0 len) } :=
    Function.update_self ..
  refine ⟨fun f hf => ⟨_, grown, fileOf_of_slot hslot' ?_, ?_, ?_, ?_⟩, fun k' hk' => ?_⟩
  · rw [hself]
    exact hmode'
  · rw [hself]
    exact hend
  · rw [fileOf_of_slot hslot hmode] at hf
    rw [← Option.some.inj hf]
    exact hgrown
  · rw [hself]
  · have hne : k' ≠ k := fun heq => hk' (heq ▸ hslot)
    rw [show (t.putBytes k _).fileTable k' = t.fileTable k' from Function.update_of_ne hne ..]
    exact hother k' hne

/-- A copy that ends inside the block: the call is exact if the `int` is. -/
theorem writeExact_of_copy {t : Fs} {grown : List UInt8} (hfile : (s.fileOf i).isSome)
    (hcopy : memcpyTo buf offset len 0 grown = some (overwrite grown offset (bytesFrom buf 0 len)))
    (hcall : s.ramfsWrite i offset buf len answer =
      (memcpyTo buf offset len 0 grown).map fun data => (toInt len, t.putBytes k data))
    (hsized : t.Sized) (hlength : (t.fileTable k).size ≤ grown.length) (hlt : grown.length < 2 ^ 64)
    (hwritten : Written s i offset buf len answer
      (t.putBytes k (overwrite grown offset (bytesFrom buf 0 len)))) :
    s.WriteExact i offset buf len answer ↔ IntFits len := by
  rw [hcopy] at hcall
  rw [← toInt_fits_iff]
  constructor
  · rintro ⟨ret, s', hret, -, hcase⟩
    rw [hcall] at hret
    obtain ⟨rfl, -⟩ := Prod.mk.inj (Option.some.inj hret)
    rcases hcase with ⟨hneg, -⟩ | ⟨hint, -⟩
    · exact Or.inl hneg
    · exact hint
  · intro hint
    have hkept := memcpyTo_length hcopy
    exact ⟨_, _, hcall, hsized.setFile k (Nat.le_trans hlength hkept.ge) (hkept.symm ▸ hlt),
      Or.inr ⟨hint, hfile, hwritten⟩⟩

/-- A file that grows, without a wrap. -/
theorem writeExact_grown {ino : Inode} {data : List UInt8} (hs : s.Sized)
    (hino : s.inodes i = some ino) (hint : ino.internal = some k)
    (hmode : (s.fileTable k).mode = vfsModeFile) (hwrap : offset + len < 2 ^ 64)
    (hgrow : (s.fileTable k).size < offset + len)
    (hanswer : realloc (s.fileTable k).data (offset + len) answer = some data) :
    s.WriteExact i offset buf len answer ↔ IntFits len := by
  have hslot : s.slotOf i = some k := slotOf_eq hino hint
  have hlength := realloc_length hanswer
  have hsum : u64 (offset + len) = offset + len := Nat.mod_eq_of_lt hwrap
  have hcall : s.ramfsWrite i offset buf len answer = _ := ramfsWrite_file hino hint hmode
  rw [hsum, if_pos hgrow, hanswer] at hcall
  have hgrown : (s.grownTo i k ino data (offset + len)).fileTable k = _ := grownTo_file
  have hslot' : (s.grownTo i k ino data (offset + len)).slotOf i = some k :=
    slotOf_eq (Function.update_self ..) hint
  have hsized : (s.grownTo i k ino data (offset + len)).Sized :=
    hs.setFile k (f := { s.fileTable k with data := data, size := offset + len })
      hlength.ge (hlength.symm ▸ hwrap)
  refine writeExact_of_copy ?_ ?_ hcall hsized ?_ (hlength.symm ▸ hwrap) ?_
  · rw [fileOf_of_slot hslot hmode]
    rfl
  · exact memcpyTo_eq len 0 data (by omega)
  · rw [hgrown]
    exact hlength.ge
  · refine written_putBytes hslot hmode hslot' ?_ (fun k' => grownTo_other) ?_ ?_
    · rw [hgrown]
      exact hmode
    · rw [if_pos hgrow]
      exact hanswer
    · rw [hgrown]

theorem writeExact_iff {ino : Inode} (hs : s.Sized) (hino : s.inodes i = some ino)
    (hoff : offset < 2 ^ 64) (hlen : len < 2 ^ 64) :
    s.WriteExact i offset buf len answer ↔ s.WriteFits i offset len answer := by
  cases hfile : s.fileOf i with
  | none =>
      have hrefused : s.ramfsWrite i offset buf len answer = some (-1, s) :=
        ramfsWrite_none (bytesOf_of_fileOf_none hfile) hino
      refine ⟨fun _ f hf => ?_, fun _ => ⟨-1, s, hrefused, hs, Or.inl ⟨rfl, rfl⟩⟩⟩
      rw [hfile] at hf
      cases hf
  | some f =>
      have hsome : (s.fileOf i).isSome := by rw [hfile]; rfl
      obtain ⟨ino', k, hino', hint, hslot, hmode, rfl⟩ := fileOf_eq_some hfile
      obtain rfl := Option.some.inj (hino.symm.trans hino')
      have hfits : s.WriteFits i offset len answer ↔
          (s.fileTable k).size < u64 (offset + len) ∧ answer = none ∨
            offset + len < 2 ^ 64 ∧ IntFits len := by
        unfold WriteFits
        rw [hfile]
        exact ⟨fun hall => hall _ rfl, fun hone f' hf' => Option.some.inj hf' ▸ hone⟩
      obtain ⟨hsize, hlt⟩ := hs k
      have hcall : s.ramfsWrite i offset buf len answer = _ := ramfsWrite_file hino hint hmode
      rw [hfits]
      by_cases hgrow : (s.fileTable k).size < u64 (offset + len)
      · rw [if_pos hgrow] at hcall
        cases hanswer : realloc (s.fileTable k).data (u64 (offset + len)) answer with
        | none =>
            have hnone : answer = none := Option.map_eq_none_iff.mp hanswer
            rw [hanswer] at hcall
            exact ⟨fun _ => Or.inl ⟨hgrow, hnone⟩, fun _ => ⟨-1, s, hcall, hs, Or.inl ⟨rfl, rfl⟩⟩⟩
        | some data =>
            have hne : answer ≠ none := by
              rintro rfl
              cases hanswer
            rw [or_iff_right fun hc => hne hc.2]
            by_cases hwrap : offset + len < 2 ^ 64
            · have hsum : u64 (offset + len) = offset + len := Nat.mod_eq_of_lt hwrap
              rw [hsum] at hgrow hanswer
              rw [and_iff_right hwrap]
              exact writeExact_grown hs hino hint hmode hwrap hgrow hanswer
            · -- the block ends where the wrapped sum says
              have hlength := realloc_length hanswer
              refine ⟨?_, fun hfit => absurd hfit.1 hwrap⟩
              rintro ⟨ret, s', hret, -⟩
              rw [hanswer] at hcall
              dsimp only at hcall
              simp only [u64] at hlength
              rw [hcall, memcpyTo_none (by omega) (by omega)] at hret
              cases hret
      · rw [if_neg hgrow] at hcall
        rw [or_iff_right fun hc => hgrow hc.1]
        by_cases hwrap : offset + len < 2 ^ 64
        · have hsum : u64 (offset + len) = offset + len := Nat.mod_eq_of_lt hwrap
          rw [hsum] at hgrow
          rw [and_iff_right hwrap]
          refine writeExact_of_copy hsome ?_ hcall hs hsize hlt ?_
          · exact memcpyTo_eq len 0 _ (by omega)
          · exact written_putBytes hslot hmode hslot hmode (fun _ _ => rfl) (if_neg hgrow ▸ rfl)
              (Nat.not_lt.mp hgrow)
        · refine ⟨?_, fun hfit => absurd hfit.1 hwrap⟩
          rintro ⟨ret, s', hret, -⟩
          rw [hcall, memcpyTo_none (by omega) (by omega)] at hret
          cases hret

/-- **`ramfs_read` and `ramfs_write`** stay inside the file and say how much they have copied,
exactly if `offset + len` does not wrap where it counts and the length is an `int`. -/
theorem ramfs_exact_iff {ino : Inode} (hs : s.Sized) (hino : s.inodes i = some ino)
    (hoff : offset < 2 ^ 64) (hlen : len < 2 ^ 64) :
    (s.ReadExact i offset len ↔ s.ReadFits i offset len) ∧
      ∀ buf answer, s.WriteExact i offset buf len answer ↔ s.WriteFits i offset len answer :=
  ⟨readExact_iff hs hino hoff hlen, fun _ _ => writeExact_iff hs hino hoff hlen⟩

/-! ### The blocks over a run -/

theorem ramfsWrite_sized (hs : s.Sized) (h : s.ramfsWrite i offset buf len answer = some (ret, s')) :
    s'.Sized := by
  cases hfile : s.fileOf i with
  | none =>
      cases hino : s.inodes i with
      | none =>
          rw [ramfsWrite, hino] at h
          cases h
      | some ino =>
          rw [ramfsWrite_none (bytesOf_of_fileOf_none hfile) hino] at h
          obtain ⟨-, rfl⟩ := Prod.mk.inj (Option.some.inj h)
          exact hs
  | some f =>
      obtain ⟨ino, k, hino, hint, -, hmode, -⟩ := fileOf_eq_some hfile
      obtain ⟨hsize, hlt⟩ := hs k
      rw [ramfsWrite_file hino hint hmode] at h
      split at h
      · cases hanswer : realloc (s.fileTable k).data (u64 (offset + len)) answer with
        | none =>
            rw [hanswer] at h
            obtain ⟨-, rfl⟩ := Prod.mk.inj (Option.some.inj h)
            exact hs
        | some data =>
            have hlength := realloc_length hanswer
            have hfit : data.length < 2 ^ 64 := hlength ▸ Nat.mod_lt _ (by decide)
            rw [hanswer] at h
            obtain ⟨data', hcopy, heq⟩ := Option.map_eq_some_iff.mp h
            obtain ⟨-, rfl⟩ := Prod.mk.inj heq
            have hkept := memcpyTo_length hcopy
            have hgrown : (s.grownTo i k ino data (u64 (offset + len))).Sized :=
              hs.setFile k (f := { s.fileTable k with data := data, size := u64 (offset + len) })
                hlength.ge hfit
            refine hgrown.setFile k ?_ (hkept.symm ▸ hfit)
            rw [grownTo_file]
            exact (hkept.trans hlength).ge
      · obtain ⟨data', hcopy, heq⟩ := Option.map_eq_some_iff.mp h
        obtain ⟨-, rfl⟩ := Prod.mk.inj heq
        have hkept := memcpyTo_length hcopy
        exact hs.setFile k (Nat.le_trans hsize hkept.ge) (hkept.symm ▸ hlt)

theorem createLoop_sized {mode : Nat} {inode : Option Nat} (hs : s.Sized)
    (h : createLoop mode inode n i s = some (ret, s')) : s'.Sized := by
  induction n generalizing i with
  | zero =>
      obtain ⟨-, rfl⟩ := Prod.mk.inj (Option.some.inj h)
      exact hs
  | succ n ih =>
      have hslot : (s.setFile i { s.fileTable i with mode := mode, data := [], size := 0 }).Sized :=
        hs.setFile i (Nat.le_refl 0) (Nat.two_pow_pos 64)
      rw [createLoop] at h
      split at h
      · cases h
      · split at h
        · cases inode with
          | none =>
              obtain ⟨-, rfl⟩ := Prod.mk.inj (Option.some.inj h)
              exact hslot
          | some p =>
              obtain ⟨-, rfl⟩ := Prod.mk.inj (Option.some.inj h)
              exact hslot.setFile i (Nat.le_refl 0) (Nat.two_pow_pos 64)
        · exact ih h

/-- The states that `ramfs_create` and `ramfs_write` lead to, by calls that come back. -/
inductive RamfsRun (ramfsMaxFiles : Nat) : Fs → Prop
  | start : RamfsRun ramfsMaxFiles ramfsCreateFs
  | create {s s' : Fs} {mode : Nat} {inode : Option Nat} {ret : Int}
      (hrun : RamfsRun ramfsMaxFiles s)
      (hcall : s.ramfsCreate ramfsMaxFiles mode inode = some (ret, s')) : RamfsRun ramfsMaxFiles s'
  | write {s s' : Fs} {i offset len : Nat} {buf : Buf} {answer : Option Buf} {ret : Int}
      (hrun : RamfsRun ramfsMaxFiles s)
      (hcall : s.ramfsWrite i offset buf len answer = some (ret, s')) : RamfsRun ramfsMaxFiles s'

/-- `f->data` always has `f->size` bytes. -/
theorem RamfsRun.sized (h : RamfsRun n s) : s.Sized := by
  induction h with
  | start => exact fun _ => ⟨Nat.le_refl 0, Nat.two_pow_pos 64⟩
  | create _ hcall ih => exact createLoop_sized ih hcall
  | write _ hcall ih => exact ramfsWrite_sized ih hcall

/-! ### A file of two bytes -/

/-- The first file has two bytes. -/
def twoBytes : Fs :=
  { ramfsCreateFs with
    fileTable := Function.update ramfsCreateFs.fileTable 0 ⟨[7, 7], 2, vfsModeFile, some 1⟩
    nextInodeNo := 2
    inodes := Function.update ramfsCreateFs.inodes 1 (some ⟨1, 2, vfsModeFile, some 0⟩) }

theorem twoBytes_sized : twoBytes.Sized :=
  (RamfsRun.start : RamfsRun maxOpenFiles _).sized.setFile 0
    (f := ⟨[7, 7], 2, vfsModeFile, some 1⟩) (Nat.le_refl 2) (by decide)

theorem ramfs_exact_iff_twoBytes :
    (twoBytes.ReadExact 1 1 8 ↔ twoBytes.ReadFits 1 1 8) ∧
      ∀ buf answer, twoBytes.WriteExact 1 1 buf 8 answer ↔ twoBytes.WriteFits 1 1 8 answer :=
  ramfs_exact_iff twoBytes_sized rfl (by decide) (by decide)

/-- At offset 1 of two bytes, with a length that makes the sum 0, both calls leave the block. -/
theorem ramfs_leaves_block :
    (∀ buf, twoBytes.ramfsRead 1 1 buf (2 ^ 64 - 1) = none) ∧
      ¬twoBytes.ReadExact 1 1 (2 ^ 64 - 1) ∧
      ∀ buf answer, twoBytes.ramfsWrite 1 1 buf (2 ^ 64 - 1) answer = none ∧
        ¬twoBytes.WriteExact 1 1 buf (2 ^ 64 - 1) answer := by
  have hfile : twoBytes.fileOf 1 = some ⟨[7, 7], 2, vfsModeFile, some 1⟩ := rfl
  have hread : ∀ buf, twoBytes.ramfsRead 1 1 buf (2 ^ 64 - 1) = none := by
    intro buf
    rw [ramfsRead_file hfile, if_neg (by decide), if_neg (by decide),
      memcpyFrom_none (by decide) (by decide)]
    rfl
  have hwrite : ∀ buf answer, twoBytes.ramfsWrite 1 1 buf (2 ^ 64 - 1) answer = none := by
    intro buf answer
    rw [ramfsWrite_file (s := twoBytes) (i := 1) (k := 0) rfl rfl rfl, if_neg (by decide),
      memcpyTo_none (by decide) (by decide)]
    rfl
  refine ⟨hread, fun h => ?_, fun buf answer => ⟨hwrite buf answer, ?_⟩⟩
  · obtain ⟨ret, buf', hret, -⟩ := h fun _ => 0
    rw [hread] at hret
    cases hret
  · rintro ⟨ret, s', hret, -⟩
    rw [hwrite] at hret
    cases hret

end SystemN.Fs
