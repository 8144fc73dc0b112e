/-
What `SYS_write` sends.

The count is a 64-bit register, and `sys_write` takes its low half; the bytes go out
through `uart_putsn`, which stops at a NUL as if they were a string.  So a call sends what
it is given if and only if the low half says the same, the buffer does not end at
`USER_END_VA` and there is no NUL in it.  A caller that repeats the call with the rest of
its buffer gets through it under the same conditions on the whole, and otherwise comes to a
call that sends nothing.
-/
import SystemN.Shell
import SystemN.Proofs.UserCopy
import SystemN.Proofs.UserRange
import Mathlib.Data.List.TakeWhile

namespace SystemN.Kernel

open Mm

variable {k k' : Kernel} {p fd buf n va : Nat} {clock : Nat → Nat}

/-! ### The bytes of a buffer -/

/-- The `n` bytes from `va`. -/
def userBytes (k : Kernel) (va n : Nat) : List UInt8 :=
  (List.range n).map fun i => k.userByte (va + i)

/-- The `n` bytes from `va` are mapped for the user to read. -/
def Readable (k : Kernel) (va n : Nat) : Prop :=
  ∀ i < n, UserMapped k.mm k.satpRoot (va + i) pteR

@[simp] theorem userBytes_length : (k.userBytes va n).length = n := by simp [userBytes]

theorem userBytes_succ (va n : Nat) :
    k.userBytes va (n + 1) = k.userByte va :: k.userBytes (va + 1) n := by
  unfold userBytes
  rw [List.range_succ_eq_map, List.map_cons, List.map_map]
  refine congrArg _ (List.map_congr_left fun i _ => ?_)
  rw [Function.comp_apply, Nat.succ_eq_add_one, Nat.add_comm i 1, ← Nat.add_assoc]

theorem userBytes_add (va m n : Nat) :
    k.userBytes va (m + n) = k.userBytes va m ++ k.userBytes (va + m) n := by
  unfold userBytes
  rw [List.range_add, List.map_append, List.map_map]
  refine congrArg _ (List.map_congr_left fun i _ => ?_)
  rw [Function.comp_apply, Nat.add_assoc]

theorem Readable.mono {m : Nat} (h : k.Readable va n) (hle : m ≤ n) : k.Readable va m :=
  fun i hi => h i (Nat.lt_of_lt_of_le hi hle)

theorem Readable.drop {m : Nat} (h : k.Readable va n) (hle : m ≤ n) : k.Readable (va + m) (n - m) :=
  fun i hi => by
    have := h (m + i) (by omega)
    rwa [← Nat.add_assoc] at this

theorem access_userByte {perm : Nat} (h : UserMapped k.mm k.satpRoot va perm) :
    ∃ pa, k.access va perm = .ok pa ∧ k.mm.mem pa = k.userByte va := by
  obtain ⟨pa, flags, htr, -, hperm⟩ := h
  refine ⟨pa, ?_, ?_⟩
  · unfold access
    rw [htr]
    exact if_pos hperm
  · unfold userByte
    rw [htr]

theorem loadUser_eq (h : k.Readable va n) : k.loadUser va n = .ok (k.userBytes va n) := by
  induction n generalizing va with
  | zero => rfl
  | succ n ih =>
      obtain ⟨pa, hacc, hbyte⟩ := access_userByte (h 0 (Nat.succ_pos n))
      have htail : k.Readable (va + 1) n := h.drop (Nat.le_add_left 1 n)
      rw [loadUser, show k.access va pteR = .ok pa from hacc, ok_bind, ih htail, ok_bind,
        userBytes_succ, show k.mm.mem pa = k.userByte va from hbyte]
      rfl

/-! ### One call -/

/-- What `uart_putsn` sends of the first `len` bytes of `s`. -/
def putsnSent (s : List UInt8) (len : Nat) : List UInt8 := (s.take len).takeWhile (· ≠ 0)

theorem uartPutsn_eq (s : List UInt8) (len : Nat) :
    k.uartPutsn s len = ((putsnSent s len).length,
      { k with uartOut := (putsnSent s len).reverse ++ k.uartOut }) := by
  induction s generalizing k len with
  | nil => simp [uartPutsn, putsnSent]
  | cons c s ih =>
      cases len with
      | zero => rfl
      | succ len =>
          rw [uartPutsn]
          by_cases hc : c = 0
          · rw [if_pos hc, hc]
            rfl
          · have hsent : putsnSent (c :: s) (len + 1) = c :: putsnSent s len := by
              simp [putsnSent, hc]
            rw [if_neg hc, ih, hsent]
            simp [uartPutc]

theorem putsnSent_length_le (s : List UInt8) (len : Nat) : (putsnSent s len).length ≤ len :=
  Nat.le_trans (List.takeWhile_prefix _).length_le (List.length_take_le len s)

/-- The call sends what it is given if there is no NUL. -/
theorem putsnSent_eq_iff {s : List UInt8} (len : Nat) (hlen : s.length = len) :
    (putsnSent s len).length = len ↔ 0 ∉ s := by
  rw [putsnSent, List.take_of_length_le (Nat.le_of_eq hlen)]
  constructor
  · intro h hzero
    have hself : s.takeWhile (· ≠ 0) = s :=
      (List.takeWhile_prefix _).eq_of_length (h.trans hlen.symm)
    simpa using List.takeWhile_eq_self_iff.mp hself 0 hzero
  · intro hzero
    have : s.takeWhile (· ≠ 0) = s := List.takeWhile_eq_self_iff.mpr fun c hc => by
      simp only [decide_eq_true_eq]
      rintro rfl
      exact hzero hc
    rw [this, hlen]

/-- The system call `write` of `p`. -/
def writeCall (k : Kernel) (p fd buf n : Nat) (clock : Nat → Nat) : Except Stop Kernel :=
  k.systemCall p SYS_write fd buf n clock

/-- The state after a call that has sent `sent` and answers `r`. -/
def afterWrite (k : Kernel) (p fd buf n : Nat) (sent : List UInt8) (r : Nat) : Kernel :=
  let k := (k.withArgs p SYS_write fd buf n).setSum.clearSum
  ({ k with uartOut := sent.reverse ++ k.uartOut }).setA0 p r

/-- The registers of a system call. -/
theorem reg_withArgs {num arg0 arg1 arg2 : Nat} (i : Nat) :
    (k.withArgs p num arg0 arg1 arg2).reg p i = Function.update (Function.update (Function.update
      (Function.update (k.frames (k.procs p).tf).regs 17 num) 10 arg0) 11 arg1) 12 arg2 i := by
  have hself : (k.withArgs p num arg0 arg1 arg2).frames (k.procs p).tf =
      { k.frames (k.procs p).tf with
        regs := Function.update (Function.update (Function.update (Function.update
          (k.frames (k.procs p).tf).regs 17 num) 10 arg0) 11 arg1) 12 arg2 } :=
    Function.update_self ..
  rw [reg, show ((k.withArgs p num arg0 arg1 arg2).procs p).tf = (k.procs p).tf from rfl, hself]

/-- The number of a system call, and its arguments. -/
theorem reg_num {num arg0 arg1 arg2 : Nat} : (k.withArgs p num arg0 arg1 arg2).reg p 17 = num :=
  (reg_withArgs 17).trans (by simp)

theorem reg_arg0 {num arg0 arg1 arg2 : Nat} : (k.withArgs p num arg0 arg1 arg2).reg p 10 = arg0 :=
  (reg_withArgs 10).trans (by simp)

theorem reg_arg1 {num arg0 arg1 arg2 : Nat} : (k.withArgs p num arg0 arg1 arg2).reg p 11 = arg1 :=
  (reg_withArgs 11).trans (by simp)

theorem reg_arg2 {num arg0 arg1 arg2 : Nat} : (k.withArgs p num arg0 arg1 arg2).reg p 12 = arg2 :=
  (reg_withArgs 12).trans (by simp)

theorem writeCall_eq : k.writeCall p fd buf n clock = (do
    let (r, k') ← (k.withArgs p SYS_write fd buf n).sysWrite fd buf n
    pure (k'.setA0 p r)) := by
  rw [writeCall, systemCall, syscallHandler, reg_num, reg_arg0, reg_arg1, reg_arg2]
  rfl

/-- What a call does: it refuses the range, or sends the bytes up to the first NUL. -/
theorem writeCall_cases (p : Nat) (clock : Nat → Nat) (hfd : fd % 2 ^ 32 = 1 ∨ fd % 2 ^ 32 = 2)
    (hmapped : k.Readable buf (copyLen n)) :
    (isUserAddr buf (copyLen n) = false ∧
      k.writeCall p fd buf n clock = .ok ((k.withArgs p SYS_write fd buf n).setA0 p minusOne)) ∨
    isUserAddr buf (copyLen n) = true ∧
      k.writeCall p fd buf n clock = .ok (k.afterWrite p fd buf n
        (putsnSent (k.userBytes buf (copyLen n)) (copyLen n))
        (putsnSent (k.userBytes buf (copyLen n)) (copyLen n)).length) := by
  have hfd' : ¬(fd % 2 ^ 32 ≠ 1 ∧ fd % 2 ^ 32 ≠ 2) := by omega
  rw [writeCall_eq]
  cases hnum : isUserAddr buf (copyLen n) with
  | false =>
      rw [sysWrite_refused (Or.inr hnum)]
      exact Or.inl ⟨rfl, rfl⟩
  | true =>
      have hload : ((k.withArgs p SYS_write fd buf n).setSum).loadUser buf (copyLen n) =
          .ok (k.userBytes buf (copyLen n)) :=
        loadUser_eq (k := (k.withArgs p SYS_write fd buf n).setSum) hmapped
      have hlen : (putsnSent (k.userBytes buf (copyLen n)) (copyLen n)).length ≤ maxlen :=
        Nat.le_trans (putsnSent_length_le _ _)
          (Nat.le_trans (copyLen_le n) (Nat.min_le_right _ _))
      refine Or.inr ⟨rfl, ?_⟩
      rw [sysWrite, if_neg hfd']
      simp only
      rw [show (if maxlen < n % 2 ^ 32 then maxlen else n % 2 ^ 32) = copyLen n from rfl, copyFromUser,
        hnum]
      simp only [Bool.not_true, Bool.false_eq_true, if_false, hload, ok_bind, pure, Except.pure]
      rw [uartPutsn_eq, sext32_of_lt (Nat.lt_of_le_of_lt hlen (by decide))]
      rfl

/-- The call sends the first `min(n, MAXLEN)` bytes of the buffer, and answers how many these are. -/
def SendsExactly (k : Kernel) (p fd buf n : Nat) (clock : Nat → Nat) : Prop :=
  ∃ k', k.writeCall p fd buf n clock = .ok k' ∧
    k'.uartOut = (k.userBytes buf (min n maxlen)).reverse ++ k.uartOut ∧
    k'.reg p 10 = min n maxlen

/-- The low half of the count says the same, the buffer does not end at `USER_END_VA`, and there is
no NUL among the bytes to be sent. -/
structure Sendable (k : Kernel) (buf n : Nat) : Prop where
  count : min (n % 2 ^ 32) maxlen = min n maxlen
  below : buf + min n maxlen < userEndVa
  noNul : 0 ∉ k.userBytes buf (min n maxlen)

@[simp] theorem setA0_reg {r : Nat} : (k.setA0 p r).reg p 10 = r := by
  have hself : (k.setA0 p r).frames (k.procs p).tf = { k.frames (k.procs p).tf with
      regs := Function.update (k.frames (k.procs p).tf).regs 10 r } := Function.update_self ..
  rw [reg, show ((k.setA0 p r).procs p).tf = (k.procs p).tf from rfl, hself]
  exact Function.update_self (10 : Nat) r (k.frames (k.procs p).tf).regs

@[simp] theorem afterWrite_reg {sent : List UInt8} {r : Nat} :
    (k.afterWrite p fd buf n sent r).reg p 10 = r := setA0_reg

/-- A call with a good buffer sends all of it. -/
theorem Sendable.writeCall (h : k.Sendable buf n) (hfd : fd % 2 ^ 32 = 1 ∨ fd % 2 ^ 32 = 2)
    (hmapped : k.Readable buf (min n maxlen)) (hn : 0 < n) :
    k.writeCall p fd buf n clock = .ok (k.afterWrite p fd buf n (k.userBytes buf (min n maxlen))
      (min n maxlen)) := by
  have hlen : copyLen n = min n maxlen := (copyLen_eq n).trans h.count
  have hpos : 0 < min n maxlen := Nat.lt_min.mpr ⟨hn, by decide⟩
  have hsent : (putsnSent (k.userBytes buf (min n maxlen)) (min n maxlen)).length = min n maxlen :=
    (putsnSent_eq_iff _ userBytes_length).mpr h.noNul
  have hall : putsnSent (k.userBytes buf (min n maxlen)) (min n maxlen) =
      k.userBytes buf (min n maxlen) := by
    have htake : (k.userBytes buf (min n maxlen)).take (min n maxlen) =
        k.userBytes buf (min n maxlen) := List.take_of_length_le (Nat.le_of_eq userBytes_length)
    refine List.IsPrefix.eq_of_length ?_ (hsent.trans userBytes_length.symm)
    unfold putsnSent
    rw [htake]
    exact List.takeWhile_prefix _
  rcases writeCall_cases (n := n) p clock hfd (by rw [hlen]; exact hmapped) with
    ⟨hbad, -⟩ | ⟨-, hcall⟩
  · rw [hlen] at hbad
    have := isUserAddr_iff.mpr ⟨hpos, h.below⟩
    rw [hbad] at this
    cases this
  · rw [hcall, hlen, hsent, hall]

theorem sendsExactly_iff (hfd : fd % 2 ^ 32 = 1 ∨ fd % 2 ^ 32 = 2) (hn : 0 < n)
    (hmapped : k.Readable buf (min n maxlen)) :
    k.SendsExactly p fd buf n clock ↔ k.Sendable buf n := by
  constructor
  · rintro ⟨k', hcall, -, hret⟩
    have hle := copyLen_le n
    have hmax : min n maxlen ≤ maxlen := Nat.min_le_right _ _
    rcases writeCall_cases p clock hfd (hmapped.mono hle) with
      ⟨-, hrefused⟩ | ⟨hnum, hsent⟩
    · obtain rfl := Except.ok.inj (hcall.symm.trans hrefused)
      rw [setA0_reg] at hret
      simp only [maxlen, minusOne] at hret hmax
      omega
    · obtain rfl := Except.ok.inj (hcall.symm.trans hsent)
      rw [afterWrite_reg] at hret
      have hsentle := putsnSent_length_le (k.userBytes buf (copyLen n)) (copyLen n)
      have hlen : copyLen n = min n maxlen := by omega
      rw [hlen] at hret hnum
      exact ⟨(copyLen_eq n).symm.trans hlen, (isUserAddr_iff.mp hnum).2,
        (putsnSent_eq_iff _ userBytes_length).mp hret⟩
  · intro h
    exact ⟨_, h.writeCall hfd hmapped hn, rfl, afterWrite_reg⟩

/-! ### The whole buffer -/

/-- A caller that repeats the call with the rest of its buffer, as long as that makes progress. -/
def writeAll (p fd : Nat) (clock : Nat → Nat) : Nat → Nat → Nat → Kernel → Option Kernel
  | 0, _, _, _ => none
  | fuel + 1, buf, n, k =>
      if n = 0 then some k
      else
        match k.writeCall p fd buf n clock with
        | .error _ => none
        | .ok k' =>
            let r := k'.reg p 10
            if 0 < r ∧ r ≤ n then writeAll p fd clock fuel (buf + r) (n - r) k' else none

/-- It outputs the whole buffer. -/
def OutputsAll (k : Kernel) (p fd buf n : Nat) (clock : Nat → Nat) : Prop :=
  ∃ fuel k', writeAll p fd clock fuel buf n k = some k' ∧
    k'.uartOut = (k.userBytes buf n).reverse ++ k.uartOut

/-- All of the buffer can be sent. -/
structure AllSendable (k : Kernel) (buf n : Nat) : Prop where
  count : n < 2 ^ 32
  below : buf + n < userEndVa
  noNul : 0 ∉ k.userBytes buf n

theorem userBytes_split {m : Nat} (hle : m ≤ n) :
    k.userBytes buf n = k.userBytes buf m ++ k.userBytes (buf + m) (n - m) := by
  rw [← userBytes_add, Nat.add_sub_cancel' hle]

theorem AllSendable.sendable (h : k.AllSendable buf n) : k.Sendable buf n := by
  have hmin := Nat.min_le_left n maxlen
  refine ⟨by rw [Nat.mod_eq_of_lt h.count], Nat.lt_of_le_of_lt (by omega) h.below, fun hzero => ?_⟩
  refine h.noNul ?_
  rw [userBytes_split hmin]
  exact List.mem_append_left _ hzero

/-- Call after call, down to the end of the buffer. -/
theorem AllSendable.writeAll (hfd : fd % 2 ^ 32 = 1 ∨ fd % 2 ^ 32 = 2) (fuel : Nat) :
    ∀ (buf n : Nat) (k : Kernel), n < fuel → k.AllSendable buf n → k.Readable buf n →
      ∃ k', Kernel.writeAll p fd clock fuel buf n k = some k' ∧
        k'.uartOut = (k.userBytes buf n).reverse ++ k.uartOut := by
  induction fuel with
  | zero => exact fun buf n k hlt => absurd hlt (Nat.not_lt_zero n)
  | succ fuel ih =>
      intro buf n k hlt h hmapped
      rw [Kernel.writeAll]
      by_cases hn : n = 0
      · subst hn
        exact ⟨k, if_pos rfl, rfl⟩
      · have hpos : 0 < n := Nat.pos_of_ne_zero hn
        have hmin := Nat.min_le_left n maxlen
        have hminpos : 0 < min n maxlen := Nat.lt_min.mpr ⟨hpos, by decide⟩
        have hnul := h.noNul
        rw [userBytes_split hmin] at hnul
        let k₁ := k.afterWrite p fd buf n (k.userBytes buf (min n maxlen)) (min n maxlen)
        have hrest : k₁.AllSendable (buf + min n maxlen) (n - min n maxlen) :=
          ⟨Nat.lt_of_le_of_lt (Nat.sub_le _ _) h.count, by have := h.below; omega,
            fun hzero => hnul (List.mem_append_right _ hzero)⟩
        rw [if_neg hn, h.sendable.writeCall hfd (hmapped.mono hmin) hpos]
        simp only [afterWrite_reg]
        rw [if_pos ⟨hminpos, hmin⟩]
        obtain ⟨k', hk', hout⟩ := ih (buf + min n maxlen) (n - min n maxlen) k₁ (by omega) hrest
          (hmapped.drop hmin)
        refine ⟨k', hk', hout.trans ?_⟩
        rw [userBytes_split hmin, List.reverse_append, List.append_assoc]
        rfl

/-- What a call sends are the first bytes of the buffer, and none of them is NUL. -/
theorem putsnSent_userBytes {m : Nat} (hle : m ≤ n) :
    0 ∉ k.userBytes buf (putsnSent (k.userBytes buf m) m).length := by
  have hprefix : putsnSent (k.userBytes buf m) m <+: k.userBytes buf n := by
    rw [userBytes_split hle]
    exact ((List.takeWhile_prefix _).trans (List.take_prefix _ _)).trans (List.prefix_append _ _)
  have hlen : (putsnSent (k.userBytes buf m) m).length ≤ n :=
    Nat.le_trans (putsnSent_length_le _ _) hle
  have hsent : putsnSent (k.userBytes buf m) m =
      k.userBytes buf (putsnSent (k.userBytes buf m) m).length := by
    have htake := List.prefix_iff_eq_take.mp hprefix
    rw [userBytes_split hlen, List.take_append_of_le_length (by rw [userBytes_length]),
      List.take_of_length_le (by rw [userBytes_length])] at htake
    exact htake
  rw [← hsent]
  intro hzero
  have := List.mem_takeWhile_imp hzero
  simp at this

/-- A buffer that cannot be sent as a whole: after a call that makes progress, neither can the rest
of it. -/
theorem writeAll_stuck (hfd : fd % 2 ^ 32 = 1 ∨ fd % 2 ^ 32 = 2) (fuel : Nat) :
    ∀ (buf n : Nat) (k : Kernel), 0 < n → buf + n ≤ userEndVa → k.Readable buf n →
      (2 ^ 32 ≤ n ∨ buf + n = userEndVa ∨ 0 ∈ k.userBytes buf n) →
      writeAll p fd clock fuel buf n k = none := by
  induction fuel with
  | zero => exact fun _ _ _ _ _ _ _ => rfl
  | succ fuel ih =>
      intro buf n k hn hend hmapped hbad
      have hle : copyLen n ≤ n := Nat.le_trans (copyLen_le n) (Nat.min_le_left _ _)
      rw [writeAll, if_neg (Nat.ne_of_gt hn)]
      rcases writeCall_cases p clock hfd (hmapped.mono hle) with
        ⟨-, hcall⟩ | ⟨hnum, hcall⟩
      · -- -1 is not progress
        rw [hcall]
        simp only [setA0_reg]
        refine if_neg fun hr => ?_
        simp only [minusOne, userEndVa] at hr hend
        omega
      · rw [hcall]
        simp only [afterWrite_reg]
        have hsent := putsnSent_length_le (k.userBytes buf (copyLen n)) (copyLen n)
        have hnul : 0 ∉ k.userBytes buf (putsnSent (k.userBytes buf (copyLen n)) (copyLen n)).length :=
          putsnSent_userBytes hle
        generalize hr : (putsnSent (k.userBytes buf (copyLen n)) (copyLen n)).length = r at *
        by_cases hprogress : 0 < r ∧ r ≤ n
        · rw [if_pos hprogress]
          have hrest : 0 < n - r ∧ (2 ^ 32 ≤ n - r ∨ buf + r + (n - r) = userEndVa ∨
              0 ∈ k.userBytes (buf + r) (n - r)) := by
            rcases hbad with hlarge | htop | hzero
            · have hmod : copyLen n ≤ n % 2 ^ 32 := by
                rw [copyLen_eq]
                exact Nat.min_le_left _ _
              omega
            · have := (isUserAddr_iff.mp hnum).2
              omega
            · rw [userBytes_split hprogress.2] at hzero
              have hmem := (List.mem_append.mp hzero).resolve_left hnul
              refine ⟨?_, Or.inr (Or.inr hmem)⟩
              have := List.length_pos_of_mem hmem
              rwa [userBytes_length] at this
          exact ih (buf + r) (n - r) _ hrest.1 (by omega) (hmapped.drop hprogress.2) hrest.2
        · rw [if_neg hprogress]

theorem outputsAll_iff (hfd : fd % 2 ^ 32 = 1 ∨ fd % 2 ^ 32 = 2) (hn : 0 < n)
    (hmapped : k.Readable buf n) (hend : buf + n ≤ userEndVa) :
    k.OutputsAll p fd buf n clock ↔ k.AllSendable buf n := by
  constructor
  · rintro ⟨fuel, k', hall, -⟩
    have hgood : ¬(2 ^ 32 ≤ n ∨ buf + n = userEndVa ∨ 0 ∈ k.userBytes buf n) := by
      intro hbad
      rw [writeAll_stuck hfd fuel buf n k hn hend hmapped hbad] at hall
      cases hall
    simp only [not_or] at hgood
    exact ⟨by omega, by omega, hgood.2.2⟩
  · intro h
    exact ⟨n + 1, h.writeAll hfd (n + 1) buf n k (Nat.lt_succ_self n) hmapped⟩

/-- **`SYS_write`** sends what it is given, and a caller that goes on with the rest outputs its whole
buffer, exactly for the buffers and the counts of which that can be said. -/
theorem sysWrite_exact_iff (k : Kernel) (p fd buf n : Nat) (clock : Nat → Nat)
    (hfd : fd % 2 ^ 32 = 1 ∨ fd % 2 ^ 32 = 2) (hn : 0 < n) (hmapped : k.Readable buf (min n maxlen)) :
    (k.SendsExactly p fd buf n clock ↔ k.Sendable buf n) ∧
      (k.Readable buf n → buf + n ≤ userEndVa →
        (k.OutputsAll p fd buf n clock ↔ k.AllSendable buf n)) :=
  ⟨sendsExactly_iff hfd hn hmapped, outputsAll_iff hfd hn⟩

/-! ### A page of zeros -/

theorem textProcs_readable : textProcs.Readable 0x10 1 := by
  intro i hi
  obtain rfl : i = 0 := by omega
  exact ⟨0x80203010, 0xdb, rfl, by decide, by decide⟩

theorem sysWrite_exact_iff_textProcs :
    (textProcs.SendsExactly shellProc 1 0x10 1 (fun _ => 0) ↔ textProcs.Sendable 0x10 1) ∧
      (textProcs.Readable 0x10 1 → 0x10 + 1 ≤ userEndVa →
        (textProcs.OutputsAll shellProc 1 0x10 1 (fun _ => 0) ↔ textProcs.AllSendable 0x10 1)) :=
  sysWrite_exact_iff textProcs shellProc 1 0x10 1 (fun _ => 0) (Or.inl rfl) Nat.one_pos
    textProcs_readable

/-- One byte that is NUL is not sent, however often the caller tries; and of a count of `2 ^ 32`
nothing is left. -/
theorem write_sends_nothing :
    textProcs.userBytes 0x10 1 = [0] ∧
      ¬textProcs.SendsExactly shellProc 1 0x10 1 (fun _ => 0) ∧
      ¬textProcs.OutputsAll shellProc 1 0x10 1 (fun _ => 0) ∧
      ∃ k', textProcs.writeCall shellProc 1 0x10 (2 ^ 32) (fun _ => 0) = .ok k' ∧
        k'.reg shellProc 10 = minusOne ∧ k'.uartOut = textProcs.uartOut := by
  have hzero : textProcs.userBytes 0x10 1 = [0] := rfl
  refine ⟨hzero, fun h => ?_, fun h => ?_, ?_⟩
  · have hnul := ((sendsExactly_iff (Or.inl rfl) Nat.one_pos textProcs_readable).mp h).noNul
    exact hnul (by rw [show min 1 maxlen = 1 from rfl, hzero]; exact List.mem_cons_self)
  · have hnul := ((outputsAll_iff (Or.inl rfl) Nat.one_pos textProcs_readable (by decide)).mp h).noNul
    exact hnul (by rw [hzero]; exact List.mem_cons_self)
  · have hnone : textProcs.Readable 0x10 (copyLen (2 ^ 32)) := fun i hi => absurd hi (Nat.not_lt_zero i)
    have hfd : 1 % 2 ^ 32 = 1 ∨ 1 % 2 ^ 32 = 2 := Or.inl rfl
    rcases writeCall_cases shellProc (fun _ => 0) hfd hnone with
      ⟨-, hcall⟩ | ⟨hnum, -⟩
    · exact ⟨_, hcall, setA0_reg, rfl⟩
    · cases hnum

end SystemN.Kernel
