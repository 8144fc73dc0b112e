/-
What the shell echoes.

`read` stores behind the two bytes of the prompt and takes at most `MAXLEN - 1` characters, so
nothing is stored outside of the buffer.  `write` sends at most `MAXLEN` bytes, though, and the
prompt is among them.  A line whose newline is not among its first 62 characters comes back
without the last byte that was read.
-/
import SystemN.Proofs.UserStack

namespace SystemN

open Mm Kernel

namespace Kernel

variable {k k' : Kernel} {p pa o m n num arg0 arg1 arg2 va : Nat} {clock : Nat → Nat}

/-! ### The calls that do not read -/

/-- What a process sees of its memory, and the input. -/
def userView (k : Kernel) : Mm × Nat × List UInt8 := (k.mm, k.satpRoot, k.uartIn)

theorem userView_copyFromUser {r : Option (List UInt8) × Kernel}
    (h : k.copyFromUser va n = .ok r) : r.2.userView = k.userView := by
  unfold copyFromUser at h
  split at h
  · obtain rfl := Except.ok.inj h
    rfl
  · obtain ⟨buf, -, h⟩ := bind_eq_ok.mp h
    obtain rfl := Except.ok.inj h
    rfl

theorem userView_sysWrite {fd : Nat} {r : Nat × Kernel} (h : k.sysWrite fd va n = .ok r) :
    r.2.userView = k.userView := by
  unfold sysWrite at h
  split at h
  · obtain rfl := Except.ok.inj h
    rfl
  · rw [bind_eq_ok] at h
    obtain ⟨⟨buf, k₁⟩, hcopy, h⟩ := h
    have hk₁ : k₁.userView = k.userView := userView_copyFromUser hcopy
    cases buf with
    | none =>
        obtain rfl := Except.ok.inj h
        exact hk₁
    | some buf =>
        simp only [uartPutsn_eq] at h
        obtain rfl := Except.ok.inj h
        exact hk₁

theorem userView_sysSleepMs {ms : Nat} {r : Nat × Kernel} (h : k.sysSleepMs p ms clock = .ok r) :
    r.2.userView = k.userView := by
  unfold sysSleepMs at h
  split at h
  · obtain rfl := Except.ok.inj h
    rfl
  · obtain ⟨nodes, -, h⟩ := bind_eq_ok.mp h
    obtain rfl := Except.ok.inj h
    rfl

theorem userView_systemCall (hnum : num = SYS_write ∨ num = SYS_sleep_ms ∨ num = SYS_yield)
    (h : k.systemCall p num arg0 arg1 arg2 clock = .ok k') : k'.userView = k.userView := by
  rw [systemCall, syscallHandler, reg_num] at h
  rcases hnum with rfl | rfl | rfl
  · obtain ⟨⟨r, k₁⟩, hcall, h⟩ := bind_eq_ok.mp h
    obtain rfl := Except.ok.inj h
    exact userView_sysWrite hcall
  · obtain ⟨⟨r, k₁⟩, hcall, h⟩ := bind_eq_ok.mp h
    obtain rfl := Except.ok.inj h
    exact userView_sysSleepMs hcall
  · obtain rfl := Except.ok.inj h
    rfl

/-! ### A read to the stack -/

/-- What a read of `m` characters to the byte `o` of the stack does. -/
structure ReadsLine (k : Kernel) (p pa o m : Nat) (k' : Kernel) : Prop where
  mm : k'.mm = k.mm.setMem (storeAt k.mm.mem (pa + o) ((k.uartIn.take m).map crToLf))
  root : k'.satpRoot = k.satpRoot
  input : k'.uartIn = k.uartIn.drop m
  result : k'.reg p 10 = m

theorem line_length (h : getsLen n k.uartIn = some m) :
    ((k.uartIn.take m).map crToLf).length = m := by
  rw [List.length_map, List.length_take_of_le (getsLen_le_length h)]

theorem readCall_eq : k.systemCall p SYS_read arg0 arg1 arg2 clock =
    (do
      let (r, k') ← (k.withArgs p SYS_read arg0 arg1 arg2).sysRead arg0 arg1 arg2
      pure (k'.setA0 p r)) := by
  rw [systemCall, syscallHandler, reg_num, reg_arg0, reg_arg1, reg_arg2]
  rfl

/-- A read to the stack succeeds once the characters are there. -/
theorem readCall_stack (p : Nat) (clock : Nat → Nat) (h : StackPage k.mm k.satpRoot pa)
    (hgets : getsLen (copyLen n - 1) k.uartIn = some m) (hm : 0 < m) (ho : o + m < pageSize) :
    ∃ k', k.systemCall p SYS_read 0 (userStackBase + o) n clock = .ok k' ∧
      k.ReadsLine p pa o m k' := by
  obtain ⟨k₁, hk₁⟩ : ∃ k₁, k₁ = k.withArgs p SYS_read 0 (userStackBase + o) n := ⟨_, rfl⟩
  have hin : k₁.uartIn = k.uartIn := by rw [hk₁]; rfl
  have hlen : ((k₁.uartIn.take m).map crToLf).length = m := by
    rw [hin]
    exact line_length hgets
  have hnum : isUserAddr (userStackBase + o) m = true := isUserAddr_stack hm ho
  have hpage : StackPage (k₁.echoed m).setSum.mm (k₁.echoed m).setSum.satpRoot pa := by
    rw [hk₁]
    exact h
  have hstore := storeUser_stack ((k₁.uartIn.take m).map crToLf) hpage (o := o)
    (by rw [hlen]; exact Nat.le_of_lt ho)
  have hsmall : m < 2 ^ 31 := by
    simp only [pageSize] at ho
    omega
  rw [readCall_eq, ← hk₁, sysRead, if_neg (by decide)]
  dsimp only
  rw [show (if maxlen < n % 2 ^ 32 then maxlen else n % 2 ^ 32) = copyLen n from rfl, uartGets,
    uartGetsLoop_eq, hin, hgets]
  simp only [ok_bind]
  rw [← hin, copyToUser, hlen, hnum]
  simp only [Bool.not_true, Bool.false_eq_true, if_false]
  rw [hstore]
  refine ⟨_, rfl, ?_, ?_, ?_, ?_⟩
  · rw [hk₁]
    rfl
  · rw [hk₁]
    rfl
  · rw [hk₁]
    rfl
  · exact setA0_reg.trans (sext32_of_lt hsmall)

/-- A read does not get at more addresses than `uart_gets` has room for. -/
theorem mem_sysReadTrace {fd a : Nat} (h : a ∈ k.sysReadTrace fd va n) :
    ∃ i < copyLen n - 1, a = va + i := by
  unfold sysReadTrace at h
  split at h
  · cases h
  · rw [uartGets, uartGetsLoop_eq] at h
    cases hgets : getsLen (copyLen n - 1) k.uartIn with
    | none =>
        rw [hgets] at h
        cases h
    | some m =>
        rw [hgets] at h
        dsimp only at h
        split at h
        · cases h
        · obtain ⟨i, hi, rfl⟩ := mem_storeTrace h
          rw [line_length hgets] at hi
          have := getsLen_eq hgets
          exact ⟨i, by omega, rfl⟩

theorem HasStack.of_userView (h : k.HasStack) (hview : k'.userView = k.userView) : k'.HasStack := by
  have hmm : k'.mm = k.mm := congrArg Prod.fst hview
  have hroot : k'.satpRoot = k.satpRoot := congrArg (·.2.1) hview
  obtain ⟨pa, hpage⟩ := h
  refine ⟨pa, ?_⟩
  rw [hmm, hroot]
  exact hpage

theorem userBytes_of_userView (h : k'.userView = k.userView) (va n : Nat) :
    k'.userBytes va n = k.userBytes va n := by
  have hmm : k'.mm = k.mm := congrArg Prod.fst h
  have hroot : k'.satpRoot = k.satpRoot := congrArg (·.2.1) h
  unfold userBytes userByte
  rw [hmm, hroot]

theorem userBytes_take (hle : m ≤ n) : k.userBytes va m = (k.userBytes va n).take m := by
  rw [userBytes_split hle, List.take_left' userBytes_length]

end Kernel

/-! ### The runs of the shell -/

/-- `buf` is on the stack. -/
structure Shell.OnStack (S : Shell) : Prop where
  low : userStackBase ≤ S.buf
  high : S.buf + inputBufSize ≤ userStackTop

/-- The shell comes to its loop: `buf` has its first value, and no NUL is typed. -/
structure Shell.Start (S : Shell) (k : Kernel) : Prop where
  stack : k.HasStack
  buf : k.userBytes S.buf inputBufSize = [36, 32] ++ List.replicate (inputBufSize - 2) 0
  noNul : 0 ∉ k.uartIn

/-- What may happen between two statements of the shell, while other processes run and more is
typed: nobody else stores to `buf`. -/
structure Shell.Keeps (S : Shell) (k k' : Kernel) : Prop where
  stack : k'.HasStack
  buf : k'.userBytes S.buf inputBufSize = k.userBytes S.buf inputBufSize
  noNul : 0 ∉ k'.uartIn

/-- The call of `read` from `k` to `k'`. -/
def Shell.readCall (S : Shell) (k k' : Kernel) : ReadCall where
  userBuf := S.buf + 2
  len := inputBufSize - 1
  pending := k.uartIn
  rest := k'.uartIn
  result := k'.reg S.proc 10
  stored := ((k.withArgs S.proc SYS_read 0 (S.buf + 2) (inputBufSize - 1)).sysReadLog (S.buf + 2)
    (inputBufSize - 1)).map Prod.snd

/-- A final write: the last read before it, and the bytes it has sent. -/
structure Echo where
  call : Option ReadCall
  sent : List UInt8

/-- What a run of the shell has done. -/
structure ShellLog where
  /-- The addresses at which the kernel has stored for it. -/
  stores : List Nat
  last : Option ReadCall
  echoes : List Echo

def ShellLog.empty : ShellLog := ⟨[], none, []⟩

/-- The log after one statement, from `k` to `k'`. -/
def ShellLog.next (S : Shell) (log : ShellLog) (k k' : Kernel) : ShellPoint → ShellLog
  | .read =>
      { log with
        stores := log.stores ++ (k.withArgs S.proc SYS_read 0 (S.buf + 2)
          (inputBufSize - 1)).sysReadTrace 0 (S.buf + 2) (inputBufSize - 1)
        last := some (S.readCall k k') }
  | .echo _ =>
      { log with
        echoes := log.echoes ++
          [⟨log.last, (k'.uartOut.take (k'.uartOut.length - k.uartOut.length)).reverse⟩] }
  | .prompt | .sleep _ | .compare _ | .yield _ => log

/-- The runs of the shell. -/
inductive ShellRun (S : Shell) : ShellLog → Kernel → ShellPoint → Prop where
  | start {k : Kernel} (h : S.Start k) : ShellRun S .empty k .prompt
  | step {log : ShellLog} {k k' : Kernel} {pt pt' : ShellPoint} (hrun : ShellRun S log k pt)
      (hstep : ShellStep S k pt k' pt') : ShellRun S (log.next S k k' pt) k' pt'
  | other {log : ShellLog} {k k' : Kernel} {pt : ShellPoint} (hrun : ShellRun S log k pt)
      (h : S.Keeps k k') : ShellRun S log k' pt

/-- The final write sends the prompt and the bytes that have just been read. -/
def Echo.Complete (e : Echo) : Prop :=
  ∃ c, e.call = some c ∧ c.stored.length = c.result ∧ e.sent = [36, 32] ++ c.stored

/-! ### What holds in them -/

/-- What a read of the shell has answered. -/
structure Kernel.ReadCall.Line (c : ReadCall) : Prop where
  length : c.stored.length = c.result
  result : c.result = min (maxlen - 1) (lineLen c.pending)
  noNul : 0 ∉ c.stored

/-- `n`, where the shell has it. -/
def ShellPoint.count : ShellPoint → Option Nat
  | .prompt | .read => none
  | .sleep n | .compare n | .yield n | .echo n => some n

/-- The write cuts the line off after `MAXLEN` bytes. -/
def Echo.Cut (e : Echo) : Prop :=
  ∃ c, e.call = some c ∧ c.Line ∧ e.sent = ([36, 32] ++ c.stored).take maxlen

structure ShellInv (S : Shell) (log : ShellLog) (k : Kernel) (pt : ShellPoint) : Prop where
  stack : k.HasStack
  head : k.userBytes S.buf 2 = [36, 32]
  noNul : 0 ∉ k.uartIn
  inside : ∀ a ∈ log.stores, S.buf ≤ a ∧ a < S.buf + inputBufSize
  line : ∀ n, pt.count = some n → ∃ c, log.last = some c ∧ c.Line ∧ c.result = n ∧
    k.userBytes (S.buf + 2) n = c.stored
  echoes : ∀ e ∈ log.echoes, e.Cut

variable {S : Shell} {log : ShellLog} {k k' : Kernel} {pt pt' : ShellPoint} {n : Nat}

theorem lineLen_pos (cs : List UInt8) : 0 < lineLen cs := Nat.succ_pos _

theorem crToLf_noNul {cs : List UInt8} (h : 0 ∉ cs) (m : Nat) : 0 ∉ (cs.take m).map crToLf := by
  intro hzero
  obtain ⟨c, hc, hcr⟩ := List.mem_map.mp hzero
  unfold crToLf at hcr
  split at hcr
  · cases hcr
  · exact h (hcr ▸ List.mem_of_mem_take hc)

/-- What the shell needs is not touched by the calls that do not read. -/
theorem ShellInv.of_userView (h : ShellInv S log k pt) (hview : k'.userView = k.userView)
    (hcount : ∀ n, pt'.count = some n → pt.count = some n) : ShellInv S log k' pt' where
  stack := h.stack.of_userView hview
  head := (userBytes_of_userView hview _ _).trans h.head
  noNul := by
    rw [show k'.uartIn = k.uartIn from congrArg (·.2.2) hview]
    exact h.noNul
  inside := h.inside
  line n hn := by
    obtain ⟨c, hlast, hline, hresult, hbytes⟩ := h.line n (hcount n hn)
    exact ⟨c, hlast, hline, hresult, (userBytes_of_userView hview _ _).trans hbytes⟩
  echoes := h.echoes

/-- The read of the shell takes a line, or as much of it as there is room for. -/
theorem Shell.readCall_line {pa o : Nat} {clock : Nat → Nat} (hpage : StackPage k.mm k.satpRoot pa)
    (ho : S.buf = userStackBase + o) (hroom : o + inputBufSize ≤ pageSize)
    (hcall : k.systemCall S.proc SYS_read 0 (S.buf + 2) (inputBufSize - 1) clock = .ok k') :
    ∃ m, m = min (maxlen - 1) (lineLen k.uartIn) ∧ k.ReadsLine S.proc pa (o + 2) m k' ∧
      ((k.uartIn.take m).map crToLf).length = m ∧
      (S.readCall k k').stored = (k.uartIn.take m).map crToLf := by
  have hbuf : S.buf + 2 = userStackBase + (o + 2) := by omega
  have hcopy : copyLen (inputBufSize - 1) - 1 = maxlen - 1 := by decide
  have hread := hcall
  rw [readCall_eq] at hread
  obtain ⟨⟨r, k₁⟩, hread, -⟩ := bind_eq_ok.mp hread
  obtain ⟨m, hgets, -, -, hends⟩ := sysRead_returns hread
  have hgets' : getsLen (copyLen (inputBufSize - 1) - 1) k.uartIn = some m := hgets
  have hm : m = min (maxlen - 1) (lineLen k.uartIn) := by
    rw [← hcopy]
    exact getsLen_eq hgets'
  have hpos : 0 < m := by
    have := lineLen_pos k.uartIn
    simp only [maxlen] at hm
    omega
  have hfits : o + 2 + m < pageSize := by
    simp only [maxlen, inputBufSize, pageSize] at *
    omega
  have haddr : isUserAddr (S.buf + 2) m = true := by
    rw [hbuf]
    exact isUserAddr_stack hpos hfits
  obtain ⟨k₂, hcall₂, hline⟩ := readCall_stack S.proc clock hpage hgets' hpos hfits
  rw [← hbuf, hcall] at hcall₂
  obtain rfl := Except.ok.inj hcall₂
  refine ⟨m, hm, hline, line_length hgets', ?_⟩
  rcases hends with ⟨-, -, hlog⟩ | ⟨hrefused, -⟩
  · exact hlog
  · rw [haddr] at hrefused
    cases hrefused

/-- **The read** stores a line behind the prompt. -/
theorem ShellInv.read (h : ShellInv S log k .read) (hS : S.OnStack) {clock : Nat → Nat}
    (hcall : k.systemCall S.proc SYS_read 0 (S.buf + 2) (inputBufSize - 1) clock = .ok k') :
    isPosInt (k'.reg S.proc 10) = true ∧
      ShellInv S (log.next S k k' .read) k' (.sleep (k'.reg S.proc 10 % 2 ^ 32)) := by
  obtain ⟨pa, hpage⟩ := h.stack
  obtain ⟨o, ho, hroom⟩ := exists_stack_offset hS.low hS.high
  obtain ⟨m, hm, hline, hlen, hstored⟩ := Shell.readCall_line hpage ho hroom hcall
  have hsmall : 0 < m ∧ m < maxlen := by
    have := lineLen_pos k.uartIn
    simp only [maxlen] at *
    omega
  have hmod : m % 2 ^ 32 = m := Nat.mod_eq_of_lt (by simp only [maxlen] at hsmall; omega)
  have hfits : o + 2 + ((k.uartIn.take m).map crToLf).length ≤ pageSize := by
    rw [hlen]
    simp only [maxlen, inputBufSize, pageSize] at *
    omega
  obtain ⟨hnew, hold⟩ := userBytes_storeAt hpage hfits hline.mm hline.root
  rw [hlen, show userStackBase + (o + 2) = S.buf + 2 by omega] at hnew
  rw [hline.result, hmod]
  refine ⟨?_, ?_⟩
  · simp only [isPosInt, hmod, Bool.and_eq_true, decide_eq_true_eq]
    simp only [maxlen] at hsmall
    omega
  · refine ⟨⟨pa, ?_⟩, ?_, ?_, ?_, ?_, h.echoes⟩
    · rw [hline.mm, hline.root]
      exact StackPage.storeAt hpage hfits
    · rw [ho, hold o 2 (Nat.le_refl _), ← ho]
      exact h.head
    · rw [hline.input]
      exact fun hzero => h.noNul (List.mem_of_mem_drop hzero)
    · intro a ha
      rcases List.mem_append.mp ha with ha | ha
      · exact h.inside a ha
      · obtain ⟨i, hi, rfl⟩ := mem_sysReadTrace ha
        have : copyLen (inputBufSize - 1) = maxlen := by decide
        simp only [this, maxlen, inputBufSize] at hi ⊢
        omega
    · rintro n hn
      obtain rfl := Option.some.inj hn
      refine ⟨S.readCall k k', rfl, ⟨?_, ?_, ?_⟩, hline.result, hnew.trans hstored.symm⟩
      · rw [hstored, hlen]
        exact hline.result.symm
      · exact hline.result.trans hm
      · rw [hstored]
        exact crToLf_noNul h.noNul m

/-- The final write sends `buf` up to `MAXLEN`. -/
theorem ShellInv.sends (h : ShellInv S log k (.echo n)) (hS : S.OnStack) (clock : Nat → Nat) :
    ∃ c, log.last = some c ∧ c.Line ∧
      k.systemCall S.proc SYS_write 1 S.buf (n + 2) clock =
        .ok (k.afterWrite S.proc 1 S.buf (n + 2) (([36, 32] ++ c.stored).take maxlen)
          (min (n + 2) maxlen)) := by
  obtain ⟨c, hlast, hline, hresult, hbytes⟩ := h.line n rfl
  have hn : n < maxlen := by
    have := hline.result
    simp only [maxlen] at *
    omega
  have hall : k.userBytes S.buf (n + 2) = [36, 32] ++ c.stored := by
    rw [Nat.add_comm, userBytes_add, h.head, hbytes]
  have hsent : k.userBytes S.buf (min (n + 2) maxlen) = ([36, 32] ++ c.stored).take maxlen := by
    rw [userBytes_take (Nat.min_le_left _ _), hall, ← List.take_take, List.take_of_length_le]
    rw [← hall]
    exact Nat.le_trans (List.length_take_le' ..) (Nat.le_of_eq userBytes_length)
  -- `buf` is long enough for all that is sent to lie below `USER_END_VA`
  have hgood : k.Sendable S.buf (n + 2) := by
    refine ⟨?_, ?_, ?_⟩
    · simp only [maxlen] at *
      omega
    · have := hS.high
      simp only [maxlen, inputBufSize, userStackTop, userEndVa] at *
      omega
    · rw [hsent]
      intro hzero
      rcases List.mem_append.mp (List.mem_of_mem_take hzero) with hzero | hzero
      · revert hzero
        decide
      · exact hline.noNul hzero
  have hmapped : k.Readable S.buf (min (n + 2) maxlen) :=
    (h.stack.readable hS.low hS.high).mono (Nat.le_trans (Nat.min_le_right _ _) (by decide))
  have hwrite : k.writeCall S.proc 1 S.buf (n + 2) clock = _ :=
    hgood.writeCall (Or.inl rfl) hmapped (by omega)
  rw [hsent] at hwrite
  exact ⟨c, hlast, hline, hwrite⟩

theorem ShellInv.echo (h : ShellInv S log k (.echo n)) (hS : S.OnStack) {clock : Nat → Nat}
    (hcall : k.systemCall S.proc SYS_write 1 S.buf (n + 2) clock = .ok k') :
    ShellInv S (log.next S k k' (.echo n)) k' .prompt := by
  have hview : k'.userView = k.userView := userView_systemCall (Or.inl rfl) hcall
  have hkept : ShellInv S log k' .prompt := h.of_userView hview fun n hn => nomatch hn
  refine ⟨hkept.stack, hkept.head, hkept.noNul, h.inside, hkept.line, fun e he => ?_⟩
  rcases List.mem_append.mp he with he | he
  · exact h.echoes e he
  · obtain rfl := List.mem_singleton.mp he
    obtain ⟨c, hlast, hline, hsends⟩ := h.sends hS clock
    obtain rfl := Except.ok.inj (hcall.symm.trans hsends)
    refine ⟨c, hlast, hline, ?_⟩
    have hout : ∀ sent r, (k.afterWrite S.proc 1 S.buf (n + 2) sent r).uartOut =
        sent.reverse ++ k.uartOut := fun _ _ => rfl
    simp only [hout, List.length_append, List.length_reverse, Nat.add_sub_cancel]
    rw [List.take_left' List.length_reverse, List.reverse_reverse]

/-- One statement of the shell. -/
theorem ShellInv.step (h : ShellInv S log k pt) (hS : S.OnStack) (hstep : ShellStep S k pt k' pt') :
    ShellInv S (log.next S k k' pt) k' pt' := by
  cases hstep with
  | prompt hcall =>
      exact h.of_userView (userView_systemCall (Or.inl rfl) hcall) fun n hn => nomatch hn
  | read hcall =>
      obtain ⟨hpos, hinv⟩ := h.read hS hcall
      rw [if_pos hpos]
      exact hinv
  | sleep hcall =>
      exact h.of_userView (userView_systemCall (Or.inr (Or.inl rfl)) hcall) fun n hn => hn
  | compare =>
      refine h.of_userView rfl fun n hn => ?_
      split at hn
      · exact hn
      · exact hn
  | yield hcall =>
      exact h.of_userView (userView_systemCall (Or.inr (Or.inr rfl)) hcall) fun n hn => hn
  | echo hcall => exact h.echo hS hcall

theorem ShellInv.other (h : ShellInv S log k pt) (hkeeps : S.Keeps k k') : ShellInv S log k' pt where
  stack := hkeeps.stack
  head := by
    rw [userBytes_take (show 2 ≤ inputBufSize by decide), hkeeps.buf, ← userBytes_take (by decide)]
    exact h.head
  noNul := hkeeps.noNul
  inside := h.inside
  line n hn := by
    obtain ⟨c, hlast, hline, hresult, hbytes⟩ := h.line n hn
    refine ⟨c, hlast, hline, hresult, ?_⟩
    have hn : n ≤ inputBufSize - 2 := by
      have := hline.result
      simp only [maxlen, inputBufSize] at *
      omega
    -- the line is a part of `buf`, and all of that is kept
    have hdrop : ∀ k : Kernel, k.userBytes (S.buf + 2) n =
        ((k.userBytes S.buf inputBufSize).drop 2).take n := by
      intro k
      rw [userBytes_take hn, show inputBufSize = 2 + (inputBufSize - 2) from rfl, userBytes_add,
        List.drop_left' userBytes_length]
      rfl
    rw [hdrop k', hkeeps.buf, ← hdrop k]
    exact hbytes
  echoes := h.echoes

theorem ShellRun.inv (hS : S.OnStack) (h : ShellRun S log k pt) : ShellInv S log k pt := by
  induction h with
  | start h =>
      refine ⟨h.stack, ?_, h.noNul, (fun a ha => nomatch ha), (fun n hn => nomatch hn),
        (fun e he => nomatch he)⟩
      rw [userBytes_take (show 2 ≤ inputBufSize by decide), h.buf]
      rfl
  | step hrun hstep ih => exact ih.step hS hstep
  | other hrun h ih => exact ih.other h

/-- What has been cut off is complete for the lines that end in time. -/
theorem Echo.Cut.complete_iff {e : Echo} (h : e.Cut) :
    e.Complete ↔ ∃ c, e.call = some c ∧ lineLen c.pending ≤ maxlen - 2 := by
  obtain ⟨c, hcall, hline, hsent⟩ := h
  have hlen : ([36, 32] ++ c.stored).length = c.result + 2 := by
    rw [List.length_append, hline.length, Nat.add_comm]
    rfl
  have hresult := hline.result
  constructor
  · rintro ⟨c', hcall', hlen', hsent'⟩
    obtain rfl := Option.some.inj (hcall.symm.trans hcall')
    refine ⟨c, hcall, ?_⟩
    have := congrArg List.length (hsent.symm.trans hsent')
    rw [List.length_take, hlen] at this
    simp only [maxlen] at *
    omega
  · rintro ⟨c', hcall', hshort⟩
    obtain rfl := Option.some.inj (hcall.symm.trans hcall')
    refine ⟨c, hcall, hline.length, ?_⟩
    rw [hsent, List.take_of_length_le]
    rw [hlen]
    simp only [maxlen] at *
    omega

/-- **The shell echoes** what it has read, behind the prompt, exactly if the line ends with one of
the next `MAXLEN - 2` characters; and nothing is stored outside of its buffer. -/
theorem shellEcho_iff (hS : S.OnStack) (h : ShellRun S log k pt) :
    (∀ a ∈ log.stores, S.buf ≤ a ∧ a < S.buf + inputBufSize) ∧
      ∀ e ∈ log.echoes, e.Complete ↔ ∃ c, e.call = some c ∧ lineLen c.pending ≤ maxlen - 2 :=
  ⟨(h.inv hS).inside, fun e he => ((h.inv hS).echoes e he).complete_iff⟩

/-! ### An iteration -/

/-- `prompt` is on the stack, too. -/
structure Shell.PromptOnStack (S : Shell) : Prop where
  low : userStackBase ≤ S.prompt
  high : S.prompt + 2 ≤ userStackTop

theorem Shell.PromptOnStack.writes (hS : S.PromptOnStack) (h : k.HasStack) (clock : Nat → Nat) :
    ∃ k', k.systemCall S.proc SYS_write 1 S.prompt 2 clock = .ok k' := by
  have hmapped : k.Readable S.prompt (copyLen 2) := h.readable hS.low hS.high
  have hfd : 1 % 2 ^ 32 = 1 ∨ 1 % 2 ^ 32 = 2 := Or.inl rfl
  rcases writeCall_cases S.proc clock hfd hmapped with ⟨-, hcall⟩ | ⟨-, hcall⟩
  · exact ⟨_, hcall⟩
  · exact ⟨_, hcall⟩

theorem nodes_systemCall {num arg0 arg1 arg2 : Nat} {clock : Nat → Nat}
    (hnum : num = SYS_write ∨ num = SYS_read)
    (h : k.systemCall p num arg0 arg1 arg2 clock = .ok k') : k'.nodes = k.nodes := by
  rw [systemCall, syscallHandler, reg_num] at h
  rcases hnum with rfl | rfl
  · obtain ⟨⟨r, k₁⟩, hcall, h⟩ := bind_eq_ok.mp h
    obtain rfl := Except.ok.inj h
    have := congrArg Kernel.nodes (bare_sysWrite hcall)
    exact this
  · obtain ⟨⟨r, k₁⟩, hcall, h⟩ := bind_eq_ok.mp h
    obtain rfl := Except.ok.inj h
    have := congrArg Kernel.nodes (bare_sysRead hcall)
    exact this

theorem sleepCall_ok {p : Nat} (clock : Nat → Nat) (hring : Rings.IsRing k.nodes .sleepQueue []) :
    ∃ k', k.systemCall p SYS_sleep_ms 1000 0 0 clock = .ok k' := by
  obtain ⟨nodes, hadd, -⟩ := listAddTail_ring (.qNode p) hring (by simp)
  rw [systemCall, syscallHandler, reg_num, reg_arg0]
  dsimp only
  rw [sysSleepMs, if_neg (by decide)]
  dsimp only
  rw [show ((k.withArgs p SYS_sleep_ms 1000 0 0).setState p .sleeping).nodes = k.nodes from rfl, hadd]
  exact ⟨_, rfl⟩

theorem yieldCall_ok {p : Nat} (clock : Nat → Nat) :
    ∃ k', k.systemCall p SYS_yield 0 0 0 clock = .ok k' := by
  rw [systemCall, syscallHandler, reg_num]
  exact ⟨_, rfl⟩

theorem Shell.OnStack.reads (hS : S.OnStack) (h : k.HasStack)
    (hread : getsLen (maxlen - 1) k.uartIn = some n) (clock : Nat → Nat) :
    ∃ k', k.systemCall S.proc SYS_read 0 (S.buf + 2) (inputBufSize - 1) clock = .ok k' := by
  obtain ⟨pa, hpage⟩ := h
  obtain ⟨o, ho, hroom⟩ := exists_stack_offset hS.low hS.high
  have hn := getsLen_eq hread
  have := lineLen_pos k.uartIn
  simp only [maxlen, inputBufSize, pageSize] at hn hroom
  obtain ⟨k', hcall, -⟩ := readCall_stack (n := inputBufSize - 1) (o := o + 2) S.proc clock hpage hread
    (by omega) (by simp only [pageSize]; omega)
  rw [ho, Nat.add_assoc]
  exact ⟨k', hcall⟩

theorem ShellLog.exists_echo (S : Shell) (log : ShellLog) (k k' : Kernel) (n : Nat) :
    ∃ e ∈ (log.next S k k' (.echo n)).echoes, e.call = log.last :=
  ⟨⟨log.last, _⟩, List.mem_append_right _ (List.mem_singleton.mpr rfl), rfl⟩

/-- Once a line is there to be read, the shell goes round its loop. -/
theorem ShellRun.iteration (hS : S.OnStack) (hprompt : S.PromptOnStack)
    (h : ShellRun S log k .prompt) (hread : getsLen (maxlen - 1) k.uartIn = some n)
    (hring : Rings.IsRing k.nodes .sleepQueue []) :
    ∃ log' k' e c, ShellRun S log' k' .prompt ∧ e ∈ log'.echoes ∧ e.call = some c ∧
      c.pending = k.uartIn ∧ e.Cut := by
  obtain ⟨k₁, hk₁⟩ := hprompt.writes (h.inv hS).stack fun _ => 0
  have hview₁ : k₁.userView = k.userView := userView_systemCall (Or.inl rfl) hk₁
  have hin₁ : k₁.uartIn = k.uartIn := congrArg (·.2.2) hview₁
  have h₁ := h.step (.prompt hk₁)
  obtain ⟨k₂, hk₂⟩ := hS.reads (h₁.inv hS).stack (by rw [hin₁]; exact hread) fun _ => 0
  have hpos := ((h₁.inv hS).read hS hk₂).1
  have h₂ := h₁.step (.read hk₂)
  rw [if_pos hpos] at h₂
  obtain ⟨k₃, hk₃⟩ := sleepCall_ok (p := S.proc) (k := k₂) (fun _ => 0) (by
    rw [nodes_systemCall (Or.inr rfl) hk₂, nodes_systemCall (Or.inl rfl) hk₁]
    exact hring)
  -- the two ways to the final write leave the log as it is
  have h₄ := (h₂.step (.sleep hk₃)).step .compare
  have h₅ : ∃ k₅ m, ShellRun S ((log.next S k k₁ .prompt).next S k₁ k₂ .read) k₅ (.echo m) := by
    split at h₄
    · obtain ⟨k₅, hk₅⟩ := yieldCall_ok (k := k₃) (p := S.proc) fun _ => 0
      exact ⟨_, _, h₄.step (.yield hk₅)⟩
    · exact ⟨_, _, h₄⟩
  obtain ⟨k₅, m, h₅⟩ := h₅
  obtain ⟨c, -, -, hk₆⟩ := (h₅.inv hS).sends hS fun _ => 0
  have h₆ := h₅.step (.echo hk₆)
  obtain ⟨e, he, hcall⟩ := ShellLog.exists_echo S _ k₅ _ m
  exact ⟨_, _, e, S.readCall k₁ k₂, h₆, he, hcall, hin₁, (h₆.inv hS).echoes e he⟩

/-! ### A shell that is typed at -/

/-- The arrays of a shell, as they are when it comes to its loop. -/
def shellArrays : List UInt8 := [36, 32] ++ List.replicate (inputBufSize - 2) 0 ++ [36, 32, 0]

/-- The process `p` as a shell that has them near the top of its stack. -/
def shellAt (p : Nat) : Shell := ⟨p, userStackBase + 3840, userStackBase + 3968⟩

theorem shellAt_onStack (p : Nat) : (shellAt p).OnStack :=
  ⟨Nat.le_add_right _ _, show userStackBase + 3840 + inputBufSize ≤ userStackTop by decide⟩

theorem shellAt_promptOnStack (p : Nat) : (shellAt p).PromptOnStack :=
  ⟨Nat.le_add_right _ _, show userStackBase + 3968 + 2 ≤ userStackTop by decide⟩

theorem shellArrays_length : shellArrays.length = 131 := by simp [shellArrays]

/-- `k` when the shell comes to its loop, with its stack in the frame `pa`. -/
def atLoop (k : Kernel) (pa : Nat) (input : List UInt8) : Kernel :=
  { (k.setMm (k.mm.setMem (storeAt k.mm.mem (pa + 3840) shellArrays))).initQueues with
    uartIn := input }

theorem StackPage.start {pa : Nat} (h : StackPage k.mm k.satpRoot pa) (p : Nat) {input : List UInt8}
    (hinput : 0 ∉ input) : (shellAt p).Start (atLoop k pa input) where
  stack := ⟨pa, StackPage.storeAt h (by rw [shellArrays_length]; decide)⟩
  buf := by
    have hmm : (atLoop k pa input).mm =
        k.mm.setMem (storeAt k.mm.mem (pa + 3840) shellArrays) := rfl
    have hall := (userBytes_storeAt h (by rw [shellArrays_length]; decide) hmm rfl).1
    rw [userBytes_take (show inputBufSize ≤ shellArrays.length by rw [shellArrays_length]; decide)]
    exact (congrArg (List.take inputBufSize) hall).trans (List.take_left' rfl)
  noNul := hinput

/-- A booted kernel in which a shell has been created, and `input` is typed. -/
theorem exists_start (input : List UInt8) (hinput : 0 ∉ input) :
    ∃ p k, (shellAt p).Start k ∧ k.uartIn = input ∧ Rings.IsRing k.nodes .sleepQueue [] := by
  obtain ⟨kp, s, hs, hfree⟩ := exists_boot_smallLayout
  have hs' : mmInit smallLayout (fun _ => 0) = .ok ((bootedKernel kp s).initQueues.kernelPagetable,
      (bootedKernel kp s).initQueues.snub) := hs
  obtain ⟨p, k, hcall, hp, -⟩ := booted_create hs' (Nat.lt_of_lt_of_le (by decide) hfree) rfl
    initQueues_ring
  obtain ⟨live, hprep, hsrc⟩ := booted_source hs'
  obtain ⟨pa, hpage⟩ := createProc_hasStack hprep hsrc (by decide) (by decide) hcall hp
  exact ⟨p, _, hpage.start p hinput, rfl, listHeadInit_ring _ _⟩

/-- A short line is echoed. -/
theorem shellEcho_iff_short :
    ∃ S log k, Shell.OnStack S ∧ ShellRun S log k .prompt ∧ log.echoes ≠ [] ∧
      (∀ a ∈ log.stores, S.buf ≤ a ∧ a < S.buf + inputBufSize) ∧
      ∀ e ∈ log.echoes, e.Complete ↔ ∃ c, e.call = some c ∧ lineLen c.pending ≤ maxlen - 2 := by
  obtain ⟨p, k, hstart, hin, hring⟩ := exists_start [104, 105, 10] (by decide)
  have hread : getsLen (maxlen - 1) k.uartIn = some 3 := by
    rw [hin]
    decide
  obtain ⟨log, k', e, c, hrun, he, -⟩ := (ShellRun.start hstart).iteration (shellAt_onStack p)
    (shellAt_promptOnStack p) hread hring
  exact ⟨shellAt p, log, k', shellAt_onStack p, hrun, List.ne_nil_of_mem he,
    shellEcho_iff (shellAt_onStack p) hrun⟩

/-- A line of 62 characters and the newline is read, but the newline is not echoed. -/
theorem shell_cuts_line :
    ∃ S log k e c, Shell.OnStack S ∧ ShellRun S log k .prompt ∧ e ∈ log.echoes ∧
      e.call = some c ∧ c.pending = List.replicate 62 97 ++ [10] ∧ c.result = 63 ∧
      e.sent.length = 64 ∧ ¬e.Complete := by
  obtain ⟨p, k, hstart, hin, hring⟩ := exists_start (List.replicate 62 97 ++ [10]) (by decide)
  have hread : getsLen (maxlen - 1) k.uartIn = some 63 := by
    rw [hin]
    decide
  obtain ⟨log, k', e, c, hrun, he, hcall, hpending, hcut⟩ := (ShellRun.start hstart).iteration
    (shellAt_onStack p) (shellAt_promptOnStack p) hread hring
  have hlong : lineLen c.pending = 63 := by
    rw [hpending, hin]
    decide
  have hshort : ¬e.Complete := by
    rw [hcut.complete_iff]
    rintro ⟨c', hcall', hle⟩
    obtain rfl := Option.some.inj (hcall'.symm.trans hcall)
    rw [hlong] at hle
    exact absurd hle (by decide)
  obtain ⟨c', hcall', hline, hsent⟩ := hcut
  obtain rfl := Option.some.inj (hcall'.symm.trans hcall)
  have hresult : c'.result = 63 := by
    rw [hline.result, hlong]
    rfl
  refine ⟨shellAt p, log, k', e, c', shellAt_onStack p, hrun, he, hcall, hpending.trans hin, hresult,
    ?_, hshort⟩
  rw [hsent, List.length_take, List.length_append, hline.length, hresult]
  rfl

end SystemN
