/-
What becomes of the input that `SYS_read` consumes.

`uart_gets` takes a line off the UART and echoes it before `copy_to_user` has looked at the
buffer.  If the range of the buffer is refused then, the call answers -1 and the line is
gone.  In a sequence of calls nothing is lost if and only if each call has a buffer for the
line it is going to read.
-/
import SystemN.Proofs.UserCopy
import SystemN.Proofs.UserRange

namespace SystemN.Kernel

variable {k k' k₀ : Kernel} {userBuf len va n m r : Nat}

/-! ### The line a call reads -/

/-- How many characters there are up to the end of the first line, and with it; one more than there
are if no line ends. -/
def lineLen (cs : List UInt8) : Nat := cs.findIdx (fun c => c = 13 ∨ c = 10) + 1

theorem lineLen_end {c : UInt8} (hc : c = 13 ∨ c = 10) (cs : List UInt8) : lineLen (c :: cs) = 1 := by
  rw [lineLen, List.findIdx_cons, decide_eq_true hc]
  rfl

theorem lineLen_other {c : UInt8} (hc : ¬(c = 13 ∨ c = 10)) (cs : List UInt8) :
    lineLen (c :: cs) = lineLen cs + 1 := by
  rw [lineLen, List.findIdx_cons, decide_eq_false hc]
  rfl

theorem getsLen_eq {cs : List UInt8} (h : getsLen n cs = some m) : m = min n (lineLen cs) := by
  induction n generalizing m cs with
  | zero =>
      obtain rfl := Option.some.inj h
      exact (Nat.zero_min _).symm
  | succ n ih =>
      cases cs with
      | nil => cases h
      | cons c cs =>
          rw [getsLen] at h
          by_cases hc : c = 13 ∨ c = 10
          · rw [if_pos hc] at h
            obtain rfl := Option.some.inj h
            rw [lineLen_end hc]
            omega
          · rw [if_neg hc] at h
            obtain ⟨m', hm', rfl⟩ := Option.map_eq_some_iff.mp h
            have := ih hm'
            rw [lineLen_other hc]
            omega

/-- No line ends before the last of the characters. -/
theorem getsLen_line {cs : List UInt8} (h : getsLen n cs = some m) :
    10 ∉ ((cs.take m).map crToLf).dropLast := by
  induction n generalizing m cs with
  | zero =>
      obtain rfl := Option.some.inj h
      simp
  | succ n ih =>
      cases cs with
      | nil => cases h
      | cons c cs =>
          rw [getsLen] at h
          by_cases hc : c = 13 ∨ c = 10
          · rw [if_pos hc] at h
            obtain rfl := Option.some.inj h
            simp
          · rw [if_neg hc] at h
            obtain ⟨m', hm', rfl⟩ := Option.map_eq_some_iff.mp h
            have hc' : crToLf c ≠ 10 := by
              rw [not_or] at hc
              rw [crToLf, if_neg hc.1]
              exact hc.2
            rw [List.take_succ_cons, List.map_cons]
            cases hline : (cs.take m').map crToLf with
            | nil => simp
            | cons d ds =>
                rw [List.dropLast_cons_cons, ← hline, List.mem_cons, not_or]
                exact ⟨hc'.symm, ih hm'⟩

/-! ### What a call stores -/

/-- The bytes `copy_to_user` stores, with their physical addresses, up to a fault. -/
def storeLog (va : Nat) : List UInt8 → Kernel → List (Nat × UInt8)
  | [], _ => []
  | c :: buf, k =>
      match k.access va pteW with
      | .ok pa =>
          (pa, c) :: storeLog (va + 1) buf (k.setMm (k.mm.setMem (Function.update k.mm.mem pa c)))
      | .error _ => []

/-- The bytes `sys_read` stores in the buffer of its caller. -/
def sysReadLog (k : Kernel) (userBuf len : Nat) : List (Nat × UInt8) :=
  match k.uartGets (copyLen len) with
  | .error _ => []
  | .ok (buf, k) => if isUserAddr userBuf buf.length then storeLog userBuf buf k.setSum else []

/-- Memory after these stores. -/
def applyLog (log : List (Nat × UInt8)) (mem : Nat → UInt8) : Nat → UInt8 :=
  log.foldl (fun mem x => Function.update mem x.1 x.2) mem

/-- The log says what the copy has done to memory. -/
theorem storeUser_log {buf : List UInt8} (h : storeUser va buf k = .ok k') :
    (storeLog va buf k).map Prod.snd = buf ∧ k'.mm.mem = applyLog (storeLog va buf k) k.mm.mem ∧
      k'.uartIn = k.uartIn := by
  induction buf generalizing va k with
  | nil =>
      obtain rfl := Except.ok.inj h
      exact ⟨rfl, rfl, rfl⟩
  | cons c buf ih =>
      rw [storeUser, bind_eq_ok] at h
      obtain ⟨pa, hacc, h⟩ := h
      obtain ⟨hbytes, hmem, hin⟩ := ih h
      rw [storeLog, hacc]
      exact ⟨congrArg (c :: ·) hbytes, hmem, hin⟩

/-- What `sys_read` has done when it returns: it has consumed the line, and stored it if the buffer
was not refused. -/
theorem sysRead_returns (h : k.sysRead 0 userBuf len = .ok (r, k')) :
    ∃ m, getsLen (copyLen len - 1) k.uartIn = some m ∧ k'.uartIn = k.uartIn.drop m ∧
      k'.mm.mem = applyLog (k.sysReadLog userBuf len) k.mm.mem ∧
      ((isUserAddr userBuf m = true ∧ r = m ∧
          (k.sysReadLog userBuf len).map Prod.snd = (k.uartIn.take m).map crToLf) ∨
        isUserAddr userBuf m = false ∧ r = minusOne ∧ k.sysReadLog userBuf len = []) := by
  rw [sysRead, if_neg (by decide)] at h
  dsimp only at h
  rw [show (if maxlen < len % 2 ^ 32 then maxlen else len % 2 ^ 32) = copyLen len from rfl] at h
  rw [sysReadLog]
  rw [uartGets, uartGetsLoop_eq] at h ⊢
  cases hlen : getsLen (copyLen len - 1) k.uartIn with
  | none =>
      rw [hlen] at h
      cases h
  | some m =>
      rw [hlen] at h
      simp only [ok_bind] at h ⊢
      have hlength : ((k.uartIn.take m).map crToLf).length = m := by
        rw [List.length_map, List.length_take_of_le (getsLen_le_length hlen)]
      rw [copyToUser, hlength] at h
      rw [hlength]
      refine ⟨m, rfl, ?_⟩
      cases hnum : isUserAddr userBuf m with
      | false =>
          rw [hnum] at h
          obtain ⟨rfl, rfl⟩ := Prod.mk.inj (Except.ok.inj h)
          exact ⟨rfl, rfl, Or.inr ⟨rfl, rfl, rfl⟩⟩
      | true =>
          rw [hnum] at h
          simp only [Bool.not_true, Bool.false_eq_true, if_false] at h
          obtain ⟨⟨ok, k₁⟩, hcopy, h⟩ := bind_eq_ok.mp h
          obtain ⟨k₂, hstore, hcopy⟩ := bind_eq_ok.mp hcopy
          obtain ⟨rfl, rfl⟩ := Prod.mk.inj (Except.ok.inj hcopy)
          obtain ⟨rfl, rfl⟩ := Prod.mk.inj (Except.ok.inj h)
          obtain ⟨hbytes, hmem, hin⟩ := storeUser_log hstore
          refine ⟨hin, hmem, Or.inl ⟨rfl, ?_, hbytes⟩⟩
          refine sext32_of_lt ?_
          have := getsLen_eq hlen
          have := copyLen_le len
          simp only [maxlen] at *
          omega

/-! ### Sequences of calls -/

/-- A call of `sys_read(0, userBuf, len)` that has returned. -/
structure ReadCall where
  userBuf : Nat
  len : Nat
  /-- The input before the call, and after it. -/
  pending : List UInt8
  rest : List UInt8
  result : Nat
  /-- The bytes it has stored. -/
  stored : List UInt8

/-- The call is for a buffer that can take what there is to be read, or for no character at all. -/
def ReadCall.Fits (c : ReadCall) : Prop :=
  min (min (c.len % 2 ^ 32) maxlen - 1) (lineLen c.pending) = 0 ∨
    c.userBuf + min (min (c.len % 2 ^ 32) maxlen - 1) (lineLen c.pending) < userEndVa

/-- The runs from the state `k₀`: calls of `sys_read`, and whatever else does not read from the
UART between them. -/
inductive ReadRun (k₀ : Kernel) : List ReadCall → Kernel → Prop where
  | start : ReadRun k₀ [] k₀
  | call {calls : List ReadCall} {k k' : Kernel} {userBuf len r : Nat} (hrun : ReadRun k₀ calls k)
      (hcall : k.sysRead 0 userBuf len = .ok (r, k')) :
      ReadRun k₀ (calls ++ [⟨userBuf, len, k.uartIn, k'.uartIn, r,
        (k.sysReadLog userBuf len).map Prod.snd⟩]) k'
  | other {calls : List ReadCall} {k k' : Kernel} (hrun : ReadRun k₀ calls k)
      (hin : k'.uartIn = k.uartIn) : ReadRun k₀ calls k'

/-- What the calls that have not answered -1 have stored, one after the other. -/
def received (calls : List ReadCall) : List UInt8 :=
  calls.flatMap fun c => if c.result = minusOne then [] else c.stored

/-- No input is lost. -/
structure Lossless (k₀ : Kernel) (calls : List ReadCall) (k : Kernel) : Prop where
  stream : ∃ consumed, k₀.uartIn = consumed ++ k.uartIn ∧ received calls = consumed.map crToLf
  /-- A call stores what it answers, and no more than a line. -/
  line : ∀ c ∈ calls, c.result ≠ minusOne →
    c.stored.length = c.result ∧ c.stored.length ≤ c.len ∧ 10 ∉ c.stored.dropLast
  refused : ∀ c ∈ calls, c.result = minusOne → c.rest = c.pending

/-- How one call ends. -/
inductive ReadCall.Outcome (c : ReadCall) : Prop where
  | stored (n : Nat) (hfits : c.Fits) (hn : n ≤ c.pending.length) (hlen : n ≤ c.len)
      (hrest : c.rest = c.pending.drop n) (hresult : c.result = n) (hsmall : n < minusOne)
      (hstored : c.stored = (c.pending.take n).map crToLf) (hline : 10 ∉ c.stored.dropLast)
  | nothing (hfits : c.Fits) (hrest : c.rest = c.pending) (hresult : c.result = minusOne)
  | lost (hfits : ¬c.Fits) (hrest : c.rest ≠ c.pending) (hresult : c.result = minusOne)

theorem sysRead_outcome (h : k.sysRead 0 userBuf len = .ok (r, k')) :
    ReadCall.Outcome ⟨userBuf, len, k.uartIn, k'.uartIn, r,
      (k.sysReadLog userBuf len).map Prod.snd⟩ := by
  obtain ⟨m, hgets, hrest, -, hcase⟩ := sysRead_returns h
  have hm : m = min (min (len % 2 ^ 32) maxlen - 1) (lineLen k.uartIn) := by
    rw [← copyLen_eq]
    exact getsLen_eq hgets
  have hthere := getsLen_le_length hgets
  rcases hcase with ⟨hnum, hr, hstored⟩ | ⟨hnum, hr, -⟩
  · have hfits := (isUserAddr_iff.mp hnum).2
    have hmod := Nat.mod_le len (2 ^ 32)
    refine .stored m (Or.inr ?_) hthere ?_ hrest hr ?_ hstored ?_
    · rw [← hm]
      exact hfits
    · show m ≤ len
      omega
    · simp only [maxlen, minusOne] at *
      omega
    · rw [hstored]
      exact getsLen_line hgets
  · by_cases h0 : m = 0
    · refine .nothing (Or.inl (hm.symm.trans h0)) ?_ hr
      show k'.uartIn = k.uartIn
      rw [hrest, h0, List.drop_zero]
    · refine .lost ?_ ?_ hr
      · rintro (hzero | hfits)
        · exact h0 (hm.trans hzero)
        · rw [← hm] at hfits
          have := isUserAddr_iff.mpr ⟨Nat.pos_of_ne_zero h0, hfits⟩
          rw [hnum] at this
          cases this
      · show k'.uartIn ≠ k.uartIn
        rw [hrest]
        intro heq
        have := congrArg List.length heq
        rw [List.length_drop] at this
        omega

theorem ReadRun.outcome {calls : List ReadCall} (h : ReadRun k₀ calls k) :
    ∀ c ∈ calls, c.Outcome := by
  induction h with
  | start => exact fun c hc => nomatch hc
  | call hrun hcall ih =>
      intro c hc
      rcases List.mem_append.mp hc with hc | hc
      · exact ih c hc
      · obtain rfl := List.mem_singleton.mp hc
        exact sysRead_outcome hcall
  | other hrun hin ih => exact ih

/-- What a call takes off the stream is what it stores. -/
theorem ReadCall.Outcome.stream {c : ReadCall} (h : c.Outcome) (hfits : c.Fits) :
    ∃ taken, c.pending = taken ++ c.rest ∧
      (if c.result = minusOne then [] else c.stored) = taken.map crToLf := by
  cases h with
  | stored n _ hn hlen hrest hresult hsmall hstored =>
      refine ⟨c.pending.take n, ?_, ?_⟩
      · rw [hrest, List.take_append_drop]
      · rw [if_neg (by rw [hresult]; exact Nat.ne_of_lt hsmall), hstored]
  | nothing _ hrest hresult => exact ⟨[], hrest.symm, if_pos hresult⟩
  | lost hnot => exact absurd hfits hnot

theorem ReadRun.stream {calls : List ReadCall} (h : ReadRun k₀ calls k)
    (hfits : ∀ c ∈ calls, c.Fits) :
    ∃ consumed, k₀.uartIn = consumed ++ k.uartIn ∧ received calls = consumed.map crToLf := by
  induction h with
  | start => exact ⟨[], rfl, rfl⟩
  | other hrun hin ih =>
      obtain ⟨consumed, hsplit, hbytes⟩ := ih hfits
      exact ⟨consumed, by rw [hin]; exact hsplit, hbytes⟩
  | call hrun hcall ih =>
      obtain ⟨consumed, hsplit, hbytes⟩ := ih fun c hc => hfits c (List.mem_append_left _ hc)
      obtain ⟨taken, htaken, hstored⟩ := (sysRead_outcome hcall).stream
        (hfits _ (List.mem_append_right _ (List.mem_singleton.mpr rfl)))
      refine ⟨consumed ++ taken, ?_, ?_⟩
      · rw [hsplit, List.append_assoc]
        exact congrArg (consumed ++ ·) htaken
      · rw [received, List.flatMap_append, List.flatMap_singleton, List.map_append, ← hstored]
        exact congrArg (· ++ _) hbytes

/-- **No input is lost**, exactly: in the runs in which each call is for a buffer that can take the
line it reads. -/
theorem readRun_lossless_iff {calls : List ReadCall} (h : ReadRun k₀ calls k) :
    Lossless k₀ calls k ↔ ∀ c ∈ calls, c.Fits := by
  constructor
  · intro hall c hc
    cases h.outcome c hc with
    | stored _ hfits => exact hfits
    | nothing hfits => exact hfits
    | lost _ hrest hresult => exact absurd (hall.refused c hc hresult) hrest
  · intro hfits
    refine ⟨h.stream hfits, fun c hc hresult => ?_, fun c hc hresult => ?_⟩
    · cases h.outcome c hc with
      | stored n _ hn hlen hrest hr hsmall hstored hline =>
          have hlength : c.stored.length = n := by
            rw [hstored, List.length_map, List.length_take_of_le hn]
          exact ⟨hlength.trans hr.symm, by rw [hlength]; exact hlen, hline⟩
      | nothing _ _ hr => exact absurd hr hresult
      | lost _ _ hr => exact absurd hr hresult
    · cases h.outcome c hc with
      | stored n _ _ _ _ hr hsmall =>
          rw [hr] at hresult
          exact absurd hresult (Nat.ne_of_lt hsmall)
      | nothing _ hrest => exact hrest
      | lost hnot => exact absurd (hfits c hc) hnot

/-! ### A process with a stack -/

/-- The tables of a process that has a stack, and nothing else. -/
def stackTable : Nat → UInt8 :=
  putEntry
    (putEntry (putEntry (fun _ => 0) 0x80200000 0 (pa2pte 0x80201000 ||| pteV)) 0x80201000 59
      (pa2pte 0x80202000 ||| pteV))
    0x80202000 511 (pa2pte 0x80203000 ||| pteR ||| pteW ||| pteU ||| pteV ||| pteA ||| pteD)

/-- `textProcs` over these tables. -/
def stackProcs : Kernel := { textProcs with snub := Snub.snubInit (Mm.reset stackTable) }

/-- A newline is read into the stack. -/
theorem readRun_lossless_iff_stackProcs :
    ∃ calls k', ReadRun stackProcs calls k' ∧ received calls = [10] ∧
      (Lossless stackProcs calls k' ↔ ∀ c ∈ calls, c.Fits) := by
  obtain ⟨k', hcall⟩ : ∃ k', stackProcs.sysRead 0 userStackBase 8 = .ok (1, k') := ⟨_, rfl⟩
  have hrun := ReadRun.call .start hcall
  exact ⟨_, k', hrun, rfl, readRun_lossless_iff hrun⟩

/-- A newline that is read for a buffer in the kernel is lost. -/
theorem read_lost :
    ∃ calls k', ReadRun stackProcs calls k' ∧ stackProcs.uartIn = [10] ∧ k'.uartIn = [] ∧
      received calls = [] ∧ ¬Lossless stackProcs calls k' := by
  obtain ⟨k', hcall, hin⟩ : ∃ k', stackProcs.sysRead 0 kernelStartVa 8 = .ok (minusOne, k') ∧
      k'.uartIn = [] := ⟨_, rfl, rfl⟩
  have hrun := ReadRun.call .start hcall
  refine ⟨_, k', hrun, rfl, hin, rfl, fun h => ?_⟩
  have hrest := h.refused _ (List.mem_singleton.mpr rfl) rfl
  rw [show k'.uartIn = [10] from hrest] at hin
  cases hin

end SystemN.Kernel
