/-
The system calls, as user code sees them.

User code knows of a process its memory, where the heap ends, and what passes through the UART:
`UserState`.  `CallSpec` says of each call what it makes of these and what it answers, without tables,
frames and allocators.  In every state of the system the kernel does just that for the process that
calls, and nothing for the others.

Two of the calls do not do what one would expect, and `CallSpec` says so.  A `sbrk` that fails keeps the
pages it has mapped up to then, though the heap does not get longer; and the pages that are there
already when the heap is made longer keep their bytes.
-/
import SystemN.Proofs.UserCall
import SystemN.Proofs.SysRead
import SystemN.Proofs.SysWrite

namespace SystemN

open Mm Radix Spaces

namespace Kernel

variable {L : Layout} {m : Nat → UInt8} {k k' k₁ : Kernel} {p q va pa f stack root : Nat} {ps : List Nat}
  {live : Multiset (Nat × Nat)} {taken given fl : Nat → List Nat} {roots : Option Nat → Option Nat}
  {V : Mapping (Option Nat) PageNo PageBytes Nat} {lo hi : Nat} {c : UInt8}

/-- A range of whole pages has the bytes of its pages. -/
theorem mem_pagesIn (hva : Canonical va) (hlo : lo % pageSize = 0) (hhi : hi % pageSize = 0)
    (htop : hi ≤ userEndVa) : pageNo va ∈ pagesIn lo hi ↔ lo ≤ va ∧ va < hi := by
  simp only [pagesIn, Set.mem_ofPred_eq, pageNo, vpage, Canonical, pageSize, userEndVa] at *
  omega

theorem bytesOf_fill (hlo : lo % pageSize = 0) (hhi : hi % pageSize = 0) (htop : hi ≤ userEndVa) :
    bytesOf (fill V (some p) (pagesIn lo hi) (blankPage, f)) p =
      (bytesOf V p).extend lo hi f := by
  funext va
  unfold UserMemory.extend
  by_cases hva : Canonical va
  · rw [bytesOf_canonical hva, bytesOf_canonical hva, fill]
    by_cases hin : lo ≤ va ∧ va < hi
    · cases hV : V (some p) (pageNo va) with
      | none => simp [(mem_pagesIn hva hlo hhi htop).mpr hin, hin, blankPage]
      | some e => simp
    · rw [if_neg fun hc => hin ((mem_pagesIn hva hlo hhi htop).mp hc.2.1),
        if_neg fun hc => hin ⟨hc.1, hc.2.1⟩]
  · rw [bytesOf_noncanonical hva, bytesOf_noncanonical hva, if_neg]
    rintro ⟨-, hlt, -⟩
    refine hva (Or.inl ?_)
    simp only [userEndVa] at htop
    omega

theorem bytesOf_clear (hlo : lo % pageSize = 0) (hhi : hi % pageSize = 0) (htop : hi ≤ userEndVa) :
    bytesOf (clear V (some p) (pagesIn lo hi)) p = (bytesOf V p).remove lo hi := by
  funext va
  unfold UserMemory.remove
  by_cases hva : Canonical va
  · rw [bytesOf_canonical hva, bytesOf_canonical hva, clear]
    by_cases hin : lo ≤ va ∧ va < hi
    · rw [if_pos ⟨rfl, (mem_pagesIn hva hlo hhi htop).mpr hin⟩, if_pos hin]
      rfl
    · rw [if_neg fun hc => hin ((mem_pagesIn hva hlo hhi htop).mp hc.2), if_neg hin]
  · rw [bytesOf_noncanonical hva, bytesOf_noncanonical hva, ite_self]

/-- **A copy to user memory** is seen where it is made. -/
theorem storeUser_bytes (ho : roots (some p) = some root) {bytes : List UInt8} :
    ∀ {va : Nat} {k : Kernel}, Isolated k.layout roots k.snub live taken given fl → k.satpRoot = root →
      va + bytes.length ≤ userEndVa → storeUser va bytes k = .ok k' → ∃ mm, k' = k.setMm mm ∧
        Isolated k.layout roots { k.snub with mm := mm } live taken given fl ∧
        bytesOf (userViews roots mm.mem) p = (bytesOf (userViews roots k.mm.mem) p).write va bytes := by
  induction bytes with
  | nil =>
      intro va k h hroot hle hcall
      obtain rfl := Except.ok.inj hcall
      exact ⟨k.mm, rfl, h, by rw [UserMemory.write_nil]⟩
  | cons c bytes ih =>
      intro va k h hroot hle hcall
      rw [List.length_cons] at hle
      obtain ⟨pa, haccess, hrest⟩ := bind_eq_ok.mp hcall
      unfold access at haccess
      split at haccess
      swap
      · cases haccess
      next pa' f htr =>
      split at haccess
      swap
      · cases haccess
      obtain rfl := Except.ok.inj haccess
      rw [hroot] at htr
      have hcanon : Canonical va := by
        simp only [Canonical, userEndVa] at *
        omega
      obtain ⟨b, b', hb, hi, hviews, hb'⟩ :=
        store_view (c := c) h ho htr (user_of_low h ho (by omega) htr)
      have hput : userViews roots (k.setMm (k.mm.setMem (Function.update k.mm.mem pa' c))).mm.mem =
          put (userViews roots k.mm.mem) (some p) (pageNo va) (some (b', f)) := hviews
      have hb₀ : userViews roots k.mm.mem (some p) (pageNo va) = some (b, f) := hb
      obtain ⟨mm, rfl, hi', hbytes⟩ := ih (k := k.setMm (k.mm.setMem (Function.update k.mm.mem pa' c))) hi
        hroot (by omega) hrest
      exact ⟨mm, rfl, hi', by rw [hbytes, hput, bytesOf_put hcanon hb₀ hb', UserMemory.write_cons]⟩

/-- **A copy from user memory.** -/
theorem loadUser_bytes (hsatp : k.satpRoot = (k.procs p).pagetable)
    (h : Isolated k.layout roots k.snub live taken given fl)
    (ho : roots (some p) = some (k.procs p).pagetable) {n : Nat} : ∀ {va : Nat} {bytes : List UInt8},
      va + n ≤ userEndVa → k.loadUser va n = .ok bytes → bytes.length = n ∧
        ∀ i (hi : i < bytes.length), ∃ f, f &&& pteR ≠ 0 ∧ k.procByte p (va + i) = some (bytes[i], f) := by
  induction n with
  | zero =>
      intro va bytes hle hcall
      obtain rfl := Except.ok.inj hcall
      exact ⟨rfl, fun i hi => absurd hi (Nat.not_lt_zero i)⟩
  | succ n ih =>
      intro va bytes hle hcall
      obtain ⟨pa, haccess, hrest⟩ := bind_eq_ok.mp hcall
      obtain ⟨tail, htail, hbytes⟩ := bind_eq_ok.mp hrest
      obtain rfl := Except.ok.inj hbytes
      obtain ⟨hlen, hall⟩ := ih (by omega) htail
      refine ⟨by rw [List.length_cons, hlen], fun i hi => ?_⟩
      cases i with
      | succ i =>
          have hsucc := hall i (Nat.lt_of_succ_lt_succ hi)
          rw [Nat.add_assoc, Nat.add_comm 1 i] at hsucc
          exact hsucc
      | zero =>
          unfold access at haccess
          split at haccess
          swap
          · cases haccess
          next pa' f htr =>
          split at haccess
          swap
          · cases haccess
          next hread =>
          obtain rfl := Except.ok.inj haccess
          rw [hsatp] at htr
          refine ⟨f, hread, ?_⟩
          have hat : k.mm.translate (k.procs p).pagetable (va + 0) = some (pa', f) := htr
          rw [procByte, hat]
          dsimp only
          rw [if_pos (user_of_low h ho (by omega) htr)]
          rfl

end Kernel

/-! ### What a call does -/

/-- What user code knows of the state. -/
structure UserState where
  memory : UserMemory
  heapEnd : Nat
  /-- The characters that have not been read. -/
  typed : List UInt8
  /-- Those that have been sent, last one first. -/
  sent : List UInt8

section Spec

open Kernel

variable (v : Nat) (s s' : UserState)

/-- The call answers -1 and does nothing. -/
def Refused : Prop := v = minusOne ∧ s' = s

/-- `write` sends what is in memory, up to a NUL. -/
def WriteSpec (fd buf len : Nat) : Prop :=
  if (fd ≠ 1 ∧ fd ≠ 2) ∨ isUserAddr buf (min len maxlen) = false then Refused v s s'
  else ∃ bytes : List UInt8, bytes.length = min len maxlen ∧
    (∀ i (hi : i < bytes.length), ∃ f, f &&& pteR ≠ 0 ∧ s.memory (buf + i) = some (bytes[i], f)) ∧
    v = (bytes.takeWhile (· ≠ 0)).length ∧
    s' = { s with sent := (bytes.takeWhile (· ≠ 0)).reverse ++ s.sent }

/-- `read` takes a line, or as much of it as there is room for, and echoes it.  The line is lost if
the buffer is refused. -/
def ReadSpec (fd buf len : Nat) : Prop :=
  if fd ≠ 0 then Refused v s s'
  else
    let n := min (min len maxlen - 1) (lineLen s.typed)
    let bytes := (s.typed.take n).map crToLf
    bytes.length = n ∧ v = (if isUserAddr buf n then n else minusOne) ∧ s' = { s with
      memory := if isUserAddr buf n then s.memory.write buf bytes else s.memory
      typed := s.typed.drop n
      sent := bytes.reverse ++ s.sent }

/-- `sbrk` moves the end of the heap to `target`.  If it fails there are pages up to `mid` all the
same. -/
def SbrkSpec (target : Nat) : Prop :=
  v = s.heapEnd ∧ s' = { s with
      memory := (s.memory.remove target s.heapEnd).extend s.heapEnd target (mapFlags heapPerm)
      heapEnd := target } ∨
    v = minusOne ∧ ∃ mid, s.heapEnd ≤ mid ∧ mid ≤ userHeapEnd ∧
      s' = { s with memory := s.memory.extend s.heapEnd mid (mapFlags heapPerm) }

/-- `munmap` removes pages from `addr` to `last`, as far as there are pages. -/
def MunmapSpec (addr last : Nat) : Prop :=
  ∃ mid, (∀ va, addr ≤ va → va < mid → s.memory va ≠ none) ∧
    s' = { s with memory := s.memory.remove addr mid } ∧ (v = 0 ∧ mid = last ∨ v = minusOne)

/-- **The calls**, of the process with the record `P` and the registers `regs`; `v` is the answer. -/
def CallSpec (P : Proc) (regs : Nat → Nat) : Prop :=
  match regs 17 % 2 ^ 32 with
  | SYS_write => WriteSpec v s s' (regs 10 % 2 ^ 32) (regs 11) (regs 12 % 2 ^ 32)
  | SYS_read => ReadSpec v s s' (regs 10 % 2 ^ 32) (regs 11) (regs 12 % 2 ^ 32)
  | SYS_sbrk => SbrkSpec v s s' (newBrk P (regs 10))
  | SYS_munmap => MunmapSpec v s s' (regs 10) (alignUp (u64 (regs 10 + regs 11)))
  | SYS_getpid => v = sext32 P.pid ∧ s' = s
  | SYS_sleep_ms => v = (if regs 10 = 0 ∨ maxSleepMs < regs 10 then minusOne else 0) ∧ s' = s
  | SYS_exit => v = regs 10 ∧ s' = s
  | SYS_yield => v = regs 10 ∧ s' = s
  | _ => Refused v s s'

end Spec

namespace Kernel

/-- What user code of the process `p` knows of the state of the kernel. -/
def userState (k : Kernel) (p : Nat) : UserState where
  memory := k.procByte p
  heapEnd := (k.procs p).heapEnd
  typed := k.uartIn
  sent := k.uartOut

variable {L : Layout} {m : Nat → UInt8} {k k' k₁ : Kernel} {p q r stack fd buf len size addr : Nat}
  {ps : List Nat} {live : Multiset (Nat × Nat)} {taken given fl : Nat → List Nat}
  {roots : Option Nat → Option Nat} {t : Trap}

/-- What does not touch memory, the heap and the UART is not seen. -/
theorem Quiet.userState (h : Quiet q k k') (hin : k'.uartIn = k.uartIn) (hout : k'.uartOut = k.uartOut) :
    k'.userState p = k.userState p := by
  obtain ⟨-, -, htable, -, hheap, -⟩ := Proc.space_eq_iff.mp (h.spaces p)
  have hbytes : k'.procByte p = k.procByte p := by
    funext va
    rw [procByte, procByte, htable, show k'.mm = k.mm from congrArg Snub.mm h.snub]
  rw [Kernel.userState, Kernel.userState, hbytes, hheap, hin, hout]

theorem memory_bytesOf (h : Isolated k.layout roots k.snub live taken given fl)
    (hroot : roots (some p) = some (k.procs p).pagetable) :
    (k.userState p).memory = bytesOf (userViews roots k.mm.mem) p :=
  procByte_eq h hroot

theorem sysWrite_spec (h : Isolated k.layout roots k.snub live taken given fl)
    (hroot : roots (some p) = some (k.procs p).pagetable) (hsatp : k.satpRoot = (k.procs p).pagetable)
    (hcall : k.sysWrite fd buf len = .ok (r, k')) :
    WriteSpec r (k.userState p) (k'.userState p) (fd % 2 ^ 32) buf (len % 2 ^ 32) := by
  unfold WriteSpec
  unfold sysWrite at hcall
  split at hcall
  · next hfd =>
    obtain ⟨rfl, rfl⟩ := Prod.mk.inj (Except.ok.inj hcall)
    rw [if_pos (Or.inl hfd)]
    exact ⟨rfl, rfl⟩
  · next hfd =>
    have hlen : (if maxlen < len % 2 ^ 32 then maxlen else len % 2 ^ 32) = min (len % 2 ^ 32) maxlen :=
      copyLen_eq len
    dsimp only at hcall
    rw [hlen] at hcall
    obtain ⟨⟨bytes, k₁⟩, hcopy, hrest⟩ := bind_eq_ok.mp hcall
    unfold copyFromUser at hcopy
    split at hcopy
    · next hrefused =>
      obtain ⟨rfl, rfl⟩ := Prod.mk.inj (Except.ok.inj hcopy)
      obtain ⟨rfl, rfl⟩ := Prod.mk.inj (Except.ok.inj hrest)
      rw [if_pos (Or.inr (by simpa using hrefused))]
      exact ⟨rfl, rfl⟩
    · next haddr =>
      have haddr' : isUserAddr buf (min (len % 2 ^ 32) maxlen) = true := by simpa using haddr
      obtain ⟨bytes', hload, hk⟩ := bind_eq_ok.mp hcopy
      obtain ⟨rfl, rfl⟩ := Prod.mk.inj (Except.ok.inj hk)
      obtain ⟨rfl, rfl⟩ := Prod.mk.inj (Except.ok.inj hrest)
      obtain ⟨hlength, hbytes⟩ := loadUser_bytes (k := k.setSum) hsatp h hroot (end_of_isUserAddr haddr') hload
      have hsent : putsnSent bytes' (min (len % 2 ^ 32) maxlen) = bytes'.takeWhile (· ≠ 0) := by
        rw [putsnSent, List.take_of_length_le hlength.le]
      rw [if_neg fun hc => hc.elim hfd fun hno => by rw [haddr'] at hno; cases hno]
      refine ⟨bytes', hlength, hbytes, ?_, ?_⟩
      · rw [uartPutsn_eq, hsent]
        refine sext32_of_lt ?_
        have hle := (List.takeWhile_prefix (p := (· ≠ 0)) (l := bytes')).length_le
        simp only [maxlen] at hlength
        omega
      · rw [uartPutsn_eq, hsent]
        rfl

theorem sysRead_spec (h : Isolated k.layout roots k.snub live taken given fl)
    (hroot : roots (some p) = some (k.procs p).pagetable) (hsatp : k.satpRoot = (k.procs p).pagetable)
    (hcall : k.sysRead fd buf len = .ok (r, k')) :
    ReadSpec r (k.userState p) (k'.userState p) (fd % 2 ^ 32) buf (len % 2 ^ 32) := by
  unfold ReadSpec
  unfold sysRead at hcall
  split at hcall
  · next hfd =>
    obtain ⟨rfl, rfl⟩ := Prod.mk.inj (Except.ok.inj hcall)
    rw [if_pos hfd]
    exact ⟨rfl, rfl⟩
  · next hfd =>
    have hlen : (if maxlen < len % 2 ^ 32 then maxlen else len % 2 ^ 32) = min (len % 2 ^ 32) maxlen :=
      copyLen_eq len
    dsimp only at hcall
    rw [hlen] at hcall
    rw [if_neg hfd]
    obtain ⟨⟨bytes, k₁⟩, hgets, hrest⟩ := bind_eq_ok.mp hcall
    rw [uartGets, uartGetsLoop_eq] at hgets
    split at hgets
    · cases hgets
    · next n hn =>
      obtain ⟨rfl, rfl⟩ := Prod.mk.inj (Except.ok.inj hgets)
      obtain ⟨⟨ok, k₂⟩, hcopy, hend⟩ := bind_eq_ok.mp hrest
      have hlength : ((k.uartIn.take n).map crToLf).length = n := by
        rw [List.length_map, List.length_take_of_le (getsLen_le_length hn)]
      have hmin : min (min (len % 2 ^ 32) maxlen - 1) (lineLen k.uartIn) = n := (getsLen_eq hn).symm
      have hsext : sext32 n = n := by
        refine sext32_of_lt ?_
        simp only [maxlen] at hmin
        omega
      dsimp only [Kernel.userState] at *
      rw [hmin]
      refine ⟨hlength, ?_⟩
      unfold copyToUser at hcopy
      rw [hlength] at hcopy
      cases haddr : isUserAddr buf n with
      | false =>
          rw [haddr] at hcopy
          obtain ⟨rfl, rfl⟩ := Prod.mk.inj (Except.ok.inj hcopy)
          obtain ⟨rfl, rfl⟩ := Prod.mk.inj (Except.ok.inj hend)
          exact ⟨rfl, rfl⟩
      | true =>
          rw [haddr] at hcopy
          obtain ⟨k₃, hstore, hk⟩ := bind_eq_ok.mp hcopy
          obtain ⟨rfl, rfl⟩ := Prod.mk.inj (Except.ok.inj hk)
          obtain ⟨rfl, rfl⟩ := Prod.mk.inj (Except.ok.inj hend)
          have hle := end_of_isUserAddr haddr
          rw [← hlength] at hle
          obtain ⟨mm, rfl, hi, hbytes⟩ :=
            storeUser_bytes (k := (k.echoed n).setSum) (hsatp ▸ hroot) h rfl hle hstore
          have hmem : (((k.echoed n).setSum.setMm mm).clearSum).procByte p =
              (k.userState p).memory.write buf ((k.uartIn.take n).map crToLf) := by
            rw [procByte_eq (k := ((k.echoed n).setSum.setMm mm).clearSum) hi hroot,
              memory_bytesOf h hroot]
            exact hbytes
          rw [hmem, if_pos rfl, if_pos rfl, hlength, hsext]
          exact ⟨rfl, rfl⟩

theorem sysSbrk_spec (h : Isolated k.layout roots k.snub live taken given fl)
    (hroot : roots (some p) = some (k.procs p).pagetable) (hheap : HeapOk (k.procs p))
    (hcall : k.sysSbrk p size = .ok (r, k')) :
    SbrkSpec r (k.userState p) (k'.userState p) (newBrk (k.procs p) size) := by
  have hend : userHeapEnd ≤ userEndVa := by decide
  by_cases hrefused : SbrkRefused k p size
  · rw [sysSbrk_refused hheap hrefused] at hcall
    obtain ⟨rfl, rfl⟩ := Prod.mk.inj (Except.ok.inj hcall)
    refine Or.inr ⟨rfl, _, le_rfl, hheap.top, ?_⟩
    rw [UserMemory.extend_empty (le_of_eq rfl)]
  · have hnew : newBrk (k.procs p) size ≤ userHeapEnd :=
      Nat.le_of_not_lt fun hc => hrefused (Or.inr (Or.inr (Or.inr hc)))
    rw [sysSbrk_accepted hheap hrefused] at hcall
    cases hresize : resize (k.procs p).pagetable (alignUp size) (k.procs p).heapEnd
        (newBrk (k.procs p) size) k.mm with
    | error e =>
        rw [hresize] at hcall
        cases hcall
    | ok b =>
        rw [hresize] at hcall
        obtain ⟨live', mid, hi, hok, hfail, halign, htop, hviews⟩ :=
          resize_pages h hroot hheap hnew hresize
        have hmem : bytesOf (userViews roots b.2.mem) p =
            ((k.userState p).memory.remove mid (k.procs p).heapEnd).extend (k.procs p).heapEnd mid
              (mapFlags heapPerm) := by
          rw [hviews, bytesOf_fill hheap.aligned halign (htop.trans hend),
            bytesOf_clear halign hheap.aligned (hheap.top.trans hend), memory_bytesOf h hroot]
          rfl
        have hat : ∀ v : Proc, v.pagetable = (k.procs p).pagetable →
            ((k.setMm b.2).setProc p v).procByte p = bytesOf (userViews roots b.2.mem) p := by
          intro v hv
          refine procByte_eq (k := (k.setMm b.2).setProc p v) hi ?_
          rw [hroot, setProc_procs, Function.update_self, hv]
        obtain ⟨ok, mm⟩ := b
        cases ok with
        | true =>
            obtain ⟨rfl, rfl⟩ := Prod.mk.inj (Except.ok.inj hcall)
            refine Or.inl ⟨rfl, ?_⟩
            rw [hok rfl] at hmem
            have hself := hat { (k.setMm mm).procs p with heapEnd := newBrk (k.procs p) size } rfl
            rw [Kernel.userState, hself, hmem, setProc_procs, Function.update_self]
            rfl
        | false =>
            obtain ⟨rfl, rfl⟩ := Prod.mk.inj (Except.ok.inj hcall)
            obtain ⟨hle, -⟩ := hfail rfl
            refine Or.inr ⟨rfl, mid, hle, htop, ?_⟩
            rw [UserMemory.remove_empty hle] at hmem
            have hself : (k.setMm mm).procByte p = bytesOf (userViews roots mm.mem) p :=
              procByte_eq (k := k.setMm mm) hi hroot
            rw [Kernel.userState, hself, hmem]
            rfl

theorem sysMunmap_spec (h : Isolated k.layout roots k.snub live taken given fl)
    (hroot : roots (some p) = some (k.procs p).pagetable) (hrange : addr + size ≤ userEndVa)
    (hcall : k.sysMunmap p addr size = .ok (r, k')) :
    MunmapSpec r (k.userState p) (k'.userState p) addr (alignUp (u64 (addr + size))) := by
  unfold sysMunmap at hcall
  split at hcall
  · obtain ⟨rfl, rfl⟩ := Prod.mk.inj (Except.ok.inj hcall)
    refine ⟨addr, fun va hle hlt => absurd hlt (Nat.not_lt.mpr hle), ?_, Or.inr rfl⟩
    rw [UserMemory.remove_empty le_rfl]
  · next hargs =>
    obtain ⟨⟨ok, mm⟩, hloop, hk⟩ := bind_eq_ok.mp hcall
    obtain ⟨rfl, rfl⟩ := Prod.mk.inj (Except.ok.inj hk)
    have htop : alignUp (u64 (addr + size)) ≤ userEndVa := by
      simp only [alignUp, u64, userEndVa, pageSize] at *
      omega
    have halign : addr % pageSize = 0 := by
      by_contra hne
      exact hargs (Or.inr (Or.inr hne))
    obtain ⟨live', mid, hi, hok, hfail, hwas, hviews⟩ := munmapLoop_pages hroot htop h halign hloop
    have hmid : mid % pageSize = 0 ∧ mid ≤ userEndVa := by
      cases ok with
      | true => exact ⟨hok rfl ▸ alignUp_mod _, hok rfl ▸ htop⟩
      | false => exact ⟨(hfail rfl).2.2, (hfail rfl).2.1.le.trans htop⟩
    have hmem : (k.setMm mm).procByte p = (k.userState p).memory.remove addr mid := by
      rw [procByte_eq (k := k.setMm mm) hi hroot, memory_bytesOf h hroot]
      exact (congrArg (bytesOf · p) hviews).trans (bytesOf_clear halign hmid.1 hmid.2)
    refine ⟨mid, fun va hle hlt hnone => ?_, ?_, ?_⟩
    · have hva : Canonical va := by
        simp only [Canonical, userEndVa] at *
        omega
      have hnone' : k.procByte p va = none := hnone
      rw [procByte_eq h hroot, bytesOf_canonical hva] at hnone'
      exact hwas _ ((mem_pagesIn hva halign hmid.1 hmid.2).mpr ⟨hle, hlt⟩)
        (Option.map_eq_none_iff.mp hnone')
    · rw [Kernel.userState, hmem]
      rfl
    · cases ok with
      | true => exact Or.inl ⟨rfl, hok rfl⟩
      | false => exact Or.inr rfl

theorem sysSleepMs_spec {ms : Nat} {clock : Nat → Nat} (hcall : k.sysSleepMs p ms clock = .ok (r, k')) :
    r = (if ms = 0 ∨ maxSleepMs < ms then minusOne else 0) ∧ k'.userState p = k.userState p := by
  have hquiet : Quiet p k k' := sysSleepMs_quiet hcall
  unfold sysSleepMs at hcall
  split at hcall
  · next hms =>
    obtain ⟨rfl, rfl⟩ := Prod.mk.inj (Except.ok.inj hcall)
    exact ⟨(if_pos hms).symm, rfl⟩
  · next hms =>
    obtain ⟨nodes, -, hend⟩ := bind_eq_ok.mp hcall
    obtain ⟨rfl, rfl⟩ := Prod.mk.inj (Except.ok.inj hend)
    exact ⟨(if_neg hms).symm, hquiet.userState rfl rfl⟩

@[simp] theorem userState_setA0 (q v : Nat) : (k.setA0 q v).userState p = k.userState p := rfl

@[simp] theorem userState_setNeedsSched (b : Bool) : (k.setNeedsSched b).userState p = k.userState p := rfl

@[simp] theorem userState_setState (q : Nat) (st : ProcState) :
    (k.setState q st).userState p = k.userState p :=
  (Quiet.setState (p := p) q st).userState rfl rfl

/-- **A system call** of the process `p`, whose table is loaded, with its answer. -/
theorem syscallHandler_spec {clock : Nat → Nat} (h : Isolated k.layout roots k.snub live taken given fl)
    (hroot : roots (some p) = some (k.procs p).pagetable) (hsatp : k.satpRoot = (k.procs p).pagetable)
    (hheap : HeapOk (k.procs p)) (hunmap : k.UnmapsOwn p) (hcall : k.syscallHandler p clock = .ok k') :
    ∃ v, k.answer p clock = .ok v ∧
      CallSpec v (k.userState p) (k'.userState p) (k.procs p) (k.reg p) := by
  have hfst : ∀ {x : Except Stop (Nat × Kernel)} {b : Nat × Kernel}, x = .ok b →
      Prod.fst <$> x = .ok b.1 := fun hx => by
    rw [hx]
    rfl
  unfold syscallHandler at hcall
  unfold answer CallSpec
  unfold UnmapsOwn at hunmap
  generalize k.reg p 17 % 2 ^ 32 = n at hcall hunmap ⊢
  split at hcall
  · obtain ⟨⟨r, k₁⟩, hsys, hk⟩ := bind_eq_ok.mp hcall
    obtain rfl := Except.ok.inj hk
    rw [userState_setA0]
    exact ⟨r, hfst hsys, sysWrite_spec h hroot hsatp hsys⟩
  · obtain ⟨⟨r, k₁⟩, hsys, hk⟩ := bind_eq_ok.mp hcall
    obtain rfl := Except.ok.inj hk
    rw [userState_setA0]
    exact ⟨r, hfst hsys, sysRead_spec h hroot hsatp hsys⟩
  · obtain rfl := Except.ok.inj hcall
    rw [userState_setNeedsSched, userState_setState]
    exact ⟨_, rfl, rfl, rfl⟩
  · obtain rfl := Except.ok.inj hcall
    rw [userState_setA0]
    exact ⟨_, rfl, rfl, rfl⟩
  · obtain rfl := Except.ok.inj hcall
    rw [userState_setNeedsSched]
    exact ⟨_, rfl, rfl, rfl⟩
  · obtain ⟨⟨r, k₁⟩, hsys, hk⟩ := bind_eq_ok.mp hcall
    obtain rfl := Except.ok.inj hk
    rw [userState_setNeedsSched, userState_setA0]
    exact ⟨r, hfst hsys, sysSleepMs_spec hsys⟩
  · obtain ⟨⟨r, k₁⟩, hsys, hk⟩ := bind_eq_ok.mp hcall
    obtain rfl := Except.ok.inj hk
    rw [userState_setA0]
    exact ⟨r, hfst hsys, sysSbrk_spec h hroot hheap hsys⟩
  · obtain ⟨⟨r, k₁⟩, hsys, hk⟩ := bind_eq_ok.mp hcall
    obtain rfl := Except.ok.inj hk
    rw [userState_setA0]
    exact ⟨r, hfst hsys, sysMunmap_spec h hroot (hunmap rfl) hsys⟩
  · obtain rfl := Except.ok.inj hcall
    rw [userState_setA0]
    refine ⟨minusOne, ?_, ?_⟩
    · simp_all only [pure, Except.pure]
    · simp_all only [Refused, and_self]

/-- What has come through the UART, in both directions. -/
def uart (k : Kernel) : List UInt8 × List UInt8 := (k.uartIn, k.uartOut)

theorem uart_swtch (old new : Nat) : (k.swtch old new).uart = k.uart := rfl

theorem uart_dispatch (old new : Nat) : (k.dispatch old new).uart = k.uart := uart_swtch old new

theorem uart_runIdle (old : Nat) : (k.runIdle old).uart = k.uart := by
  unfold runIdle
  rw [uart_swtch]
  rfl

/-- `schedule` has nothing to do with it. -/
theorem uart_trapEnd (hk : k.trapEnd = .ok k') : k'.uart = k.uart := by
  unfold trapEnd at hk
  split at hk
  · rcases schedule_cases hk with ⟨q, nodes, k₁, -, -, hre, rfl⟩ | ⟨-, rfl⟩ | ⟨-, rfl⟩
    · rw [uart_dispatch]
      rcases requeue_cases hre with ⟨-, rfl⟩ | ⟨-, nodes', -, rfl⟩
      · rfl
      · rfl
    · rw [uart_runIdle]
      rfl
    · rfl
  · obtain rfl := Except.ok.inj hk
    rfl

theorem uart_wake (hk : k.wake q = .ok k') : k'.uart = k.uart := by
  obtain ⟨nodes, -, hk⟩ := bind_eq_ok.mp hk
  obtain ⟨nodes', -, hk⟩ := bind_eq_ok.mp hk
  obtain rfl := Except.ok.inj hk
  rfl

theorem uart_timerLoop {now fuel : Nat} {pos : Node} {needSched : Bool} {r : Bool × Kernel}
    (hk : timerLoop now fuel pos needSched k = .ok r) : r.2.uart = k.uart := by
  induction fuel generalizing k pos needSched with
  | zero => cases hk
  | succ fuel ih =>
      obtain ⟨tmp, -, hk⟩ := bind_eq_ok.mp hk
      split at hk
      · obtain rfl := Except.ok.inj hk
        rfl
      · obtain ⟨p, -, hk⟩ := bind_eq_ok.mp hk
        split at hk
        · obtain ⟨k₁, hwake, hk⟩ := bind_eq_ok.mp hk
          exact (ih hk).trans (uart_wake hwake)
        · exact ih hk

theorem uart_wakeSleepers {now : Nat} (hk : k.wakeSleepers now = .ok k') : k'.uart = k.uart := by
  rw [wakeSleepers, bind_eq_ok] at hk
  obtain ⟨first, -, hk⟩ := hk
  obtain ⟨⟨needSched, k₁⟩, hloop, hk⟩ := bind_eq_ok.mp hk
  have hk₁ := uart_timerLoop hloop
  obtain rfl := Except.ok.inj hk
  cases needSched with
  | true => exact hk₁
  | false => exact hk₁

theorem uart_writeStimecmp (v : Nat) : (k.writeStimecmp v).uart = k.uart := rfl

/-- Nor has the timer. -/
theorem uart_timerHandle {clock : Nat → Nat} (hk : k.timerHandle clock = .ok k') : k'.uart = k.uart := by
  rw [timerHandle] at hk
  exact (uart_wakeSleepers hk).trans (uart_writeStimecmp _)

/-- **Step lemma**: an `ecall` does to its caller what `CallSpec` says. -/
theorem SystemInv.ecall_spec {x : Context} (hinv : SystemInv ps k live taken given fl)
    (hcurr : k.cpu.proc ∈ ps) (hsaves : k.SavesFrame ps t) (hecall : IsEcall t)
    (hunmap : (k.trapEntry t).UnmapsOwn k.cpu.proc) (hcall : (k.setCtx x).takeTrap t = .ok k') :
    CallSpec ((k'.frames t.tf).regs 10) (k.userState k.cpu.proc) (k'.userState k.cpu.proc)
      (k.procs k.cpu.proc) t.frame.regs := by
  obtain ⟨h0, hidle⟩ := hinv.loaded.procs _ hcurr
  have htf : t.tf = (k.procs k.cpu.proc).tf := by
    rw [SavesFrame, if_pos hcurr] at hsaves
    exact hsaves.trans (hinv.loaded.process hcurr).2
  obtain ⟨o, -, -, hloaded⟩ := hinv.satpRoot
  obtain ⟨k₁, hserve, hend⟩ := takeTrap_served (k := k.setCtx x) rfl h0 hidle hecall hcall
  obtain ⟨v, hv, -, hframe⟩ := takeTrap_ecall (k := k.setCtx x) rfl h0 hidle htf hecall hcall
  -- the state when `syscall_handler` is called is that of the process, with its own registers
  have hreg : ((k.setCtx x).calling t).reg k.cpu.proc = t.frame.regs :=
    funext (calling_reg (k := k.setCtx x) htf)
  have hunmap' : ((k.setCtx x).calling t).UnmapsOwn k.cpu.proc := by
    have hentry : (k.trapEntry t).reg k.cpu.proc = t.frame.regs := funext (trapEntry_reg htf)
    unfold UnmapsOwn at hunmap ⊢
    rw [hreg]
    rwa [hentry] at hunmap
  obtain ⟨v', hv', hspec⟩ := syscallHandler_spec (k := (k.setCtx x).calling t) hinv.isolated
    (tableRoots_of_mem hcurr) (hloaded hcurr).2 (hinv.heaps _ hcurr) hunmap' hserve
  obtain rfl := Except.ok.inj (hv.symm.trans hv')
  rw [hreg] at hspec
  have hsteady : Steady ps ((k.setCtx x).calling t) k₁ := syscallHandler_steady hcurr hserve
  have hidle₁ : (k₁.procs k₁.idleProc).isIdle = true := by
    change k₁.switchView.isIdle k₁.switchView.idle = true
    rw [hsteady.switchView]
    exact hinv.loaded.idle.2
  have hquiet : Quiet k₁.cpu.proc k₁ k' := quiet_trapEnd hidle₁ hend
  obtain ⟨hin, hout⟩ := Prod.mk.inj (uart_trapEnd hend)
  have hanswer : (k'.frames t.tf).regs 10 = v := by
    have hframe' : k'.frames t.tf = answered (stepOver t.frame) v := hframe
    rw [hframe']
    simp [answered]
  rw [hanswer, hquiet.userState hin hout]
  exact hspec

end Kernel

end SystemN
