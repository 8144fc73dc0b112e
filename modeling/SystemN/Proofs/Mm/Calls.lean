/-
The calls of the allocators, step by step.

Run alone, each of them does what `Mm/Mem.lean` and `Mm/Snub.lean` say it does; with other
harts in between, each takes its locks in the order cache, buddy, uart, at most one of a
kind, and returns with none of them.
-/
import SystemN.Mm.Calls

namespace SystemN.Calls

open Programs Programs.Prog

variable {α β : Type} {x : Shared} {s : Mm}

/-! ### Alone -/

/-- Alone the program ends at `e`, from any state. -/
def Stops (p : Code α) (e : Stop) : Prop := ∀ x, (p.alone x).1 = .error e

theorem Stops.ends {p : Code α} {e : Stop} (h : Stops p e) {τ : Type} (P : Part Shared τ)
    (x : Shared) (t : τ) : Ends P x p t (.error e) :=
  h (P.put x t)

theorem stops_stop (e : Stop) : Stops (Prog.stop e : Code α) e := fun _ => rfl

theorem Stops.locked {p : Unit → Code α} {e : Stop} {l : Lock} (h : Stops (p ()) e) :
    Stops (Prog.acquire l >>= p) e := h

theorem Stops.released {p : Unit → Code α} {e : Stop} {l : Lock} (h : Stops (p ()) e) :
    Stops (Prog.release l >>= p) e := h

/-- What is printed in front of a halt does not prevent it. -/
theorem Stops.putc {p : Unit → Code α} {e : Stop} {c : Char} (h : Stops (p ()) e) :
    Stops (uartPutc c >>= p) e :=
  fun _ => h _

theorem Stops.puts {p : Unit → Code α} {e : Stop} {cs : List Char} (h : Stops (p ()) e) :
    Stops (uartPuts cs >>= p) e := by
  intro x
  induction cs generalizing x with
  | nil => exact h x
  | cons c cs ih => exact ih (uartPart.put x (x.uart ++ [c]))

theorem getPageStruct_ends (pa : Nat) :
    Ends mmPart x (getPageStruct pa) s ((s.getPageStruct pa).map fun i => (i, s)) := by
  apply Ends.read
  by_cases h : s.numPages ≤ sub64 pa s.buddyBasePhys / pageSize
  · rw [if_pos h, Mm.getPageStruct, if_pos h]
    apply Stops.ends
    exact (Stops.puts (Stops.puts (Stops.putc (stops_stop .halt))))
  · rw [if_neg h, Mm.getPageStruct, if_neg h]
    exact Ends.pure _ s

theorem pageAddr_ends (idx : Nat) :
    Ends mmPart x (pageAddr idx) s ((s.pageAddr idx).map fun a => (a, s)) := by
  apply Ends.read
  by_cases h : s.numPages ≤ idx
  · rw [if_pos h, Mm.pageAddr, if_pos h]
    apply Stops.ends
    exact Stops.locked (Stops.puts (Stops.puts (Stops.putc (Stops.released (stops_stop .halt)))))
  · rw [if_neg h, Mm.pageAddr, if_neg h]
    exact Ends.pure _ s

theorem memsetLoop_ends (dst : Nat) (c : UInt8) (n : Nat) :
    ∀ (fuel i : Nat) (s : Mm), Ends mmPart x (memsetLoop dst c n fuel i) s
      ((SystemN.memsetLoop dst c n fuel i s.mem).map fun m => ((), s.setMem m)) := by
  intro fuel
  induction fuel with
  | zero => exact fun i s => Ends.stop Stop.diverge s
  | succ fuel ih =>
      intro i s
      rw [memsetLoop, SystemN.memsetLoop]
      split
      · apply Ends.modify
        exact ih _ (s.setMem (Function.update s.mem (dst + i) c))
      · exact Ends.pure () s

theorem splitLoop_ends (order blockIdx : Nat) :
    ∀ (d : Nat) (s : Mm), Ends mmPart x (splitLoop order blockIdx d) s
      ((s.splitLoop order blockIdx d).map fun s => ((), s)) := by
  intro d
  induction d with
  | zero => exact fun s => Ends.pure () s
  | succ d ih =>
      intro s
      rw [splitLoop, Mm.splitLoop]
      apply Ends.read
      split
      · exact (Stops.puts (stops_stop .halt)).ends mmPart x s
      · apply Ends.modify
        exact ih _

theorem takeBlock_ends (order o block : Nat) :
    Ends mmPart x (takeBlock order o block) s (s.takeBlock order o block) := by
  apply Ends.modify
  apply Ends.bind (fun s => ((), s)) (splitLoop_ends order block (o - order) _)
  intro s
  apply Ends.bind (fun a => (a, s)) (pageAddr_ends block)
  intro addr
  apply Ends.release
  apply Ends.modify
  apply Ends.bind (fun m => ((), (s.deref (s.physToVirt addr) (pageSize <<< order)).setMem m))
    (memsetLoop_ends addr 0 (pageSize <<< order) (2 ^ 32) 0 _)
  intro m
  exact Ends.pure addr _

theorem allocFrom_ends (order : Nat) :
    ∀ n o : Nat, Ends mmPart x (allocFrom order n o) s (s.allocFrom order n o) := by
  intro n
  induction n with
  | zero => exact fun o => Ends.release (Ends.pure 0 s)
  | succ n ih =>
      intro o
      rw [allocFrom, Mm.allocFrom]
      apply Ends.read
      cases s.freeLists o with
      | none => exact ih (o + 1)
      | some block => exact takeBlock_ends order o block

/-- **`alloc_pages`**, run alone. -/
theorem allocPages_ends (order : Nat) :
    Ends mmPart x (allocPages order) s (s.allocPages order) := by
  apply Ends.ite
  · intro _
    exact Ends.pure 0 s
  · intro _
    exact Ends.acquire (allocFrom_ends order (maxOrder + 1 - order) order)

theorem findLink_ends (o buddy : Nat) :
    ∀ (fuel : Nat) (p : Mm.Link) (s : Mm),
      Ends mmPart x (findLink o buddy fuel p) s (s.findLink o buddy fuel p) := by
  intro fuel
  induction fuel with
  | zero => exact fun p s => Ends.stop Stop.diverge s
  | succ fuel ih =>
      intro p s
      rw [findLink, Mm.findLink]
      apply Ends.modify
      apply Ends.read
      cases (s.derefLink p).readLink o p with
      | none => exact Ends.pure p _
      | some q =>
          apply Ends.ite
          · intro _
            exact Ends.pure p _
          · intro _
            exact ih (.next q) _

theorem unlink_ends (o buddy : Nat) :
    Ends mmPart x (unlink o buddy) s ((s.unlink o buddy).map fun s => ((), s)) := by
  apply Ends.read
  apply Ends.bind_map id
  · rw [Except.map_id]
    exact findLink_ends o buddy (s.numPages + 1) .head s
  intro ⟨p, s⟩
  apply Ends.read
  apply Ends.ite_map
  · intro _
    exact Ends.modified _ s
  · intro _
    exact Ends.pure () s

theorem mergeLoop_ends :
    ∀ (n addr : Nat) (s : Mm), Ends mmPart x (mergeLoop n addr) s
      ((s.mergeLoop n addr).map fun r => ((r.1, r.2.1), r.2.2)) := by
  intro n
  induction n with
  | zero => exact fun addr s => Ends.pure (addr, maxOrder) s
  | succ n ih =>
      intro addr s
      apply Ends.read
      apply Ends.bind_map (fun i => (i, s)) (getPageStruct_ends (s.buddyOf addr (maxOrder - (n + 1))))
      intro buddy
      apply Ends.modify
      apply Ends.read
      apply Ends.ite_map
      · intro _
        exact Ends.pure (addr, maxOrder - (n + 1)) _
      · intro _
        apply Ends.bind_map (fun s => ((), s)) (unlink_ends (maxOrder - (n + 1)) buddy)
        intro s
        apply Ends.modify
        exact ih _ _

/-- **`free_pages`**, run alone. -/
theorem freePages_ends (addr : Nat) :
    Ends mmPart x (freePages addr) s ((s.freePages addr).map fun s => ((), s)) := by
  apply Ends.ite_map
  · intro _
    exact Ends.pure () s
  · intro _
    apply Ends.acquire
    apply Ends.bind_map (fun i => (i, s)) (getPageStruct_ends addr)
    intro pg
    apply Ends.modify
    apply Ends.read
    apply Ends.ite_map
    · intro _
      exact Ends.released .buddy _
    · intro _
      apply Ends.modify
      apply Ends.bind_map (fun r : Nat × Nat × Mm => ((r.1, r.2.1), r.2.2))
        (mergeLoop_ends (maxOrder - ((s.derefPage 0 pg).pages pg).order) addr _)
      intro ⟨addr, order, s⟩
      apply Ends.bind_map (fun i => (i, s)) (getPageStruct_ends addr)
      intro merged
      exact Ends.modify (Ends.released .buddy _)

/-- What ends on the page allocator ends on both. -/
theorem ends_snub {p : Code α} {S : Snub} {r : Except Stop (α × Mm)}
    (h : Ends mmPart (snubPart.put x S) p S.mm r) :
    Ends snubPart x p S (r.map fun y => (y.1, { S with mm := y.2 })) := by
  cases r with
  | error e => exact h
  | ok y => exact h

theorem threadObjs_ends (page objectSize : Nat) :
    ∀ (n i head : Nat) (S : Snub), Ends snubPart x (threadObjs page objectSize n i head) S
      (.ok (Snub.threadObjs page objectSize n i head S)) := by
  intro n
  induction n with
  | zero => exact fun i head S => Ends.pure head S
  | succ n ih =>
      intro i head S
      apply Ends.modify
      exact ih (i + 1) _ _

theorem refill_ends (S : Snub) (idx : Nat) :
    Ends snubPart x (refill idx) S (S.refill idx) := by
  apply Ends.bind (fun y => (y.1, { S with mm := y.2 })) (ends_snub (allocPages_ends 0))
  intro ⟨pa, mm⟩
  apply Ends.read
  apply Ends.ite
  · intro _
    exact Ends.pure false _
  · intro _
    apply Ends.bind_ok (threadObjs_ends _ _ _ 0 0 _)
    exact Ends.modify (Ends.pure true _)

theorem takeObj_ends (S : Snub) (idx : Nat) :
    Ends snubPart x (takeObj idx) S (.ok ((S.caches idx).partialList,
      { S with mm := S.mm.deref (S.caches idx).partialList 8 }.setCache idx
        (S.loadPtr (S.caches idx).partialList))) := by
  apply Ends.read
  exact Ends.modify (Ends.release (Ends.pure _ _))

/-- **`kmalloc`**, run alone. -/
theorem kmalloc_ends (S : Snub) (size : Nat) :
    Ends snubPart x (kmalloc size) S (S.kmalloc size) := by
  rw [kmalloc, Snub.kmalloc]
  cases sizeToIdx size with
  | none => exact Ends.pure 0 S
  | some idx =>
      apply Ends.acquire
      apply Ends.read
      apply Ends.ite
      · intro _
        apply Ends.bind id
        · rw [Except.map_id]
          exact refill_ends S idx
        intro ⟨refilled, S⟩
        apply Ends.ite
        · intro _
          exact Ends.release (Ends.pure 0 S)
        · intro _
          exact takeObj_ends S idx
      · intro _
        exact takeObj_ends S idx

/-- **`kzalloc`**, run alone. -/
theorem kzalloc_ends (S : Snub) (size : Nat) :
    Ends snubPart x (kzalloc size) S (S.kzalloc size) := by
  apply Ends.bind id
  · rw [Except.map_id]
    exact kmalloc_ends S size
  intro ⟨ptr, S⟩
  apply Ends.ite
  · intro _
    exact Ends.pure 0 S
  · intro _
    have hclear : Ends mmPart (snubPart.put x S)
        (do
          modifyMm fun s => s.deref ptr size
          let s ← readMm
          memsetLoop (s.virtToPhys ptr) 0 size (2 ^ 32) 0
          pure ptr) S.mm
        ((memset S.mm.mem (S.mm.virtToPhys ptr) 0 size).bind fun m =>
          .ok (ptr, (S.mm.deref ptr size).setMem m)) := by
      apply Ends.modify
      apply Ends.read
      apply Ends.bind (fun m => ((), (S.mm.deref ptr size).setMem m))
        (memsetLoop_ends _ 0 size (2 ^ 32) 0 _)
      intro m
      exact Ends.pure ptr _
    have hends := ends_snub hclear
    revert hends
    cases memset S.mm.mem (S.mm.virtToPhys ptr) 0 size with
    | error e => exact id
    | ok m => exact id

theorem kfreeLoop_ends (S : Snub) (ptr diff : Nat) :
    ∀ n i : Nat, Ends snubPart x (kfreeLoop ptr diff n i) S
      ((match S.kfreeClass diff n i with
        | some i => Except.ok ((S.storePtr ptr (S.caches i).partialList).setCache i ptr)
        | none => do
            let mm ← S.mm.freePages (S.mm.virtToPhys ptr)
            pure { S with mm := mm }).map fun S => ((), S)) := by
  intro n
  induction n with
  | zero =>
      intro i
      apply Ends.read
      have hends := ends_snub (x := x) (S := S) (freePages_ends (S.mm.virtToPhys ptr))
      rw [Snub.kfreeClass]
      revert hends
      cases S.mm.freePages (S.mm.virtToPhys ptr) with
      | error e => exact id
      | ok mm => exact id
  | succ n ih =>
      intro i
      rw [kfreeLoop, Snub.kfreeClass]
      apply Ends.read
      by_cases h : diff % (S.caches i).objectSize = 0 ∧ diff < pageSize
      · rw [if_pos h, if_pos h]
        apply Ends.acquire
        exact Ends.modify (Ends.released (Lock.cache i) _)
      · rw [if_neg h, if_neg h]
        exact ih (i + 1)

/-- **`kfree`**, run alone. -/
theorem kfree_ends (S : Snub) (ptr : Nat) :
    Ends snubPart x (kfree ptr) S ((S.kfree ptr).map fun S => ((), S)) :=
  Ends.read (kfreeLoop_ends S ptr (S.kfreeDiff ptr) snubNumClasses 0)

/-! ### The locks -/

variable {held : List Lock}

theorem uartPuts_balanced (cs : List Char) : (uartPuts cs).Balanced Lock.rank held := by
  induction cs with
  | nil => exact Balanced.pure ()
  | cons c cs ih => exact (Balanced.modify uartPart _).bind fun _ => ih

theorem getPageStruct_balanced (pa : Nat) : (getPageStruct pa).Balanced Lock.rank held := by
  apply (Balanced.read mmPart).bind
  intro s
  dsimp only
  split
  · apply (uartPuts_balanced _).bind
    intro _
    apply (uartPuts_balanced _).bind
    intro _
    exact (Balanced.modify uartPart _).bind fun _ => Balanced.stop Stop.halt
  · exact Balanced.pure _

/-- The lock of the UART comes last. -/
theorem pageAddr_balanced (hheld : ∀ l ∈ held, l.rank < 2) (idx : Nat) :
    (pageAddr idx).Balanced Lock.rank held := by
  apply (Balanced.read mmPart).bind
  intro s
  split
  · apply Balanced.locked hheld
    apply (uartPuts_balanced _).bind
    intro _
    apply (uartPuts_balanced _).bind
    intro _
    apply (Balanced.modify uartPart _).bind
    intro _
    exact Ordered.released (Balanced.stop Stop.halt)
  · exact Balanced.pure _

theorem memsetLoop_balanced (dst : Nat) (c : UInt8) (n fuel i : Nat) :
    (memsetLoop dst c n fuel i).Balanced Lock.rank held := by
  induction fuel generalizing i with
  | zero => exact Balanced.stop Stop.diverge
  | succ fuel ih =>
      rw [memsetLoop]
      split
      · exact (Balanced.modify mmPart _).bind fun _ => ih _
      · exact Balanced.pure ()

theorem splitLoop_balanced (order blockIdx d : Nat) :
    (splitLoop order blockIdx d).Balanced Lock.rank held := by
  induction d with
  | zero => exact Balanced.pure ()
  | succ d ih =>
      apply (Balanced.read mmPart).bind
      intro s
      split
      · exact (uartPuts_balanced _).bind fun _ => Balanced.stop Stop.halt
      · exact (Balanced.modify mmPart _).bind fun _ => ih

theorem takeBlock_ordered (hheld : ∀ l ∈ held, l.rank < 1) (order o block : Nat) :
    (takeBlock order o block).Ordered Lock.rank (.buddy :: held) fun held' _ => held' = held := by
  have huart : ∀ l ∈ Lock.buddy :: held, l.rank < 2 := by
    intro l hl
    cases hl with
    | head => exact Nat.one_lt_two
    | tail _ hl => exact (hheld l hl).trans Nat.one_lt_two
  apply (Balanced.modify mmPart _).bind
  intro _
  apply (splitLoop_balanced order block (o - order)).bind
  intro _
  apply (pageAddr_balanced huart block).bind
  intro addr
  apply Ordered.released
  apply (Balanced.modify mmPart _).bind
  intro _
  exact (memsetLoop_balanced addr 0 _ _ 0).bind fun _ => Balanced.pure addr

theorem allocFrom_ordered (hheld : ∀ l ∈ held, l.rank < 1) (order n o : Nat) :
    (allocFrom order n o).Ordered Lock.rank (.buddy :: held) fun held' _ => held' = held := by
  induction n generalizing o with
  | zero => exact Ordered.released (Balanced.pure 0)
  | succ n ih =>
      apply (Balanced.read mmPart).bind
      intro s
      cases s.freeLists o with
      | none => exact ih (o + 1)
      | some block => exact takeBlock_ordered hheld order o block

/-- `alloc_pages` may be called under the lock of a cache. -/
theorem allocPages_balanced (hheld : ∀ l ∈ held, l.rank < 1) (order : Nat) :
    (allocPages order).Balanced Lock.rank held := by
  rw [allocPages]
  split
  · exact Balanced.pure 0
  · exact Balanced.locked hheld (allocFrom_ordered hheld order _ order)

theorem findLink_balanced (o buddy fuel : Nat) (p : Mm.Link) :
    (findLink o buddy fuel p).Balanced Lock.rank held := by
  induction fuel generalizing p with
  | zero => exact Balanced.stop Stop.diverge
  | succ fuel ih =>
      apply (Balanced.modify mmPart _).bind
      intro _
      apply (Balanced.read mmPart).bind
      intro s
      cases s.readLink o p with
      | none => exact Balanced.pure p
      | some q =>
          dsimp only
          split
          · exact Balanced.pure p
          · exact ih (.next q)

theorem unlink_balanced (o buddy : Nat) : (unlink o buddy).Balanced Lock.rank held := by
  apply (Balanced.read mmPart).bind
  intro s
  apply (findLink_balanced o buddy (s.numPages + 1) .head).bind
  intro p
  apply (Balanced.read mmPart).bind
  intro s
  split
  · exact Balanced.modify mmPart _
  · exact Balanced.pure ()

theorem mergeLoop_balanced (n addr : Nat) : (mergeLoop n addr).Balanced Lock.rank held := by
  induction n generalizing addr with
  | zero => exact Balanced.pure _
  | succ n ih =>
      apply (Balanced.read mmPart).bind
      intro s
      apply (getPageStruct_balanced _).bind
      intro buddy
      apply (Balanced.modify mmPart _).bind
      intro _
      apply (Balanced.read mmPart).bind
      intro s
      split
      · exact Balanced.pure _
      · apply (unlink_balanced _ buddy).bind
        intro _
        exact (Balanced.modify mmPart _).bind fun _ => ih _

theorem freePages_balanced (hheld : ∀ l ∈ held, l.rank < 1) (addr : Nat) :
    (freePages addr).Balanced Lock.rank held := by
  rw [freePages]
  split
  · exact Balanced.pure ()
  · apply Balanced.locked hheld
    apply (getPageStruct_balanced addr).bind
    intro pg
    apply (Balanced.modify mmPart _).bind
    intro _
    apply (Balanced.read mmPart).bind
    intro s
    split
    · exact Ordered.released (Balanced.pure ())
    · apply (Balanced.modify mmPart _).bind
      intro _
      apply (mergeLoop_balanced _ addr).bind
      intro ⟨addr, order⟩
      apply (getPageStruct_balanced addr).bind
      intro merged
      apply (Balanced.modify mmPart _).bind
      intro _
      exact Ordered.released (Balanced.pure ())

theorem threadObjs_balanced (page objectSize n i head : Nat) :
    (threadObjs page objectSize n i head).Balanced Lock.rank held := by
  induction n generalizing i head with
  | zero => exact Balanced.pure head
  | succ n ih => exact (Balanced.modify snubPart _).bind fun _ => ih _ _

theorem refill_balanced (hheld : ∀ l ∈ held, l.rank < 1) (idx : Nat) :
    (refill idx).Balanced Lock.rank held := by
  apply (allocPages_balanced hheld 0).bind
  intro pa
  apply (Balanced.read snubPart).bind
  intro s
  dsimp only
  split
  · exact Balanced.pure false
  · apply (threadObjs_balanced _ _ _ 0 0).bind
    intro head
    exact (Balanced.modify snubPart _).bind fun _ => Balanced.pure true

theorem takeObj_ordered (idx : Nat) :
    (takeObj idx).Ordered Lock.rank [.cache idx] fun held' _ => held' = [] := by
  apply (Balanced.read snubPart).bind
  intro s
  apply (Balanced.modify snubPart _).bind
  intro _
  exact Ordered.released (Balanced.pure _)

/-- **`kmalloc`**: `buddy_lock` is taken under the lock of the cache. -/
theorem kmalloc_balanced (size : Nat) : (kmalloc size).Balanced Lock.rank [] := by
  rw [kmalloc]
  cases sizeToIdx size with
  | none => exact Balanced.pure 0
  | some idx =>
      have hcache : ∀ l ∈ [Lock.cache idx], l.rank < 1 := by
        intro l hl
        rw [List.mem_singleton.mp hl]
        exact Nat.zero_lt_one
      apply Balanced.locked (List.forall_mem_nil _)
      apply (Balanced.read snubPart).bind
      intro s
      dsimp only
      split
      · apply (refill_balanced hcache idx).bind
        intro refilled
        split
        · exact Ordered.released (Balanced.pure 0)
        · exact takeObj_ordered idx
      · exact takeObj_ordered idx

theorem kzalloc_balanced (size : Nat) : (kzalloc size).Balanced Lock.rank [] := by
  apply (kmalloc_balanced size).bind
  intro ptr
  split
  · exact Balanced.pure 0
  · apply (Balanced.modify mmPart _).bind
    intro _
    apply (Balanced.read mmPart).bind
    intro s
    exact (memsetLoop_balanced _ 0 size (2 ^ 32) 0).bind fun _ => Balanced.pure ptr

theorem kfreeLoop_balanced (ptr diff n i : Nat) :
    (kfreeLoop ptr diff n i).Balanced Lock.rank [] := by
  induction n generalizing i with
  | zero =>
      apply (Balanced.read snubPart).bind
      intro s
      exact freePages_balanced (List.forall_mem_nil _) _
  | succ n ih =>
      apply (Balanced.read snubPart).bind
      intro s
      split
      · apply Balanced.locked (List.forall_mem_nil _)
        apply (Balanced.modify snubPart _).bind
        intro _
        exact Ordered.released (Balanced.pure ())
      · exact ih (i + 1)

/-- **Every call takes its locks in order and returns without any.** -/
theorem Call.balanced (call : Call) : call.code.Balanced Lock.rank [] := by
  cases call with
  | kmalloc size => exact (kmalloc_balanced size).bind fun _ => Balanced.pure ()
  | kfree ptr =>
      apply (Balanced.read snubPart).bind
      intro s
      exact kfreeLoop_balanced ptr _ _ 0
  | allocPages order =>
      exact (allocPages_balanced (List.forall_mem_nil _) order).bind fun _ => Balanced.pure ()
  | freePages addr => exact freePages_balanced (List.forall_mem_nil _) addr

end SystemN.Calls
