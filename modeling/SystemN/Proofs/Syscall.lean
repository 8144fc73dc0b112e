/-
What the system calls that work on memory and the UART leave alone.

`bare` hides what they may write: memory, the UART, `sstatus` and the heap bounds of
processes.  Everything else a kernel function looks at is still there, so one equation
between bare states answers for all of it.  `masked` hides the trap frames as well, where
the result of a call goes.
-/
import SystemN.Trap

namespace SystemN.Kernel

variable {k k' : Kernel} {p : Nat}

/-- The kernel without memory, trap frames, UART, `sstatus` and heap bounds. -/
def masked (k : Kernel) : Kernel :=
  { k with
    snub := Snub.snubInit (Mm.reset fun _ => 0)
    procs := fun p => { k.procs p with heapStart := 0, heapEnd := 0 }
    frames := fun _ => TrapFrame.zero
    hart := { k.hart with sstatus := 0 }
    uartIn := []
    uartOut := [] }

/-- The kernel without memory, UART, `sstatus` and heap bounds. -/
def bare (k : Kernel) : Kernel :=
  { k with
    snub := Snub.snubInit (Mm.reset fun _ => 0)
    procs := fun p => { k.procs p with heapStart := 0, heapEnd := 0 }
    hart := { k.hart with sstatus := 0 }
    uartIn := []
    uartOut := [] }

theorem masked_of_bare (h : k'.bare = k.bare) : k'.masked = k.masked :=
  congrArg (fun k : Kernel => { k with frames := fun _ => TrapFrame.zero }) h

@[simp] theorem masked_setMm (m : Mm) : (k.setMm m).masked = k.masked := rfl

@[simp] theorem masked_setFrame (tf : Nat) (f : TrapFrame) : (k.setFrame tf f).masked = k.masked :=
  rfl

@[simp] theorem masked_setA0 (v : Nat) : (k.setA0 p v).masked = k.masked := rfl

@[simp] theorem bare_setMm (m : Mm) : (k.setMm m).bare = k.bare := rfl

@[simp] theorem bare_writeSstatus (v : Nat) : (k.writeSstatus v).bare = k.bare := rfl

@[simp] theorem bare_uartPutc (c : UInt8) : (k.uartPutc c).bare = k.bare := rfl

theorem bare_setHeapEnd (v : Nat) :
    (k.setProc p { k.procs p with heapEnd := v }).bare = k.bare := by
  unfold bare setProc
  congr 1
  funext q
  by_cases hq : q = p
  · subst hq
    simp
  · simp [hq]

theorem bare_uartPutsn {s : List UInt8} {len : Nat} : (k.uartPutsn s len).2.bare = k.bare := by
  induction s generalizing k len with
  | nil => rfl
  | cons c s ih =>
      cases len with
      | zero => rfl
      | succ len =>
          rw [uartPutsn]
          by_cases hc : c = 0
          · rw [if_pos hc]
          · rw [if_neg hc]
            exact ih (k := k.uartPutc c)

theorem bare_uartGets {n : Nat} {r : List UInt8 × Kernel} (h : uartGetsLoop n k = .ok r) :
    r.2.bare = k.bare := by
  induction n generalizing k r with
  | zero =>
      obtain rfl := Except.ok.inj h
      rfl
  | succ n ih =>
      rw [uartGetsLoop, bind_eq_ok] at h
      obtain ⟨⟨c, k₁⟩, hget, h⟩ := h
      have hk₁ : k₁.bare = k.bare := by
        unfold uartGetc at hget
        split at hget
        · cases hget
        · obtain ⟨rfl, rfl⟩ := Prod.mk.inj (Except.ok.inj hget)
          rfl
      dsimp only at h
      generalize (if c = 13 then 10 else c) = c' at h
      split at h
      · obtain rfl := Except.ok.inj h
        exact hk₁
      · rw [bind_eq_ok] at h
        obtain ⟨⟨buf, k₂⟩, hloop, h⟩ := h
        obtain rfl := Except.ok.inj h
        exact (ih hloop).trans hk₁

theorem bare_storeUser {buf : List UInt8} {va : Nat} (h : storeUser va buf k = .ok k') :
    k'.bare = k.bare := by
  induction buf generalizing k va with
  | nil =>
      obtain rfl := Except.ok.inj h
      rfl
  | cons c buf ih =>
      rw [storeUser, bind_eq_ok] at h
      obtain ⟨pa, -, h⟩ := h
      exact (ih h).trans (bare_setMm _)

theorem bare_copyFromUser {a n : Nat} {r : Option (List UInt8) × Kernel}
    (h : k.copyFromUser a n = .ok r) : r.2.bare = k.bare := by
  unfold copyFromUser at h
  split at h
  · obtain rfl := Except.ok.inj h
    rfl
  · rw [bind_eq_ok] at h
    obtain ⟨buf, -, h⟩ := h
    obtain rfl := Except.ok.inj h
    rfl

theorem bare_copyToUser {a : Nat} {buf : List UInt8} {r : Bool × Kernel}
    (h : k.copyToUser a buf = .ok r) : r.2.bare = k.bare := by
  unfold copyToUser at h
  split at h
  · obtain rfl := Except.ok.inj h
    rfl
  · rw [bind_eq_ok] at h
    obtain ⟨k₁, hstore, h⟩ := h
    obtain rfl := Except.ok.inj h
    exact (bare_writeSstatus _).trans ((bare_storeUser hstore).trans (bare_writeSstatus _))

theorem bare_sysWrite {fd a n : Nat} {r : Nat × Kernel} (h : k.sysWrite fd a n = .ok r) :
    r.2.bare = k.bare := by
  unfold sysWrite at h
  split at h
  · obtain rfl := Except.ok.inj h
    rfl
  · rw [bind_eq_ok] at h
    obtain ⟨⟨buf, k₁⟩, hcopy, h⟩ := h
    have hk₁ := bare_copyFromUser hcopy
    cases buf with
    | none =>
        obtain rfl := Except.ok.inj h
        exact hk₁
    | some buf =>
        obtain rfl := Except.ok.inj h
        exact bare_uartPutsn.trans hk₁

theorem bare_sysRead {fd a n : Nat} {r : Nat × Kernel} (h : k.sysRead fd a n = .ok r) :
    r.2.bare = k.bare := by
  unfold sysRead at h
  split at h
  · obtain rfl := Except.ok.inj h
    rfl
  · rw [bind_eq_ok] at h
    obtain ⟨⟨buf, k₁⟩, hgets, h⟩ := h
    rw [bind_eq_ok] at h
    obtain ⟨⟨ok, k₂⟩, hcopy, h⟩ := h
    have hk₂ := (bare_copyToUser hcopy).trans (bare_uartGets hgets)
    dsimp only at h
    split at h
    · obtain rfl := Except.ok.inj h
      exact hk₂
    · obtain rfl := Except.ok.inj h
      exact hk₂

theorem bare_sysSbrk {p size : Nat} {r : Nat × Kernel} (h : k.sysSbrk p size = .ok r) :
    r.2.bare = k.bare := by
  unfold sysSbrk at h
  split at h
  · obtain rfl := Except.ok.inj h
    rfl
  · dsimp only at h
    split at h
    · obtain rfl := Except.ok.inj h
      rfl
    · rw [bind_eq_ok] at h
      obtain ⟨⟨ok, mm⟩, -, h⟩ := h
      dsimp only at h
      split at h
      · obtain rfl := Except.ok.inj h
        rfl
      · obtain rfl := Except.ok.inj h
        exact bare_setHeapEnd (k := k.setMm mm) _

theorem bare_sysMunmap {p addr size : Nat} {r : Nat × Kernel}
    (h : k.sysMunmap p addr size = .ok r) : r.2.bare = k.bare := by
  unfold sysMunmap at h
  split at h
  · obtain rfl := Except.ok.inj h
    rfl
  · rw [bind_eq_ok] at h
    obtain ⟨⟨ok, mm⟩, -, h⟩ := h
    obtain rfl := Except.ok.inj h
    rfl

end SystemN.Kernel
