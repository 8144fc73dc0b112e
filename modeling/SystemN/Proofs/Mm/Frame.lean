/-
What the page allocator leaves alone, whatever state it is called in.

The specifications in `Proofs.Mm.Mem` need the allocator's invariant.  The facts here do
not: a call that comes back has kept the statics, the trace of accesses only grows, and
`free_pages` writes no byte of memory outside the records, `alloc_pages` none outside the
block it returns.
-/
import SystemN.Proofs.Mm.Mem

namespace SystemN.Mm

/-- The statics are the same, and `s'` has seen every access that `s` has. -/
structure Later (s s' : Mm) : Prop where
  statics : SameStatics s s'
  trace : s.derefs <:+ s'.derefs

namespace Later

theorem refl (s : Mm) : Later s s := ⟨SameStatics.refl s, List.suffix_refl _⟩

theorem trans {s s' s'' : Mm} (h : Later s s') (h' : Later s' s'') : Later s s'' :=
  ⟨h.statics.trans h'.statics, h.trace.trans h'.trace⟩

theorem mem_derefs {s s' : Mm} (h : Later s s') {x : Nat × Nat} (hx : x ∈ s.derefs) :
    x ∈ s'.derefs :=
  h.trace.subset hx

theorem deref (s : Mm) (a len : Nat) : Later s (s.deref a len) :=
  ⟨⟨rfl, rfl, rfl, rfl⟩, List.suffix_cons _ _⟩

theorem derefPage (s : Mm) (off i : Nat) : Later s (s.derefPage off i) := deref s _ _

theorem setPage (s : Mm) (i : Nat) (p : Page) : Later s (s.setPage i p) :=
  ⟨⟨rfl, rfl, rfl, rfl⟩, List.suffix_refl _⟩

theorem setList (s : Mm) (o : Nat) (h : Option Nat) : Later s (s.setList o h) :=
  ⟨⟨rfl, rfl, rfl, rfl⟩, List.suffix_refl _⟩

theorem setMem (s : Mm) (m : Nat → UInt8) : Later s (s.setMem m) :=
  ⟨⟨rfl, rfl, rfl, rfl⟩, List.suffix_refl _⟩

theorem pushFree (s : Mm) (off i o : Nat) : Later s (s.pushFree off i o) :=
  ((derefPage s off i).trans (setPage _ _ _)).trans (setList _ _ _)

theorem writeLink (s : Mm) (o : Nat) (v : Option Nat) (p : Link) : Later s (s.writeLink o v p) := by
  cases p with
  | head => exact setList s o v
  | next i => exact setPage s i _

theorem derefLink (s : Mm) (p : Link) : Later s (s.derefLink p) := by
  cases p with
  | head => exact refl s
  | next i => exact derefPage s 0 i

end Later

/-! ### `free_pages` -/

@[simp] theorem derefLink_mem (s : Mm) (p : Link) : (s.derefLink p).mem = s.mem := by
  cases p <;> rfl

@[simp] theorem writeLink_mem (s : Mm) (o : Nat) (v : Option Nat) (p : Link) :
    (s.writeLink o v p).mem = s.mem := by
  cases p <;> rfl

theorem findLink_frame {o buddy fuel : Nat} {p q : Link} {s s' : Mm}
    (h : findLink o buddy fuel p s = .ok (q, s')) : Later s s' ∧ s'.mem = s.mem := by
  induction fuel generalizing p s with
  | zero => simp [findLink] at h
  | succ fuel ih =>
      simp only [findLink] at h
      split at h
      · obtain ⟨-, rfl⟩ : p = q ∧ s.derefLink p = s' := by simpa using h
        exact ⟨Later.derefLink s p, derefLink_mem s p⟩
      · split at h
        · obtain ⟨-, rfl⟩ : p = q ∧ s.derefLink p = s' := by simpa using h
          exact ⟨Later.derefLink s p, derefLink_mem s p⟩
        · obtain ⟨hlater, hmem⟩ := ih h
          exact ⟨(Later.derefLink s p).trans hlater, hmem.trans (derefLink_mem s p)⟩

theorem unlink_frame {o buddy : Nat} {s s' : Mm} (h : s.unlink o buddy = .ok s') :
    Later s s' ∧ s'.mem = s.mem := by
  obtain ⟨⟨p, t⟩, hfind, h⟩ := bind_eq_ok.mp h
  obtain ⟨hlater, hmem⟩ := findLink_frame hfind
  simp only at h
  split at h
  · obtain rfl : t.writeLink o (t.pages buddy).next p = s' := by simpa [pure, Except.pure] using h
    exact ⟨hlater.trans (Later.writeLink t o _ p), (writeLink_mem t o _ p).trans hmem⟩
  · obtain rfl : t = s' := by simpa [pure, Except.pure] using h
    exact ⟨hlater, hmem⟩

theorem mergeLoop_frame {n addr a k : Nat} {s s' : Mm}
    (h : mergeLoop n addr s = .ok (a, k, s')) : Later s s' ∧ s'.mem = s.mem := by
  induction n generalizing addr s with
  | zero =>
      obtain ⟨-, -, rfl⟩ : addr = a ∧ maxOrder = k ∧ s = s' := by simpa [mergeLoop] using h
      exact ⟨Later.refl s, rfl⟩
  | succ n ih =>
      obtain ⟨buddy, -, h⟩ := bind_eq_ok.mp h
      simp only at h
      split at h
      · obtain ⟨-, -, rfl⟩ : addr = a ∧ maxOrder - (n + 1) = k ∧ s.derefPage 0 buddy = s' := by
          simpa [pure, Except.pure] using h
        exact ⟨Later.derefPage s 0 buddy, rfl⟩
      · obtain ⟨t, hunlink, h⟩ := bind_eq_ok.mp h
        obtain ⟨hlater, hmem⟩ := unlink_frame hunlink
        obtain ⟨hlater', hmem'⟩ := ih h
        exact ⟨(((Later.derefPage s 0 buddy).trans hlater).trans (Later.setPage t _ _)).trans
          hlater', hmem'.trans hmem⟩

/-- **`free_pages` writes no memory but the records.** -/
theorem freePages_frame {addr : Nat} {s s' : Mm} (h : s.freePages addr = .ok s') :
    Later s s' ∧ s'.mem = s.mem := by
  unfold freePages at h
  split at h
  · obtain rfl : s = s' := by simpa using h
    exact ⟨Later.refl s, rfl⟩
  · obtain ⟨pg, -, h⟩ := bind_eq_ok.mp h
    simp only at h
    split at h
    · obtain rfl : s.derefPage 0 pg = s' := by simpa [pure, Except.pure] using h
      exact ⟨Later.derefPage s 0 pg, rfl⟩
    · obtain ⟨⟨a, k, t⟩, hmerge, h⟩ := bind_eq_ok.mp h
      obtain ⟨merged, -, h⟩ := bind_eq_ok.mp h
      obtain rfl : t.pushFree 0 merged k = s' := by simpa [pure, Except.pure] using h
      obtain ⟨hlater, hmem⟩ := mergeLoop_frame hmerge
      exact ⟨(((Later.derefPage s 0 pg).trans (Later.setPage _ _ _)).trans hlater).trans
        (Later.pushFree t 0 merged k), hmem⟩

/-! ### `alloc_pages` -/

theorem splitLoop_frame {order b d : Nat} {s s' : Mm} (h : splitLoop order b d s = .ok s') :
    Later s s' ∧ s'.mem = s.mem := by
  induction d generalizing s with
  | zero =>
      obtain rfl : s = s' := by simpa [splitLoop] using h
      exact ⟨Later.refl s, rfl⟩
  | succ d ih =>
      simp only [splitLoop] at h
      split at h
      · cases h
      · obtain ⟨hlater, hmem⟩ := ih h
        exact ⟨(Later.pushFree s _ _ _).trans hlater, hmem⟩

/-- Block `a` is handed out: it begins at a managed page, and its bytes are the only ones written. -/
structure HandsOut (s : Mm) (order a : Nat) (s' : Mm) : Prop where
  later : Later s s'
  addr : ∃ b < s.numPages, a = u64 (s.buddyBasePhys + b * pageSize)
  same : order ≤ maxOrder → ∀ x, ¬(a ≤ x ∧ x < a + (pageSize <<< order)) → s'.mem x = s.mem x

theorem takeBlock_frame {order o b a : Nat} {s s' : Mm}
    (h : s.takeBlock order o b = .ok (a, s')) : HandsOut s order a s' := by
  obtain ⟨t, hsplit, h⟩ := bind_eq_ok.mp h
  obtain ⟨addr, haddr, h⟩ := bind_eq_ok.mp h
  obtain ⟨m, hset, h⟩ := bind_eq_ok.mp h
  obtain ⟨rfl, rfl⟩ : addr = a ∧
      (t.deref (t.physToVirt addr) (pageSize <<< order)).setMem m = s' := by
    simpa [pure, Except.pure] using h
  obtain ⟨hlater, hmem⟩ := splitLoop_frame hsplit
  have ht : Later s t :=
    (((Later.derefPage s _ b).trans (Later.setPage _ _ _)).trans (Later.setList _ _ _)).trans hlater
  refine ⟨ht.trans ((Later.deref t _ _).trans (Later.setMem _ m)), ?_, ?_⟩
  · unfold pageAddr at haddr
    rw [ht.statics.base, ht.statics.numPages] at haddr
    split at haddr
    · cases haddr
    · exact ⟨b, by omega, (Except.ok.inj haddr).symm⟩
  · intro ho x hx
    have hlen : pageSize <<< order < 2 ^ 32 := by
      rw [Nat.shiftLeft_eq]
      calc pageSize * 2 ^ order ≤ pageSize * 2 ^ maxOrder :=
            Nat.mul_le_mul_left _ (Nat.pow_le_pow_right (by decide) ho)
        _ < 2 ^ 32 := by decide
    rw [memset_eq _ _ _ hlen] at hset
    rw [← Except.ok.inj hset]
    exact (if_neg hx).trans (congrFun hmem x)

theorem allocFrom_frame {order n o a : Nat} {s s' : Mm}
    (h : allocFrom order n o s = .ok (a, s')) : a = 0 ∧ s' = s ∨ HandsOut s order a s' := by
  induction n generalizing o with
  | zero =>
      obtain ⟨rfl, rfl⟩ : 0 = a ∧ s = s' := by simpa [allocFrom] using h
      exact Or.inl ⟨rfl, rfl⟩
  | succ n ih =>
      rw [allocFrom] at h
      split at h
      · exact ih h
      · exact Or.inr (takeBlock_frame h)

/-- **`alloc_pages` changes nothing where it returns `NULL`**, and writes its block elsewhere. -/
theorem allocPages_handsOut {order a : Nat} {s s' : Mm} (h : s.allocPages order = .ok (a, s')) :
    a = 0 ∧ s' = s ∨ HandsOut s order a s' := by
  unfold allocPages at h
  split at h
  · obtain ⟨rfl, rfl⟩ : 0 = a ∧ s = s' := by simpa using h
    exact Or.inl ⟨rfl, rfl⟩
  · exact allocFrom_frame h

theorem allocPages_frame {order a : Nat} {s s' : Mm} (h : s.allocPages order = .ok (a, s')) :
    Later s s' := by
  rcases allocPages_handsOut h with ⟨-, rfl⟩ | hout
  · exact Later.refl _
  · exact hout.later

theorem HandsOut.addr_le {order a : Nat} {s s' : Mm} (h : HandsOut s order a s') (hr : Region s) :
    s.buddyBasePhys ≤ a ∧ a % pageSize = 0 ∧ a + pageSize ≤ userEnd := by
  obtain ⟨b, hb, rfl⟩ := h.addr
  have htop := hr.top
  have haligned := hr.aligned
  simp only [u64, userEnd, pageSize] at *
  omega

theorem allocPages_null {order : Nat} {s s' : Mm} (hr : Region s)
    (h : s.allocPages order = .ok (0, s')) : s' = s := by
  rcases allocPages_handsOut h with ⟨-, rfl⟩ | hout
  · rfl
  · have hle := (hout.addr_le hr).1
    have hpos := hr.pos
    omega

end SystemN.Mm
