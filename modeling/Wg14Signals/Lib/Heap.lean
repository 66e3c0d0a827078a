import Mathlib.Data.List.Basic

namespace Lib

/-- Addresses name allocations, not bytes: one is never handed out twice. -/
abbrev Addr := Nat

/-- A partial heap. An address that was never allocated, or has been freed,
holds nothing. -/
abbrev Heap (α : Type) := Addr → Option α

/-- Two computations in sequence succeed exactly when both do. -/
theorem bind_ok {ε α β : Type} {x : Except ε α} {f : α → Except ε β} {b : β} :
    (x >>= f) = .ok b ↔ ∃ a, x = .ok a ∧ f a = .ok b := by
  cases x <;> simp [bind, Except.bind]

/-- A sequence fails in its first part, or in its second after the first succeeded. -/
theorem bind_error {ε α β : Type} {x : Except ε α} {f : α → Except ε β} {e : ε} :
    (x >>= f) = .error e ↔ x = .error e ∨ ∃ a, x = .ok a ∧ f a = .error e := by
  cases x <;> simp [bind, Except.bind]

@[simp] theorem pure_ok {ε α : Type} {a b : α} :
    (pure a : Except ε α) = .ok b ↔ a = b := by
  simp [pure, Except.pure]

@[simp] theorem pure_error {ε α : Type} {a : α} {e : ε} :
    (pure a : Except ε α) ≠ .error e := by
  simp [pure, Except.pure]

@[simp] theorem throw_ok {ε α : Type} {a : α} {e : ε} :
    (throw e : Except ε α) ≠ .ok a := by
  simp [throw, throwThe, MonadExceptOf.throw]

@[simp] theorem throw_error {ε α : Type} {e e' : ε} :
    (throw e : Except ε α) = .error e' ↔ e = e' := by
  simp [throw, throwThe, MonadExceptOf.throw]

namespace Heap

variable {α ε : Type}

def empty : Heap α := fun _ => none

def set (h : Heap α) (a : Addr) (v : Option α) : Heap α :=
  fun b => if b = a then v else h b

/-- Rewrite the object at an address, if the pointer names a live one. -/
def mapAt (h : Heap α) (p : Option Addr) (f : α → α) : Heap α :=
  fun b => if some b = p then (h b).map f else h b

/-- Dereference a pointer; `trap` says what a null or dangling one amounts to. -/
def read (trap : Option Addr → ε) (h : Heap α) : Option Addr → Except ε α
  | none => .error (trap none)
  | some a =>
    match h a with
    | none => .error (trap (some a))
    | some v => .ok v

/-- Write through a pointer. -/
def update (trap : Option Addr → ε) (h : Heap α) (p : Option Addr) (f : α → α) :
    Except ε (Heap α) := do
  let _ ← h.read trap p
  pure (h.mapAt p f)

/-- Give an object back. Freeing what is not live traps like any other access. -/
def free (trap : Option Addr → ε) (h : Heap α) (a : Addr) : Except ε (Heap α) := do
  let _ ← h.read trap (some a)
  pure (h.set a none)

theorem set_apply (h : Heap α) (a b : Addr) (v : Option α) :
    h.set a v b = if b = a then v else h b := rfl

@[simp] theorem set_self (h : Heap α) (a : Addr) (v : Option α) : h.set a v a = v := by
  simp [set]

@[simp] theorem set_other (h : Heap α) {a b : Addr} (v : Option α) (hab : b ≠ a) :
    h.set a v b = h b := by
  simp [set, hab]

@[simp] theorem mapAt_none (h : Heap α) (f : α → α) : h.mapAt none f = h := by
  funext b
  simp [mapAt]

@[simp] theorem mapAt_self (h : Heap α) (a : Addr) (f : α → α) :
    h.mapAt (some a) f a = (h a).map f := by
  simp [mapAt]

theorem mapAt_other (h : Heap α) {p : Option Addr} {b : Addr} (f : α → α)
    (hb : some b ≠ p) : h.mapAt p f b = h b := by
  simp [mapAt, hb]

theorem mapAt_eq_none (h : Heap α) (p : Option Addr) (f : α → α) (b : Addr) :
    h.mapAt p f b = none ↔ h b = none := by
  unfold mapAt
  split <;> simp

theorem read_ok {trap : Option Addr → ε} {h : Heap α} {p : Option Addr} {v : α} :
    h.read trap p = .ok v ↔ ∃ a, p = some a ∧ h a = some v := by
  cases p with
  | none => simp [read]
  | some a => cases hv : h a <;> simp [read, hv]

theorem read_some {trap : Option Addr → ε} {h : Heap α} {a : Addr} {v : α}
    (hv : h a = some v) : h.read trap (some a) = .ok v :=
  read_ok.mpr ⟨a, rfl, hv⟩

/-- A failing dereference reports the pointer it was given. -/
theorem read_error {trap : Option Addr → ε} {h : Heap α} {p : Option Addr} {e : ε}
    (he : h.read trap p = .error e) : e = trap p := by
  cases p with
  | none => simpa [read] using he.symm
  | some a => cases hv : h a <;> simp [read, hv] at he; exact he.symm

theorem update_ok {trap : Option Addr → ε} {h h' : Heap α} {p : Option Addr} {f : α → α} :
    h.update trap p f = .ok h' ↔ ∃ a v, p = some a ∧ h a = some v ∧ h' = h.mapAt p f := by
  simp only [update, bind_ok, read_ok, pure_ok]
  constructor
  · rintro ⟨v, ⟨a, hp, hv⟩, rfl⟩
    exact ⟨a, v, hp, hv, rfl⟩
  · rintro ⟨a, v, hp, hv, rfl⟩
    exact ⟨v, ⟨a, hp, hv⟩, rfl⟩

theorem update_error {trap : Option Addr → ε} {h : Heap α} {p : Option Addr} {f : α → α}
    {e : ε} (he : h.update trap p f = .error e) : e = trap p := by
  simp only [update, bind_error, pure_error, and_false, exists_false, or_false] at he
  exact read_error he

theorem free_ok {trap : Option Addr → ε} {h h' : Heap α} {a : Addr} :
    h.free trap a = .ok h' ↔ (∃ v, h a = some v) ∧ h' = h.set a none := by
  simp only [free, bind_ok, read_ok, pure_ok, Option.some.injEq]
  constructor
  · rintro ⟨v, ⟨b, rfl, hv⟩, rfl⟩
    exact ⟨⟨v, hv⟩, rfl⟩
  · rintro ⟨⟨v, hv⟩, rfl⟩
    exact ⟨v, ⟨a, rfl, hv⟩, rfl⟩

theorem free_error {trap : Option Addr → ε} {h : Heap α} {a : Addr} {e : ε}
    (he : h.free trap a = .error e) : e = trap (some a) := by
  simp only [free, bind_error, pure_error, and_false, exists_false, or_false] at he
  exact read_error he

/-- Every listed address holds something. -/
def AllLive (h : Heap α) (xs : List Addr) : Prop := ∀ x ∈ xs, ∃ a, h x = some a

theorem update_run {trap : Option Addr → ε} {h : Heap α} {x : Addr}
    (hx : ∃ a, h x = some a) (f : α → α) :
    h.update trap (some x) f = .ok (h.mapAt (some x) f) := by
  obtain ⟨a, ha⟩ := hx
  exact update_ok.mpr ⟨x, a, rfl, ha, rfl⟩

theorem free_run {trap : Option Addr → ε} {h : Heap α} {x : Addr}
    (hx : ∃ a, h x = some a) : h.free trap x = .ok (h.set x none) :=
  free_ok.mpr ⟨hx, rfl⟩

theorem mapAt_live {h : Heap α} {x : Addr} (hx : ∃ a, h x = some a) (p : Option Addr)
    (f : α → α) : ∃ a, h.mapAt p f x = some a := by
  obtain ⟨a, ha⟩ := hx
  refine Option.ne_none_iff_exists'.mp fun hn => ?_
  rw [(mapAt_eq_none h p f x).mp hn] at ha
  cases ha

end Heap

end Lib
