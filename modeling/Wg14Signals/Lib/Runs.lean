import Wg14Signals.Lib.Heap

namespace Lib

variable {σ α ε : Type}

/-- Finite runs of a step function, in which every step taken satisfies `ok`
in the state it is taken from. -/
inductive Run (step : σ → α → Except ε σ) (ok : σ → α → Prop) : σ → σ → Prop where
  | refl (s : σ) : Run step ok s s
  | tail {s u v : σ} (a : α) (run : Run step ok s u) (allowed : ok u a)
      (next : step u a = .ok v) : Run step ok s v

variable {step : σ → α → Except ε σ} {ok ok' : σ → α → Prop} {s t u : σ}

theorem Run.trans (hx : Run step ok s t) (hy : Run step ok t u) : Run step ok s u := by
  induction hy with
  | refl => exact hx
  | tail a _ ha hs ih => exact .tail a ih ha hs

theorem Run.mono (hr : Run step ok s t) (hk : ∀ s a, ok s a → ok' s a) :
    Run step ok' s t := by
  induction hr with
  | refl => exact .refl _
  | tail a _ ha hs ih => exact .tail a ih (hk _ _ ha) hs

/-- The invariant rule: what every allowed step preserves, every run preserves. -/
theorem Run.invariant {I : σ → Prop} (hr : Run step ok s t) (hi : I s)
    (hs : ∀ s a s', I s → ok s a → step s a = .ok s' → I s') : I t := by
  induction hr with
  | refl => exact hi
  | tail a _ ha hn ih => exact hs _ a _ ih ha hn

/-- A step succeeds, and its result passes a test. -/
def okAnd (x : Except ε α) (q : α → Bool) : Bool :=
  match x with
  | .ok a => q a
  | .error _ => false

theorem okAnd_iff {x : Except ε α} {q : α → Bool} :
    okAnd x q = true ↔ ∃ a, x = .ok a ∧ q a = true := by
  cases x <;> simp [okAnd]

/-- A step fails for one reason. -/
def failsWith [DecidableEq ε] (x : Except ε α) (e : ε) : Bool :=
  match x with
  | .ok _ => false
  | .error e' => e' == e

theorem failsWith_iff [DecidableEq ε] {x : Except ε α} {e : ε} :
    failsWith x e = true ↔ x = .error e := by
  cases x <;> simp [failsWith]

/-- Perform actions in order, each passing the check `c` where it is taken, and
test the state they end in. -/
def ends (step : σ → α → Except ε σ) (c : σ → α → Bool) (q : σ → Bool) : σ → List α → Bool
  | s, [] => q s
  | s, a :: as =>
    c s a &&
      match step s a with
      | .ok s' => ends step c q s' as
      | .error _ => false

/-- A list of actions that can be performed is a run. -/
theorem run_of_ends {f : σ → α → Except ε σ} {r : σ → α → Prop} {c : σ → α → Bool}
    {q : σ → Bool} {l : List α} (hc : ∀ s a, c s a = true → r s a)
    (h : ends f c q s l = true) : ∃ t, Run f r s t ∧ q t = true := by
  induction l generalizing s with
  | nil => exact ⟨s, .refl s, h⟩
  | cons a l ih =>
    simp only [ends, Bool.and_eq_true] at h
    obtain ⟨ha, h⟩ := h
    split at h
    · rename_i s' hs
      obtain ⟨t, ht, hq⟩ := ih h
      exact ⟨t, (Run.tail a (.refl s) (hc s a ha) hs).trans ht, hq⟩
    · cases h

/-- Every action of such a list passes the check where it is taken. -/
theorem ends_checks {f : σ → α → Except ε σ} {c : σ → α → Bool} {q : σ → Bool} {l pre post : List α}
    {a : α} (h : ends f c q s l = true) (hl : l = pre ++ a :: post)
    (hu : pre.foldlM f s = .ok u) : c u a = true := by
  induction pre generalizing s l with
  | nil =>
    obtain rfl := pure_ok.mp hu
    rw [hl, List.nil_append, ends, Bool.and_eq_true] at h
    exact h.1
  | cons b pre ih =>
    rw [List.foldlM_cons] at hu
    obtain ⟨s₁, hs, hu⟩ := bind_ok.mp hu
    rw [hl, List.cons_append, ends, hs, Bool.and_eq_true] at h
    exact ih h.2 rfl hu

/-- The state after so many steps, each the one that is due. -/
def follow (f : σ → α → Except ε σ) (next : σ → α) : Nat → σ → Except ε σ
  | 0, s => pure s
  | n + 1, s => do
    let s ← f s (next s)
    follow f next n s

theorem follow_run {f : σ → α → Except ε σ} {next : σ → α} {n : Nat}
    (h : follow f next n s = .ok t) : Run f (fun s a => a = next s) s t := by
  induction n generalizing s with
  | zero =>
    obtain rfl := pure_ok.mp h
    exact .refl s
  | succ n ih =>
    obtain ⟨u, hs, hu⟩ := bind_ok.mp h
    have first : Run f (fun s a => a = next s) s u := .tail (next s) (.refl s) rfl hs
    exact first.trans (ih hu)

/-- A run is over, or begins with a step. -/
theorem Run.head (hr : Run step ok s t) :
    s = t ∨ ∃ a v, ok s a ∧ step s a = .ok v ∧ Run step ok v t := by
  induction hr with
  | refl => exact .inl rfl
  | tail a _ ha hs ih =>
    rcases ih with rfl | ⟨b, v, hb, hv, hrun⟩
    · exact .inr ⟨a, _, ha, hs, .refl _⟩
    · exact .inr ⟨b, v, hb, hv, .tail a hrun ha hs⟩

/-- Where every step is the one that is due, there is one state to end in. -/
theorem Run.unique {next : σ → α} (hx : Run step (fun s a => a = next s) s t)
    (hy : Run step (fun s a => a = next s) s u) (ht : ∀ v, step t (next t) ≠ .ok v)
    (hu : ∀ v, step u (next u) ≠ .ok v) : t = u := by
  -- one of the two runs goes on from where the other has ended
  have hboth : Run step (fun s a => a = next s) t u ∨ Run step (fun s a => a = next s) u t := by
    clear ht hu
    induction hx with
    | refl => exact .inl hy
    | tail a _ ha hs ih =>
      rcases ih with hr | hr
      · rcases hr.head with rfl | ⟨b, v, hb, hv, hrun⟩
        · exact .inr (.tail a (.refl _) ha hs)
        · obtain rfl := ha.trans hb.symm
          obtain rfl := Except.ok.inj (hs.symm.trans hv)
          exact .inl hrun
      · exact .inr (.tail a hr ha hs)
  rcases hboth with hr | hr
  · rcases hr.head with h | ⟨a, v, ha, hv, -⟩
    · exact h
    · exact absurd (ha ▸ hv) (ht v)
  · rcases hr.head with h | ⟨a, v, ha, hv, -⟩
    · exact h.symm
    · exact absurd (ha ▸ hv) (hu v)

/-- Taking the first element found out of a list only reorders it. -/
theorem find_perm {q : α → Bool} {l : List α} {x : α} (h : l.find? q = some x) :
    l.Perm (x :: l.eraseP q) := by
  induction l with
  | nil => simp at h
  | cons y l ih =>
    cases hy : q y with
    | true =>
      rw [List.find?_cons_of_pos hy, Option.some.injEq] at h
      rw [List.eraseP_cons_of_pos hy, h]
    | false =>
      rw [List.find?_cons_of_neg (by simp [hy])] at h
      rw [List.eraseP_cons_of_neg (by simp [hy])]
      exact ((ih h).cons y).trans (List.Perm.swap x y _)

/-- A filter that keeps the first element found begins with it. -/
theorem find_filter {q : α → Bool} {l : List α} {x : α} (h : l.find? q = some x) :
    l.filter q = x :: (l.eraseP q).filter q := by
  induction l with
  | nil => simp at h
  | cons y l ih =>
    cases hy : q y with
    | true =>
      rw [List.find?_cons_of_pos hy, Option.some.injEq] at h
      rw [List.eraseP_cons_of_pos hy, List.filter_cons_of_pos hy, h]
    | false =>
      rw [List.find?_cons_of_neg (by simp [hy])] at h
      rw [List.eraseP_cons_of_neg (by simp [hy]), List.filter_cons_of_neg (by simp [hy]),
        List.filter_cons_of_neg (by simp [hy])]
      exact ih h

/-- A filter that does not keep what is erased does not see the erasure. -/
theorem filter_eraseP {q r : α → Bool} (h : ∀ x, r x = true → q x = false) (l : List α) :
    (l.eraseP q).filter r = l.filter r := by
  induction l with
  | nil => rfl
  | cons y l ih =>
    cases hy : q y with
    | true =>
      have hr : ¬ r y = true := fun hr => by simp [h y hr] at hy
      rw [List.eraseP_cons_of_pos hy, List.filter_cons_of_neg hr]
    | false =>
      rw [List.eraseP_cons_of_neg (by simp [hy]), List.filter_cons, List.filter_cons, ih]

end Lib
