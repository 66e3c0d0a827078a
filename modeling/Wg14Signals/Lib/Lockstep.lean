import Mathlib.Data.List.Forall2
import Wg14Signals.Lib.Heap

namespace Lib

variable {ε α β γ δ ι : Type}

/-- Two computations both succeed, with related results, or both fail. -/
inductive Both (R : α → β → Prop) : Except ε α → Except ε β → Prop where
  | ok {a : α} {b : β} (h : R a b) : Both R (.ok a) (.ok b)
  | error (e e' : ε) : Both R (.error e) (.error e')

namespace Both

variable {R R' : α → β → Prop} {S : γ → δ → Prop} {x : Except ε α} {y : Except ε β}

theorem pure {a : α} {b : β} (h : R a b) : Both R (Pure.pure a : Except ε α) (Pure.pure b) :=
  .ok h

theorem mono (h : Both R x y) (hr : ∀ a b, R a b → R' a b) : Both R' x y := by
  cases h with
  | ok h => exact .ok (hr _ _ h)
  | error => exact .error _ _

/-- Sequences run in step when their parts do. -/
theorem bind {f : α → Except ε γ} {g : β → Except ε δ} (h : Both R x y)
    (hf : ∀ a b, x = .ok a → y = .ok b → R a b → Both S (f a) (g b)) :
    Both S (x >>= f) (y >>= g) := by
  cases h with
  | ok h => exact hf _ _ rfl rfl h
  | error => exact .error _ _

/-- Two sequences that begin with the same computation. -/
theorem bind_same {x : Except ε α} {f : α → Except ε γ} {g : α → Except ε δ}
    (hf : ∀ a, x = .ok a → Both S (f a) (g a)) : Both S (x >>= f) (x >>= g) := by
  cases x with
  | ok a => exact hf a rfl
  | error => exact .error _ _

theorem ite {p q : Prop} [Decidable p] [Decidable q] {x' : Except ε α} {y' : Except ε β}
    (hpq : p ↔ q) (h : p → Both R x y) (h' : ¬p → Both R x' y') :
    Both R (if p then x else x') (if q then y else y') := by
  by_cases hp : p
  · rw [if_pos hp, if_pos (hpq.mp hp)]
    exact h hp
  · rw [if_neg hp, if_neg fun hq => hp (hpq.mpr hq)]
    exact h' hp

/-- Whole runs go in step when every step does, as long as a condition on what the first
machine is about to do holds. -/
theorem run {step : α → ι → Except ε α} {step' : β → ι → Except ε β} {ok : α → ι → Prop}
    (hs : ∀ a b i, R a b → ok a i → Both R (step a i) (step' b i)) {l : List ι} {a : α} {b : β}
    (hr : R a b)
    (hok : ∀ pre i post u, l = pre ++ i :: post → pre.foldlM step a = .ok u → ok u i) :
    Both R (l.foldlM step a) (l.foldlM step' b) := by
  induction l generalizing a b with
  | nil => exact .pure hr
  | cons i l ih =>
    rw [List.foldlM_cons, List.foldlM_cons]
    refine (hs a b i hr (hok [] i l a rfl rfl)).bind fun a₁ b₁ ha _ hr₁ => ih hr₁ ?_
    intro pre j post u hl hu
    refine hok (i :: pre) j post u (by rw [hl]; rfl) ?_
    rw [List.foldlM_cons, ha]
    exact hu

end Both

section

variable {R : α → β → Prop} {l : List α} {l' : List β}

theorem forall₂_filterMap {f : α → Option γ} {g : β → Option γ} (h : List.Forall₂ R l l')
    (hfg : ∀ a b, R a b → f a = g b) : l.filterMap f = l'.filterMap g := by
  induction h with
  | nil => rfl
  | cons hr _ ih => rw [List.filterMap_cons, List.filterMap_cons, hfg _ _ hr, ih]

theorem forall₂_dropWhile {p : α → Bool} {q : β → Bool} (h : List.Forall₂ R l l')
    (hpq : ∀ a b, R a b → p a = q b) : List.Forall₂ R (l.dropWhile p) (l'.dropWhile q) := by
  induction h with
  | nil => exact .nil
  | cons hr hl ih =>
    rw [List.dropWhile_cons, List.dropWhile_cons, hpq _ _ hr]
    split
    · exact ih
    · exact .cons hr hl

theorem forall₂_takeWhile {p : α → Bool} {q : β → Bool} (h : List.Forall₂ R l l')
    (hpq : ∀ a b, R a b → p a = q b) : List.Forall₂ R (l.takeWhile p) (l'.takeWhile q) := by
  induction h with
  | nil => exact .nil
  | cons hr _ ih =>
    rw [List.takeWhile_cons, List.takeWhile_cons, hpq _ _ hr]
    split
    · exact .cons hr ih
    · exact .nil

theorem forall₂_forall {P : α → Prop} {Q : β → Prop} (h : List.Forall₂ R l l')
    (hpq : ∀ a b, R a b → P a → Q b) (hl : ∀ a ∈ l, P a) : ∀ b ∈ l', Q b := by
  induction h with
  | nil => simp
  | cons hr _ ih =>
    obtain ⟨ha, hl⟩ := List.forall_mem_cons.mp hl
    exact List.forall_mem_cons.mpr ⟨hpq _ _ hr ha, ih hl⟩

/-- What stands at a place of one list has its counterpart in the other. -/
theorem forall₂_split {xs ys : List α} {a : α} (h : List.Forall₂ R (xs ++ a :: ys) l') :
    ∃ xs' b ys', l' = xs' ++ b :: ys' ∧ List.Forall₂ R xs xs' ∧ R a b := by
  induction xs generalizing l' with
  | nil =>
    cases h with
    | cons hr _ => exact ⟨[], _, _, rfl, .nil, hr⟩
  | cons x xs ih =>
    cases h with
    | @cons _ y _ l' hr hl =>
      obtain ⟨xs', b, ys', rfl, hxs, hab⟩ := ih hl
      exact ⟨y :: xs', b, ys', rfl, .cons hr hxs, hab⟩

end

end Lib
