import Mathlib.Data.List.Forall2
import Wg14Signals.Lib.Runs

namespace Lib

variable {σ τ α β ε δ : Type}

/-- A run, and the actions it consists of. -/
inductive Trace (step : σ → α → Except ε σ) (ok : σ → α → Prop) : σ → List α → σ → Prop where
  | nil (s : σ) : Trace step ok s [] s
  | snoc {s u v : σ} {acts : List α} (a : α) (run : Trace step ok s acts u) (allowed : ok u a)
    (next : step u a = .ok v) : Trace step ok s (acts ++ [a]) v

variable {step : σ → α → Except ε σ} {ok : σ → α → Prop} {step' : τ → β → Except δ τ}
  {ok' : τ → β → Prop} {s t : σ} {acts : List α}

theorem Trace.run (hr : Trace step ok s acts t) : Run step ok s t := by
  induction hr with
  | nil => exact .refl _
  | snoc a _ ha hs ih => exact .tail a ih ha hs

/-- A step of one system is one of another system, which can be told from where it ends. -/
def Explains (step' : τ → β → Except δ τ) (ok' : τ → β → Prop) (R : σ → τ → Prop)
    (alike : α → β → Prop) (s : σ) (a : α) (s' : σ) : Prop :=
  ∀ x', R s' x' → ∃ x b, R s x ∧ alike a b ∧ ok' x b ∧ step' x b = .ok x'

/-- The rule of backward simulation. What each step of a run preserves and explains holds at
its end, and each explanation of the end goes back to its beginning. -/
theorem Trace.explained {I : σ → Prop} {R : σ → τ → Prop} {alike : α → β → Prop}
    (hr : Trace step ok s acts t) (hi : I s)
    (hs : ∀ s a s', I s → ok s a → step s a = .ok s' →
      I s' ∧ Explains step' ok' R alike s a s') :
    I t ∧ ∀ y, R t y → ∃ x acts', R s x ∧ List.Forall₂ alike acts acts' ∧
      Trace step' ok' x acts' y := by
  induction hr with
  | nil => exact ⟨hi, fun y hy => ⟨y, [], hy, .nil, .nil y⟩⟩
  | snoc a _ ha hnext ih =>
    obtain ⟨hu, hback⟩ := ih
    obtain ⟨hv, hexpl⟩ := hs _ a _ hu ha hnext
    refine ⟨hv, fun z hz => ?_⟩
    obtain ⟨y, b, hy, hab, hb, hstep⟩ := hexpl z hz
    obtain ⟨x, acts', hx, hacts, htrace⟩ := hback y hy
    exact ⟨x, acts' ++ [b], hx, List.rel_append hacts (.cons hab .nil), .snoc b htrace hb hstep⟩

end Lib
