import Wg14Signals.Lib.Heap
import Mathlib.Logic.Function.Basic

namespace Lib

/-- One thing a thread does in a critical section, to the shared state and its own. -/
abbrev SectionStep (σ ω : Type) := σ × ω → σ × ω

/-- A section from here to its end. -/
def runSection {σ ω : Type} (steps : List (SectionStep σ ω)) (x : σ × ω) : σ × ω :=
  steps.foldl (fun x f => f x) x

/-- What threads share, and what each has for itself. -/
structure Whole (τ σ ω : Type) where
  shared : σ
  own : τ → ω

/-- A section as a whole, or something a thread does outside of one. -/
inductive WholeAct (τ σ ω : Type) where
  | within (t : τ) (steps : List (SectionStep σ ω))
  | outside (t : τ) (f : ω → ω)

namespace WholeAct

variable {τ σ ω : Type} [DecidableEq τ]

omit [DecidableEq τ] in
def thread : WholeAct τ σ ω → τ
  | within t _ => t
  | outside t _ => t

def perform (s : Whole τ σ ω) : WholeAct τ σ ω → Whole τ σ ω
  | within t steps =>
    let x := runSection steps (s.shared, s.own t)
    { shared := x.1, own := Function.update s.own t x.2 }
  | outside t f => { s with own := Function.update s.own t (f (s.own t)) }

/-- One after the other. -/
def performAll (s : Whole τ σ ω) (acts : List (WholeAct τ σ ω)) : Whole τ σ ω :=
  acts.foldl perform s

end WholeAct

/-- Threads of which one at most is in a section, with what it has still to do there. -/
structure Held (τ σ ω : Type) extends Whole τ σ ω where
  holder : Option (τ × List (SectionStep σ ω))

inductive HeldAct (τ σ ω : Type) where
  | enter (t : τ) (steps : List (SectionStep σ ω))
  /-- The next step of the section that is in progress. -/
  | work
  | leave
  | outside (t : τ) (f : ω → ω)

/-- When a section is entered, it counts as done. -/
def HeldAct.counts {τ σ ω : Type} : HeldAct τ σ ω → Option (WholeAct τ σ ω)
  | .enter t steps => some (.within t steps)
  | .outside t f => some (.outside t f)
  | _ => none

namespace Held

variable {τ σ ω : Type} [DecidableEq τ] {s s' : Held τ σ ω} {act : HeldAct τ σ ω}

/-- `none`: this cannot happen now. -/
def step (s : Held τ σ ω) : HeldAct τ σ ω → Option (Held τ σ ω)
  | .enter t steps =>
    match s.holder with
    | none => some { s with holder := some (t, steps) }
    | some _ => none
  | .work =>
    match s.holder with
    | some (t, f :: rest) =>
      let x := f (s.shared, s.own t)
      some { shared := x.1, own := Function.update s.own t x.2, holder := some (t, rest) }
    | _ => none
  | .leave =>
    match s.holder with
    | some (_, []) => some { s with holder := none }
    | _ => none
  | .outside t f =>
    if s.holder.map Prod.fst = some t then none
    else some { s with own := Function.update s.own t (f (s.own t)) }

/-- The state in which the section that is in progress has come to its end. -/
def complete (s : Held τ σ ω) : Whole τ σ ω :=
  match s.holder with
  | none => s.toWhole
  | some (t, steps) => WholeAct.perform s.toWhole (.within t steps)

theorem update_self (w : Whole τ σ ω) (t : τ) :
    WholeAct.perform w (.within t []) = w := by
  simp [WholeAct.perform, runSection]

/-- A section begins with its first step. -/
theorem perform_cons (w : Whole τ σ ω) (t : τ) (f : SectionStep σ ω)
    (rest : List (SectionStep σ ω)) :
    WholeAct.perform w (.within t (f :: rest)) =
      WholeAct.perform ⟨(f (w.shared, w.own t)).1,
        Function.update w.own t (f (w.shared, w.own t)).2⟩ (.within t rest) := by
  simp [WholeAct.perform, runSection]

/-- What one thread does outside commutes with the section of another. -/
theorem perform_comm (w : Whole τ σ ω) {t u : τ} (hne : u ≠ t) (steps : List (SectionStep σ ω))
    (f : ω → ω) :
    WholeAct.perform (WholeAct.perform w (.outside t f)) (.within u steps) =
      WholeAct.perform (WholeAct.perform w (.within u steps)) (.outside t f) := by
  simp only [WholeAct.perform, Function.update_of_ne hne, Function.update_of_ne hne.symm,
    Function.update_comm hne]

/-- The completed state changes with what counts, and with nothing else. -/
theorem complete_step (h : s.step act = some s') :
    s'.complete = WholeAct.performAll s.complete act.counts.toList := by
  obtain ⟨w, holder⟩ := s
  cases act with
  | enter t steps =>
    cases holder with
    | none =>
      obtain rfl := Option.some.inj h
      rfl
    | some x => cases h
  | work =>
    cases holder with
    | none => cases h
    | some x =>
      obtain ⟨t, steps⟩ := x
      cases steps with
      | nil => cases h
      | cons f rest =>
        obtain rfl := Option.some.inj h
        exact (perform_cons w t f rest).symm
  | leave =>
    cases holder with
    | none => cases h
    | some x =>
      obtain ⟨t, steps⟩ := x
      cases steps with
      | nil =>
        obtain rfl := Option.some.inj h
        exact (update_self w t).symm
      | cons f rest => cases h
  | outside t f =>
    cases holder with
    | none =>
      obtain rfl := Option.some.inj h
      rfl
    | some x =>
      obtain ⟨u, steps⟩ := x
      by_cases hne : u = t
      · subst hne
        simp [step] at h
      · have hs : (some (u, steps)).map Prod.fst ≠ some t := fun heq => hne (Option.some.inj heq)
        obtain rfl := Option.some.inj ((if_neg hs).symm.trans h)
        exact perform_comm w hne steps f

/-- A run is one of whole sections, in the order in which they were entered. -/
theorem complete_run {acts : List (HeldAct τ σ ω)} (h : acts.foldlM step s = some s') :
    s'.complete = WholeAct.performAll s.complete (acts.filterMap HeldAct.counts) := by
  induction acts generalizing s with
  | nil =>
    obtain rfl := Option.some.inj h
    rfl
  | cons act acts ih =>
    rw [List.foldlM_cons] at h
    obtain ⟨s₁, hs, hrest⟩ := Option.bind_eq_some_iff.mp h
    rw [ih hrest, complete_step hs]
    cases hc : act.counts with
    | none => rw [List.filterMap_cons_none hc]; rfl
    | some a => rw [List.filterMap_cons_some hc]; rfl

end Held

end Lib
