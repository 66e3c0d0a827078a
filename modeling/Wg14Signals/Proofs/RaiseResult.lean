import Wg14Signals.Proofs.Dispatch

namespace Wg14Signals
open Lib

/-- The call of `stdc_raise` that was made in the first state has returned in the second. -/
def GuardState.RaiseReturns (s s' : GuardState) (b : Bool) : Prop :=
  s'.calls = s.calls ∧ ∃ l, s'.outcomes = s.outcomes ++ (l ++ [.raised b])

/-- It is true exactly if a decider was called, if it returns. -/
def GuardState.RaiseTruthful (s s' : GuardState) : Prop :=
  ∀ b, s.RaiseReturns s' b → (b = true ↔ s'.consulted ≠ s.consulted)

section

variable {s s' : GuardState} {l : List GuardEvent} {e : GuardEvent} {b : Bool}

theorem returns_last (h : s.RaiseReturns s' b) (ho : s'.outcomes = s.outcomes ++ (l ++ [e])) :
    e = .raised b := by
  obtain ⟨-, l', hl'⟩ := h
  have := List.append_cancel_left (ho.symm.trans hl')
  simpa using congrArg List.getLast? this

theorem truthful_of_last (hc : s'.calls = s.calls)
    (ho : s'.outcomes = s.outcomes ++ (l ++ [.raised b])) :
    s.RaiseTruthful s' ↔ (b = true ↔ s'.consulted ≠ s.consulted) := by
  constructor
  · exact fun h => h b ⟨hc, l, ho⟩
  · intro h b' hb'
    obtain rfl := GuardEvent.raised.inj (returns_last hb' ho)
    exact h

theorem upTo_eq_nil {α : Type} {q : α → Bool} {l : List α} : upTo q l = [] ↔ l = [] := by
  cases l with
  | nil => simp [upTo]
  | cons a l =>
    simp only [upTo, reduceCtorEq, iff_false]
    split <;> simp

theorem verdict_unclaimed {recovery : Addr → Bool} {dec : Consulted → Decision}
    {l : List Consulted} :
    verdict recovery dec l = .unclaimed ↔ ∀ who ∈ l, claims recovery dec who = false := by
  unfold verdict
  cases h : l.find? (claims recovery dec) with
  | none => simpa using h
  | some who =>
    have hm := List.mem_of_find?_eq_some h
    have hc := List.find?_some h
    constructor
    · intro hv
      cases who with
      | frame a =>
        simp only [Option.map_some, Option.getD_some, verdictBy] at hv
        split at hv <;> cases hv
      | global n => cases hv
    · intro hn
      rw [hn who hm] at hc
      cases hc

theorem unclaimed_last (p : Platform) (signo : Signo) (entry : Option Sigaction) :
    ∃ l, unclaimedOutcome p signo entry = l ++ [.raised entry.isSome] := by
  cases entry with
  | none => exact ⟨[], rfl⟩
  | some sa =>
    cases h : invokeSigaction p sa signo with
    | calls handler => exact ⟨[.handled handler], by simp [unclaimedOutcome, h]⟩
    | default | ignores => exact ⟨[], by simp [unclaimedOutcome, h]⟩

end

/-- A raise of a number that is no signal is over at once. -/
theorem raise_out_of_range (p : Platform) {s : GuardState} {guards : List Addr} (args : RaiseArgs)
    (hu : s.userCode = true) (hst : s.Stands guards)
    (hr : args.signo < 1 ∨ (p.nsig : Int) ≤ args.signo) :
    ∃ u, guardStep p s (.raise args {}) = .ok u ∧ u.calls = s.calls ∧
      u.consulted = s.consulted ∧ u.outcomes = s.outcomes ++ [.raised false] := by
  obtain ⟨a, state, store, hinit, -⟩ := hst.init
  refine ⟨(s.setStore store).answer args false false s.calls, ?_, rfl, ?_, ?_⟩
  · refine (if_pos hu).trans ?_
    unfold GuardState.pushRaise
    rw [hinit]
    exact (if_neg (by simp)).trans (if_pos hr)
  · simp [GuardState.consulted, GuardState.answer, GuardEvent.who]
  · simp [GuardState.outcomes, GuardState.answer, GuardEvent.who]

/-- The answer of a `stdc_raise` that runs to its end says whether a decider was called, unless
nobody claims a valid signal, and it is either installed with nobody to ask or not installed with
somebody to. -/
theorem raise_truthful_iff (p : Platform) {s : GuardState} {guards ns : List Addr}
    {entry : Option Sigaction} (args : RaiseArgs) (dec : Consulted → Decision)
    (hu : s.userCode = true) (hst : s.Stands guards) (hg : Listed s.g args.signo entry ns)
    (hraw : ∀ sa, entry = some sa → sa.handler ≠ .raw) :
    ∃ u s', guardStep p s (.raise args {}) = .ok u ∧
      Run (guardStep p) (fun s act => act = s.quietly dec) u s' ∧
      s'.calls.length ≤ s.calls.length ∧
      (s.RaiseTruthful s' ↔
        (args.signo < 1 ∨ (p.nsig : Int) ≤ args.signo) ∨
        (∃ who ∈ candidates s.guardSet args.signo guards ns,
          claims s.recovers dec who = true) ∨
        (entry.isSome = true ↔ candidates s.guardSet args.signo guards ns ≠ [])) := by
  by_cases hr : args.signo < 1 ∨ (p.nsig : Int) ≤ args.signo
  · obtain ⟨u, hstep, hcalls, hcons, hout⟩ := raise_out_of_range p args hu hst hr
    refine ⟨u, u, hstep, .refl u, Nat.le_of_eq (congrArg _ hcalls), iff_of_true ?_ (.inl hr)⟩
    exact (truthful_of_last (l := []) hcalls hout).mpr (by simp [hcons])
  · obtain ⟨hlow, hhigh⟩ := not_or.mp hr
    obtain ⟨store, u, hstep, hstart, hsame, hfront⟩ := raise_starts p args hu hst
      (Int.not_lt.mp hlow) (Int.not_le.mp hhigh)
    have hfin : Finishes p dec s args entry _ _ u :=
      hstart.walks hst (List.nil_append _).symm hsame hg hfront hraw
    obtain ⟨s', hrun, -, hcons, hend⟩ := hfin
    -- somebody is asked exactly if there is somebody to ask
    have hasked : s'.consulted ≠ s.consulted ↔
        candidates s.guardSet args.signo guards ns ≠ [] := by
      rw [hcons, List.nil_append, ne_eq, List.append_right_eq_self, upTo_eq_nil]
    generalize hv : verdict s.recovers dec (candidates s.guardSet args.signo guards ns) = v at hend
    refine ⟨u, s', hstep, hrun, ?_⟩
    have hclaims : v ≠ .unclaimed →
        ∃ who ∈ candidates s.guardSet args.signo guards ns, claims s.recovers dec who = true := by
      intro hne
      have hn := mt verdict_unclaimed.mpr (hv ▸ hne)
      simpa using hn
    cases v with
    | recovered a =>
      obtain ⟨f, info, xs, rest, -, hc, hc', -, hout, -⟩ := hend
      refine ⟨by rw [hc, hc']; simp, iff_of_true ?_ (.inr (.inl (hclaims (by simp))))⟩
      intro b hb
      cases returns_last (l := []) hb hout
    | claimed =>
      obtain ⟨hc, -, hout⟩ := hend
      obtain ⟨who, hm, hcl⟩ := hclaims (by simp)
      refine ⟨Nat.le_of_eq (congrArg _ hc), iff_of_true ?_ (.inr (.inl ⟨who, hm, hcl⟩))⟩
      refine (truthful_of_last (l := []) hc hout).mpr (iff_of_true rfl (hasked.mpr ?_))
      exact List.ne_nil_of_mem hm
    | unclaimed =>
      obtain ⟨hc, -, hout⟩ := hend
      obtain ⟨l, hl⟩ := unclaimed_last p args.signo entry
      refine ⟨Nat.le_of_eq (congrArg _ hc), ?_⟩
      rw [truthful_of_last hc (hl ▸ hout), hasked, or_iff_right hr, or_iff_right]
      rintro ⟨who, hm, hcl⟩
      rw [verdict_unclaimed.mp hv who hm] at hcl
      cases hcl

/-- Signal 1 is installed, had a handler before, and has no decider. -/
def noDecider : Global :=
  oneDecider.setContainer 0
    { oneContainer with oldHandler := { handler := .user 3 }, globalHandler := {} }

/-- The previous handler is called, but no decider, and the answer is true; the decider of a guard
is called for a signal that is not installed, and the answer is false. -/
theorem raise_answers_amiss :
    (∃ u s' : GuardState, guardStep .tiny (.initial true noDecider) (.raise { signo := 1 } {}) =
        .ok u ∧ Run (guardStep .tiny) (fun s act => act = s.quietly fun _ => .nextDecider) u s' ∧
      s'.consulted = [] ∧ s'.outcomes = [.handled (.user 3), .raised true] ∧
      ¬(GuardState.initial true noDecider).RaiseTruthful s') ∧
    ∃ s u s' : GuardState, Run (guardStep .tiny) (fun _ _ => True)
        (.initial true (State.initial fun _ => .dfl).g) s ∧
      guardStep .tiny s (.raise { signo := 1 } {}) = .ok u ∧
      Run (guardStep .tiny) (fun s act => act = s.quietly fun _ => .nextDecider) u s' ∧
      s'.consulted = [.frame 0] ∧ s'.outcomes = [.raised false] ∧ ¬s.RaiseTruthful s' := by
  have amiss : ∀ {s s' : GuardState} {l : List GuardEvent} {b : Bool}, s'.calls = s.calls →
      s'.outcomes = s.outcomes ++ (l ++ [.raised b]) → (b == decide (s'.consulted ≠ s.consulted)) =
        false → ¬s.RaiseTruthful s' := by
    intro s s' l b hc ho hne h
    have := (truthful_of_last hc ho).mp h
    cases b <;> simp_all
  constructor
  · obtain ⟨u, hu, hq⟩ := okAnd_iff.mp (show okAnd
      (guardStep .tiny (.initial true noDecider) (.raise { signo := 1 } {}))
      (fun u => okAnd (follow (guardStep .tiny) (GuardState.quietly fun _ => .nextDecider) 3 u)
        fun s' => s'.calls.isEmpty && s'.consulted == [] &&
          s'.outcomes == [.handled (.user 3), .raised true]) = true by decide)
    obtain ⟨s', hs', hq⟩ := okAnd_iff.mp hq
    simp only [Bool.and_eq_true, List.isEmpty_iff, beq_iff_eq] at hq
    obtain ⟨⟨hc, hcons⟩, hout⟩ := hq
    exact ⟨u, s', hu, follow_run hs', hcons, hout,
      amiss (l := [.handled (.user 3)]) (b := true) hc hout (by rw [hcons]; rfl)⟩
  · obtain ⟨s, hr, hq⟩ := run_of_ends (f := guardStep .tiny) (r := fun _ _ => True)
      (s := .initial true (State.initial fun _ => .dfl).g) (c := fun _ _ => true)
      (q := fun s => s.consulted == [] && s.outcomes == [] &&
        okAnd (guardStep .tiny s (.raise { signo := 1 } {})) fun u =>
          okAnd (follow (guardStep .tiny) (GuardState.quietly fun _ => .nextDecider) 3 u)
            fun s' => s'.calls == s.calls && s'.consulted == [.frame 0] &&
              s'.outcomes == [.raised false])
      (l := [.sigguarded (· == 1) true 0 3 {}]) (fun _ _ _ => trivial) (by decide)
    simp only [Bool.and_eq_true, beq_iff_eq, okAnd_iff] at hq
    obtain ⟨⟨hcons₀, hout₀⟩, u, hu, s', hs', ⟨hc, hcons⟩, hout⟩ := hq
    exact ⟨s, u, s', hr, hu, follow_run hs', hcons, hout,
      amiss (l := []) (b := false) hc (by rw [hout, hout₀]; rfl) (by rw [hcons, hcons₀]; rfl)⟩

/-- A guard's decider passes, and the global one claims the raise. -/
theorem raise_truthful_claimed : ∃ s s' : GuardState,
    Run (guardStep .tiny) (fun _ _ => True) (.initial true oneDecider) s ∧
      s.activeGuards = [0] ∧ s.RaiseTruthful s' := by
  obtain ⟨s, hr, hs⟩ := run_of_ends (s := .initial true oneDecider) (c := fun _ _ => true)
    (r := fun _ _ => True) (f := guardStep .tiny)
    (q := fun s => s.userCode && standing s.infos s.calls == [0] && s.activeGuards == [0] &&
      s.g.map 1 == some 0 && s.g.containers 0 == some oneContainer && s.g.nodes 0 == some oneNode &&
      (candidates s.guardSet 1 [0] [0]).any (claims s.recovers passingOn))
    (l := [.sigguarded (· == 1) true 0 7 {}]) (fun _ _ _ => trivial) (by decide)
  simp only [Bool.and_eq_true, beq_iff_eq, List.any_eq_true] at hs
  obtain ⟨⟨⟨⟨⟨⟨hu, hstand⟩, hact⟩, hm⟩, hc⟩, hn⟩, hclaims⟩ := hs
  obtain ⟨u, s', -, -, -, htruth⟩ := raise_truthful_iff .tiny { signo := 1 } passingOn hu
    (hstand ▸ guards_stand hr) (oneDecider_listed hm hc hn) (by rintro sa ⟨⟩; decide)
  exact ⟨s, s', hr, hact, htruth.mpr (.inr (.inl hclaims))⟩

end Wg14Signals
