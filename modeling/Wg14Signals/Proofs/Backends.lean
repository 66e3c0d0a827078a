import Wg14Signals.Backends
import Wg14Signals.Proofs.SignalCodes

namespace Wg14Signals
open Lib

section

variable {α β : Type} {q : α → Bool} {r : β → Bool} {R : α → β → Prop} {l : List α} {l' : List β}

/-- Searches for what both sides agree on visit what is related. -/
theorem upTo_forall₂ (hq : ∀ a b, R a b → q a = r b) (h : List.Forall₂ R l l') :
    List.Forall₂ R (upTo q l) (upTo r l') := by
  induction h with
  | nil => exact .nil
  | @cons a b l l' hab _ ih =>
    cases hqa : q a with
    | true =>
      rw [upTo_hit hqa, upTo_hit (hq a b hab ▸ hqa)]
      exact .cons hab .nil
    | false =>
      rw [upTo_miss hqa, upTo_miss (hq a b hab ▸ hqa)]
      exact .cons hab ih

theorem find_upTo (l : List α) : (upTo q l).find? q = l.find? q := by
  induction l with
  | nil => rfl
  | cons a l ih =>
    cases hqa : q a with
    | true => rw [upTo_hit hqa, List.find?_cons_of_pos hqa, List.find?_cons_of_pos hqa]
    | false =>
      rw [upTo_miss hqa, List.find?_cons_of_neg (by simp [hqa]),
        List.find?_cons_of_neg (by simp [hqa]), ih]

end

section

variable {s : GuardState} {u : WinState} {guards nodes : List (Addr × Addr)} {signo : Signo}
  {dec dec' : Consulted → Decision} {c c' : Consulted} {l l' : List Consulted}

theorem verdict_upTo {recovery : Addr → Bool} :
    verdict recovery dec (upTo (claims recovery dec) l) = verdict recovery dec l := by
  rw [verdict, find_upTo, verdict]

theorem SameStack.recovers (hs : SameStack s u guards) {a b : Addr} (h : (a, b) ∈ guards) :
    s.recovers a = u.recovers b := by
  obtain ⟨f, gs, hf, hg, -, hrec, -⟩ := hs.same a b h
  simp [GuardState.recovers, WinState.recovers, hf, hg, hrec]

theorem SameStack.wants (hs : SameStack s u guards) {a b : Addr} (h : (a, b) ∈ guards)
    (hlow : 1 ≤ signo) (hhigh : signo ≤ 32) :
    ((s.guardSet a).any fun set => set signo) = (u.guardSet b).any fun set => set signo := by
  obtain ⟨f, gs, hf, hg, -, -, hset⟩ := hs.same a b h
  simp [GuardState.guardSet, WinState.guardSet, hf, hg, sigismember, hlow, hhigh,
    hset signo hlow hhigh]

theorem init_ready (u : WinState) : (u.init {}).1 = true := by
  unfold WinState.init
  split <;> rfl

/-- The same deciders are looked at, in the same order. -/
theorem SameStack.candidates (hs : SameStack s u guards) (hlow : 1 ≤ signo) (hhigh : signo ≤ 32) :
    List.Forall₂ (SameConsulted guards nodes)
      (candidates s.guardSet signo (guards.map Prod.fst) (nodes.map Prod.fst))
      (candidates u.guardSet signo (guards.map Prod.snd) (nodes.map Prod.snd)) := by
  have pairs : ∀ l : List (Addr × Addr),
      List.Forall₂ (fun a b => (a, b) ∈ l) (l.map Prod.fst) (l.map Prod.snd) := fun l =>
    List.forall₂_map_left_iff.mpr (List.forall₂_map_right_iff.mpr
      (List.forall₂_same.mpr fun _ h => h))
  have hwant : List.Forall₂ (fun a b => (a, b) ∈ guards)
      ((guards.map Prod.fst).filter fun a => (s.guardSet a).any fun set => set signo)
      ((guards.map Prod.snd).filter fun b => (u.guardSet b).any fun set => set signo) :=
    List.rel_filter (fun a b hab => Bool.eq_iff_iff.mp (hs.wants hab hlow hhigh)) (pairs guards)
  exact List.rel_append
    (List.forall₂_map_left_iff.mpr (List.forall₂_map_right_iff.mpr hwant))
    (List.forall₂_map_left_iff.mpr (List.forall₂_map_right_iff.mpr (pairs nodes)))

theorem SameStack.claims (hs : SameStack s u guards) (h : SameConsulted guards nodes c c')
    (hdec : dec c = dec' c') : claims s.recovers dec c = claims u.recovers dec' c' := by
  cases c with
  | frame a =>
    cases c' with
    | frame b =>
      have hrec := hs.recovers h
      cases hd : dec' (.frame b) <;> simp [Wg14Signals.claims, hdec, hd, hrec]
    | global => exact h.elim
  | global n =>
    cases c' with
    | frame => exact h.elim
    | global n' => cases hd : dec' (.global n') <;> simp [Wg14Signals.claims, hdec, hd]

theorem sameVerdict_by (h : SameConsulted guards nodes c c') (hdec : dec c = dec' c') :
    SameVerdict guards (verdictBy dec c) (verdictBy dec' c') := by
  cases c with
  | frame a =>
    cases c' with
    | frame b =>
      rw [verdictBy, verdictBy, hdec]
      split
      · exact h
      · trivial
    | global => exact h.elim
  | global n =>
    cases c' with
    | frame => exact h.elim
    | global n' => trivial

/-- The consultation ends alike. -/
theorem SameStack.verdict (hs : SameStack s u guards)
    (hdec : ∀ c c', SameConsulted guards nodes c c' → dec c = dec' c')
    (h : List.Forall₂ (SameConsulted guards nodes) l l') :
    SameVerdict guards (verdict s.recovers dec l) (verdict u.recovers dec' l') := by
  induction h with
  | nil => trivial
  | @cons c c' l l' hc _ ih =>
    have hsame := hs.claims hc (hdec c c' hc)
    cases hclaim : Wg14Signals.claims s.recovers dec c with
    | true =>
      rw [verdict_hit hclaim, verdict_hit (hsame ▸ hclaim)]
      exact sameVerdict_by hc (hdec c c' hc)
    | false =>
      rw [verdict_miss hclaim, verdict_miss (hsame ▸ hclaim)]
      exact ih

end

/-- The two backends make the same dispatch decisions: `stdc_raise` calls the same deciders in the
same order on both, each once, and ends alike. It recovers in the same guard, or it returns true
on both as a decider has claimed the raise. -/
theorem backends_agree (p : Platform) (w : WinPlatform) {g : Global} {s : GuardState}
    {u : WinState} {guards nodes : List (Addr × Addr)} {signo : Signo} {sa sa' : Sigaction}
    (dec dec' : Consulted → Decision) (hr : Run (winStep w) (fun _ _ => True) (.initial g) u)
    (hus : s.userCode = true) (huu : u.userCode = true) (hs : SameStack s u guards)
    (hg : SameDeciders s.g u.g signo sa sa' nodes) (hraw : sa.handler ≠ .raw)
    (hlow : 1 ≤ signo) (hposix : signo < p.nsig) (hwindows : signo < w.nsig)
    (hdec : ∀ c c', SameConsulted guards nodes c c' → dec c = dec' c') :
    ∃ s₁ s' u₁ u' asked asked',
      guardStep p s (.raise { signo } {}) = .ok s₁ ∧
      Run (guardStep p) (fun s act => act = s.quietly dec) s₁ s' ∧
      winStep w u (.raise signo none none {}) = .ok u₁ ∧
      Run (winStep w) (fun u act => act = u.quietly dec') u₁ u' ∧
      s'.consulted = s.consulted ++ asked ∧ u'.consulted = u.consulted ++ asked' ∧
      asked = upTo (claims s.recovers dec)
        (candidates s.guardSet signo (guards.map Prod.fst) (nodes.map Prod.fst)) ∧
      List.Forall₂ (SameConsulted guards nodes) asked asked' ∧
      s.Ended p { signo } (some sa) s' (verdict s.recovers dec asked) ∧
      u.Ended w u' (verdict u.recovers dec' asked') ∧
      SameVerdict guards (verdict s.recovers dec asked) (verdict u.recovers dec' asked') := by
  have hch : WinChained u := hr.invariant (winChained_initial g) fun _ _ _ hi _ hs =>
    hi.step (winStep_turns hs)
  have hcode : w.receives signo = signo := receives_signal ⟨hlow, hwindows⟩
  have hle : (w.nsig : Int) ≤ 32 := Int.ofNat_le.mpr w.narrow
  have h32 : signo ≤ 32 := Int.le_of_lt (Int.lt_of_lt_of_le hwindows hle)
  have hsame : List.Forall₂ (SameConsulted guards nodes)
      (candidates s.guardSet signo (guards.map Prod.fst) (nodes.map Prod.fst))
      (candidates u.guardSet signo (guards.map Prod.snd) (nodes.map Prod.snd)) :=
    hs.candidates hlow h32
  have hasked := upTo_forall₂ (fun c c' hc => hs.claims hc (hdec c c' hc)) hsame
  obtain ⟨store, s₁, hpush, hstart, hstore, hfront⟩ :=
    raise_starts p { signo } hus hs.posix hlow hposix
  have hfin : Finishes p dec s { signo } (some sa) _ _ s₁ := hstart.walks hs.posix
    (List.nil_append _).symm hstore hg.posix hfront fun sa₁ h => Option.some.inj h ▸ hraw
  obtain ⟨s', hrun, -, hcons, hend⟩ := hfin
  obtain ⟨u₁, u', hpush', hrun', -, hcons', hend'⟩ := winRaise_dispatches {} hch
    dec' huu (init_ready u) (Int.ne_of_gt hlow) (hcode.trans_ne (Int.ne_of_gt hlow))
    (hcode.symm ▸ hg.windows) none none
  rw [List.nil_append] at hcons
  rw [hcode, hs.windows] at hcons' hend'
  refine ⟨s₁, s', u₁, u', _, _, hpush, hrun, hpush', hrun', hcons, hcons', rfl, hasked, ?_, ?_, ?_⟩
  · rw [verdict_upTo]
    exact hend
  · rw [verdict_upTo]
    exact hend'
  · exact hs.verdict hdec hasked

theorem backends_agree_through :
    ∃ s s' : GuardState, ∃ u u' : WinState,
      Run (guardStep .tiny) (fun _ _ => True) (.initial true oneDecider) s ∧
      Run (winStep .headers) (fun _ _ => True) (.initial oneDecider) u ∧
      SameStack s u [(1, 1), (0, 0)] ∧ s'.consulted = [.frame 1, .frame 0, .global 0] ∧
      List.Forall₂ (SameConsulted [(1, 1), (0, 0)] [(0, 0)]) s'.consulted u'.consulted := by
  obtain ⟨s, hr, hu, hstand, hg, hcons, ⟨f₁, hf₁, hd₁, hrec₁, hset₁⟩, f₀, hf₀, hd₀, hrec₀, hset₀⟩ :
      ∃ s, Run (guardStep .tiny) (fun _ _ => True) (.initial true oneDecider) s ∧
        s.userCode = true ∧ standing s.infos s.calls = [1, 0] ∧ s.g = oneDecider ∧
        s.consulted = [] ∧ (∃ f, s.frames 1 = some f ∧ f.decider = 5 ∧ f.recovery = false ∧
          f.guarded = (· == 1)) ∧ ∃ f, s.frames 0 = some f ∧ f.decider = 4 ∧ f.recovery = true ∧
          f.guarded = (· == 1) :=
    ⟨_, .tail (.sigguarded (· == 1) false 5 8 {}) (.tail (.sigguarded (· == 1) true 4 7 {})
      (.refl _) trivial rfl) trivial rfl, rfl, rfl, rfl, rfl, ⟨_, rfl, rfl, rfl, rfl⟩,
      ⟨_, rfl, rfl, rfl, rfl⟩⟩
  obtain ⟨u, hr', hu', htries, hg', hcons', ⟨gs₁, hgs₁, he₁, hrec₁', hset₁'⟩, gs₀, hgs₀, he₀,
      hrec₀', hset₀'⟩ :
      ∃ u, Run (winStep .headers) (fun _ _ => True) (.initial oneDecider) u ∧
        u.userCode = true ∧ u.tries = [1, 0] ∧ u.g = oneDecider ∧
        u.consulted = [] ∧ (∃ gs, u.guards 1 = some gs ∧ gs.decider = 5 ∧ gs.recovery = false ∧
          gs.guarded = (· == 1)) ∧ ∃ gs, u.guards 0 = some gs ∧ gs.decider = 4 ∧
          gs.recovery = true ∧ gs.guarded = (· == 1) :=
    ⟨_, .tail (.sigguarded (· == 1) false 5 8 {}) (.tail (.sigguarded (· == 1) true 4 7 {})
      (.refl _) trivial rfl) trivial rfl, rfl, rfl, rfl, rfl, ⟨_, rfl, rfl, rfl, rfl⟩,
      ⟨_, rfl, rfl, rfl, rfl⟩⟩
  have hsame : SameStack s u [(1, 1), (0, 0)] := by
    refine ⟨show s.Stands [1, 0] from hstand ▸ guards_stand hr, htries, fun a b hab => ?_⟩
    rcases List.mem_cons.mp hab with hab | hab
    · obtain ⟨rfl, rfl⟩ := Prod.mk.inj hab
      exact ⟨f₁, gs₁, hf₁, hgs₁, hd₁.trans he₁.symm, hrec₁.trans hrec₁'.symm, fun signo _ _ => by
        rw [hset₁, hset₁']⟩
    · obtain ⟨rfl, rfl⟩ := Prod.mk.inj (List.mem_singleton.mp hab)
      exact ⟨f₀, gs₀, hf₀, hgs₀, hd₀.trans he₀.symm, hrec₀.trans hrec₀'.symm, fun signo _ _ => by
        rw [hset₀, hset₀']⟩
  have hlisted : Listed oneDecider 1 (some .dfl) [0] := oneDecider_listed rfl rfl rfl
  have hdeciders : SameDeciders s.g u.g 1 .dfl .dfl [(0, 0)] := by
    rw [hg, hg']
    refine ⟨hlisted, hlisted, fun n n' hm => ?_⟩
    obtain ⟨rfl, rfl⟩ := Prod.mk.inj (List.mem_singleton.mp hm)
    rfl
  -- the decisions of the one program are the same on both
  have hdec : ∀ c c', SameConsulted [(1, 1), (0, 0)] [(0, 0)] c c' →
      passingOn c = passingOn c' := by
    intro c c' h
    cases c with
    | frame a =>
      cases c' with
      | frame b =>
        have hab : a = b := by
          rcases List.mem_cons.mp h with h | h
          · exact (Prod.mk.inj h).1.trans (Prod.mk.inj h).2.symm
          · have h := Prod.mk.inj (List.mem_singleton.mp h)
            exact h.1.trans h.2.symm
        rw [hab]
      | global => exact h.elim
    | global =>
      cases c' with
      | frame => exact h.elim
      | global => rfl
  have hcand : candidates s.guardSet 1 [1, 0] [0] = [.frame 1, .frame 0, .global 0] := by
    simp [candidates, GuardState.guardSet, hf₁, hset₁, hf₀, hset₀]
  have h₁ : claims s.recovers passingOn (.frame 1) = false := by
    simp [claims, passingOn, GuardState.recovers, hf₁, hrec₁]
  have h₀ : claims s.recovers passingOn (.frame 0) = false := by simp [claims, passingOn]
  obtain ⟨s₁, s', u₁, u', asked, asked', -, -, -, -, hasked, hasked', hall, hsame', -⟩ :=
    backends_agree .tiny .headers passingOn passingOn hr' hu hu' hsame hdeciders (by decide)
      (by decide) (by decide) (by decide) hdec
  rw [show [(1, 1), (0, 0)].map Prod.fst = [1, 0] from rfl,
    show [(0, 0)].map Prod.fst = [0] from rfl, hcand, upTo_miss h₁, upTo_miss h₀] at hall
  refine ⟨s, s', u, u', hr, hr', hsame, ?_, ?_⟩
  · rw [hasked, hcons, hall]
    rfl
  · rwa [hasked, hasked', hcons, hcons']

end Wg14Signals
