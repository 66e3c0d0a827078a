import Wg14Signals.LockUnlock

namespace Wg14Signals.Spin
open Lib

variable {τ σ ω : Type} [DecidableEq τ] {ndebug : Bool} {s s' : Spin τ σ ω} {h : Held τ σ ω}
  {act : SpinAct τ σ ω} {acts : List (SpinAct τ σ ω)} {t u : τ} {pc : SpinPc σ ω}
  {rest : List (SectionStep σ ω)}

theorem goTo_same : (s.goTo t pc).pc t = pc := by
  simp only [goTo, Function.update_self]

theorem goTo_other (hne : u ≠ t) : (s.goTo t pc).pc u = s.pc u := by
  simp only [goTo, Function.update_of_ne hne]

/-- All a step can do. -/
inductive Stepped (s : Spin τ σ ω) : SpinAct τ σ ω → Spin τ σ ω → Prop where
  | begin {t : τ} (steps : List (SectionStep σ ω)) (pc : s.pc t = .idle) :
    Stepped s (.begin t steps) (s.goTo t (.load steps))
  | busy {t : τ} {steps : List (SectionStep σ ω)} (pc : s.pc t = .load steps)
    (taken : s.word ≠ 0) : Stepped s (.load t) s
  | load {t : τ} {steps : List (SectionStep σ ω)} (pc : s.pc t = .load steps) (free : s.word = 0) :
    Stepped s (.load t) (s.goTo t (.swap steps))
  | acquire {t : τ} {steps : List (SectionStep σ ω)} (pc : s.pc t = .swap steps)
    (free : s.word = 0) : Stepped s (.swap t false) ({ s with word := 1 }.goTo t (.within steps))
  | retry {t : τ} {steps : List (SectionStep σ ω)} {spurious : Bool} (pc : s.pc t = .swap steps)
    (failed : s.word = 0 → spurious = true) : Stepped s (.swap t spurious) (s.goTo t (.load steps))
  | work {t : τ} {f : SectionStep σ ω} {rest : List (SectionStep σ ω)}
    (pc : s.pc t = .within (f :: rest)) :
    Stepped s (.work t) ({ s with
      shared := (f (s.shared, s.own t)).1
      own := Function.update s.own t (f (s.shared, s.own t)).2 }.goTo t (.within rest))
  | unlock {t : τ} (pc : s.pc t = .within []) :
    Stepped s (.unlock t) ({ s with word := 0 }.goTo t .idle)
  | outside {t : τ} (f : ω → ω) (pc : s.pc t = .idle) :
    Stepped s (.outside t f) { s with own := Function.update s.own t (f (s.own t)) }

theorem step_cases (hstep : s.step ndebug act = .ok s') : Stepped s act s' := by
  cases act with
  | begin t steps =>
    cases hpc : s.pc t with
    | idle =>
      simp only [step, hpc, Except.ok.injEq] at hstep
      exact hstep ▸ .begin steps hpc
    | _ => simp [step, hpc] at hstep
  | load t =>
    cases hpc : s.pc t with
    | load steps =>
      simp only [step, hpc, Except.ok.injEq] at hstep
      subst hstep
      split
      · exact .busy hpc ‹_›
      · exact .load hpc (not_not.mp ‹_›)
    | _ => simp [step, hpc] at hstep
  | swap t spurious =>
    cases hpc : s.pc t with
    | swap steps =>
      simp only [step, hpc, compareExchangeWeak, Except.ok.injEq] at hstep
      subst hstep
      split
      · obtain ⟨h0, rfl⟩ : s.word = 0 ∧ spurious = false := ‹_›
        exact .acquire hpc h0
      · rename_i hfail
        exact .retry hpc fun h0 => Bool.eq_true_of_not_eq_false fun hf => hfail ⟨h0, hf⟩
    | _ => simp [step, hpc] at hstep
  | work t =>
    cases hpc : s.pc t with
    | within rest =>
      cases rest with
      | nil => simp [step, hpc] at hstep
      | cons f rest =>
        simp only [step, hpc, Except.ok.injEq] at hstep
        exact hstep ▸ .work hpc
    | _ => simp [step, hpc] at hstep
  | unlock t =>
    cases hpc : s.pc t with
    | within rest =>
      cases rest with
      | cons f rest => simp [step, hpc] at hstep
      | nil =>
        obtain rfl : { s with word := 0 }.goTo t .idle = s' := by
          simp only [step, hpc, atomicExchange] at hstep
          grind
        exact .unlock hpc
    | _ => simp [step, hpc] at hstep
  | outside t f =>
    cases hpc : s.pc t with
    | idle =>
      simp only [step, hpc, Except.ok.injEq] at hstep
      exact hstep ▸ .outside f hpc
    | _ => simp [step, hpc] at hstep

/-- What the others do, a thread does not see in where it is. -/
theorem Stepped.other (hstep : Stepped s act s') (hne : t ≠ act.thread) : s'.pc t = s.pc t := by
  cases hstep with
  | busy => rfl
  | outside => rfl
  | _ => exact goTo_other hne

/-- What the word and the threads show of who is in a section. -/
structure Shows (s : Spin τ σ ω) (h : Held τ σ ω) : Prop where
  whole : s.toWhole = h.toWhole
  within : ∀ t rest, s.pc t = .within rest ↔ h.holder = some (t, rest)
  word : s.word = if h.holder.isSome then 1 else 0

omit [DecidableEq τ] in
theorem Shows.not_holder (hs : Shows s h) (hn : ∀ rest, s.pc t ≠ .within rest) :
    h.holder.map Prod.fst ≠ some t := by
  intro heq
  obtain ⟨⟨_, rest⟩, hh, rfl⟩ := Option.map_eq_some_iff.mp heq
  exact hn rest ((hs.within _ _).mpr hh)

omit [DecidableEq τ] in
theorem Shows.not_held (hs : Shows s h) (hn : ∀ t rest, s.pc t ≠ .within rest) : h.holder = none := by
  rw [Option.eq_none_iff_forall_not_mem]
  exact fun x hx => hn x.1 x.2 ((hs.within _ _).mpr hx)

omit [DecidableEq τ] in
theorem Shows.one {rest' : List (SectionStep σ ω)} (hs : Shows s h) (ht : s.pc t = .within rest)
    (hu : s.pc u = .within rest') : t = u :=
  congrArg Prod.fst (Option.some.inj (((hs.within _ _).mp ht).symm.trans ((hs.within _ _).mp hu)))

/-- A thread moves on outside of its section. -/
theorem Shows.wait (hs : Shows s h) (hn : ∀ rest, s.pc t ≠ .within rest)
    (hpc : ∀ rest, pc ≠ .within rest) : Shows (s.goTo t pc) h := by
  refine ⟨hs.whole, fun u rest => ?_, hs.word⟩
  by_cases hu : u = t
  · subst hu
    rw [goTo_same]
    exact iff_of_false (hpc rest) fun hh => hn rest ((hs.within _ _).mpr hh)
  · rw [goTo_other hu, hs.within]

/-- A thread gets the lock, and begins its section. -/
theorem Shows.enter (hs : Shows s h) (h0 : s.word = 0) (steps : List (SectionStep σ ω)) :
    ∃ h', h.step (.enter t steps) = some h' ∧ Shows ({ s with word := 1 }.goTo t (.within steps)) h' := by
  obtain ⟨w, holder⟩ := h
  cases holder with
  | some x => exact absurd (hs.word.symm.trans h0) Nat.one_ne_zero
  | none =>
    refine ⟨_, rfl, hs.whole, fun u rest => ?_, rfl⟩
    by_cases hu : u = t
    · subst hu
      rw [goTo_same]
      simp
    · rw [goTo_other hu]
      have hn : s.pc u ≠ .within rest := fun hp => by cases (hs.within u rest).mp hp
      exact iff_of_false hn fun hh => hu (congrArg Prod.fst (Option.some.inj hh)).symm

/-- The holder of the lock takes the next step of its section. -/
theorem Shows.work (hs : Shows s h) {f : SectionStep σ ω} (hpc : s.pc t = .within (f :: rest)) :
    ∃ h', h.step .work = some h' ∧
      Shows ({ s with
        shared := (f (s.shared, s.own t)).1
        own := Function.update s.own t (f (s.shared, s.own t)).2 }.goTo t (.within rest)) h' := by
  obtain ⟨w, holder⟩ := h
  obtain rfl : holder = some (t, f :: rest) := (hs.within _ _).mp hpc
  obtain rfl : s.toWhole = w := hs.whole
  refine ⟨_, rfl, rfl, fun u rest' => ?_, hs.word⟩
  by_cases hu : u = t
  · subst hu
    rw [goTo_same]
    simp
  · rw [goTo_other hu]
    refine iff_of_false (fun hp => ?_) fun hh => hu (congrArg Prod.fst (Option.some.inj hh)).symm
    exact hu (congrArg Prod.fst (Option.some.inj ((hs.within u rest').mp hp))).symm

/-- The holder gives the lock back. -/
theorem Shows.leave (hs : Shows s h) (hpc : s.pc t = .within []) :
    ∃ h', h.step .leave = some h' ∧ Shows ({ s with word := 0 }.goTo t .idle) h' := by
  obtain ⟨w, holder⟩ := h
  obtain rfl : holder = some (t, []) := (hs.within _ _).mp hpc
  refine ⟨_, rfl, hs.whole, fun u rest => ?_, rfl⟩
  refine iff_of_false (fun hp => ?_) fun hh => by cases hh
  by_cases hu : u = t
  · subst hu
    rw [goTo_same] at hp
    cases hp
  · rw [goTo_other hu] at hp
    exact hu (congrArg Prod.fst (Option.some.inj ((hs.within u rest).mp hp))).symm

theorem Shows.outside (hs : Shows s h) (hpc : s.pc t = .idle) (f : ω → ω) :
    ∃ h', h.step (.outside t f) = some h' ∧
      Shows { s with own := Function.update s.own t (f (s.own t)) } h' := by
  have hn := hs.not_holder (t := t) fun rest hp => by cases hpc.symm.trans hp
  obtain ⟨w, holder⟩ := h
  obtain rfl : s.toWhole = w := hs.whole
  exact ⟨_, if_neg hn, rfl, hs.within, hs.word⟩

/-- `UNLOCK` finds the word as it must be. -/
theorem Shows.no_assertion (hs : Shows s h) : s.step ndebug act ≠ .error .assertion := by
  cases act with
  | unlock t =>
    cases hpc : s.pc t with
    | within rest =>
      cases rest with
      | cons f rest => simp [step, hpc]
      | nil =>
        have h1 : s.word = 1 := hs.word.trans (by rw [(hs.within _ _).mp hpc]; rfl)
        simp [step, hpc, atomicExchange, h1]
    | _ => simp [step, hpc]
  | _ =>
    simp only [step]
    split <;> simp

/-- A step is one of threads whose sections are whole, or no step of them at all. -/
theorem Shows.step (hs : Shows s h) (hstep : Stepped s act s') :
    ∃ h', Shows s' h' ∧
      (s.counts act = none ∧ h' = h ∨ ∃ a, h.step a = some h' ∧ s.counts act = a.counts) := by
  have hout : ∀ {t pc}, s.pc t = pc → (∀ rest, pc ≠ .within rest) →
      ∀ rest, s.pc t ≠ .within rest := fun hpc hn rest => hpc ▸ hn rest
  cases hstep with
  | begin steps pc =>
    exact ⟨h, hs.wait (hout pc (by simp)) (by simp), .inl ⟨rfl, rfl⟩⟩
  | busy pc taken => exact ⟨h, hs, .inl ⟨rfl, rfl⟩⟩
  | load pc free =>
    exact ⟨h, hs.wait (hout pc (by simp)) (by simp), .inl ⟨rfl, rfl⟩⟩
  | @acquire t steps pc free =>
    obtain ⟨h', hstep, hs'⟩ := hs.enter (t := t) free steps
    refine ⟨h', hs', .inr ⟨_, hstep, ?_⟩⟩
    simp [counts, pc, compareExchangeWeak, free, HeldAct.counts]
  | @retry t steps spurious pc failed =>
    refine ⟨h, hs.wait (hout pc (by simp)) (by simp), .inl ⟨?_, rfl⟩⟩
    have hfail : ¬(s.word = 0 ∧ spurious = false) := fun h => by simp [failed h.1] at h
    simp [counts, pc, compareExchangeWeak, if_neg hfail]
  | work pc =>
    obtain ⟨h', hstep, hs'⟩ := hs.work pc
    exact ⟨h', hs', .inr ⟨_, hstep, rfl⟩⟩
  | unlock pc =>
    obtain ⟨h', hstep, hs'⟩ := hs.leave pc
    exact ⟨h', hs', .inr ⟨_, hstep, rfl⟩⟩
  | outside f pc =>
    obtain ⟨h', hstep, hs'⟩ := hs.outside pc f
    exact ⟨h', hs', .inr ⟨_, hstep, rfl⟩⟩

omit [DecidableEq τ] in
theorem initial_shows (shared : σ) (own : τ → ω) :
    Shows (initial shared own) ⟨⟨shared, own⟩, none⟩ :=
  ⟨rfl, fun _ _ => iff_of_false (fun hp => by cases hp) (Option.some_ne_none _).symm, rfl⟩

/-- A run is one of whole sections, in the order in which they got the lock. -/
theorem Shows.run (hs : Shows s h) (hrun : acts.foldlM (Spin.step ndebug) s = .ok s') :
    ∃ h', Shows s' h' ∧ h'.complete = WholeAct.performAll h.complete (order ndebug s acts) := by
  induction acts generalizing s h with
  | nil =>
    obtain rfl := pure_ok.mp hrun
    exact ⟨h, hs, rfl⟩
  | cons act acts ih =>
    rw [List.foldlM_cons] at hrun
    obtain ⟨s₁, hstep, hrest⟩ := bind_ok.mp hrun
    obtain ⟨h₁, hs₁, hcase⟩ := hs.step (step_cases hstep)
    obtain ⟨h', hs', hc⟩ := ih hs₁ hrest
    refine ⟨h', hs', ?_⟩
    unfold order
    rw [hstep]
    rcases hcase with ⟨hnone, rfl⟩ | ⟨a, ha, hcounts⟩
    · rw [hnone]
      exact hc
    · rw [hc, Held.complete_step ha, hcounts]
      exact (List.foldl_append ..).symm

omit [DecidableEq τ] in
theorem program_thread {a : WholeAct τ σ ω} (ha : act.program = some a) : a.thread = act.thread := by
  cases act <;> cases ha <;> rfl

omit [DecidableEq τ] in
theorem counts_thread {a : WholeAct τ σ ω} (ha : s.counts act = some a) : a.thread = act.thread := by
  cases act with
  | swap t spurious =>
    simp only [counts] at ha
    split at ha
    · split at ha
      · obtain rfl := Option.some.inj ha
        rfl
      · cases ha
    · cases ha
  | outside t f =>
    obtain rfl := Option.some.inj ha
    rfl
  | _ => cases ha

theorem filter_others {x : Option (WholeAct τ σ ω)} (hx : ∀ a, x = some a → a.thread ≠ t) :
    x.toList.filter (·.thread = t) = [] := by
  cases x with
  | none => rfl
  | some a => simp [hx a rfl]

/-- What a thread does is done in the order of its program. -/
theorem Stepped.in_order (hstep : Stepped s act s') (t : τ) :
    (s.counts act).toList.filter (·.thread = t) ++ s'.pending t =
      s.pending t ++ act.program.toList.filter (·.thread = t) := by
  by_cases ht : t = act.thread
  · subst ht
    cases hstep with
    | begin steps pc => simp [counts, pending, SpinAct.thread, goTo_same, pc, SpinAct.program,
        SpinPc.awaited, WholeAct.thread]
    | busy pc taken => simp [counts, SpinAct.program]
    | load pc free => simp [counts, pending, SpinAct.thread, goTo_same, pc, SpinAct.program, SpinPc.awaited]
    | acquire pc free => simp [counts, pending, SpinAct.thread, goTo_same, pc, SpinAct.program,
        SpinPc.awaited, WholeAct.thread, compareExchangeWeak, free]
    | @retry u steps spurious pc failed =>
      have hfail : ¬(s.word = 0 ∧ spurious = false) := fun h => by simp [failed h.1] at h
      simp [counts, pending, SpinAct.thread, goTo_same, pc, SpinAct.program, SpinPc.awaited,
        compareExchangeWeak, if_neg hfail]
    | work pc => simp [counts, pending, SpinAct.thread, goTo_same, pc, SpinAct.program, SpinPc.awaited]
    | unlock pc => simp [counts, pending, SpinAct.thread, goTo_same, pc, SpinAct.program, SpinPc.awaited]
    | outside f pc => simp [counts, pending, pc, SpinAct.program, SpinPc.awaited, SpinAct.thread]
  · have hcounts := filter_others (x := s.counts act) fun a ha => counts_thread ha ▸ Ne.symm ht
    have hprogram := filter_others (x := act.program) fun a ha => program_thread ha ▸ Ne.symm ht
    rw [hcounts, hprogram, List.append_nil, pending, hstep.other ht]
    rfl

theorem run_in_order (hrun : acts.foldlM (step ndebug) s = .ok s') (t : τ) :
    (order ndebug s acts).filter (·.thread = t) ++ s'.pending t =
      s.pending t ++ (acts.filterMap SpinAct.program).filter (·.thread = t) := by
  induction acts generalizing s with
  | nil =>
    obtain rfl := pure_ok.mp hrun
    exact (List.append_nil _).symm
  | cons act acts ih =>
    rw [List.foldlM_cons] at hrun
    obtain ⟨s₁, hstep, hrest⟩ := bind_ok.mp hrun
    have hone := (step_cases hstep).in_order t
    have hsplit : (act :: acts).filterMap SpinAct.program =
        act.program.toList ++ acts.filterMap SpinAct.program := by
      cases hp : act.program with
      | none => exact List.filterMap_cons_none hp
      | some a => exact List.filterMap_cons_some hp
    unfold order
    rw [hstep, hsplit]
    dsimp only
    rw [List.filter_append, List.filter_append, List.append_assoc, ih hrest, ← List.append_assoc,
      hone, List.append_assoc]

/-- The spinlock makes whole sections of what happens between `LOCK` and `UNLOCK`. Every run
has the effect of performing them one after the other, in the order in which they got the
lock: each thread's in the order of its program, and the one in progress as if it were over.
Two threads are never in one, and the assertion of `UNLOCK` does not fail. -/
theorem locked_is_whole {shared : σ} {own : τ → ω}
    (hrun : acts.foldlM (step ndebug) (initial shared own) = .ok s) :
    (∀ t, (order ndebug (initial shared own) acts).filter (·.thread = t) ++ s.pending t =
      (acts.filterMap SpinAct.program).filter (·.thread = t)) ∧
    (∀ t rest, s.pc t = .within rest →
      WholeAct.perform s.toWhole (.within t rest) =
        WholeAct.performAll ⟨shared, own⟩ (order ndebug (initial shared own) acts)) ∧
    ((∀ t rest, s.pc t ≠ .within rest) →
      s.toWhole = WholeAct.performAll ⟨shared, own⟩ (order ndebug (initial shared own) acts)) ∧
    (∀ t u rest rest', s.pc t = .within rest → s.pc u = .within rest' → t = u) ∧
    ∀ act, s.step ndebug act ≠ .error .assertion := by
  obtain ⟨h, hs, hc⟩ := (initial_shows shared own).run hrun
  change h.complete = WholeAct.performAll ⟨shared, own⟩ _ at hc
  refine ⟨run_in_order hrun, fun t rest hpc => ?_, fun hn => ?_, fun t u rest rest' ht hu => ?_,
    fun act => hs.no_assertion⟩
  · rw [← hc, Held.complete, (hs.within t rest).mp hpc, hs.whole]
  · rw [← hc, Held.complete, hs.not_held hn, hs.whole]
  · exact hs.one ht hu

/-- Two threads, each of which reads a number and then writes one more. -/
def increments : List (SpinAct Bool Nat Nat) :=
  let increment : List (SectionStep Nat Nat) := [fun x => (x.1, x.1), fun x => (x.2 + 1, x.2)]
  [.begin true increment, .load true, .begin false increment, .load false, .swap true false,
    .work true, .swap false false, .load false, .work true, .unlock true, .load false,
    .swap false true, .load false, .swap false false, .work false, .work false, .unlock false]

theorem locked_is_whole_increments :
    ∃ s : Spin Bool Nat Nat, List.foldlM (step false) (initial 0 fun _ => 0) increments = .ok s ∧
      s.shared = 2 ∧ s.toWhole = WholeAct.performAll ⟨0, fun _ => 0⟩
        (order false (initial 0 fun _ => 0) increments) := by
  have hrun : ∃ s : Spin Bool Nat Nat, List.foldlM (step false) (initial 0 fun _ => 0) increments =
      .ok s ∧ s.shared = 2 ∧ s.pc true = .idle ∧ s.pc false = .idle := ⟨_, rfl, rfl, rfl, rfl⟩
  obtain ⟨s, hs, h2, ht, hf⟩ := hrun
  refine ⟨s, hs, h2, (locked_is_whole hs).2.2.1 fun t rest hp => ?_⟩
  cases t with
  | true => cases ht.symm.trans hp
  | false => cases hf.symm.trans hp

variable [Fintype τ]

theorem loading_goTo (t : τ) (pc : SpinPc σ ω) :
    (s.goTo t pc).loading + (s.pc t).isLoad.toNat = s.loading + pc.isLoad.toNat := by
  have hsplit : ∀ s : Spin τ σ ω, s.loading = (s.pc t).isLoad.toNat +
      ((Finset.univ.erase t).filter fun u => (s.pc u).isLoad = true).card := fun s => by
    rw [loading, ← Finset.insert_erase (Finset.mem_univ t), Finset.filter_insert]
    cases hpc : (s.pc t).isLoad with
    | true => simp [Nat.add_comm]
    | false => simp
  have hrest : (Finset.univ.erase t).filter (fun u => ((s.goTo t pc).pc u).isLoad = true) =
      (Finset.univ.erase t).filter fun u => (s.pc u).isLoad = true := by
    apply Finset.filter_congr
    intro u hu
    rw [goTo_other (Finset.ne_of_mem_erase hu)]
  rw [hsplit (s.goTo t pc), hsplit s, hrest, goTo_same]
  omega

/-- While nobody is in a section, every access in the loop of `LOCK` brings one nearer, but for
those that fail spuriously. -/
theorem Stepped.nearer (hstep : Stepped s act s') (h0 : s.word = 0)
    (hfree : ∀ t rest, s.pc t ≠ .within rest) :
    (∃ t rest, s'.pc t = .within rest) ∨ s'.word = 0 ∧ (∀ t rest, s'.pc t ≠ .within rest) ∧
      s'.loading + act.isSpin.toNat ≤ s.loading + act.isBegin.toNat + 2 * act.isSpurious.toNat := by
  have hout : ∀ t pc, (∀ rest, pc ≠ SpinPc.within rest) → ∀ u rest, (s.goTo t pc).pc u ≠ .within rest := by
    intro t pc hpc u rest
    by_cases hu : u = t
    · subst hu
      rw [goTo_same]
      exact hpc rest
    · rw [goTo_other hu]
      exact hfree u rest
  have hcount : ∀ {t pc} {before : SpinPc σ ω}, s.pc t = before →
      (s.goTo t pc).loading + before.isLoad.toNat = s.loading + pc.isLoad.toNat :=
    fun hpc => hpc ▸ loading_goTo _ _
  cases hstep with
  | @begin t steps pc =>
    refine .inr ⟨h0, hout t _ fun rest hp => (by cases hp), ?_⟩
    exact (hcount pc).le
  | busy pc taken => exact absurd h0 taken
  | @load t steps pc free =>
    refine .inr ⟨h0, hout t _ fun rest hp => (by cases hp), ?_⟩
    exact (hcount pc).le
  | @acquire t steps pc free => exact .inl ⟨t, steps, goTo_same⟩
  | @retry t steps spurious pc failed =>
    obtain rfl := failed h0
    refine .inr ⟨h0, hout t _ fun rest hp => (by cases hp), ?_⟩
    exact Nat.succ_le_succ (hcount pc).le
  | work pc => exact absurd pc (hfree _ _)
  | unlock pc => exact absurd pc (hfree _ _)
  | outside f pc => exact .inr ⟨h0, hfree, Nat.le_refl _⟩

omit [Fintype τ] in
/-- Whoever has the lock gives it back with as many steps as are left to do, and one. -/
theorem run_gives_back (hs : Shows s h) (hpc : s.pc t = .within rest)
    (hrun : acts.foldlM (step ndebug) s = .ok s')
    (hlong : rest.length < acts.countP (fun act => act.thread = t)) :
    ∃ pre post u, acts = pre ++ post ∧ pre.foldlM (step ndebug) s = .ok u ∧ u.pc t = .idle ∧
      u.word = 0 := by
  induction acts generalizing s h rest with
  | nil => exact absurd hlong (Nat.not_lt_zero _)
  | cons act acts ih =>
    rw [List.foldlM_cons] at hrun
    obtain ⟨s₁, hstep, hrest⟩ := bind_ok.mp hrun
    have hone := step_cases hstep
    obtain ⟨h₁, hs₁, -⟩ := hs.step hone
    have hcons : ∀ {rest'}, s₁.pc t = .within rest' →
        rest'.length < acts.countP (fun act => act.thread = t) →
        ∃ pre post u, act :: acts = pre ++ post ∧ pre.foldlM (step ndebug) s = .ok u ∧
          u.pc t = .idle ∧ u.word = 0 := by
      intro rest' hpc' hlong'
      obtain ⟨pre, post, u, rfl, hpre, hu⟩ := ih hs₁ hpc' hrest hlong'
      refine ⟨act :: pre, post, u, rfl, ?_, hu⟩
      rw [List.foldlM_cons]
      exact bind_ok.mpr ⟨s₁, hstep, hpre⟩
    by_cases ht : act.thread = t
    · subst ht
      rw [List.countP_cons_of_pos (by simp)] at hlong
      cases hone with
      | @work t f rest' pc =>
        obtain rfl := SpinPc.within.inj (hpc.symm.trans pc)
        exact hcons goTo_same (Nat.lt_of_succ_lt_succ hlong)
      | @unlock t pc =>
        exact ⟨[_], acts, _, rfl, bind_ok.mpr ⟨_, hstep, rfl⟩, goTo_same, rfl⟩
      | begin steps pc => cases hpc.symm.trans pc
      | outside f pc => cases hpc.symm.trans pc
      | _ pc => cases hpc.symm.trans pc
    · rw [List.countP_cons_of_neg (by simpa using ht)] at hlong
      exact hcons ((hone.other (Ne.symm ht)).trans hpc) hlong

/-- Where nobody is in a section, somebody gets in before long. -/
theorem run_gets_in (h0 : s.word = 0) (hfree : ∀ t rest, s.pc t ≠ .within rest)
    (hrun : acts.foldlM (step ndebug) s = .ok s')
    (hlong : s.loading + acts.countP SpinAct.isBegin + 2 * acts.countP SpinAct.isSpurious <
      acts.countP SpinAct.isSpin) :
    ∃ pre post u t rest, acts = pre ++ post ∧ pre.foldlM (step ndebug) s = .ok u ∧
      u.pc t = .within rest := by
  induction acts generalizing s with
  | nil => exact absurd hlong (Nat.not_lt_zero _)
  | cons act acts ih =>
    rw [List.foldlM_cons] at hrun
    obtain ⟨s₁, hstep, hrest⟩ := bind_ok.mp hrun
    rcases (step_cases hstep).nearer h0 hfree with ⟨t, rest, ht⟩ | ⟨h0', hfree', hle⟩
    · exact ⟨[act], acts, s₁, t, rest, rfl, bind_ok.mpr ⟨s₁, hstep, rfl⟩, ht⟩
    · have hcount : ∀ q : SpinAct τ σ ω → Bool,
          (act :: acts).countP q = acts.countP q + (q act).toNat := fun q => by
        rw [List.countP_cons]
        cases q act <;> rfl
      simp only [hcount] at hlong
      obtain ⟨pre, post, u, t, rest, rfl, hpre, ht⟩ := ih h0' hfree' hrest (by omega)
      refine ⟨act :: pre, post, u, t, rest, rfl, ?_, ht⟩
      rw [List.foldlM_cons]
      exact bind_ok.mpr ⟨s₁, hstep, hpre⟩

omit [Fintype τ] in
/-- A thread that stands still stays where it is. -/
theorem run_still (hrun : acts.foldlM (step ndebug) s = .ok s')
    (hstill : ∀ act ∈ acts, act.thread ≠ t) : s'.pc t = s.pc t := by
  induction acts generalizing s with
  | nil => exact congrArg (fun u => u.pc t) (pure_ok.mp hrun).symm
  | cons act acts ih =>
    rw [List.foldlM_cons] at hrun
    obtain ⟨s₁, hstep, hrest⟩ := bind_ok.mp hrun
    have hne := hstill act List.mem_cons_self
    rw [ih hrest fun a ha => hstill a (List.mem_cons_of_mem act ha)]
    exact (step_cases hstep).other hne.symm

/-- A thread that has the lock and stands still, as one does that a signal handler has
interrupted, keeps all others out. It gives the lock back with as many steps as its section has
left, and one. Where nobody has the lock, no thread that stands still keeps the others out:
somebody gets it before the loops of `LOCK` have made more accesses than there are threads
about to read the word or coming to it, and two more for each spurious failure. -/
theorem lock_progresses (hr : Reached ndebug s)
    (hrun : acts.foldlM (step ndebug) s = .ok s') :
    (∀ t rest, s.pc t = .within rest → (∀ act ∈ acts, act.thread ≠ t) →
      ∀ u rest', s'.pc u = .within rest' → u = t) ∧
    (∀ t rest, s.pc t = .within rest → rest.length < acts.countP (fun act => act.thread = t) →
      ∃ pre post u, acts = pre ++ post ∧ pre.foldlM (step ndebug) s = .ok u ∧ u.pc t = .idle ∧
        u.word = 0) ∧
    ((∀ t rest, s.pc t ≠ .within rest) →
      s.loading + acts.countP SpinAct.isBegin + 2 * acts.countP SpinAct.isSpurious <
        acts.countP SpinAct.isSpin →
      ∃ pre post u t rest, acts = pre ++ post ∧ pre.foldlM (step ndebug) s = .ok u ∧
        u.pc t = .within rest) := by
  obtain ⟨shared, own, before, hbefore⟩ := hr
  obtain ⟨h, hs, -⟩ := (initial_shows shared own).run hbefore
  refine ⟨fun t rest hpc hstill u rest' hu => ?_,
    fun t rest hpc hlong => run_gives_back hs hpc hrun hlong, fun hfree hlong => ?_⟩
  · obtain ⟨h', hs', -⟩ := hs.run hrun
    have ht := (run_still hrun hstill).trans hpc
    exact hs'.one hu ht
  have h0 : s.word = 0 := hs.word.trans (by rw [hs.not_held hfree]; rfl)
  exact run_gets_in h0 hfree hrun hlong

theorem lock_progresses_increments :
    ∃ s s' : Spin Bool Nat Nat, List.foldlM (step false) (initial 0 fun _ => 0) (increments.take 4) =
        .ok s ∧ List.foldlM (step false) s [.swap true true, .load true, .swap false false] = .ok s' ∧
      ∃ pre post u t rest, [.swap true true, .load true, .swap false false] = pre ++ post ∧
        List.foldlM (step false) s pre = .ok u ∧ u.pc t = .within rest := by
  have hrun : ∃ s s' : Spin Bool Nat Nat,
      List.foldlM (step false) (initial 0 fun _ => 0) (increments.take 4) = .ok s ∧
      List.foldlM (step false) s [.swap true true, .load true, .swap false false] = .ok s' ∧
      (∃ steps, s.pc true = .swap steps) ∧ ∃ steps, s.pc false = .swap steps :=
    ⟨_, _, rfl, rfl, ⟨_, rfl⟩, ⟨_, rfl⟩⟩
  obtain ⟨s, s', hs, hs', ⟨_, ht⟩, ⟨_, hf⟩⟩ := hrun
  have hpc : ∀ t, ∃ steps, s.pc t = .swap steps := fun t => by
    cases t with
    | true => exact ⟨_, ht⟩
    | false => exact ⟨_, hf⟩
  refine ⟨s, s', hs, hs', (lock_progresses ⟨0, fun _ => 0, _, hs⟩ hs').2.2 (fun t rest hp => ?_) ?_⟩
  · obtain ⟨steps, hq⟩ := hpc t
    cases hp.symm.trans hq
  · have h0 : s.loading = 0 := by
      apply Finset.card_eq_zero.mpr
      apply Finset.filter_false_of_mem
      intro t _ hload
      obtain ⟨steps, hq⟩ := hpc t
      rw [hq] at hload
      cases hload
    rw [h0]
    decide

end Wg14Signals.Spin
