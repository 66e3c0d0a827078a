import Wg14Signals.MapGate

namespace Wg14Signals
open Lib

/-- The life of the gate, with the one call that ever wins the exchange. -/
inductive GateStage where
  | untouched
  | initialising (w : Nat)
  | initialised (w : Nat)
  | published

/-- Calls that won the exchange and have not yet published the table. -/
def GatePc.won (pc : GatePc) : Prop := pc = .init ∨ pc = .store

/-- A gate that has reached a stage. -/
def GateStage.holds : GateStage → Gate → Prop
  | .untouched, s =>
    s.mapInited = 0 ∧ s.inits = 0 ∧ ∀ c, s.calls c = .load ∨ s.calls c = .compareExchange
  | .initialising w, s =>
    s.mapInited = 1 ∧ s.inits = 0 ∧ s.calls w = .init ∧ ∀ c, c ≠ w → ¬ (s.calls c).won
  | .initialised w, s =>
    s.mapInited = 1 ∧ s.inits = 1 ∧ s.table = .init ∧ s.calls w = .store ∧
      ∀ c, c ≠ w → ¬ (s.calls c).won
  | .published, s =>
    s.mapInited = 2 ∧ s.inits = 1 ∧ s.table = .init ∧ ∀ c, ¬ (s.calls c).won

theorem gate_untouched_initial : GateStage.untouched.holds .initial :=
  ⟨rfl, rfl, fun _ => .inl rfl⟩

/-- What one operation of a call can do. -/
inductive GateMove (s : Gate) (c : Nat) : Gate → Prop where
  | finds_untouched (at_pc : s.calls c = .load) (seen : s.mapInited = 0) :
      GateMove s c (s.goto c .compareExchange)
  | passes (at_pc : s.calls c = .load) (seen : s.mapInited ≠ 0) : GateMove s c (s.goto c .returned)
  | wins (at_pc : s.calls c = .compareExchange) (seen : s.mapInited = 0) :
      GateMove s c ({ s with mapInited := 1 }.goto c .init)
  | loses (at_pc : s.calls c = .compareExchange) (seen : s.mapInited ≠ 0) :
      GateMove s c (s.goto c .spin)
  | waits (at_pc : s.calls c = .spin) : GateMove s c s
  | leaves (at_pc : s.calls c = .spin) (seen : s.mapInited = 2) : GateMove s c (s.goto c .returned)
  | initialises (at_pc : s.calls c = .init) :
      GateMove s c ({ s with table := .init, inits := s.inits + 1 }.goto c .store)
  | publishes (at_pc : s.calls c = .store) :
      GateMove s c ({ s with mapInited := 2 }.goto c .returned)

variable {s s' : Gate} {c w : Nat} {st : GateStage} {pc : GatePc}

theorem sigGlobalState_moves (h : sigGlobalState s c = .ok s') : GateMove s c s' := by
  unfold sigGlobalState at h
  split at h
  · rename_i hpc
    by_cases hm : s.mapInited = 0
    · simp only [hm, if_true] at h
      cases h
      exact .finds_untouched hpc hm
    · simp only [hm, if_false] at h
      cases h
      exact .passes hpc hm
  · rename_i hpc
    split at h
    · cases h
      exact .wins hpc ‹_›
    · cases h
      exact .loses hpc ‹_›
  · rename_i hpc
    by_cases hm : s.mapInited = 2
    · simp only [hm, if_true] at h
      cases h
      exact .leaves hpc hm
    · simp only [hm, if_false] at h
      cases h
      exact .waits hpc
  · cases h
    exact .initialises ‹_›
  · cases h
    exact .publishes ‹_›
  · cases h

/-- Once somebody has won, moving a call that is not the winner to an operation that is
not the winner's leaves the stage as it is. -/
theorem GateStage.holds.goto (hs : st.holds s) (hm : s.mapInited ≠ 0)
    (hc : ¬ (s.calls c).won) (hp : ¬ pc.won) : st.holds (s.goto c pc) := by
  have others : ∀ w, (∀ d, d ≠ w → ¬ (s.calls d).won) →
      ∀ d, d ≠ w → ¬ ((s.goto c pc).calls d).won := by
    intro w h d hd
    simp only [Gate.goto_calls]
    split
    · exact hp
    · exact h d hd
  cases st with
  | untouched => exact absurd hs.1 hm
  | initialising w =>
    obtain ⟨h1, h2, h3, h4⟩ := hs
    have hw : w ≠ c := fun e => hc (e ▸ .inl h3)
    exact ⟨h1, h2, by simp [hw, h3], others w h4⟩
  | initialised w =>
    obtain ⟨h1, h2, h3, h4, h5⟩ := hs
    have hw : w ≠ c := fun e => hc (e ▸ .inr h4)
    exact ⟨h1, h2, h3, by simp [hw, h4], others w h5⟩
  | published =>
    obtain ⟨h1, h2, h3, h4⟩ := hs
    refine ⟨h1, h2, h3, fun d => ?_⟩
    simp only [Gate.goto_calls]
    split
    · exact hp
    · exact h4 d

/-- A call that has won is the winner of the stage. -/
theorem GateStage.holds.winner (hs : st.holds s) (hc : (s.calls c).won) :
    (st = .initialising c ∧ s.calls c = .init) ∨ (st = .initialised c ∧ s.calls c = .store) := by
  cases st with
  | untouched =>
    obtain ⟨-, -, h⟩ := hs
    rcases h c with h | h <;> rcases hc with hc | hc <;> simp [h] at hc
  | initialising w =>
    obtain ⟨-, -, h3, h4⟩ := hs
    obtain rfl : c = w := by_contra fun e => h4 c e hc
    exact .inl ⟨rfl, h3⟩
  | initialised w =>
    obtain ⟨-, -, -, h4, h5⟩ := hs
    obtain rfl : c = w := by_contra fun e => h5 c e hc
    exact .inr ⟨rfl, h4⟩
  | published => exact absurd hc (hs.2.2.2 c)

/-- Every operation keeps the gate in its stage or takes it to the next one. -/
theorem GateStage.holds.step (hs : st.holds s) (hm : GateMove s c s') :
    ∃ st' : GateStage, st'.holds s' := by
  have calm : ∀ {pc : GatePc}, s.calls c = pc → pc ≠ .init → pc ≠ .store →
      ¬ (s.calls c).won := by
    rintro pc rfl h1 h2 (h | h)
    · exact h1 h
    · exact h2 h
  cases hm with
  | finds_untouched hpc h0 =>
    cases st with
    | untouched =>
      obtain ⟨h1, h2, h3⟩ := hs
      refine ⟨.untouched, h1, h2, fun d => ?_⟩
      simp only [Gate.goto_calls]
      split
      · exact .inr rfl
      · exact h3 d
    | initialising w => simp [hs.1] at h0
    | initialised w => simp [hs.1] at h0
    | published => simp [hs.1] at h0
  | passes hpc h0 => exact ⟨st, hs.goto h0 (calm hpc (by simp) (by simp)) (by simp [GatePc.won])⟩
  | wins hpc h0 =>
    cases st with
    | untouched =>
      obtain ⟨h1, h2, h3⟩ := hs
      refine ⟨.initialising c, rfl, h2, by simp, fun d hd => ?_⟩
      simp only [Gate.goto_calls, if_neg hd]
      rcases h3 d with h | h <;> simp [h, GatePc.won]
    | initialising w => simp [hs.1] at h0
    | initialised w => simp [hs.1] at h0
    | published => simp [hs.1] at h0
  | loses hpc h0 => exact ⟨st, hs.goto h0 (calm hpc (by simp) (by simp)) (by simp [GatePc.won])⟩
  | waits hpc => exact ⟨st, hs⟩
  | leaves hpc h2 =>
    exact ⟨st, hs.goto (by simp [h2]) (calm hpc (by simp) (by simp)) (by simp [GatePc.won])⟩
  | initialises hpc =>
    rcases hs.winner (.inl hpc) with ⟨rfl, -⟩ | ⟨-, h⟩
    · obtain ⟨h1, h2, -, h4⟩ := hs
      refine ⟨.initialised c, h1, by simp [h2], rfl, by simp, fun d hd => ?_⟩
      simpa [hd] using h4 d hd
    · simp [hpc] at h
  | publishes hpc =>
    rcases hs.winner (.inr hpc) with ⟨-, h⟩ | ⟨rfl, -⟩
    · simp [hpc] at h
    · obtain ⟨-, h2, h3, -, h5⟩ := hs
      refine ⟨.published, rfl, h2, h3, fun d => ?_⟩
      simp only [Gate.goto_calls]
      split
      · simp [GatePc.won]
      · exact h5 d ‹_›

/-- The table is initialised at most once, whatever the calls do. -/
theorem GateStage.holds.inits_le (hs : st.holds s) : s.inits ≤ 1 := by
  cases st with
  | untouched => simp [hs.2.1]
  | initialising w => simp [hs.2.1]
  | initialised w => simp [hs.2.1]
  | published => simp [hs.2.1]

/-- The gate is open early only while its winner initialises the table. -/
theorem GateStage.holds.ready (hs : st.holds s) (hm : s.mapInited ≠ 0)
    (hi : s.mapInited = 1 → 0 < s.inits) : s.inits = 1 ∧ s.table = .init := by
  cases st with
  | untouched => exact absurd hs.1 hm
  | initialising w => simp [hs.1, hs.2.1] at hi
  | initialised w => exact ⟨hs.2.1, hs.2.2.1⟩
  | published => exact ⟨hs.2.1, hs.2.2.1⟩

/-- Calls return to an initialised table. -/
structure GateInv (s : Gate) : Prop where
  stage : ∃ st : GateStage, st.holds s
  returned : ∀ c, s.calls c = .returned → s.inits = 1 ∧ s.table = .init

theorem GateInv.initial : GateInv .initial :=
  ⟨⟨.untouched, gate_untouched_initial⟩, by simp [Gate.initial]⟩

/-- The call that an operation brings to its return finds the table initialised. -/
theorem returns_ready (hs : st.holds s) (hk : LoadsOutsideInit s c) (hm : GateMove s c s')
    (hr : s'.calls c = .returned) (hn : s.calls c ≠ .returned) :
    s'.inits = 1 ∧ s'.table = .init := by
  cases hm with
  | passes hpc h0 => exact hs.ready h0 (hk hpc)
  | leaves hpc h2 =>
    cases st with
    | untouched => simp [hs.1] at h2
    | initialising w => simp [hs.1] at h2
    | initialised w => simp [hs.1] at h2
    | published => exact ⟨hs.2.1, hs.2.2.1⟩
  | publishes hpc =>
    rcases hs.winner (.inr hpc) with ⟨-, h⟩ | ⟨rfl, -⟩
    · simp [hpc] at h
    · exact ⟨hs.2.1, hs.2.2.1⟩
  | waits => exact absurd hr hn
  | finds_untouched | wins | loses | initialises => simp at hr

/-- A table once initialised stays so. -/
theorem GateMove.keeps_table (hm : GateMove s c s') (hs : st.holds s)
    (hi : s.inits = 1 ∧ s.table = .init) : s'.inits = 1 ∧ s'.table = .init := by
  cases hm with
  | initialises hpc =>
    rcases hs.winner (.inl hpc) with ⟨rfl, -⟩ | ⟨-, h⟩
    · simp [hs.2.1] at hi
    · simp [hpc] at h
  | waits | finds_untouched | passes | wins | loses | leaves | publishes => exact hi

theorem GateMove.others (hm : GateMove s c s') {d : Nat} (hd : d ≠ c) :
    s'.calls d = s.calls d := by
  cases hm <;> simp [hd]

theorem GateInv.step (hi : GateInv s) (hk : LoadsOutsideInit s c)
    (h : sigGlobalState s c = .ok s') : GateInv s' := by
  obtain ⟨⟨st, hs⟩, hret⟩ := hi
  have hm := sigGlobalState_moves h
  refine ⟨hs.step hm, fun d hd => ?_⟩
  by_cases hc : d = c
  · subst hc
    by_cases hn : s.calls d = .returned
    · simp [sigGlobalState, hn] at h
    · exact returns_ready hs hk hm hd hn
  · rw [hm.others hc] at hd
    exact hm.keeps_table hs (hret d hd)

/-- The initialisation is executed at most once, and has been executed when a call
returns, provided no call makes its first load while it is under way. -/
theorem map_initialised_once (hr : Run sigGlobalState LoadsOutsideInit .initial s) :
    s.inits ≤ 1 ∧ ∀ c, s.calls c = .returned → s.inits = 1 ∧ s.table = .init := by
  have hi : GateInv s := hr.invariant .initial fun _ _ _ hi hk h => hi.step hk h
  obtain ⟨⟨st, hs⟩, hret⟩ := hi
  exact ⟨hs.inits_le, hret⟩

/-- Three calls return: the one that initialises, one that waits for it, and one that
comes between the initialisation and its publication. -/
theorem map_initialised_once_three :
    ∃ s, Run sigGlobalState LoadsOutsideInit .initial s ∧
      s.calls 0 = .returned ∧ s.calls 1 = .returned ∧ s.calls 2 = .returned ∧ s.inits = 1 := by
  obtain ⟨s, hr, hq⟩ := run_of_ends (f := sigGlobalState) (r := LoadsOutsideInit)
    (s := .initial) (c := fun s c => LoadsOutsideInit s c)
    (q := fun s => s.calls 0 == .returned && s.calls 1 == .returned && s.calls 2 == .returned)
    (l := [0, 1, 0, 1, 0, 2, 1, 0, 1]) (fun _ _ h => of_decide_eq_true h) (by decide)
  simp only [Bool.and_eq_true, beq_iff_eq] at hq
  obtain ⟨⟨h0, h1⟩, h2⟩ := hq
  exact ⟨s, hr, h0, h1, h2, ((map_initialised_once hr).2 0 h0).1⟩

/-- A call that makes its first load while the initialisation is under way returns
before the table is initialised. -/
theorem load_during_init_returns (hk : ¬ LoadsOutsideInit s c) :
    ∃ s', sigGlobalState s c = .ok s' ∧ s'.calls c = .returned ∧ s'.inits = 0 := by
  simp only [LoadsOutsideInit, Classical.not_imp, Nat.not_lt, Nat.le_zero] at hk
  obtain ⟨hc, hm, hi⟩ := hk
  refine ⟨s.goto c .returned, ?_, by simp, by simpa using hi⟩
  simp [sigGlobalState, hc, hm]

/-- Without the condition: one call wins the exchange, and a second, finding the gate no
longer untouched, returns the table before it is initialised. -/
theorem map_returned_uninitialised :
    ∃ s, Run sigGlobalState (fun _ _ => True) .initial s ∧
      s.calls 1 = .returned ∧ s.inits = 0 ∧ s.table.metadata = none := by
  obtain ⟨s, hr, hq⟩ := run_of_ends (f := sigGlobalState) (r := fun _ _ => True)
    (s := .initial) (c := fun _ _ => true)
    (q := fun s => s.calls 1 == .returned && s.inits == 0 && s.table.metadata == none)
    (l := [0, 0, 1]) (fun _ _ _ => trivial) (by decide)
  simp only [Bool.and_eq_true, beq_iff_eq] at hq
  exact ⟨s, hr, hq.1.1, hq.1.2, hq.2⟩

end Wg14Signals
