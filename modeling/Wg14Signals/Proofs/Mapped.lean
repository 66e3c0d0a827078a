import Wg14Signals.Proofs.Failures

namespace Wg14Signals
open Lib

/-- The node that `signal_decider_destroy` did not find under the lock and is about to
give back without it. -/
def Act.missed (a : Act) : Option (Signo × Addr) :=
  match a.call with
  | .destroy _ guarded (some n :: _) (signo :: _) true =>
    if guarded signo then some (signo, n) else none
  | _ => none

/-- No freed node is registered in a container that the map leads to. -/
structure MapSafe (s : State) (L : Layout) : Prop where
  live : ∀ signo c, s.g.map signo = some c → s.g.nodes.AllLive (L c .global)
  missed : ∀ a ∈ s.acts, ∀ signo n, a.missed = some (signo, n) →
    ∀ c, s.g.map signo = some c → n ∉ L c .global

section

variable {p : Platform} {s s' : State} {act : Action} {a : Act} {L L' : Layout} {signo : Signo}
  {c n : Addr}

/-- The container a signal leads to gets no members but new nodes. -/
theorem Shift.member (hx : Shift p s act s' L L') (hm : s'.g.map signo = some c)
    (hn : n ∈ L' c .global) :
    s.g.map signo = some c ∧ (n ∈ L c .global ∨ s.g.nodes n = none) := by
  cases hx with
  | keeps he hmap hp hh =>
    rcases hmap signo c hm with hm | ⟨_, hnil⟩
    · exact ⟨hm, Or.inl ((he.shrinks c).subset hn)⟩
    · rw [hnil] at hn
      cases hn
  | joins x item first hj ha hp hh =>
    refine ⟨hj.map ▸ hm, ?_⟩
    rcases hj.member hn with rfl | hn
    · exact Or.inr hj.unused
    · exact Or.inl hn
  | drops x searched hd ho hx hs hp hh =>
    exact ⟨hx.map ▸ hm, Or.inl ((hx.evolves.shrinks c).subset hn)⟩
  | enters x signo hm' hf he hg hp hh =>
    exact ⟨hg ▸ hm, Or.inl ((he.shrinks c).subset hn)⟩
  | walks x next hx hnext he hg hp hh =>
    exact ⟨hg ▸ hm, Or.inl ((he.shrinks c).subset hn)⟩

/-- What a signal leads to it has led to before, or it is new. -/
theorem Shift.map_before (hx : Shift p s act s' L L') (hm : s'.g.map signo = some c) :
    s.g.map signo = some c ∨ s.g.nextContainer ≤ c := by
  cases hx with
  | keeps he hmap hp hh => exact (hmap signo c hm).imp_right And.left
  | joins x item first hj ha hp hh => exact Or.inl (hj.map ▸ hm)
  | drops x searched hd ho hx hs hp hh => exact Or.inl (hx.map ▸ hm)
  | enters x signo' hm' hf he hg hp hh => exact Or.inl (hg ▸ hm)
  | walks x next hx hnext he hg hp hh => exact Or.inl (hg ▸ hm)

/-- The section of a destroy that gives a reference back, and what it searches. -/
theorem drops_cases {t : Tid} {env : InstallEnv} {searched : Option Addr}
    (h : s.drops (.advance t env) = some (n, searched)) :
    ∃ a handle guarded retp signo todo unlocked, s.top t = some a ∧
      a.call = .destroy handle guarded (some n :: retp) (signo :: todo) unlocked ∧
      guarded signo = true ∧
      (unlocked = true ∧ searched = none ∨
        unlocked = false ∧ ∃ item, s.g.map signo = some item ∧ searched = some item) := by
  obtain ⟨a, ht, ha⟩ := Option.bind_eq_some_iff.mp h
  unfold Act.drops at ha
  split at ha
  · rename_i handle guarded m retp signo todo unlocked hc
    split at ha
    · rename_i hs
      cases unlocked with
      | true =>
        simp only [↓reduceIte, Option.some.injEq, Prod.mk.injEq] at ha
        obtain ⟨rfl, rfl⟩ := ha
        exact ⟨a, handle, guarded, retp, signo, todo, true, ht, hc, hs, Or.inl ⟨rfl, rfl⟩⟩
      | false =>
        simp only [Bool.false_eq_true, ↓reduceIte, Option.map_eq_some_iff, Prod.mk.injEq] at ha
        obtain ⟨item, hm, rfl, rfl⟩ := ha
        exact ⟨a, handle, guarded, retp, signo, todo, false, ht, hc, hs,
          Or.inr ⟨rfl, item, hm, rfl⟩⟩
    · cases ha
  · cases ha

/-- The slot a destroy is about to visit is one its handle still has. -/
theorem destroy_pending {handle : Nat} {guarded : SigSet} {retp : List (Option Addr)}
    {todo : List Signo} {unlocked : Bool} (ha : a ∈ s.acts)
    (hc : a.call = .destroy handle guarded (some n :: retp) (signo :: todo) unlocked)
    (hs : guarded signo = true) : ⟨handle, signo, n⟩ ∈ s.pending p := by
  refine slot_pending ha ?_
  simp [Act.slots, hc, List.filter_cons_of_pos hs, slotsOf_cons]

theorem missed_cases (h : a.missed = some (signo, n)) : ∃ handle guarded retp todo,
    a.call = .destroy handle guarded (some n :: retp) (signo :: todo) true ∧
      guarded signo = true := by
  unfold Act.missed at h
  split at h
  · rename_i handle guarded m retp signo' todo hc
    split at h
    · simp only [Option.some.injEq, Prod.mk.injEq] at h
      obtain ⟨rfl, rfl⟩ := h
      exact ⟨handle, guarded, retp, todo, hc, ‹_›⟩
    · cases h
  · cases h

/-- A destroy leaves a node for later only if the signal was not in the map. -/
theorem turn_missed {ys : List Act} {hs : List Handle} {g' : Global} (turn : Turn p s a ys hs g')
    {y : Act} (hy : y ∈ ys) (hm : y.missed = some (signo, n)) : g'.map signo = none := by
  cases turn with
  | install set done signo todo env ok g' hc op => cases ok <;> simp_all [Act.missed]
  | absent r g' hc hr op => cases hd : r.delivered <;> simp_all [Act.missed]
  | destroyLocked handle guarded slot slot' retp signo' todo g' hc hs op =>
    obtain ⟨_, _, _, _, hcall, _⟩ := missed_cases hm
    rw [List.mem_singleton.mp hy, goto_call] at hcall
    cases hcall
    cases hmap : s.g.map signo with
    | none =>
      simp only [destroyLocked, hmap, pure_ok, Prod.mk.injEq] at op
      rw [← op.2, hmap]
    | some item =>
      have hnull := destroyLocked_slot hmap op
      cases hnull
  | _ => simp_all [Act.missed]

theorem pushRaise_missed {t : Tid} {signo' : Signo} {delivered : Bool} {acts : List Act}
    (ha : a ∈ (s.pushRaise p t signo' delivered acts).acts) (hm : a.missed = some (signo, n)) :
    a ∈ acts := by
  unfold State.pushRaise at ha
  split at ha
  · split at ha
    · rcases List.mem_cons.mp ha with rfl | ha
      · cases hm
      · exact ha
    · exact ha
  · rcases List.mem_cons.mp ha with rfl | ha
    · cases hm
    · exact ha

/-- A destroy left with a node has been so before the step, or the signal is unmapped. -/
theorem missed_step (h : step p s act = .ok s') (ha : a ∈ s'.acts)
    (hm : a.missed = some (signo, n)) : a ∈ s.acts ∨ s'.g.map signo = none := by
  cases step_moves h with
  | idle h => exact Or.inl (h ▸ ha)
  | begins t call installs hb h =>
    subst h
    rcases List.mem_cons.mp ha with rfl | ha
    · cases hb <;> cases hm
    · exact Or.inl ha
  | destroys t hd hf h =>
    subst h
    rcases List.mem_cons.mp ha with rfl | ha
    · obtain ⟨_, _, _, _, hcall, _⟩ := missed_cases hm
      simp at hcall
    · exact Or.inl ha
  | raises t signo' delivered h =>
    subst h
    exact Or.inl (pushRaise_missed ha hm)
  | turns t b ys hs ht turn hacts hh hl hn hd =>
    rw [hacts] at ha
    rcases List.mem_append.mp ha with ha | ha
    · exact Or.inr (turn_missed turn ha hm)
    · exact Or.inl (List.mem_of_mem_eraseP ha)
  | reenters t b r phase ht hc hp h =>
    subst h
    rcases List.mem_cons.mp (pushRaise_missed ha hm) with rfl | ha
    · cases hm
    · exact Or.inl (List.mem_of_mem_eraseP ha)
  | recovers t b r f fs ht hd hc hr hf h =>
    subst h
    exact Or.inl (List.mem_of_mem_filter ha)

theorem MapSafe.step (hi : Inv p s L) (hs : MapSafe s L) (h : Wg14Signals.step p s act = .ok s')
    (hx : Shift p s act s' L L') : MapSafe s' L' := by
  constructor
  · intro signo c hm
    cases hx with
    | keeps he hmap hp hh =>
      rcases hmap signo c hm with hm | ⟨_, hnil⟩
      · exact he.allLive (hs.live signo c hm) (by simp)
      · rw [hnil]
        exact fun n hn => absurd hn (by simp)
    | joins x item first hj ha hp hh => exact hj.allLive (hs.live signo c (hj.map ▸ hm))
    | drops x searched hd ho hx hsearch hp hh =>
      have hm' : s.g.map signo = some c := hx.map ▸ hm
      refine hx.evolves.allLive (hs.live signo c hm') fun n hn hfree hc => ?_
      cases hn
      have hmem := (hx.evolves.shrinks c).subset hc
      cases act with
      | advance t env =>
        obtain ⟨a, handle, guarded, retp, signo', todo, unlocked, ht, hcall, hg, hwhich⟩ :=
          drops_cases hd
        have hpend := destroy_pending (p := p) (top_mem ht) hcall hg
        -- the node is linked under its own signal only
        have he := hi.wf.aligned _ hpend signo c hm' hmem
        subst he
        rcases hwhich with ⟨rfl, rfl⟩ | ⟨rfl, item, hitem, rfl⟩
        · exact hs.missed a (top_mem ht) signo x.node (by simp [Act.missed, hcall, hg]) c hm' hmem
        · rw [hm'] at hitem
          cases hitem
          exact hsearch c rfl (hx.frees.mp hfree) hc
      | _ => cases hd
    | enters x signo' hm' hf he hg hp hh =>
      exact he.allLive (hs.live signo c (hg ▸ hm)) (by simp)
    | walks x next hx hn he hg hp hh => exact he.allLive (hs.live signo c (hg ▸ hm)) (by simp)
  · intro a ha signo n hmiss c hm hn
    rcases missed_step h ha hmiss with hold | hnone
    · obtain ⟨hm', hn⟩ := hx.member hm hn
      obtain ⟨handle, guarded, retp, todo, hcall, hg⟩ := missed_cases hmiss
      obtain ⟨nd, hnd, _⟩ := hi.wf.owned _ (destroy_pending (p := p) hold hcall hg)
      rcases hn with hn | hdead
      · exact hs.missed a hold signo n hmiss c hm' hn
      · simp [hnd] at hdead
    · rw [hm] at hnone
      cases hnone

end

/-- Whatever the program does, a freed node is never registered under a signal. -/
theorem mapSafe_run {p : Platform} {kernel : Signo → Sigaction} {ok : State → Action → Prop}
    {s : State} (hr : Run (step p) ok (State.initial kernel) s) :
    ∃ L, Inv p s L ∧ MapSafe s L := by
  refine hr.invariant (I := fun s => ∃ L, Inv p s L ∧ MapSafe s L)
    ⟨_, inv_initial p kernel, ⟨by simp [State.initial], by simp [State.initial]⟩⟩ ?_
  rintro s act s' ⟨L, hi, hs⟩ - h
  obtain ⟨L', hi', hx, _⟩ := hi.step h
  exact ⟨L', hi', hs.step hi h hx⟩

end Wg14Signals
