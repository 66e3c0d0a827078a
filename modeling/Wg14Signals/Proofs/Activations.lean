import Wg14Signals.Proofs.Effects
import Mathlib.Data.List.Perm.Subperm

namespace Wg14Signals
open Lib

/-- The activations there have been and that have not ended. -/
def State.ids (s : State) : List Nat := (s.acts ++ s.lost).map Act.id

/-- Activations have names of their own, given out once. -/
structure Named (s : State) : Prop where
  distinct : s.ids.Nodup
  fresh : ∀ i ∈ s.ids, i < s.nextId

theorem turn_id {p : Platform} {s : State} {a : Act} {ys : List Act} {hs : List Handle}
    {g' : Global} (turn : Turn p s a ys hs g') : (ys.map Act.id).Sublist [a.id] := by
  cases turn with
  | absent r g' hc hr op => cases r.delivered <;> simp
  | _ => simp [Act.goto]

theorem pushRaise_ids (p : Platform) (s : State) (t : Tid) (signo : Signo) (delivered : Bool)
    (acts : List Act) :
    let s' := s.pushRaise p t signo delivered acts
    s'.acts = acts ∧ s'.nextId = s.nextId ∨
      (∃ call, s'.acts = ⟨t, s.nextId, call⟩ :: acts) ∧ s'.nextId = s.nextId + 1 := by
  unfold State.pushRaise
  split
  · split
    · exact Or.inr ⟨⟨_, rfl⟩, rfl⟩
    · exact Or.inl ⟨rfl, rfl⟩
  · exact Or.inr ⟨⟨_, rfl⟩, rfl⟩

section

variable {p : Platform} {s s' : State} {act : Action}

theorem ids_split {l r : List Act} (h : s.acts.Perm (l ++ r)) :
    s.ids.Perm (l.map Act.id ++ (r ++ s.lost).map Act.id) := by
  refine ((h.append_right s.lost).map Act.id).trans ?_
  rw [List.append_assoc, List.map_append]

theorem ids_step (h : step p s act = .ok s') :
    (s'.ids.Subperm s.ids ∧ s.nextId ≤ s'.nextId) ∨
      s'.ids.Subperm (s.nextId :: s.ids) ∧ s'.nextId = s.nextId + 1 := by
  cases step_moves h with
  | idle h =>
    subst h
    exact Or.inl ⟨List.Subperm.refl _, Nat.le_refl _⟩
  | begins t call installs hb h =>
    subst h
    exact Or.inr ⟨List.Subperm.refl _, rfl⟩
  | destroys t hd hf h =>
    subst h
    exact Or.inr ⟨List.Subperm.refl _, rfl⟩
  | raises t signo delivered h =>
    subst h
    obtain ⟨_, _, hl⟩ := pushRaise_frame (p := p) (s := s) t signo delivered s.acts
    rcases pushRaise_ids p s t signo delivered s.acts with ⟨ha, hn⟩ | ⟨⟨call, ha⟩, hn⟩
    · refine Or.inl ⟨?_, Nat.le_of_eq hn.symm⟩
      rw [State.ids, ha, hl]
      exact List.Subperm.refl _
    · refine Or.inr ⟨?_, hn⟩
      rw [State.ids, ha, hl]
      exact List.Subperm.refl _
  | turns t a ys hs ht turn ha hh hl hn hd =>
    refine Or.inl ⟨?_, Nat.le_of_eq hn.symm⟩
    have hx := ids_split (s := s') (l := ys) (r := s.others t) (by rw [ha])
    have hy := ids_split (l := [a]) (r := s.others t) (find_perm ht)
    rw [hl] at hx
    refine hx.subperm.trans (List.Subperm.trans ?_ hy.symm.subperm)
    exact ((turn_id turn).append_right _).subperm
  | reenters t a r phase ht hc hp h =>
    subst h
    obtain ⟨_, _, hl⟩ := pushRaise_frame (p := p) (s := s) a.tid r.signo true
      (a.phase r phase :: s.others t)
    have hy := ids_split (l := [a]) (r := s.others t) (find_perm ht)
    rcases pushRaise_ids p s a.tid r.signo true (a.phase r phase :: s.others t) with
      ⟨ha, hn⟩ | ⟨⟨call, ha⟩, hn⟩
    · refine Or.inl ⟨?_, Nat.le_of_eq hn.symm⟩
      rw [State.ids, ha, hl]
      exact hy.symm.subperm
    · refine Or.inr ⟨?_, hn⟩
      rw [State.ids, ha, hl]
      exact (hy.symm.cons _).subperm
  | recovers t a r f fs ht hd hc hr hf h =>
    subst h
    refine Or.inl ⟨List.Perm.subperm (List.Perm.map _ ?_), Nat.le_refl _⟩
    rw [← List.append_assoc]
    exact List.Perm.append_right _ (List.perm_append_comm.trans (List.filter_append_perm _ _))

theorem Named.step (hn : Named s) (h : Wg14Signals.step p s act = .ok s') : Named s' := by
  rcases ids_step h with ⟨⟨l, hp, hsub⟩, hle⟩ | ⟨⟨l, hp, hsub⟩, heq⟩
  · exact ⟨hp.nodup_iff.mp (hn.distinct.sublist hsub),
      fun i hi => Nat.lt_of_lt_of_le (hn.fresh i (hsub.subset (hp.mem_iff.mpr hi))) hle⟩
  · have hnew : s.nextId ∉ s.ids := fun hm => Nat.lt_irrefl _ (hn.fresh _ hm)
    refine ⟨hp.nodup_iff.mp ((List.nodup_cons.mpr ⟨hnew, hn.distinct⟩).sublist hsub), ?_⟩
    intro i hi
    rw [heq]
    rcases List.mem_cons.mp (hsub.subset (hp.mem_iff.mpr hi)) with rfl | hi
    · exact Nat.lt_succ_self _
    · exact Nat.lt_succ_of_lt (hn.fresh i hi)

/-- Where an activation comes from: it was there, it is new, or it has had its turn. -/
theorem act_step (h : step p s act = .ok s') {b : Act} (hb : b ∈ s'.acts) :
    b ∈ s.acts ∨ b.id = s.nextId ∨ ∃ t a, s.top t = some a ∧ b.id = a.id ∧
      ((∃ ys hs, Turn p s a ys hs s'.g ∧ b ∈ ys ∧ Sections s act t a) ∨
        ∃ r phase, a.call = .raise r ∧ b = a.phase r phase ∧
          ((∃ sa, r.phase = .invoke sa ∧ phase = .handler .raw) ∨
            ∃ current, r.phase = .handoff (.kill current) ∧
              phase = .handoff (.restore current)) ∧ s'.g = s.g) := by
  cases step_moves h with
  | idle h => exact Or.inl (h ▸ hb)
  | begins t call installs hbegin h =>
    subst h
    rcases List.mem_cons.mp hb with rfl | hb
    · exact Or.inr (Or.inl rfl)
    · exact Or.inl hb
  | destroys t hd hf h =>
    subst h
    rcases List.mem_cons.mp hb with rfl | hb
    · exact Or.inr (Or.inl rfl)
    · exact Or.inl hb
  | raises t signo delivered h =>
    subst h
    rcases pushRaise_ids p s t signo delivered s.acts with ⟨ha, _⟩ | ⟨⟨call, ha⟩, _⟩
    · exact Or.inl (ha ▸ hb)
    · rw [ha] at hb
      rcases List.mem_cons.mp hb with rfl | hb
      · exact Or.inr (Or.inl rfl)
      · exact Or.inl hb
  | turns t a ys hs ht turn ha hh hl hn hd =>
    rw [ha] at hb
    rcases List.mem_append.mp hb with hb | hb
    · refine Or.inr (Or.inr ⟨t, a, ht, ?_, Or.inl ⟨ys, hs, turn, hb, hd⟩⟩)
      exact List.mem_singleton.mp ((turn_id turn).subset (List.mem_map_of_mem hb))
    · exact Or.inl (List.mem_of_mem_eraseP hb)
  | reenters t a r phase ht hc hp h =>
    subst h
    have hrest : b ∈ a.phase r phase :: s.others t ∨ b.id = s.nextId := by
      rcases pushRaise_ids p s a.tid r.signo true (a.phase r phase :: s.others t) with
        ⟨ha, _⟩ | ⟨⟨call, ha⟩, _⟩
      · exact Or.inl (ha ▸ hb)
      · rw [ha] at hb
        rcases List.mem_cons.mp hb with rfl | hb
        · exact Or.inr rfl
        · exact Or.inl hb
    rcases hrest with hrest | hnew
    · rcases List.mem_cons.mp hrest with rfl | hold
      · refine Or.inr (Or.inr ⟨t, a, ht, phase_id a r phase, Or.inr ⟨r, phase, hc, rfl, ?_, ?_⟩⟩)
        · rcases hp with ⟨sa, hr, _, hq⟩ | hp
          · exact Or.inl ⟨sa, hr, hq⟩
          · exact Or.inr hp
        · exact (pushRaise_frame _ _ _ _).1
      · exact Or.inl (List.mem_of_mem_eraseP hold)
    · exact Or.inr (Or.inl hnew)
  | recovers t a r f fs ht hd hc hr hf h =>
    subst h
    exact Or.inl (List.mem_of_mem_filter hb)

/-- A recovery jump discards calls in progress. -/
theorem mem_of_discards {b : Act} (h : b ∈ s.discards act) :
    b ∈ s.acts := by
  unfold State.discards at h
  split at h
  · split at h
    · split at h
      · split at h
        · exact List.mem_of_mem_filter h
        · cases h
      · cases h
    · cases h
  · cases h

/-- Only a recovery jump loses calls. -/
theorem lost_cases (h : step p s act = .ok s') :
    s'.lost = s.lost ∨ s'.lost = s.discards act ++ s.lost := by
  cases step_moves h with
  | idle h => exact Or.inl (h ▸ rfl)
  | begins t call installs hb h => exact Or.inl (h ▸ rfl)
  | destroys t hd hf h => exact Or.inl (h ▸ rfl)
  | raises t signo delivered h => exact Or.inl (h ▸ (pushRaise_frame t signo delivered s.acts).2.2)
  | turns t b ys hs ht turn hacts hh hlost hn hd => exact Or.inl hlost
  | reenters t b r phase ht hc hp h =>
    exact Or.inl (h ▸ (pushRaise_frame b.tid r.signo true _).2.2)
  | recovers t b r f fs ht hd hc hr hf h =>
    subst h hd
    refine Or.inr ?_
    simp [State.discards, ht, hc, hr, hf]

/-- Discarded activations stay discarded. -/
theorem lost_step (h : step p s act = .ok s') {a : Act} (ha : a ∈ s.lost) : a ∈ s'.lost := by
  rcases lost_cases h with hl | hl
  · exact hl ▸ ha
  · exact hl ▸ List.mem_append.mpr (Or.inr ha)

/-- A raise has references only inside a global decider, and then one pair. -/
theorem hold_cases {a : Act} {x : Hold} (hx : x ∈ a.holds) : ∃ r pin, a.call = .raise r ∧
    r.phase = .deciding pin ∧ pin.abandoned = false ∧ x = ⟨a.id, pin.item, pin.current⟩ ∧
    a.holds = [x] := by
  cases a with | mk tid id call =>
  cases call with
  | raise r =>
    obtain ⟨signo, delivered, phase⟩ := r
    cases phase with
    | deciding pin =>
      cases hp : pin.abandoned with
      | true => simp [Act.holds, hp] at hx
      | false =>
        simp only [Act.holds, hp, Bool.false_eq_true, ↓reduceIte, List.mem_singleton] at hx
        exact ⟨_, pin, rfl, rfl, hp, hx, by simp [Act.holds, hp, hx]⟩
    | _ => cases hx
  | _ => cases hx

theorem raise_of_holds {a : Act} {x : Hold} (hx : x ∈ a.holds) : x.raise = a.id := by
  obtain ⟨_, _, _, _, _, rfl, _⟩ := hold_cases hx
  rfl

/-- A raise still in progress after a step was so before it. -/
theorem inside_step (hn : Named s') (h : step p s act = .ok s') {x : Hold} (hx : x ∈ s.holds)
    (hx' : x ∈ s'.inside) : x ∈ s.inside := by
  obtain ⟨a, ha, hxa⟩ := List.mem_flatMap.mp hx
  obtain ⟨b, hb, hxb⟩ := List.mem_flatMap.mp hx'
  rcases List.mem_append.mp ha with ha | ha
  · exact List.mem_flatMap.mpr ⟨a, ha, hxa⟩
  · have hd := hn.distinct
    rw [State.ids, List.map_append] at hd
    have hid : b.id = a.id := (raise_of_holds hxb).symm.trans (raise_of_holds hxa)
    exact absurd hid ((List.nodup_append.mp hd).2.2 _ (List.mem_map_of_mem hb) _
      (List.mem_map_of_mem (lost_step h ha)))

end

theorem named_initial (kernel : Signo → Sigaction) : Named (State.initial kernel) := by
  constructor <;> simp [State.initial, State.ids]

theorem named_run {p : Platform} {kernel : Signo → Sigaction} {ok : State → Action → Prop}
    {s : State} (hr : Run (step p) ok (State.initial kernel) s) : Named s :=
  hr.invariant (named_initial kernel) fun _ _ _ hn _ hs => hn.step hs

end Wg14Signals
