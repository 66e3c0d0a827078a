import Wg14Signals.Proofs.Effects
import Mathlib.Data.List.Perm.Subperm

namespace Wg14Signals
open Lib

theorem owner_of_creating {a : Act} {o : Nat} (h : a.creating = some o) : a.owner = some o := by
  unfold Act.creating at h
  unfold Act.owner
  split at h
  · rename_i hc
    rw [hc]
    exact h
  · cases h

theorem owner_of_destroying {a : Act} {o : Nat} (h : a.destroying = some o) :
    a.owner = some o ∧ a.creating = none := by
  unfold Act.destroying at h
  unfold Act.owner Act.creating
  split at h
  · rename_i hc
    rw [hc]
    exact ⟨h, rfl⟩
  · cases h

/-- A destroy has a slot left for every signal it has still to visit. -/
def Act.Stocked (a : Act) : Prop :=
  match a.call with
  | .destroy _ guarded retp todo _ => (todo.filter guarded).length ≤ retp.length
  | _ => True

/-- Every handle is in one place, and has its slots. -/
structure Tidy (p : Platform) (s : State) : Prop where
  owners : s.owners.Nodup
  fresh : ∀ o ∈ s.owners, o < s.nextId
  stocked : ∀ a ∈ s.acts, a.Stocked
  slots : ∀ h ∈ s.handles, (p.members h.guarded).length ≤ h.slots.length

theorem padded_length (p : Platform) (guarded : SigSet) (filled : List (Option Addr)) :
    (p.members guarded).length ≤ (padded p guarded filled).length := by
  simp only [padded, List.length_append, List.length_replicate]
  omega

/-- A section passes its handle on, or is done with it. -/
theorem turn_owner {p : Platform} {s : State} {a : Act} {ys : List Act} {hs : List Handle}
    {g' : Global} (turn : Turn p s a ys hs g') (ha : a.Stocked) :
    (hs.map Handle.id ++ ys.filterMap Act.owner).Sublist a.owner.toList ∧
      (∀ y ∈ ys, y.Stocked) ∧ ∀ h ∈ hs, (p.members h.guarded).length ≤ h.slots.length := by
  cases turn with
  | install set done signo todo env ok g' hc op =>
    cases ok <;> simp [Act.owner, Act.Stocked, hc]
  | absent r g' hc hr op => cases r.delivered <;> simp [Act.owner, Act.Stocked, hc]
  | created args filled hc =>
    simp only [Act.owner, hc, List.map_cons, List.map_nil, List.filterMap_nil, List.append_nil,
      Option.toList_some, List.Sublist.refl, List.not_mem_nil, false_implies, implies_true,
      List.mem_cons, or_false, forall_eq, true_and]
    exact padded_length p args.guarded filled
  | giveUp args filled signo env g' hc op =>
    simp only [Act.owner, hc, List.map_nil, List.filterMap_cons, goto_call, List.filterMap_nil,
      List.nil_append, Option.toList_some, List.Sublist.refl, List.mem_cons, List.not_mem_nil,
      or_false, forall_eq, false_implies, implies_true, and_true, true_and, Act.Stocked]
    exact padded_length p args.guarded filled
  | destroyUnlocked handle guarded slot retp signo todo g' hc hs op =>
    simpa [Act.owner, Act.Stocked, hc, hs] using ha
  | destroyLocked handle guarded slot slot' retp signo todo g' hc hs op =>
    simpa [Act.owner, Act.Stocked, hc, hs] using ha
  | destroySkip handle guarded slot retp signo todo unlocked g' hc hs op =>
    simpa [Act.owner, Act.Stocked, hc, hs] using ha
  | _ => simp_all [Act.owner, Act.Stocked]

theorem owners_split {s : State} {l r : List Act} (h : s.acts.Perm (l ++ r)) :
    s.owners.Perm (l.filterMap Act.owner ++
      (s.handles.map Handle.id ++ (r ++ s.lost).filterMap Act.owner)) := by
  have hp := (h.append_right s.lost).filterMap Act.owner
  unfold State.owners
  refine (hp.append_left _).trans ?_
  rw [List.append_assoc, List.filterMap_append]
  exact List.perm_append_comm_assoc _ _ _

theorem pushRaise_owner (p : Platform) (s : State) (t : Tid) (signo : Signo) (delivered : Bool)
    (acts : List Act) :
    (s.pushRaise p t signo delivered acts).acts.filterMap Act.owner = acts.filterMap Act.owner ∧
      (∀ a ∈ (s.pushRaise p t signo delivered acts).acts, a.Stocked ∨ a ∈ acts) ∧
      s.nextId ≤ (s.pushRaise p t signo delivered acts).nextId := by
  unfold State.pushRaise
  split
  · split
    · refine ⟨rfl, fun a ha => ?_, Nat.le_succ _⟩
      rcases List.mem_cons.mp ha with rfl | ha
      · exact Or.inl trivial
      · exact Or.inr ha
    · exact ⟨rfl, fun a ha => Or.inr ha, Nat.le_refl _⟩
  · refine ⟨rfl, fun a ha => ?_, Nat.le_succ _⟩
    rcases List.mem_cons.mp ha with rfl | ha
    · exact Or.inl trivial
    · exact Or.inr ha

/-- Two members with one image in a duplicate-free list of images are the same. -/
theorem eq_of_filterMap_nodup {α β : Type} {f : α → Option β} {l : List α}
    (hn : (l.filterMap f).Nodup) {x y : α} {b : β} (hx : x ∈ l) (hy : y ∈ l)
    (hfx : f x = some b) (hfy : f y = some b) : x = y := by
  induction l with
  | nil => cases hx
  | cons z l ih =>
    have hmem : ∀ w ∈ l, f w = some b → b ∈ l.filterMap f :=
      fun w hw hf => List.mem_filterMap.mpr ⟨w, hw, hf⟩
    have hrest : (l.filterMap f).Nodup := hn.sublist ((List.sublist_cons_self z l).filterMap f)
    rcases List.mem_cons.mp hx with rfl | hxl
    · rw [List.filterMap_cons_some hfx, List.nodup_cons] at hn
      rcases List.mem_cons.mp hy with rfl | hyl
      · rfl
      · exact absurd (hmem y hyl hfy) hn.1
    · rcases List.mem_cons.mp hy with rfl | hyl
      · rw [List.filterMap_cons_some hfy, List.nodup_cons] at hn
        exact absurd (hmem x hxl hfx) hn.1
      · exact ih hrest hxl hyl

namespace Tidy

variable {p : Platform} {s s' : State} {act : Action}

/-- A handle being destroyed is not also intact. -/
theorem not_intact (ht : Tidy p s) {a : Act} (ha : a ∈ s.acts) {o : Nat}
    (hd : a.destroying = some o) : o ∉ s.intact := by
  obtain ⟨howner, hcreate⟩ := owner_of_destroying hd
  have hal : a ∈ s.acts ++ s.lost := List.mem_append.mpr (Or.inl ha)
  obtain ⟨_, hn, hdis⟩ := List.nodup_append.mp ht.owners
  intro ho
  rcases List.mem_append.mp ho with ho | ho
  · exact hdis o ho o (List.mem_filterMap.mpr ⟨a, hal, howner⟩) rfl
  · obtain ⟨b, hb, hbo⟩ := List.mem_filterMap.mp ho
    have he := eq_of_filterMap_nodup hn hal hb howner (owner_of_creating hbo)
    rw [he, hbo] at hcreate
    cases hcreate

/-- Handles leave their places without a trace, except that a new one may come. -/
theorem owners_step (ht : Tidy p s) (h : step p s act = .ok s') :
    (s'.owners.Subperm s.owners ∨ s'.owners.Perm (s.nextId :: s.owners) ∧ s.nextId < s'.nextId) ∧
      s.nextId ≤ s'.nextId ∧ (∀ a ∈ s'.acts, a.Stocked) ∧
      ∀ h ∈ s'.handles, (p.members h.guarded).length ≤ h.slots.length := by
  cases step_moves h with
  | idle h =>
    subst h
    exact ⟨Or.inl (List.Subperm.refl _), Nat.le_refl _, ht.stocked, ht.slots⟩
  | begins t call installs hb h =>
    subst h
    refine ⟨?_, Nat.le_succ _, ?_, ht.slots⟩
    · have hp := owners_split (s := ({ s with installs } : State).push t call s.acts)
        (l := [⟨t, s.nextId, call⟩]) (r := s.acts) (List.Perm.refl _)
      cases hb with
      | create args ho =>
        refine Or.inr ⟨hp.trans ?_, Nat.lt_succ_self _⟩
        simp [Act.owner, ho, State.owners, State.push]
      | _ => exact Or.inl hp.subperm
    · intro a ha
      rcases List.mem_cons.mp ha with rfl | ha
      · cases hb <;> simp [Act.Stocked]
      · exact ht.stocked a ha
  | destroys t hd hf h =>
    subst h
    have hp := find_perm hf
    refine ⟨Or.inl (List.Perm.subperm ?_), Nat.le_succ _, ?_, ?_⟩
    · unfold State.owners State.push
      refine List.Perm.trans ?_ ((hp.symm.map Handle.id).append_right _)
      simp [Act.owner]
    · intro a ha
      rcases List.mem_cons.mp ha with rfl | ha
      · exact ht.slots hd (hp.mem_iff.mpr List.mem_cons_self)
      · exact ht.stocked a ha
    · exact fun x hx => ht.slots x (hp.mem_iff.mpr (List.mem_cons_of_mem _ hx))
  | raises t signo delivered h =>
    subst h
    obtain ⟨ho, hs, hn⟩ := pushRaise_owner p s t signo delivered s.acts
    obtain ⟨_, hh, hl⟩ := pushRaise_frame (p := p) (s := s) t signo delivered s.acts
    refine ⟨Or.inl ?_, hn, fun a ha => (hs a ha).elim id (ht.stocked a), hh ▸ ht.slots⟩
    unfold State.owners
    rw [hh, hl, List.filterMap_append, List.filterMap_append, ho]
  | turns t a ys hs htop turn ha hh hl hn hd =>
    have hperm : s.acts.Perm ([a] ++ s.others t) := find_perm htop
    have hmem : ∀ b ∈ a :: s.others t, b ∈ s.acts := fun b hb => hperm.mem_iff.mpr hb
    obtain ⟨hsub, hstock, hslots⟩ := turn_owner turn (ht.stocked a (hmem a List.mem_cons_self))
    refine ⟨Or.inl ?_, Nat.le_of_eq hn.symm, ?_, ?_⟩
    · have hx := owners_split (s := s') (l := ys) (r := s.others t) (by rw [ha])
      have hy := owners_split hperm
      rw [hh, hl, List.map_append, List.append_assoc] at hx
      refine (hx.trans (List.perm_append_comm_assoc _ _ _)).subperm.trans
        (List.Subperm.trans ?_ hy.symm.subperm)
      rw [← List.append_assoc]
      refine List.Sublist.subperm (List.Sublist.append_right ?_ _)
      cases ho : a.owner <;> simpa [ho] using hsub
    · intro b hb
      rw [ha] at hb
      rcases List.mem_append.mp hb with hb | hb
      · exact hstock b hb
      · exact ht.stocked b (hmem b (List.mem_cons_of_mem _ hb))
    · intro x hx
      rw [hh] at hx
      rcases List.mem_append.mp hx with hx | hx
      · exact hslots x hx
      · exact ht.slots x hx
  | reenters t a r phase htop hc hp h =>
    subst h
    have hperm : s.acts.Perm ([a] ++ s.others t) := find_perm htop
    obtain ⟨ho, hs, hn⟩ := pushRaise_owner p s a.tid r.signo true (a.phase r phase :: s.others t)
    obtain ⟨_, hh, hl⟩ := pushRaise_frame (p := p) (s := s) a.tid r.signo true
      (a.phase r phase :: s.others t)
    refine ⟨Or.inl ?_, hn, ?_, hh ▸ ht.slots⟩
    · refine List.Perm.subperm (List.Perm.trans ?_ (owners_split hperm).symm)
      unfold State.owners
      rw [hh, hl, List.filterMap_append, ho]
      simp only [Act.owner, hc, List.filterMap_cons_none, List.filterMap_nil, List.nil_append,
        List.filterMap_append]
      exact List.Perm.refl _
    · intro b hb
      rcases hs b hb with hb | hb
      · exact hb
      · rcases List.mem_cons.mp hb with rfl | hb
        · simp [Act.Stocked]
        · exact ht.stocked b (hperm.mem_iff.mpr (List.mem_cons_of_mem _ hb))
  | recovers t a r f fs htop hd hc hr hf h =>
    subst h
    refine ⟨Or.inl (List.Perm.subperm ?_), Nat.le_refl _,
      fun b hb => ht.stocked b (List.mem_of_mem_filter hb), ht.slots⟩
    unfold State.owners
    refine List.Perm.append_left _ (List.Perm.filterMap _ ?_)
    rw [← List.append_assoc]
    exact List.Perm.append_right _ (List.perm_append_comm.trans (List.filter_append_perm _ _))

theorem step (ht : Tidy p s) (h : Wg14Signals.step p s act = .ok s') : Tidy p s' := by
  obtain ⟨ho, hn, hs, hh⟩ := ht.owners_step h
  rcases ho with ho | ⟨ho, hlt⟩
  · obtain ⟨l, hp, hsub⟩ := ho
    exact ⟨hp.nodup_iff.mp (ht.owners.sublist hsub),
      fun o hm => Nat.lt_of_lt_of_le (ht.fresh o (hsub.subset (hp.mem_iff.mpr hm))) hn, hs, hh⟩
  · have hnew : s.nextId ∉ s.owners := fun hm => Nat.lt_irrefl _ (ht.fresh _ hm)
    refine ⟨ho.nodup_iff.mpr (List.nodup_cons.mpr ⟨hnew, ht.owners⟩), fun o hm => ?_, hs, hh⟩
    rcases List.mem_cons.mp (ho.mem_iff.mp hm) with rfl | hm
    · exact hlt
    · exact Nat.lt_of_lt_of_le (ht.fresh o hm) hn

/-- A handle that is gone stays gone. -/
theorem gone_step (ht : Tidy p s) (h : Wg14Signals.step p s act = .ok s') {o : Nat}
    (hlt : o < s.nextId) (ho : o ∉ s.owners) : o < s'.nextId ∧ o ∉ s'.owners := by
  obtain ⟨hown, hn, _⟩ := ht.owners_step h
  refine ⟨Nat.lt_of_lt_of_le hlt hn, fun hm => ?_⟩
  rcases hown with hsub | ⟨hp, _⟩
  · exact ho (hsub.subset hm)
  · rcases List.mem_cons.mp (hp.mem_iff.mp hm) with rfl | hm
    · exact Nat.lt_irrefl _ hlt
    · exact ho hm

end Tidy

/-- A section makes no handle intact again. -/
theorem turn_intact {p : Platform} {s : State} {a : Act} {ys : List Act} {hs : List Handle}
    {g' : Global} (turn : Turn p s a ys hs g') {o : Nat}
    (ho : o ∈ hs.map Handle.id ++ ys.filterMap Act.creating) : a.creating = some o := by
  cases turn with
  | install set done signo todo env ok g' hc op =>
    cases ok <;> simp [Act.creating] at ho
  | absent r g' hc hr op => cases hd : r.delivered <;> simp [Act.creating, hd] at ho
  | _ => simp_all [Act.creating]

theorem pushRaise_intact (p : Platform) (s : State) (t : Tid) (signo : Signo) (delivered : Bool)
    (acts : List Act) :
    (s.pushRaise p t signo delivered acts).acts.filterMap Act.creating =
      acts.filterMap Act.creating := by
  unfold State.pushRaise
  split
  · split <;> rfl
  · rfl

/-- Only a new handle becomes intact. -/
theorem intact_step {p : Platform} {s s' : State} {act : Action} (h : step p s act = .ok s')
    {o : Nat} (ho : o ∈ s'.intact) : o ∈ s.intact ∨ o = s.nextId := by
  have hacts : ∀ {acts : List Act}, (∀ a ∈ acts, a ∈ s.acts) →
      o ∈ (acts ++ s.lost).filterMap Act.creating → o ∈ s.intact := by
    intro acts hsub hm
    obtain ⟨a, ha, hc⟩ := List.mem_filterMap.mp hm
    refine List.mem_append.mpr (Or.inr (List.mem_filterMap.mpr ⟨a, ?_, hc⟩))
    exact List.mem_append.mpr ((List.mem_append.mp ha).imp_left (hsub a))
  cases step_moves h with
  | idle h =>
    subst h
    exact Or.inl ho
  | begins t call installs hb h =>
    subst h
    rcases List.mem_append.mp ho with ho | ho
    · exact Or.inl (List.mem_append.mpr (Or.inl ho))
    · obtain ⟨a, ha, hc⟩ := List.mem_filterMap.mp ho
      rcases List.mem_cons.mp ha with rfl | ha
      · cases hb with
        | create args hown =>
          refine Or.inr ?_
          rw [← hown]
          simpa [Act.creating] using hc.symm
        | _ => simp [Act.creating] at hc
      · exact Or.inl (hacts (fun _ h => h) (List.mem_filterMap.mpr ⟨a, ha, hc⟩))
  | destroys t hd hf h =>
    subst h
    rcases List.mem_append.mp ho with ho | ho
    · obtain ⟨x, hx, hid⟩ := List.mem_map.mp ho
      refine Or.inl (List.mem_append.mpr (Or.inl (List.mem_map.mpr ⟨x, ?_, hid⟩)))
      exact (find_perm hf).mem_iff.mpr (List.mem_cons_of_mem _ hx)
    · exact Or.inl (hacts (fun _ h => h) ho)
  | raises t signo delivered h =>
    subst h
    obtain ⟨_, hh, hl⟩ := pushRaise_frame (p := p) (s := s) t signo delivered s.acts
    unfold State.intact at ho
    rw [hh, hl, List.filterMap_append, pushRaise_intact, ← List.filterMap_append] at ho
    exact Or.inl ho
  | turns t a ys hs ht turn ha hh hl hn hd =>
    have hperm : s.acts.Perm (a :: s.others t) := find_perm ht
    have hturn : o ∈ hs.map Handle.id ++ ys.filterMap Act.creating → o ∈ s.intact := by
      intro hm
      refine List.mem_append.mpr (Or.inr (List.mem_filterMap.mpr ⟨a, ?_, turn_intact turn hm⟩))
      exact List.mem_append.mpr (Or.inl (hperm.mem_iff.mpr List.mem_cons_self))
    unfold State.intact at ho
    rw [hh, ha, hl, List.map_append, List.append_assoc ys, List.filterMap_append] at ho
    refine Or.inl ?_
    rcases List.mem_append.mp ho with ho | ho
    · rcases List.mem_append.mp ho with ho | ho
      · exact hturn (List.mem_append.mpr (Or.inl ho))
      · exact List.mem_append.mpr (Or.inl ho)
    · rcases List.mem_append.mp ho with ho | ho
      · exact hturn (List.mem_append.mpr (Or.inr ho))
      · exact hacts (fun b hb => hperm.mem_iff.mpr (List.mem_cons_of_mem _ hb)) ho
  | reenters t a r phase ht hc hp h =>
    subst h
    have hperm : s.acts.Perm (a :: s.others t) := find_perm ht
    obtain ⟨_, hh, hl⟩ := pushRaise_frame (p := p) (s := s) a.tid r.signo true
      (a.phase r phase :: s.others t)
    unfold State.intact at ho
    rw [hh, hl, List.filterMap_append, pushRaise_intact, List.filterMap_cons_none (by rfl),
      ← List.filterMap_append] at ho
    rcases List.mem_append.mp ho with ho | ho
    · exact Or.inl (List.mem_append.mpr (Or.inl ho))
    · exact Or.inl (hacts (fun b hb => hperm.mem_iff.mpr (List.mem_cons_of_mem _ hb)) ho)
  | recovers t a r f fs ht hd hc hr hf h =>
    subst h
    refine Or.inl ?_
    unfold State.intact at ho ⊢
    refine (List.Perm.append_left _ (List.Perm.filterMap _ ?_)).mem_iff.mp ho
    rw [← List.append_assoc]
    exact List.Perm.append_right _ (List.perm_append_comm.trans (List.filter_append_perm _ _))

theorem tidy_initial (p : Platform) (kernel : Signo → Sigaction) :
    Tidy p (State.initial kernel) := by
  refine ⟨?_, ?_, ?_, ?_⟩ <;> simp [State.initial, State.owners]

theorem tidy_run {p : Platform} {kernel : Signo → Sigaction} {ok : State → Action → Prop}
    {s : State} (hr : Run (step p) ok (State.initial kernel) s) : Tidy p s :=
  hr.invariant (tidy_initial p kernel) fun _ _ _ ht _ hs => ht.step hs

theorem owner_of_mem_slotsOf {owner : Nat} {ms : List Signo} {xs : List (Option Addr)} {x : Slot}
    (h : x ∈ slotsOf owner ms xs) : x.owner = owner := by
  obtain ⟨⟨signo, slot⟩, _, hx⟩ := List.mem_filterMap.mp h
  obtain ⟨n, _, rfl⟩ := Option.map_eq_some_iff.mp hx
  rfl

/-- A reference some handle still has belongs to a handle still there. -/
theorem owner_of_pending {p : Platform} {s : State} {x : Slot} (h : x ∈ s.pending p) :
    x.owner ∈ s.owners := by
  rcases List.mem_append.mp h with h | h
  · obtain ⟨hd, hm, hx⟩ := List.mem_flatMap.mp h
    refine List.mem_append.mpr (Or.inl (List.mem_map.mpr ⟨hd, hm, ?_⟩))
    exact (owner_of_mem_slotsOf hx).symm
  · obtain ⟨a, hm, hx⟩ := List.mem_flatMap.mp h
    refine List.mem_append.mpr (Or.inr (List.mem_filterMap.mpr ⟨a, hm, ?_⟩))
    unfold Act.slots at hx
    split at hx
    · rename_i hc
      simp [Act.owner, hc, owner_of_mem_slotsOf hx]
    · rename_i hc
      simp [Act.owner, hc, owner_of_mem_slotsOf hx]
    · cases hx

end Wg14Signals
