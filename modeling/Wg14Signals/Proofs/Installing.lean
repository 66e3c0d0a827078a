import Wg14Signals.Proofs.Activations
import Wg14Signals.Proofs.Handoff
import Mathlib.Algebra.BigOperators.Group.Finset.Basic
import Mathlib.Algebra.Ring.Int.Defs
import Mathlib.Data.Nat.Cast.Basic

namespace Wg14Signals
open Lib

/-- The signals a call has installed and not undone, or still has to uninstall. -/
def Act.installed (a : Act) : List Signo :=
  match a.call with
  | .siginstall _ done _ => done
  | .rollback todo => todo
  | .siguninstall todo => todo
  | _ => []

/-- The installs of single signals made and not undone: those of the outstanding handles,
and those of the calls in progress. -/
def State.installed (p : Platform) (s : State) : List Signo :=
  s.installs.flatMap (fun h => p.members h.2) ++ s.acts.flatMap Act.installed

/-- The `install_count` of a signal's entry, zero without one. -/
def Global.installCount (g : Global) (signo : Signo) : Int :=
  match g.map signo with
  | some c => ((g.containers c).map Container.installCount).getD 0
  | none => 0

/-- The counters are those of the installs in the list. -/
structure Tallied (g : Global) (l : List Signo) : Prop where
  mapped : ∀ signo, signo ∈ l ↔ ∃ c, g.map signo = some c
  counts : ∀ signo c k, g.map signo = some c → g.containers c = some k →
    k.installCount = l.count signo
  total : g.sighandlersCount = l.length

namespace Tallied

variable {g g' : Global} {l l' : List Signo} {signo : Signo}

theorem perm (h : Tallied g l) (hp : l'.Perm l) : Tallied g l' where
  mapped signo := hp.mem_iff.trans (h.mapped signo)
  counts signo c k hm hc := by
    rw [h.counts signo c k hm hc, hp.count_eq]
  total := by rw [h.total, hp.length_eq]

theorem setKernel (h : Tallied g l) (signo : Signo) (sa : Sigaction) :
    Tallied (g.setKernel signo sa) l :=
  ⟨h.mapped, h.counts, h.total⟩

theorem still (h : Tallied g l) (hs : Still g g') : Tallied g' l where
  mapped signo := by
    rw [hs.map]
    exact h.mapped signo
  counts signo c k' hm hk' := by
    obtain ⟨k, hk, _, hn⟩ := hs.saved c k' hk'
    rw [hn]
    exact h.counts signo c k (hs.map ▸ hm) hk
  total := hs.count.trans h.total

/-- What a mapped signal's container counts is positive. -/
theorem positive (h : Tallied g l) {c : Addr} {k : Container} (hm : g.map signo = some c)
    (hc : g.containers c = some k) : 0 < k.installCount := by
  rw [h.counts signo c k hm hc]
  have hmem := (h.mapped signo).mpr ⟨c, hm⟩
  exact_mod_cast List.count_pos_iff.mpr hmem

/-- One more install of a signal, made in a state that differs from the old one in the
signal's entry and in the total. -/
theorem count_up (h : Tallied g l) {c : Addr} {k : Container} (hm : g'.map signo = some c)
    (hc : g'.containers c = some k) (hk : k.installCount = l.count signo + 1)
    (hmap : ∀ t, t ≠ signo → g'.map t = g.map t)
    (hcont : ∀ t d, t ≠ signo → g.map t = some d → g'.containers d = g.containers d)
    (ht : g'.sighandlersCount = g.sighandlersCount + 1) : Tallied g' (signo :: l) where
  mapped t := by
    by_cases he : t = signo
    · subst he
      exact ⟨fun _ => ⟨c, hm⟩, fun _ => List.mem_cons_self⟩
    · rw [hmap t he, List.mem_cons, or_iff_right he]
      exact h.mapped t
  counts t d kd hd hkd := by
    by_cases he : t = signo
    · subst he
      rw [hm] at hd
      cases hd
      rw [hc] at hkd
      cases hkd
      rw [hk, List.count_cons_self]
      push_cast
      rfl
    · rw [List.count_cons_of_ne (Ne.symm he)]
      rw [hmap t he] at hd
      rw [hcont t d he hd] at hkd
      exact h.counts t d kd hd hkd
  total := by
    rw [ht, h.total, List.length_cons]
    push_cast
    rfl

/-- One install of a signal less. The entry goes with the last. -/
theorem count_down (h : Tallied g (signo :: l)) {c : Addr}
    (hm : g'.map signo = some c ∧ signo ∈ l ∨ g'.map signo = none ∧ signo ∉ l)
    (hk : ∀ k, g'.map signo = some c → g'.containers c = some k → k.installCount = l.count signo)
    (hmap : ∀ t, t ≠ signo → g'.map t = g.map t)
    (hcont : ∀ t d, t ≠ signo → g.map t = some d → g'.containers d = g.containers d)
    (ht : g'.sighandlersCount = g.sighandlersCount - 1) : Tallied g' l where
  mapped t := by
    by_cases he : t = signo
    · subst he
      rcases hm with ⟨hm, hl⟩ | ⟨hm, hl⟩
      · simp [hm, hl]
      · simp [hm, hl]
    · rw [hmap t he, ← h.mapped t, List.mem_cons, or_iff_right he]
  counts t d kd hd hkd := by
    by_cases he : t = signo
    · subst he
      rcases hm with ⟨hm, _⟩ | ⟨hm, _⟩
      · rw [hm] at hd
        cases hd
        exact hk kd hm hkd
      · rw [hm] at hd
        cases hd
    · rw [hmap t he] at hd
      rw [hcont t d he hd] at hkd
      rw [h.counts t d kd hd hkd, List.count_cons_of_ne (Ne.symm he)]
  total := by
    rw [ht, h.total, List.length_cons]
    push_cast
    omega

theorem installs {p : Platform} {s : State} {L : Layout} (hi : Inv p s L) (h : Tallied s.g l)
    {ok : Bool} (hs : Installs signo s.g ok g') :
    Tallied g' (if ok then signo :: l else l) := by
  cases hs with
  | refused hs => exact h.still hs
  | counted c k hm hc hs =>
    refine still ?_ hs
    refine h.count_up (c := c) hm (setContainer_self _ _ _) ?_ (fun _ _ => rfl) ?_ rfl
    · simp [h.counts signo c k hm hc]
    · intro t d hne hd
      refine setContainer_other _ _ fun he => hne ?_
      exact hi.wf.mapInj t signo c (he ▸ hd) hm
  | published hm hs =>
    have hnot : signo ∉ l := fun hmem => by
      obtain ⟨c, hc⟩ := (h.mapped signo).mp hmem
      rw [hm] at hc
      cases hc
    refine still ?_ hs
    refine h.count_up (c := s.g.nextContainer) ?_ (setContainer_self _ _ _) ?_ ?_ ?_ rfl
    · simp [newSighandlerInfo]
    · simp [List.count_eq_zero_of_not_mem hnot]
    · intro t hne
      simp [newSighandlerInfo, hne]
    · intro t d _ hd
      have hne : d ≠ s.g.nextContainer := Nat.ne_of_lt (hi.wf.mapped_lt hd)
      refine (setContainer_other _ _ hne).trans ?_
      simp [newSighandlerInfo, hne]
  | dropped c k hm hc hz hs =>
    have hpos := h.positive hm hc
    omega

theorem uninstalls {p : Platform} {s : State} {L : Layout} (hi : Inv p s L)
    (h : Tallied s.g (signo :: l)) (hs : Uninstalls signo s.g g') : Tallied g' l := by
  have hcount : ∀ c k, s.g.map signo = some c → s.g.containers c = some k →
      k.installCount = l.count signo + 1 := by
    intro c k hm hc
    rw [h.counts signo c k hm hc, List.count_cons_self]
    push_cast
    rfl
  have hother : ∀ {c : Addr} (k : Container), s.g.map signo = some c → ∀ t d, t ≠ signo →
      s.g.map t = some d → (s.g.setContainer c k).containers d = s.g.containers d := by
    intro c k hm t d hne hd
    refine setContainer_other _ _ fun he => hne ?_
    exact hi.wf.mapInj t signo c (he ▸ hd) hm
  cases hs with
  | absent hm =>
    obtain ⟨c, hc⟩ := (h.mapped signo).mp List.mem_cons_self
    rw [hm] at hc
    cases hc
  | counted c k hm hc hn hs =>
    have hk := hcount c k hm hc
    have hmem : signo ∈ l := by
      refine List.count_pos_iff.mp (Nat.pos_of_ne_zero fun hz => hn ?_)
      rw [hk, hz]
      rfl
    refine still ?_ hs
    refine h.count_down (c := c) (Or.inl ⟨hm, hmem⟩) ?_ (fun _ _ => rfl) (hother _ hm) rfl
    intro k' _ hk'
    rw [Global.setCount_containers, setContainer_self] at hk'
    cases hk'
    simp [hk]
  | erased c k hm hc hn hs =>
    have hk := hcount c k hm hc
    have hnot : signo ∉ l := by
      refine List.count_eq_zero.mp ?_
      omega
    refine still ?_ hs
    refine h.count_down (c := c) (Or.inr ⟨by simp, hnot⟩) ?_ ?_ ?_ rfl
    · intro k' hm' _
      simp at hm'
    · intro t hne
      simp [hne]
    · exact hother _ hm

end Tallied

/-- The signal whose counters the next section of a call changes. -/
def Act.counting (a : Act) : Option Signo :=
  match a.call with
  | .siginstall _ _ (signo :: _) => some signo
  | .rollback (signo :: _) => some signo
  | .siguninstall (signo :: _) => some signo
  | _ => none

/-- A `siginstall` in progress has visited a part of its set and will visit the rest. -/
def Act.Whole (p : Platform) (a : Act) : Prop :=
  match a.call with
  | .siginstall set done todo => done ++ todo = p.members set
  | _ => True

/-- A section that counts nothing keeps the installs, handing them over if it returns. -/
theorem turn_uncounted {p : Platform} {s : State} {a : Act} {ys : List Act} {hs : List Handle}
    {g' : Global} (turn : Turn p s a ys hs g') (hn : a.counting = none) (hw : a.Whole p) :
    a.returns.flatMap (fun h => p.members h.2) ++ ys.flatMap Act.installed = a.installed ∧
      (∀ y ∈ ys, y.Whole p) ∧ (Still s.g g' ∨ ∃ signo sa, g' = s.g.setKernel signo sa) := by
  have hst : Still s.g g' ∨ ∃ signo sa, g' = s.g.setKernel signo sa := by
    rcases turn_dispositions turn with h | ⟨_, _, _, _, _, hc, _⟩ | ⟨_, _, hc, _⟩ |
      ⟨r, _, sa, _, _, hg⟩
    · exact Or.inl h
    · simp [Act.counting, hc] at hn
    · rcases hc with hc | hc <;> simp [Act.counting, hc] at hn
    · exact Or.inr ⟨r.signo, sa, hg⟩
  refine and_assoc.mp ⟨?_, hst⟩
  cases turn with
  | siginstalled set done hc => simp_all [Act.installed, Act.returns, Act.Whole]
  | absent r g' hc hr op =>
    cases hd : r.delivered <;> simp [Act.installed, Act.returns, Act.Whole, Act.phase, Act.goto, hc]
  | _ => simp_all [Act.installed, Act.returns, Act.Whole, Act.counting, Act.phase, Act.goto]

/-- A section of an install or of an uninstall. -/
theorem turn_counted {p : Platform} {s : State} {a : Act} {ys : List Act} {hs : List Handle}
    {g' : Global} (turn : Turn p s a ys hs g') {signo : Signo} (hn : a.counting = some signo)
    (hw : a.Whole p) : a.returns = [] ∧ (∀ y ∈ ys, y.Whole p) ∧
      ((∃ ok, Installs signo s.g ok g' ∧ signo ∈ p.loop ∧
        (ys.flatMap Act.installed).Perm (if ok then signo :: a.installed else a.installed)) ∨
      Uninstalls signo s.g g' ∧ a.installed = signo :: ys.flatMap Act.installed) := by
  cases turn with
  | install set done signo' todo env ok g' hc op =>
    simp only [Act.counting, hc, Option.some.injEq] at hn
    simp only [Act.Whole, hc] at hw
    subst hn
    have hloop : signo' ∈ p.loop := by
      have hmem : signo' ∈ p.members set := by simp [← hw]
      exact (List.mem_filter.mp hmem).1
    refine ⟨by simp [Act.returns, hc], ?_, Or.inl ⟨ok, install_installs op, hloop, ?_⟩⟩
    · cases ok <;> simp [Act.Whole, Act.goto, ← hw]
    · cases ok <;> simp [Act.installed, Act.goto, hc]
  | rollback signo' todo g' hc op =>
    simp only [Act.counting, hc, Option.some.injEq] at hn
    subst hn
    exact ⟨by simp [Act.returns, hc], by simp [Act.Whole, Act.goto],
      Or.inr ⟨uninstall_uninstalls op, by simp [Act.installed, Act.goto, hc]⟩⟩
  | uninstall signo' todo g' hc op =>
    simp only [Act.counting, hc, Option.some.injEq] at hn
    subst hn
    exact ⟨by simp [Act.returns, hc], by simp [Act.Whole, Act.goto],
      Or.inr ⟨uninstall_uninstalls op, by simp [Act.installed, Act.goto, hc]⟩⟩
  | _ => simp_all [Act.counting]

/-- Only signals of the loop are installed. -/
structure Looped (p : Platform) (s : State) : Prop where
  whole : ∀ a ∈ s.acts, a.Whole p
  mapped : ∀ signo c, s.g.map signo = some c → signo ∈ p.loop

section

variable {p : Platform} {s s' : State} {act : Action}

theorem whole_turn {a : Act} {ys : List Act} {hs : List Handle} {g' : Global}
    (turn : Turn p s a ys hs g') (hw : a.Whole p) : ∀ y ∈ ys, y.Whole p := by
  cases hc : a.counting with
  | none => exact (turn_uncounted turn hc hw).2.1
  | some signo => exact (turn_counted turn hc hw).2.1

theorem pushRaise_whole {t : Tid} {signo : Signo} {delivered : Bool} {acts : List Act}
    (hw : ∀ a ∈ acts, a.Whole p) : ∀ a ∈ (s.pushRaise p t signo delivered acts).acts, a.Whole p := by
  unfold State.pushRaise
  split
  · split
    · exact List.forall_mem_cons.mpr ⟨trivial, hw⟩
    · exact hw
  · exact List.forall_mem_cons.mpr ⟨trivial, hw⟩

theorem whole_step (hw : ∀ a ∈ s.acts, a.Whole p) (h : step p s act = .ok s') :
    ∀ a ∈ s'.acts, a.Whole p := by
  have hothers : ∀ t, ∀ a ∈ s.others t, a.Whole p := fun t a ha => hw a (List.mem_of_mem_eraseP ha)
  cases step_moves h with
  | idle h => exact h ▸ hw
  | begins t call installs hb h =>
    subst h
    refine List.forall_mem_cons.mpr ⟨?_, hw⟩
    cases hb <;> simp [Act.Whole]
  | destroys t hd hf h =>
    subst h
    exact List.forall_mem_cons.mpr ⟨trivial, hw⟩
  | raises t signo delivered h =>
    subst h
    exact pushRaise_whole hw
  | turns t a ys hs ht turn ha hh hl hn hd hi hu =>
    rw [ha]
    exact List.forall_mem_append.mpr ⟨whole_turn turn (hw a (List.mem_of_find?_eq_some ht)), hothers t⟩
  | reenters t a r phase ht hc hp h =>
    subst h
    exact pushRaise_whole (List.forall_mem_cons.mpr ⟨trivial, hothers t⟩)
  | recovers t a r f fs ht hd hc hr hf h =>
    subst h
    exact fun b hb => hw b (List.mem_of_mem_filter hb)

theorem Installs.map_other {g g' : Global} {signo t : Signo} {ok : Bool}
    (h : Installs signo g ok g') (ht : t ≠ signo) : g'.map t = g.map t := by
  cases h with
  | refused h => rw [h.map]
  | counted c k hm hc h =>
    rw [h.map]
    rfl
  | published hm h =>
    rw [h.map]
    simp [newSighandlerInfo, ht]
  | dropped c k hm hc hz h =>
    rw [h.map]
    simp [ht]

theorem Uninstalls.map_before {g g' : Global} {signo t : Signo} {c : Addr}
    (h : Uninstalls signo g g') (hm : g'.map t = some c) : g.map t = some c := by
  cases h with
  | absent h => exact hm
  | counted d k hd hc hn h =>
    rw [h.map] at hm
    exact hm
  | erased d k hd hc hn h =>
    rw [h.map] at hm
    simp only [Global.setMap_map] at hm
    split at hm
    · cases hm
    · exact hm

theorem Looped.step (hl : Looped p s) (h : Wg14Signals.step p s act = .ok s') : Looped p s' := by
  refine ⟨whole_step hl.whole h, fun signo c hm => ?_⟩
  rcases step_turns h with he | ⟨t, a, ys, hs, ht, turn, _⟩
  · exact hl.mapped signo c (he ▸ hm)
  · have hw := hl.whole a (List.mem_of_find?_eq_some ht)
    cases hc : a.counting with
    | none =>
      rcases (turn_uncounted turn hc hw).2.2 with hst | ⟨_, _, hg⟩
      · exact hl.mapped signo c (hst.map ▸ hm)
      · exact hl.mapped signo c (by rw [hg] at hm; exact hm)
    | some signo' =>
      rcases (turn_counted turn hc hw).2.2 with ⟨ok, hins, hloop, _⟩ | ⟨hun, _⟩
      · by_cases he : signo = signo'
        · exact he ▸ hloop
        · exact hl.mapped signo c (hins.map_other he ▸ hm)
      · exact hl.mapped signo c (hun.map_before hm)

theorem looped_initial (p : Platform) (kernel : Signo → Sigaction) :
    Looped p (State.initial kernel) :=
  ⟨by simp [State.initial], by simp [State.initial]⟩

end

/-- The counters are exact, and only signals of the loop are counted. -/
structure Counting (p : Platform) (s : State) : Prop where
  tallied : Tallied s.g (s.installed p)
  whole : ∀ a ∈ s.acts, a.Whole p
  inLoop : ∀ signo ∈ s.installed p, signo ∈ p.loop

/-- No recovery jump in this step discards a call that has signals installed. -/
def KeepsInstalls (s : State) (act : Action) : Prop := ∀ a ∈ s.discards act, a.installed = []

namespace Counting

variable {p : Platform} {s s' : State} {act : Action} {L : Layout}

/-- A step that leaves the counters alone and moves installs about. -/
theorem moved (hc : Counting p s) (ht : Tallied s.g (s.installed p) → Tallied s'.g (s.installed p))
    (hp : (s'.installed p).Perm (s.installed p)) (hw : ∀ a ∈ s'.acts, a.Whole p) :
    Counting p s' :=
  ⟨(ht hc.tallied).perm hp, hw, fun signo hm => hc.inLoop signo (hp.mem_iff.mp hm)⟩

theorem pushed (hc : Counting p s) {b : Act} (hg : s'.g = s.g) (ha : s'.acts = b :: s.acts)
    (hp : (s'.installs.flatMap (fun h => p.members h.2) ++ b.installed).Perm
      (s.installs.flatMap fun h => p.members h.2)) (hw : ∀ a ∈ s'.acts, a.Whole p) :
    Counting p s' := by
  refine hc.moved (fun ht => hg ▸ ht) ?_ hw
  rw [State.installed, ha, List.flatMap_cons, ← List.append_assoc]
  exact hp.append_right _

/-- The installs before and after a section, apart from those it has nothing to do with. -/
theorem installed_turn {t : Tid} {a : Act} {ys : List Act} (ht : s.top t = some a)
    (ha : s'.acts = ys ++ s.others t) (hi : s'.installs = a.returns ++ s.installs) :
    ∃ rest, (s.installed p).Perm (a.installed ++ rest) ∧
      (s'.installed p).Perm
        (a.returns.flatMap (fun h => p.members h.2) ++ ys.flatMap Act.installed ++ rest) := by
  refine ⟨s.installs.flatMap (fun h => p.members h.2) ++ (s.others t).flatMap Act.installed, ?_, ?_⟩
  · have hperm := (find_perm ht).flatMap_right Act.installed
    rw [List.flatMap_cons] at hperm
    refine (hperm.append_left _).trans ?_
    rw [← List.append_assoc, ← List.append_assoc]
    exact List.perm_append_comm.append_right _
  · rw [State.installed, ha, hi, List.flatMap_append, List.flatMap_append]
    simp only [List.append_assoc]
    refine List.Perm.append_left _ ?_
    rw [← List.append_assoc, ← List.append_assoc]
    exact List.perm_append_comm.append_right _

theorem raised (hc : Counting p s) (t : Tid) (signo : Signo) (delivered : Bool)
    {acts : List Act} (hp : (acts.flatMap Act.installed).Perm (s.acts.flatMap Act.installed))
    (hw : ∀ a ∈ acts, a.Whole p) : Counting p (s.pushRaise p t signo delivered acts) := by
  have base : Counting p { s with acts } := hc.moved id (hp.append_left _) hw
  unfold State.pushRaise
  split
  · split
    · exact base.pushed rfl rfl (by simp [Act.installed, State.push])
        (List.forall_mem_cons.mpr ⟨trivial, hw⟩)
    · exact base
  · exact base.pushed rfl rfl (by simp [Act.installed, State.push])
      (List.forall_mem_cons.mpr ⟨trivial, hw⟩)

theorem step (hi : Inv p s L) (hc : Counting p s) (hk : KeepsInstalls s act)
    (h : Wg14Signals.step p s act = .ok s') : Counting p s' := by
  have hw' := whole_step hc.whole h
  cases step_moves h with
  | idle h =>
    subst h
    exact hc
  | begins t call installs hb h =>
    subst h
    refine hc.pushed rfl rfl ?_ hw'
    cases hb with
    | siguninstall hd hf =>
      have hperm := (find_perm hf).flatMap_right fun h => p.members h.2
      rw [List.flatMap_cons] at hperm
      exact List.perm_append_comm.trans hperm.symm
    | siginstall set => simp [Act.installed, State.push]
    | create args ho => simp [Act.installed, State.push]
    | guard signals recovery => simp [Act.installed, State.push]
  | destroys t hd hf h =>
    subst h
    exact hc.pushed rfl rfl (by simp [Act.installed, State.push]) hw'
  | raises t signo delivered h =>
    subst h
    exact hc.raised t signo delivered (List.Perm.refl _) hc.whole
  | reenters t a r phase ht hcall hp h =>
    subst h
    have hperm := (find_perm ht).flatMap_right Act.installed
    refine hc.raised _ _ _ (List.Perm.trans ?_ hperm.symm) fun b hb => ?_
    · simp [Act.installed, Act.phase, Act.goto, hcall, State.others]
    · rcases List.mem_cons.mp hb with rfl | hb
      · trivial
      · exact hc.whole b (List.mem_of_mem_eraseP hb)
  | recovers t a r f fs ht hd hcall hr hf h =>
    subst h
    have hgone : (s.acts.filter (discarded t f)).flatMap Act.installed = [] := by
      refine List.flatMap_eq_nil_iff.mpr fun b hb => hk b ?_
      simpa only [State.discards, hd, ht, Option.map_some, hcall, hr, hf, ↓reduceIte] using hb
    have hperm := (List.filter_append_perm (discarded t f) s.acts).flatMap_right Act.installed
    rw [List.flatMap_append, hgone, List.nil_append] at hperm
    exact hc.moved id (hperm.append_left _) hw'
  | turns t a ys hs ht turn ha hh hl hn hd hins =>
    obtain ⟨rest, hbefore, hafter⟩ := installed_turn (p := p) ht ha hins
    have hwa := hc.whole a (List.mem_of_find?_eq_some ht)
    cases hcount : a.counting with
    | none =>
      obtain ⟨heq, _, hst⟩ := turn_uncounted turn hcount hwa
      rw [heq] at hafter
      refine hc.moved (fun htal => ?_) (hafter.trans hbefore.symm) hw'
      rcases hst with hst | ⟨signo, sa, hg⟩
      · exact htal.still hst
      · exact hg ▸ htal.setKernel signo sa
    | some signo =>
      obtain ⟨hret, _, hend⟩ := turn_counted turn hcount hwa
      rw [hret, List.flatMap_nil, List.nil_append] at hafter
      rcases hend with ⟨ok, hins', hloop, heq⟩ | ⟨hun, heq⟩
      · have hlist : (s'.installed p).Perm
            (if ok then signo :: s.installed p else s.installed p) := by
          refine (hafter.trans (heq.append_right rest)).trans ?_
          cases ok with
          | true => exact hbefore.symm.cons signo
          | false => exact hbefore.symm
        refine ⟨(hc.tallied.installs hi hins').perm hlist, hw', fun signo' hm => ?_⟩
        have hm' := hlist.mem_iff.mp hm
        cases ok with
        | true =>
          rcases List.mem_cons.mp hm' with rfl | hm'
          · exact hloop
          · exact hc.inLoop signo' hm'
        | false => exact hc.inLoop signo' hm'
      · rw [heq, List.cons_append] at hbefore
        have htal := (hc.tallied.perm hbefore.symm).uninstalls hi hun
        refine ⟨htal.perm hafter, hw', fun signo' hm => hc.inLoop signo' ?_⟩
        exact hbefore.mem_iff.mpr (List.mem_cons_of_mem _ (hafter.mem_iff.mp hm))

end Counting

theorem counting_initial (p : Platform) (kernel : Signo → Sigaction) :
    Counting p (State.initial kernel) := by
  refine ⟨⟨?_, ?_, ?_⟩, ?_, ?_⟩ <;> simp [State.initial, State.installed]

theorem counting_run {p : Platform} {kernel : Signo → Sigaction} {ok : State → Action → Prop}
    (hok : ∀ s act, ok s act → KeepsInstalls s act) {s : State}
    (hr : Run (step p) ok (State.initial kernel) s) : Counting p s := by
  have hall : (∃ L, Inv p s L) ∧ Counting p s := by
    refine hr.invariant (I := fun s => (∃ L, Inv p s L) ∧ Counting p s)
      ⟨⟨_, inv_initial p kernel⟩, counting_initial p kernel⟩ ?_
    rintro s act s' ⟨⟨L, hi⟩, hc⟩ hk h
    obtain ⟨L', hi', _⟩ := hi.step h
    exact ⟨⟨L', hi'⟩, hc.step hi (hok s act hk) h⟩
  exact hall.2

/-- No default action is handed off in this step, and no call that has signals installed is
discarded. -/
structure Calm (s : State) (act : Action) : Prop where
  handoff : ∀ t env a, act = .advance t env → s.top t = some a → a.handoff = none
  installs : KeepsInstalls s act

/-- Without a query no hand-off gets past it. -/
theorem current_step {p : Platform} {s s' : State} {act : Action}
    (hn : ∀ b ∈ s.acts, b.current = none) (hc : Calm s act) (h : step p s act = .ok s') :
    Serial s act ∧ ∀ b ∈ s'.acts, b.current = none := by
  have hres : ∀ b ∈ s.acts, b.resets = none := by
    intro b hb
    cases hr : b.resets with
    | none => rfl
    | some signo =>
      obtain ⟨sa, hx⟩ := Settled.resets_current hr
      rw [hn b hb] at hx
      cases hx
  have hdis : ∀ b ∈ s.discards act, b.resets = none := fun b hb => hres b (mem_of_discards hb)
  refine ⟨⟨fun t env a r hact ht hcall hr => ?_, fun _ _ _ _ _ _ _ _ _ _ _ b hb sa => ?_,
    fun _ _ _ _ _ _ _ _ _ _ _ _ _ b hb sa => ?_, hdis⟩, ?_⟩
  · have hno := hc.handoff t env a hact ht
    simp [Act.handoff, hcall, hr] at hno
  · simp [hn b hb]
  · simp [hn b hb]
  · rcases Settled.untouched_moves hdis h with ⟨_, hu⟩ | ⟨t, a, ys, hds, ht, turn, ha, hsec⟩
    · intro b hb
      refine Option.eq_none_iff_forall_not_mem.mpr fun x hx => ?_
      obtain ⟨a, ha, hax⟩ := hu.current b hb x hx
      rw [hn a ha] at hax
      cases hax
    · have hcur := hn a (List.mem_of_find?_eq_some ht)
      rcases turn_handoff turn with ⟨hys, _, _⟩ | ⟨r, hcall, hq | ⟨current, hr | hr | hr⟩⟩
      · intro b hb
        rw [ha] at hb
        rcases List.mem_append.mp hb with hb | hb
        · exact hys b hb
        · exact hn b (List.mem_of_mem_eraseP hb)
      · obtain ⟨env, hact⟩ := hsec.advances (by simp [hcall, Call.runsUserCode, hq.1])
        have hno := hc.handoff t env a hact ht
        simp [Act.handoff, hcall, hq.1] at hno
      all_goals simp [Act.current, hcall, hr.1] at hcur

theorem serial_run {p : Platform} {kernel : Signo → Sigaction} {s : State}
    (hr : Run (step p) Calm (State.initial kernel) s) :
    Run (step p) Serial (State.initial kernel) s ∧ ∀ b ∈ s.acts, b.current = none := by
  induction hr with
  | refl => exact ⟨.refl _, by simp [State.initial]⟩
  | tail act _ hc h ih =>
    obtain ⟨hs, hn⟩ := current_step ih.2 hc h
    exact ⟨.tail act ih.1 hs h, hn⟩

theorem nodup_loop (p : Platform) : p.loop.Nodup :=
  (List.nodup_range.map fun _ _ h => Int.ofNat.inj h).filter _

/-- Over a list that has everything once, the counts of a list add up to its length. -/
theorem sum_count {ms l : List Signo} (hn : ms.Nodup) (hl : ∀ x ∈ l, x ∈ ms) :
    (ms.map fun x => (l.count x : Int)).sum = l.length := by
  have hnat : (ms.map fun x => l.count x).sum = l.length := by
    have hsum := Multiset.sum_count_eq_card (s := ms.toFinset) (m := l) (by simpa using hl)
    simpa only [List.sum_toFinset _ hn, Multiset.coe_count, Multiset.coe_card] using hsum
  have hcast := map_list_sum (Nat.castAddMonoidHom Int) (ms.map fun x => l.count x)
  rw [List.map_map, hnat] at hcast
  exact hcast.symm

section

variable {p : Platform} {s : State}

theorem installCount_eq (hi : ∃ L, Inv p s L) (hc : Counting p s) (signo : Signo) :
    s.g.installCount signo = (s.installed p).count signo := by
  unfold Global.installCount
  split
  · rename_i c hm
    obtain ⟨L, hi⟩ := hi
    obtain ⟨k, hk⟩ := hi.wf.mapped signo c hm
    simp [hk, hc.tallied.counts signo c k hm hk]
  · rename_i hm
    have hnot : signo ∉ s.installed p := fun hmem => by
      obtain ⟨c, hc⟩ := (hc.tallied.mapped signo).mp hmem
      rw [hm] at hc
      cases hc
    simp [List.count_eq_zero_of_not_mem hnot]

end

/-- The counters of installs are exact at both levels, the dispositions go with the entries,
and nothing is left of either when everything is uninstalled. -/
theorem installs_counted (p : Platform) (kernel : Signo → Sigaction)
    (hk : ∀ signo, (kernel signo).handler ≠ .raw) {s : State}
    (hr : Run (step p) Calm (State.initial kernel) s) :
    (∀ signo, (∃ c, s.g.map signo = some c) ↔ 0 < s.g.installCount signo) ∧
    (∀ signo, s.g.installCount signo = (s.installed p).count signo) ∧
    s.g.sighandlersCount = (p.loop.map s.g.installCount).sum ∧
    (∀ signo, 0 < s.g.installCount signo → signo ∈ p.loop) ∧
    (∀ signo, s.g.kernel signo = .raw ↔ ∃ c, s.g.map signo = some c) ∧
    (∀ signo c, s.g.map signo = some c →
      ∃ k, s.g.containers c = some k ∧ k.oldHandler = kernel signo) ∧
    (s.installs = [] → (∀ a ∈ s.acts, a.installed = []) →
      ∀ signo, s.g.map signo = none ∧ s.g.kernel signo = kernel signo) := by
  obtain ⟨hser, hcur⟩ := serial_run hr
  have hc : Counting p s := counting_run (fun _ _ h => h.installs) hr
  obtain ⟨L, hi⟩ := inv_run hr
  have hset := settled_run hser
  have hdisp := (dispositions_kept p kernel hk hser).1
  have hcount := installCount_eq ⟨L, hi⟩ hc
  have hpos : ∀ signo, 0 < s.g.installCount signo ↔ signo ∈ s.installed p := by
    intro signo
    rw [hcount, ← List.count_pos_iff]
    exact Int.natCast_pos
  have hkernel : ∀ signo, (s.g.kernel signo = .raw ↔ ∃ c, s.g.map signo = some c) ∧
      (s.g.map signo = none → s.g.kernel signo = kernel signo) := by
    intro signo
    refine hdisp signo fun a ha hres => ?_
    obtain ⟨sa, hx⟩ := Settled.resets_current hres
    rw [hcur a ha] at hx
    cases hx
  refine ⟨fun signo => ?_, hcount, ?_, fun signo h => hc.inLoop signo ((hpos signo).mp h),
    fun signo => (hkernel signo).1, fun signo c hm => ?_, fun hnone hidle signo => ?_⟩
  · rw [hpos, hc.tallied.mapped]
  · rw [hc.tallied.total, ← sum_count (nodup_loop p) hc.inLoop, ← funext hcount]
  · obtain ⟨k, hk⟩ := hi.wf.mapped signo c hm
    exact ⟨k, hk, hset.books.saved signo c k hm hk⟩
  · have hempty : s.installed p = [] := by
      simp only [State.installed, hnone, List.flatMap_nil, List.nil_append]
      exact List.flatMap_eq_nil_iff.mpr hidle
    have hm : s.g.map signo = none := by
      refine Option.eq_none_iff_forall_ne_some.mpr fun c hm => ?_
      have hmem := (hc.tallied.mapped signo).mpr ⟨c, hm⟩
      rw [hempty] at hmem
      cases hmem
    exact ⟨hm, (hkernel signo).2 hm⟩

theorem calm_of_none {s : State} {act : Action} (hd : s.discards act = [])
    (hn : ∀ a ∈ s.acts, a.handoff = none) : Calm s act :=
  ⟨fun _ _ a _ ht => hn a (List.mem_of_find?_eq_some ht), by simp [KeepsInstalls, hd]⟩

/-- Two installs overlap, and a third fails at its second signal and is half rolled back. -/
theorem installs_counted_overlapping :
    ∃ s, Run (step .tiny) Calm (State.initial fun _ => .dfl) s ∧ s.installs.length = 2 ∧
      s.acts.length = 1 ∧ s.g.installCount 1 = (s.installed .tiny).count 1 ∧
      s.g.installCount 1 = 2 ∧ s.g.sighandlersCount = ([1, 2, 3].map s.g.installCount).sum ∧
      s.g.kernel 1 = .raw ∧ s.g.kernel 3 ≠ .raw := by
  obtain ⟨s, hr, hq⟩ := run_of_ends (f := step .tiny) (r := Calm)
    (s := State.initial fun _ => .dfl)
    (c := fun s act => (s.discards act).isEmpty && s.acts.all fun a => a.handoff.isNone)
    (q := fun s => s.installs.length == 2 && s.acts.length == 1 && s.g.installCount 1 == 2 &&
      (s.g.map 1).isSome && (s.g.map 3).isNone)
    (l := installOne ++ installOne ++ [.siginstall 1 none true, .advance 1 {}, .advance 1 {},
      .advance 1 { calloc := false }, .advance 1 {}])
    (fun s act h => by
      simp only [Bool.and_eq_true, List.isEmpty_iff, List.all_eq_true, Option.isNone_iff_eq_none]
        at h
      exact calm_of_none h.1 h.2)
    (by decide)
  simp only [Bool.and_eq_true, beq_iff_eq, Option.isSome_iff_exists,
    Option.isNone_iff_eq_none] at hq
  obtain ⟨⟨⟨⟨hi, ha⟩, hn⟩, hone⟩, hthree⟩ := hq
  obtain ⟨_, hcount, hsum, _, hker, _, _⟩ :=
    installs_counted .tiny (fun _ => .dfl) (fun _ => by decide) hr
  refine ⟨s, hr, hi, ha, hcount 1, hn, hsum, (hker 1).mpr hone, fun h => ?_⟩
  obtain ⟨c, hc⟩ := (hker 3).mp h
  rw [hthree] at hc
  cases hc

end Wg14Signals
