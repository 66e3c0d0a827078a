import Wg14Signals.Resume
import Wg14Signals.Proofs.UseAfterFree
import Wg14Signals.Proofs.Activations
import Wg14Signals.Proofs.Dispositions

namespace Wg14Signals
open Lib

/-- A signal in the map has been installed. -/
def Counted (g : Global) : Prop :=
  ∀ signo c k, g.map signo = some c → g.containers c = some k → 0 < k.installCount

namespace Counted

variable {p : Platform} {s s' : State} {act : Action} {L : Layout} {g g' : Global} {signo : Signo}

theorem still (h : Counted g) (hs : Still g g') : Counted g' := by
  intro t c k' hm hc
  obtain ⟨k, hk, _, hn⟩ := hs.saved c k' hc
  rw [hn]
  exact h t c k (hs.map ▸ hm) hk

theorem installs (h : Counted g) {ok : Bool} (hs : Installs signo g ok g') : Counted g' := by
  cases hs with
  | refused hst => exact h.still hst
  | counted c k hm hc hst =>
    refine still (fun t d kd hmt hd => ?_) hst
    by_cases he : d = c
    · subst he
      simp only [Global.setCount_containers, setContainer_self, Option.some.injEq] at hd
      subst hd
      exact Int.lt_add_one_of_le (Int.le_of_lt (h signo d k hm hc))
    · simp only [Global.setCount_containers, setContainer_other _ _ he] at hd
      exact h t d kd hmt hd
  | published hm hst =>
    refine still (fun t d kd hmt hd => ?_) hst
    by_cases he : d = g.nextContainer
    · subst he
      simp only [Global.setCount_containers, setContainer_self, Option.some.injEq] at hd
      subst hd
      exact Int.one_pos
    · simp only [Global.setCount_containers, setContainer_other _ _ he] at hd
      simp only [Global.setCount_map, Global.setContainer_map, newSighandlerInfo,
        Global.setMap_map] at hmt
      split at hmt
      · exact absurd (Option.some.inj hmt).symm he
      · refine h t d kd hmt ?_
        simpa [newSighandlerInfo, he] using hd
  | dropped c k hm hc hz hst =>
    refine still (fun t d kd hmt hd => ?_) hst
    simp only [Global.setMap_map] at hmt
    split at hmt
    · cases hmt
    · exact h t d kd hmt hd

theorem uninstalls (hw : ∀ t c, g.map signo = some c → g.map t = some c → t = signo)
    (h : Counted g) (hs : Uninstalls signo g g') : Counted g' := by
  cases hs with
  | absent hm => exact h
  | counted c k hm hc hn hst =>
    refine still (fun t d kd hmt hd => ?_) hst
    by_cases he : d = c
    · subst he
      simp only [Global.setCount_containers, setContainer_self, Option.some.injEq] at hd
      subst hd
      have hpos := h signo d k hm hc
      simp only
      omega
    · simp only [Global.setCount_containers, setContainer_other _ _ he] at hd
      exact h t d kd hmt hd
  | erased c k hm hc hn hst =>
    refine still (fun t d kd hmt hd => ?_) hst
    simp only [Global.setMap_map] at hmt
    split at hmt
    · cases hmt
    · rename_i hne
      have he : d ≠ c := by
        rintro rfl
        exact hne (hw t d hm hmt)
      simp only [Global.setMap_containers, Global.setKernel_containers,
        Global.setCount_containers, setContainer_other _ _ he] at hd
      exact h t d kd hmt hd

theorem step (hi : Inv p s L) (hc : Counted s.g) (h : Wg14Signals.step p s act = .ok s') :
    Counted s'.g := by
  rcases step_turns h with he | ⟨t, a, ys, hs, _, turn, _⟩
  · exact he ▸ hc
  · rcases turn_dispositions turn with hst | ⟨_, _, _, _, _, _, hin⟩ | ⟨signo, _, _, hun⟩ |
      ⟨_, _, _, _, _, hg⟩
    · exact hc.still hst
    · exact hc.installs hin
    · exact hc.uninstalls (fun t c hm hmt => hi.wf.mapInj t signo c hmt hm) hun
    · rw [hg]
      exact fun t c k hm hk => hc t c k hm hk

end Counted

section

variable {p : Platform} {s s' : State} {act : Action} {L L' : Layout} {a : Act} {x : Hold}

theorem park_cases (hx : x ∈ a.parks) : ∃ r pin, a.call = .raise r ∧ r.phase = .deciding pin ∧
    pin.abandoned = true ∧ x = ⟨a.id, pin.item, pin.current⟩ := by
  cases a with | mk tid id call =>
  cases call with
  | raise r =>
    obtain ⟨signo, delivered, phase⟩ := r
    cases phase with
    | deciding pin =>
      cases hp : pin.abandoned with
      | true =>
        simp only [Act.parks, hp, ↓reduceIte, List.mem_singleton] at hx
        exact ⟨_, pin, rfl, rfl, hp, hx⟩
      | false => simp [Act.parks, hp] at hx
    | _ => cases hx
  | _ => cases hx

/-- An unclaimed raise goes on to the node after the one it leaves. -/
theorem raiseLeave_next {g g' : Global} {item n m : Addr} {nd : Node} {l : Left}
    (hr : raiseLeave g item n false = .ok (l, g')) (hn : g.nodes n = some nd)
    (hnext : nd.links.next = some m) : ∃ value, l = .deciding m value := by
  obtain ⟨⟨next, g₁⟩, hu, hr⟩ := bind_ok.mp hr
  have hfound : next = some m := by
    obtain ⟨nd', hnd, hu⟩ := bind_ok.mp hu
    obtain ⟨_, he, hn'⟩ := Heap.read_ok.mp hnd
    cases he
    rw [hn] at hn'
    cases hn'
    simp only at hu
    split at hu
    · obtain ⟨k, _, hu⟩ := bind_ok.mp hu
      obtain ⟨⟨_, _⟩, _, hu⟩ := bind_ok.mp hu
      obtain ⟨⟨_, _⟩, _, hu⟩ := bind_ok.mp hu
      simp only [pure_ok, Prod.mk.injEq] at hu
      exact hu.1.symm.trans hnext
    · simp only [pure_ok, Prod.mk.injEq] at hu
      exact hu.1.symm.trans hnext
  subst hfound
  obtain ⟨⟨value, g₂⟩, _, hr⟩ := bind_ok.mp hr
  simp only [pure_ok, Prod.mk.injEq] at hr
  exact ⟨value, hr.1.symm⟩

/-- A mapped container leaves the map with the last uninstall of its signal. -/
theorem unmapped_step (hcount : Counted s.g) (h : step p s act = .ok s') {signo : Signo} {c : Addr}
    {k : Container} (hm : s.g.map signo = some c) (hc : s.g.containers c = some k)
    (hgone : s'.g.map signo ≠ some c) :
    c ∈ s.releases act ∧ ∃ t env, act = .advance t env := by
  rcases step_turns h with he | ⟨t, a, ys, hs, ht, turn, _, _, hsec, _⟩
  · exact absurd (he ▸ hm) hgone
  · rcases turn_dispositions turn with hst | ⟨_, _, t', _, ok, _, hin⟩ | ⟨t', todo, hcall, hun⟩ |
      ⟨_, _, _, _, _, hg⟩
    · exact absurd (hst.map ▸ hm) hgone
    · cases hin with
      | refused hst => exact absurd (hst.map ▸ hm) hgone
      | counted d kd hmd hd hst =>
        rw [hst.map] at hgone
        exact absurd hm hgone
      | published hmd hst =>
        have hne : signo ≠ t' := by
          rintro rfl
          rw [hm] at hmd
          cases hmd
        rw [hst.map] at hgone
        exact absurd (by simpa [newSighandlerInfo, hne] using hm) hgone
      | dropped d kd hmd hd hz hst =>
        by_cases he : signo = t'
        · subst he
          have hpos := hcount signo d kd hmd hd
          omega
        · rw [hst.map] at hgone
          exact absurd (by simpa [he] using hm) hgone
    · generalize s'.g = g' at hun hgone
      cases hun with
      | absent hmd => exact absurd hm hgone
      | counted d kd hmd hd hn hst =>
        rw [hst.map] at hgone
        exact absurd hm hgone
      | erased d kd hmd hd hn hst =>
        have he : signo = t' := by
          by_contra he
          rw [hst.map] at hgone
          exact hgone (by simpa [he] using hm)
        subst he
        rw [hm] at hmd
        cases hmd
        obtain ⟨env, rfl⟩ := hsec.advances (by rcases hcall with hcall | hcall <;> rw [hcall] <;> rfl)
        refine ⟨?_, t, env, rfl⟩
        have hin : c ∈ s.g.unmaps signo := by
          simp [Global.unmaps, hm, hd, hn]
        rcases hcall with hcall | hcall <;> simpa [State.releases, ht, hcall] using hin
    · rw [hg] at hgone
      exact absurd hm hgone

/-- A raise gives its container back when it is done with the deciders. -/
theorem left_step (h : step p s act = .ok s') {t : Tid} (ht : s.top t = some a) (hx : x ∈ a.holds)
    (hact : (∃ d, act = .decide t d) ∨ act = .abandon t)
    (hgone : s'.g.containers x.item = none) (hfree : ∀ y ∈ s'.holds, y.item ≠ x.item) :
    x.item ∈ s.releases act := by
  obtain ⟨r, pin, hc, hr, hp, rfl, hholds⟩ := hold_cases hx
  rcases hact with ⟨d, rfl⟩ | rfl
  · simp only [step, ht, hc, decideSection, hr, hp, Bool.false_eq_true, ↓reduceIte] at h
    obtain ⟨⟨l, g'⟩, hleave, h⟩ := bind_ok.mp h
    have hdone : (d != .nextDecider ||
        ((s.g.nodes pin.current).bind fun nd => nd.links.next).isNone) = true := by
      cases hd : d != .nextDecider with
      | true => rfl
      | false =>
        rw [hd] at hleave
        cases hn : s.g.nodes pin.current with
        | none => rfl
        | some nd =>
          cases hnext : nd.links.next with
          | none => simp [hnext]
          | some m =>
            -- it would have gone on to the next node, on the same container
            obtain ⟨value, rfl⟩ := raiseLeave_next hleave hn hnext
            simp only [pure_ok] at h
            refine absurd rfl (hfree ⟨a.id, pin.item, m⟩ ?_)
            rw [← h]
            simp [State.holds, Act.holds, hp]
    simp [State.releases, State.topHolds, ht, hholds, hdone]
  · simp only [step, ht, hc, hr, hp, Bool.false_eq_true, ↓reduceIte] at h
    obtain ⟨g', hab, h⟩ := bind_ok.mp h
    obtain ⟨k, _, hab⟩ := bind_ok.mp hab
    obtain ⟨nd, _, hab⟩ := bind_ok.mp hab
    simp only [pure_ok] at hab h
    rw [← h, ← hab] at hgone
    simp at hgone

/-- A container goes with the last reference on it, and only in the steps that give
one back. -/
theorem freed_step (hi : Inv p s L) (hi' : Inv p s' L') (ho : Outlives s.g s'.g)
    (hcount : Counted s.g) (h : step p s act = .ok s') {c : Addr} {k : Container}
    (hc : s.g.containers c = some k) (hgone : s'.g.containers c = none) :
    c ∈ s.releases act ∧ k.lifetimeRefcount = 1 := by
  have hlife := hi.wf.lifetime c k hc
  have hfree : ∀ y ∈ s'.holds, y.item ≠ c := by
    rintro y hy rfl
    obtain ⟨k', hk'⟩ := hi'.wf.held _ (List.mem_map_of_mem hy)
    rw [hgone] at hk'
    cases hk'
  have hunmapped : ∀ signo, s'.g.map signo ≠ some c := by
    intro signo hm
    obtain ⟨k', hk'⟩ := hi'.wf.mapped signo c hm
    rw [hgone] at hk'
    cases hk'
  have hidle : k.lifetimeRefcount ≠ 0 := by
    intro hz
    obtain ⟨k', hk', _⟩ := ho.idle c k hc hz
    rw [hgone] at hk'
    cases hk'
  rcases step_turns h with he | ⟨t, a, ys, hs, ht, turn, ha, hlost, hsec, hu⟩
  · rw [he, hc] at hgone
    cases hgone
  · -- what other calls hold is still held, so it is not on this container
    have hcount' : (s.holds.map Hold.item).count c = (a.holds.map Hold.item).count c := by
      have hsplit := (holds_split (s := s) (l := [a]) (r := s.others t) (find_perm ht)).map Hold.item
      have hnone : (((s.others t ++ s.lost).flatMap Act.holds).map Hold.item).count c = 0 := by
        refine List.count_eq_zero.mpr fun hm => ?_
        obtain ⟨y, hy, hyc⟩ := List.mem_map.mp hm
        refine hfree y ?_ hyc
        rw [State.holds, ha, hlost, List.append_assoc, List.flatMap_append]
        exact List.mem_append.mpr (Or.inr hy)
      rw [hsplit.count_eq, List.map_append, List.count_append, hnone]
      simp
    rw [hcount'] at hlife
    by_cases hm : ∃ signo, s.g.map signo = some c
    · obtain ⟨signo, hm⟩ := hm
      obtain ⟨hrel, t', env, rfl⟩ := unmapped_step hcount h hm hc (hunmapped signo)
      have hempty : a.holds = [] := List.eq_nil_iff_forall_not_mem.mpr fun x hx => by
        simpa using hu x hx
      have hone : mapRefs s.g c = 1 := if_pos ⟨signo, hm⟩
      refine ⟨hrel, ?_⟩
      rw [hlife, hempty, hone]
      rfl
    · have hzero : mapRefs s.g c = 0 := if_neg hm
      cases hholds : a.holds with
      | nil =>
        rw [hholds, hzero] at hlife
        exact absurd hlife hidle
      | cons x xs =>
        have hx : x ∈ a.holds := hholds ▸ List.mem_cons_self
        obtain ⟨_, _, _, _, _, _, hsingle⟩ := hold_cases hx
        rw [hsingle, hzero, List.map_cons, List.map_nil] at hlife
        have hitem : x.item = c := by
          by_contra hne
          rw [List.count_cons_of_ne hne] at hlife
          exact hidle hlife
        subst hitem
        refine ⟨left_step h ht hx (hu x hx) hgone hfree, ?_⟩
        rw [hlife, List.count_singleton_self]
        rfl

/-- A registered node is freed only by the destroy that gives back its last reference. -/
theorem Shift.live (hx : Shift p s act s' L L') {c n : Addr} {nd : Node} (hm : n ∈ L' c .global)
    (hn : s.g.nodes n = some nd) : (∃ nd', s'.g.nodes n = some nd') ∨
      LastRef s.g n ∧ ∃ searched, s.drops act = some (n, searched) := by
  -- only the node that may be freed while listed is
  have key : ∀ {x y : Option Addr}, Evolves x y s.g s'.g L L' → s'.g.nodes n = none →
      x = some n := by
    intro x y he hd
    refine (he.spares c .global n hm hd).resolve_left fun hd => ?_
    rw [hn] at hd
    cases hd
  cases hn' : s'.g.nodes n with
  | some nd' => exact Or.inl ⟨nd', rfl⟩
  | none =>
    cases hx with
    | keeps he hmap hp hh => exact absurd (key he hn') (by simp)
    | joins x item first hj ha hp hh =>
      by_cases he : n = x.node
      · obtain ⟨nd', hlive, _⟩ := hj.live
        rw [he, hlive] at hn'
        cases hn'
      · have hpay := hj.payload n he
        simp [hn, hn'] at hpay
    | drops x searched hd ho hx hs hp hh =>
      cases key hx.evolves hn'
      exact Or.inr ⟨hx.frees.mp hn', searched, hd⟩
    | enters x signo hmap hf he hg hp hh => exact absurd (key he hn') (by simp)
    | walks x next hx hnext he hg hp hh => exact absurd (key he hn') (by simp)

theorem pushRaise_parks {t : Tid} {signo : Signo} {delivered : Bool} {acts : List Act}
    (ha : a ∈ (s.pushRaise p t signo delivered acts).acts) (hx : x ∈ a.parks) : a ∈ acts := by
  unfold State.pushRaise at ha
  split at ha
  · split at ha
    · rcases List.mem_cons.mp ha with rfl | ha
      · cases hx
      · exact ha
    · exact ha
  · rcases List.mem_cons.mp ha with rfl | ha
    · cases hx
    · exact ha

theorem turn_parks {ys : List Act} {hs : List Handle} {g' : Global} (turn : Turn p s a ys hs g')
    {y : Act} (hy : y ∈ ys) (hx : x ∈ y.parks) : x ∈ a.holds := by
  cases turn with
  | install set done signo todo env ok g' hc op => cases ok <;> simp_all [Act.parks]
  | absent r g' hc hr op => cases hd : r.delivered <;> simp_all [Act.parks]
  | abandon r pin g' hc hr hp op =>
    rw [List.mem_singleton.mp hy] at hx
    simpa [Act.parks, Act.holds, hc, hr, hp] using hx
  | _ => simp_all [Act.parks]

/-- A decider that may take its abandonment back could do so before, or has just been
abandoned. -/
theorem parked_step (h : step p s act = .ok s') (hpark : x ∈ s'.parked) :
    x ∈ s.parked ∨ x ∈ s.abandons act := by
  obtain ⟨a, ha, hx⟩ := List.mem_flatMap.mp hpark
  have old : a ∈ s.acts → x ∈ s.parked ∨ x ∈ s.abandons act :=
    fun ha => Or.inl (List.mem_flatMap.mpr ⟨a, ha, hx⟩)
  cases step_moves h with
  | idle h => exact old (h ▸ ha)
  | begins t call installs hb h =>
    subst h
    rcases List.mem_cons.mp ha with rfl | ha
    · cases hb <;> cases hx
    · exact old ha
  | destroys t hd hf h =>
    subst h
    rcases List.mem_cons.mp ha with rfl | ha
    · cases hx
    · exact old ha
  | raises t signo delivered h =>
    subst h
    exact old (pushRaise_parks ha hx)
  | turns t b ys hs ht turn hacts hh hl hn hd hi hu =>
    rw [hacts] at ha
    rcases List.mem_append.mp ha with hy | ha
    · have hb := turn_parks turn hy hx
      rcases hu x hb with ⟨d, _, hnone⟩ | ⟨rfl, _⟩
      · obtain ⟨r, pin, hc, hr, hp, _⟩ := park_cases hx
        have := hnone a hy
        simp [Act.abandoned, hc, hr, hp] at this
      · exact Or.inr (by simpa [State.abandons, State.topHolds, ht] using hb)
    · exact old (List.mem_of_mem_eraseP ha)
  | reenters t b r phase ht hc hp h =>
    subst h
    rcases List.mem_cons.mp (pushRaise_parks ha hx) with rfl | ha
    · rcases hp with ⟨_, _, _, rfl⟩ | ⟨_, _, rfl⟩ <;> cases hx
    · exact old (List.mem_of_mem_eraseP ha)
  | recovers t b r f fs ht hd hc hr hf h =>
    subst h
    exact old (List.mem_of_mem_filter ha)

end

/-- No step gives back the last reference on a container or on a node that an abandoned
decider may ask for again. -/
structure Retractable (s : State) (act : Action) : Prop where
  container : ∀ x ∈ s.parked, x.item ∈ s.releases act →
    ∀ k, s.g.containers x.item = some k → k.lifetimeRefcount ≠ 1
  node : ∀ x ∈ s.parked, LastRef s.g x.node → (∀ y ∈ s.unpins act, y.node ≠ x.node) ∧
    ∀ searched, s.drops act ≠ some (x.node, searched)

/-- What an abandoned decider may ask for again is still there, and in its place. -/
structure Parked (s : State) (L : Layout) : Prop where
  counted : Counted s.g
  listed : ∀ x ∈ s.parked, x.node ∈ L x.item .global
  live : ∀ x ∈ s.parked, ∃ nd, s.g.nodes x.node = some nd

section

variable {p : Platform} {s s' : State} {act : Action} {L L' : Layout} {a : Act} {x : Hold}

theorem topHold_mem {t : Tid} (hx : x ∈ s.topHolds t) : x ∈ s.holds := by
  cases ht : s.top t with
  | none => simp [State.topHolds, ht] at hx
  | some a => exact hold_mem (top_mem ht) (by simpa [State.topHolds, ht] using hx)

theorem Parked.step (hi : Inv p s L) (hk : Parked s L) (hok : Retractable s act)
    (h : Wg14Signals.step p s act = .ok s') (hi' : Inv p s' L') (hx : Shift p s act s' L L')
    (hl : Lasts s act s' L L') : Parked s' L' := by
  have key : ∀ x ∈ s'.parked, x.node ∈ L' x.item .global ∧ ∃ nd, s'.g.nodes x.node = some nd := by
    intro x hpark
    -- it has been registered all along, and the step leaves it a reference
    have hbefore : x.node ∈ L x.item .global ∧ (∃ nd, s.g.nodes x.node = some nd) ∧
        (x.item ∈ s.releases act → ∀ k, s.g.containers x.item = some k → k.lifetimeRefcount ≠ 1) ∧
        (LastRef s.g x.node → (∀ y ∈ s.unpins act, y.node ≠ x.node) ∧
          ∀ searched, s.drops act ≠ some (x.node, searched)) := by
      rcases parked_step h hpark with hold | hnew
      · exact ⟨hk.listed x hold, hk.live x hold, hok.container x hold, hok.node x hold⟩
      · cases act with
        | abandon t =>
          have hm : x ∈ s.holds := topHold_mem hnew
          exact ⟨hi.inside x hm, hi.wf.pinned _ (List.mem_map_of_mem hm),
            by simp [State.releases], by simp [State.unpins, State.drops]⟩
        | _ => cases hnew
    obtain ⟨hlist, ⟨nd, hn⟩, hcont, hnode⟩ := hbefore
    have hkeep : x.node ∈ L' x.item .global := by
      rcases hl.stays x.item x.node hlist with hin | hgone | ⟨hlast, _, ⟨y, hy, hyn⟩ | ⟨searched, hd⟩⟩
      · exact hin
      · obtain ⟨k, hc⟩ : ∃ k, s.g.containers x.item = some k := by
          refine Option.ne_none_iff_exists'.mp fun hd => ?_
          rw [hi.wf.dead _ .global hd] at hlist
          cases hlist
        obtain ⟨hrel, hone⟩ := freed_step hi hi' hl.containers hk.counted h hc hgone
        exact absurd hone (hcont hrel k hc)
      · exact absurd hyn ((hnode hlast).1 y hy)
      · exact absurd hd ((hnode hlast).2 searched)
    refine ⟨hkeep, ?_⟩
    rcases hx.live hkeep hn with hlive | ⟨hlast, searched, hd⟩
    · exact hlive
    · exact absurd hd ((hnode hlast).2 searched)
  exact ⟨hk.counted.step hi h, fun x hx => (key x hx).1, fun x hx => (key x hx).2⟩

/-- What `sigdecider_abandon_resume` finds, and what it leaves. -/
theorem resume_cases {t : Tid} (h : resumeStep p s (.resume t) = .ok s') :
    s' = s ∨ ∃ a r pin g', s.top t = some a ∧ a.call = .raise r ∧ r.phase = .deciding pin ∧
      pin.abandoned = true ∧ sigdeciderAbandonResume s.g pin.item pin.current = .ok g' ∧
      s' = { s with
        g := g'
        acts := a.phase r (.deciding { pin with abandoned := false }) :: s.others t } := by
  simp only [resumeStep] at h
  split at h
  · rename_i a ht
    split at h
    · rename_i r hc
      split at h
      · rename_i pin hr
        split at h
        · rename_i hp
          obtain ⟨g', hg, h⟩ := bind_ok.mp h
          simp only [pure_ok] at h
          exact Or.inr ⟨a, r, pin, g', ht, hc, hr, hp, hg, h.symm⟩
        · simp only [pure_ok] at h
          exact Or.inl h.symm
      · simp at h
    · simp at h
  · simp at h

theorem abandonResume_ok {g g' : Global} {c n : Addr}
    (h : sigdeciderAbandonResume g c n = .ok g') : ∃ k nd, g.containers c = some k ∧
      g.nodes n = some nd ∧
      g' = (g.setContainer c { k with lifetimeRefcount := k.lifetimeRefcount + 1 }).setNode n
        (some { nd with refcount := nd.refcount + 1 }) := by
  obtain ⟨k, hk, h⟩ := bind_ok.mp h
  obtain ⟨nd, hnd, h⟩ := bind_ok.mp h
  obtain ⟨_, he, hn⟩ := Heap.read_ok.mp hnd
  cases he
  simp only [pure_ok] at h
  exact ⟨k, nd, readContainer_ok hk, hn, h.symm⟩

/-- The raise has its two references again, and everything else is as it was. -/
theorem resume_keeps {t : Tid} (hi : Inv p s L) (hk : Parked s L) (ht : Tidy p s)
    (h : resumeStep p s (.resume t) = .ok s') :
    Inv p s' L ∧ Parked s' L ∧ Tidy p s' ∧ (Safe s.g L → Safe s'.g L) := by
  rcases resume_cases h with rfl | ⟨a, r, pin, g', htop, hc, hr, hp, hg, hs'⟩
  · exact ⟨hi, hk, ht, id⟩
  obtain ⟨k, nd, hcont, hnode, hg'⟩ := abandonResume_ok hg
  let b : Act := a.phase r (.deciding { pin with abandoned := false })
  have hglob : s'.g = g' := by rw [hs']
  have hafter : s'.acts = [b] ++ s.others t := by rw [hs', List.singleton_append]
  have hhandles : s'.handles = s.handles := by rw [hs']
  have hlost : s'.lost = s.lost := by rw [hs']
  have hnext : s'.nextId = s.nextId := by rw [hs']
  have hacts : s.acts.Perm ([a] ++ s.others t) := find_perm htop
  have hx : (⟨a.id, pin.item, pin.current⟩ : Hold) ∈ s.parked :=
    List.mem_flatMap.mpr ⟨a, top_mem htop, by simp [Act.parks, hc, hr, hp]⟩
  have hlist : pin.current ∈ L pin.item .global := hk.listed _ hx
  have hlive : ∀ n md, s.g.nodes n = some md → ∃ md', s'.g.nodes n = some md' := by
    intro n md hn
    rw [hglob, hg']
    by_cases he : n = pin.current
    · exact ⟨_, by rw [he]; exact Heap.set_self _ _ _⟩
    · exact ⟨md, (Heap.set_other _ _ he).trans hn⟩
  have hpend : (s'.pending p).Perm (s.pending p) :=
    pending_change hacts hafter hhandles hlost (by simp [Act.slots, hc, b])
  have hholds : s'.holds.Perm (⟨a.id, pin.item, pin.current⟩ :: s.holds) := by
    have hx := holds_split (s := s) hacts
    have hy := holds_split (s := s') (l := [b]) (r := s.others t) (by rw [hafter])
    rw [hlost] at hy
    simp only [b, List.flatMap_cons, List.flatMap_nil, List.append_nil, Act.holds, phase_call,
      phase_id, hc, hr, hp, Bool.false_eq_true, ↓reduceIte, List.nil_append, List.cons_append]
      at hx hy
    exact hy.trans (hx.symm.cons _)
  have hw : Wf s'.g L (s.pending p) (pin.item :: s.holds.map Hold.item)
      (pin.current :: s.holds.map Hold.node) := by
    rw [hglob, hg']
    refine (hi.wf.hold hcont).pin hnode fun d hd => ?_
    have := hi.wf.unshared _ _ _ _ _ hlist hd
    exact absurd this.2 (by simp)
  have hrest : ∀ c ∈ s'.acts, c = b ∨ c ∈ s.acts := by
    intro c hm
    rw [hafter] at hm
    exact (List.mem_cons.mp hm).imp_right List.mem_of_mem_eraseP
  have hparks : ∀ x ∈ s'.parked, x ∈ s.parked := by
    intro x hm
    obtain ⟨c, hm, hxc⟩ := List.mem_flatMap.mp hm
    rcases hrest c hm with rfl | hm
    · simp [Act.parks, b] at hxc
    · exact List.mem_flatMap.mpr ⟨c, hm, hxc⟩
  have howners : s'.owners.Perm s.owners := by
    have hx := owners_split (s := s) hacts
    have hy := owners_split (s := s') (l := [b]) (r := s.others t) (by rw [hafter])
    rw [hhandles, hlost] at hy
    simp only [b, List.filterMap_cons, List.filterMap_nil, Act.owner, phase_call, hc] at hx hy
    exact hy.trans hx.symm
  refine ⟨⟨hw.perm hpend.symm (hholds.symm.map Hold.item) (hholds.symm.map Hold.node), ?_⟩,
    ⟨?_, fun x hx => hk.listed x (hparks x hx), fun x hx => ?_⟩,
    ⟨howners.nodup_iff.mpr ht.owners, fun o ho => ?_, fun c hm => ?_, hhandles ▸ ht.slots⟩,
    fun hs c n hn => ?_⟩
  · intro y hy
    rcases List.mem_cons.mp (hholds.mem_iff.mp hy) with rfl | hy
    · exact hlist
    · exact hi.inside y hy
  · intro signo c k' hm hc'
    rw [hglob, hg'] at hm hc'
    by_cases he : c = pin.item
    · subst he
      simp only [Global.setNode_containers, setContainer_self, Option.some.injEq] at hc'
      subst hc'
      exact hk.counted signo pin.item k hm hcont
    · simp only [Global.setNode_containers, setContainer_other _ _ he] at hc'
      exact hk.counted signo c k' hm hc'
  · obtain ⟨md, hm⟩ := hk.live x (hparks x hx)
    exact hlive _ md hm
  · rw [hnext]
    exact ht.fresh o (howners.mem_iff.mp ho)
  · rcases hrest c hm with rfl | hm
    · trivial
    · exact ht.stocked c hm
  · obtain ⟨md, hm⟩ := hs c n hn
    exact hlive n md hm

/-- An abandoned decider that has what it gave back can have it again. -/
theorem resume_run {t : Tid} (hi : Inv p s L) (hk : Parked s L) (ht : s.top t = some a)
    (hx : x ∈ a.parks) : ∃ s' k nd, resumeStep p s (.resume t) = .ok s' ∧
      s.g.containers x.item = some k ∧ s.g.nodes x.node = some nd ∧
      s'.g.containers x.item = some { k with lifetimeRefcount := k.lifetimeRefcount + 1 } ∧
      s'.g.nodes x.node = some { nd with refcount := nd.refcount + 1 } ∧
      s'.inside.Perm (x :: s.inside) := by
  have hpark : x ∈ s.parked := List.mem_flatMap.mpr ⟨a, top_mem ht, hx⟩
  obtain ⟨nd, hn⟩ := hk.live x hpark
  obtain ⟨k, hc⟩ : ∃ k, s.g.containers x.item = some k := by
    refine Option.ne_none_iff_exists'.mp fun hd => ?_
    have := hk.listed x hpark
    rw [hi.wf.dead _ .global hd] at this
    cases this
  obtain ⟨r, pin, hcall, hr, hp, rfl⟩ := park_cases hx
  have hop : sigdeciderAbandonResume s.g pin.item pin.current = .ok ((s.g.setContainer pin.item
      { k with lifetimeRefcount := k.lifetimeRefcount + 1 }).setNode pin.current
      (some { nd with refcount := nd.refcount + 1 })) := by
    have hrn : (s.g.setContainer pin.item
        { k with lifetimeRefcount := k.lifetimeRefcount + 1 }).readNode (some pin.current) = .ok nd :=
      Heap.read_ok.mpr ⟨_, rfl, hn⟩
    exact bind_ok.mpr ⟨k, Heap.read_ok.mpr ⟨_, rfl, hc⟩, bind_ok.mpr ⟨nd, hrn, rfl⟩⟩
  have hinside : ((a.phase r (.deciding { pin with abandoned := false }) :: s.others t).flatMap
      Act.holds).Perm (⟨a.id, pin.item, pin.current⟩ :: s.inside) := by
    have hb := (find_perm ht).flatMap_right Act.holds
    simp only [List.flatMap_cons, Act.holds, phase_call, phase_id, hcall, hr, hp,
      Bool.false_eq_true, ↓reduceIte, List.nil_append, List.cons_append] at hb ⊢
    exact (hb.symm.cons _)
  refine ⟨{ s with
    g := (s.g.setContainer pin.item
      { k with lifetimeRefcount := k.lifetimeRefcount + 1 }).setNode pin.current
        (some { nd with refcount := nd.refcount + 1 })
    acts := a.phase r (.deciding { pin with abandoned := false }) :: s.others t }, k, nd, ?_, hc, hn,
    ?_, ?_, hinside⟩
  · simp only [resumeStep, ht, hcall, hr, hp, ↓reduceIte]
    exact bind_ok.mpr ⟨_, hop, rfl⟩
  · exact Heap.set_self _ _ _
  · exact Heap.set_self _ _ _

end

/-- Where deciders take abandonments back, the library's own steps must leave them what
they would need. -/
def ResumeAction.Meets (q : State → Action → Prop) (s : State) : ResumeAction → Prop
  | .lib act => q s act
  | .resume _ => True

section

variable {p : Platform} {s s' : State} {kernel : Signo → Sigaction} {act : ResumeAction} {L : Layout}

theorem resumeStep_keeps (hi : Inv p s L) (hk : Parked s L) (ht : Tidy p s)
    (hok : act.Meets Retractable s) (h : resumeStep p s act = .ok s') :
    ∃ L', Inv p s' L' ∧ Parked s' L' ∧ Tidy p s' ∧
      (act.Meets SearchedAll s → Safe s.g L → Safe s'.g L') := by
  cases act with
  | lib act =>
    obtain ⟨L', hi', hx, hl⟩ := hi.step h
    exact ⟨L', hi', hk.step hi hok h hi' hx hl, ht.step h, fun hs hsafe => hi.safe_step hsafe hs hx⟩
  | resume t =>
    obtain ⟨hi', hk', ht', hsafe⟩ := resume_keeps hi hk ht h
    exact ⟨L, hi', hk', ht', fun _ => hsafe⟩

theorem parked_initial (kernel : Signo → Sigaction) :
    Parked (State.initial kernel) fun _ _ => [] := by
  constructor <;> simp [Counted, State.initial, State.parked]

theorem parked_run
    (hr : Run (resumeStep p) (fun s act => act.Meets Retractable s) (State.initial kernel) s) :
    ∃ L, Inv p s L ∧ Parked s L := by
  obtain ⟨L, hi, hk, _⟩ := hr.invariant (I := fun s => ∃ L, Inv p s L ∧ Parked s L ∧ Tidy p s)
    ⟨_, inv_initial p kernel, parked_initial kernel, tidy_initial p kernel⟩ (by
      rintro s act s' ⟨L, hi, hk, ht⟩ hok h
      obtain ⟨L', hi', hk', ht', _⟩ := resumeStep_keeps hi hk ht hok h
      exact ⟨L', hi', hk', ht'⟩)
  exact ⟨L, hi, hk⟩

theorem resume_fails {t : Tid} {e : Fault} (hi : Inv p s L) (hk : Parked s L)
    (h : resumeStep p s (.resume t) = .error e) : e = .disabled := by
  simp only [resumeStep] at h
  split at h
  · rename_i a ht
    split at h
    · rename_i r hc
      split at h
      · rename_i pin hr
        split at h
        · rename_i hp
          have hx : ⟨a.id, pin.item, pin.current⟩ ∈ a.parks := by simp [Act.parks, hc, hr, hp]
          obtain ⟨s', _, _, hrun, _⟩ := resume_run hi hk ht hx
          simp [resumeStep, ht, hc, hr, hp, h] at hrun
        · simp at h
      · simp only [throw_error] at h
        exact h.symm
    · simp only [throw_error] at h
      exact h.symm
  · simp only [throw_error] at h
    exact h.symm

/-- Nor does any step fail while also no destroy frees a node behind the back of an
unmapped container. -/
theorem resumeStep_safe
    (hr : Run (resumeStep p) (fun s act => act.Meets Retractable s ∧ act.Meets SearchedAll s)
      (State.initial kernel) s) {e : Fault} (h : resumeStep p s act = .error e) : e = .disabled := by
  obtain ⟨L, hi, hk, ht, hs⟩ := hr.invariant
    (I := fun s => ∃ L, Inv p s L ∧ Parked s L ∧ Tidy p s ∧ Safe s.g L)
    ⟨_, inv_initial p kernel, parked_initial kernel, tidy_initial p kernel, by simp [Safe, Heap.AllLive]⟩
    (by
      rintro s act s' ⟨L, hi, hk, ht, hs⟩ hok h
      obtain ⟨L', hi', hk', ht', hsafe⟩ := resumeStep_keeps hi hk ht hok.1 h
      exact ⟨L', hi', hk', ht', hsafe hok.2 hs⟩)
  cases act with
  | lib act =>
    rcases step_fails (p := p) h with hd | hf
    · exact hd
    · exact absurd hf (hi.safe ht (fun _ c _ => hs c) fun x _ => hs x.item)
  | resume t => exact resume_fails hi hk h

end

/-- While no step takes the last reference on what an abandoned decider has given back, the
decider can have it again at any time: the container and the node are there, it gets one
reference on each, and so has every raise inside a decider. The rest of the walk then
meets only live objects, if destroys do not free nodes that are still linked. -/
theorem abandonment_retractable (p : Platform) (kernel : Signo → Sigaction) {s : State}
    (hr : Run (resumeStep p) (fun s act => act.Meets Retractable s) (State.initial kernel) s) :
    (∀ t a x, s.top t = some a → x ∈ a.parks → ∃ s' k nd, resumeStep p s (.resume t) = .ok s' ∧
      s.g.containers x.item = some k ∧ s.g.nodes x.node = some nd ∧
      s'.g.containers x.item = some { k with lifetimeRefcount := k.lifetimeRefcount + 1 } ∧
      s'.g.nodes x.node = some { nd with refcount := nd.refcount + 1 } ∧
      s'.inside.Perm (x :: s.inside)) ∧
    (∀ x ∈ s.inside, ∃ k nd, s.g.containers x.item = some k ∧ s.g.nodes x.node = some nd ∧
      k.lifetimeRefcount = mapRefs s.g x.item + (s.holds.map Hold.item).count x.item ∧
      nd.refcount = s.handleRefs p x.node + (s.holds.map Hold.node).count x.node) ∧
    (Run (resumeStep p) (fun s act => act.Meets Retractable s ∧ act.Meets SearchedAll s)
        (State.initial kernel) s →
      ∀ act e, resumeStep p s act = .error e → e = .disabled) := by
  obtain ⟨L, hi, hk⟩ := parked_run hr
  refine ⟨fun t a x ht hx => ?_, fun x hx => ?_, fun hr act e => resumeStep_safe hr⟩
  · exact resume_run hi hk ht hx
  · have hm := inside_holds hx
    obtain ⟨k, hc⟩ := hi.wf.held _ (List.mem_map_of_mem hm)
    obtain ⟨nd, hn⟩ := hi.wf.pinned _ (List.mem_map_of_mem hm)
    exact ⟨k, nd, hc, hn, hi.wf.lifetime _ k hc, hi.wf.refcount _ nd hn⟩

/-- Nothing is given back in this step, or nobody may ask for it again. -/
def State.retains (s : State) : ResumeAction → Bool
  | .lib act => s.parked.isEmpty ||
    (s.releases act).isEmpty && (s.unpins act).isEmpty && (s.drops act).isNone
  | .resume _ => true

theorem retains_meets {s : State} {act : ResumeAction} (h : s.retains act = true) :
    act.Meets Retractable s := by
  cases act with
  | lib act =>
    simp only [State.retains, Bool.or_eq_true, Bool.and_eq_true, List.isEmpty_iff,
      Option.isNone_iff_eq_none] at h
    rcases h with hnone | ⟨⟨hr, hu⟩, hd⟩
    · exact ⟨by simp [hnone], by simp [hnone]⟩
    · exact ⟨by simp [hr], by simp [hu, hd]⟩
  | resume t => trivial

/-- Another thread registers a second decider while the first one is abandoned. -/
theorem abandonment_retractable_registering :
    ∃ s s', Run (resumeStep .tiny) (fun s act => act.Meets Retractable s)
        (State.initial fun _ => .dfl) s ∧
      s.inside = [] ∧ resumeStep .tiny s (.resume 1) = .ok s' ∧ ∃ x, s'.inside.Perm [x] := by
  obtain ⟨s, hr, hq⟩ := run_of_ends (f := resumeStep .tiny)
    (r := fun s act => act.Meets Retractable s)
    (s := State.initial fun _ => .dfl) (c := State.retains)
    (q := fun s => s.inside.isEmpty && (s.top 1).any fun a => !a.parks.isEmpty)
    (l := (installOne ++ registerOne ++ enterOne ++ [Action.abandon 1] ++ registerOne).map .lib)
    (fun s act h => retains_meets h) (by decide)
  simp only [Bool.and_eq_true, List.isEmpty_iff, Option.any_eq_true, Bool.not_eq_true',
    List.isEmpty_eq_false_iff_exists_mem] at hq
  obtain ⟨hin, a, ht, x, hx⟩ := hq
  obtain ⟨s', _, _, hrun, _, _, _, _, hperm⟩ :=
    (abandonment_retractable .tiny (fun _ => .dfl) hr).1 1 a x ht hx
  exact ⟨s, s', hr, hin, hrun, x, hin ▸ hperm⟩

/-- Without the condition: the handle is destroyed and the signal uninstalled while the
decider is abandoned. Both objects are gone when it calls `sigdecider_abandon_resume`. -/
theorem resume_after_free :
    ∃ s, Run (resumeStep .tiny) (fun _ _ => True) (State.initial fun _ => .dfl) s ∧
      (∃ a x, s.top 1 = some a ∧ x ∈ a.parks ∧ s.g.containers x.item = none ∧
        s.g.nodes x.node = none) ∧
      resumeStep .tiny s (.resume 1) = .error (.container (some 0)) := by
  obtain ⟨s, hr, hq⟩ := run_of_ends (f := resumeStep .tiny) (r := fun _ _ => True)
    (s := State.initial fun _ => .dfl) (c := fun _ _ => true)
    (q := fun s => ((s.top 1).any fun a => a.parks.any fun x =>
        (s.g.containers x.item).isNone && (s.g.nodes x.node).isNone) &&
      failsWith (resumeStep .tiny s (.resume 1)) (.container (some 0)))
    (l := (installOne ++ registerOne ++ enterOne ++ [Action.abandon 1] ++ giveBackOne).map .lib)
    (fun _ _ _ => trivial) (by decide)
  simp only [Bool.and_eq_true, Option.any_eq_true, List.any_eq_true, Option.isNone_iff_eq_none,
    failsWith_iff] at hq
  obtain ⟨⟨a, ht, x, hx, hc, hn⟩, hfail⟩ := hq
  exact ⟨s, hr, ⟨a, x, ht, hx, hc, hn⟩, hfail⟩

end Wg14Signals
