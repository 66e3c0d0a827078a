import Wg14Signals.Proofs.Failures
import Wg14Signals.Proofs.Activations

namespace Wg14Signals
open Lib

/-- No recovery jump in this step discards a raise that is inside a global decider
and has not been abandoned. -/
def KeepsRaises (s : State) (act : Action) : Prop := ∀ a ∈ s.discards act, a.holds = []

/-- Every live node belongs to a handle, which has its reference while intact. -/
def Accounted (p : Platform) (s : State) : Prop :=
  ∀ n nd, s.g.nodes n = some nd → nd.owner < s.nextId ∧
    (nd.owner ∈ s.intact → ∃ x ∈ s.pending p, x.node = n)

section

variable {p : Platform} {s s' : State} {act : Action} {L L' : Layout}

theorem accounted_step (hi : Inv p s L) (hi' : Inv p s' L') (ht : Tidy p s)
    (ha : Accounted p s) (h : step p s act = .ok s') (hx : Shift p s act s' L L') :
    Accounted p s' := by
  have ht' := ht.step h
  have hn : s.nextId ≤ s'.nextId := (ht.owners_step h).2.1
  -- a node that was there, and a slot for it that is still there
  have keep : (∀ n nd', s'.g.nodes n = some nd' → ∃ nd, s.g.nodes n = some nd ∧ nd.owner = nd'.owner) →
      (∀ x ∈ s.pending p, x.owner ∈ s'.intact → x ∈ s'.pending p) → Accounted p s' := by
    intro hback hkeep n nd' hnd'
    obtain ⟨nd, hnd, ho⟩ := hback n nd' hnd'
    obtain ⟨hlt, hslot⟩ := ha n nd hnd
    rw [← ho]
    refine ⟨Nat.lt_of_lt_of_le hlt hn, fun hin => ?_⟩
    have hold := (intact_step h hin).resolve_right (Nat.ne_of_lt hlt)
    obtain ⟨x, hxp, rfl⟩ := hslot hold
    obtain ⟨nd₂, hnd₂, ho₂⟩ := hi.wf.owned x hxp
    rw [hnd] at hnd₂
    cases hnd₂
    exact ⟨x, hkeep x hxp (ho₂ ▸ hin), rfl⟩
  cases hx with
  | keeps he hm hp hh => exact keep he.owners fun x hx _ => hp.mem_iff.mpr hx
  | joins x item first hj _ hp hh =>
    intro n nd' hnd'
    by_cases hxn : n = x.node
    · have hxp : x ∈ s'.pending p := hp.mem_iff.mpr List.mem_cons_self
      obtain ⟨nd, hnd, ho⟩ := hi'.wf.owned x hxp
      rw [hxn, hnd] at hnd'
      cases hnd'
      rw [ho]
      exact ⟨ht'.fresh _ (owner_of_pending hxp), fun _ => ⟨x, hxp, hxn.symm⟩⟩
    · have hpay := hj.payload n hxn
      rw [hnd'] at hpay
      obtain ⟨nd, hnd, hpay⟩ := Option.map_eq_some_iff.mp hpay.symm
      obtain ⟨hlt, hslot⟩ := ha n nd hnd
      rw [owner_of_payload hpay]
      refine ⟨Nat.lt_of_lt_of_le hlt hn, fun hin => ?_⟩
      obtain ⟨y, hyp, hy⟩ := hslot ((intact_step h hin).resolve_right (Nat.ne_of_lt hlt))
      exact ⟨y, hp.mem_iff.mpr (List.mem_cons_of_mem _ hyp), hy⟩
  | drops x searched hd ho hx hs hp hh =>
    refine keep hx.evolves.owners fun y hy hin => ?_
    rcases List.mem_cons.mp (hp.mem_iff.mp hy) with rfl | hy'
    · -- the slot given back is that of a handle being destroyed
      obtain ⟨a, ham, hdest⟩ := ho
      have hlt := ht.fresh _ (owner_of_pending hy)
      exact absurd ((intact_step h hin).resolve_right (Nat.ne_of_lt hlt)) (ht.not_intact ham hdest)
    · exact hy'
  | enters x signo hm hf he hg hp hh => exact keep he.owners fun x hx _ => hp.mem_iff.mpr hx
  | walks x next hx hn he hg hp hh => exact keep he.owners fun x hx _ => hp.mem_iff.mpr hx

theorem accounted_run {kernel : Signo → Sigaction} {ok : State → Action → Prop}
    (hr : Run (step p) ok (State.initial kernel) s) : Accounted p s := by
  have hall : (∃ L, Inv p s L) ∧ Tidy p s ∧ Accounted p s := by
    refine hr.invariant (I := fun s => (∃ L, Inv p s L) ∧ Tidy p s ∧ Accounted p s)
      ⟨⟨_, inv_initial p kernel⟩, tidy_initial p kernel, fun n nd hn => by cases hn⟩ ?_
    rintro s act s' ⟨⟨L, hi⟩, ht, ha⟩ - h
    obtain ⟨L', hi', hx, _⟩ := hi.step h
    exact ⟨⟨L', hi'⟩, ht.step h, accounted_step hi hi' ht ha h hx⟩
  exact hall.2.2

/-- Without such jumps nothing a raise held is lost. -/
theorem lost_holds_step (hl : s.lost.flatMap Act.holds = []) (hok : KeepsRaises s act)
    (h : step p s act = .ok s') : s'.lost.flatMap Act.holds = [] := by
  rcases lost_cases h with he | he
  · rw [he, hl]
  · rw [he, List.flatMap_append, hl, List.append_nil]
    exact List.flatMap_eq_nil_iff.mpr hok

theorem holds_eq_inside (hl : s.lost.flatMap Act.holds = []) : s.holds = s.inside := by
  rw [State.holds, List.flatMap_append, hl, List.append_nil]
  rfl

theorem inside_run {kernel : Signo → Sigaction} {ok : State → Action → Prop}
    (hok : ∀ s act, ok s act → KeepsRaises s act)
    (hr : Run (step p) ok (State.initial kernel) s) : s.holds = s.inside :=
  holds_eq_inside (hr.invariant (I := fun s => s.lost.flatMap Act.holds = []) rfl
    fun _ _ _ hl ha hs => lost_holds_step hl (hok _ _ ha) hs)

/-- The handle's share of a node's count: one while the handle is intact, none once
it is destroyed, and in between one until its slot is visited. -/
theorem handleRefs_spec (hi : Inv p s L) (ha : Accounted p s) {n : Addr} {nd : Node}
    (hn : s.g.nodes n = some nd) : s.handleRefs p n ≤ 1 ∧
      (nd.owner ∈ s.intact → s.handleRefs p n = 1) ∧
      (nd.owner ∉ s.owners → s.handleRefs p n = 0) := by
  have hle : s.handleRefs p n ≤ 1 := List.nodup_iff_count.mp hi.wf.distinct n
  refine ⟨hle, fun hin => ?_, fun hout => ?_⟩
  · obtain ⟨x, hx, rfl⟩ := (ha n nd hn).2 hin
    have : 0 < s.handleRefs p x.node := List.count_pos_iff.mpr (List.mem_map_of_mem hx)
    omega
  · refine List.count_eq_zero.mpr fun hm => ?_
    obtain ⟨x, hx, rfl⟩ := List.mem_map.mp hm
    obtain ⟨nd', hn', ho⟩ := hi.wf.owned x hx
    rw [hn] at hn'
    cases hn'
    exact hout (ho ▸ owner_of_pending hx)

end

/-- The counts are those of the map, the handles and the raises, a container is
freed only when its count has come to zero, and no step touches a freed one. -/
theorem refcounts_exact (p : Platform) (kernel : Signo → Sigaction) {s : State}
    (hr : Run (step p) KeepsRaises (State.initial kernel) s) :
    (∀ c k, s.g.containers c = some k →
      k.lifetimeRefcount = mapRefs s.g c + (s.inside.map Hold.item).count c) ∧
    (∀ n nd, s.g.nodes n = some nd →
      nd.refcount = s.handleRefs p n + (s.inside.map Hold.node).count n ∧
        s.handleRefs p n ≤ 1 ∧ (nd.owner ∈ s.intact → s.handleRefs p n = 1) ∧
        (nd.owner ∉ s.owners → s.handleRefs p n = 0)) ∧
    (∀ act s' c k, step p s act = .ok s' → s.g.containers c = some k →
      s'.g.containers c = none → mapRefs s'.g c = 0 ∧ c ∉ s'.inside.map Hold.item) ∧
    ∀ act e, step p s act = .error e → ∀ q, e ≠ .container q := by
  obtain ⟨L, hi⟩ := inv_run hr
  have hin := inside_run (fun _ _ h => h) hr
  have hw := hi.wf
  rw [hin] at hw
  refine ⟨hw.lifetime, ?_, ?_, ?_⟩
  · exact fun n nd hn => ⟨hw.refcount n nd hn, handleRefs_spec hi (accounted_run hr) hn⟩
  · intro act s' c k hs _ hfree
    obtain ⟨L', hi', _⟩ := hi.step hs
    constructor
    · refine if_neg ?_
      rintro ⟨signo, hm⟩
      obtain ⟨k', hk'⟩ := hi'.wf.mapped signo c hm
      rw [hfree] at hk'
      cases hk'
    · intro hm
      obtain ⟨x, hx, rfl⟩ := List.mem_map.mp hm
      obtain ⟨k', hk'⟩ := hi'.wf.held _ (List.mem_map_of_mem (inside_holds hx))
      rw [hfree] at hk'
      cases hk'
  · rintro act e he q rfl
    rcases step_fails (p := p) he with hd | hf
    · cases hd
    · exact (hi.fails (tidy_run hr) hf).elim

theorem refcounts_exact_raising :
    ∃ s k, Run (step .tiny) KeepsRaises (State.initial fun _ => .dfl) s ∧
      s.g.containers 0 = some k ∧ k.lifetimeRefcount = 2 ∧
      k.lifetimeRefcount = mapRefs s.g 0 + (s.inside.map Hold.item).count 0 := by
  obtain ⟨s, hr, hq⟩ := run_of_ends (f := step .tiny) (r := KeepsRaises)
    (s := State.initial fun _ => .dfl) (c := fun s act => (s.discards act).isEmpty)
    (q := fun s => (s.g.containers 0).any fun k => k.lifetimeRefcount == 2)
    (l := installOne ++ registerOne ++ [.raise 1 1, .advance 1 {}])
    (fun s act h a ha => by rw [List.isEmpty_iff.mp h] at ha; cases ha) (by decide)
  obtain ⟨k, hk, hcount⟩ := (Option.any_eq_true _ _).mp hq
  exact ⟨s, k, hr, hk, beq_iff_eq.mp hcount, (refcounts_exact .tiny _ hr).1 0 k hk⟩

end Wg14Signals
