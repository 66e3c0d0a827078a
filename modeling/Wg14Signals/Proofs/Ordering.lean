import Wg14Signals.Registrations
import Wg14Signals.Proofs.Consulting

namespace Wg14Signals
open Lib

section

variable {log : List Registration} {c n : Addr}

theorem mem_callOrder :
    n ∈ callOrder log c ↔ ∃ x ∈ log, x.container = c ∧ x.node = n := by
  simp only [callOrder, List.mem_map, List.mem_append, List.mem_reverse, List.mem_filter,
    beq_iff_eq, Bool.not_eq_true']
  constructor
  · rintro ⟨x, ⟨⟨hx, hc⟩, _⟩ | ⟨⟨hx, hc⟩, _⟩, hn⟩
    · exact ⟨x, hx, hc, hn⟩
    · exact ⟨x, hx, hc, hn⟩
  · rintro ⟨x, hx, hc, hn⟩
    cases hf : x.callfirst with
    | true => exact ⟨x, Or.inl ⟨⟨hx, hc⟩, hf⟩, hn⟩
    | false => exact ⟨x, Or.inr ⟨⟨hx, hc⟩, hf⟩, hn⟩

theorem nodup_callOrder (hd : (log.map Registration.node).Nodup) : (callOrder log c).Nodup := by
  have hregs := hd.sublist ((List.filter_sublist (p := fun x => x.container == c)).map _)
  refine (List.Perm.nodup_iff (List.Perm.map _ ?_)).mpr hregs
  exact ((List.reverse_perm _).append_right _).trans (List.filter_append_perm _ _)

/-- A new registration goes to one end of its container's order, and leaves all others. -/
theorem callOrder_concat (x : Registration) : callOrder (log ++ [x]) c =
    if x.container = c then
      if x.callfirst then x.node :: callOrder log c else callOrder log c ++ [x.node]
    else callOrder log c := by
  by_cases hc : x.container = c
  · cases hf : x.callfirst <;> simp [callOrder, hc, hf]
  · simp [callOrder, hc]

end

/-- What the lists have to do with the record: they hold registrations in the order of the
record, and while the signal stays installed all whose handles are intact. -/
structure Logged (w : Registered) (L : Layout) : Prop where
  nodes : ∀ x ∈ w.log, x.node < w.state.g.nextNode
  containers : ∀ x ∈ w.log, x.container < w.state.g.nextContainer
  distinct : (w.log.map Registration.node).Nodup
  listed : ∀ c, (L c .global).Sublist (callOrder w.log c)
  kept : ∀ signo c, w.state.g.map signo = some c → ∀ n ∈ callOrder w.log c,
    w.state.intactNode n = true → n ∈ L c .global

section

variable {p : Platform} {w w' : Registered} {act : Action} {L L' : Layout}

theorem registeredStep_ok (h : registeredStep p w act = .ok w') :
    step p w.state act = .ok w'.state ∧
      (w'.log = w.log ∧ (w'.state.g.nodes w.state.g.nextNode = none ∨
          w.state.registers p act = none) ∨
        ∃ c first, w.state.registers p act = some (c, first) ∧
          (∃ nd, w'.state.g.nodes w.state.g.nextNode = some nd) ∧
          w'.log = w.log ++ [⟨c, w.state.g.nextNode, first⟩]) := by
  obtain ⟨s', hs, h⟩ := bind_ok.mp h
  simp only [pure_ok] at h
  subst h
  refine ⟨hs, ?_⟩
  cases hn : s'.g.nodes w.state.g.nextNode with
  | none => exact Or.inl ⟨by simp [hn], Or.inl rfl⟩
  | some nd =>
    cases hr : w.state.registers p act with
    | none => exact Or.inl ⟨by simp [hn, hr], Or.inr rfl⟩
    | some x => exact Or.inr ⟨x.1, x.2, rfl, ⟨nd, rfl⟩, by simp [hn, hr]⟩

theorem Logged.step (hs : Sound p w.state L) (hw : Logged w L)
    (h : registeredStep p w act = .ok w') : ∃ L', Sound p w'.state L' ∧ Logged w' L' := by
  obtain ⟨hstep, hrec⟩ := registeredStep_ok h
  obtain ⟨L', hs', hx, hlasts⟩ := hs.step hstep
  have hnext := hlasts.containers
  refine ⟨L', hs', ?_⟩
  -- an intact handle keeps its node where it is
  have stay : ∀ {signo c n}, w.state.g.map signo = some c → w'.state.g.map signo = some c →
      n ∈ callOrder w.log c → w'.state.intactNode n = true → n ∈ L' c .global := by
    intro signo c n hm hm' hn hin
    obtain ⟨x, hxl, rfl, rfl⟩ := mem_callOrder.mp hn
    obtain ⟨k, hk⟩ := hs'.inv.wf.mapped signo _ hm'
    have hbefore := hs.intact_before hstep hx (hw.nodes x hxl) hin
    exact hs'.intact_stays hlasts (hw.kept signo _ hm _ hn hbefore) hk hin
  -- steps that register nothing
  have keep : (∀ n nd', w'.state.g.nodes n = some nd' → ∃ nd, w.state.g.nodes n = some nd ∧
        nd.owner = nd'.owner) →
      (∀ c, (L' c .global).Sublist (L c .global)) → Logged w' L' := by
    intro howner hshrink
    have hsame : w'.log = w.log := by
      rcases hrec with ⟨he, _⟩ | ⟨_, _, _, ⟨nd', hn'⟩, _⟩
      · exact he
      · obtain ⟨nd, hn, _⟩ := howner _ nd' hn'
        rw [hs.inv.wf.nodeFresh _ (Nat.le_refl _)] at hn
        cases hn
    refine ⟨fun x hm => ?_, fun x hm => ?_, hsame ▸ hw.distinct, fun c => ?_, ?_⟩
    · exact Nat.lt_of_lt_of_le (hw.nodes x (hsame ▸ hm)) hnext.nodes
    · exact Nat.lt_of_lt_of_le (hw.containers x (hsame ▸ hm)) hnext.next
    · rw [hsame]
      exact (hshrink c).trans (hw.listed c)
    · intro signo c hm n hn hin
      rw [hsame] at hn
      rcases hx.map_before hm with hold | hnew
      · exact stay hold hm hn hin
      · obtain ⟨x, hxl, rfl, _⟩ := mem_callOrder.mp hn
        exact absurd (hw.containers x hxl) (Nat.not_lt_of_le hnew)
  cases hx with
  | keeps he hmap hp hh => exact keep he.owners he.shrinks
  | drops x searched hd ho hx hs hp hh => exact keep hx.evolves.owners hx.evolves.shrinks
  | enters x signo hm hf he hg hp hh => exact keep he.owners he.shrinks
  | walks x next hx hn he hg hp hh => exact keep he.owners he.shrinks
  | joins x item first hj ha hp hh =>
    obtain ⟨nd, hn, _⟩ := hj.live
    have hlog : w'.log = w.log ++ [⟨item, x.node, first⟩] := by
      rcases hrec with ⟨_, hnone | hnone⟩ | ⟨c, f, hreg, _, he⟩
      · rw [← hj.fresh, hn] at hnone
        cases hnone
      · rw [ha] at hnone
        cases hnone
      · rw [ha] at hreg
        cases hreg
        rw [he, hj.fresh]
    have hin : x.node ∈ L' item .global := by
      rw [hj.place]
      cases first <;> simp
    have hnew : x.node < w'.state.g.nextNode := hs'.inv.wf.bound item .global _ hin
    refine ⟨fun y hy => ?_, fun y hy => ?_, ?_, fun c => ?_, fun signo c hm n hmem hint => ?_⟩
    · rw [hlog] at hy
      rcases List.mem_append.mp hy with hy | hy
      · exact Nat.lt_of_lt_of_le (hw.nodes y hy) hnext.nodes
      · rw [List.mem_singleton.mp hy]
        exact hnew
    · rw [hlog] at hy
      rcases List.mem_append.mp hy with hy | hy
      · exact Nat.lt_of_lt_of_le (hw.containers y hy) hnext.next
      · rw [List.mem_singleton.mp hy]
        exact hs'.inv.old hin
    · rw [hlog, List.map_append, List.nodup_append]
      refine ⟨hw.distinct, by simp, fun n hmem m hm => ?_⟩
      obtain ⟨y, hy, rfl⟩ := List.mem_map.mp hmem
      rw [List.mem_singleton.mp hm]
      exact Nat.ne_of_lt (hj.fresh ▸ hw.nodes y hy)
    · rw [hlog, callOrder_concat]
      by_cases he : item = c
      · subst he
        rw [if_pos rfl, hj.place]
        cases first with
        | true => exact (hw.listed item).cons_cons _
        | false => exact (hw.listed item).append (List.Sublist.refl _)
      · rw [if_neg he, hj.rest c .global (Or.inl (Ne.symm he))]
        exact hw.listed c
    · rw [hlog] at hmem
      obtain ⟨y, hy, hyc, hyn⟩ := mem_callOrder.mp hmem
      rcases List.mem_append.mp hy with hy | hy
      · exact stay (hj.map ▸ hm) hm (mem_callOrder.mpr ⟨y, hy, hyc, hyn⟩) hint
      · rw [List.mem_singleton.mp hy] at hyc hyn
        subst hyc hyn
        exact hin

theorem logged_run {kernel : Signo → Sigaction}
    (hr : Run (registeredStep p) (fun _ _ => True) { state := State.initial kernel } w) :
    ∃ L, Sound p w.state L ∧ Logged w L := by
  refine hr.invariant (I := fun w => ∃ L, Sound p w.state L ∧ Logged w L)
    ⟨_, sound_initial p kernel, ?_⟩ ?_
  · constructor <;> simp [State.initial, callOrder]
  · rintro u act v ⟨L, hs, hu⟩ - h
    exact Logged.step hs hu h

end

/-- On the list of an installed signal, the intact handles stand in the order of the record. -/
theorem Logged.intact {w : Registered} {L : Layout} (hw : Logged w L) {signo : Signo} {c : Addr}
    (hm : w.state.g.map signo = some c) : (L c .global).filter w.state.intactNode =
      (callOrder w.log c).filter w.state.intactNode := by
  conv_lhs => rw [filter_of_sublist (hw.listed c) (nodup_callOrder hw.distinct)]
  rw [List.filter_filter]
  refine List.filter_congr fun n hn => ?_
  cases hin : w.state.intactNode n with
  | false => rfl
  | true => simp [hw.kept signo c hm n hn hin]

/-- Whatever is next done to the lists of an installed signal succeeds: in particular no
assertion of the list macros fails. -/
structure Operable (p : Platform) (s : State) (signo : Signo) (c : Addr) : Prop where
  create : ∀ args calloc, ∃ r, createNode s.g signo args calloc = .ok r
  flush : ∃ r, destroyLocked s.g signo none = .ok r
  destroy : ∀ x ∈ s.pending p, ∃ r, destroyLocked s.g signo (some x.node) = .ok r
  enter : ∃ r, raiseEnter s.g signo = .ok r
  leave : ∀ x ∈ s.holds, x.item = c → ∀ claimed,
    ∃ r, raiseLeave s.g c x.node claimed = .ok r

theorem Sound.operable {p : Platform} {s : State} {L : Layout} {signo : Signo} {c : Addr}
    (hs : Sound p s L) (hm : s.g.map signo = some c) : Operable p s signo c := by
  have hw := hs.inv.wf
  have hlive : ∀ d, s.g.map signo = some d → s.g.nodes.AllLive (L d .global) := hs.live.live signo
  refine ⟨fun args calloc => hw.create_run hlive args calloc, hw.destroyLocked_none_run signo,
    fun x hx => ?_, hw.raiseEnter_run hlive, fun x hx hc claimed => ?_⟩
  · obtain ⟨rest, hp⟩ := perm_of_mem hx
    exact (hw.perm hp (List.Perm.refl _) (List.Perm.refl _)).destroyLocked_some_run hlive
  · subst hc
    obtain ⟨rest, hp⟩ := perm_of_mem hx
    exact (hw.perm (List.Perm.refl _) (hp.map Hold.item) (hp.map Hold.node)).raiseLeave_run
      (hlive _ hm) (hs.inv.inside x hx) claimed

/-- The lists of an installed signal are in order, and the deciders whose handles are intact
stand on them as the documentation has it: those with `callfirst`, the latest
first, and then the others as they were registered. -/
theorem deciders_in_order (p : Platform) (kernel : Signo → Sigaction) {w : Registered}
    {signo : Signo} {c : Addr}
    (hr : Run (registeredStep p) (fun _ _ => True) { state := State.initial kernel } w)
    (hm : w.state.g.map signo = some c) :
    ∃ k l d, w.state.g.containers c = some k ∧
      DList.IsList w.state.g.nodes k.globalHandler l ∧
      DList.IsList w.state.g.nodes k.deferredFrees d ∧
      w.state.g.nodes.AllLive (l ++ d) ∧ l.Disjoint d ∧
      l.filter w.state.intactNode = (callOrder w.log c).filter w.state.intactNode ∧
      Operable p w.state signo c := by
  obtain ⟨L, hs, hw⟩ := logged_run hr
  have hwf := hs.inv.wf
  obtain ⟨k, hk⟩ := hwf.mapped signo c hm
  refine ⟨k, L c .global, L c .deferred, hk, hwf.lists c k .global hk, hwf.lists c k .deferred hk,
    fun n hn => ?_, fun n hg hd => ?_, hw.intact hm, hs.operable hm⟩
  · rcases List.mem_append.mp hn with hn | hn
    · exact hs.live.live signo c hm n hn
    · obtain ⟨nd, hnd, _⟩ := hwf.retired c n hn
      exact ⟨nd, hnd⟩
  · have := (hwf.unshared _ _ _ _ n hg hd).2
    cases this

/-- Four deciders, the third of them destroyed again. -/
theorem deciders_in_order_mixed :
    ∃ w, Run (registeredStep .tiny) (fun _ _ => True) { state := State.initial fun _ => .dfl } w ∧
      w.state.g.map 1 = some 0 ∧ callOrder w.log 0 = [3, 1, 0, 2] ∧
      ∃ k l, w.state.g.containers 0 = some k ∧ DList.IsList w.state.g.nodes k.globalHandler l ∧
        l.filter w.state.intactNode = [3, 1, 0] := by
  obtain ⟨w, hr, hq⟩ := run_of_ends (f := registeredStep .tiny) (r := fun _ _ => True)
    (s := { state := State.initial fun _ => .dfl }) (c := fun _ _ => true)
    (q := fun w => w.state.g.map 1 == some 0 && callOrder w.log 0 == [3, 1, 0, 2] &&
      (callOrder w.log 0).filter w.state.intactNode == [3, 1, 0])
    (l := installOne ++ registerOne ++ registerFirst ++ registerOne ++ registerFirst ++
      [.destroy 0 3] ++ List.replicate 5 (.advance 0 {}))
    (fun _ _ _ => trivial) (by decide)
  simp only [Bool.and_eq_true, beq_iff_eq] at hq
  obtain ⟨⟨hm, horder⟩, hintact⟩ := hq
  obtain ⟨k, l, _, hk, hl, _, _, _, he, _⟩ := deciders_in_order .tiny (fun _ => .dfl) hr hm
  exact ⟨w, hr, hm, horder, k, l, hk, hl, he.trans hintact⟩

end Wg14Signals
