import Wg14Signals.Proofs.NestedCalls
import Wg14Signals.Proofs.Shelved

namespace Wg14Signals
open Lib

section

variable {E : Midst} {l gs : List Addr} {L : Layout} {u t : GuardState} {act : GuardAction}
  {p : Platform} {a : Addr} {x : Hold} {held : List Hold}

theorem Doing.withInfo (h : Doing E [] l L u)
    (f : GuardState → Addr → Siginfo → Except ThreadFault GuardState) :
    u.withInfo f = f u E.rsi E.info := by
  have htop : u.calls.head?.bind GuardCall.info = some E.rsi := by
    rw [h.calls]
    exact h.top
  unfold GuardState.withInfo
  rw [htop]
  simp only [Heap.read_some h.info, bind, Except.bind]

theorem Doing.runAbandon (h : Doing E [] l L u) (hab : E.info.internalDeciderIsAbandoned = false)
    (ht : u.abandon E.info = .ok t) :
    guardStep p u .abandon = .ok (t.setInfo E.rsi (E.info.marked true)) := by
  simp only [guardStep, h.withInfo, hab, Bool.false_eq_true, if_false]
  exact bind_ok.mpr ⟨t, ht, rfl⟩

theorem Doing.runResume (h : Doing E [] l L u) (hab : E.info.internalDeciderIsAbandoned = true)
    (ht : u.abandonResume E.info = .ok t) :
    guardStep p u .resume = .ok (t.setInfo E.rsi (E.info.marked false)) := by
  simp only [guardStep, h.withInfo, hab, if_true]
  exact bind_ok.mpr ⟨t, ht, rfl⟩

theorem Doing.idle_guards (h : Doing E [] l L u) : l = E.guards := by
  cases h.nests
  rfl

/-- The decider marks its own `stdc_siginfo`, and what goes with that. -/
theorem Doing.marks (h : Doing E [] l L u) (hturn : GuardTurn u t act) {info : Siginfo}
    {parked : List Hold} (hstands : Linked E.frames E.own E.base gs) (hc : t.calls = u.calls)
    (hf : t.frames = u.frames) (hslot : t.store.slot = u.store.slot)
    (hfront : t.store.front = gs.head?) (hlive : t.store.Live) (hinfo : t.infos E.rsi = some info)
    (hmap : t.g.map = u.g.map) (hpins : Pinned t.g L E.pend held parked) :
    Doing { E with guards := gs, info, held, parked } [] gs L t where
  calls := hc.trans h.calls
  top := h.top
  stacked := h.stacked.step hturn
  nests := .nil
  stands := hstands
  framed a tss old hm := by
    rw [hf]
    exact h.framed a tss old hm
  owned := by
    rw [hslot]
    exact h.owned
  front := hfront
  live := hlive
  looks a ha := by cases ha
  quiet c hm := by cases hm
  info := hinfo
  map := hmap.trans h.map
  pins := hpins
  mapped args delivered item current rsi sa hhead := by cases hhead

theorem withPins_none {info : Siginfo} {f : Global → Addr → Addr → Except Fault Global}
    (hitem : info.internalSighandler = none) : u.withPins info f = .ok u := by
  unfold GuardState.withPins
  rw [hitem]
  rfl

/-- `sigdecider_abandon` in the decider of the topmost frame. -/
theorem Doing.abandonsFrame (h : Doing E [] l L u) (hg : E.guards = a :: gs)
    (hab : E.info.internalDeciderIsAbandoned = false) (hlocal : E.info.internalLocalDecider = some a)
    (hitem : E.info.internalSighandler = none) :
    ∃ t, guardStep p u .abandon = .ok t ∧
      Doing { E with guards := gs, info := E.info.marked true } [] gs L t := by
  obtain rfl := h.idle_guards
  obtain ⟨f, xs, rest, hf, hprev, hne, -⟩ := h.linked [] a gs hg
  obtain ⟨b, hown⟩ := Option.ne_none_iff_exists'.mp hne
  obtain ⟨state, hstate⟩ := h.live b hown
  have hfront : state.front = some a := by
    rw [← front_of_some hown hstate, h.front, hg]
    rfl
  obtain ⟨st, hset, hslot, hstfront, hlive⟩ := h.live.setFront hne f.prev
  have hpop : u.popFrame (some a) = .ok (u.setStore st) := by
    refine bind_ok.mpr ⟨_, find_some hown, bind_ok.mpr ⟨state, Heap.read_some hstate, ?_⟩⟩
    refine (if_neg (not_not_intro hfront)).trans (bind_ok.mpr ⟨f, Heap.read_some hf, ?_⟩)
    rw [hown] at hset
    exact bind_ok.mpr ⟨st, hset, rfl⟩
  have hx : guardStep p u .abandon = .ok ((u.setStore st).setInfo E.rsi (E.info.marked true)) := by
    refine h.runAbandon hab (bind_ok.mpr ⟨u.setStore st, ?_, withPins_none hitem⟩)
    rw [hlocal]
    exact hpop
  refine ⟨_, hx, h.marks (guardStep_turns hx) (fun pre b post hgs => ?_) rfl rfl hslot
    (hstfront.trans hprev) hlive (Heap.set_self ..) rfl h.pins⟩
  exact h.stands (a :: pre) b post (by rw [hg, hgs]; rfl)

/-- `sigdecider_abandon_resume` there puts the frame back. -/
theorem Doing.resumesFrame {info : Siginfo}
    (h : Doing { E with guards := gs, info := info.marked true } [] l L u)
    (hstands : Linked E.frames E.own E.base (a :: gs))
    (hlocal : info.internalLocalDecider = some a) (hitem : info.internalSighandler = none) :
    ∃ t, guardStep p u .resume = .ok t ∧
      Doing { E with guards := a :: gs, info := info.marked false } [] (a :: gs) L t := by
  obtain rfl : gs = l := h.idle_guards.symm
  obtain ⟨f, xs, rest, hf, hprev, hne, -⟩ := hstands.congr h.owned h.framed [] a gs rfl
  obtain ⟨b, hown⟩ := Option.ne_none_iff_exists'.mp hne
  obtain ⟨state, hstate⟩ := h.live b hown
  have hfront : state.front = f.prev := by
    rw [← front_of_some hown hstate, h.front, hprev]
  obtain ⟨st, hset, hslot, hstfront, hlive⟩ := h.live.setFront hne (some a)
  have hpush : u.unpopFrame (some a) = .ok (u.setStore st) := by
    refine bind_ok.mpr ⟨_, find_some hown, bind_ok.mpr ⟨state, Heap.read_some hstate, ?_⟩⟩
    refine bind_ok.mpr ⟨f, Heap.read_some hf, (if_neg (not_not_intro hfront)).trans ?_⟩
    rw [hown] at hset
    exact bind_ok.mpr ⟨st, hset, rfl⟩
  have hx : guardStep p u .resume = .ok ((u.setStore st).setInfo E.rsi (info.marked false)) := by
    refine h.runResume rfl (bind_ok.mpr ⟨u.setStore st, ?_, withPins_none hitem⟩)
    rw [show (info.marked true).internalLocalDecider = some a from hlocal]
    exact hpush
  exact ⟨_, hx, h.marks (guardStep_turns hx) hstands rfl rfl hslot hstfront hlive
    (Heap.set_self ..) rfl h.pins⟩

theorem withPins_ok {info : Siginfo} {f : Global → Addr → Addr → Except Fault Global} {g : Global}
    (hitem : info.internalSighandler = some x.item)
    (hnode : info.internalGlobalDecider = some x.node) (hf : f u.g x.item x.node = .ok g) :
    u.withPins info f = .ok (u.setG g) := by
  unfold GuardState.withPins
  rw [hitem, hnode]
  exact bind_ok.mpr ⟨g, ofLib_ok.mpr hf, rfl⟩

/-- `sigdecider_abandon` in a global decider. -/
theorem Doing.abandonsNode (h : Doing { E with held := x :: held, parked := [] } [] l L u)
    (hab : E.info.internalDeciderIsAbandoned = false) (hlocal : E.info.internalLocalDecider = none)
    (hitem : E.info.internalSighandler = some x.item)
    (hnode : E.info.internalGlobalDecider = some x.node) :
    ∃ t, guardStep p u .abandon = .ok t ∧
      (∃ g, sigdeciderAbandon u.g x.item x.node = .ok g ∧
        t = (u.setG g).setInfo E.rsi (E.info.marked true)) ∧
      Doing { E with info := E.info.marked true, held, parked := [x] } [] l L t := by
  obtain rfl := h.idle_guards
  obtain ⟨g, hg, hmap, hpins⟩ := h.pins.abandon
  have hx : guardStep p u .abandon = .ok ((u.setG g).setInfo E.rsi (E.info.marked true)) := by
    refine h.runAbandon hab (bind_ok.mpr ⟨u, ?_, withPins_ok hitem hnode hg⟩)
    rw [show ({ E with held := x :: held, parked := [] } : Midst).info.internalLocalDecider = none
      from hlocal]
    rfl
  exact ⟨_, hx, ⟨g, hg, rfl⟩, h.marks (guardStep_turns hx) h.stands rfl rfl rfl h.front h.live
    (Heap.set_self ..) hmap hpins⟩

/-- `sigdecider_abandon_resume` there. -/
theorem Doing.resumesNode {info : Siginfo}
    (h : Doing { E with info := info.marked true, held, parked := [x] } [] l L u)
    (hlocal : info.internalLocalDecider = none) (hitem : info.internalSighandler = some x.item)
    (hnode : info.internalGlobalDecider = some x.node) :
    ∃ t, guardStep p u .resume = .ok t ∧
      (∃ g, sigdeciderAbandonResume u.g x.item x.node = .ok g ∧
        t = (u.setG g).setInfo E.rsi (info.marked false)) ∧
      Doing { E with info := info.marked false, held := x :: held, parked := [] } [] l L t := by
  obtain rfl := h.idle_guards
  obtain ⟨g, hg, hmap, hpins⟩ := h.pins.resume
  have hx : guardStep p u .resume = .ok ((u.setG g).setInfo E.rsi (info.marked false)) := by
    refine h.runResume rfl (bind_ok.mpr ⟨u, ?_, withPins_ok hitem hnode hg⟩)
    rw [show (info.marked true).internalLocalDecider = none from hlocal]
    rfl
  exact ⟨_, hx, ⟨g, hg, rfl⟩, h.marks (guardStep_turns hx) h.stands rfl rfl rfl h.front h.live
    (Heap.set_self ..) hmap hpins⟩

variable {nested : List GuardCall} {v : GuardState} {g g' : Global} {item n c : Addr}
  {k : Container} {nd : Node} {pend : List Slot} {parked : List Hold}

/-- What the references of others on a container the map leads to come to. -/
theorem Pinned.short_lifetime (h : Pinned (g.short item n) L pend held parked) {signo : Signo}
    (hm : g.map signo = some c) (hc : g.containers c = some k) :
    (if c = item then k.lifetimeRefcount - 1 else k.lifetimeRefcount) =
      1 + ((held.map Hold.item).count c : Int) := by
  have hrefs : mapRefs (g.short item n) c = 1 := if_pos ⟨signo, hm⟩
  by_cases hci : c = item
  · subst hci
    have hk : (g.short c n).containers c = some k.short := by simp [hc]
    have hlife := h.wf.lifetime c _ hk
    rw [hrefs] at hlife
    rw [if_pos rfl]
    exact hlife
  · have hk : (g.short item n).containers c = some k := by
      simp only [Global.short_containers]
      rw [Heap.mapAt_other _ _ (by simpa using hci), hc]
    have hlife := h.wf.lifetime c _ hk
    rw [hrefs] at hlife
    rw [if_neg hci]
    exact hlife

theorem Pinned.short_refcount (h : Pinned (g.short item n) L pend held parked)
    (hn : g.nodes n = some nd) :
    nd.refcount - 1 = ((pend.map Slot.node).count n : Int) + (held.map Hold.node).count n := by
  have hn' : (g.short item n).nodes n = some nd.short := by simp [hn]
  exact h.wf.refcount n _ hn'

theorem unpin_lifetime {next : Option Addr} {d : Addr} (h : unpinNode g c n = .ok (next, g'))
    (hk : g'.containers d = some k) :
    ∃ k₀, g.containers d = some k₀ ∧ k₀.lifetimeRefcount = k.lifetimeRefcount := by
  obtain ⟨nd, -, h⟩ := bind_ok.mp h
  simp only at h
  split at h
  · obtain ⟨k₀, hk₀, h⟩ := bind_ok.mp h
    obtain ⟨⟨nodes, global⟩, -, h⟩ := bind_ok.mp h
    obtain ⟨⟨nodes', deferred⟩, -, h⟩ := bind_ok.mp h
    obtain ⟨-, rfl⟩ := Prod.mk.inj (pure_ok.mp h)
    by_cases hd : d = c
    · subst hd
      rw [setContainer_self] at hk
      obtain rfl := Option.some.inj hk
      exact ⟨k₀, readContainer_ok hk₀, rfl⟩
    · rw [setContainer_other _ _ hd] at hk
      exact ⟨k, hk, rfl⟩
  · obtain ⟨-, rfl⟩ := Prod.mk.inj (pure_ok.mp h)
    exact ⟨k, hk, rfl⟩

theorem short_above {x y : Int} (h : y < if c = item then x - 1 else x) :
    x ≠ y ∧ (c = item → x ≠ y + 1) := by
  split at h
  · exact ⟨by omega, fun _ => by omega⟩
  · exact ⟨by omega, fun hc => absurd hc ‹_›⟩

/-- What the decider's calls do while it is abandoned in a node they would do otherwise. -/
theorem Doing.unshelves (h : Doing E nested l L (v.shelved item n E.rsi))
    (hgo : (v.shelved item n E.rsi).goesOn E.base act = true) (hact : act.abandons = false)
    (hspare : (v.shelved item n E.rsi).spares E.rsi act = true)
    (hab : E.info.internalDeciderIsAbandoned = true)
    (hnode : E.info.internalGlobalDecider = some n) :
    Unshelves item n E.rsi (guardStep p (v.shelved item n E.rsi) act) (guardStep p v act) := by
  have hgo := ((Bool.and_eq_true _ _).mp hgo).2
  have hnext : v.nextInfo ≠ E.rsi :=
    (Nat.ne_of_lt (h.stacked.info_lt h.suffix h.base_mem)).symm
  cases act with
  | sigguarded signals recovery decider value env =>
    exact .ite (fun _ => pushGuard_shelved) fun _ => .error _
  | raise args env => exact .ite (fun _ => pushRaise_shelved env v.calls) fun _ => .error _
  | ret value => exact returnSection_shelved
  | abandon => cases hact
  | resume => cases hact
  | advance =>
    simp only [guardStep, GuardState.shelved_calls]
    cases v.calls with
    | nil => exact .error _
    | cons c rest =>
      cases c with
      | sigguarded => exact .error _
      | raise args delivered pc =>
        refine guardSection_shelved hnext fun c k hm hc => ?_
        have hlife := h.pins.short_lifetime hm hc
        exact short_above (y := 0) (by omega)
  | decide d =>
    have hcalls : v.calls = nested ++ E.base := h.calls
    simp only [guardStep, GuardState.shelved_calls]
    rw [hcalls]
    cases nested with
    | nil =>
      have hgo : (v.calls != E.base) = true := hgo
      rw [show v.calls = E.base from hcalls, bne_self_eq_false] at hgo
      cases hgo
    | cons c rest =>
      have hother : ∀ b, c.info = some b → b ≠ E.rsi := by
        intro b hb he
        have hne := h.stacked.info_ne (show v.calls = [c] ++ (rest ++ E.base) from hcalls)
          ⟨rest, rfl⟩ h.base_mem
        rw [List.filterMap_cons_some hb, List.filterMap_nil, List.mem_singleton] at hne
        exact hne he.symm
      cases c with
      | sigguarded => exact .error _
      | raise args delivered pc =>
        cases pc with
        | asking a b => exact frameAnswer_shelved (hother b rfl)
        | deciding c m b sa =>
          have hpins : Pinned (v.g.short item n) L E.pend (⟨0, c, m⟩ :: E.held) E.parked := h.pins
          have hm : v.g.map args.signo = some c := by
            rw [show v.g.map = E.map from h.map]
            exact h.mapped _ _ _ _ _ _ rfl
          refine globalAnswer_shelved (hother b rfl) (fun he nd hnd => ?_) fun next g₁ k hu hk => ?_
          · subst he
            have hcount := hpins.short_refcount hnd
            rw [List.map_cons, List.count_cons_self] at hcount
            have hlast : ¬LastRef (v.g.short item m) m := by
              refine lastRef_spared h.info hab hnode ?_ hspare
              unfold GuardState.inNode
              rw [GuardState.shelved_calls, hcalls]
              rfl
            have htwo : nd.refcount - 1 ≠ 1 := fun hone => hlast ⟨nd.short, by simp [hnd], hone⟩
            omega
          · obtain ⟨k₀, hk₀, hsame⟩ := unpin_lifetime hu hk
            have hlife := hpins.short_lifetime hm hk₀
            rw [List.map_cons, List.count_cons_self, hsame] at hlife
            exact short_above (y := 1) (by omega)
        | _ => exact .error _
  | _ => cases hgo

end

/-- A decider that goes to and fro between two situations: not abandoned and abandoned, with what
else holds in each. -/
structure Rounds (p : Platform) (s : GuardState) (info : Siginfo) (rsi : Addr) (E : Bool → Midst)
    (X : Bool → GuardState → Prop) : Prop where
  base : ∀ ab, (E ab).base = s.calls
  named : ∀ ab, (E ab).rsi = rsi
  marked : ∀ ab, (E ab).info = info.marked ab
  parked : ∀ ab, ∀ y ∈ (E ab).parked, ab = true ∧ info.internalGlobalDecider = some y.node
  abandon : ∀ u l L, Doing (E false) [] l L u → X false u →
    ∃ t, guardStep p u .abandon = .ok t ∧ (E true).Goes t ∧ X true t
  resume : ∀ u l L, Doing (E true) [] l L u → X true u →
    ∃ t, guardStep p u .resume = .ok t ∧ (E false).Goes t ∧ X false t
  onward : ∀ ab u act t, (E ab).Goes u → X ab u → u.goesOn s.calls act = true →
    act.abandons = false → u.spares rsi act = true → guardStep p u act = .ok t → X ab t

section

variable {p : Platform} {s u t : GuardState} {info : Siginfo} {rsi : Addr} {E : Bool → Midst}
  {X : Bool → GuardState → Prop} {ab : Bool} {act : GuardAction} {who : Consulted}

/-- Where the decider's own code runs, no call that it has made is in progress. -/
theorem Midst.Goes.idle {E : Midst} (h : E.Goes u) (hc : u.calls = E.base) :
    ∃ l L, Doing E [] l L u := by
  obtain ⟨nested, l, L, h⟩ := h
  obtain rfl : nested = [] := List.append_left_eq_self.mp (h.calls.symm.trans hc)
  exact ⟨l, L, h⟩

theorem Midst.Goes.marked {E : Midst} (h : E.Goes u) : u.infos E.rsi = some E.info := by
  obtain ⟨nested, l, L, h⟩ := h
  exact h.info

theorem Rounds.infos (hR : Rounds p s info rsi E X) (h : (E ab).Goes u) :
    u.infos rsi = some (info.marked ab) := by
  rw [← hR.named ab, h.marked, hR.marked]

theorem goesOn_suffix {base : List GuardCall} (h : u.goesOn base act = true) : base <:+ u.calls :=
  List.isSuffixOf_iff_suffix.mp ((Bool.and_eq_true _ _).mp h).1

/-- The steps of the decider that neither abandon nor resume. -/
theorem Rounds.goes (hR : Rounds p s info rsi E X) (h : (E ab).Goes u)
    (hgo : u.goesOn s.calls act = true) (hact : act.abandons = false)
    (hspare : u.spares rsi act = true) : Comes (E ab).Stays (guardStep p u act) := by
  obtain ⟨nested, l, L, h⟩ := h
  refine h.step (by rwa [hR.base]) hact (by rwa [hR.named]) fun y hy => ?_
  obtain ⟨rfl, hnode⟩ := hR.parked ab y hy
  rw [hR.marked]
  exact ⟨rfl, hnode⟩

/-- `sigdecider_abandon` is effective once. -/
theorem Rounds.abandons (hR : Rounds p s info rsi E X) (h : (E ab).Goes u) (hx : X ab u)
    (hc : u.calls = s.calls) : ∃ t, guardStep p u .abandon = .ok t ∧ (E true).Goes t ∧ X true t ∧
      (ab = true → t = u) := by
  obtain ⟨l, L, hd⟩ := h.idle (hc.trans (hR.base ab).symm)
  cases ab with
  | false =>
    obtain ⟨t, ht, hg, hx⟩ := hR.abandon u l L hd hx
    exact ⟨t, ht, hg, hx, fun hab => by cases hab⟩
  | true =>
    refine ⟨u, ?_, h, hx, fun _ => rfl⟩
    have hab : (E true).info.internalDeciderIsAbandoned = true := by
      rw [hR.marked]
      rfl
    simp only [guardStep, hd.withInfo, hab, if_true, pure, Except.pure]

/-- So is `sigdecider_abandon_resume`. -/
theorem Rounds.resumes (hR : Rounds p s info rsi E X) (h : (E ab).Goes u) (hx : X ab u)
    (hc : u.calls = s.calls) : ∃ t, guardStep p u .resume = .ok t ∧ (E false).Goes t ∧ X false t ∧
      (ab = false → t = u) := by
  obtain ⟨l, L, hd⟩ := h.idle (hc.trans (hR.base ab).symm)
  cases ab with
  | true =>
    obtain ⟨t, ht, hg, hx⟩ := hR.resume u l L hd hx
    exact ⟨t, ht, hg, hx, fun hab => by cases hab⟩
  | false =>
    refine ⟨u, ?_, h, hx, fun _ => rfl⟩
    have hab : (E false).info.internalDeciderIsAbandoned = false := by
      rw [hR.marked]
      rfl
    simp only [guardStep, hd.withInfo, hab, Bool.false_eq_true, if_false, pure, Except.pure]

theorem goesOn_abandons (h : u.goesOn s.calls act = true) (hact : act.abandons = true) :
    u.calls = s.calls ∧ (act = .abandon ∨ act = .resume) := by
  have hgo := ((Bool.and_eq_true _ _).mp h).2
  cases act with
  | abandon => exact ⟨eq_of_beq hgo, .inl rfl⟩
  | resume => exact ⟨eq_of_beq hgo, .inr rfl⟩
  | _ => cases hact

/-- Through all rounds. -/
theorem Rounds.run (hR : Rounds p s info rsi E X) (hs : (E false).Goes s) (hx : X false s)
    (hr : Run (guardStep p) (fun v act => v.goesOn s.calls act = true ∧ v.spares rsi act = true) s u)
    (hb : s.calls <:+ u.calls) : ∃ ab, (E ab).Goes u ∧ X ab u := by
  induction hr with
  | refl => exact ⟨false, hs, hx⟩
  | @tail u t act _ hok ht ih =>
    obtain ⟨hgo, hspare⟩ := hok
    obtain ⟨ab, h, hx⟩ := ih (goesOn_suffix hgo)
    cases hact : act.abandons with
    | false =>
      have hcomes := hR.goes (p := p) h hgo hact hspare
      rw [ht] at hcomes
      cases hcomes with
      | ok hstays =>
        exact ⟨ab, hstays (by rwa [hR.base]), hR.onward ab u act t h hx hgo hact hspare ht⟩
    | true =>
      obtain ⟨hc, rfl | rfl⟩ := goesOn_abandons hgo hact
      · obtain ⟨t', ht', hg, hx, -⟩ := hR.abandons h hx hc
        obtain rfl := Except.ok.inj (ht.symm.trans ht')
        exact ⟨true, hg, hx⟩
      · obtain ⟨t', ht', hg, hx, -⟩ := hR.resumes h hx hc
        obtain rfl := Except.ok.inj (ht.symm.trans ht')
        exact ⟨false, hg, hx⟩

theorem Rounds.inverts (hR : Rounds p s info rsi E X) (hs : (E false).Goes s) (hx : X false s)
    (hr : Run (guardStep p) (fun v act => v.goesOn s.calls act = true ∧ v.spares rsi act = true) s u)
    (hrest : ∀ l L, u.calls = s.calls → Doing (E false) [] l L u → X false u →
      s.Restores p u who info) : s.Inverts p u who info rsi where
  safe act e hgo hspare he := by
    obtain ⟨ab, h, hx⟩ := hR.run hs hx hr (goesOn_suffix hgo)
    cases hact : act.abandons with
    | false =>
      have hcomes := hR.goes (p := p) h hgo hact hspare
      rw [he] at hcomes
      cases hcomes
      rfl
    | true =>
      obtain ⟨hc, rfl | rfl⟩ := goesOn_abandons hgo hact
      · obtain ⟨t, ht, -⟩ := hR.abandons h hx hc
        cases he.symm.trans ht
      · obtain ⟨t, ht, -⟩ := hR.resumes h hx hc
        cases he.symm.trans ht
  flag hc := by
    obtain ⟨ab, h, hx⟩ := hR.run hs hx hr (hc ▸ List.suffix_rfl)
    obtain ⟨t, ht, hg, -, hsame⟩ := hR.abandons h hx hc
    obtain ⟨t', ht', hg', -, hsame'⟩ := hR.resumes h hx hc
    exact ⟨ab, hR.infos h, ⟨t, ht, hR.infos hg, hsame⟩, t', ht', hR.infos hg', hsame'⟩
  restores hc hinfo := by
    obtain ⟨ab, h, hx⟩ := hR.run hs hx hr (hc ▸ List.suffix_rfl)
    obtain rfl : ab = false := by
      have hsame := Option.some.inj ((hR.infos h).symm.trans hinfo)
      exact congrArg Siginfo.internalDeciderIsAbandoned hsame
    obtain ⟨l, L, hd⟩ := h.idle (hc.trans (hR.base false).symm)
    exact hrest l L hc hd hx

end

section

variable {s u v v' s' : GuardState} {g g' : Global} {L L' : Layout} {pend : List Slot}
  {held : List Hold} {x : Hold} {p : Platform} {args : RaiseArgs} {delivered : Bool}
  {rest : List GuardCall} {rsi a : Addr} {info : Siginfo}

theorem Pinned.same_lifetime (h : Pinned g L pend held []) (h' : Pinned g' L' pend held [])
    (hmap : g'.map = g.map) (hx : x ∈ held) :
    (g'.containers x.item).map Container.lifetimeRefcount =
      (g.containers x.item).map Container.lifetimeRefcount := by
  obtain ⟨k, hk⟩ := h.wf.held x.item (List.mem_map_of_mem hx)
  obtain ⟨k', hk'⟩ := h'.wf.held x.item (List.mem_map_of_mem hx)
  have hrefs : mapRefs g' x.item = mapRefs g x.item := by
    unfold mapRefs
    rw [hmap]
  rw [hk, hk', Option.map_some, Option.map_some, h.wf.lifetime _ k hk, h'.wf.lifetime _ k' hk', hrefs]

theorem Pinned.same_refcount (h : Pinned g L pend held []) (h' : Pinned g' L' pend held [])
    (hx : x ∈ held) :
    (g'.nodes x.node).map Node.refcount = (g.nodes x.node).map Node.refcount := by
  obtain ⟨nd, hn⟩ := h.wf.pinned x.node (List.mem_map_of_mem hx)
  obtain ⟨nd', hn'⟩ := h'.wf.pinned x.node (List.mem_map_of_mem hx)
  rw [hn, hn', Option.map_some, Option.map_some, h.wf.refcount _ nd hn, h'.wf.refcount _ nd' hn']

theorem SameDecided.answer {result : Bool} (hfront : v.store.front = v'.store.front)
    (hg : v.g = v'.g) (ht : v.trace = u.trace) (ht' : v'.trace = s'.trace) :
    SameDecided u (v.answer args delivered result rest) s' (v'.answer args delivered result rest) := by
  unfold GuardState.answer
  split
  · split
    · exact ⟨rfl, hfront, hg, [], ht, ht'⟩
    · exact ⟨rfl, hfront, hg, [], ht, ht'⟩
  · exact ⟨rfl, hfront, hg, [.raised result], congrArg _ ht, congrArg _ ht'⟩

/-- The decision of a node's decider is processed by what it was given and the state all threads
share. -/
theorem node_decides {item n : Addr} {sa : Sigaction}
    (hc : s.calls = .raise args delivered (.deciding item n rsi sa) :: rest)
    (hu : u.calls = s.calls) (hfront : u.store.front = s.store.front)
    (hinfo : u.infos rsi = some info) (hinfo' : s.infos rsi = some info) (d : Decision) :
    Both (fun t t' => SameDecided u t (s.setG u.g) t') (guardStep p u (.decide d))
      (guardStep p (s.setG u.g) (.decide d)) := by
  simp only [guardStep, hu, GuardState.setG_calls, hc]
  unfold globalAnswer
  rw [Heap.read_some hinfo, Heap.read_some (h := (s.setG u.g).infos) hinfo']
  refine .bind_same fun info _ => .ite Iff.rfl (fun _ => .error _ _) fun _ => .bind_same fun r _ => ?_
  obtain ⟨l, g⟩ := r
  cases l with
  | claimed => exact .ok (.answer hfront rfl rfl rfl)
  | unclaimed => exact .ok ⟨rfl, hfront, rfl, [], rfl, rfl⟩
  | deciding next value => exact .ok ⟨rfl, hfront, rfl, [_], rfl, rfl⟩

theorem Stacked.setG (hi : Stacked s) (g : Global) : Stacked (s.setG g) :=
  ⟨hi.frameBound, hi.infoBound, hi.frames, hi.infos, hi.named⟩

/-- That of a frame's decider, by the frame as well. -/
theorem frame_decides {E : Midst} {l l' gs : List Addr} (hd : Doing E [] l L u)
    (hd' : Doing E [] l' L' s) (hg : E.guards = a :: gs) (hown : E.own = s.store.slot.own)
    (hc : s.calls = .raise args delivered (.asking a rsi) :: rest)
    (hinfo : u.infos rsi = some info) (hinfo' : s.infos rsi = some info) (d : Decision) :
    Both (fun t t' => SameDecided u t (s.setG u.g) t') (guardStep p u (.decide d))
      (guardStep p (s.setG u.g) (.decide d)) := by
  obtain ⟨f, xs, ws, hf, -, hne, hbase⟩ := hd'.linked [] a gs hg
  have hm : .sigguarded a s.store.slot.own f.prev false ∈ E.base := by
    rw [hbase]
    exact List.mem_append.mpr (.inr List.mem_cons_self)
  have hfu : u.frames a = some f :=
    (hd.framed a _ _ hm).trans ((hd'.framed a _ _ hm).symm.trans hf)
  have hsame : u.store.slot.own = s.store.slot.own := by
    rw [← hown] at hne ⊢
    exact hd.owned.resolve_left hne
  have hu : u.calls = s.calls := hd.calls.trans hd'.calls.symm
  have hfront : u.store.front = s.store.front := by
    rw [hd.front, hd'.front, hd.idle_guards, hd'.idle_guards]
  have onward : ∀ pc, Both (fun t t' => SameDecided u t (s.setG u.g) t')
      (.ok ((u.discard [.raise args delivered (.asking a rsi)]).goto (.raise args delivered pc :: rest))
        : Except ThreadFault GuardState)
      (.ok (((s.setG u.g).discard [.raise args delivered (.asking a rsi)]).goto
        (.raise args delivered pc :: rest))) := by
    intro pc
    exact .ok ⟨rfl, hfront, rfl, [], rfl, rfl⟩
  simp only [guardStep, hu, GuardState.setG_calls, hc]
  unfold frameAnswer
  rw [Heap.read_some hinfo, Heap.read_some (h := (s.setG u.g).infos) hinfo', Heap.read_some hfu,
    Heap.read_some (h := (s.setG u.g).frames) hf]
  refine .bind_same fun info _ => .ite Iff.rfl (fun _ => .error _ _) fun _ => .bind_same fun f' hf' => ?_
  obtain rfl := Except.ok.inj hf'
  cases d with
  | nextDecider => exact onward _
  | resumeExecution => exact .ok (.answer hfront rfl rfl rfl)
  | callRecovery =>
    refine .ite Iff.rfl (fun _ => ?_) fun _ => onward _
    have hcalls : s.calls = xs ++ .sigguarded a s.store.slot.own f.prev false :: ws :=
      hd'.calls.trans hbase
    obtain ⟨t, ht, htc, htg, -, htf, -, htt⟩ := hd.stacked.longjmps (f := { f with rsi := info })
      hd.live (hsame ▸ hne) (hsame ▸ hu.trans hcalls)
    obtain ⟨t', ht', htc', htg', -, htf', -, htt'⟩ := (hd'.stacked.setG u.g).longjmps
      (f := { f with rsi := info }) hd'.live hne hcalls
    simp only [ht, ht']
    refine .ok ⟨htc.trans ?_, htf.trans htf'.symm, htg.trans htg'.symm, [_], htt, htt'⟩
    rw [htc', hsame]
    rfl

end

/-- A decider is called in `s`: that of the topmost frame, or a global one. The thread has come
there by any steps whatever, and what all threads share by any steps of the library that leave
abandoned deciders what they may ask for again. The fallback has not forgotten the thread's
guards. -/
structure GuardState.Consults (p : Platform) (s : GuardState) (who : Consulted) (info : Siginfo)
    (rsi : Addr) : Prop where
  called : ∃ b g r act args, Run (guardStep p) (fun _ _ => True) (.initial b g) r ∧
    guardStep p r act = .ok s ∧ s.trace = .asked args who info :: r.trace ∧
    (b = false → ∃ guards, s.Stands guards)
  given : s.calls.head?.bind GuardCall.info = some rsi
  topmost : ∀ a, who = .frame a → s.store.front = some a
  shared : ∃ kernel w, Run (resumeStep p) (fun w act => act.Meets Retractable w)
      (State.initial kernel) w ∧ w.g = s.g ∧
    ∀ n, who = .global n → ∃ x ∈ w.inside, x.node = n ∧ info.internalSighandler = some x.item

/-- The call of a decider, with the `stdc_siginfo` it is given. -/
inductive Entry (s : GuardState) (info : Siginfo) (rsi : Addr) : Consulted → Prop where
  | frame {args : RaiseArgs} {delivered : Bool} {rest : List GuardCall} (a : Addr)
      (hc : s.calls = .raise args delivered (.asking a rsi) :: rest)
      (hl : info.internalLocalDecider = some a) (hi : info.internalSighandler = none) :
      Entry s info rsi (.frame a)
  | global {args : RaiseArgs} {delivered : Bool} {rest : List GuardCall} {sa : Sigaction}
      (item n : Addr) (hc : s.calls = .raise args delivered (.deciding item n rsi sa) :: rest)
      (hl : info.internalLocalDecider = none) (hi : info.internalSighandler = some item)
      (hn : info.internalGlobalDecider = some n) : Entry s info rsi (.global n)

section

variable {p : Platform} {s r u v t : GuardState} {act : GuardAction} {who : Consulted}
  {info : Siginfo} {rsi : Addr} {args : RaiseArgs} {guards : List Addr}

theorem prepareRsi_item (args : RaiseArgs) : (prepareRsi {} args).internalSighandler = none := by
  unfold prepareRsi
  split <;> rfl

theorem GuardTurn.entry (hi : Stacked r) (h : GuardTurn r s act)
    (ht : s.trace = .asked args who info :: r.trace) :
    ∃ rsi, s.infos rsi = some info ∧ info.internalDeciderIsAbandoned = false ∧
      s.calls.head?.bind GuardCall.info = some rsi ∧ Entry s info rsi who := by
  have hst := hi.step h
  have named : ∀ {c rest rsi}, s.calls = c :: rest → c.info = some rsi →
      s.infos rsi = some info → info.internalLocalDecider = c.asks := by
    intro c rest rsi hc hr hinfo
    obtain ⟨info', hinfo', hl⟩ := hst.named c (hc ▸ List.mem_cons_self) rsi hr
    obtain rfl := Option.some.inj (hinfo.symm.trans hinfo')
    exact hl
  cases h with
  | shift act xs ys rest hx hy hc hc' ho hs hu => cases hu.silent ht
  | answer d c rsi info ys rest hrsi hy hc hc' hinfo hab hf hnf hin hni hs hu => cases hu.silent ht
  | guard | write | abandon | resume | jump | jumpGlobal => exact trace_ne_cons ‹_› ht
  | recover args delivered frame' rsi f info' tss old mid rest hmid hc hc' hinfo hab hframe hrec hf
      hnf hin hni hs hu => cases (List.cons.inj (hu.symm.trans ht)).1
  | ret value frame' tss old recovering rest hc hc' hf hnf hin hni hs hu =>
    cases (List.cons.inj (hu.symm.trans ht)).1
  | ask args' delivered a f rest info' hc hc' hframe hset hinfo hf hnf hin hni hs hu =>
    cases (List.cons.inj (hu.symm.trans ht)).1
    have hgiven : s.infos r.nextInfo = some info := by rw [hin, Heap.set_self]
    refine ⟨r.nextInfo, hgiven, ?_, by rw [hc']; rfl, .frame a hc' (named hc' rfl hgiven) ?_⟩
    · rw [hinfo]
      exact prepareRsi_abandoned {}
    · rw [hinfo]
      exact prepareRsi_item args
  | askFirst args' delivered item current value sa rest info' hc hc' he hinfo hf hnf hin hni hs hu =>
    cases (List.cons.inj (hu.symm.trans ht)).1
    have hgiven : s.infos r.nextInfo = some info := by rw [hin, Heap.set_self]
    refine ⟨r.nextInfo, hgiven, ?_, by rw [hc']; rfl,
      .global item current hc' (named hc' rfl hgiven) ?_ ?_⟩
    · rw [hinfo]
      exact prepareRsi_abandoned {}
    · rw [hinfo]
    · rw [hinfo]
  | askNext args' delivered item current next rsi value sa rest old info' hc hc' hold hab he hinfo hf
      hnf hin hni hs hu =>
    cases (List.cons.inj (hu.symm.trans ht)).1
    have hgiven : s.infos rsi = some info := by rw [hin, Heap.set_self]
    refine ⟨rsi, hgiven, ?_, by rw [hc']; rfl, .global item next hc' (named hc' rfl hgiven) ?_ ?_⟩
    · rw [hinfo]
      exact hab
    · rw [hinfo]
    · rw [hinfo]

theorem GuardState.Stands.linked (h : s.Stands guards) :
    Linked s.frames s.store.slot.own s.calls guards := by
  intro pre a post hg
  obtain ⟨f, xs, rest, hf, hp, hc, -⟩ := h.active pre a post hg
  refine ⟨f, xs, rest, hf, hp, fun hnone => ?_, hc⟩
  have hfront := h.front
  rw [front_of_none hnone, hg] at hfront
  cases pre <;> cases hfront

/-- What a decider called in `s` is called in. -/
def GuardState.midst (s : GuardState) (guards : List Addr) (rsi : Addr) (info : Siginfo)
    (pend : List Slot) (held parked : List Hold) : Midst where
  base := s.calls
  frames := s.frames
  own := s.store.slot.own
  guards
  rsi
  info
  map := s.g.map
  pend
  held
  parked

theorem doing_entry {L : Layout} {pend : List Slot} {held : List Hold} (hi : Stacked s)
    (hs : s.Stands guards) (hrsi : s.calls.head?.bind GuardCall.info = some rsi)
    (hinfo : s.infos rsi = some info) (hpins : Pinned s.g L pend held []) :
    Doing (s.midst guards rsi info pend held []) [] guards L s where
  calls := rfl
  top := hrsi
  stacked := hi
  nests := .nil
  stands := hs.linked
  framed _ _ _ _ := rfl
  owned := .inr rfl
  front := hs.front
  live := hs.live
  looks a ha := by cases ha
  quiet c hm := by cases hm
  info := hinfo
  map := rfl
  pins := hpins
  mapped args delivered item current rsi sa hhead := by cases hhead

theorem marked_false (h : info.internalDeciderIsAbandoned = false) : info.marked false = info := by
  unfold Siginfo.marked
  rw [← h]

/-- In the decider of the topmost frame. -/
theorem rounds_frame {a : Addr} {gs : List Addr} {L₀ : Layout} {pend : List Slot} {held : List Hold}
    (hentry : Doing (s.midst (a :: gs) rsi (info.marked false) pend held []) [] (a :: gs) L₀ s)
    (hl : info.internalLocalDecider = some a) (hi : info.internalSighandler = none) :
    Rounds p s info rsi
      (fun ab => s.midst (bif ab then gs else a :: gs) rsi (info.marked ab) pend held [])
      fun _ _ => True where
  base _ := rfl
  named _ := rfl
  marked _ := rfl
  parked ab y hy := by cases hy
  abandon u l L h _ := by
    obtain ⟨t, ht, hd⟩ := h.abandonsFrame (p := p) rfl rfl hl hi
    exact ⟨t, ht, ⟨[], gs, L, hd⟩, trivial⟩
  resume u l L h _ := by
    have hd₀ : Doing { s.midst (a :: gs) rsi (info.marked false) pend held [] with
        guards := gs, info := info.marked true } [] l L u := h
    obtain ⟨t, ht, hd⟩ := hd₀.resumesFrame (p := p) hentry.stands hl hi
    exact ⟨t, ht, ⟨[], a :: gs, L, hd⟩, trivial⟩
  onward ab u act t _ _ _ _ _ _ := trivial

/-- What a decider does that never abandons its raise. -/
def GuardState.stays (s v : GuardState) (act : GuardAction) : Prop :=
  v.goesOn s.calls act = true ∧ act.abandons = false

theorem stays_info (hi : Stacked s) (hm : rsi ∈ s.calls.filterMap GuardCall.info)
    (hr : Run (guardStep p) s.stays s v) (hb : s.calls <:+ v.calls) : v.infos rsi = s.infos rsi := by
  refine (infos_kept_run hi (hr.mono fun v act h => ?_) hb hm).2
  refine ⟨goesOn_suffix h.1, fun hc => ?_⟩
  have hgo := ((Bool.and_eq_true _ _).mp h.1).2
  cases act with
  | decide d =>
    have hgo : (v.calls != s.calls) = true := hgo
    rw [hc, bne_self_eq_false] at hgo
    cases hgo
  | abandon => cases h.2
  | resume => cases h.2
  | write => cases hgo
  | _ => rfl

theorem abandons_short {g g' : Global} {item n : Addr}
    (h : sigdeciderAbandon g item n = .ok g') : g' = g.short item n := by
  obtain ⟨k, hk, h'⟩ := bind_ok.mp h
  obtain ⟨nd, hn, -⟩ := bind_ok.mp h'
  obtain ⟨_, he, hn⟩ := Heap.read_ok.mp hn
  cases he
  exact Except.ok.inj (h.symm.trans (abandon_short (readContainer_ok hk) hn))

theorem resumes_short {g g' : Global} {item n : Addr}
    (h : sigdeciderAbandonResume (g.short item n) item n = .ok g') : g' = g := by
  obtain ⟨k, nd, hk, hn, -⟩ := abandonResume_ok h
  rw [Global.short_containers, Heap.mapAt_self] at hk
  rw [Global.short_nodes, Heap.mapAt_self] at hn
  obtain ⟨k₀, hk₀, -⟩ := Option.map_eq_some_iff.mp hk
  obtain ⟨nd₀, hn₀, -⟩ := Option.map_eq_some_iff.mp hn
  exact Except.ok.inj (h.symm.trans (resume_short hk₀ hn₀))

theorem setInfo_shelved {item n : Addr} (hinfo : u.infos rsi = some info) :
    (u.setG (u.g.short item n)).setInfo rsi (info.marked true) = u.shelved item n rsi :=
  congrArg (fun infos => { u.shelved item n rsi with infos })
    (Heap.set_map hinfo fun info => info.marked true)

theorem resetInfo_shelved {item n : Addr} (hinfo : v.infos rsi = some info) :
    ((v.shelved item n rsi).setG v.g).setInfo rsi info = v := by
  have hback : (v.shelved item n rsi).infos.set rsi (some info) = v.infos := by
    funext b
    by_cases hb : b = rsi
    · subst hb
      rw [Heap.set_self, hinfo]
    · rw [Heap.set_other _ _ hb, GuardState.shelved_infos, Heap.mapAt_other _ _ (by simpa using hb)]
  exact congrArg (fun infos => { v with infos }) hback

/-- In a global decider. The state is all the time that of a decider which does not abandon its
raise, or that without the two references. -/
theorem rounds_node {x : Hold} {L₀ : Layout} {pend : List Slot} {held : List Hold}
    (hentry : Doing (s.midst guards rsi (info.marked false) pend (x :: held) []) [] guards L₀ s)
    (hl : info.internalLocalDecider = none) (hi : info.internalSighandler = some x.item)
    (hn : info.internalGlobalDecider = some x.node) :
    Rounds p s info rsi
      (fun ab => s.midst guards rsi (info.marked ab) pend (bif ab then held else x :: held)
        (bif ab then [x] else []))
      fun ab u => ∃ v, Run (guardStep p) s.stays s v ∧
        u = bif ab then v.shelved x.item x.node rsi else v where
  base _ := rfl
  named _ := rfl
  marked _ := rfl
  parked ab y hy := by
    cases ab with
    | false => cases hy
    | true =>
      rw [List.mem_singleton.mp hy]
      exact ⟨rfl, hn⟩
  abandon u l L h hx := by
    obtain ⟨v, hr, hu⟩ := hx
    obtain rfl : u = v := hu
    obtain ⟨t, ht, ⟨g, hg, hstate⟩, hd⟩ := Doing.abandonsNode (p := p)
      (E := s.midst guards rsi (info.marked false) pend (x :: held) []) h rfl hl hi hn
    refine ⟨t, ht, ⟨[], l, L, hd⟩, u, hr, ?_⟩
    rw [hstate, abandons_short hg]
    exact setInfo_shelved h.info
  resume u l L h hx := by
    obtain ⟨v, hr, hu⟩ := hx
    obtain rfl : u = v.shelved x.item x.node rsi := hu
    have hd₀ : Doing { s.midst guards rsi (info.marked false) pend (x :: held) [] with
        info := info.marked true, held, parked := [x] } [] l L (v.shelved x.item x.node rsi) := h
    obtain ⟨t, ht, ⟨g, hg, hstate⟩, hd⟩ := hd₀.resumesNode (p := p) hl hi hn
    refine ⟨t, ht, ⟨[], l, L, hd⟩, v, hr, ?_⟩
    have hinfo : v.infos rsi = some (info.marked false) :=
      (stays_info hentry.stacked hentry.base_mem hr h.suffix).trans hentry.info
    rw [hstate, resumes_short hg]
    exact resetInfo_shelved hinfo
  onward ab u act t hgoes hx hgo hact hspare ht := by
    obtain ⟨v, hr, hu⟩ := hx
    cases ab with
    | false =>
      obtain rfl : u = v := hu
      exact ⟨t, .tail act hr ⟨hgo, hact⟩ ht, rfl⟩
    | true =>
      obtain rfl : u = v.shelved x.item x.node rsi := hu
      obtain ⟨nested, l, L, hd⟩ := hgoes
      obtain ⟨v', hv, rfl⟩ := Doing.unshelves (p := p) (E := s.midst guards rsi (info.marked true) pend
        held [x]) hd hgo hact hspare rfl hn t ht
      exact ⟨v', .tail act hr ⟨hgo, hact⟩ hv, rfl⟩

theorem GuardState.Consults.entered (he : s.Consults p who info rsi) :
    Stacked s ∧ s.infos rsi = some info ∧ info.internalDeciderIsAbandoned = false ∧
      Entry s info rsi who ∧ ∃ guards, s.Stands guards := by
  obtain ⟨b, g, r, act, args, hrun, hstep, ht, hstands⟩ := he.called
  have hi : Stacked r := hrun.invariant (stacked_initial b g) fun s act s' hi _ h =>
    hi.step (guardStep_turns h)
  obtain ⟨rsi', hinfo, hab, hgiven, hentry⟩ := (guardStep_turns hstep).entry hi ht
  obtain rfl : rsi' = rsi := Option.some.inj (hgiven.symm.trans he.given)
  refine ⟨hi.step (guardStep_turns hstep), hinfo, hab, hentry, ?_⟩
  cases b with
  | false => exact hstands rfl
  | true => exact ⟨_, guards_stand (hrun.tail act trivial hstep)⟩

/-- Nothing but what the calls share has changed where the decider of a frame is not
abandoned. -/
theorem frame_restores {a : Addr} {gs l : List Addr} {L L₀ : Layout} {pend : List Slot}
    {held : List Hold} {delivered : Bool} {rest : List GuardCall}
    (hentry : Doing (s.midst (a :: gs) rsi (info.marked false) pend held []) [] (a :: gs) L₀ s)
    (hd : Doing (s.midst (a :: gs) rsi (info.marked false) pend held []) [] l L u)
    (hc : s.calls = .raise args delivered (.asking a rsi) :: rest)
    (hi : info.internalSighandler = none) : s.Restores p u (.frame a) info where
  front := by
    rw [hd.front, hentry.front, hd.idle_guards]
    rfl
  container item hitem := by
    rw [hi] at hitem
    cases hitem
  node n hn := by cases hn
  decides := frame_decides hd hentry rfl rfl hc hd.info hentry.info
  plain n hn := by cases hn

/-- Nor where that of a node is not. -/
theorem node_restores {x : Hold} {l : List Addr} {L L₀ : Layout} {pend : List Slot}
    {held : List Hold} {delivered : Bool} {rest : List GuardCall} {sa : Sigaction} {item : Addr}
    (hentry : Doing (s.midst guards rsi (info.marked false) pend (x :: held) []) [] guards L₀ s)
    (hd : Doing (s.midst guards rsi (info.marked false) pend (x :: held) []) [] l L u)
    (hc : s.calls = .raise args delivered (.deciding item x.node rsi sa) :: rest)
    (hi : info.internalSighandler = some x.item) (hr : Run (guardStep p) s.stays s u) :
    s.Restores p u (.global x.node) info where
  front := by
    rw [hd.front, hentry.front, hd.idle_guards]
    rfl
  container c hcontainer := by
    obtain rfl : x.item = c := Option.some.inj (hi.symm.trans hcontainer)
    exact hentry.pins.same_lifetime hd.pins (hd.map.trans hentry.map.symm) List.mem_cons_self
  node n hn := by
    obtain rfl := Consulted.global.inj hn
    exact hentry.pins.same_refcount hd.pins List.mem_cons_self
  decides := by
    refine node_decides hc (hd.calls.trans hentry.calls.symm) ?_ hd.info hentry.info
    rw [hd.front, hentry.front, hd.idle_guards]
    rfl
  plain _ _ := hr

/-- What the call of a global decider is called in. -/
theorem GuardState.Consults.node {n : Addr} (he : s.Consults p (.global n) info rsi) :
    ∃ x delivered rest item sa guards pend held L args, x.node = n ∧
      s.calls = .raise args delivered (.deciding item x.node rsi sa) :: rest ∧
      info.internalLocalDecider = none ∧ info.internalSighandler = some x.item ∧
      info.internalGlobalDecider = some x.node ∧
      Doing (s.midst guards rsi (info.marked false) pend (x :: held) []) [] guards L s := by
  obtain ⟨hst, hinfo, hab, hentry, guards, hs⟩ := he.entered
  obtain ⟨kernel, w, hw, hg, hown⟩ := he.shared
  obtain ⟨L, hpins⟩ := pinned_run hw
  rw [hg] at hpins
  rw [← marked_false hab] at hinfo
  cases hentry with
  | global item n hc hl hi hn =>
    obtain ⟨x, hx, rfl, hitem⟩ := hown n rfl
    obtain ⟨pre, post, hsplit⟩ := List.append_of_mem (inside_holds hx)
    have hperm : w.holds.Perm (x :: (pre ++ post)) := hsplit ▸ List.perm_middle
    exact ⟨x, _, _, item, _, guards, _, _, L, _, rfl, hc, hl, hitem, hn,
      doing_entry hst hs he.given hinfo (hpins.perm hperm)⟩

/-- `sigdecider_abandon` and `sigdecider_abandon_resume` undo each other, however often a decider
calls them and whatever guards and raises it makes in between, as long as no decision of those gives
back the last reference on the node whose decider is abandoned. -/
theorem abandon_resume_inverse (p : Platform) (he : s.Consults p who info rsi)
    (hr : Run (guardStep p)
      (fun v act => v.goesOn s.calls act = true ∧ v.spares rsi act = true) s u) :
    s.Inverts p u who info rsi := by
  cases who with
  | frame a =>
    obtain ⟨hst, hinfo, hab, hentry, guards, hs⟩ := he.entered
    obtain ⟨kernel, w, hw, hg, -⟩ := he.shared
    obtain ⟨L, hpins⟩ := pinned_run hw
    rw [hg] at hpins
    rw [← marked_false hab] at hinfo
    obtain ⟨gs, rfl⟩ := List.head?_eq_some_iff.mp (hs.front.symm.trans (he.topmost a rfl))
    have hd := doing_entry hst hs he.given hinfo hpins
    cases hentry with
    | frame _ hc hl hi =>
      exact (rounds_frame hd hl hi).inverts ⟨_, _, _, hd⟩ trivial hr fun l L _ hd' _ =>
        frame_restores hd hd' hc hi
  | global n =>
    obtain ⟨x, _, _, _, _, guards, pend, held, L, _, rfl, hc, hl, hi, hn, hd⟩ := he.node
    refine (rounds_node hd hl hi hn).inverts ⟨_, _, _, hd⟩ ⟨s, .refl s, rfl⟩ hr
      fun l L _ hd' hx => ?_
    obtain ⟨v, hv, hu⟩ := hx
    obtain rfl : u = v := hu
    exact node_restores hd hd' hc hi hv

end

/-- The signal of a raise that is about to enter the first global decider. -/
def Act.entering (a : Act) : Option Signo :=
  match a.call with
  | .raise r =>
    match r.phase with
    | .frames [] => some r.signo
    | _ => none
  | _ => none

/-- A thread whose raise enters a global decider, where the library stands at the same raise. -/
theorem consults_entered {p : Platform} {kernel : Signo → Sigaction} {w : State} {t : Tid}
    {signo : Signo} {g g' : Global} {v : GuardState} {args : RaiseArgs} {delivered : Bool}
    {rest : List GuardCall} {item n : Addr} {value : Int} {sa : Sigaction}
    (hw : Run (resumeStep p) (fun w act => act.Meets Retractable w) (State.initial kernel) w)
    (ht : (w.top t).bind Act.entering = some signo)
    (hv : Run (guardStep p) (fun _ _ => True) (.initial true g) v) (hg : v.g = w.g)
    (hc : v.calls = .raise args delivered (.walk none) :: rest) (hsigno : args.signo = signo)
    (he : raiseEnter w.g signo = .ok (.deciding item n value sa, g')) :
    ∃ s info, guardStep p v .advance = .ok s ∧ s.infos v.nextInfo = some info ∧
      s.Consults p (.global n) info v.nextInfo := by
  obtain ⟨a, htop, hentering⟩ := Option.bind_eq_some_iff.mp ht
  obtain ⟨r, hcall, hphase, rfl⟩ : ∃ r, a.call = .raise r ∧ r.phase = .frames [] ∧ r.signo = signo := by
    unfold Act.entering at hentering
    split at hentering
    · split at hentering
      · exact ⟨_, ‹_›, ‹_›, Option.some.inj hentering⟩
      · cases hentering
    · cases hentering
  let info : Siginfo := { prepareRsi {} args with
    value
    internalSighandler := some item
    internalGlobalDecider := some n }
  let s := (v.setG g').ask args delivered (.global n) info (.deciding item n · sa) rest
  let w' : State := { w with
    g := g'
    acts := a.phase r (.deciding { item, current := n, value, sa }) :: w.others t }
  have hadvance : guardStep p v .advance = .ok s := by
    simp only [guardStep, hc, guardSection, globalSection, hg, hsigno, he, ofLib, bind, Except.bind,
      pure, Except.pure]
    rfl
  have hstep : resumeStep p w (.lib (.advance t {})) = .ok w' := by
    simp only [resumeStep, step, htop, callSection, hcall, raiseSection, hphase, he, bind,
      Except.bind, pure, Except.pure]
    rfl
  have hretains : w.retains (.lib (.advance t {})) = true := by
    simp [State.retains, State.releases, State.unpins, State.drops, Act.drops, htop, hcall]
  refine ⟨s, info, hadvance, Heap.set_self .., ?_, rfl, fun a ha => (by cases ha), kernel, w',
    hw.tail _ (retains_meets hretains) hstep, rfl, fun m hm => ?_⟩
  · exact ⟨true, g, v, .advance, args, hv, hadvance, rfl, fun hb => by cases hb⟩
  · obtain rfl := Consulted.global.inj hm
    refine ⟨⟨a.id, item, n⟩, ?_, rfl, rfl⟩
    exact List.mem_flatMap.mpr ⟨_, List.mem_cons_self, by simp [Act.holds]⟩

theorem pushRaise_g {p : Platform} {s t : GuardState} {args : RaiseArgs} {delivered : Bool}
    {env : SetupEnv} {calls : List GuardCall}
    (h : s.pushRaise p args delivered env calls = .ok t) : t.g = s.g := by
  simp only [GuardState.pushRaise] at h
  split at h
  · obtain rfl := pure_ok.mp h
    exact answer_g ..
  · split at h
    · obtain rfl := pure_ok.mp h
      exact answer_g ..
    · obtain ⟨tss, -, h⟩ := bind_ok.mp h
      obtain ⟨state, -, h⟩ := bind_ok.mp h
      obtain rfl := pure_ok.mp h
      rfl

/-- Thread 1 raises signal 1, and is about to be inside the decider; so is a thread that stands for
it. -/
def State.consultsOne (q : GuardState → Bool) (w : State) : Bool :=
  (w.top 1).bind Act.entering == some 1 &&
    okAnd (raiseEnter w.g 1) (fun r => r.1 == .deciding 0 0 0 .dfl) &&
    okAnd (guardStep .tiny (.initial true w.g) (.raise { signo := 1 } {})) fun v =>
      v.calls == [.raise { signo := 1 } false (.walk none)] && v.nextInfo == 0 &&
        okAnd (guardStep .tiny v .advance) q

theorem consultsOne_run {q : GuardState → Bool} {l : List Action}
    (h : ends (resumeStep .tiny) State.retains (State.consultsOne q) (State.initial fun _ => .dfl)
      (l.map .lib) = true) :
    ∃ (s : GuardState) (info : Siginfo), s.Consults .tiny (.global 0) info 0 ∧
      s.infos 0 = some info ∧ q s = true := by
  obtain ⟨w, hw, hq⟩ := run_of_ends (f := resumeStep .tiny)
    (r := fun w act => act.Meets Retractable w) (fun w act h => retains_meets h) h
  simp only [State.consultsOne, Bool.and_eq_true, beq_iff_eq, okAnd_iff, Prod.exists] at hq
  obtain ⟨⟨ht, e, g', he, rfl⟩, v, hv, ⟨hc, hnext⟩, s, hs, hq⟩ := hq
  have hrun : Run (guardStep .tiny) (fun _ _ => True) (.initial true w.g) v :=
    .tail _ (.refl _) trivial hv
  have hpush : (GuardState.initial true w.g).pushRaise .tiny { signo := 1 } false {} [] = .ok v := by
    have hcode : (GuardState.initial true w.g).userCode = true := rfl
    simp only [guardStep, if_pos hcode] at hv
    exact hv
  obtain ⟨s', info, hs', hinfo, hconsults⟩ :=
    consults_entered hw ht hrun (pushRaise_g hpush) hc rfl he
  obtain rfl := Except.ok.inj (hs.symm.trans hs')
  rw [hnext] at hinfo hconsults
  exact ⟨s, info, hconsults, hinfo, hq⟩

/-- The decider raises its signal again while it is abandoned. -/
def raiseBetween : List GuardAction :=
  [.abandon, .raise { signo := 1 } {}, .advance, .decide .resumeExecution, .resume]

/-- The node keeps the reference of its handle all the time. -/
theorem abandon_resume_inverse_raising :
    ∃ (s u : GuardState) (info : Siginfo), s.Consults .tiny (.global 0) info 0 ∧ u.trace ≠ s.trace ∧
      s.Inverts .tiny u (.global 0) info 0 := by
  obtain ⟨s, info, hs, -, hq⟩ := consultsOne_run (l := installOne ++ registerOne ++ [.raise 1 1])
    (q := fun s => ends (guardStep .tiny) (fun u act => u.goesOn s.calls act && u.spares 0 act)
      (fun u => u.trace.length != s.trace.length) s raiseBetween) (by decide)
  obtain ⟨u, hu, hlen⟩ := run_of_ends (f := guardStep .tiny)
    (r := fun u act => u.goesOn s.calls act = true ∧ u.spares 0 act = true)
    (fun u act h => (Bool.and_eq_true _ _).mp h) hq
  refine ⟨s, u, info, hs, fun he => ?_, abandon_resume_inverse .tiny hs hu⟩
  rw [he, bne_self_eq_false] at hlen
  cases hlen

theorem spares_unmarked {u : GuardState} {rsi : Addr} {info : Siginfo} {act : GuardAction}
    (hinfo : u.infos rsi = some info) (hab : info.internalDeciderIsAbandoned = false) :
    u.spares rsi act = true := by
  have hfilter : (u.infos rsi).filter Siginfo.internalDeciderIsAbandoned = none := by
    rw [hinfo, Option.filter_some, if_neg (by rw [hab]; exact Bool.false_ne_true)]
  cases act with
  | decide d => simp only [GuardState.spares, hfilter]
  | _ => rfl

theorem Midst.Goes.stay {p : Platform} {E : Midst} {s u : GuardState} (h : E.Goes s)
    (hbase : E.base = s.calls) (hab : E.info.internalDeciderIsAbandoned = false)
    (hparked : E.parked = []) (hr : Run (guardStep p) s.stays s u) (hb : s.calls <:+ u.calls) :
    E.Goes u := by
  induction hr with
  | refl => exact h
  | @tail u t act _ hok ht ih =>
    obtain ⟨hgo, hact⟩ := hok
    have hu := ih (goesOn_suffix hgo)
    have hspare : u.spares E.rsi act = true := spares_unmarked hu.marked hab
    obtain ⟨nested, l, L, hd⟩ := hu
    have hcomes := hd.step (p := p) (by rwa [hbase]) hact hspare (by simp [hparked])
    rw [ht] at hcomes
    cases hcomes with
    | ok hstays => exact hstays (by rwa [hbase])

/-- A decider that does not abandon its raise stays on the list of the container. -/
theorem GuardState.Consults.listed {p : Platform} {s u : GuardState} {n rsi : Addr} {info : Siginfo}
    (he : s.Consults p (.global n) info rsi) (hr : Run (guardStep p) s.stays s u)
    (hc : u.calls = s.calls) : ∃ item k, info.internalSighandler = some item ∧
      u.g.containers item = some k ∧ k.globalHandler.front ≠ none := by
  obtain ⟨x, _, _, _, _, guards, pend, held, L₀, _, rfl, -, -, hi, -, hd₀⟩ := he.node
  have hgoes := Midst.Goes.stay ⟨_, _, _, hd₀⟩ rfl rfl rfl hr (hc ▸ List.suffix_rfl)
  obtain ⟨l, L, hd⟩ := hgoes.idle hc
  obtain ⟨k, hk⟩ := hd.pins.wf.held x.item List.mem_cons_self
  refine ⟨x.item, k, hi, hk, fun hfront => ?_⟩
  have hlist := hd.pins.wf.lists x.item k .global hk
  have hm : x.node ∈ L x.item .global := hd.pins.listed x List.mem_cons_self
  have hempty : (L x.item .global).head? = none := hlist.front.symm.trans hfront
  rw [List.head?_eq_none_iff.mp hempty] at hm
  cases hm

/-- The handle of the decider is destroyed while a raise is inside of it, which then leaves for good:
the node stays, with no reference. -/
def orphanOne : List Action :=
  enterOne ++ [.destroy 0 1] ++ List.replicate 5 (.advance 0 {}) ++ [.abandon 1, .jump 1]

/-- Without the condition: the raise in between takes the node off the list with the last reference.
The decider returns, and its own raise goes wrong taking it off again. -/
theorem resumed_on_wrong_list :
    ∃ (s u : GuardState) (info : Siginfo), s.Consults .tiny (.global 0) info 0 ∧
      Run (guardStep .tiny) (fun v act => v.goesOn s.calls act = true) s u ∧
      u.calls = s.calls ∧ u.infos 0 = some (info.marked false) ∧
      guardStep .tiny u (.decide .nextDecider) = .error (.lib (.node none)) ∧
      ¬s.Inverts .tiny u (.global 0) info 0 := by
  obtain ⟨s, info, hs, hinfo, hq⟩ := consultsOne_run
    (l := installOne ++ registerOne ++ orphanOne ++ [.raise 1 1])
    (q := fun s => ends (guardStep .tiny) (fun u act => u.goesOn s.calls act)
      (fun u => u.calls == s.calls && u.infos 0 == (s.infos 0).map (Siginfo.marked · false) &&
        ((s.infos 0).bind Siginfo.internalSighandler == some 0 &&
          (u.g.containers 0).any fun k => k.globalHandler.front == none) &&
        failsWith (guardStep .tiny u (.decide .nextDecider)) (.lib (.node none))) s raiseBetween)
    (by decide)
  obtain ⟨u, hu, hq⟩ := run_of_ends (f := guardStep .tiny)
    (r := fun u act => u.goesOn s.calls act = true) (fun u act h => h) hq
  simp only [Bool.and_eq_true, beq_iff_eq, failsWith_iff, Option.any_eq_true, hinfo, Option.map_some,
    Option.bind_some] at hq
  obtain ⟨⟨⟨hc, hmarked⟩, hitem, k, hk, hfront⟩, hfails⟩ := hq
  refine ⟨s, u, info, hs, hu, hc, hmarked, hfails, fun hinv => ?_⟩
  obtain ⟨item, k', hi, hk', hne⟩ := hs.listed ((hinv.restores hc hmarked).plain 0 rfl) hc
  obtain rfl : item = 0 := Option.some.inj (hi.symm.trans hitem)
  obtain rfl := Option.some.inj (hk.symm.trans hk')
  exact hne hfront

end Wg14Signals
