import Wg14Signals.Proofs.Pins
import Wg14Signals.Proofs.Nesting

namespace Wg14Signals
open Lib

/-- The references a raise holds in a global decider. -/
def GuardCall.pin : GuardCall → Option Hold
  | .raise _ _ (.deciding item current _ _) => some ⟨0, item, current⟩
  | _ => none

/-- What a decider is called in: the calls in progress and their frames, the guards that stand for
what it calls itself, its `stdc_siginfo`, and what the handles and the other raises hold. -/
structure Midst where
  base : List GuardCall
  frames : Heap GuardFrame
  own : Option Addr
  guards : List Addr
  rsi : Addr
  info : Siginfo
  map : Signo → Option Addr
  pend : List Slot
  held : List Hold
  parked : List Hold

/-- A decider has made these calls, which are in progress. -/
structure Doing (E : Midst) (nested : List GuardCall) (l : List Addr) (L : Layout)
    (u : GuardState) : Prop where
  calls : u.calls = nested ++ E.base
  top : E.base.head?.bind GuardCall.info = some E.rsi
  stacked : Stacked u
  nests : Nests u.frames u.store.slot.own E.guards nested l
  stands : Linked E.frames E.own E.base E.guards
  framed : ∀ a tss old, .sigguarded a tss old false ∈ E.base → u.frames a = E.frames a
  owned : E.own = none ∨ u.store.slot.own = E.own
  front : u.store.front = l.head?
  live : u.store.Live
  looks : ∀ a, nested.head?.bind GuardCall.looks = some a → a ∈ l
  quiet : ∀ c ∈ nested.tail, c.settled
  info : u.infos E.rsi = some E.info
  map : u.g.map = E.map
  pins : Pinned u.g L E.pend ((nested.head?.bind GuardCall.pin).toList ++ E.held) E.parked
  mapped : ∀ args delivered item current rsi sa,
    nested.head? = some (.raise args delivered (.deciding item current rsi sa)) →
      E.map args.signo = some item

/-- So it is after a step, in some way. -/
def Midst.Goes (E : Midst) (t : GuardState) : Prop := ∃ nested l L, Doing E nested l L t

/-- The step is taken, to such a state, or it is not one that can be taken. -/
inductive Comes (Q : GuardState → Prop) : Except ThreadFault GuardState → Prop where
  | ok {t : GuardState} (h : Q t) : Comes Q (.ok t)
  | disabled : Comes Q (.error .disabled)

theorem Comes.to {Q : GuardState → Prop} {x : Except ThreadFault GuardState} {t : GuardState}
    (hx : x = .ok t) (hq : Q t) : Comes Q x := hx ▸ .ok hq

section

variable {E : Midst} {nested nested' rest : List GuardCall} {l l' : List Addr} {L L' : Layout}
  {u t : GuardState} {act : GuardAction} {p : Platform} {args : RaiseArgs} {delivered : Bool}
  {pc : GuardPc} {c : GuardCall}

theorem GuardCall.settled.pin (h : c.settled) : c.pin = none := by
  cases c with
  | sigguarded => rfl
  | raise args delivered pc =>
    cases pc with
    | deciding => cases h.2
    | _ => rfl

theorem Doing.base_mem (h : Doing E nested l L u) :
    E.rsi ∈ E.base.filterMap GuardCall.info := by
  obtain ⟨c, hc, hrsi⟩ := Option.bind_eq_some_iff.mp h.top
  exact List.mem_filterMap.mpr ⟨c, List.mem_of_head? hc, hrsi⟩

theorem Doing.suffix (h : Doing E nested l L u) : E.base <:+ u.calls := ⟨nested, h.calls.symm⟩

theorem Doing.linked (h : Doing E nested l L u) :
    Linked u.frames u.store.slot.own E.base E.guards :=
  h.stands.congr h.owned h.framed

/-- A guard that goes on keeps its frame. -/
theorem Doing.frames_kept (h : Doing E nested l L u) (hturn : GuardTurn u t act) {a : Addr}
    {tss old : Option Addr} (hm : .sigguarded a tss old false ∈ u.calls)
    (hm' : .sigguarded a tss old false ∈ t.calls) : t.frames a = u.frames a := by
  have hlt := h.stacked.frameBound a (List.mem_filterMap.mpr ⟨_, hm, rfl⟩)
  exact (hturn.frames_kept h.stacked hlt hm').2

/-- What has to be said of a step: the calls it makes or ends, and what that does to the guard
stack and to the references. -/
theorem Doing.turned (h : Doing E nested l L u) (hturn : GuardTurn u t act)
    (hown : nested = [] → act.owns = false) (hc : t.calls = nested' ++ E.base)
    (hslot : u.store.slot.own = none ∨ t.store.slot.own = u.store.slot.own)
    (hn : Nests t.frames t.store.slot.own E.guards nested' l') (hfront : t.store.front = l'.head?)
    (hlive : t.store.Live) (hlooks : ∀ a, nested'.head?.bind GuardCall.looks = some a → a ∈ l')
    (hq : ∀ c ∈ nested'.tail, c.settled) (hmap : t.g.map = u.g.map)
    (hpins : Pinned t.g L' E.pend ((nested'.head?.bind GuardCall.pin).toList ++ E.held) E.parked)
    (hmapped : ∀ args delivered item current rsi sa,
      nested'.head? = some (.raise args delivered (.deciding item current rsi sa)) →
        E.map args.signo = some item) : Doing E nested' l' L' t where
  calls := hc
  top := h.top
  stacked := h.stacked.step hturn
  nests := hn
  stands := h.stands
  framed a tss old hm := by
    have hm' : .sigguarded a tss old false ∈ t.calls := hc ▸ List.mem_append.mpr (.inr hm)
    exact (h.frames_kept hturn (h.suffix.subset hm) hm').trans (h.framed a tss old hm)
  owned := by
    rcases h.owned with hnone | hown
    · exact .inl hnone
    · exact hslot.imp (fun hnone => hown.symm.trans hnone) fun hsame => hsame.trans hown
  front := hfront
  live := hlive
  looks := hlooks
  quiet := hq
  info := by
    rw [hturn.infos_kept h.stacked h.suffix ⟨nested', hc.symm⟩ h.base_mem fun he => hown ?_]
    · exact h.info
    · rw [h.calls] at he
      exact List.append_left_eq_self.mp he
  map := hmap.trans h.map
  pins := hpins
  mapped := hmapped

/-- The innermost call goes on outside deciders, or is over. -/
theorem Doing.settles (h : Doing E nested l L u) (hturn : GuardTurn u t act)
    (hown : nested = [] → act.owns = false) (hc : t.calls = nested' ++ E.base)
    (hslot : u.store.slot.own = none ∨ t.store.slot.own = u.store.slot.own)
    (hn : Nests t.frames t.store.slot.own E.guards nested' l') (hfront : t.store.front = l'.head?)
    (hlive : t.store.Live) (hq : ∀ c ∈ nested', c.settled) (hmap : t.g.map = u.g.map)
    (hpins : Pinned t.g L' E.pend E.held E.parked) : Doing E nested' l' L' t := by
  have hhead : ∀ c, nested'.head? = some c → c.settled := fun c hc => hq c (List.mem_of_head? hc)
  refine h.turned hturn hown hc hslot hn hfront hlive (fun a ha => ?_)
    (fun c hm => hq c (List.mem_of_mem_tail hm)) hmap ?_ fun args delivered item current rsi sa ht => ?_
  · obtain ⟨c, hc, hl⟩ := Option.bind_eq_some_iff.mp ha
    rw [(hhead c hc).1] at hl
    cases hl
  · have hnone : nested'.head?.bind GuardCall.pin = none := by
      refine Option.bind_eq_none_iff.mpr fun c hc => ?_
      exact (hhead c hc).pin
    rw [hnone]
    exact hpins
  · cases (hhead _ ht).2

/-- What holds of the guards of calls that go on holds after the step. -/
theorem Doing.nests_kept (h : Doing E nested l L u) (hturn : GuardTurn u t act)
    (hslot : u.store.slot.own = none ∨ t.store.slot.own = u.store.slot.own)
    (hn : Nests u.frames u.store.slot.own E.guards rest l') (hu : rest <:+ nested)
    (ht : ∀ c ∈ rest, c ∈ t.calls) : Nests t.frames t.store.slot.own E.guards rest l' := by
  refine (hn.congr fun a tss old hm => ?_).move hslot
  refine h.frames_kept hturn ?_ (ht _ hm)
  rw [h.calls]
  exact List.mem_append.mpr (.inl (hu.subset hm))

/-- How `stdc_raise` returns. -/
theorem answer_settled (u : GuardState) (args : RaiseArgs) (delivered result : Bool)
    (calls : List GuardCall) : ∃ ys, (u.answer args delivered result calls).calls = ys ++ calls ∧
      ∀ c ∈ ys, (∃ args delivered pc, c = .raise args delivered pc) ∧ c.settled := by
  have hinvoke : ∀ c ∈ [GuardCall.raise args true (.invoke .dfl)],
      (∃ args delivered pc, c = .raise args delivered pc) ∧ c.settled := by
    intro c hc
    rw [List.mem_singleton.mp hc]
    exact ⟨⟨_, _, _, rfl⟩, rfl, rfl⟩
  unfold GuardState.answer
  split
  · split
    · exact ⟨[], rfl, by simp⟩
    · exact ⟨_, rfl, hinvoke⟩
  · exact ⟨[], rfl, by simp⟩

theorem answer_g (u : GuardState) (args : RaiseArgs) (delivered result : Bool)
    (calls : List GuardCall) : (u.answer args delivered result calls).g = u.g := by
  unfold GuardState.answer
  split
  · split <;> rfl
  · rfl

theorem Doing.pins_settled (h : Doing E nested l L u) (hq : ∀ c ∈ nested, c.settled) :
    Pinned u.g L E.pend E.held E.parked := by
  have hnone : nested.head?.bind GuardCall.pin = none :=
    Option.bind_eq_none_iff.mpr fun c hc => (hq c (List.mem_of_head? hc)).pin
  have hpins := h.pins
  rw [hnone] at hpins
  exact hpins

/-- Another raise is made by what runs outside deciders. -/
theorem Doing.pushRaise (h : Doing E nested l L u) (hq : ∀ c ∈ nested, c.settled)
    (env : SetupEnv) : Comes E.Goes (u.pushRaise p args delivered env u.calls) := by
  obtain ⟨hlive, hfront, hslot, hready⟩ := h.live.init env
  have turn : ∀ {t}, u.pushRaise p args delivered env u.calls = .ok t →
      GuardTurn u t .advance := by
    intro t ht
    obtain ⟨⟨ys, hy, hl⟩, ho, hs, hu⟩ := pushRaise_turns ht
    exact .shift _ [] ys u.calls (by simp) hl rfl hy ho hs hu
  have nests : ∀ {t : GuardState} {ys : List GuardCall},
      u.pushRaise p args delivered env u.calls = .ok t → t.calls = ys ++ u.calls →
      t.store = (u.store.init env).2 →
      (∀ c ∈ ys, ∃ args delivered pc, c = .raise args delivered pc) →
      Nests t.frames t.store.slot.own E.guards (ys ++ nested) l := by
    intro t ys ht hc hs hy
    have hslot' : u.store.slot.own = none ∨ t.store.slot.own = u.store.slot.own := hs ▸ hslot
    refine (h.nests_kept (turn ht) hslot' h.nests List.suffix_rfl fun c hm => ?_).of_raises hy
    rw [hc, h.calls]
    exact List.mem_append.mpr (.inr (List.mem_append.mpr (.inl hm)))
  have answered : ∀ {t : GuardState} {result : Bool},
      t = (u.setStore (u.store.init env).2).answer args delivered result u.calls →
      u.pushRaise p args delivered env u.calls = .ok t → E.Goes t := by
    intro t result heq ht
    obtain ⟨ys, hc, hy⟩ := answer_settled (u.setStore (u.store.init env).2) args delivered result
      u.calls
    obtain ⟨-, -, hs, -⟩ := answer_turns (u.setStore (u.store.init env).2) args delivered result
      u.calls
    rw [← heq] at hc hs
    have hg : t.g = u.g := by
      rw [heq, answer_g]
      rfl
    refine ⟨ys ++ nested, l, L, h.settles (turn ht) (fun _ => rfl) ?_ (by rw [hs]; exact hslot)
      (nests ht hc hs fun c hm => (hy c hm).1) ?_ (by rw [hs]; exact hlive) (fun c hm => ?_)
      (by rw [hg]) (hg ▸ h.pins_settled hq)⟩
    · rw [hc, h.calls, List.append_assoc]
    · rw [hs, ← h.front]
      exact hfront
    · exact (List.mem_append.mp hm).elim (fun hm => (hy c hm).2) (hq c)
  have hrun : ∀ {r}, u.pushRaise p args delivered env u.calls = r → Comes E.Goes r := by
    intro r hr
    have hr₀ := hr
    simp only [GuardState.pushRaise] at hr
    split at hr
    · subst hr
      exact .ok (answered rfl hr₀)
    · rename_i hok
      split at hr
      · subst hr
        exact .ok (answered rfl hr₀)
      · obtain ⟨a, state, hown, hstate, hsfront⟩ := hready (by simpa using hok)
        simp only [store_setStore, find_some hown, Heap.read_some hstate, pure, Except.pure, bind,
          Except.bind] at hr
        subst hr
        have hc : ((u.setStore (u.store.init env).2).goto
            (.raise args delivered (.walk state.front) :: u.calls)).calls =
              [.raise args delivered (.walk state.front)] ++ u.calls := rfl
        refine .ok ⟨_ :: nested, l, L, h.turned (turn hr₀) (fun _ => rfl) ?_ hslot
          (nests hr₀ hc rfl ?_) ?_ hlive ?_ hq rfl (h.pins_settled hq) ?_⟩
        · rw [hc, h.calls]
          rfl
        · intro c hm
          exact ⟨_, _, _, List.mem_singleton.mp hm⟩
        · exact hfront.trans h.front
        · intro a ha
          have ha : state.front = some a := ha
          rw [hsfront, h.front] at ha
          exact List.mem_of_head? ha
        · intro _ _ _ _ _ _ hhead
          cases hhead
  exact hrun rfl

/-- The innermost raise is replaced by what it goes on with. -/
theorem Doing.nests_top (h : Doing E (.raise args delivered pc :: rest) l L u)
    (ys : List GuardCall) (hturn : GuardTurn u t act) (hc : t.calls = ys ++ (rest ++ E.base))
    (hslot : u.store.slot.own = none ∨ t.store.slot.own = u.store.slot.own)
    (hy : ∀ c ∈ ys, ∃ args delivered pc, c = .raise args delivered pc) :
    Nests t.frames t.store.slot.own E.guards (ys ++ rest) l := by
  refine (h.nests_kept hturn hslot h.nests.of_raise ⟨[_], rfl⟩ fun c hm => ?_).of_raises hy
  rw [hc]
  exact List.mem_append.mpr (.inr (List.mem_append.mpr (.inl hm)))

/-- The loop over the frames. -/
theorem Doing.walk {a : Addr} (h : Doing E (.raise args delivered (.walk (some a)) :: rest) l L u) :
    Comes E.Goes (walkSection u args delivered a (rest ++ E.base)) := by
  obtain ⟨f, hf, hnext⟩ := h.nests.linked h.linked (h.looks a rfl)
  have hturn : ∀ {t}, walkSection u args delivered a (rest ++ E.base) = .ok t →
      GuardTurn u t .advance := fun ht => walkSection_turns h.calls ht
  have hread : walkSection u args delivered a (rest ++ E.base) =
      if f.guarded args.signo then pure (u.ask args delivered (.frame a)
        { prepareRsi {} args with value := f.rsi.value, internalLocalDecider := some a }
        (.asking a) (rest ++ E.base))
      else pure (u.goto (.raise args delivered (.walk f.prev) :: (rest ++ E.base))) := by
    simp only [walkSection, Heap.read_some hf, pure, Except.pure, bind, Except.bind]
  rw [hread] at hturn ⊢
  split
  · rename_i hset
    have ht := hturn (if_pos hset)
    refine .ok ⟨.raise args delivered (.asking a u.nextInfo) :: rest, l, L, h.turned
      ht (by simp) rfl (.inr rfl) (h.nests_top [_] ht rfl (.inr rfl) ?_) h.front h.live ?_
      h.quiet rfl h.pins ?_⟩
    · intro c hm
      exact ⟨_, _, _, List.mem_singleton.mp hm⟩
    · intro b hb
      cases hb
      exact h.looks a rfl
    · intro _ _ _ _ _ _ hhead
      cases hhead
  · rename_i hset
    have ht := hturn (if_neg hset)
    refine .ok ⟨.raise args delivered (.walk f.prev) :: rest, l, L, h.turned
      ht (by simp) rfl (.inr rfl) (h.nests_top [_] ht rfl (.inr rfl) ?_) h.front h.live ?_
      h.quiet rfl h.pins ?_⟩
    · intro c hm
      exact ⟨_, _, _, List.mem_singleton.mp hm⟩
    · intro b hb
      exact hnext b hb
    · intro _ _ _ _ _ _ hhead
      cases hhead

/-- The innermost raise goes on with these calls, outside deciders, or returns. -/
theorem Doing.replaced (h : Doing E (.raise args delivered pc :: rest) l L u)
    (ys : List GuardCall) (hturn : GuardTurn u t act) (hc : t.calls = ys ++ (rest ++ E.base))
    (hy : ∀ c ∈ ys, (∃ args delivered pc, c = .raise args delivered pc) ∧ c.settled)
    (hstore : t.store = u.store) (hmap : t.g.map = u.g.map)
    (hpins : Pinned t.g L' E.pend E.held E.parked) : Doing E (ys ++ rest) l L' t := by
  have hslot : u.store.slot.own = none ∨ t.store.slot.own = u.store.slot.own := .inr (by rw [hstore])
  refine h.settles hturn (by simp) ?_ hslot (h.nests_top ys hturn hc hslot fun c hm => (hy c hm).1) ?_
    ?_ (fun c hm => ?_) hmap hpins
  · rw [hc, List.append_assoc]
  · rw [hstore]
    exact h.front
  · rw [hstore]
    exact h.live
  · exact (List.mem_append.mp hm).elim (fun hm => (hy c hm).2) (h.quiet c)

theorem Doing.answers {v : GuardState} {result : Bool}
    (h : Doing E (.raise args delivered pc :: rest) l L u)
    (hturn : GuardTurn u (v.answer args delivered result (rest ++ E.base)) act)
    (hstore : v.store = u.store) (hmap : v.g.map = u.g.map)
    (hpins : Pinned v.g L' E.pend E.held E.parked) :
    E.Goes (v.answer args delivered result (rest ++ E.base)) := by
  obtain ⟨ys, hc, hy⟩ := answer_settled v args delivered result (rest ++ E.base)
  obtain ⟨-, -, hs, -⟩ := answer_turns v args delivered result (rest ++ E.base)
  refine ⟨_, l, L', h.replaced ys hturn hc hy (hs.trans hstore) ?_ ?_⟩
  · rw [answer_g, hmap]
  · rw [answer_g]
    exact hpins

theorem Doing.moves {pc' : GuardPc} (h : Doing E (.raise args delivered pc :: rest) l L u)
    (hturn : GuardTurn u t act) (hc : t.calls = .raise args delivered pc' :: (rest ++ E.base))
    (hp : (GuardCall.raise args delivered pc').settled) (hstore : t.store = u.store)
    (hmap : t.g.map = u.g.map) (hpins : Pinned t.g L' E.pend E.held E.parked) :
    Doing E (.raise args delivered pc' :: rest) l L' t := by
  refine h.replaced [_] hturn hc (fun c hm => ?_) hstore hmap hpins
  rw [List.mem_singleton.mp hm]
  exact ⟨⟨_, _, _, rfl⟩, hp⟩

theorem raiseEnter_absent_same {g g' : Global} {signo : Signo}
    (h : raiseEnter g signo = .ok (.absent, g')) : g' = g := by
  unfold raiseEnter at h
  split at h
  · exact (Prod.mk.inj (pure_ok.mp h)).2.symm
  · obtain ⟨k, -, h⟩ := bind_ok.mp h
    split at h
    · obtain ⟨_, -, h⟩ := bind_ok.mp h
      cases (Prod.mk.inj (pure_ok.mp h)).1
    · obtain ⟨_, -, h⟩ := bind_ok.mp h
      cases (Prod.mk.inj (pure_ok.mp h)).1

/-- The first locked section. -/
theorem Doing.globals (h : Doing E (.raise args delivered (.walk none) :: rest) l L u) :
    Comes E.Goes (globalSection u args delivered (rest ++ E.base)) := by
  have hpins : Pinned u.g L E.pend E.held E.parked := h.pins
  obtain ⟨⟨e, g⟩, he⟩ := hpins.enter_run args.signo
  cases e with
  | absent =>
    have hx : globalSection u args delivered (rest ++ E.base) =
        .ok ((u.setG g).answer args delivered false (rest ++ E.base)) :=
      bind_ok.mpr ⟨_, ofLib_ok.mpr he, rfl⟩
    obtain rfl := raiseEnter_absent_same he
    exact .to hx (h.answers (globalSection_turns h.calls hx) rfl rfl hpins)
  | unclaimed sa =>
    have hx : globalSection u args delivered (rest ++ E.base) =
        .ok ((u.setG g).goto (.raise args delivered (.invoke sa) :: (rest ++ E.base))) :=
      bind_ok.mpr ⟨_, ofLib_ok.mpr he, rfl⟩
    obtain ⟨hmap, L', hpins'⟩ := hpins.enter_unclaimed he
    exact .to hx ⟨_, l, L', h.moves (globalSection_turns h.calls hx) rfl ⟨rfl, rfl⟩ rfl hmap hpins'⟩
  | deciding item current value sa =>
    have hx : globalSection u args delivered (rest ++ E.base) =
        .ok ((u.setG g).ask args delivered (.global current)
          { prepareRsi {} args with
            value
            internalSighandler := some item
            internalGlobalDecider := some current }
          (.deciding item current · sa) (rest ++ E.base)) :=
      bind_ok.mpr ⟨_, ofLib_ok.mpr he, rfl⟩
    obtain ⟨hmap, hm, hpins'⟩ := hpins.enter_deciding (i := 0) he
    have hturn := globalSection_turns h.calls hx
    refine .to hx ⟨.raise args delivered (.deciding item current u.nextInfo sa) :: rest, l, _,
      h.turned hturn
      (by simp) rfl (.inr rfl) (h.nests_top [_] hturn rfl (.inr rfl) ?_) h.front h.live ?_
      h.quiet hmap hpins' ?_⟩
    · intro c hc
      exact ⟨_, _, _, List.mem_singleton.mp hc⟩
    · intro b hb
      cases hb
    · intro _ _ _ _ _ _ hhead
      cases hhead
      rw [← h.map]
      exact hm

/-- A signal delivered to a raise that is outside deciders. -/
theorem Doing.delivers {pc' : GuardPc} (h : Doing E (.raise args delivered pc :: rest) l L u)
    (hl : (GuardCall.raise args delivered pc).light)
    (hp : (GuardCall.raise args delivered pc').light)
    (hset : (GuardCall.raise args delivered pc').settled)
    (hpins : Pinned u.g L E.pend E.held E.parked) :
    Comes E.Goes
      (u.pushRaise p args true {} (.raise args delivered pc' :: (rest ++ E.base))) := by
  let v := u.goto (.raise args delivered pc' :: (rest ++ E.base))
  have hturn : GuardTurn u v .advance :=
    .shift _ [_] [_] (rest ++ E.base) (by simpa using hl) (by simpa using hp) h.calls rfl
      ⟨rfl, rfl, rfl, rfl⟩ (.refl _) (.same rfl)
  have hv : Doing E (.raise args delivered pc' :: rest) l L v :=
    h.moves hturn rfl hset rfl rfl hpins
  refine hv.pushRaise (fun c hm => ?_) {}
  rcases List.mem_cons.mp hm with rfl | hm
  · exact hset
  · exact h.quiet c hm

/-- The next section of the innermost raise. -/
theorem Doing.advances (h : Doing E (.raise args delivered pc :: rest) l L u) :
    Comes E.Goes (guardSection p u args delivered pc (rest ++ E.base)) := by
  have hturn : ∀ {t}, guardSection p u args delivered pc (rest ++ E.base) = .ok t →
      GuardTurn u t .advance := fun ht => guardSection_turns h.calls ht
  cases pc with
  | walk frame =>
    cases frame with
    | none => exact h.globals
    | some a => exact h.walk
  | asking frame rsi => exact .disabled
  | deciding item current rsi sa => exact .disabled
  | handler handler => exact .disabled
  | invoke sa =>
    have hpins : Pinned u.g L E.pend E.held E.parked := h.pins
    simp only [guardSection] at hturn ⊢
    cases hi : invokeSigaction p sa args.signo with
    | calls handler =>
      simp only [hi] at hturn
      cases handler with
      | raw => exact h.delivers trivial trivial ⟨rfl, rfl⟩ hpins
      | _ => exact .ok ⟨_, l, L, h.moves (hturn rfl) rfl ⟨rfl, rfl⟩ rfl rfl hpins⟩
    | default =>
      simp only [hi] at hturn
      exact .ok ⟨_, l, L, h.moves (hturn rfl) rfl ⟨rfl, rfl⟩ rfl rfl hpins⟩
    | ignores =>
      simp only [hi] at hturn
      exact .ok (h.answers (hturn rfl) rfl rfl hpins)
  | handoff hand =>
    have hpins : Pinned u.g L E.pend E.held E.parked := h.pins
    cases hand with
    | query => exact .ok ⟨_, l, L, h.moves (hturn rfl) rfl ⟨rfl, rfl⟩ rfl rfl hpins⟩
    | reset current =>
      exact .ok ⟨_, l, L, h.moves (hturn rfl) rfl ⟨rfl, rfl⟩ rfl rfl (hpins.setKernel _ _)⟩
    | kill current =>
      simp only [guardSection] at hturn ⊢
      split
      · exact h.delivers trivial trivial ⟨rfl, rfl⟩ hpins
      · rename_i hraw
        exact .ok ⟨_, l, L, h.moves (hturn (if_neg hraw)) rfl ⟨rfl, rfl⟩ rfl rfl hpins⟩
    | restore current =>
      exact .ok (h.answers (hturn rfl) rfl rfl (hpins.setKernel _ _))

/-- The assignment to the front through the pointer of the thread. -/
theorem ThreadStorage.Live.setFront {st : ThreadStorage} (h : st.Live) (ho : st.slot.own ≠ none)
    (front : Option Addr) : ∃ st', st.setFront ThreadFault.tss st.slot.own front = .ok st' ∧
      st'.slot = st.slot ∧ st'.front = front ∧ st'.Live := by
  obtain ⟨b, hb⟩ := Option.ne_none_iff_exists'.mp ho
  obtain ⟨state, hstate⟩ := h b hb
  obtain ⟨st', hset, hslot, hown, hst⟩ := setFront_ok ThreadFault.tss hb hstate front
  refine ⟨st', by rw [hb]; exact hset, hslot, front_of_some hown hst, fun c hc => ?_⟩
  rw [hown] at hc
  cases hc
  exact ⟨_, hst⟩

/-- The guard of a frame that stands is found on the stack. -/
theorem Stacked.holds_not (hi : Stacked u) {xs ws : List GuardCall} {a : Addr}
    {tss old : Option Addr} (hc : u.calls = xs ++ .sigguarded a tss old false :: ws) :
    ∀ c ∈ xs, c.holds a = false := by
  intro c hm
  cases c with
  | raise => rfl
  | sigguarded b tss' old' recovering =>
    have hb : b ∈ xs.filterMap GuardCall.frame := List.mem_filterMap.mpr ⟨_, hm, rfl⟩
    have hne : b ≠ a := by
      rintro rfl
      exact hi.apartFrame hc (a := b) List.mem_cons_self hb
    simp [GuardCall.holds, hne]

/-- `longjmp` to the guard of a frame that stands. -/
theorem Stacked.longjmps (hi : Stacked u) (hl : u.store.Live) {xs ws : List GuardCall} {a : Addr}
    {f : GuardFrame} {old : Option Addr} (ho : u.store.slot.own ≠ none)
    (hc : u.calls = xs ++ .sigguarded a u.store.slot.own old false :: ws) :
    ∃ t, (u.setFrame a f).longjmp a = .ok t ∧
      t.calls = .sigguarded a u.store.slot.own old true :: ws ∧ t.g = u.g ∧
      t.store.slot = u.store.slot ∧ t.store.front = old ∧ t.store.Live ∧
      t.trace = .recovered a f.rsi :: u.trace := by
  obtain ⟨st, hset, hslot, hfront, hlive⟩ := hl.setFront ho old
  have hx := hi.holds_not hc
  have hdrop : ((u.setFrame a f).calls.dropWhile fun c => !c.holds a) =
      .sigguarded a u.store.slot.own old false :: ws := by
    rw [GuardState.setFrame_calls, hc, List.dropWhile_append_of_pos fun c hm => by simp [hx c hm],
      List.dropWhile_cons_of_neg (by simp [GuardCall.holds])]
  let gone := (u.setFrame a f).calls.takeWhile fun c => !c.holds a
  refine ⟨((((u.setFrame a f).discard gone).setStore st).goto
    (.sigguarded a u.store.slot.own old true :: ws)).emit (.recovered a f.rsi), ?_, rfl, rfl, hslot,
    hfront, hlive, rfl⟩
  unfold GuardState.longjmp
  rw [hdrop]
  exact bind_ok.mpr ⟨f, Heap.read_some (Heap.set_self ..), bind_ok.mpr ⟨st, hset, rfl⟩⟩

/-- What a step that may leave the decider comes to. -/
def Midst.Stays (E : Midst) (t : GuardState) : Prop := E.base <:+ t.calls → E.Goes t

theorem Comes.mono {Q Q' : GuardState → Prop} {x : Except ThreadFault GuardState}
    (h : Comes Q x) (hq : ∀ t, Q t → Q' t) : Comes Q' x := by
  cases h with
  | ok h => exact .ok (hq _ h)
  | disabled => exact .disabled

theorem Comes.stays {x : Except ThreadFault GuardState} (h : Comes E.Goes x) : Comes E.Stays x :=
  h.mono fun _ hg _ => hg

/-- A frame's decider asks for the recovery function of its guard. -/
theorem Doing.recovers {a rsi : Addr} {info : Siginfo} {f : GuardFrame}
    (h : Doing E (.raise args delivered (.asking a rsi) :: rest) l L u)
    (hinfo : u.infos rsi = some info) (hab : info.internalDeciderIsAbandoned = false)
    (hf : u.frames a = some f) (hrec : f.recovery = true) :
    Comes E.Stays (frameAnswer u args delivered a rsi .callRecovery (rest ++ E.base)) := by
  have hread : frameAnswer u args delivered a rsi .callRecovery (rest ++ E.base) =
      (u.setFrame a { f with rsi := info }).longjmp a := by
    simp [frameAnswer, Heap.read_some hinfo, hab, Heap.read_some hf, hrec, bind, Except.bind]
  obtain ⟨pre, post, hl⟩ := List.append_of_mem (h.looks a rfl)
  rcases h.nests.split hl with ⟨f', xs, rest', hf', hp, ho, hc, hn⟩ | ⟨pre', hg⟩
  · obtain rfl : f' = f := Option.some.inj (hf'.symm.trans hf)
    have hcalls : u.calls =
        xs ++ .sigguarded a u.store.slot.own f'.prev false :: (rest' ++ E.base) := by
      rw [h.calls, hc, List.append_assoc]
      rfl
    obtain ⟨t, ht, htc, hg, hslot, hfront, hlive, -⟩ :=
      h.stacked.longjmps (f := { f' with rsi := info }) h.live ho hcalls
    have hturn := frameAnswer_turns h.calls (hread.trans ht)
    have hown : u.store.slot.own = none ∨ t.store.slot.own = u.store.slot.own := .inr (by rw [hslot])
    have hsub : rest' <:+ .raise args delivered (.asking a rsi) :: rest := ⟨xs ++ [_], by
      rw [hc, List.append_assoc]
      rfl⟩
    have hquiet : ∀ c ∈ rest', c.settled := by
      intro c hm
      cases xs with
      | nil => cases (List.cons.inj hc).1
      | cons x xs =>
        have hrest : rest = xs ++ .sigguarded a u.store.slot.own f'.prev false :: rest' :=
          (List.cons.inj hc).2
        refine h.quiet c ?_
        rw [List.tail_cons, hrest]
        exact List.mem_append.mpr (.inr (List.mem_cons_of_mem _ hm))
    refine .to (hread.trans ht) fun _ =>
      ⟨.sigguarded a u.store.slot.own f'.prev true :: rest', post, L, h.settles hturn (by simp) htc
        hown (.recovering ?_) (hfront.trans hp) hlive ?_ (by rw [hg]) (hg ▸ h.pins)⟩
    · refine h.nests_kept hturn hown hn hsub fun c hm => ?_
      rw [htc]
      exact List.mem_cons_of_mem _ (List.mem_append.mpr (.inl hm))
    · intro c hm
      rcases List.mem_cons.mp hm with rfl | hm
      · exact ⟨rfl, rfl⟩
      · exact hquiet c hm
  · obtain ⟨f', xs, rest', hf', hp, ho, hbase⟩ := h.linked pre' a post hg
    obtain rfl : f' = f := Option.some.inj (hf'.symm.trans hf)
    have hcalls : u.calls = (.raise args delivered (.asking a rsi) :: rest ++ xs) ++
        .sigguarded a u.store.slot.own f'.prev false :: rest' := by
      rw [h.calls, hbase, List.append_assoc]
    obtain ⟨t, ht, htc, -⟩ := h.stacked.longjmps (f := { f' with rsi := info }) h.live ho hcalls
    refine .to (hread.trans ht) fun hsuffix => ?_
    -- the guard is one of the calls below, so the decider is left
    have hlen := hsuffix.length_le
    rw [htc, hbase, List.length_append, List.length_cons, List.length_cons] at hlen
    obtain rfl : xs = [] := List.length_eq_zero_iff.mp (by omega)
    have htop := h.top
    rw [hbase] at htop
    cases htop

/-- The decider of a frame returns. -/
theorem Doing.frameAnswers {a rsi : Addr} {d : Decision}
    (h : Doing E (.raise args delivered (.asking a rsi) :: rest) l L u) :
    Comes E.Stays (frameAnswer u args delivered a rsi d (rest ++ E.base)) := by
  have hm : .raise args delivered (.asking a rsi) ∈ u.calls := by
    rw [h.calls]
    exact List.mem_cons_self
  obtain ⟨info, hinfo, -⟩ := h.stacked.named _ hm rsi rfl
  obtain ⟨f, hf, hnext⟩ := h.nests.linked h.linked (h.looks a rfl)
  cases hab : info.internalDeciderIsAbandoned with
  | true =>
    have hx : frameAnswer u args delivered a rsi d (rest ++ E.base) = .error .disabled := by
      simp [frameAnswer, Heap.read_some hinfo, hab, bind, Except.bind]
    exact hx ▸ .disabled
  | false =>
    let v := u.discard [.raise args delivered (.asking a rsi)]
    have onward : frameAnswer u args delivered a rsi d (rest ++ E.base) =
        .ok (v.goto (.raise args delivered (.walk f.prev) :: (rest ++ E.base))) →
        Comes E.Stays (frameAnswer u args delivered a rsi d (rest ++ E.base)) := by
      intro hx
      have hturn := frameAnswer_turns h.calls hx
      refine .to hx fun _ => ⟨.raise args delivered (.walk f.prev) :: rest, l, L, h.turned hturn
        (by simp) rfl (.inr rfl) (h.nests_top [_] hturn rfl (.inr rfl) ?_) h.front h.live
        (fun b hb => hnext b hb) h.quiet rfl h.pins ?_⟩
      · intro c hc
        exact ⟨_, _, _, List.mem_singleton.mp hc⟩
      · intro _ _ _ _ _ _ hhead
        cases hhead
    cases d with
    | nextDecider =>
      refine onward ?_
      simp [frameAnswer, Heap.read_some hinfo, hab, Heap.read_some hf, bind, Except.bind, v, pure,
        Except.pure]
    | resumeExecution =>
      have hx : frameAnswer u args delivered a rsi .resumeExecution (rest ++ E.base) =
          .ok (v.answer args delivered true (rest ++ E.base)) := by
        simp [frameAnswer, Heap.read_some hinfo, hab, Heap.read_some hf, bind, Except.bind, v, pure,
          Except.pure]
      exact .to hx fun _ => h.answers (frameAnswer_turns h.calls hx) rfl rfl h.pins
    | callRecovery =>
      cases hrec : f.recovery with
      | true => exact h.recovers hinfo hab hf hrec
      | false =>
        refine onward ?_
        simp [frameAnswer, Heap.read_some hinfo, hab, Heap.read_some hf, hrec, bind, Except.bind, v,
          pure, Except.pure]

/-- The decider of a node returns, with another reference left on a node that is parked. -/
theorem Doing.globalAnswers {item current rsi : Addr} {sa : Sigaction} {d : Decision}
    (h : Doing E (.raise args delivered (.deciding item current rsi sa) :: rest) l L u)
    (hspare : ∀ y ∈ E.parked, y.node = current → ¬LastRef u.g current) :
    Comes E.Goes (globalAnswer u args delivered item current rsi sa d (rest ++ E.base)) := by
  have hm : .raise args delivered (.deciding item current rsi sa) ∈ u.calls := by
    rw [h.calls]
    exact List.mem_cons_self
  obtain ⟨info, hinfo, -⟩ := h.stacked.named _ hm rsi rfl
  cases hab : info.internalDeciderIsAbandoned with
  | true =>
    have hx : globalAnswer u args delivered item current rsi sa d (rest ++ E.base) =
        .error .disabled := by
      simp [globalAnswer, Heap.read_some hinfo, hab, bind, Except.bind]
    exact hx ▸ .disabled
  | false =>
    have hpins : Pinned u.g L E.pend (⟨0, item, current⟩ :: E.held) E.parked := h.pins
    have hmapped : u.g.map args.signo = some item := by
      rw [h.map]
      exact h.mapped _ _ _ _ _ _ rfl
    obtain ⟨⟨left, g⟩, hleave⟩ := hpins.leave_run hmapped (d != .nextDecider)
    obtain ⟨hmap, L', hnext, hlast⟩ := hpins.leave hmapped hspare hleave
    have reads : ∀ {t}, globalAnswer u args delivered item current rsi sa d (rest ++ E.base) = .ok t →
        GuardTurn u t (.decide d) := fun hx => globalAnswer_turns h.calls hx
    let v := (u.setG g).discard [.raise args delivered (.deciding item current rsi sa)]
    cases left with
    | claimed =>
      have hx : globalAnswer u args delivered item current rsi sa d (rest ++ E.base) =
          .ok (v.answer args delivered true (rest ++ E.base)) := by
        refine bind_ok.mpr ⟨info, Heap.read_some hinfo, (if_neg (by simp [hab])).trans ?_⟩
        exact bind_ok.mpr ⟨_, ofLib_ok.mpr hleave, rfl⟩
      exact .to hx (h.answers (reads hx) rfl hmap (hlast fun _ _ hl => by cases hl))
    | unclaimed =>
      have hx : globalAnswer u args delivered item current rsi sa d (rest ++ E.base) =
          .ok (v.goto (.raise args delivered (.invoke sa) :: (rest ++ E.base))) := by
        refine bind_ok.mpr ⟨info, Heap.read_some hinfo, (if_neg (by simp [hab])).trans ?_⟩
        exact bind_ok.mpr ⟨_, ofLib_ok.mpr hleave, rfl⟩
      exact .to hx ⟨_, l, L', h.moves (reads hx) rfl ⟨rfl, rfl⟩ rfl hmap
        (hlast fun _ _ hl => by cases hl)⟩
    | deciding next value =>
      let info' := { info with
        value
        internalSighandler := some item
        internalGlobalDecider := some next }
      let calls := .raise args delivered (.deciding item next rsi sa) :: rest
      have hx : globalAnswer u args delivered item current rsi sa d (rest ++ E.base) =
          .ok ((((u.setG g).setInfo rsi info').goto (calls ++ E.base)).emit
            (.asked args (.global next) info')) := by
        refine bind_ok.mpr ⟨info, Heap.read_some hinfo, (if_neg (by simp [hab])).trans ?_⟩
        exact bind_ok.mpr ⟨_, ofLib_ok.mpr hleave, rfl⟩
      have hturn := reads hx
      refine .to hx ⟨calls, l, L', h.turned hturn (by simp) rfl (.inr rfl)
        (h.nests_top [_] hturn rfl (.inr rfl) ?_) h.front h.live ?_ h.quiet hmap
        (hnext next value rfl) ?_⟩
      · intro c hc
        exact ⟨_, _, _, List.mem_singleton.mp hc⟩
      · intro b hb
        cases hb
      · intro _ _ _ _ _ _ hhead
        cases hhead
        exact h.mapped _ _ _ _ _ _ rfl

/-- A guard is made by what runs outside deciders. -/
theorem Doing.pushGuard (h : Doing E nested l L u) (hq : ∀ c ∈ nested, c.settled)
    {signals : SigSet} {recovery : Bool} {decider : Nat} {value : Int} (env : SetupEnv) :
    Comes E.Goes (pushGuard u signals recovery decider value env) := by
  obtain ⟨hlive, hfront, hslot, hready⟩ := h.live.init env
  have hpins := h.pins_settled hq
  have turn : ∀ {t}, Wg14Signals.pushGuard u signals recovery decider value env = .ok t →
      GuardTurn u t (.sigguarded signals recovery decider value env) := pushGuard_turns
  have nests : ∀ {t : GuardState},
      Wg14Signals.pushGuard u signals recovery decider value env = .ok t → u.calls <:+ t.calls →
      t.store.slot.own = (u.store.init env).2.slot.own →
      Nests t.frames t.store.slot.own E.guards nested l := by
    intro t ht hc hs
    refine h.nests_kept (turn ht) (hs ▸ hslot) h.nests List.suffix_rfl fun c hm => hc.subset ?_
    rw [h.calls]
    exact List.mem_append.mpr (.inl hm)
  cases hok : (u.store.init env).1 with
  | false =>
    have hx : Wg14Signals.pushGuard u signals recovery decider value env =
        .ok ((u.setStore (u.store.init env).2).emit (.returned (-99))) := by
      simp only [Wg14Signals.pushGuard, hok, Bool.not_false, if_true, pure, Except.pure]
    exact .to hx ⟨nested, l, L, h.settles (turn hx) (fun _ => rfl) h.calls hslot
      (nests hx List.suffix_rfl rfl) (hfront.trans h.front) hlive hq rfl hpins⟩
  | true =>
    obtain ⟨a, state, hown, hstate, hsfront⟩ := hready hok
    obtain ⟨st, hset, hst, hstfront, hstlive⟩ :=
      hlive.setFront (by rw [hown]; simp) (some u.nextFrame)
    let frame : GuardFrame :=
      { prev := state.front, guarded := signals, recovery, decider, rsi := { value } }
    let t := ((({ u with nextFrame := u.nextFrame + 1 } : GuardState).setFrame u.nextFrame
      frame).setStore st).goto (.sigguarded u.nextFrame (some a) state.front false :: u.calls)
    have hx : Wg14Signals.pushGuard u signals recovery decider value env = .ok t := by
      rw [hown] at hset
      have hgo : ¬(!(u.store.init env).1) = true := by simp [hok]
      refine (if_neg hgo).trans (bind_ok.mpr ⟨some a, find_some hown, ?_⟩)
      exact bind_ok.mpr ⟨state, Heap.read_some hstate, bind_ok.mpr ⟨st, hset, rfl⟩⟩
    have hslot' : t.store.slot.own = (u.store.init env).2.slot.own := congrArg TssSlot.own hst
    have hn : Nests t.frames (some a) E.guards nested l := by
      rw [← hown, ← hslot']
      exact nests hx ⟨[_], rfl⟩ hslot'
    refine .to hx ⟨.sigguarded u.nextFrame (some a) state.front false :: nested, u.nextFrame :: l, L,
      h.settles (turn hx) (fun _ => rfl) ?_ (hslot' ▸ hslot) ?_ hstfront hstlive ?_ rfl hpins⟩
    · exact congrArg _ h.calls
    · rw [hslot', hown]
      exact hn.guarded (by simp) (Heap.set_self ..) (hsfront.trans h.front)
    · intro c hm
      rcases List.mem_cons.mp hm with rfl | hm
      · exact ⟨rfl, rfl⟩
      · exact hq c hm

/-- The user's function inside the innermost call returns. -/
theorem Doing.returns (h : Doing E nested l L u) {value : Int} :
    Comes E.Goes (returnSection u value) := by
  have turn : ∀ {t}, returnSection u value = .ok t → GuardTurn u t (.ret value) :=
    returnSection_turns
  cases nested with
  | nil =>
    obtain ⟨c, hc, hrsi⟩ := Option.bind_eq_some_iff.mp h.top
    obtain ⟨rest, hbase⟩ := List.head?_eq_some_iff.mp hc
    have hcalls : u.calls = c :: rest := h.calls.trans hbase
    have hx : returnSection u value = .error .disabled := by
      unfold returnSection
      rw [hcalls]
      cases c with
      | sigguarded => cases hrsi
      | raise args delivered pc => cases pc <;> first | rfl | cases hrsi
    exact hx ▸ .disabled
  | cons c rest =>
    have hcalls : u.calls = c :: (rest ++ E.base) := h.calls
    cases c with
    | sigguarded frame tss old recovering =>
      have hpins : Pinned u.g L E.pend E.held E.parked := h.pins
      let v := (u.discard [.sigguarded frame tss old recovering]).goto (rest ++ E.base)
      cases recovering with
      | true =>
        have hx : returnSection u value = .ok (v.emit (.returned value)) := by
          simp only [returnSection, hcalls, if_true, pure, Except.pure]
          rfl
        have hn : Nests u.frames u.store.slot.own E.guards rest l := by
          cases h.nests with
          | recovering hn => exact hn
        refine .to hx ⟨rest, l, L, h.settles (turn hx) (by simp) rfl (.inr rfl)
          (h.nests_kept (turn hx) (.inr rfl) hn ⟨[_], rfl⟩ fun c hm => ?_) h.front h.live h.quiet rfl
          hpins⟩
        exact List.mem_append.mpr (.inl hm)
      | false =>
        obtain ⟨l', hl, ht, hold, hn⟩ : ∃ l', l = frame :: l' ∧ (tss = u.store.slot.own ∧ tss ≠ none) ∧
            old = l'.head? ∧ Nests u.frames u.store.slot.own E.guards rest l' := by
          cases h.nests with
          | guarded hn ht hf hp => exact ⟨_, rfl, ⟨rfl, ht⟩, hp, hn⟩
        obtain ⟨rfl, hne⟩ := ht
        obtain ⟨st, hset, hst, hstfront, hstlive⟩ := h.live.setFront hne old
        have hx : returnSection u value = .ok ((v.setStore st).emit (.returned value)) := by
          simp only [returnSection, hcalls, store_goto, store_discard, hset, bind, Except.bind, pure,
            Except.pure]
          rfl
        have hslot : st.slot.own = u.store.slot.own := congrArg TssSlot.own hst
        refine .to hx ⟨rest, l', L, h.settles (turn hx) (by simp) rfl (.inr hslot)
          (h.nests_kept (turn hx) (.inr hslot) hn ⟨[_], rfl⟩ fun c hm => ?_) (hstfront.trans hold)
          hstlive h.quiet rfl hpins⟩
        exact List.mem_append.mpr (.inl hm)
    | raise args delivered pc =>
      have hx : (∃ hand, pc = .handler hand) ∨ returnSection u value = .error .disabled := by
        unfold returnSection
        rw [hcalls]
        cases pc with
        | handler hand => exact .inl ⟨hand, rfl⟩
        | _ => exact .inr rfl
      rcases hx with ⟨hand, rfl⟩ | hx
      · have hx : returnSection u value = .ok (u.answer args delivered true (rest ++ E.base)) := by
          simp only [returnSection, hcalls, pure, Except.pure]
        have hpins : Pinned u.g L E.pend E.held E.parked := h.pins
        exact .to hx (h.answers (turn hx) rfl rfl hpins)
      · exact hx ▸ .disabled

/-- What runs outside deciders runs inside calls that wait. -/
theorem Doing.calm (h : Doing E nested l L u) (hu : u.userCode = true)
    (hgo : (u.calls == E.base || (u.calls.head?.bind GuardCall.info).isNone) = true) :
    ∀ c ∈ nested, c.settled := by
  cases nested with
  | nil =>
    intro c hm
    cases hm
  | cons c rest =>
    have hcalls : u.calls = c :: (rest ++ E.base) := h.calls
    have hne : u.calls ≠ E.base := by
      intro he
      have hlen := congrArg List.length (hcalls.symm.trans he)
      rw [List.length_cons, List.length_append] at hlen
      omega
    have hinfo : c.info = none := by
      rw [beq_false_of_ne hne, Bool.false_or, hcalls] at hgo
      exact Option.isNone_iff_eq_none.mp hgo
    have hruns : c.runsUserCode = true := by
      unfold GuardState.userCode at hu
      rw [hcalls] at hu
      exact hu
    intro b hm
    rcases List.mem_cons.mp hm with rfl | hm
    · refine ⟨?_, hinfo⟩
      cases b with
      | sigguarded => rfl
      | raise args delivered pc =>
        cases pc with
        | walk => cases hruns
        | asking => cases hinfo
        | _ => rfl
    · exact h.quiet b hm

theorem lastRef_spared {rsi current : Addr} {info : Siginfo} {d : Decision}
    (hinfo : u.infos rsi = some info) (hab : info.internalDeciderIsAbandoned = true)
    (hnode : info.internalGlobalDecider = some current) (hin : u.inNode = some current)
    (hspare : u.spares rsi (.decide d) = true) : ¬LastRef u.g current := by
  rintro ⟨nd, hnd, hone⟩
  have hfilter : (u.infos rsi).filter Siginfo.internalDeciderIsAbandoned = some info := by
    rw [hinfo, Option.filter_some, if_pos hab]
  simp only [GuardState.spares, hfilter, hin] at hspare
  simp [hnode, hnd, hone] at hspare

/-- The decider goes on, with the calls it makes. -/
theorem Doing.step (h : Doing E nested l L u) (hgo : u.goesOn E.base act = true)
    (hact : act.abandons = false) (hspare : u.spares E.rsi act = true)
    (hparked : ∀ y ∈ E.parked,
      E.info.internalDeciderIsAbandoned = true ∧ E.info.internalGlobalDecider = some y.node) :
    Comes E.Stays (guardStep p u act) := by
  have hgo := ((Bool.and_eq_true _ _).mp hgo).2
  cases act with
  | sigguarded signals recovery decider value env =>
    simp only [guardStep]
    split
    · exact (h.pushGuard (h.calm ‹_› hgo) env).stays
    · exact .disabled
  | raise args env =>
    simp only [guardStep]
    split
    · exact (h.pushRaise (h.calm ‹_› hgo) env).stays
    · exact .disabled
  | ret value => exact h.returns.stays
  | abandon => cases hact
  | resume => cases hact
  | advance =>
    cases nested with
    | nil =>
      obtain ⟨c, hc, hrsi⟩ := Option.bind_eq_some_iff.mp h.top
      obtain ⟨rest, hbase⟩ := List.head?_eq_some_iff.mp hc
      simp only [guardStep, h.calls, hbase, List.nil_append]
      cases c with
      | sigguarded => cases hrsi
      | raise args delivered pc =>
        cases pc with
        | asking => exact .disabled
        | deciding => exact .disabled
        | _ => cases hrsi
    | cons c rest =>
      simp only [guardStep, h.calls, List.cons_append]
      cases c with
      | sigguarded => exact .disabled
      | raise args delivered pc => exact h.advances.stays
  | decide d =>
    cases nested with
    | nil =>
      have hgo : (u.calls != E.base) = true := hgo
      rw [show u.calls = E.base from h.calls, bne_self_eq_false] at hgo
      cases hgo
    | cons c rest =>
      have hcalls : u.calls = c :: (rest ++ E.base) := h.calls
      simp only [guardStep, hcalls]
      cases c with
      | sigguarded => exact .disabled
      | raise args delivered pc =>
        cases pc with
        | asking => exact h.frameAnswers
        | deciding item current rsi sa =>
          refine (h.globalAnswers fun y hy hn => ?_).stays
          obtain ⟨hab, hnode⟩ := hparked y hy
          refine lastRef_spared h.info hab (hn ▸ hnode) ?_ hspare
          unfold GuardState.inNode
          rw [hcalls]
        | _ => exact .disabled
  | _ => cases hgo

end

end Wg14Signals
