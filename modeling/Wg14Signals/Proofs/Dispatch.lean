import Wg14Signals.Proofs.Invariant
import Wg14Signals.Proofs.Storages
import Wg14Signals.Dispatch

namespace Wg14Signals
open Lib

section

variable {α β : Type} {q : α → Bool} {r : β → Bool} {R : α → β → Prop} {a : α} {l : List α}
  {l' : List β}

@[simp] theorem upTo_nil : upTo q [] = [] := rfl

theorem upTo_hit (h : q a = true) : upTo q (a :: l) = [a] := if_pos h

theorem upTo_miss (h : q a = false) : upTo q (a :: l) = a :: upTo q l := by
  rw [upTo, h]
  rfl

end

section

variable {recovery : Addr → Bool} {dec : Consulted → Decision} {c : Consulted} {l : List Consulted}

theorem verdict_hit (h : claims recovery dec c = true) :
    verdict recovery dec (c :: l) = verdictBy dec c := by
  rw [verdict, List.find?_cons_of_pos h]
  rfl

theorem verdict_miss (h : claims recovery dec c = false) :
    verdict recovery dec (c :: l) = verdict recovery dec l := by
  rw [verdict, List.find?_cons_of_neg (by simp [h])]
  rfl

end

section

variable {g : Global} {item : Addr} {k : Container} {n : Addr} {nd : Node} {signo : Signo}
  {ns : List Addr}

/-- A raise holds a reference on the container. -/
def Global.holding (g : Global) (item : Addr) (k : Container) : Global :=
  g.setContainer item { k with lifetimeRefcount := k.lifetimeRefcount + 1 }

/-- It is inside the decider of a node, and holds one on that as well. -/
def Global.visiting (g : Global) (item : Addr) (k : Container) (n : Addr) (nd : Node) : Global :=
  (g.holding item k).setNode n (some { nd with refcount := nd.refcount + 1 })

theorem set_back {α : Type} {h : Heap α} {a : Addr} {v w : Option α} (ha : h a = w) :
    (h.set a v).set a w = h := by
  funext b
  by_cases hb : b = a <;> simp [hb, ha]

theorem release_holding (hc : g.containers item = some k) (hl : 0 < k.lifetimeRefcount) :
    sighandlerInfoRelease (g.holding item k) item = .ok g := by
  have hread : (g.holding item k).readContainer item =
      .ok { k with lifetimeRefcount := k.lifetimeRefcount + 1 } :=
    Heap.read_some (Heap.set_self ..)
  unfold sighandlerInfoRelease
  rw [hread]
  refine (if_neg (by simp; omega)).trans ?_
  simp only [Global.holding, Global.setContainer, Global.setContainers, Int.add_sub_cancel,
    pure_ok]
  rw [set_back hc]

theorem pin_holding (hn : g.nodes n = some nd) :
    pinNode (g.holding item k) n = .ok (nd.value, g.visiting item k n nd) := by
  have hread : (g.holding item k).readNode (some n) = .ok nd := Heap.read_some hn
  unfold pinNode
  rw [hread]
  rfl

theorem unpin_visiting (hn : g.nodes n = some nd) (hr : 0 < nd.refcount) :
    unpinNode (g.visiting item k n nd) item n = .ok (nd.links.next, g.holding item k) := by
  have hread : (g.visiting item k n nd).readNode (some n) =
      .ok { nd with refcount := nd.refcount + 1 } :=
    Heap.read_some (Heap.set_self ..)
  unfold unpinNode
  rw [hread]
  refine (if_neg (by simp; omega)).trans ?_
  simp only [Global.visiting, Global.setNode, Global.setNodes, Int.add_sub_cancel, pure_ok]
  rw [set_back (show (g.holding item k).nodes n = some nd from hn)]

theorem raiseEnter_visits (hm : g.map signo = some item) (hc : g.containers item = some k)
    (hf : k.globalHandler.front = some n) (hn : g.nodes n = some nd) :
    raiseEnter g signo = .ok (.deciding item n nd.value k.oldHandler, g.visiting item k n nd) := by
  unfold raiseEnter
  rw [hm]
  refine bind_ok.mpr ⟨k, Heap.read_some hc, ?_⟩
  rw [hf]
  exact bind_ok.mpr ⟨_, pin_holding hn, rfl⟩

theorem raiseEnter_nobody (hm : g.map signo = some item) (hc : g.containers item = some k)
    (hl : 0 < k.lifetimeRefcount) (hf : k.globalHandler.front = none) :
    raiseEnter g signo = .ok (.unclaimed k.oldHandler, g) := by
  unfold raiseEnter
  rw [hm]
  refine bind_ok.mpr ⟨k, Heap.read_some hc, ?_⟩
  rw [hf]
  exact bind_ok.mpr ⟨_, release_holding hc hl, rfl⟩

theorem raiseLeave_claims (hc : g.containers item = some k) (hl : 0 < k.lifetimeRefcount)
    (hn : g.nodes n = some nd) (hr : 0 < nd.refcount) :
    raiseLeave (g.visiting item k n nd) item n true = .ok (.claimed, g) := by
  refine bind_ok.mpr ⟨_, unpin_visiting hn hr, ?_⟩
  exact bind_ok.mpr ⟨_, release_holding hc hl, rfl⟩

theorem raiseLeave_continues {n' : Addr} {nd' : Node} (hn : g.nodes n = some nd)
    (hr : 0 < nd.refcount) (hx : nd.links.next = some n') (hn' : g.nodes n' = some nd') :
    raiseLeave (g.visiting item k n nd) item n false =
      .ok (.deciding n' nd'.value, g.visiting item k n' nd') := by
  refine bind_ok.mpr ⟨_, unpin_visiting hn hr, ?_⟩
  rw [hx]
  exact bind_ok.mpr ⟨_, pin_holding hn', rfl⟩

theorem raiseLeave_finishes (hc : g.containers item = some k) (hl : 0 < k.lifetimeRefcount)
    (hn : g.nodes n = some nd) (hr : 0 < nd.refcount) (hx : nd.links.next = none) :
    raiseLeave (g.visiting item k n nd) item n false = .ok (.unclaimed, g) := by
  refine bind_ok.mpr ⟨_, unpin_visiting hn hr, ?_⟩
  rw [hx]
  exact bind_ok.mpr ⟨_, release_holding hc hl, rfl⟩

end

section

variable {p : Platform} {s u u' : GuardState} {store : ThreadStorage} {args : RaiseArgs}
  {asked : List Consulted} {pc : GuardPc} {g : Global} {a rsi : Addr} {f : GuardFrame}
  {dec : Consulted → Decision}

/-- A raise made in the state `s` has come to a place, with these deciders called so far. -/
structure Raising (s : GuardState) (store : ThreadStorage) (args : RaiseArgs)
    (asked : List Consulted) (pc : GuardPc) (g : Global) (u : GuardState) : Prop where
  calls : u.calls = .raise args false pc :: s.calls
  frames : u.frames = s.frames
  store : u.store = store
  g : u.g = g
  consulted : u.consulted = s.consulted ++ asked
  outcomes : u.outcomes = s.outcomes
  told : ∀ rsi, (GuardCall.raise args false pc).info = some rsi → ∃ info,
    u.infos rsi = some info ∧ info.internalDeciderIsAbandoned = false ∧
    ∀ a f, (GuardCall.raise args false pc).asks = some a → s.frames a = some f →
      info.toPublicInfo = args.presents f.rsi.value

@[simp] theorem consulted_emit (e : GuardEvent) :
    (s.emit e).consulted = s.consulted ++ e.who.toList := by
  cases h : e.who <;> simp [GuardState.consulted, h]

@[simp] theorem outcomes_emit (e : GuardEvent) :
    (s.emit e).outcomes = s.outcomes ++ if e.who.isNone then [e] else [] := by
  cases h : e.who <;> simp [GuardState.outcomes, h]

theorem prepareRsi_abandoned (rsi : Siginfo) :
    (prepareRsi rsi args).internalDeciderIsAbandoned = false := by
  unfold prepareRsi
  split <;> rfl

theorem Raising.quietly (h : Raising s store args asked pc g u) :
    u.quietly dec = pc.quietly dec := by
  rw [GuardState.quietly, h.calls]

theorem Raising.advance (h : Raising s store args asked pc g u)
    (hs : guardSection p u args false pc s.calls = .ok u') :
    guardStep p u .advance = .ok u' := by
  simp only [guardStep, h.calls, hs]

theorem Raising.skips (h : Raising s store args asked (.walk (some a)) g u)
    (hf : s.frames a = some f) (hg : f.guarded args.signo = false) :
    ∃ u', guardStep p u (u.quietly dec) = .ok u' ∧
      Raising s store args asked (.walk f.prev) g u' := by
  have hread : u.frames a = some f := by rw [h.frames, hf]
  refine ⟨u.goto (.raise args false (.walk f.prev) :: s.calls), ?_, rfl, h.frames, h.store, h.g,
    h.consulted, h.outcomes, fun _ hi => by cases hi⟩
  rw [h.quietly]
  refine h.advance (bind_ok.mpr ⟨f, Heap.read_some hread, ?_⟩)
  rw [hg]
  rfl

/-- The `stdc_siginfo` for the decider of a frame. -/
def GuardFrame.tells (f : GuardFrame) (args : RaiseArgs) (a : Addr) : Siginfo :=
  { prepareRsi {} args with
    value := f.rsi.value
    internalLocalDecider := some a }

theorem tells_public : (f.tells args a).toPublicInfo = args.presents f.rsi.value :=
  congrArg (fun pub : PublicInfo => { pub with value := f.rsi.value }) (prepareRsi_public {} args)

theorem Raising.asks (h : Raising s store args asked (.walk (some a)) g u)
    (hf : s.frames a = some f) (hg : f.guarded args.signo = true) :
    ∃ rsi u', guardStep p u (u.quietly dec) = .ok u' ∧
      Raising s store args (asked ++ [.frame a]) (.asking a rsi) g u' := by
  have hread : u.frames a = some f := by rw [h.frames, hf]
  refine ⟨u.nextInfo, u.ask args false (.frame a) (f.tells args a) (.asking a) s.calls, ?_, rfl,
    h.frames, h.store, h.g, ?_, ?_, ?_⟩
  · rw [h.quietly]
    refine h.advance (bind_ok.mpr ⟨f, Heap.read_some hread, ?_⟩)
    rw [hg]
    rfl
  · rw [GuardState.ask, consulted_emit]
    exact (congrArg (· ++ _) h.consulted).trans (List.append_assoc ..)
  · rw [GuardState.ask, outcomes_emit]
    exact (List.append_nil _).trans h.outcomes
  · rintro rsi ⟨⟩
    refine ⟨f.tells args a, Heap.set_self .., prepareRsi_abandoned _, ?_⟩
    rintro b f' ⟨⟩ hf'
    rw [hf] at hf'
    cases hf'
    exact tells_public

/-- The raise goes on quietly, has these deciders called in all, and then ends so. -/
def Finishes (p : Platform) (dec : Consulted → Decision) (s : GuardState) (args : RaiseArgs)
    (entry : Option Sigaction) (asked : List Consulted) (v : Verdict) (u : GuardState) : Prop :=
  ∃ u', Run (guardStep p) (fun s act => act = s.quietly dec) u u' ∧ u'.g = s.g ∧
    u'.consulted = s.consulted ++ asked ∧ s.Ended p args entry u' v

theorem Finishes.step {entry : Option Sigaction} {v : Verdict}
    (h : Finishes p dec s args entry asked v u') (hs : guardStep p u (u.quietly dec) = .ok u') :
    Finishes p dec s args entry asked v u := by
  obtain ⟨t, hr, hend⟩ := h
  have hfirst : Run (guardStep p) (fun s act => act = s.quietly dec) u u' :=
    .tail _ (.refl u) rfl hs
  exact ⟨t, hfirst.trans hr, hend⟩

theorem Raising.answers (h : Raising s store args asked (.asking a rsi) g u)
    (hs : frameAnswer u args false a rsi (dec (.frame a)) s.calls = .ok u') :
    guardStep p u (u.quietly dec) = .ok u' := by
  rw [h.quietly]
  simp only [GuardPc.quietly, guardStep, h.calls, hs]

/-- The decider of a frame passes the raise on. -/
theorem Raising.declines (h : Raising s store args asked (.asking a rsi) g u)
    (hf : s.frames a = some f)
    (hd : claims s.recovers dec (.frame a) = false) :
    ∃ u', guardStep p u (u.quietly dec) = .ok u' ∧
      Raising s store args asked (.walk f.prev) g u' := by
  obtain ⟨info, hinfo, hab, -⟩ := h.told rsi rfl
  have hread : u.frames a = some f := by rw [h.frames, hf]
  let gone := [GuardCall.raise args false (.asking a rsi)]
  have hframes : (u.discard gone).frames = u.frames :=
    (discard_raise (c := .raise args false (.asking a rsi)) rfl).1
  refine ⟨(u.discard gone).goto (.raise args false (.walk f.prev) :: s.calls),
    h.answers (bind_ok.mpr ⟨info, Heap.read_some hinfo, ?_⟩), rfl,
    hframes.trans h.frames, h.store, h.g, h.consulted, h.outcomes, fun _ hi => by cases hi⟩
  rw [hab]
  refine bind_ok.mpr ⟨f, Heap.read_some hread, ?_⟩
  cases hdec : dec (.frame a) with
  | nextDecider => rfl
  | resumeExecution => simp [hdec, claims] at hd
  | callRecovery =>
    have hrec : f.recovery = false := by
      simpa [hdec, claims, GuardState.recovers, hf] using hd
    simp [hrec, gone]

/-- It lets the thread go on. -/
theorem Raising.resumes {entry : Option Sigaction}
    (h : Raising s store args asked (.asking a rsi) s.g u) (hfront : store.front = s.store.front)
    (hf : s.frames a = some f) (hd : dec (.frame a) = .resumeExecution) :
    Finishes p dec s args entry asked .claimed u := by
  obtain ⟨info, hinfo, hab, -⟩ := h.told rsi rfl
  have hread : u.frames a = some f := by rw [h.frames, hf]
  let u' := ((u.discard [.raise args false (.asking a rsi)]).goto s.calls).emit (.raised true)
  have hdone : Finishes p dec s args entry asked .claimed u' :=
    ⟨u', .refl _, h.g, (consulted_emit _).trans ((List.append_nil _).trans h.consulted), rfl,
      (congrArg ThreadStorage.front h.store).trans hfront,
      (outcomes_emit _).trans (congrArg (· ++ _) h.outcomes)⟩
  refine hdone.step (h.answers (bind_ok.mpr ⟨info, Heap.read_some hinfo, ?_⟩))
  rw [hab]
  refine bind_ok.mpr ⟨f, Heap.read_some hread, ?_⟩
  rw [hd]
  rfl

/-- It asks for the recovery function of its guard. -/
theorem Raising.recovers {entry : Option Sigaction} {guards pre post : List Addr}
    (h : Raising s s.store args asked (.asking a rsi) s.g u) (hst : s.Stands guards)
    (hg : guards = pre ++ a :: post) (hf : s.frames a = some f) (hrec : f.recovery = true)
    (hd : dec (.frame a) = .callRecovery) :
    Finishes p dec s args entry asked (.recovered a) u := by
  obtain ⟨info, hinfo, hab, hpub⟩ := h.told rsi rfl
  have hread : u.frames a = some f := by rw [h.frames, hf]
  obtain ⟨f', xs, rest, hf', -, hcalls, hxs⟩ := hst.active pre a post hg
  rw [hf] at hf'
  cases hf'
  obtain ⟨b, hown⟩ : ∃ b, s.store.slot.own = some b := by
    refine Option.ne_none_iff_exists'.mp fun hn => ?_
    have hfront := hst.front
    rw [front_of_none hn, hg] at hfront
    cases pre <;> cases hfront
  obtain ⟨state, hstate⟩ := hst.live b hown
  obtain ⟨st, hset, hslot, hst₁, hst₂⟩ := setFront_ok ThreadFault.tss hown hstate f.prev
  have hfront : st.front = f.prev := front_of_some hst₁ hst₂
  let gone := u.calls.takeWhile fun c => !c.holds a
  let v := u.setFrame a { f with rsi := info }
  let u' := (((v.discard gone).setStore st).goto
    (.sigguarded a (some b) f.prev true :: rest)).emit (.recovered a info)
  have hdone : Finishes p dec s args entry asked (.recovered a) u' := by
    refine ⟨u', .refl _, h.g, (consulted_emit _).trans ((List.append_nil _).trans h.consulted),
      f, info, xs, rest, hf, hcalls, by rw [hown]; rfl, hfront,
      (outcomes_emit _).trans (congrArg (· ++ _) h.outcomes), hpub a f rfl hf, fun value => ?_⟩
    refine ⟨_, rfl, rfl, hfront, ?_⟩
    exact outcomes_emit _
  refine hdone.step (h.answers (bind_ok.mpr ⟨info, Heap.read_some hinfo, ?_⟩))
  rw [hab]
  refine bind_ok.mpr ⟨f, Heap.read_some hread, ?_⟩
  rw [hd]
  have hdrop : (v.calls.dropWhile fun c => !c.holds a) =
      .sigguarded a (some b) f.prev false :: rest := by
    rw [show v.calls = .raise args false (.asking a rsi) :: s.calls from h.calls,
      List.dropWhile_cons_of_pos rfl, hcalls,
      List.dropWhile_append_of_pos fun c hc => by simp [hxs c hc], hown,
      List.dropWhile_cons_of_neg (by simp [GuardCall.holds])]
  refine (if_pos hrec).trans ?_
  unfold GuardState.longjmp
  rw [hdrop]
  refine bind_ok.mpr ⟨{ f with rsi := info }, Heap.read_some (Heap.set_self ..), ?_⟩
  refine bind_ok.mpr ⟨st, ?_, rfl⟩
  rw [show v.store = s.store from h.store]
  exact hset

theorem setKernel_back {signo : Signo} {sa : Sigaction} :
    (g.setKernel signo sa).setKernel signo (g.kernel signo) = g := by
  have hk : ∀ k : Signo → Sigaction, (fun n => if n = signo then k signo else
      if n = signo then sa else k n) = k := by
    intro k
    funext n
    by_cases hn : n = signo <;> simp [hn]
  rw [Global.setKernel, Global.setKernel, hk]

/-- The raise is over, and nobody has claimed it. -/
theorem Raising.returns {sa : Sigaction} {es : List GuardEvent} {v : GuardState}
    (hfront : store.front = s.store.front) (ho : unclaimedOutcome p args.signo (some sa) =
      es ++ [.raised true]) (hs : v.store = store) (hg : v.g = s.g)
    (hc : v.consulted = s.consulted ++ asked) (hout : v.outcomes = s.outcomes ++ es) :
    Finishes p dec s args (some sa) asked .unclaimed (v.answer args false true s.calls) := by
  refine ⟨_, .refl _, hg, ?_, rfl, (congrArg ThreadStorage.front hs).trans hfront, ?_⟩
  · exact (consulted_emit _).trans ((List.append_nil _).trans hc)
  · rw [ho, ← List.append_assoc, ← hout]
    exact outcomes_emit _

theorem calls_handler {sa : Sigaction} {signo : Signo} {handler : Handler}
    (h : invokeSigaction p sa signo = .calls handler) : handler = sa.handler := by
  unfold invokeSigaction at h
  split at h
  · cases h
    rfl
  · split at h
    · split at h <;> cases h
    · cases h
    · cases h
      rfl

/-- Nobody has claimed the raise, and the signal is installed: the previous action is invoked. -/
theorem Raising.invokes {sa : Sigaction} (h : Raising s store args asked (.invoke sa) s.g u)
    (hfront : store.front = s.store.front) (hraw : sa.handler ≠ .raw) :
    Finishes p dec s args (some sa) asked .unclaimed u := by
  have step : ∀ {v : GuardState}, guardSection p u args false (.invoke sa) s.calls = .ok v →
      guardStep p u (u.quietly dec) = .ok v := by
    intro v hv
    rw [h.quietly]
    exact h.advance hv
  cases hi : invokeSigaction p sa args.signo with
  | calls handler =>
    have hsame := calls_handler hi
    let u₁ := (u.goto (.raise args false (.handler handler) :: s.calls)).emit (.handled handler)
    have hdone : Finishes p dec s args (some sa) asked .unclaimed
        (u₁.answer args false true s.calls) :=
      Raising.returns hfront (by rw [unclaimedOutcome, hi]; rfl) h.store h.g
        ((consulted_emit _).trans ((List.append_nil _).trans h.consulted))
        ((outcomes_emit _).trans (congrArg (· ++ _) h.outcomes))
    have hret : guardStep p u₁ (u₁.quietly dec) = .ok (u₁.answer args false true s.calls) := rfl
    refine (hdone.step hret).step (step ?_)
    simp only [guardSection, hi]
    cases handler with
    | raw => exact absurd hsame.symm hraw
    | _ => rfl
  | ignores =>
    have hdone : Finishes p dec s args (some sa) asked .unclaimed
        (u.answer args false true s.calls) :=
      Raising.returns hfront (by rw [unclaimedOutcome, hi]; rfl) h.store h.g h.consulted
        (h.outcomes.trans (List.append_nil _).symm)
    refine hdone.step (step ?_)
    simp [guardSection, hi]
  | default =>
    -- the disposition is reset, and put back after the signal
    let current := u.g.kernel args.signo
    let u₁ := u.goto (.raise args false (.handoff .query) :: s.calls)
    let u₂ := u₁.goto (.raise args false (.handoff (.reset current)) :: s.calls)
    let u₃ := (u₂.setG (u.g.setKernel args.signo .dfl)).goto
      (.raise args false (.handoff (.kill current)) :: s.calls)
    let u₄ := u₃.goto (.raise args false (.handoff (.restore current)) :: s.calls)
    let u₅ := u₄.setG (u₄.g.setKernel args.signo current)
    have hdone : Finishes p dec s args (some sa) asked .unclaimed
        (u₅.answer args false true s.calls) :=
      Raising.returns hfront (by rw [unclaimedOutcome, hi]; rfl) h.store
        (setKernel_back.trans h.g) h.consulted (h.outcomes.trans (List.append_nil _).symm)
    have hkill : guardStep p u₃ (u₃.quietly dec) = .ok u₄ := by
      refine if_neg ?_
      simp [u₃, u₂, u₁, Global.setKernel, Sigaction.dfl, Sigaction.raw]
    have hquery : guardStep p u₁ (u₁.quietly dec) = .ok u₂ := rfl
    have hreset : guardStep p u₂ (u₂.quietly dec) = .ok u₃ := rfl
    have hrestore : guardStep p u₄ (u₄.quietly dec) = .ok (u₅.answer args false true s.calls) := rfl
    refine ((((hdone.step hrestore).step hkill).step hreset).step hquery).step (step ?_)
    simp only [guardSection, hi]
    rfl

theorem claims_global {r : Addr → Bool} {n : Addr} :
    claims r dec (.global n) = (dec (.global n) != .nextDecider) := by
  cases hd : dec (.global n) <;> simp [claims, hd]

theorem Raising.leaves {item n : Addr} {sa : Sigaction}
    (h : Raising s store args asked (.deciding item n rsi sa) g u)
    (hs : globalAnswer u args false item n rsi sa (dec (.global n)) s.calls = .ok u') :
    guardStep p u (u.quietly dec) = .ok u' := by
  rw [h.quietly]
  simp only [GuardPc.quietly, guardStep, h.calls, hs]

/-- A global decider claims the raise. -/
theorem Raising.claimed {item n : Addr} {sa : Sigaction} {entry : Option Sigaction}
    (h : Raising s store args asked (.deciding item n rsi sa) g u)
    (hl : raiseLeave g item n true = .ok (.claimed, s.g))
    (hfront : store.front = s.store.front) (hd : claims s.recovers dec (.global n) = true) :
    Finishes p dec s args entry asked (verdictBy dec (.global n)) u := by
  obtain ⟨info, hinfo, hab, -⟩ := h.told rsi rfl
  let u' := (((u.setG s.g).discard [.raise args false (.deciding item n rsi sa)]).goto
    s.calls).emit (.raised true)
  have hdone : Finishes p dec s args entry asked .claimed u' :=
    ⟨u', .refl _, rfl, (consulted_emit _).trans ((List.append_nil _).trans h.consulted), rfl,
      (congrArg ThreadStorage.front h.store).trans hfront,
      (outcomes_emit _).trans (congrArg (· ++ _) h.outcomes)⟩
  refine hdone.step (h.leaves (bind_ok.mpr ⟨info, Heap.read_some hinfo, ?_⟩))
  rw [hab]
  refine bind_ok.mpr ⟨(.claimed, s.g), ofLib_ok.mpr ?_, rfl⟩
  rw [h.g, ← claims_global, hd]
  exact hl

/-- It passes the raise on to the next one. -/
theorem Raising.continues {item n n' : Addr} {sa : Sigaction} {g' : Global} {value : Int}
    (h : Raising s store args asked (.deciding item n rsi sa) g u)
    (hl : raiseLeave g item n false = .ok (.deciding n' value, g'))
    (hd : claims s.recovers dec (.global n) = false) :
    ∃ u', guardStep p u (u.quietly dec) = .ok u' ∧
      Raising s store args (asked ++ [.global n']) (.deciding item n' rsi sa) g' u' := by
  obtain ⟨info, hinfo, hab, -⟩ := h.told rsi rfl
  let info' : Siginfo := { info with
    value
    internalSighandler := some item
    internalGlobalDecider := some n' }
  refine ⟨(((u.setG g').setInfo rsi info').goto
    (.raise args false (.deciding item n' rsi sa) :: s.calls)).emit
    (.asked args (.global n') info'), h.leaves (bind_ok.mpr ⟨info, Heap.read_some hinfo, ?_⟩),
    rfl, h.frames, h.store, rfl, ?_, ?_, ?_⟩
  · refine (if_neg (by simp [hab])).trans ?_
    refine bind_ok.mpr ⟨(.deciding n' value, g'), ofLib_ok.mpr ?_, rfl⟩
    rw [h.g, ← claims_global (r := s.recovers), hd]
    exact hl
  · rw [consulted_emit]
    exact (congrArg (· ++ _) h.consulted).trans (List.append_assoc ..)
  · rw [outcomes_emit]
    exact (List.append_nil _).trans h.outcomes
  · rintro rsi' ⟨⟩
    exact ⟨info', Heap.set_self .., hab, fun _ _ ha => by cases ha⟩

/-- It was the last, and did not want the raise. -/
theorem Raising.unclaimed {item n : Addr} {sa : Sigaction} {g' : Global}
    (h : Raising s store args asked (.deciding item n rsi sa) g u)
    (hl : raiseLeave g item n false = .ok (.unclaimed, g'))
    (hd : claims s.recovers dec (.global n) = false) :
    ∃ u', guardStep p u (u.quietly dec) = .ok u' ∧
      Raising s store args asked (.invoke sa) g' u' := by
  obtain ⟨info, hinfo, hab, -⟩ := h.told rsi rfl
  let gone := [GuardCall.raise args false (.deciding item n rsi sa)]
  have hframes : ((u.setG g').discard gone).frames = u.frames :=
    (discard_raise (c := .raise args false (.deciding item n rsi sa)) rfl).1
  refine ⟨((u.setG g').discard gone).goto (.raise args false (.invoke sa) :: s.calls),
    h.leaves (bind_ok.mpr ⟨info, Heap.read_some hinfo, ?_⟩), rfl, hframes.trans h.frames, h.store,
    rfl, h.consulted, h.outcomes, fun _ hi => by cases hi⟩
  rw [hab]
  refine bind_ok.mpr ⟨(.unclaimed, g'), ofLib_ok.mpr ?_, rfl⟩
  rw [h.g, ← claims_global (r := s.recovers), hd]
  exact hl

/-- What is left of the raise at a global decider. -/
theorem Raising.visits {item : Addr} {k : Container} {n : Addr} {nd : Node} {ns : List Addr}
    (hc : s.g.containers item = some k) (hl : 0 < k.lifetimeRefcount)
    (hfront : store.front = s.store.front) (hraw : k.oldHandler.handler ≠ .raw)
    (hlive : ∀ n ∈ ns, ∃ nd, s.g.nodes n = some nd ∧ 0 < nd.refcount)
    {prev : Option Addr} (hseg : DList.Seg s.g.nodes prev (n :: ns) none)
    (hn : s.g.nodes n = some nd) (hr : 0 < nd.refcount)
    (h : Raising s store args (asked ++ [.global n]) (.deciding item n rsi k.oldHandler)
      (s.g.visiting item k n nd) u) :
    Finishes p dec s args (some k.oldHandler)
      (asked ++ upTo (claims s.recovers dec) ((n :: ns).map .global))
      (verdict s.recovers dec ((n :: ns).map .global)) u := by
  induction ns generalizing n nd prev asked u with
  | nil =>
    obtain ⟨hlinks, -⟩ := hseg
    cases hclaim : claims s.recovers dec (.global n) with
    | true =>
      rw [List.map_cons, upTo_hit hclaim, verdict_hit hclaim]
      exact h.claimed (raiseLeave_claims hc hl hn hr) hfront hclaim
    | false =>
      rw [List.map_cons, upTo_miss hclaim, verdict_miss hclaim]
      have hlast := raiseLeave_finishes hc hl hn hr (congrArg Links.next (hlinks nd hn))
      obtain ⟨u₁, hstep, h₁⟩ := h.unclaimed hlast hclaim
      exact (h₁.invokes hfront hraw).step hstep
  | cons n' ns ih =>
    obtain ⟨hlinks, hseg'⟩ := hseg
    obtain ⟨nd', hn', hr'⟩ := hlive n' List.mem_cons_self
    cases hclaim : claims s.recovers dec (.global n) with
    | true =>
      rw [List.map_cons, upTo_hit hclaim, verdict_hit hclaim]
      exact h.claimed (raiseLeave_claims hc hl hn hr) hfront hclaim
    | false =>
      rw [List.map_cons, upTo_miss hclaim, verdict_miss hclaim, List.append_cons]
      have hnext : raiseLeave (s.g.visiting item k n nd) item n false =
          .ok (.deciding n' nd'.value, s.g.visiting item k n' nd') :=
        raiseLeave_continues hn hr (congrArg Links.next (hlinks nd hn)) hn'
      obtain ⟨u₁, hstep, h₁⟩ := h.continues hnext hclaim
      exact (ih (fun m hm => hlive m (List.mem_cons_of_mem _ hm)) hseg' hn' hr' h₁).step hstep

/-- The frames have been walked. -/
theorem Raising.globals {entry : Option Sigaction} {ns : List Addr}
    (hg : Listed s.g args.signo entry ns) (hfront : store.front = s.store.front)
    (hraw : ∀ sa, entry = some sa → sa.handler ≠ .raw)
    (h : Raising s store args asked (.walk none) s.g u) :
    Finishes p dec s args entry (asked ++ upTo (claims s.recovers dec) (ns.map .global))
      (verdict s.recovers dec (ns.map .global)) u := by
  cases hg with
  | absent hm =>
    have henter : raiseEnter s.g args.signo = .ok (.absent, s.g) := by
      unfold raiseEnter
      rw [hm]
      rfl
    let u' := ((u.setG s.g).goto s.calls).emit (.raised false)
    have hdone : Finishes p dec s args none asked .unclaimed u' :=
      ⟨u', .refl _, rfl, (consulted_emit _).trans ((List.append_nil _).trans h.consulted), rfl,
        (congrArg ThreadStorage.front h.store).trans hfront,
        (outcomes_emit _).trans (congrArg (· ++ _) h.outcomes)⟩
    rw [List.map_nil, upTo_nil, List.append_nil]
    refine hdone.step ?_
    rw [h.quietly]
    refine h.advance (bind_ok.mpr ⟨(.absent, s.g), ofLib_ok.mpr ?_, rfl⟩)
    rw [h.g]
    exact henter
  | present item k hm hc hl hs hn =>
    have hraw := hraw _ rfl
    cases ns with
    | nil =>
      have henter := raiseEnter_nobody hm hc hl hs.front
      rw [List.map_nil, upTo_nil, List.append_nil]
      have h₁ : Raising s store args asked (.invoke k.oldHandler) s.g
          ((u.setG s.g).goto (.raise args false (.invoke k.oldHandler) :: s.calls)) :=
        ⟨rfl, h.frames, h.store, rfl, h.consulted, h.outcomes, fun _ hi => by cases hi⟩
      refine (h₁.invokes hfront hraw).step ?_
      rw [h.quietly]
      refine h.advance (bind_ok.mpr ⟨(.unclaimed k.oldHandler, s.g), ofLib_ok.mpr ?_, rfl⟩)
      rw [h.g]
      exact henter
    | cons n ns =>
      obtain ⟨nd, hnd, hr⟩ := hn n List.mem_cons_self
      have henter := raiseEnter_visits hm hc hs.front hnd
      let v := u.setG (s.g.visiting item k n nd)
      let info : Siginfo := { prepareRsi {} args with
        value := nd.value
        internalSighandler := some item
        internalGlobalDecider := some n }
      have h₁ : Raising s store args (asked ++ [.global n])
          (.deciding item n u.nextInfo k.oldHandler) (s.g.visiting item k n nd)
          (v.ask args false (.global n) info (.deciding item n · k.oldHandler) s.calls) := by
        refine ⟨rfl, h.frames, h.store, rfl, ?_, ?_, ?_⟩
        · rw [GuardState.ask, consulted_emit]
          exact (congrArg (· ++ _) h.consulted).trans (List.append_assoc ..)
        · rw [GuardState.ask, outcomes_emit]
          exact (List.append_nil _).trans h.outcomes
        · rintro rsi ⟨⟩
          exact ⟨info, Heap.set_self .., prepareRsi_abandoned _, fun _ _ ha => by cases ha⟩
      refine (Raising.visits hc hl hfront hraw (fun m hm => hn m (List.mem_cons_of_mem _ hm)) hs.seg
        hnd hr h₁).step ?_
      rw [h.quietly]
      refine h.advance (bind_ok.mpr ⟨(.deciding item n nd.value k.oldHandler, _),
        ofLib_ok.mpr ?_, rfl⟩)
      rw [h.g]
      exact henter

/-- The rest of the walk over the frames, and what comes after it. -/
theorem Raising.walks {entry : Option Sigaction} {ns guards pre l : List Addr}
    (hst : s.Stands guards) (hs : guards = pre ++ l) (hstore : guards ≠ [] → store = s.store)
    (hg : Listed s.g args.signo entry ns) (hfront : store.front = s.store.front)
    (hraw : ∀ sa, entry = some sa → sa.handler ≠ .raw)
    (h : Raising s store args asked (.walk l.head?) s.g u) :
    Finishes p dec s args entry
      (asked ++ upTo (claims s.recovers dec) (candidates s.guardSet args.signo l ns))
      (verdict s.recovers dec (candidates s.guardSet args.signo l ns)) u := by
  induction l generalizing pre asked u with
  | nil => exact h.globals hg hfront hraw
  | cons a l ih =>
    obtain ⟨f, xs, rest, hf, hprev, -⟩ := hst.active pre a l hs
    have hs' : guards = (pre ++ [a]) ++ l := by rw [hs, List.append_assoc]; rfl
    have hset : s.guardSet a = some f.guarded := congrArg _ hf
    by_cases hgd : f.guarded args.signo = true
    · have hcand : candidates s.guardSet args.signo (a :: l) ns =
          .frame a :: candidates s.guardSet args.signo l ns := by
        simp [candidates, hset, hgd]
      obtain ⟨rsi, u₁, hask, h₁⟩ := h.asks hf hgd
      refine Finishes.step ?_ hask
      rw [hcand]
      cases hclaim : claims s.recovers dec (.frame a) with
      | false =>
        obtain ⟨u₂, hnext, h₂⟩ := h₁.declines hf hclaim
        rw [upTo_miss hclaim, verdict_miss hclaim, List.append_cons]
        exact (ih hs' (hprev ▸ h₂)).step hnext
      | true =>
        rw [upTo_hit hclaim, verdict_hit hclaim]
        cases hdec : dec (.frame a) with
        | nextDecider => simp [hdec, claims] at hclaim
        | resumeExecution =>
          rw [verdictBy, hdec]
          exact h₁.resumes hfront hf hdec
        | callRecovery =>
          have hrec : f.recovery = true := by
            simpa [hdec, claims, GuardState.recovers, hf] using hclaim
          obtain rfl := hstore (by rw [hs]; simp)
          rw [verdictBy, hdec]
          exact h₁.recovers hst hs hf hrec hdec
    · have hgd := Bool.eq_false_iff.mpr hgd
      have hcand : candidates s.guardSet args.signo (a :: l) ns =
          candidates s.guardSet args.signo l ns := by
        simp [candidates, hset, hgd]
      obtain ⟨u₁, hskip, h₁⟩ := h.skips hf hgd
      rw [hcand]
      exact (ih hs' (hprev ▸ h₁)).step hskip

end

section

variable {frames : Heap GuardFrame} {infos : Heap Siginfo} {tss : Option Addr}
  {calls : List GuardCall} {front : Option Addr}

theorem holds_of_frame {c : GuardCall} {a : Addr} (h : c.frame = none) : c.holds a = false := by
  cases c with
  | sigguarded => cases h
  | raise => rfl

theorem Chain.head {l : List Addr} (h : Chain frames front l) : front = l.head? := by
  cases h <;> rfl

/-- The frames the guard stack links are those of active `sigguarded` calls. -/
theorem Threads.stands (h : Threads frames infos tss calls front)
    (hn : (calls.filterMap GuardCall.frame).Nodup) {pre post : List Addr} {a : Addr}
    (hs : standing infos calls = pre ++ a :: post) :
    ∃ f xs rest, frames a = some f ∧ f.prev = post.head? ∧
      calls = xs ++ .sigguarded a tss f.prev false :: rest ∧ ∀ c ∈ xs, c.holds a = false := by
  -- a call on top that does not hold the frame
  have onTop : ∀ {c : GuardCall} {rest : List GuardCall}, c.holds a = false →
      (∃ f xs rest', frames a = some f ∧ f.prev = post.head? ∧
        rest = xs ++ .sigguarded a tss f.prev false :: rest' ∧ ∀ c ∈ xs, c.holds a = false) →
      ∃ f xs rest', frames a = some f ∧ f.prev = post.head? ∧
        c :: rest = xs ++ .sigguarded a tss f.prev false :: rest' ∧
        ∀ c ∈ xs, c.holds a = false := by
    rintro c rest hc ⟨f, xs, rest', hf, hprev, rfl, hxs⟩
    exact ⟨f, c :: xs, rest', hf, hprev, rfl, List.forall_mem_cons.mpr ⟨hc, hxs⟩⟩
  induction h generalizing pre with
  | nil => cases pre <;> cases hs
  | light hl h ih =>
    rw [standing_light hl] at hs
    rw [List.filterMap_cons_none hl.frame] at hn
    exact onTop (holds_of_frame hl.frame) (ih hn hs)
  | @guarded frame f rest h hf ih =>
    rw [List.filterMap_cons_some (frame_sigguarded ..)] at hn
    obtain ⟨hnot, hn⟩ := List.nodup_cons.mp hn
    cases pre with
    | nil =>
      obtain ⟨rfl, hpost⟩ := List.cons.inj hs
      exact ⟨f, [], rest, hf, by rw [← hpost]; exact h.chain.head, rfl, by simp⟩
    | cons b pre =>
      obtain ⟨-, hs⟩ := List.cons.inj hs
      refine onTop ?_ (ih hn hs)
      have hne : frame ≠ a := by
        rintro rfl
        have hm : frame ∈ standing infos rest := by rw [hs]; simp
        obtain ⟨c, hc, ha⟩ := List.mem_filterMap.mp (standing_subset hm)
        exact hnot (List.mem_filterMap.mpr ⟨c, hc, active_frame ha⟩)
      simp [GuardCall.holds, hne]
  | recovering h ih =>
    rw [List.filterMap_cons_some (frame_sigguarded ..)] at hn
    refine onTop ?_ (ih (List.nodup_cons.mp hn).2 hs)
    simp [GuardCall.holds]
  | @inside c rsi info rest front hc hi hab h ih =>
    rw [standing_inside hc hi hab] at hs
    rw [List.filterMap_cons_none (info_frame hc)] at hn
    exact onTop (holds_of_frame (info_frame hc)) (ih hn hs)
  | @abandoned args delivered frame rsi info f rest hi hab hf hm h ih =>
    rw [standing_abandoned hi hab] at hs
    rw [List.filterMap_cons_none (frame_raise ..)] at hn
    refine onTop rfl ?_
    cases h' : standing infos rest with
    | nil =>
      rw [h'] at hs
      cases pre <;> cases hs
    | cons b l =>
      rw [h'] at hs
      have hs' : standing infos rest = (b :: pre) ++ a :: post := by
        rw [h']
        exact congrArg (b :: ·) hs
      exact ih hn hs'

end

/-- The thread's pointer to its state, where it has one, is not dangling. -/
def ThreadStorage.Live (st : ThreadStorage) : Prop :=
  ∀ a, st.slot.own = some a → ∃ state, st.states a = some state

theorem StoreKept.live {st st' : ThreadStorage} {own : Option Addr} (h : StoreKept st st')
    (hs : st.slot = .threadLocal own) (hl : st.Live) : st'.Live := by
  intro a ha
  cases own with
  | some b =>
    obtain ⟨hs', hsame⟩ := h.own b hs
    rw [hs'] at ha
    cases ha
    rw [hsame]
    exact hl a (by rw [hs]; rfl)
  | none =>
    rcases h.unset hs with hs' | ⟨b, hs', hnew⟩
    · rw [hs'] at ha
      cases ha
    · rw [hs'] at ha
      cases ha
      exact ⟨{}, hnew⟩

theorem FrontSet.stays_live {st st' : ThreadStorage} {tss front : Option Addr}
    (h : FrontSet st st' tss front) (hl : st.Live) : st'.Live := by
  intro a ha
  obtain ⟨b, -, -, hstates⟩ := h.live
  rw [hstates, Heap.set_apply]
  split
  · exact ⟨_, rfl⟩
  · exact hl a (h.slot ▸ ha)

theorem Guarded.live {s s' : GuardState} {act : GuardAction} {own : Option Addr}
    (hg : Guarded s own) (h : GuardTurn s s' act) (hl : s.store.Live) : s'.store.Live := by
  have same : s'.store = s.store → s'.store.Live := fun hs => hs ▸ hl
  cases h with
  | shift act xs ys rest hx hy hc hc' ho hs => exact hs.live hg.slot hl
  | guard signals recovery decider value env st tss state hk hown hlive hc' hf hnf hin hni hs =>
    exact hs.stays_live (hk.live hg.slot hl)
  | ask args delivered frame f rest info hc hc' hframe hset hinfo hf hnf hin hni hs => exact same hs
  | askFirst args delivered item current value sa rest info hc hc' he hinfo hf hnf hin hni hs =>
    exact same hs
  | askNext args delivered item current next rsi value sa rest old info hc hc' hold hab he hinfo hf
      hnf hin hni hs => exact same hs
  | answer d c rsi info ys rest hrsi hy hc hc' hinfo hab hf hnf hin hni hs => exact same hs
  | recover args delivered frame rsi f info tss old mid rest hmid hc hc' hinfo hab hframe hrec hf
      hnf hin hni hs => exact hs.stays_live hl
  | write pub c rsi info rest hrsi hc hc' hinfo hf hnf hin hni hs => exact same hs
  | abandon c rsi info rest hrsi hc hc' hinfo hab hf hnf hin hni hs =>
    cases hd : info.internalLocalDecider with
    | none =>
      rw [hd] at hs
      exact same hs
    | some frame =>
      rw [hd] at hs
      obtain ⟨tss, a, state, f, -, -, -, -, -, hset⟩ := hs
      exact hset.stays_live hl
  | resume c rsi info rest hrsi hc hc' hinfo hab hf hnf hin hni hs =>
    cases hd : info.internalLocalDecider with
    | none =>
      rw [hd] at hs
      exact same hs
    | some frame =>
      rw [hd] at hs
      obtain ⟨tss, a, state, f, -, -, -, -, -, hset⟩ := hs
      exact hset.stays_live hl
  | jump args delivered frame rsi info tss old mid rest hmid hc hc' hinfo hab hf hnf hin hni hs =>
    exact same hs
  | jumpGlobal args delivered item current rsi sa info rest hc hc' hinfo hab hf hnf hin hni hs =>
    exact same hs
  | ret value frame tss old recovering rest hc hc' hf hnf hin hni hs =>
    cases recovering with
    | true => exact same hs
    | false => exact FrontSet.stays_live hs hl

/-- In the configuration with native thread locals the guard stack is that of the active guards,
in every state a thread comes to. -/
theorem guards_stand {p : Platform} {ok : GuardState → GuardAction → Prop} {g : Global}
    {s : GuardState} (hr : Run (guardStep p) ok (.initial true g) s) :
    s.Stands (standing s.infos s.calls) := by
  obtain ⟨⟨hst, own, hg⟩, hl⟩ : Disciplined s ∧ s.store.Live := by
    refine hr.invariant (I := fun s => Disciplined s ∧ s.store.Live)
      ⟨disciplined_initial g, fun a ha => by cases ha⟩ ?_
    rintro s act s' ⟨hd, hl⟩ _ h
    obtain ⟨-, own, hg⟩ := id hd
    exact ⟨hd.step (guardStep_turns h), hg.live (guardStep_turns h) hl⟩
  refine ⟨hl, hg.threads.chain.head, fun pre a post hs => ?_⟩
  rw [hg.slot]
  exact hg.threads.stands hst.frames hs

theorem SameCall.standing {own own' : Option Addr} {infos : Heap Siginfo}
    {calls cs : List GuardCall} (h : List.Forall₂ (SameCall own own') calls cs) :
    standing infos cs = standing infos calls := by
  induction h with
  | nil => rfl
  | cons hcall _ ih =>
    cases hcall with
    | sigguarded frame tss tss' old recovering =>
      cases recovering with
      | true => exact ih
      | false => exact congrArg (frame :: ·) ih
    | raise args delivered pc =>
      cases pc with
      | asking => simp only [Wg14Signals.standing, ih]
      | _ => exact ih

/-- So it is in the fallback, as long as that has not forgotten the guards. -/
theorem guards_stand_fallback (p : Platform) (kernel : Signo → Sigaction)
    (acts : List GuardAction)
    (h : ∀ pre act post s, acts = pre ++ act :: post →
      pre.foldlM (guardStep p) (.initial true (State.initial kernel).g) = .ok s →
      Provided s act ∧ (s.losesStorage p act = true → s.activeGuards = []))
    {t : GuardState}
    (ht : acts.foldlM (guardStep p) (.initial false (State.initial kernel).g) = .ok t) :
    t.Stands (standing t.infos t.calls) := by
  have hboth := storages_agree p kernel acts h
  generalize acts.foldlM (guardStep p) (.initial true (State.initial kernel).g) = x at hboth
  rw [ht] at hboth
  cases hboth with
  | @ok s _ hst =>
    obtain ⟨⟨hstacked, own, hg⟩, ⟨st, cs, htw, hc, -⟩⟩ := hst
    have hsame : standing s.infos cs = standing s.infos s.calls := SameCall.standing hc
    refine ⟨htw.live', ?_, fun pre a post hs => ?_⟩
    · exact (htw.front.trans hg.threads.chain.head).trans (congrArg List.head? hsame.symm)
    · obtain ⟨f, xs, rest, hf, hprev, hcalls, hxs⟩ :=
        hg.threads.stands hstacked.frames (hsame.symm.trans hs)
      rw [hcalls] at hc
      obtain ⟨xs', c, rest', rfl, hxs', hcall⟩ := forall₂_split hc
      cases hcall with
      | sigguarded _ _ tss' _ _ hown =>
        obtain ⟨-, rfl, -⟩ := hown rfl
        exact ⟨f, xs', rest', hf, hprev, rfl,
          forall₂_forall hxs' (fun c d hcd hc => (hcd.holds a).symm.trans hc) hxs⟩

/-- A raise sets the storage of its thread up, which keeps the guard stack. -/
theorem GuardState.Stands.init {s : GuardState} {guards : List Addr} (hst : s.Stands guards) :
    ∃ a state store, s.store.init {} = (true, store) ∧ store.slot.own = some a ∧
      store.states a = some state ∧ state.front = guards.head? ∧ store.front = s.store.front ∧
      (guards ≠ [] → store = s.store) := by
  obtain ⟨hok, a, hown, hcase⟩ := init_has s.store
  have hinit : s.store.init {} = (true, (s.store.init {}).2) := Prod.ext hok rfl
  rcases hcase with ⟨hown', hsame⟩ | ⟨hnone, hstate⟩
  · obtain ⟨state, hstate⟩ := hst.live a hown'
    refine ⟨a, state, _, hinit, hown, by rw [hsame, hstate], ?_, congrArg _ hsame, fun _ => hsame⟩
    rw [← hst.front, front_of_some hown' hstate]
  · have hfront := front_of_none hnone
    rw [hst.front] at hfront
    refine ⟨a, {}, _, hinit, hown, hstate, hfront.symm, ?_, fun hne => ?_⟩
    · rw [front_of_some hown hstate, hst.front, hfront]
    · exact absurd (List.head?_eq_none_iff.mp hfront) hne

/-- In every reachable state the deciders of a signal are listed, if the handle of each has not
been destroyed. -/
theorem Inv.listed {p : Platform} {s : State} {L : Layout} {signo : Signo} {item : Addr}
    {k : Container} {ns : List Addr} (hi : Inv p s L) (hm : s.g.map signo = some item)
    (hc : s.g.containers item = some k) (hs : DList.IsList s.g.nodes k.globalHandler ns)
    (hlive : ∀ n ∈ ns, ∃ x ∈ s.pending p, x.node = n) :
    Listed s.g signo (some k.oldHandler) ns := by
  refine .present item k hm hc ?_ hs fun n hn => ?_
  · have hmap : mapRefs s.g item = 1 := if_pos ⟨signo, hm⟩
    rw [hi.wf.lifetime item k hc, hmap]
    omega
  · obtain ⟨x, hx, rfl⟩ := hlive n hn
    obtain ⟨nd, hnd, -⟩ := hi.wf.owned x hx
    have hcount : 0 < ((s.pending p).map Slot.node).count x.node :=
      List.count_pos_iff.mpr (List.mem_map.mpr ⟨x, hx, rfl⟩)
    refine ⟨nd, hnd, ?_⟩
    rw [hi.wf.refcount x.node nd hnd]
    omega

/-- A raise of a valid signal begins with the guard at the front of the stack. -/
theorem raise_starts (p : Platform) {s : GuardState} {guards : List Addr} (args : RaiseArgs)
    (hu : s.userCode = true) (hst : s.Stands guards) (hlow : 1 ≤ args.signo)
    (hhigh : args.signo < p.nsig) :
    ∃ store u, guardStep p s (.raise args {}) = .ok u ∧
      Raising s store args [] (.walk guards.head?) s.g u ∧
      (guards ≠ [] → store = s.store) ∧ store.front = s.store.front := by
  obtain ⟨a, state, store, hinit, hown, hstate, hhead, hfront, hsame⟩ := hst.init
  let u := (s.setStore store).goto (.raise args false (.walk guards.head?) :: s.calls)
  have hpush : guardStep p s (.raise args {}) = .ok u := by
    refine (if_pos hu).trans ?_
    unfold GuardState.pushRaise
    rw [hinit]
    have hrange : ¬(args.signo < 1 ∨ (p.nsig : Int) ≤ args.signo) :=
      not_or.mpr ⟨Int.not_lt.mpr hlow, Int.not_le.mpr hhigh⟩
    refine (if_neg (by simp)).trans ((if_neg hrange).trans ?_)
    refine bind_ok.mpr ⟨some a, find_some hown, ?_⟩
    refine bind_ok.mpr ⟨state, Heap.read_some hstate, ?_⟩
    rw [hhead]
    rfl
  exact ⟨store, u, hpush, ⟨rfl, rfl, rfl, rfl, (List.append_nil _).symm, rfl, fun _ hi => by
    cases hi⟩, hsame, hfront⟩

/-- `stdc_raise` on POSIX calls the deciders of the guards whose sets have the signal, innermost
first, and then the global ones, front to back, until one claims it, and no other. What it makes
of the claim, or of none, is that of the documentation. -/
theorem raise_dispatches (p : Platform) {s : GuardState} {guards ns : List Addr}
    {entry : Option Sigaction} (args : RaiseArgs) (dec : Consulted → Decision)
    (hu : s.userCode = true) (hst : s.Stands guards) (hg : Listed s.g args.signo entry ns)
    (hraw : ∀ sa, entry = some sa → sa.handler ≠ .raw) (hlow : 1 ≤ args.signo)
    (hhigh : args.signo < p.nsig) :
    ∃ u s', guardStep p s (.raise args {}) = .ok u ∧
      Run (guardStep p) (fun s act => act = s.quietly dec) u s' ∧
      s'.g = s.g ∧
      s'.consulted = s.consulted ++
        upTo (claims s.recovers dec) (candidates s.guardSet args.signo guards ns) ∧
      s.Ended p args entry s'
        (verdict s.recovers dec (candidates s.guardSet args.signo guards ns)) := by
  obtain ⟨store, u, hpush, hstart, hsame, hfront⟩ := raise_starts p args hu hst hlow hhigh
  have hfin : Finishes p dec s args entry _ _ u :=
    hstart.walks hst (List.nil_append _).symm hsame hg hfront hraw
  obtain ⟨s', hrun, hend⟩ := hfin
  exact ⟨u, s', hpush, hrun, hend⟩

/-- A decider, alone in the list of its container. -/
def oneNode : Node := { refcount := 1, decider := 5, value := 9, owner := 0 }

def oneContainer : Container where
  installCount := 1
  lifetimeRefcount := 1
  oldHandler := .dfl
  globalHandler := ⟨some 0, some 0⟩

/-- Signal 1 is installed, and has that decider. -/
def oneDecider : Global where
  nodes := Heap.empty.set 0 (some oneNode)
  nextNode := 1
  containers := Heap.empty.set 0 (some oneContainer)
  nextContainer := 1
  map signo := if signo = 1 then some 0 else none
  sighandlersCount := 1
  kernel signo := if signo = 1 then .raw else .dfl

theorem oneDecider_listed {g : Global} (hm : g.map 1 = some 0)
    (hc : g.containers 0 = some oneContainer) (hn : g.nodes 0 = some oneNode) :
    Listed g 1 (some .dfl) [0] := by
  refine .present 0 oneContainer hm hc (by decide) ⟨rfl, rfl, by decide, ?_, trivial⟩ ?_
  · intro nd hnd
    rw [hn] at hnd
    cases hnd
    rfl
  · intro n hmem
    obtain rfl := List.mem_singleton.mp hmem
    exact ⟨oneNode, hn, by decide⟩

/-- The inner guard asks for a recovery it does not have, the outer one passes, and the global
decider lets the thread go on. -/
def passingOn : Consulted → Decision
  | .frame a => if a = 1 then .callRecovery else .nextDecider
  | .global _ => .resumeExecution

theorem raise_dispatches_through :
    ∃ s s' : GuardState, Run (guardStep .tiny) (fun _ _ => True) (.initial true oneDecider) s ∧
      s'.consulted = [.frame 1, .frame 0, .global 0] ∧ s'.outcomes = [.raised true] := by
  obtain ⟨s, hr, hs⟩ := run_of_ends (s := .initial true oneDecider) (c := fun _ _ => true)
    (r := fun _ _ => True) (f := guardStep .tiny)
    (q := fun s => s.userCode && standing s.infos s.calls == [1, 0] && s.g.map 1 == some 0 &&
      s.g.containers 0 == some oneContainer && s.g.nodes 0 == some oneNode &&
      candidates s.guardSet 1 [1, 0] [0] == [.frame 1, .frame 0, .global 0] &&
      s.recovers 1 == false && s.consulted == [] && s.outcomes == [])
    (l := [.sigguarded (· == 1) true 0 7 {}, .sigguarded (· == 1) false 0 8 {}])
    (fun _ _ _ => trivial) (by decide)
  simp only [Bool.and_eq_true, beq_iff_eq] at hs
  obtain ⟨⟨⟨⟨⟨⟨⟨⟨hu, hstand⟩, hm⟩, hc⟩, hn⟩, hcand⟩, hrec⟩, hcons⟩, hout⟩ := hs
  obtain ⟨u, s', -, -, -, hasked, hend⟩ := raise_dispatches .tiny { signo := 1 } passingOn hu
    (hstand ▸ guards_stand hr) (oneDecider_listed hm hc hn)
    (by rintro sa ⟨⟩; decide) (by decide) (by decide)
  have h₁ : claims s.recovers passingOn (.frame 1) = false := by simp [claims, passingOn, hrec]
  have h₂ : claims s.recovers passingOn (.frame 0) = false := by simp [claims, passingOn]
  have h₃ : claims s.recovers passingOn (.global 0) = true := by simp [claims, passingOn]
  rw [hcand, hcons, upTo_miss h₁, upTo_miss h₂, upTo_hit h₃] at hasked
  rw [hcand, verdict_miss h₁, verdict_miss h₂, verdict_hit h₃] at hend
  obtain ⟨-, -, hout'⟩ := hend
  exact ⟨s, s', hr, hasked, hout'.trans (by rw [hout]; rfl)⟩

end Wg14Signals
