import Wg14Signals.Proofs.Dispatch
import Wg14Signals.Proofs.WinClaims
import Wg14Signals.WinDispatch

namespace Wg14Signals
open Lib

section

variable {w : WinPlatform} {s u u' : WinState} {x : Exception} {l : WinRaise}
  {asked : List Consulted} {pc : WinPc} {g : Global} {a rsi : Addr} {gs : WinGuard}
  {dec : Consulted → Decision} {todo : List Addr} {v : Verdict}

/-- A raise made in the state `s` has come to a place, with these deciders called so far. -/
structure WinRaising (s : WinState) (x : Exception) (asked : List Consulted) (pc : WinPc)
    (g : Global) (u : WinState) : Prop where
  calls : u.calls = .dispatch x pc :: s.calls
  guards : ∀ a gs, s.guards a = some gs → ∃ rsi, u.guards a = some { gs with rsi }
  raise : ∃ l, u.raises s.nextRaise = some l ∧ l.wasUnclaimed = false ∧ l.wasClaimed = false ∧
    win32ExceptionRecordMatches l.id x.record = true
  tss : u.tss = some { front := some s.nextRaise, initiated := some s.nextRaise }
  g : u.g = g
  consulted : u.consulted = s.consulted ++ asked
  outcomes : u.outcomes = s.outcomes
  info : ∀ rsi, (WinCall.dispatch x pc).info = some rsi → ∃ info, u.infos rsi = some info

/-- The raise goes on quietly, has these deciders called in all, and then ends so. -/
def WinFinishes (w : WinPlatform) (dec : Consulted → Decision) (s : WinState)
    (asked : List Consulted) (v : Verdict) (u : WinState) : Prop :=
  ∃ u', Run (winStep w) (fun s act => act = s.quietly dec) u u' ∧ u'.g = s.g ∧
    u'.consulted = s.consulted ++ asked ∧ s.Ended w u' v

theorem WinFinishes.step (h : WinFinishes w dec s asked v u')
    (hs : winStep w u (u.quietly dec) = .ok u') : WinFinishes w dec s asked v u := by
  obtain ⟨t, hr, hend⟩ := h
  have hfirst : Run (winStep w) (fun s act => act = s.quietly dec) u u' :=
    .tail _ (.refl u) rfl hs
  exact ⟨t, hfirst.trans hr, hend⟩

@[simp] theorem win_consulted_emit (e : WinEvent) :
    (s.emit e).consulted = s.consulted ++ e.who.toList := by
  cases h : e.who <;> simp [WinState.consulted, h]

@[simp] theorem win_outcomes_emit (e : WinEvent) :
    (s.emit e).outcomes = s.outcomes ++ if e.outcome then [e] else [] := by
  cases h : e.outcome <;> simp [WinState.outcomes, h]

theorem WinRaising.quietly (h : WinRaising s x asked pc g u) :
    u.quietly dec = pc.quietly dec := by
  rw [WinState.quietly, h.calls]

theorem WinRaising.advance (h : WinRaising s x asked pc g u)
    (hs : winSection w u x pc s.calls = .ok u') : winStep w u .advance = .ok u' := by
  simp only [winStep, h.calls, hs]

/-- The dispatch moves on, and nothing else changes. -/
theorem WinRaising.goto {p q : WinPc} (h : WinRaising s x asked p g u)
    (hq : (WinCall.dispatch x q).info = none) :
    WinRaising s x asked q g (u.goto (.dispatch x q :: s.calls)) :=
  ⟨rfl, h.guards, h.raise, h.tss, h.g, h.consulted, h.outcomes, fun rsi hr => by
    rw [hq] at hr
    cases hr⟩

theorem WinRaising.skips (dec : Consulted → Decision)
    (h : WinRaising s x asked (.filters (a :: todo)) g u)
    (hg : s.guards a = some gs)
    (hset : sigismember gs.guarded (signalFromWin32ExceptionCode w x.record.code) = false) :
    ∃ u', winStep w u (u.quietly dec) = .ok u' ∧
      WinRaising s x asked (.filters todo) g u' := by
  obtain ⟨rsi, hread⟩ := h.guards a gs hg
  refine ⟨_, ?_, h.goto rfl⟩
  rw [h.quietly]
  refine h.advance (bind_ok.mpr ⟨_, Heap.read_some hread, ?_⟩)
  exact if_neg (by simp [hset])

theorem WinRaising.asks (dec : Consulted → Decision)
    (h : WinRaising s x asked (.filters (a :: todo)) g u)
    (hg : s.guards a = some gs)
    (hset : sigismember gs.guarded (signalFromWin32ExceptionCode w x.record.code) = true) :
    ∃ u' rsi, winStep w u (u.quietly dec) = .ok u' ∧
      WinRaising s x (asked ++ [.frame a]) (.asking a todo) g u' ∧
      u'.trace = .asked x (.frame a) rsi :: u.trace := by
  obtain ⟨old, hread⟩ := h.guards a gs hg
  let rsi : Siginfo := { win32PrepareRsi (signalFromWin32ExceptionCode w x.record.code) x with
    value := gs.value
    internalLocalDecider := some s.nextRaise }
  let u' := ((u.setGuard a { gs with rsi }).goto (.dispatch x (.asking a todo) :: s.calls)).emit
    (.asked x (.frame a) rsi)
  refine ⟨u', rsi, ?_, ⟨rfl, fun b bs hb => ?_, h.raise, h.tss, h.g, ?_, ?_, fun _ hi => by
    cases hi⟩, rfl⟩
  · rw [h.quietly]
    refine h.advance (bind_ok.mpr ⟨_, Heap.read_some hread, ?_⟩)
    refine (if_pos hset).trans ?_
    exact bind_ok.mpr ⟨_, winTss_ok.mpr h.tss, rfl⟩
  · by_cases hba : b = a
    · subst hba
      obtain rfl := Option.some.inj (hg.symm.trans hb)
      exact ⟨rsi, Heap.set_self ..⟩
    · obtain ⟨rsi', hb'⟩ := h.guards b bs hb
      exact ⟨rsi', (Heap.set_other _ _ hba).trans hb'⟩
  · rw [win_consulted_emit]
    exact (congrArg (· ++ _) h.consulted).trans (List.append_assoc ..)
  · rw [win_outcomes_emit]
    exact (List.append_nil _).trans h.outcomes

theorem WinRaising.answers (h : WinRaising s x asked (.asking a todo) g u)
    (hs : winFrameAnswer u x a todo (dec (.frame a)) s.calls = .ok u') :
    winStep w u (u.quietly dec) = .ok u' := by
  rw [h.quietly]
  simp only [WinPc.quietly, winStep, h.calls, hs]

/-- The decider of a guard passes the raise on. -/
theorem WinRaising.declines (h : WinRaising s x asked (.asking a todo) g u)
    (hg : s.guards a = some gs) (hd : claims s.recovers dec (.frame a) = false) :
    ∃ u', winStep w u (u.quietly dec) = .ok u' ∧
      WinRaising s x asked (.filters todo) g u' := by
  obtain ⟨rsi, hread⟩ := h.guards a gs hg
  refine ⟨_, h.answers ?_, h.goto rfl⟩
  cases hdec : dec (.frame a) with
  | nextDecider => rfl
  | resumeExecution => simp [hdec, claims] at hd
  | callRecovery =>
    have hrec : gs.recovery = false := by
      simpa [hdec, claims, WinState.recovers, hg] using hd
    exact bind_ok.mpr ⟨_, Heap.read_some hread, if_neg (by simp [hrec])⟩

/-- The raise at the head of the chain is this one. -/
theorem WinRaising.matching (h : WinRaising s x asked pc g u) :
    win32MatchingRaiseFrame u x.record = .ok (some s.nextRaise) := by
  obtain ⟨l, hl, -, -, hm⟩ := h.raise
  unfold win32MatchingRaiseFrame
  rw [h.tss]
  exact bind_ok.mpr ⟨l, Heap.read_some hl, congrArg Except.ok (if_pos hm)⟩

/-- Execution is to go on, and the raise returns. -/
theorem goes_on (dec : Consulted → Decision) {s u : WinState} {l : WinRaise} {b : Bool}
    (hx : x.raise = some s.nextRaise)
    (hc : u.calls = .dispatch x .continuing :: s.calls) (hlast : u.lastRecord = .of x.record)
    (hl : u.raises s.nextRaise = some l) (hb : l.wasUnclaimed = !b) (ht : ∃ tss, u.tss = some tss) :
    ∃ u', winStep w u (u.quietly dec) = .ok u' ∧ u'.calls = s.calls ∧ u'.g = u.g ∧
      u'.consulted = u.consulted ∧ u'.outcomes = u.outcomes ++ [.raised (some s.nextRaise) b] := by
  obtain ⟨tss, ht⟩ := ht
  have hm : win32ExceptionRecordMatches u.lastRecord x.record = true := hlast ▸ matches_self _
  let u₁ := (((u.setLast {} u.lastResult).setTss
    { front := l.prev, initiated := l.winPrev }).discard [.dispatch x .continuing]).goto s.calls
  refine ⟨u₁.emit (.raised (some s.nextRaise) !l.wasUnclaimed), ?_, rfl, rfl,
    (win_consulted_emit _).trans (List.append_nil _), ?_⟩
  · rw [WinState.quietly, hc]
    simp only [WinPc.quietly, winStep, hc, winSection, win32VectoredContinueHandler, hm, if_true,
      WinState.resumed, hx]
    refine bind_ok.mpr ⟨l, Heap.read_some hl, ?_⟩
    exact bind_ok.mpr ⟨tss, winTss_ok.mpr ht, rfl⟩
  · rw [win_outcomes_emit, hb, Bool.not_not]
    rfl

/-- The decider of a guard lets the thread go on. -/
theorem WinRaising.resumes (h : WinRaising s x asked (.asking a todo) s.g u)
    (hx : x.raise = some s.nextRaise) (hd : dec (.frame a) = .resumeExecution) :
    WinFinishes w dec s asked .claimed u := by
  obtain ⟨l, hl, hun, -, -⟩ := h.raise
  let u₁ := ((((u.setRaise s.nextRaise { l with wasClaimed := true }).setLast (.of x.record)
    .continueExecution).goto (.dispatch x .continuing :: s.calls)).emit (.claimed x (.frame a)))
  have hstep : winStep w u (u.quietly dec) = .ok u₁ := by
    refine h.answers ?_
    rw [hd]
    refine bind_ok.mpr ⟨u.setRaise s.nextRaise { l with wasClaimed := true }, ?_, rfl⟩
    refine bind_ok.mpr ⟨_, h.matching, ?_⟩
    exact bind_ok.mpr ⟨l, Heap.read_some hl, rfl⟩
  obtain ⟨u₂, hstep₂, hc, hg, hcons, hout⟩ := goes_on (w := w) (b := true) (u := u₁) dec hx
    rfl rfl (Heap.set_self ..) hun ⟨_, h.tss⟩
  have hdone : WinFinishes w dec s asked .claimed u₂ := by
    refine ⟨u₂, .refl _, hg.trans h.g, ?_, hc, ?_⟩
    · rw [hcons, win_consulted_emit]
      exact (List.append_nil _).trans h.consulted
    · rw [hout, win_outcomes_emit]
      exact congrArg (· ++ _) ((List.append_nil _).trans h.outcomes)
  exact (hdone.step hstep₂).step hstep

/-- It asks for the recovery function of its guard. -/
theorem WinRaising.recovers (h : WinRaising s x asked (.asking a todo) s.g u)
    (ha : a ∈ s.tries) (hg : s.guards a = some gs) (hrec : gs.recovery = true)
    (hd : dec (.frame a) = .callRecovery) : WinFinishes w dec s asked (.recovered a) u := by
  obtain ⟨rsi, hread⟩ := h.guards a gs hg
  obtain ⟨c, hc, htry⟩ := List.mem_filterMap.mp ha
  have hdrop : s.calls.dropWhile (fun c => c.tries != some a) ≠ [] := fun hnil => by
    have := List.dropWhile_eq_nil_iff.mp hnil c hc
    simp [htry] at this
  obtain ⟨d, rest, hdrop⟩ := List.exists_cons_of_ne_nil hdrop
  obtain ⟨hsplit, hd', -⟩ := split_first hdrop
  obtain rfl : d = .sigguarded a false := by
    cases d with
    | dispatch => simp [WinCall.tries] at hd'
    | sigguarded b recovering =>
      cases recovering with
      | true => simp [WinCall.tries] at hd'
      | false =>
        obtain rfl : b = a := by simpa [WinCall.tries] using hd'
        rfl
  let v := (u.emit (.claimed x (.frame a))).setTss
    { front := gs.tssFrontAtEntry, initiated := gs.winAtEntry }
  let u' := ((v.discard (v.calls.takeWhile fun c => c.tries != some a)).goto
    (.sigguarded a true :: rest)).emit (.recovered a rsi)
  have hdone : WinFinishes w dec s asked (.recovered a) u' := by
    refine ⟨u', .refl _, h.g, ?_, rsi, _, rest, hsplit, rfl, ?_, fun value => ⟨_, rfl, rfl, ?_⟩⟩
    · rw [win_consulted_emit]
      refine (List.append_nil _).trans ((win_consulted_emit _).trans ?_)
      exact (List.append_nil _).trans h.consulted
    · rw [win_outcomes_emit]
      refine congrArg (· ++ _) ((win_outcomes_emit _).trans ?_)
      exact (List.append_nil _).trans h.outcomes
    · exact win_outcomes_emit _
  refine hdone.step (h.answers ?_)
  rw [hd]
  refine bind_ok.mpr ⟨_, Heap.read_some hread, ?_⟩
  refine (if_pos hrec).trans ?_
  refine bind_ok.mpr ⟨_, winTss_ok.mpr h.tss, ?_⟩
  have hcalls : v.calls.dropWhile (fun c => c.tries != some a) = .sigguarded a false :: rest := by
    rw [show v.calls = .dispatch x (.asking a todo) :: s.calls from h.calls,
      List.dropWhile_cons_of_pos (by simp [WinCall.tries]), hdrop]
  unfold WinState.execute
  rw [show ((u.emit (.claimed x (.frame a))).setTss _).calls.dropWhile _ = _ from hcalls]
  rfl

/-- Nobody wants the exception, and the raise is told so. -/
theorem WinRaising.unclaimed {v : WinState} (dec : Consulted → Decision)
    (h : WinRaising s x asked pc g u)
    (hx : x.raise = some s.nextRaise) (hv : v.raises = u.raises) (ht : v.tss = u.tss)
    (hg : v.g = s.g) (hcons : v.consulted = u.consulted) (hout : v.outcomes = u.outcomes) :
    ∃ u₁, v.passUnclaimed x .unhandledFilter s.calls = .ok u₁ ∧
      WinFinishes w dec s asked .unclaimed u₁ := by
  obtain ⟨l, hl, -, hcl, hm⟩ := h.raise
  have hmatch : win32MatchingRaiseFrame v x.record = .ok (some s.nextRaise) := by
    have := h.matching
    unfold win32MatchingRaiseFrame at this ⊢
    rwa [hv, ht]
  have hread : v.raises.read ThreadFault.frame (some s.nextRaise) = .ok l :=
    Heap.read_some (by rw [hv, hl])
  let u₁ := ((v.setRaise s.nextRaise { l with wasUnclaimed := true }).setLast (.of x.record)
    .continueExecution).goto (.dispatch x .continuing :: s.calls)
  obtain ⟨u₂, hstep₂, hc, hg₂, hcons₂, hout₂⟩ := goes_on (w := w) (b := false) (u := u₁) dec hx
    rfl rfl (Heap.set_self ..) rfl ⟨_, ht.trans h.tss⟩
  have hdone : WinFinishes w dec s asked .unclaimed u₂ := by
    refine ⟨u₂, .refl _, hg₂.trans hg, ?_, hc, ?_⟩
    · exact hcons₂.trans (hcons.trans h.consulted)
    · exact hout₂.trans (congrArg (· ++ _) (hout.trans h.outcomes))
  refine ⟨u₁, ?_, hdone.step hstep₂⟩
  refine bind_ok.mpr ⟨(.continueExecution, v.setRaise s.nextRaise { l with wasUnclaimed := true }),
    ?_, rfl⟩
  refine bind_ok.mpr ⟨_, hmatch, bind_ok.mpr ⟨l, hread, ?_⟩⟩
  exact if_neg (by simp [hcl])

theorem WinRaising.leaves {item n : Addr}
    (h : WinRaising s x asked (.deciding .unhandledFilter item n rsi) g u)
    (hs : winGlobalAnswer u x .unhandledFilter item n rsi (dec (.global n)) s.calls = .ok u') :
    winStep w u (u.quietly dec) = .ok u' := by
  rw [h.quietly]
  simp only [WinPc.quietly, winStep, h.calls, hs]

/-- A global decider claims the raise. -/
theorem WinRaising.claimed {item n : Addr}
    (h : WinRaising s x asked (.deciding .unhandledFilter item n rsi) g u)
    (hx : x.raise = some s.nextRaise) (hl : raiseLeave g item n true = .ok (.claimed, s.g))
    (hd : claims s.recovers dec (.global n) = true) :
    WinFinishes w dec s asked (verdictBy dec (.global n)) u := by
  obtain ⟨info, hinfo⟩ := h.info rsi rfl
  obtain ⟨l, hlr, -⟩ := h.raise
  let top := WinCall.dispatch x (.deciding .unhandledFilter item n rsi)
  let u₁ := (u.setG s.g).emit (.claimed x (.global n))
  let u' := (((u₁.setTss { front := l.prev, initiated := l.winPrev }).discard [top]).goto
    s.calls).emit (.raised (some s.nextRaise) true)
  have hdone : WinFinishes w dec s asked .claimed u' := by
    refine ⟨u', .refl _, rfl, ?_, rfl, ?_⟩
    · rw [win_consulted_emit]
      refine (List.append_nil _).trans ((win_consulted_emit _).trans ?_)
      exact (List.append_nil _).trans h.consulted
    · rw [win_outcomes_emit]
      refine congrArg (· ++ _) ((win_outcomes_emit _).trans ?_)
      exact (List.append_nil _).trans h.outcomes
  refine hdone.step (h.leaves (bind_ok.mpr ⟨info, Heap.read_some hinfo, ?_⟩))
  refine bind_ok.mpr ⟨(.claimed, s.g), ofLib_ok.mpr ?_, ?_⟩
  · rw [h.g, ← claims_global (r := s.recovers), hd]
    exact hl
  · have hfront : u₁.tss.bind WinTss.front = some s.nextRaise := by
      rw [show u₁.tss = u.tss from rfl, h.tss]
      rfl
    have hcalls : u₁.calls = top :: s.calls := h.calls
    have hraise : (top.raise != some s.nextRaise) = false := by simp [top, WinCall.raise, hx]
    have hjump : u₁.longjmp s.nextRaise = .ok u' := by
      unfold WinState.longjmp
      rw [hcalls, List.dropWhile_cons_of_neg (by simp [hraise]),
        List.takeWhile_cons_of_neg (by simp [hraise])]
      exact bind_ok.mpr ⟨l, Heap.read_some hlr, rfl⟩
    simp only
    rw [show ((u.setG s.g).emit (.claimed x (.global n))).tss.bind WinTss.front =
      some s.nextRaise from hfront]
    exact hjump

/-- It passes the raise on to the next one. -/
theorem WinRaising.continues {item n n' : Addr} {g' : Global} {value : Int}
    (h : WinRaising s x asked (.deciding .unhandledFilter item n rsi) g u)
    (hl : raiseLeave g item n false = .ok (.deciding n' value, g'))
    (hd : claims s.recovers dec (.global n) = false) :
    ∃ u', winStep w u (u.quietly dec) = .ok u' ∧
      WinRaising s x (asked ++ [.global n']) (.deciding .unhandledFilter item n' rsi) g' u' := by
  obtain ⟨info, hinfo⟩ := h.info rsi rfl
  let info' : Siginfo := { info with
    value
    internalSighandler := some item
    internalGlobalDecider := some n' }
  refine ⟨(((u.setG g').setInfo rsi info').goto
    (.dispatch x (.deciding .unhandledFilter item n' rsi) :: s.calls)).emit
    (.asked x (.global n') info'), h.leaves (bind_ok.mpr ⟨info, Heap.read_some hinfo, ?_⟩),
    rfl, h.guards, h.raise, h.tss, rfl, ?_, ?_, ?_⟩
  · refine bind_ok.mpr ⟨(.deciding n' value, g'), ofLib_ok.mpr ?_, rfl⟩
    rw [h.g, ← claims_global (r := s.recovers), hd]
    exact hl
  · rw [win_consulted_emit]
    exact (congrArg (· ++ _) h.consulted).trans (List.append_assoc ..)
  · rw [win_outcomes_emit]
    exact (List.append_nil _).trans h.outcomes
  · rintro rsi' ⟨⟩
    exact ⟨info', Heap.set_self ..⟩

/-- It was the last, and did not want the raise. -/
theorem WinRaising.exhausts {item n : Addr}
    (h : WinRaising s x asked (.deciding .unhandledFilter item n rsi) g u)
    (hx : x.raise = some s.nextRaise) (hl : raiseLeave g item n false = .ok (.unclaimed, s.g))
    (hd : claims s.recovers dec (.global n) = false) :
    WinFinishes w dec s asked .unclaimed u := by
  obtain ⟨info, hinfo⟩ := h.info rsi rfl
  obtain ⟨u₁, hpass, hdone⟩ := h.unclaimed (w := w) (v := (u.setG s.g).dropInfo rsi) dec hx rfl
    rfl rfl rfl rfl
  refine hdone.step (h.leaves (bind_ok.mpr ⟨info, Heap.read_some hinfo, ?_⟩))
  refine bind_ok.mpr ⟨(.unclaimed, s.g), ofLib_ok.mpr ?_, hpass⟩
  rw [h.g, ← claims_global (r := s.recovers), hd]
  exact hl

/-- What is left of the raise at a global decider. -/
theorem WinRaising.visits (dec : Consulted → Decision) {item : Addr} {k : Container} {n : Addr}
    {nd : Node} {ns : List Addr} (hx : x.raise = some s.nextRaise) (hc : s.g.containers item = some k)
    (hl : 0 < k.lifetimeRefcount)
    (hlive : ∀ n ∈ ns, ∃ nd, s.g.nodes n = some nd ∧ 0 < nd.refcount)
    {prev : Option Addr} (hseg : DList.Seg s.g.nodes prev (n :: ns) none)
    (hn : s.g.nodes n = some nd) (hr : 0 < nd.refcount)
    (h : WinRaising s x (asked ++ [.global n]) (.deciding .unhandledFilter item n rsi)
      (s.g.visiting item k n nd) u) :
    WinFinishes w dec s (asked ++ upTo (claims s.recovers dec) ((n :: ns).map .global))
      (verdict s.recovers dec ((n :: ns).map .global)) u := by
  induction ns generalizing n nd prev asked u with
  | nil =>
    obtain ⟨hlinks, -⟩ := hseg
    cases hclaim : claims s.recovers dec (.global n) with
    | true =>
      rw [List.map_cons, upTo_hit hclaim, verdict_hit hclaim]
      exact h.claimed hx (raiseLeave_claims hc hl hn hr) hclaim
    | false =>
      rw [List.map_cons, upTo_miss hclaim, verdict_miss hclaim]
      have hlast := raiseLeave_finishes hc hl hn hr (congrArg Links.next (hlinks nd hn))
      exact h.exhausts hx hlast hclaim
  | cons n' ns ih =>
    obtain ⟨hlinks, hseg'⟩ := hseg
    obtain ⟨nd', hn', hr'⟩ := hlive n' List.mem_cons_self
    cases hclaim : claims s.recovers dec (.global n) with
    | true =>
      rw [List.map_cons, upTo_hit hclaim, verdict_hit hclaim]
      exact h.claimed hx (raiseLeave_claims hc hl hn hr) hclaim
    | false =>
      rw [List.map_cons, upTo_miss hclaim, verdict_miss hclaim, List.append_cons]
      have hnext : raiseLeave (s.g.visiting item k n nd) item n false =
          .ok (.deciding n' nd'.value, s.g.visiting item k n' nd') :=
        raiseLeave_continues hn hr (congrArg Links.next (hlinks nd hn)) hn'
      obtain ⟨u₁, hstep, h₁⟩ := h.continues hnext hclaim
      exact (ih (fun m hm => hlive m (List.mem_cons_of_mem _ hm)) hseg' hn' hr' h₁).step hstep

/-- The filters have been run. -/
theorem WinRaising.globals {entry : Option Sigaction} {ns : List Addr}
    (h : WinRaising s x asked (.filters []) s.g u) (hx : x.raise = some s.nextRaise)
    (hd : signalFromWin32ExceptionCode w x.record.code ≠ 0)
    (hg : Listed s.g (signalFromWin32ExceptionCode w x.record.code) entry ns) :
    WinFinishes w dec s (asked ++ upTo (claims s.recovers dec) (ns.map .global))
      (verdict s.recovers dec (ns.map .global)) u := by
  let u₀ := u.goto (.dispatch x .unhandled :: s.calls)
  let u₁ := u₀.setLast {} u₀.lastResult
  have h₀ : WinRaising s x asked .unhandled s.g u₀ := h.goto rfl
  have hfirst : winStep w u (u.quietly dec) = .ok u₀ := by
    rw [h.quietly]
    exact h.advance rfl
  -- the pass, once its first section is known
  have pass : ∀ {e : Entered} {g' : Global} {u' : WinState} {f : Entered × Global → _},
      raiseEnter s.g (signalFromWin32ExceptionCode w x.record.code) = .ok (e, g') →
      win32GlobalDeciderPass w u₁ x .unhandledFilter s.calls =
        ofLib (raiseEnter u₁.g (signalFromWin32ExceptionCode w x.record.code)) >>= f →
      f (e, g') = .ok u' → winStep w u₀ (u₀.quietly dec) = .ok u' := by
    intro e g' u' f he hp hf
    rw [h₀.quietly]
    refine h₀.advance (hp.trans (bind_ok.mpr ⟨(e, g'), ofLib_ok.mpr ?_, hf⟩))
    rw [show u₁.g = s.g from h.g]
    exact he
  refine WinFinishes.step ?_ hfirst
  cases hg with
  | absent hm =>
    have henter : raiseEnter s.g (signalFromWin32ExceptionCode w x.record.code) =
        .ok (.absent, s.g) := by
      unfold raiseEnter
      rw [hm]
      rfl
    obtain ⟨u₂, hpass, hdone⟩ := h.unclaimed (w := w) (v := u₁.setG s.g) dec hx rfl rfl rfl rfl rfl
    rw [List.map_nil, upTo_nil, List.append_nil]
    exact hdone.step (pass henter (if_neg hd) hpass)
  | present item k hm hc hl hs hn =>
    cases ns with
    | nil =>
      have henter := raiseEnter_nobody hm hc hl hs.front
      obtain ⟨u₂, hpass, hdone⟩ := h.unclaimed (w := w) (v := u₁.setG s.g) dec hx rfl rfl rfl rfl rfl
      rw [List.map_nil, upTo_nil, List.append_nil]
      exact hdone.step (pass henter (if_neg hd) hpass)
    | cons n ns =>
      obtain ⟨nd, hnd, hr⟩ := hn n List.mem_cons_self
      have henter := raiseEnter_visits hm hc hs.front hnd
      let info : Siginfo := { win32PrepareRsi (signalFromWin32ExceptionCode w x.record.code) x with
        value := nd.value
        internalSighandler := some item
        internalGlobalDecider := some n }
      let u₂ : WinState := { u₁.setG (s.g.visiting item k n nd) with nextInfo := u₁.nextInfo + 1 }
      let u₃ := ((u₂.setInfo u₁.nextInfo info).goto
        (.dispatch x (.deciding .unhandledFilter item n u₁.nextInfo) :: s.calls)).emit
        (.asked x (.global n) info)
      have h₃ : WinRaising s x (asked ++ [.global n])
          (.deciding .unhandledFilter item n u₁.nextInfo) (s.g.visiting item k n nd) u₃ := by
        refine ⟨rfl, h.guards, h.raise, h.tss, rfl, ?_, ?_, ?_⟩
        · rw [win_consulted_emit]
          exact (congrArg (· ++ _) h.consulted).trans (List.append_assoc ..)
        · rw [win_outcomes_emit]
          exact (List.append_nil _).trans h.outcomes
        · rintro rsi ⟨⟩
          exact ⟨info, Heap.set_self ..⟩
      have hrest := h₃.visits (w := w) dec hx hc hl
        (fun m hm => hn m (List.mem_cons_of_mem _ hm)) hs.seg hnd hr
      exact hrest.step (pass henter (if_neg hd) rfl)

/-- The rest of the filters, and what comes after them. -/
theorem WinRaising.walks (dec : Consulted → Decision) {entry : Option Sigaction} {ns : List Addr}
    (h : WinRaising s x asked (.filters todo) s.g u) (hx : x.raise = some s.nextRaise)
    (hd : signalFromWin32ExceptionCode w x.record.code ≠ 0)
    (hg : Listed s.g (signalFromWin32ExceptionCode w x.record.code) entry ns)
    (htodo : ∀ a ∈ todo, a ∈ s.tries ∧ ∃ gs, s.guards a = some gs) :
    WinFinishes w dec s
      (asked ++ upTo (claims s.recovers dec) (candidates s.guardSet
        (signalFromWin32ExceptionCode w x.record.code) todo ns))
      (verdict s.recovers dec (candidates s.guardSet
        (signalFromWin32ExceptionCode w x.record.code) todo ns)) u := by
  generalize hsigno : signalFromWin32ExceptionCode w x.record.code = signo
  induction todo generalizing asked u with
  | nil => exact hsigno ▸ h.globals hx hd hg
  | cons a todo ih =>
    obtain ⟨ha, gs, hgs⟩ := htodo a List.mem_cons_self
    have htodo' := fun b hb => htodo b (List.mem_cons_of_mem _ hb)
    have hset : s.guardSet a = some (sigismember gs.guarded) := congrArg _ hgs
    cases hmem : sigismember gs.guarded signo with
    | false =>
      have hcand : candidates s.guardSet signo (a :: todo) ns =
          candidates s.guardSet signo todo ns := by
        simp [candidates, hset, hmem]
      obtain ⟨u₁, hskip, h₁⟩ := h.skips (w := w) dec hgs (hsigno ▸ hmem)
      rw [hcand]
      exact (ih h₁ htodo').step hskip
    | true =>
      have hcand : candidates s.guardSet signo (a :: todo) ns =
          .frame a :: candidates s.guardSet signo todo ns := by
        simp [candidates, hset, hmem]
      obtain ⟨u₁, -, hask, h₁, -⟩ := h.asks (w := w) dec hgs (hsigno ▸ hmem)
      refine WinFinishes.step ?_ hask
      rw [hcand]
      cases hclaim : claims s.recovers dec (.frame a) with
      | false =>
        obtain ⟨u₂, hnext, h₂⟩ := h₁.declines (w := w) hgs hclaim
        rw [upTo_miss hclaim, verdict_miss hclaim, List.append_cons]
        exact (ih h₂ htodo').step hnext
      | true =>
        rw [upTo_hit hclaim, verdict_hit hclaim]
        cases hdec : dec (.frame a) with
        | nextDecider => simp [hdec, claims] at hclaim
        | resumeExecution =>
          rw [verdictBy, hdec]
          exact h₁.resumes hx hdec
        | callRecovery =>
          have hrec : gs.recovery = true := by
            simpa [hdec, claims, WinState.recovers, hgs] using hclaim
          rw [verdictBy, hdec]
          exact h₁.recovers ha hgs hrec hdec

/-- The guards of the calls in progress are there. -/
theorem Woven.guarded {guards : Heap WinGuard} {raises : Heap WinRaise} {calls : List WinCall}
    (h : Woven guards raises calls) :
    ∀ a ∈ calls.filterMap WinCall.tries, ∃ gs, guards a = some gs := by
  induction h with
  | nil => exact fun a ha => absurd ha List.not_mem_nil
  | @guard b gs recovering rest hg _ _ _ ih =>
    intro a ha
    cases recovering with
    | true => exact ih a ha
    | false =>
      rcases List.mem_cons.mp ha with rfl | ha
      · exact ⟨gs, hg⟩
      · exact ih a ha
  | raise _ _ _ _ _ ih => exact ih
  | fault _ _ ih => exact ih

theorem masked_flags (flags o : BitVec 32) : (flags ||| o) &&& ~~~o = flags &&& ~~~o := by
  ext i hi
  simp only [BitVec.getElem_and, BitVec.getElem_or, BitVec.getElem_not]
  cases o[i] <;> simp

/-- The system delivers a record that the raise knows as its own. -/
theorem matches_delivered (record : ExceptionRecord) :
    win32ExceptionRecordMatches (.of record) (deliveredRecord w record) = true := by
  unfold deliveredRecord
  split
  · simp [win32ExceptionRecordMatches, RecordId.of, masked_flags]
  · exact matches_self record

theorem delivered_code (signo : Signo) (info : Option ExceptionRecord) (context : Option Addr) :
    (deliveredRecord w (raisedRecord w signo info context)).code =
      win32ExceptionCodeFromSignal w signo := by
  unfold deliveredRecord raisedRecord
  cases info <;> split <;> rfl

/-- A raise begins with the filters of the guards. -/
theorem winRaise_starts (env : SetupEnv) {signo : Signo} (info : Option ExceptionRecord)
    (context : Option Addr) (hu : s.userCode = true) (hinit : (s.init env).1 = true)
    (hs : signo ≠ 0) :
    ∃ u x, winStep w s (.raise signo info context env) = .ok u ∧ x.raise = some s.nextRaise ∧
      x.record.code = win32ExceptionCodeFromSignal w signo ∧
      WinRaising s x [] (.filters s.tries) s.g u := by
  obtain ⟨tss, he, -, ht⟩ := init_turns s env
  obtain ⟨t, rfl⟩ := ht hinit
  let record := raisedRecord w signo info context
  let x : Exception :=
    { record := deliveredRecord w record, ptr := s.nextException, raise := some s.nextRaise }
  let l : WinRaise := { prev := t.front, winPrev := t.initiated, id := .of record }
  let u : WinState :=
    { s with
      tss := some { front := some s.nextRaise, initiated := some s.nextRaise }
      raises := s.raises.set s.nextRaise (some l)
      nextRaise := s.nextRaise + 1
      nextException := s.nextException + 1
      calls := .dispatch x (.filters s.tries) :: s.calls }
  refine ⟨u, x, ?_, rfl, delivered_code signo info context, rfl, fun a gs hg => ⟨gs.rsi, hg⟩,
    ⟨l, Heap.set_self .., rfl, rfl, matches_delivered record⟩, rfl, rfl,
    (List.append_nil _).symm, rfl, fun _ hi => by cases hi⟩
  refine (if_pos hu).trans ?_
  simp only [WinState.pushRaise, hinit, he]
  rw [if_neg (by simp [hs])]
  exact bind_ok.mpr ⟨t, winTss_ok.mpr rfl, rfl⟩

/-- `stdc_raise` on Windows calls the deciders of the guards whose sets have the signal, innermost
first, and then the global ones, front to back, until one claims the exception, and no other. -/
theorem winRaise_dispatches (env : SetupEnv) {entry : Option Sigaction} {ns : List Addr}
    {signo : Signo} (hch : WinChained s) (dec : Consulted → Decision) (hu : s.userCode = true)
    (hinit : (s.init env).1 = true) (hs : signo ≠ 0)
    (hd : w.receives signo ≠ 0) (hg : Listed s.g (w.receives signo) entry ns)
    (info : Option ExceptionRecord) (context : Option Addr) :
    ∃ u s', winStep w s (.raise signo info context env) = .ok u ∧
      Run (winStep w) (fun s act => act = s.quietly dec) u s' ∧ s'.g = s.g ∧
      s'.consulted = s.consulted ++
        upTo (claims s.recovers dec) (candidates s.guardSet (w.receives signo) s.tries ns) ∧
      s.Ended w s'
        (verdict s.recovers dec (candidates s.guardSet (w.receives signo) s.tries ns)) := by
  obtain ⟨u, x, hstep, hx, hcode, h⟩ := winRaise_starts (w := w) env info context hu hinit
    hs
  unfold WinPlatform.receives at hd hg ⊢
  rw [← hcode] at hd hg ⊢
  obtain ⟨s', hrun, hend⟩ := h.walks (w := w) dec hx hd hg
    fun a ha => ⟨ha, hch.woven.guarded a ha⟩
  exact ⟨u, s', hstep, hrun, hend⟩

end

/-- A thread inside a guard that wants every signal. -/
def guardedByAll : WinState := { WinState.initial (State.initial fun _ => .dfl).g with
  tss := some {}
  guards := Heap.empty.set 0 (some
    { guarded := fun _ => true, recovery := false, decider := 0, value := 0,
      tssFrontAtEntry := none, winAtEntry := none })
  nextGuard := 1
  calls := [.sigguarded 0 false] }

theorem guardedByAll_run (w : WinPlatform) : Run (winStep w) (fun _ _ => True)
    (.initial (State.initial fun _ => .dfl).g) guardedByAll :=
  .tail (.sigguarded (fun _ => true) false 0 0 {}) (.refl _) trivial rfl

end Wg14Signals
