import Wg14Signals.Lib.Stacks
import Wg14Signals.Proofs.WinTurns

namespace Wg14Signals
open Lib

/-- The `stdc_raise` calls in flight, innermost first, by their locals. -/
def WinState.inFlight (s : WinState) : List Addr := s.calls.filterMap WinCall.raise

/-- The innermost of them. -/
def topRaise (calls : List WinCall) : Option Addr := (calls.filterMap WinCall.raise).head?

/-- Each call found the heads of both chains at the innermost raise outside of it. -/
inductive Woven (guards : Heap WinGuard) (raises : Heap WinRaise) : List WinCall → Prop where
  | nil : Woven guards raises []
  | guard {guard : Addr} {gs : WinGuard} {recovering : Bool} {rest : List WinCall}
      (hg : guards guard = some gs) (hf : gs.tssFrontAtEntry = topRaise rest)
      (hw : gs.winAtEntry = topRaise rest) (h : Woven guards raises rest) :
      Woven guards raises (.sigguarded guard recovering :: rest)
  | raise {x : Exception} {pc : WinPc} {r : Addr} {l : WinRaise} {rest : List WinCall}
      (hx : x.raise = some r) (hl : raises r = some l) (hf : l.prev = topRaise rest)
      (hw : l.winPrev = topRaise rest) (h : Woven guards raises rest) :
      Woven guards raises (.dispatch x pc :: rest)
  | fault {x : Exception} {pc : WinPc} {rest : List WinCall} (hx : x.raise = none)
      (h : Woven guards raises rest) : Woven guards raises (.dispatch x pc :: rest)

section

variable {guards guards' : Heap WinGuard} {raises raises' : Heap WinRaise}
variable {c : WinCall} {calls gone rest : List WinCall} {x : Exception} {pc : WinPc}

@[simp] theorem topRaise_guard {guard : Addr} {recovering : Bool} :
    topRaise (.sigguarded guard recovering :: rest) = topRaise rest := rfl

theorem raises_raise {r : Addr} (hx : x.raise = some r) :
    (WinCall.dispatch x pc :: rest).filterMap WinCall.raise = r :: rest.filterMap WinCall.raise :=
  List.filterMap_cons_some hx

theorem raises_fault (hx : x.raise = none) :
    (WinCall.dispatch x pc :: rest).filterMap WinCall.raise = rest.filterMap WinCall.raise :=
  List.filterMap_cons_none hx

theorem topRaise_raise {r : Addr} (hx : x.raise = some r) :
    topRaise (.dispatch x pc :: rest) = some r := by
  rw [topRaise, raises_raise hx, List.head?_cons]

theorem topRaise_fault (hx : x.raise = none) :
    topRaise (.dispatch x pc :: rest) = topRaise rest := by
  rw [topRaise, raises_fault hx, topRaise]

theorem topRaise_goto {pc' : WinPc} :
    topRaise (.dispatch x pc :: rest) = topRaise (.dispatch x pc' :: rest) := rfl

theorem Woven.tail (h : Woven guards raises (c :: rest)) : Woven guards raises rest := by
  cases h <;> assumption

theorem Woven.suffix (h : Woven guards raises (gone ++ rest)) : Woven guards raises rest := by
  induction gone with
  | nil => exact h
  | cons c gone ih => exact ih h.tail

theorem Woven.goto {pc' : WinPc} (h : Woven guards raises (.dispatch x pc :: rest)) :
    Woven guards raises (.dispatch x pc' :: rest) := by
  cases h with
  | raise hx hl hf hw h => exact .raise hx hl hf hw h
  | fault hx h => exact .fault hx h

/-- Only the entries of the calls themselves count. -/
theorem Woven.congr (h : Woven guards raises calls)
    (hg : ∀ a gs, a ∈ calls.filterMap WinCall.guard → guards a = some gs → ∃ gs',
      guards' a = some gs' ∧ gs'.tssFrontAtEntry = gs.tssFrontAtEntry ∧
        gs'.winAtEntry = gs.winAtEntry)
    (hr : ∀ a l, a ∈ calls.filterMap WinCall.raise → raises a = some l → ∃ l',
      raises' a = some l' ∧ l'.prev = l.prev ∧ l'.winPrev = l.winPrev) :
    Woven guards' raises' calls := by
  induction h with
  | nil => exact .nil
  | @guard a gs recovering rest hgs hf hw _ ih =>
    obtain ⟨gs', hgs', hf', hw'⟩ := hg a gs (by simp [WinCall.guard]) hgs
    refine .guard hgs' (hf'.trans hf) (hw'.trans hw) (ih (fun b gs hb => hg b gs ?_) hr)
    exact List.mem_cons_of_mem _ hb
  | @raise x pc r l rest hx hl hf hw _ ih =>
    obtain ⟨l', hl', hf', hw'⟩ := hr r l (raises_raise hx ▸ List.mem_cons_self) hl
    refine .raise hx hl' (hf'.trans hf) (hw'.trans hw) (ih hg fun b l hb => hr b l ?_)
    rw [raises_raise hx]
    exact List.mem_cons_of_mem _ hb
  | @fault x pc rest hx _ ih =>
    refine .fault hx (ih hg fun b l hb => hr b l ?_)
    rw [raises_fault hx]
    exact hb

/-- Followed through either field, the chain visits the raises in flight. -/
theorem Woven.path (h : Woven guards raises calls) :
    Path raises WinRaise.prev (topRaise calls) (calls.filterMap WinCall.raise) ∧
      Path raises WinRaise.winPrev (topRaise calls) (calls.filterMap WinCall.raise) := by
  induction h with
  | nil => exact ⟨.nil, .nil⟩
  | guard _ _ _ _ ih => exact ih
  | raise hx hl hf hw _ ih =>
    rw [topRaise_raise hx, raises_raise hx]
    exact ⟨.cons hl (hf ▸ ih.1), .cons hl (hw ▸ ih.2)⟩
  | fault hx _ ih =>
    rw [topRaise_fault hx, raises_fault hx]
    exact ih

end

/-- Both chains link the raises in flight, and the calls have objects of their own. -/
structure WinChained (s : WinState) : Prop where
  woven : Woven s.guards s.raises s.calls
  front : s.tss.bind WinTss.front = topRaise s.calls
  initiated : s.tss.bind WinTss.initiated = topRaise s.calls
  ownGuards : Allotted s.nextGuard (s.calls.filterMap WinCall.guard)
  ownRaises : Allotted s.nextRaise (s.calls.filterMap WinCall.raise)
  ownInfos : Allotted s.nextInfo (s.calls.filterMap WinCall.info)

section

variable {w : WinPlatform} {s s' : WinState} {act : WinAction}
variable {x : Exception} {pc : WinPc} {rest : List WinCall}

theorem winChained_initial (g : Global) : WinChained (.initial g) :=
  ⟨.nil, rfl, rfl, .nil _, .nil _, .nil _⟩

theorem WinChained.setG (hi : WinChained s) (g : Global) : WinChained (s.setG g) :=
  ⟨hi.woven, hi.front, hi.initiated, hi.ownGuards, hi.ownRaises, hi.ownInfos⟩

theorem WinChained.setLast (hi : WinChained s) (id : RecordId) (result : Disposition) :
    WinChained (s.setLast id result) :=
  ⟨hi.woven, hi.front, hi.initiated, hi.ownGuards, hi.ownRaises, hi.ownInfos⟩

theorem WinChained.emit (hi : WinChained s) (e : WinEvent) : WinChained (s.emit e) :=
  ⟨hi.woven, hi.front, hi.initiated, hi.ownGuards, hi.ownRaises, hi.ownInfos⟩

theorem WinChained.setInfo (hi : WinChained s) (rsi : Addr) (info : Siginfo) :
    WinChained (s.setInfo rsi info) :=
  ⟨hi.woven, hi.front, hi.initiated, hi.ownGuards, hi.ownRaises, hi.ownInfos⟩

theorem WinChained.dropInfo (hi : WinChained s) (rsi : Addr) : WinChained (s.dropInfo rsi) :=
  ⟨hi.woven, hi.front, hi.initiated, hi.ownGuards, hi.ownRaises, hi.ownInfos⟩

/-- The `rsi` of a guard is none of its entries. -/
theorem WinChained.setGuard (hi : WinChained s) {guard : Addr} {gs : WinGuard} (gs' : WinGuard)
    (hg : s.guards guard = some gs) (hf : gs'.tssFrontAtEntry = gs.tssFrontAtEntry)
    (hw : gs'.winAtEntry = gs.winAtEntry) : WinChained (s.setGuard guard gs') := by
  refine ⟨hi.woven.congr (fun a old _ hold => ?_) fun a l _ hl => ⟨l, hl, rfl, rfl⟩, hi.front,
    hi.initiated, hi.ownGuards, hi.ownRaises, hi.ownInfos⟩
  by_cases ha : a = guard
  · subst ha
    obtain rfl := Option.some.inj (hg.symm.trans hold)
    exact ⟨gs', Heap.set_self _ _ _, hf, hw⟩
  · exact ⟨old, (Heap.set_other _ _ ha).trans hold, rfl, rfl⟩

theorem WinChained.mark (hi : WinChained s) {record : ExceptionRecord} {f : WinRaise → WinRaise}
    (hf : ∀ l, (f l).prev = l.prev) (hw : ∀ l, (f l).winPrev = l.winPrev) :
    WinChained (s.mark record f) := by
  refine ⟨hi.woven.congr (fun a gs _ hg => ⟨gs, hg, rfl, rfl⟩) fun a l _ hl => ?_, hi.front,
    hi.initiated, hi.ownGuards, hi.ownRaises, hi.ownInfos⟩
  by_cases h : s.tss.bind WinTss.initiated = some a ∧ s.owns record = true
  · exact ⟨f l, (if_pos h).trans (congrArg (Option.map f) hl), hf l, hw l⟩
  · exact ⟨l, (if_neg h).trans hl, rfl, rfl⟩

theorem decline_entry (l : WinRaise) :
    l.decline.prev = l.prev ∧ l.decline.winPrev = l.winPrev := by
  unfold WinRaise.decline
  split <;> exact ⟨rfl, rfl⟩

theorem WinChained.declined (hi : WinChained s) (record : ExceptionRecord) :
    WinChained (s.declined record) :=
  (hi.mark (fun l => (decline_entry l).1) fun l => (decline_entry l).2).setLast _ _

/-- The dispatch goes on to where it holds no other objects. -/
theorem WinChained.goto (hi : WinChained s) {p q : WinPc} (hc : s.calls = .dispatch x p :: rest)
    (hinfo : ∀ a, (WinCall.dispatch x q).info = some a → (WinCall.dispatch x p).info = some a) :
    WinChained (s.goto (.dispatch x q :: rest)) := by
  obtain ⟨hwov, hf, hw, hg, hr, hinf⟩ := hi
  rw [hc] at hwov hf hw hg hr hinf
  refine ⟨hwov.goto, hf, hw, hg, hr, hinf.sublist ?_⟩
  cases h' : (WinCall.dispatch x q).info with
  | none =>
    rw [WinState.goto_calls, List.filterMap_cons_none h']
    exact (List.sublist_cons_self _ rest).filterMap _
  | some a =>
    rw [WinState.goto_calls, List.filterMap_cons_some h', List.filterMap_cons_some (hinfo a h')]

/-- The objects of the calls that are left are not discarded. -/
theorem WinChained.unwind (hi : WinChained s) (gone : List WinCall)
    (hc : s.calls = gone ++ rest) :
    Woven (s.discard gone).guards (s.discard gone).raises rest ∧
      Allotted s.nextGuard (rest.filterMap WinCall.guard) ∧
      Allotted s.nextRaise (rest.filterMap WinCall.raise) ∧
      Allotted s.nextInfo (rest.filterMap WinCall.info) := by
  obtain ⟨hwov, -, -, hg, hr, hinf⟩ := hi
  rw [hc] at hwov
  rw [hc, List.filterMap_append] at hg hr hinf
  refine ⟨hwov.suffix.congr (fun a gs ha hgs => ⟨gs, ?_, rfl, rfl⟩)
    (fun a l ha hl => ⟨l, ?_, rfl, rfl⟩), hg.sublist (List.sublist_append_right _ _),
    hr.sublist (List.sublist_append_right _ _), hinf.sublist (List.sublist_append_right _ _)⟩
  · exact (if_neg (hg.apart ha)).trans hgs
  · exact (if_neg (hr.apart ha)).trans hl

theorem WinChained.setTss (hi : WinChained s) {t : Option WinTss}
    (ht : t = s.tss ∨ s.tss = none ∧ t = some {}) :
    t.bind WinTss.front = topRaise s.calls ∧ t.bind WinTss.initiated = topRaise s.calls := by
  rcases ht with rfl | ⟨hn, rfl⟩
  · exact ⟨hi.front, hi.initiated⟩
  · have hf := hi.front
    rw [hn] at hf
    exact ⟨hf, hf⟩

theorem WinChained.setUp (hi : WinChained s) {tss : WinTss} (ht : s.SetUp tss) :
    tss.front = topRaise s.calls ∧ tss.initiated = topRaise s.calls :=
  hi.setTss (t := some tss) (ht.imp Eq.symm fun h => ⟨h.1, congrArg some h.2⟩)

theorem WinChained.resumes (hi : WinChained s) (hc : s.calls = .dispatch x pc :: rest)
    (h : Resumes s x rest s') : WinChained s' := by
  cases h with
  | fault hx =>
    obtain ⟨hwov, hf, hw, hg, hr, hinf⟩ := hi
    rw [hc] at hwov hf hw hg hr hinf
    rw [topRaise_fault hx] at hf hw
    rw [raises_fault hx] at hr
    exact ⟨hwov.tail, hf, hw, hg, hr, hinf.sublist ((List.sublist_cons_self _ rest).filterMap _)⟩
  | raise r l tss hx hl ht =>
    obtain ⟨hwov, hg, hr, hinf⟩ := hi.unwind [.dispatch x pc] hc
    have hdisc : (s.discard [.dispatch x .continuing]).raises =
        (s.discard [.dispatch x pc]).raises := rfl
    have hent : l.prev = topRaise rest ∧ l.winPrev = topRaise rest := by
      have hall := hi.woven
      rw [hc] at hall
      cases hall with
      | raise hx' hl' hf hw _ =>
        obtain rfl := Option.some.inj (hx.symm.trans hx')
        obtain rfl := Option.some.inj (hl.symm.trans hl')
        exact ⟨hf, hw⟩
      | fault hx' _ => rw [hx] at hx'; cases hx'
    exact ⟨hdisc ▸ hwov, hent.1, hent.2, hg, hr, hinf⟩

theorem WinChained.passReturns {hook : WinHook} {result : Disposition} {p : WinPc}
    (hi : WinChained s) (hc : s.calls = .dispatch x p :: rest) (h : PassReturns s x rest hook result s') :
    WinChained s' := by
  cases h with
  | continues => exact hi.goto hc (by simp [WinCall.info])
  | terminates => exact (hi.goto hc (by simp [WinCall.info])).emit _
  | resumes result s' hr => exact (hi.setLast {} s.lastResult).resumes hc hr

/-- An exception is raised by nobody, or by the raise whose locals come next. -/
theorem WinChained.pushFault (hi : WinChained s) {n : Addr} {todo : List Addr}
    (hx : x.raise = none) :
    WinChained { s with nextException := n, calls := .dispatch x (.filters todo) :: s.calls } := by
  refine ⟨.fault hx hi.woven, hi.front.trans (topRaise_fault hx).symm,
    hi.initiated.trans (topRaise_fault hx).symm, hi.ownGuards, ?_, hi.ownInfos⟩
  simp only [raises_fault hx]
  exact hi.ownRaises

theorem hooked_calls {hook : WinHook} {last : RecordId} (hh : Hooked s x rest hook last) :
    ∃ pc, s.calls = .dispatch x pc :: rest ∧ (WinCall.dispatch x pc).info = none := by
  cases hh with
  | filter hc => exact ⟨_, hc, rfl⟩
  | handler hc => exact ⟨_, hc, rfl⟩

theorem WinChained.step (hi : WinChained s) (h : WinTurn w s act s') : WinChained s' := by
  cases h with
  | elsewhere g => exact hi.setG g
  | quits _ tss e ha he ht hu =>
    exact ⟨hi.woven, (hi.setTss ht).1, (hi.setTss ht).2, hi.ownGuards, hi.ownRaises, hi.ownInfos⟩
  | guard signals recovery decider value env tss gs ht hu hgs =>
    obtain ⟨hf, hw⟩ := hi.setUp ht
    have hwov : Woven (s.guards.set s.nextGuard (some gs)) s.raises s.calls :=
      hi.woven.congr (fun a gs ha hgs => ⟨gs, by
        rw [Heap.set_other _ _ (hi.ownGuards.fresh ha), hgs], rfl, rfl⟩)
        fun a l _ hl => ⟨l, hl, rfl, rfl⟩
    exact ⟨.guard (Heap.set_self _ _ _) (hgs ▸ hf) (hgs ▸ hw) hwov, hf, hw, hi.ownGuards.push,
      hi.ownRaises, hi.ownInfos⟩
  | raise signo info context env tss x l ht hu hs hl hx =>
    obtain ⟨hf, hw⟩ := hi.setUp ht
    have hx : x.raise = some s.nextRaise := by rw [hx]
    have hwov : Woven s.guards (s.raises.set s.nextRaise (some l)) s.calls :=
      hi.woven.congr (fun a gs _ hgs => ⟨gs, hgs, rfl, rfl⟩) fun a l ha hl => ⟨l, by
        rw [Heap.set_other _ _ (hi.ownRaises.fresh ha), hl], rfl, rfl⟩
    exact ⟨.raise hx (Heap.set_self _ _ _) (hl ▸ hf) (hl ▸ hw) hwov, (topRaise_raise hx).symm,
      (topRaise_raise hx).symm, hi.ownGuards, raises_raise hx ▸ hi.ownRaises.push, hi.ownInfos⟩
  | fault record x hu hx => exact hi.pushFault (by rw [hx])
  | skip x guard gs todo rest hc => exact hi.goto hc (by simp [WinCall.info])
  | exhausted x rest hc => exact hi.goto hc (by simp [WinCall.info])
  | debugged x rest hc => exact hi.goto hc (by simp [WinCall.info])
  | ask x guard gs todo rest tss rsi hc hg =>
    exact ((hi.setGuard { gs with rsi } hg rfl rfl).goto hc
      (by simp [WinCall.info])).emit _
  | decline x guard todo rest d hc => exact hi.goto hc (by simp [WinCall.info])
  | claim x guard todo rest hc =>
    exact (((hi.mark (f := WinRaise.claim) (fun _ => rfl) fun _ => rfl).setLast _ _).goto hc
      (by simp [WinCall.info])).emit _
  | recover x guard gs todo gone rest tss hgone hc hg =>
    obtain ⟨hwov, hgs, hr, hinf⟩ := hi.unwind (.dispatch x (.asking guard todo) :: gone) hc
    have hent : gs.tssFrontAtEntry = topRaise rest ∧ gs.winAtEntry = topRaise rest := by
      have hall := hi.woven
      rw [hc] at hall
      cases hall.tail.suffix with
      | guard hg' hf hw _ =>
        obtain rfl := Option.some.inj (hg.symm.trans hg')
        exact ⟨hf, hw⟩
    refine ⟨?_, hent.1, hent.2, hgs, hr, hinf⟩
    cases hwov with
    | guard hg' hf hw h => exact .guard hg' hf hw h
  | unsupported hook x rest last s' hh hx hr =>
    obtain ⟨pc, hc, -⟩ := hooked_calls hh
    exact (hi.setLast last s.lastResult).passReturns hc hr
  | askFirst hook x item current value sa g info last rest hh he hinfo =>
    obtain ⟨pc, hc, hn⟩ := hooked_calls hh
    obtain ⟨hwov, hf, hw, hg, hr, hinf⟩ := hi
    rw [hc] at hwov hf hw hg hr hinf
    rw [List.filterMap_cons_none hn] at hinf
    exact ⟨hwov.goto, hf, hw, hg, hr, hinf.push⟩
  | nobody hook x e g last rest s' hh he hn hr =>
    obtain ⟨pc, hc, -⟩ := hooked_calls hh
    exact (((hi.setLast last s.lastResult).setG g).declined _).passReturns hc hr
  | askNext d hook x item current next rsi value g old info rest hc =>
    exact (((hi.setG g).setInfo rsi info).goto (p := .deciding hook item current rsi)
      (q := .deciding hook item next rsi) hc fun a ha => ha).emit _
  | exhaust d hook x item current rsi g rest s' hc hd he hr =>
    exact (((hi.setG g).dropInfo rsi).declined _).passReturns
      (p := .deciding hook item current rsi) hc hr
  | jump d hook x y pc item current rsi r g tss l gone rest rest' hd htop he ht hf hgone hc hy
      hl =>
    obtain ⟨hwov, hg, hr, hinf⟩ := hi.unwind (gone ++ [.dispatch y pc])
      (by rw [hc, List.append_assoc, List.singleton_append])
    have hent : l.prev = topRaise rest ∧ l.winPrev = topRaise rest := by
      have hall := hi.woven
      rw [hc] at hall
      cases hall.suffix with
      | raise hx' hl' hf hw _ =>
        obtain rfl := Option.some.inj (hy.symm.trans hx')
        obtain rfl := Option.some.inj (hl.symm.trans hl')
        exact ⟨hf, hw⟩
      | fault hx' _ => rw [hy] at hx'; cases hx'
    exact ⟨hwov, hent.1, hent.2, hg, hr, hinf⟩
  | settle d hook x item current rsi g rest s' hd hc he hf hr =>
    exact ((((hi.setG g).emit _).dropInfo rsi).setLast _ _).passReturns
      (p := .deciding hook item current rsi) hc hr
  | goesOn x rest s' hc hm hr => exact (hi.setLast {} s.lastResult).resumes hc hr
  | write info x guard todo gs rest hc hg =>
    exact hi.setGuard { gs with rsi := { gs.rsi with toPublicInfo := info } } hg rfl rfl
  | writeGlobal info x hook item current rsi old rest hc => exact hi.setInfo rsi _
  | ret value guard recovering rest hc =>
    obtain ⟨hwov, hg, hr, hinf⟩ := hi.unwind [.sigguarded guard recovering] hc
    have hf := hi.front
    have hw := hi.initiated
    rw [hc, topRaise_guard] at hf hw
    exact ⟨hwov, hf, hw, hg, hr, hinf⟩

theorem WinChained.run {ok : WinState → WinAction → Prop} (hi : WinChained s)
    (hr : Run (winStep w) ok s s') : WinChained s' :=
  hr.invariant hi fun _ _ _ hi _ h => hi.step (winStep_turns h)

end

/-- A call of `stdc_raise` or `sigguarded`, from the state it is made in to the one it has returned
in. A call that is unwound does not return. -/
inductive WinReturns (w : WinPlatform) (s : WinState) : WinState → Prop where
  /-- It raises nothing, or guards nothing. -/
  | failed (act : WinAction) {s' : WinState} (hact : act.calls = true)
      (h : winStep w s act = .ok s') (hc : s'.calls = s.calls) : WinReturns w s s'
  | ran (act back : WinAction) {inner last s' : WinState} (hact : act.calls = true)
      (h : winStep w s act = .ok inner)
      (hr : Run (winStep w) (fun u _ => s.calls.length < u.calls.length) inner last)
      (hlast : s.calls.length < last.calls.length) (hret : winStep w last back = .ok s')
      (hc : s'.calls = s.calls) : WinReturns w s s'

section

variable {w : WinPlatform} {s s' : WinState}

theorem WinReturns.chained (hi : WinChained s) (h : WinReturns w s s') :
    WinChained s' ∧ s'.calls = s.calls := by
  cases h with
  | failed act _ hs hc => exact ⟨hi.step (winStep_turns hs), hc⟩
  | ran act back _ hs hr _ hret hc =>
    exact ⟨((hi.step (winStep_turns hs)).run hr).step (winStep_turns hret), hc⟩

end

/-- At any time, so also when a decider is called, both chains of the thread list the `stdc_raise`
calls in flight, innermost first; and a call of `stdc_raise` or `sigguarded` that returns leaves
the heads of both as it found them. -/
theorem raise_chain_discipline (w : WinPlatform) (g : Global) {s : WinState}
    (hr : Run (winStep w) (fun _ _ => True) (.initial g) s) :
    (Path s.raises WinRaise.prev (s.tss.bind WinTss.front) s.inFlight ∧
      Path s.raises WinRaise.winPrev (s.tss.bind WinTss.initiated) s.inFlight) ∧
    ∀ s', WinReturns w s s' → s'.tss.bind WinTss.front = s.tss.bind WinTss.front ∧
      s'.tss.bind WinTss.initiated = s.tss.bind WinTss.initiated := by
  have hi : WinChained s := (winChained_initial g).run hr
  refine ⟨?_, fun s' h => ?_⟩
  · rw [hi.front, hi.initiated]
    exact hi.woven.path
  · obtain ⟨hi', hc⟩ := h.chained hi
    rw [hi'.front, hi'.initiated, hi.front, hi.initiated, hc]
    exact ⟨rfl, rfl⟩

/-- The decider of a guard raises another signal, which an inner guard recovers from. -/
theorem raise_chain_discipline_nested :
    ∃ s s', Run (winStep .headers) (fun _ _ => True)
        (.initial (State.initial fun _ => .dfl).g) s ∧ s.inFlight = [0] ∧
      WinReturns .headers s s' ∧ s'.tss.bind WinTss.front = some 0 ∧
      s'.tss.bind WinTss.initiated = some 0 ∧ Path s'.raises WinRaise.prev (some 0) [0] := by
  obtain ⟨s, hr, hq⟩ := run_of_ends (f := winStep .headers) (r := fun _ _ => True)
    (s := .initial (State.initial fun _ => .dfl).g) (c := fun _ _ => true)
    (q := fun s => s.inFlight == [0] && s.tss.bind WinTss.front == some 0 &&
      s.tss.bind WinTss.initiated == some 0 &&
      okAnd (winStep .headers s (.sigguarded (· == 4) true 1 7 {})) fun inner =>
        ends (winStep .headers) (fun u _ => decide (s.calls.length < u.calls.length))
          (fun last => decide (s.calls.length < last.calls.length) &&
            okAnd (winStep .headers last (.ret 5)) fun s' => s'.calls == s.calls)
          inner [.raise 4 none none {}, .advance, .decide .callRecovery])
    (l := [.sigguarded (· == 8) true 0 3 {}, .raise 8 none none {}, .advance])
    (fun _ _ _ => trivial) (by decide +kernel)
  simp only [Bool.and_eq_true, beq_iff_eq, okAnd_iff] at hq
  obtain ⟨⟨⟨hfl, hfront⟩, hinit⟩, inner, hinner, hends⟩ := hq
  obtain ⟨last, hrun, hlast⟩ := run_of_ends
    (r := fun (u : WinState) _ => s.calls.length < u.calls.length)
    (fun _ _ h => of_decide_eq_true h) hends
  simp only [Bool.and_eq_true, decide_eq_true_eq, beq_iff_eq, okAnd_iff] at hlast
  obtain ⟨hlen, s', hret, hcalls⟩ := hlast
  have hreturns : WinReturns .headers s s' :=
    .ran (.sigguarded (· == 4) true 1 7 {}) (.ret 5) rfl hinner hrun hlen hret hcalls
  obtain ⟨hf, hw⟩ := (raise_chain_discipline .headers _ hr).2 s' hreturns
  have hs' : Run (winStep .headers) (fun _ _ => True) (.initial (State.initial fun _ => .dfl).g) s' :=
    ((hr.tail _ trivial hinner).trans (hrun.mono fun _ _ _ => trivial)).tail _ trivial hret
  obtain ⟨hpath, -⟩ := (raise_chain_discipline .headers _ hs').1
  rw [hf, hfront, WinState.inFlight, hcalls, ← WinState.inFlight, hfl] at hpath
  exact ⟨s, s', hr, hfl, hreturns, hf.trans hfront, hw.trans hinit, hpath⟩

end Wg14Signals
