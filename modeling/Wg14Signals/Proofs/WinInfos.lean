import Wg14Signals.Proofs.WinChains

namespace Wg14Signals
open Lib

/-- The guard whose decider is running in the call. -/
def WinCall.asks : WinCall → Option Addr
  | .dispatch _ (.asking guard _) => some guard
  | _ => none

/-- The guards a dispatch has to do with until its filters have been run. -/
def WinCall.aims : WinCall → List Addr
  | .dispatch _ (.filters todo) => todo
  | .dispatch _ (.asking guard todo) => guard :: todo
  | _ => []

/-- An exception that the guard's decider is wanted for reaches its filter, while that decider is
still running for an earlier one. -/
def WinState.reentersGuard (w : WinPlatform) (s : WinState) : WinAction → Bool
  | .advance =>
    match s.calls with
    | .dispatch x (.filters (guard :: _)) :: rest =>
      (s.guards guard).any (fun gs =>
        sigismember gs.guarded (signalFromWin32ExceptionCode w x.record.code)) &&
        decide (guard ∈ rest.filterMap WinCall.asks)
    | _ => false
  | _ => false

def WinAction.writes : WinAction → Bool
  | .write _ => true
  | _ => false

/-- The calls of `s` are all in progress still, and the innermost of them does not write to its
`stdc_siginfo`. -/
def WinAmid (s u : WinState) (act : WinAction) : Prop :=
  s.calls <:+ u.calls ∧ (u.calls = s.calls → act.writes = false)

/-- A dispatch runs filters of the guards outside of it. -/
def Aimed (calls : List WinCall) : Prop :=
  ∀ c rest, c :: rest <:+ calls → ∀ a ∈ c.aims, a ∈ rest.filterMap WinCall.tries

section

variable {guard : Addr} {c c' : WinCall} {calls gone rest : List WinCall}

theorem Aimed.suffix (h : Aimed calls) (hs : rest <:+ calls) : Aimed rest :=
  fun c l hc => h c l (hc.trans hs)

theorem Aimed.cons (h : Aimed rest) (hc : ∀ a ∈ c.aims, a ∈ rest.filterMap WinCall.tries) :
    Aimed (c :: rest) := by
  intro d l hs
  rcases List.suffix_cons_iff.mp hs with heq | hs
  · obtain ⟨rfl, rfl⟩ := List.cons.inj heq
    exact hc
  · exact h d l hs

theorem Aimed.turn (h : Aimed (c :: rest)) (hc : ∀ a ∈ c'.aims, a ∈ c.aims) :
    Aimed (c' :: rest) :=
  (h.suffix (List.suffix_cons c rest)).cons fun a ha => h c rest (List.suffix_refl _) a (hc a ha)

theorem tries_guard (h : c.tries = some guard) : c.guard = some guard := by
  cases c with
  | dispatch => cases h
  | sigguarded a recovering =>
    cases recovering with
    | false => exact h
    | true => cases h

theorem asks_aims (h : c.asks = some guard) : guard ∈ c.aims := by
  cases c with
  | sigguarded => cases h
  | dispatch x pc =>
    cases pc <;> simp only [WinCall.asks, reduceCtorEq, Option.some.injEq] at h
    exact h ▸ List.mem_cons_self

/-- The guard whose decider is running has its `sigguarded` call in progress. -/
theorem Aimed.in_progress (h : Aimed calls) (hm : guard ∈ calls.filterMap WinCall.asks) :
    guard ∈ calls.filterMap WinCall.guard := by
  obtain ⟨c, hc, hasks⟩ := List.mem_filterMap.mp hm
  obtain ⟨l, rest, rfl⟩ := List.append_of_mem hc
  have htry := h c rest (List.suffix_append l _) guard (asks_aims hasks)
  obtain ⟨d, hd, htries⟩ := List.mem_filterMap.mp htry
  exact List.mem_filterMap.mpr ⟨d, by simp [hd], tries_guard htries⟩

end

/-- Each guard's decider runs once at a time. -/
structure WinApart (s : WinState) : Prop where
  aimed : Aimed s.calls
  once : (s.calls.filterMap WinCall.asks).Nodup

section

variable {w : WinPlatform} {s s' : WinState} {act : WinAction} {guard : Addr}
variable {x : Exception} {c c' : WinCall} {base gone rest : List WinCall}

theorem winApart_initial (g : Global) : WinApart (.initial g) :=
  ⟨by simp [Aimed, WinState.initial], by simp [WinState.initial]⟩

theorem WinApart.same (hi : WinApart s) (hc : s'.calls = s.calls) : WinApart s' :=
  ⟨hc ▸ hi.aimed, hc ▸ hi.once⟩

theorem WinApart.turn (hi : WinApart s) (hc : s.calls = c :: rest) (hc' : s'.calls = c' :: rest)
    (ha : ∀ a ∈ c'.aims, a ∈ c.aims) (hasks : c'.asks = none) : WinApart s' := by
  obtain ⟨haimed, honce⟩ := hi
  rw [hc] at haimed honce
  refine ⟨hc' ▸ haimed.turn ha, ?_⟩
  rw [hc', List.filterMap_cons_none hasks]
  exact honce.sublist ((List.sublist_cons_self c rest).filterMap _)

theorem WinApart.push (hi : WinApart s) (hc' : s'.calls = c :: s.calls)
    (ha : ∀ a ∈ c.aims, a ∈ s.calls.filterMap WinCall.tries) (hasks : c.asks = none) :
    WinApart s' := by
  refine ⟨hc' ▸ hi.aimed.cons ha, ?_⟩
  rw [hc', List.filterMap_cons_none hasks]
  exact hi.once

theorem WinApart.pop (hi : WinApart s) (gone : List WinCall) (hc : s.calls = gone ++ rest)
    (hc' : s'.calls = rest) :
    WinApart s' where
  aimed := hc' ▸ hi.aimed.suffix (hc ▸ List.suffix_append gone rest)
  once := by
    rw [hc']
    refine hi.once.sublist ((hc ▸ List.sublist_append_right gone rest :
      rest.Sublist s.calls).filterMap _)

theorem resumes_below (h : Resumes s x rest s') : s'.calls = rest ∧ ∀ a, s'.guards a = s.guards a := by
  cases h with
  | fault => exact ⟨rfl, fun _ => rfl⟩
  | raise => exact ⟨rfl, fun a => by simp [WinCall.guard]⟩

/-- What becomes of the dispatch whose pass has come to its end. -/
theorem passReturns_below {hook : WinHook} {result : Disposition}
    (h : PassReturns s x rest hook result s') :
    (s'.calls = rest ∨ ∃ pc, s'.calls = .dispatch x pc :: rest ∧
      (WinCall.dispatch x pc).aims = [] ∧ (WinCall.dispatch x pc).asks = none) ∧
      ∀ a, s'.guards a = s.guards a := by
  cases h with
  | continues => exact ⟨.inr ⟨_, rfl, rfl, rfl⟩, fun _ => rfl⟩
  | terminates => exact ⟨.inr ⟨_, rfl, rfl, rfl⟩, fun _ => rfl⟩
  | resumes result s' hr => exact ⟨.inl (resumes_below hr).1, (resumes_below hr).2⟩

theorem WinApart.passReturns {u : WinState} {hook : WinHook} {result : Disposition}
    (hi : WinApart s) (hc : s.calls = c :: rest) (h : PassReturns u x rest hook result s') :
    WinApart s' := by
  rcases (passReturns_below h).1 with hc' | ⟨pc, hc', ha, hasks⟩
  · exact hi.pop [c] hc hc'
  · exact hi.turn hc hc' (by simp [ha]) hasks

theorem WinApart.step (hi : WinApart s) (hn : s.reentersGuard w act = false)
    (h : WinTurn w s act s') : WinApart s' := by
  cases h with
  | elsewhere | quits | write | writeGlobal => exact hi.same rfl
  | guard => exact hi.push rfl (by simp [WinCall.aims]) rfl
  | raise => exact hi.push rfl (fun _ ha => ha) rfl
  | fault => exact hi.push rfl (fun _ ha => ha) rfl
  | skip x guard gs todo rest hc =>
    exact hi.turn hc rfl (fun a ha => List.mem_cons_of_mem _ ha) rfl
  | exhausted x rest hc => exact hi.turn hc rfl (by simp [WinCall.aims]) rfl
  | debugged x rest hc => exact hi.turn hc rfl (by simp [WinCall.aims]) rfl
  | ask x guard gs todo rest tss rsi hc hg hset =>
    obtain ⟨haimed, honce⟩ := hi
    rw [hc] at haimed honce
    refine ⟨haimed.turn fun a ha => ha, List.nodup_cons.mpr ⟨?_, honce⟩⟩
    simpa [WinState.reentersGuard, hc, hg, hset] using hn
  | decline x guard todo rest d hc =>
    exact hi.turn hc rfl (fun a ha => List.mem_cons_of_mem _ ha) rfl
  | claim x guard todo rest hc => exact hi.turn hc rfl (by simp [WinCall.aims]) rfl
  | recover x guard gs todo gone rest tss hgone hc =>
    have hp : WinApart (s.goto rest) :=
      hi.pop (.dispatch x (.asking guard todo) :: (gone ++ [.sigguarded guard false]))
        (by rw [hc]; simp) rfl
    exact hp.push (c := .sigguarded guard true) rfl (by simp [WinCall.aims]) rfl
  | unsupported hook x rest last s' hh hx hr =>
    obtain ⟨pc, hc, -⟩ := hooked_calls hh
    exact hi.passReturns hc hr
  | askFirst hook x item current value sa g info last rest hh =>
    obtain ⟨pc, hc, -⟩ := hooked_calls hh
    exact hi.turn hc rfl (by simp [WinCall.aims]) rfl
  | nobody hook x e g last rest s' hh he hn hr =>
    obtain ⟨pc, hc, -⟩ := hooked_calls hh
    exact hi.passReturns hc hr
  | askNext d hook x item current next rsi value g old info rest hc =>
    exact hi.turn hc rfl (by simp [WinCall.aims]) rfl
  | exhaust d hook x item current rsi g rest s' hc hd he hr => exact hi.passReturns hc hr
  | jump d hook x y pc item current rsi r g tss l gone rest rest' hd htop he ht hf hgone hc =>
    exact hi.pop (gone ++ [.dispatch y pc]) (by rw [hc]; simp) rfl
  | settle d hook x item current rsi g rest s' hd hc he hf hr => exact hi.passReturns hc hr
  | goesOn x rest s' hc hm hr => exact hi.pop [_] hc (resumes_below hr).1
  | ret value guard recovering rest hc => exact hi.pop [_] hc rfl

/-- The `stdc_siginfo` of a guard whose decider is running is written by that decider alone. -/
theorem WinTurn.rsi_kept (hch : WinChained s) (hi : WinApart s) (h : WinTurn w s act s')
    (hb : base <:+ s.calls) (hb' : base <:+ s'.calls) (hm : guard ∈ base.filterMap WinCall.asks)
    (hown : s.calls = base → act.writes = false) (hn : s.reentersGuard w act = false) :
    (s'.guards guard).map WinGuard.rsi = (s.guards guard).map WinGuard.rsi := by
  have hasks : guard ∈ s.calls.filterMap WinCall.asks := (hb.sublist.filterMap _).subset hm
  have hbelow : guard ∈ base.filterMap WinCall.guard := (hi.aimed.suffix hb).in_progress hm
  have hguard : guard ∈ s.calls.filterMap WinCall.guard := (hb.sublist.filterMap _).subset hbelow
  -- what is discarded is not among the calls that are left
  have left : ∀ {gone : List WinCall}, s.calls.filterMap WinCall.guard =
      gone.filterMap WinCall.guard ++ s'.calls.filterMap WinCall.guard →
      guard ∉ gone.filterMap WinCall.guard := by
    intro gone hs
    exact (hs ▸ hch.ownGuards).apart ((hb'.sublist.filterMap _).subset hbelow)
  have passed : ∀ {u : WinState} {x : Exception} {rest : List WinCall} {hook : WinHook}
      {result : Disposition}, PassReturns u x rest hook result s' → u.guards = s.guards →
      (s'.guards guard).map WinGuard.rsi = (s.guards guard).map WinGuard.rsi := by
    intro u x rest hook result hr hu
    rw [(passReturns_below hr).2, hu]
  cases h with
  | elsewhere | quits | raise | fault | skip | exhausted | debugged | decline | claim | askFirst |
      askNext | writeGlobal => rfl
  | guard =>
    exact congrArg (Option.map _) (Heap.set_other _ _ (hch.ownGuards.fresh hguard))
  | ask x a gs todo rest tss rsi hc hg hset =>
    have hne : guard ≠ a := by
      rintro rfl
      rw [hc, List.filterMap_cons_none rfl] at hasks
      simp [WinState.reentersGuard, hc, hg, hset, hasks] at hn
    exact congrArg (Option.map _) (Heap.set_other _ _ hne)
  | recover x a gs todo gone rest tss hgone hc =>
    refine congrArg (Option.map _) (if_neg (left ?_))
    rw [hc, ← List.cons_append, List.filterMap_append]
    rfl
  | unsupported hook x rest last s' hh hx hr => exact passed hr rfl
  | nobody hook x e g last rest s' hh he hn hr => exact passed hr rfl
  | exhaust d hook x item current rsi g rest s' hc hd he hr => exact passed hr rfl
  | jump d hook x y pc item current rsi r g tss l gone rest rest' hd htop he ht hf hgone hc =>
    refine congrArg (Option.map _) (if_neg (left ?_))
    rw [hc, List.append_cons, List.filterMap_append]
    rfl
  | settle d hook x item current rsi g rest s' hd hc he hf hr => exact passed hr rfl
  | goesOn x rest s' hc hm hr => rw [(resumes_below hr).2]; rfl
  | write info x a todo gs rest hc hg =>
    have hne : guard ≠ a := by
      rintro rfl
      have honce := hi.once
      rw [hc] at hb honce hasks
      rcases List.suffix_cons_iff.mp hb with heq | hb
      · have := hown (hc.trans heq.symm)
        cases this
      · exact (List.nodup_cons.mp honce).1 ((hb.sublist.filterMap _).subset hm)
    exact congrArg (Option.map _) (Heap.set_other _ _ hne)
  | ret value a recovering rest hc =>
    refine congrArg (Option.map _) (if_neg (left ?_))
    rw [hc]
    rfl

theorem rsi_kept_run (hch : WinChained s) (hi : WinApart s)
    (hr : Run (winStep w) (fun u act => WinAmid s u act ∧ u.reentersGuard w act = false) s s')
    (hb : s.calls <:+ s'.calls) (hm : guard ∈ s.calls.filterMap WinCall.asks) :
    WinChained s' ∧ WinApart s' ∧
      (s'.guards guard).map WinGuard.rsi = (s.guards guard).map WinGuard.rsi := by
  induction hr with
  | refl => exact ⟨hch, hi, rfl⟩
  | tail a _ ha hs ih =>
    obtain ⟨⟨hbelow, hown⟩, hn⟩ := ha
    obtain ⟨hchu, hiu, hu⟩ := ih hbelow
    have turn := winStep_turns hs
    exact ⟨hchu.step turn, hiu.step hn turn,
      (turn.rsi_kept hchu hiu hbelow hb hm hown hn).trans hu⟩

/-- The program's own code is called. -/
def WinEvent.callsUser : WinEvent → Bool
  | .asked _ _ _ => true
  | .recovered _ _ => true
  | _ => false

/-- The step calls none of the program's code. -/
def Unheard (s s' : WinState) : Prop :=
  ∃ es, s'.trace = es ++ s.trace ∧ ∀ e ∈ es, e.callsUser = false

theorem Unheard.not_called (h : Unheard s s') {e : WinEvent} {l : List WinEvent}
    (ht : s'.trace = e :: (l ++ s.trace)) (he : e.callsUser = true) : False := by
  obtain ⟨es, hes, hq⟩ := h
  rw [hes, ← List.cons_append] at ht
  have := hq e (List.append_cancel_right ht ▸ List.mem_cons_self)
  rw [he] at this
  cases this

theorem Unheard.none (h : s'.trace = s.trace) : Unheard s s' := ⟨[], h, by simp⟩

theorem Unheard.one {e : WinEvent} (h : s'.trace = e :: s.trace) (he : e.callsUser = false) :
    Unheard s s' :=
  ⟨[e], h, by simpa using he⟩

theorem Unheard.trans {u : WinState} (h : Unheard s u) (h' : Unheard u s') : Unheard s s' := by
  obtain ⟨es, ht, he⟩ := h
  obtain ⟨es', ht', he'⟩ := h'
  refine ⟨es' ++ es, by rw [ht', ht, List.append_assoc], fun e hm => ?_⟩
  exact (List.mem_append.mp hm).elim (he' e) (he e)

theorem resumes_unheard (h : Resumes s x rest s') : Unheard s s' := by
  cases h <;> exact .one rfl rfl

theorem passReturns_unheard {hook : WinHook} {result : Disposition}
    (h : PassReturns s x rest hook result s') : Unheard s s' := by
  cases h with
  | continues => exact .none rfl
  | terminates => exact .one rfl rfl
  | resumes result s' hr => exact resumes_unheard (s := s.setLast {} s.lastResult) hr

/-- What the program hears of a step. -/
inductive Hears (s s' : WinState) : Prop where
  | nothing (h : Unheard s s')
  | asksGuard (x : Exception) (guard : Addr) (todo : List Addr) (rest : List WinCall)
      (gs : WinGuard) (hc : s'.calls = .dispatch x (.asking guard todo) :: rest)
      (hg : s'.guards guard = some gs)
      (ht : s'.trace = .asked x (.frame guard) gs.rsi :: s.trace)
  | asksGlobal (x : Exception) (current : Addr) (info : Siginfo)
      (ht : s'.trace = .asked x (.global current) info :: s.trace)
  | recovers (x : Exception) (guard : Addr) (todo : List Addr) (rest : List WinCall)
      (gs : WinGuard) (hc : s.calls = .dispatch x (.asking guard todo) :: rest)
      (hg : s.guards guard = some gs)
      (ht : s'.trace = .recovered guard gs.rsi :: .claimed x (.frame guard) :: s.trace)

theorem WinTurn.hears (h : WinTurn w s act s') : Hears s s' := by
  cases h with
  | elsewhere | guard | raise | fault | skip | exhausted | debugged | decline | write |
      writeGlobal => exact .nothing (.none rfl)
  | quits _ tss e ha he ht hu =>
    refine .nothing (.one rfl ?_)
    cases e <;> first | rfl | cases he
  | ask x guard gs todo rest tss rsi hc hg =>
    exact .asksGuard x guard todo rest _ rfl (Heap.set_self _ _ _) rfl
  | claim => exact .nothing (.one rfl rfl)
  | recover x guard gs todo gone rest tss hgone hc hg =>
    exact .recovers x guard todo _ gs hc hg rfl
  | unsupported hook x rest last s' hh hx hr =>
    exact .nothing (passReturns_unheard (s := s.setLast last s.lastResult) hr)
  | askFirst => exact .asksGlobal _ _ _ rfl
  | nobody hook x e g last rest s' hh he hn hr =>
    exact .nothing (passReturns_unheard
      (s := ((s.setLast last s.lastResult).setG g).declined x.record) hr)
  | askNext => exact .asksGlobal _ _ _ rfl
  | exhaust d hook x item current rsi g rest s' hc hd he hr =>
    exact .nothing (passReturns_unheard
      (s := ((s.setG g).dropInfo rsi).declined x.record) hr)
  | jump => exact .nothing (.trans (.one rfl rfl) (.one rfl rfl))
  | settle d hook x item current rsi g rest s' hd hc he hf hr =>
    exact .nothing (.trans (.one rfl rfl) (passReturns_unheard hr))
  | goesOn x rest s' hc hm hr =>
    exact .nothing (resumes_unheard (s := s.setLast {} s.lastResult) hr)
  | ret => exact .nothing (.one rfl rfl)

/-- A guard's decider is called with what the guard keeps from then on. -/
theorem WinTurn.of_asked {given : Siginfo} (h : WinTurn w s act s')
    (ht : s'.trace = .asked x (.frame guard) given :: s.trace) :
    ∃ todo rest gs, s'.calls = .dispatch x (.asking guard todo) :: rest ∧
      s'.guards guard = some gs ∧ gs.rsi = given := by
  cases h.hears with
  | nothing hu => exact (hu.not_called (l := []) ht rfl).elim
  | asksGuard y a todo rest gs hc hg ht' =>
    cases (List.cons.inj (ht'.symm.trans ht)).1
    exact ⟨todo, rest, gs, hc, hg, rfl⟩
  | asksGlobal _ _ _ ht' | recovers _ _ _ _ _ _ _ ht' =>
    cases (List.cons.inj (ht'.symm.trans ht)).1

/-- A recovery function is called with what the guard has kept for it. -/
theorem WinTurn.of_recovered {info : Siginfo} {e : WinEvent} (h : WinTurn w s act s')
    (ht : s'.trace = .recovered guard info :: e :: s.trace) :
    ∃ x todo rest gs, s.calls = .dispatch x (.asking guard todo) :: rest ∧
      s.guards guard = some gs ∧ gs.rsi = info := by
  cases h.hears with
  | nothing hu => exact (hu.not_called (l := [e]) ht rfl).elim
  | recovers x a todo rest gs hc hg ht' =>
    cases (List.cons.inj (ht'.symm.trans ht)).1
    exact ⟨x, todo, rest, gs, hc, hg, rfl⟩
  | asksGuard _ _ _ _ _ _ _ ht' | asksGlobal _ _ _ ht' =>
    cases (List.cons.inj (ht'.symm.trans ht)).1

end

/-- While no exception gets to the filter of a guard whose decider is running for another one and
wants it, no dispatch changes the `stdc_siginfo` such a decider was given; and a recovery function
gets the one given to the decider that asked for it, unless that decider has written to it. -/
theorem nested_exceptions_apart (w : WinPlatform) (g : Global) {s : WinState}
    (hr : Run (winStep w) (fun u act => u.reentersGuard w act = false) (.initial g) s) :
    (∀ s', Run (winStep w) (fun u act => WinAmid s u act ∧ u.reentersGuard w act = false) s s' →
      s.calls <:+ s'.calls → ∀ guard ∈ s.calls.filterMap WinCall.asks,
        (s'.guards guard).map WinGuard.rsi = (s.guards guard).map WinGuard.rsi) ∧
    ∀ act asked x guard given, winStep w s act = .ok asked → s.reentersGuard w act = false →
      asked.trace = .asked x (.frame guard) given :: s.trace →
      ∀ u, Run (winStep w) (fun v act => WinAmid asked v act ∧ v.reentersGuard w act = false)
        asked u → u.calls = asked.calls →
      ∀ act' s' guard' info e, winStep w u act' = .ok s' →
        s'.trace = .recovered guard' info :: e :: u.trace → guard' = guard ∧ info = given := by
  obtain ⟨hch, hi⟩ : WinChained s ∧ WinApart s := by
    refine hr.invariant (I := fun u => WinChained u ∧ WinApart u)
      ⟨winChained_initial g, winApart_initial g⟩ ?_
    rintro u act u' ⟨hch, hi⟩ hn h
    exact ⟨hch.step (winStep_turns h), hi.step hn (winStep_turns h)⟩
  refine ⟨fun s' hr' hb guard hm => (rsi_kept_run hch hi hr' hb hm).2.2, ?_⟩
  intro act asked x guard given hask hn htask u hru hcu act' s' guard' info e hrec htrec
  have turn := winStep_turns hask
  obtain ⟨todo, rest, gs, hcasked, hgs, hgiven⟩ := turn.of_asked htask
  have hmem : guard ∈ asked.calls.filterMap WinCall.asks := by
    rw [hcasked]
    exact List.mem_cons_self
  obtain ⟨-, -, hkept⟩ := rsi_kept_run (hch.step turn) (hi.step hn turn) hru
    (hcu ▸ List.suffix_refl _) hmem
  obtain ⟨y, todo', rest', gs', hcu', hgs', hinfo⟩ := (winStep_turns hrec).of_recovered htrec
  -- the decider that asks for recovery is the one that was called
  obtain ⟨heq, -⟩ := List.cons.inj ((hcu.trans hcasked).symm.trans hcu')
  cases heq
  rw [hgs, hgs'] at hkept
  exact ⟨rfl, hinfo.symm.trans ((Option.some.inj hkept).trans hgiven)⟩

/-- The decider of a guard, called for a raise, raises the signal again, and lets the inner raise
go on: it returns true, and what the outer decider was given is that of the inner raise. It asks
for recovery, and the recovery function gets that too. -/
theorem nested_exception_overwrites :
    ∃ u asked x given v, ∃ s' : WinState, ∃ info,
      Run (winStep .headers) (fun _ _ => True) (.initial (State.initial fun _ => .dfl).g) u ∧
      winStep .headers u .advance = .ok asked ∧
      asked.trace = .asked x (.frame 0) given :: u.trace ∧
      Run (winStep .headers) (WinAmid asked) asked v ∧ v.calls = asked.calls ∧
      (v.guards 0).map WinGuard.rsi ≠ (asked.guards 0).map WinGuard.rsi ∧
      winStep .headers v (.decide .callRecovery) = .ok s' ∧
      s'.trace = .recovered 0 info :: .claimed x (.frame 0) :: v.trace ∧ info ≠ given := by
  obtain ⟨u, hru, hq⟩ := run_of_ends (f := winStep .headers) (r := fun _ _ => True)
    (s := .initial (State.initial fun _ => .dfl).g) (c := fun _ _ => true)
    (q := fun u => okAnd (winStep .headers u .advance) fun asked =>
      ends (winStep .headers)
        (fun v act => asked.calls.isSuffixOf v.calls && (v.calls != asked.calls || !act.writes))
        (fun v => v.calls == asked.calls &&
          (v.guards 0).map WinGuard.rsi != (asked.guards 0).map WinGuard.rsi &&
          okAnd (winStep .headers v (.decide .callRecovery)) fun s' =>
            (asked.guards 0).any fun old => (v.guards 0).any fun new => old.rsi != new.rsi &&
              (asked.trace == .asked ⟨{ code := 0xC0000090#32, flags := 0x80#32 }, 0, some 0⟩
                (.frame 0) old.rsi :: u.trace) &&
              (s'.trace == .recovered 0 new.rsi ::
                .claimed ⟨{ code := 0xC0000090#32, flags := 0x80#32 }, 0, some 0⟩ (.frame 0) ::
                v.trace))
        asked [.raise 8 none none {}, .advance, .decide .resumeExecution, .advance])
    (l := [.sigguarded (· == 8) true 0 3 {}, .raise 8 none none {}]) (fun _ _ _ => trivial)
    (by decide +kernel)
  obtain ⟨asked, hask, hends⟩ := okAnd_iff.mp hq
  obtain ⟨v, hrv, hq⟩ := run_of_ends (r := WinAmid asked) (fun u act h => by
    simp only [Bool.and_eq_true, List.isSuffixOf_iff_suffix, Bool.or_eq_true, bne_iff_ne,
      Bool.not_eq_true'] at h
    exact ⟨h.1, fun hc => h.2.resolve_left (by simpa using hc)⟩) hends
  simp only [Bool.and_eq_true, beq_iff_eq, bne_iff_ne, okAnd_iff, Option.any_eq_true] at hq
  obtain ⟨⟨hcv, hne⟩, s', hs', old, hold, new, hnew, ⟨hdiff, htask⟩, htrec⟩ := hq
  exact ⟨u, asked, _, old.rsi, v, s', new.rsi, hru, hask, htask, hrv, hcv, hne, hs', htrec,
    Ne.symm hdiff⟩

/-- The decider of a guard raises another signal, which its guard does not want, and then asks for
recovery. -/
theorem nested_exceptions_apart_recovered :
    ∃ s asked u, ∃ s' : WinState, ∃ x info,
      Run (winStep .headers) (fun v act => v.reentersGuard .headers act = false)
        (.initial (State.initial fun _ => .dfl).g) s ∧
      winStep .headers s .advance = .ok asked ∧
      asked.trace = .asked x (.frame 0) info :: s.trace ∧
      asked.nextException < u.nextException ∧ u.calls = asked.calls ∧
      (u.guards 0).map WinGuard.rsi = (asked.guards 0).map WinGuard.rsi ∧
      winStep .headers u (.decide .callRecovery) = .ok s' ∧
      s'.trace = .recovered 0 info :: .claimed x (.frame 0) :: u.trace := by
  obtain ⟨s, hr, hq⟩ := run_of_ends (f := winStep .headers)
    (r := fun v act => v.reentersGuard .headers act = false)
    (s := .initial (State.initial fun _ => .dfl).g)
    (c := fun v act => !v.reentersGuard .headers act)
    (q := fun s => !s.reentersGuard .headers .advance && okAnd (winStep .headers s .advance)
      fun asked => asked.calls.filterMap WinCall.asks == [0] && ends (winStep .headers)
        (fun v act => asked.calls.isSuffixOf v.calls &&
          (v.calls != asked.calls || !act.writes) && !v.reentersGuard .headers act)
        (fun u => u.calls == asked.calls && decide (asked.nextException < u.nextException) &&
          okAnd (winStep .headers u (.decide .callRecovery)) fun s' =>
            (asked.guards 0).any fun old => (u.guards 0).any fun new =>
              (asked.trace == .asked ⟨{ code := 0xC0000090#32, flags := 0x80#32 }, 0, some 0⟩
                (.frame 0) old.rsi :: s.trace) &&
              (s'.trace == .recovered 0 new.rsi ::
                .claimed ⟨{ code := 0xC0000090#32, flags := 0x80#32 }, 0, some 0⟩ (.frame 0) ::
                u.trace))
        asked [.raise 4 none none {}, .advance, .advance, .advance, .advance])
    (l := [.sigguarded (· == 8) true 0 3 {}, .raise 8 none none {}])
    (fun _ _ h => by simpa using h) (by decide +kernel)
  simp only [Bool.and_eq_true, Bool.not_eq_true'] at hq
  obtain ⟨hn, hq⟩ := hq
  obtain ⟨asked, hask, hq⟩ := okAnd_iff.mp hq
  simp only [Bool.and_eq_true, beq_iff_eq] at hq
  obtain ⟨hasks, hends⟩ := hq
  obtain ⟨u, hru, hq⟩ := run_of_ends
    (r := fun v act => WinAmid asked v act ∧ v.reentersGuard .headers act = false)
    (fun v act h => by
      simp only [Bool.and_eq_true, List.isSuffixOf_iff_suffix, Bool.or_eq_true, bne_iff_ne,
        Bool.not_eq_true'] at h
      exact ⟨⟨h.1.1, fun hc => h.1.2.resolve_left (by simpa using hc)⟩, h.2⟩) hends
  simp only [Bool.and_eq_true, beq_iff_eq, decide_eq_true_eq, okAnd_iff, Option.any_eq_true] at hq
  obtain ⟨⟨hcu, hlt⟩, s', hs', old, hold, new, hnew, htask, htrec⟩ := hq
  obtain ⟨-, hrec⟩ := nested_exceptions_apart .headers _ hr
  obtain ⟨-, hinfo⟩ := hrec _ asked _ 0 old.rsi hask hn htask u hru hcu _ s' 0 new.rsi _ hs' htrec
  obtain ⟨hsame, -⟩ := nested_exceptions_apart .headers _ (hr.tail _ hn hask)
  exact ⟨s, asked, u, s', _, old.rsi, hr, hask, htask, hlt, hcu,
    hsame u hru (hcu ▸ List.suffix_refl _) 0 (by rw [hasks]; exact List.mem_cons_self), hs',
    hinfo ▸ htrec⟩

end Wg14Signals
