import Wg14Signals.Proofs.GuardTurns
import Wg14Signals.Windows

namespace Wg14Signals
open Lib

/-- The user's code calls the library. -/
def WinAction.calls : WinAction → Bool
  | .sigguarded _ _ _ _ _ => true
  | .raise _ _ _ _ => true
  | _ => false

/-- Nothing is said of any exception. -/
def WinEvent.silent : WinEvent → Bool
  | .raised none _ => true
  | .returned _ => true
  | _ => false

/-- Is the record that of the exception the raise at the head of the chain has raised? -/
def WinState.owns (s : WinState) (record : ExceptionRecord) : Bool :=
  ((s.tss.bind WinTss.initiated).bind s.raises).any fun l =>
    win32ExceptionRecordMatches l.id record

/-- That raise is marked, if so. -/
def WinState.mark (s : WinState) (record : ExceptionRecord) (f : WinRaise → WinRaise) : WinState :=
  { s with raises := fun r =>
      if s.tss.bind WinTss.initiated = some r ∧ s.owns record = true then (s.raises r).map f
      else s.raises r }

def WinRaise.claim (l : WinRaise) : WinRaise := { l with wasClaimed := true }

def WinRaise.decline (l : WinRaise) : WinRaise :=
  if l.wasClaimed then l else { l with wasUnclaimed := true }

/-- What the pass over the global deciders comes to when none of them wants the exception. -/
def WinState.unclaimedResult (s : WinState) (record : ExceptionRecord) : Disposition :=
  if s.owns record then .continueExecution else .continueSearch

/-- The thread's state, once it has been set up. -/
def WinState.SetUp (s : WinState) (tss : WinTss) : Prop :=
  s.tss = some tss ∨ s.tss = none ∧ tss = {}

/-- `RaiseException` or the faulting instruction, once execution is continued. -/
inductive Resumes (s : WinState) (x : Exception) (rest : List WinCall) : WinState → Prop where
  | fault (hx : x.raise = none) : Resumes s x rest ((s.goto rest).emit (.resumed x))
  | raise (r : Addr) (l : WinRaise) (tss : WinTss) (hx : x.raise = some r)
      (hl : s.raises r = some l) (ht : s.tss = some tss) :
      Resumes s x rest ((((s.setTss { front := l.prev, initiated := l.winPrev }).discard
        [.dispatch x .continuing]).goto rest).emit (.raised (some r) !l.wasUnclaimed))

/-- The pass over the global deciders returns to the hook that has run it. -/
inductive PassReturns (s : WinState) (x : Exception) (rest : List WinCall) :
    WinHook → Disposition → WinState → Prop where
  | continues : PassReturns s x rest .unhandledFilter .continueExecution
      (s.goto (.dispatch x .continuing :: rest))
  | terminates : PassReturns s x rest .unhandledFilter .continueSearch
      ((s.goto (.dispatch x .terminated :: rest)).emit (.terminated x))
  | resumes (result : Disposition) (s' : WinState)
      (hr : Resumes (s.setLast {} s.lastResult) x rest s') :
      PassReturns s x rest .continueHandler result s'

/-- Nobody wants the exception. -/
def WinState.declined (s : WinState) (record : ExceptionRecord) : WinState :=
  (s.mark record WinRaise.decline).setLast (.of record) (s.unclaimedResult record)

/-- The hook runs the pass, with the record of the last one as it is then. -/
inductive Hooked (s : WinState) (x : Exception) (rest : List WinCall) :
    WinHook → RecordId → Prop where
  | filter (hc : s.calls = .dispatch x .unhandled :: rest) : Hooked s x rest .unhandledFilter {}
  | handler (hc : s.calls = .dispatch x .continuing :: rest)
      (hm : win32ExceptionRecordMatches s.lastRecord x.record = false) :
      Hooked s x rest .continueHandler s.lastRecord

/-- One step of the thread, by what it does to the calls in progress and their objects. -/
inductive WinTurn (w : WinPlatform) (s : WinState) : WinAction → WinState → Prop where
  | elsewhere (g : Global) : WinTurn w s (.elsewhere g) (s.setG g)
  /-- A call returns at once. -/
  | quits (act : WinAction) (tss : Option WinTss) (e : WinEvent) (ha : act.calls = true)
      (he : e.silent = true)
      (ht : tss = s.tss ∨ s.tss = none ∧ tss = some {}) (hu : s.userCode = true) :
      WinTurn w s act { s with tss := tss, trace := e :: s.trace }
  | guard (signals : SigSet) (recovery : Bool) (decider : Nat) (value : Int) (env : SetupEnv)
      (tss : WinTss) (gs : WinGuard) (ht : s.SetUp tss) (hu : s.userCode = true)
      (hgs : gs =
        { guarded := signals, recovery, decider, value, tssFrontAtEntry := tss.front,
          winAtEntry := tss.initiated }) :
      WinTurn w s (.sigguarded signals recovery decider value env)
        { s with
          tss := some tss
          guards := s.guards.set s.nextGuard (some gs)
          nextGuard := s.nextGuard + 1
          calls := .sigguarded s.nextGuard false :: s.calls }
  | raise (signo : Signo) (info : Option ExceptionRecord) (context : Option Addr) (env : SetupEnv)
      (tss : WinTss) (x : Exception) (l : WinRaise) (ht : s.SetUp tss) (hu : s.userCode = true)
      (hs : signo ≠ 0)
      (hl : l =
        { prev := tss.front, winPrev := tss.initiated,
          id := .of (raisedRecord w signo info context) })
      (hx : x =
        { record := deliveredRecord w (raisedRecord w signo info context), ptr := s.nextException,
          raise := some s.nextRaise }) :
      WinTurn w s (.raise signo info context env)
        { s with
          tss := some { front := some s.nextRaise, initiated := some s.nextRaise }
          raises := s.raises.set s.nextRaise (some l)
          nextRaise := s.nextRaise + 1
          nextException := s.nextException + 1
          calls := .dispatch x (.filters (s.calls.filterMap WinCall.tries)) :: s.calls }
  | fault (record : ExceptionRecord) (x : Exception) (hu : s.userCode = true)
      (hx : x = { record, ptr := s.nextException, raise := none }) :
      WinTurn w s (.fault record)
        { s with
          nextException := s.nextException + 1
          calls := .dispatch x (.filters (s.calls.filterMap WinCall.tries)) :: s.calls }
  /-- The signal is not in the guard's set. -/
  | skip (x : Exception) (guard : Addr) (gs : WinGuard) (todo : List Addr) (rest : List WinCall)
      (hc : s.calls = .dispatch x (.filters (guard :: todo)) :: rest)
      (hg : s.guards guard = some gs)
      (hset : sigismember gs.guarded (signalFromWin32ExceptionCode w x.record.code) = false) :
      WinTurn w s .advance (s.goto (.dispatch x (.filters todo) :: rest))
  | exhausted (x : Exception) (rest : List WinCall)
      (hc : s.calls = .dispatch x (.filters []) :: rest) :
      WinTurn w s .advance (s.goto (.dispatch x .unhandled :: rest))
  | debugged (x : Exception) (rest : List WinCall)
      (hc : s.calls = .dispatch x (.filters []) :: rest) :
      WinTurn w s .debugged (s.goto (.dispatch x .continuing :: rest))
  | ask (x : Exception) (guard : Addr) (gs : WinGuard) (todo : List Addr) (rest : List WinCall)
      (tss : WinTss) (rsi : Siginfo)
      (hc : s.calls = .dispatch x (.filters (guard :: todo)) :: rest)
      (hg : s.guards guard = some gs)
      (hset : sigismember gs.guarded (signalFromWin32ExceptionCode w x.record.code) = true)
      (ht : s.tss = some tss)
      (hrsi : rsi = { win32PrepareRsi (signalFromWin32ExceptionCode w x.record.code) x with
        value := gs.value
        internalLocalDecider := tss.front }) :
      WinTurn w s .advance (((s.setGuard guard { gs with rsi }).goto
        (.dispatch x (.asking guard todo) :: rest)).emit (.asked x (.frame guard) rsi))
  /-- The decider of a guard passes, or asks for the recovery the guard does not have. -/
  | decline (x : Exception) (guard : Addr) (todo : List Addr) (rest : List WinCall) (d : Decision)
      (hc : s.calls = .dispatch x (.asking guard todo) :: rest)
      (hd : d = .nextDecider ∨ d = .callRecovery ∧
        ∃ gs, s.guards guard = some gs ∧ gs.recovery = false) :
      WinTurn w s (.decide d) (s.goto (.dispatch x (.filters todo) :: rest))
  | claim (x : Exception) (guard : Addr) (todo : List Addr) (rest : List WinCall)
      (hc : s.calls = .dispatch x (.asking guard todo) :: rest) :
      WinTurn w s (.decide .resumeExecution)
        ((((s.mark x.record WinRaise.claim).setLast (.of x.record) .continueExecution).goto
          (.dispatch x .continuing :: rest)).emit (.claimed x (.frame guard)))
  | recover (x : Exception) (guard : Addr) (gs : WinGuard) (todo : List Addr)
      (gone rest : List WinCall) (tss : WinTss)
      (hgone : ∀ c ∈ gone, c.tries ≠ some guard)
      (hc : s.calls = .dispatch x (.asking guard todo) :: (gone ++ .sigguarded guard false :: rest))
      (hg : s.guards guard = some gs) (hr : gs.recovery = true) (ht : s.tss = some tss) :
      WinTurn w s (.decide .callRecovery)
        (((((s.emit (.claimed x (.frame guard))).setTss
          { front := gs.tssFrontAtEntry, initiated := gs.winAtEntry }).discard
          (.dispatch x (.asking guard todo) :: gone)).goto (.sigguarded guard true :: rest)).emit
          (.recovered guard gs.rsi))
  /-- The system has no signal for the exception. -/
  | unsupported (hook : WinHook) (x : Exception) (rest : List WinCall) (last : RecordId)
      (s' : WinState) (hh : Hooked s x rest hook last)
      (hx : signalFromWin32ExceptionCode w x.record.code = 0)
      (hr : PassReturns (s.setLast last s.lastResult) x rest hook .continueSearch s') :
      WinTurn w s .advance s'
  | askFirst (hook : WinHook) (x : Exception) (item current : Addr) (value : Int)
      (sa : Sigaction) (g : Global) (info : Siginfo) (last : RecordId) (rest : List WinCall)
      (hh : Hooked s x rest hook last)
      (he : raiseEnter s.g (signalFromWin32ExceptionCode w x.record.code) =
        .ok (.deciding item current value sa, g))
      (hi : info = { win32PrepareRsi (signalFromWin32ExceptionCode w x.record.code) x with
        value
        internalSighandler := some item
        internalGlobalDecider := some current }) :
      WinTurn w s .advance
        { s with
          g := g
          infos := s.infos.set s.nextInfo (some info)
          nextInfo := s.nextInfo + 1
          lastRecord := last
          calls := .dispatch x (.deciding hook item current s.nextInfo) :: rest
          trace := .asked x (.global current) info :: s.trace }
  /-- The signal is not installed, or it has no global deciders. -/
  | nobody (hook : WinHook) (x : Exception) (e : Entered) (g : Global) (last : RecordId)
      (rest : List WinCall) (s' : WinState) (hh : Hooked s x rest hook last)
      (he : raiseEnter s.g (signalFromWin32ExceptionCode w x.record.code) = .ok (e, g))
      (hn : e = .absent ∨ ∃ sa, e = .unclaimed sa)
      (hr : PassReturns (((s.setLast last s.lastResult).setG g).declined x.record) x rest hook
        (s.unclaimedResult x.record) s') : WinTurn w s .advance s'
  | askNext (d : Decision) (hook : WinHook) (x : Exception) (item current next rsi : Addr)
      (value : Int) (g : Global) (old info : Siginfo) (rest : List WinCall)
      (hc : s.calls = .dispatch x (.deciding hook item current rsi) :: rest)
      (hd : d = .nextDecider) (hold : s.infos rsi = some old)
      (he : raiseLeave s.g item current false = .ok (.deciding next value, g))
      (hi : info = { old with
        value
        internalSighandler := some item
        internalGlobalDecider := some next }) :
      WinTurn w s (.decide d) ((((s.setG g).setInfo rsi info).goto
        (.dispatch x (.deciding hook item next rsi) :: rest)).emit (.asked x (.global next) info))
  /-- No more global deciders. -/
  | exhaust (d : Decision) (hook : WinHook) (x : Exception) (item current rsi : Addr)
      (g : Global) (rest : List WinCall) (s' : WinState)
      (hc : s.calls = .dispatch x (.deciding hook item current rsi) :: rest)
      (hd : d = .nextDecider)
      (he : raiseLeave s.g item current false = .ok (.unclaimed, g))
      (hr : PassReturns (((s.setG g).dropInfo rsi).declined x.record) x rest hook
        (s.unclaimedResult x.record) s') : WinTurn w s (.decide d) s'
  /-- A global decider has claimed the exception, and the thread jumps to the raise at the head of
  its chain. -/
  | jump (d : Decision) (hook : WinHook) (x y : Exception) (pc : WinPc)
      (item current rsi r : Addr) (g : Global) (tss : WinTss) (l : WinRaise)
      (gone rest rest' : List WinCall) (hd : d ≠ .nextDecider)
      (htop : s.calls = .dispatch x (.deciding hook item current rsi) :: rest')
      (he : raiseLeave s.g item current true = .ok (.claimed, g))
      (ht : s.tss = some tss) (hf : tss.front = some r)
      (hgone : ∀ c ∈ gone, c.raise ≠ some r)
      (hc : s.calls = gone ++ .dispatch y pc :: rest) (hy : y.raise = some r)
      (hl : s.raises r = some l) :
      WinTurn w s (.decide d)
        ((((((s.setG g).emit (.claimed x (.global current))).setTss
          { front := l.prev, initiated := l.winPrev }).discard
          (gone ++ [.dispatch y pc])).goto rest).emit (.raised (some r) true))
  /-- There is no raise to jump to. -/
  | settle (d : Decision) (hook : WinHook) (x : Exception) (item current rsi : Addr) (g : Global)
      (rest : List WinCall) (s' : WinState) (hd : d ≠ .nextDecider)
      (hc : s.calls = .dispatch x (.deciding hook item current rsi) :: rest)
      (he : raiseLeave s.g item current true = .ok (.claimed, g))
      (hf : s.tss.bind WinTss.front = none)
      (hr : PassReturns ((((s.setG g).emit (.claimed x (.global current))).dropInfo rsi).setLast
        (.of x.record) .continueExecution) x rest hook .continueExecution s') :
      WinTurn w s (.decide d) s'
  /-- The continue handler finds that the pass has been run. -/
  | goesOn (x : Exception) (rest : List WinCall) (s' : WinState)
      (hc : s.calls = .dispatch x .continuing :: rest)
      (hm : win32ExceptionRecordMatches s.lastRecord x.record = true)
      (hr : Resumes (s.setLast {} s.lastResult) x rest s') : WinTurn w s .advance s'
  | write (info : PublicInfo) (x : Exception) (guard : Addr) (todo : List Addr) (gs : WinGuard)
      (rest : List WinCall) (hc : s.calls = .dispatch x (.asking guard todo) :: rest)
      (hg : s.guards guard = some gs) :
      WinTurn w s (.write info)
        (s.setGuard guard { gs with rsi := { gs.rsi with toPublicInfo := info } })
  | writeGlobal (info : PublicInfo) (x : Exception) (hook : WinHook) (item current rsi : Addr)
      (old : Siginfo) (rest : List WinCall)
      (hc : s.calls = .dispatch x (.deciding hook item current rsi) :: rest)
      (hi : s.infos rsi = some old) :
      WinTurn w s (.write info) (s.setInfo rsi { old with toPublicInfo := info })
  | ret (value : Int) (guard : Addr) (recovering : Bool) (rest : List WinCall)
      (hc : s.calls = .sigguarded guard recovering :: rest) :
      WinTurn w s (.ret value)
        (((s.discard [.sigguarded guard recovering]).goto rest).emit (.returned value))

section
variable {w : WinPlatform} {s s' : WinState}

theorem init_turns (s : WinState) (env : SetupEnv) : ∃ tss : Option WinTss,
    (s.init env).2 = { s with tss := tss } ∧ (tss = s.tss ∨ s.tss = none ∧ tss = some {}) ∧
      ((s.init env).1 = true → ∃ t, tss = some t) := by
  unfold WinState.init
  split
  · rename_i tss ht
    exact ⟨s.tss, rfl, .inl rfl, fun _ => ⟨tss, ht⟩⟩
  · rename_i ht
    split
    · exact ⟨some {}, rfl, .inr ⟨ht, rfl⟩, fun _ => ⟨{}, rfl⟩⟩
    · exact ⟨s.tss, rfl, .inl rfl, by simp⟩

theorem winTss_ok {tss : WinTss} : s.readTss = .ok tss ↔ s.tss = some tss := by
  unfold WinState.readTss
  split <;> simp_all

theorem setUp_of_init {tss : Option WinTss} {t : WinTss}
    (h : tss = s.tss ∨ s.tss = none ∧ tss = some {}) (ht : tss = some t) : s.SetUp t := by
  rcases h with rfl | ⟨hn, rfl⟩
  · exact .inl ht
  · exact .inr ⟨hn, (Option.some.inj ht).symm⟩

theorem pushWinGuard_turns {signals : SigSet} {recovery : Bool} {decider : Nat} {value : Int}
    {env : SetupEnv} (hu : s.userCode = true)
    (h : pushWinGuard s signals recovery decider value env = .ok s') :
    WinTurn w s (.sigguarded signals recovery decider value env) s' := by
  obtain ⟨tss, he, ht, -⟩ := init_turns s env
  simp only [pushWinGuard, he] at h
  split at h
  · obtain rfl := pure_ok.mp h
    exact .quits _ tss _ rfl rfl ht hu
  · obtain ⟨t, hr, h⟩ := bind_ok.mp h
    obtain rfl := pure_ok.mp h
    have hs := winTss_ok.mp hr
    obtain rfl : tss = some t := hs
    exact .guard signals recovery decider value env t _ (setUp_of_init ht rfl) hu rfl

theorem winPushRaise_turns {signo : Signo} {info : Option ExceptionRecord} {context : Option Addr}
    {env : SetupEnv} (hu : s.userCode = true)
    (h : s.pushRaise w signo info context env = .ok s') :
    WinTurn w s (.raise signo info context env) s' := by
  obtain ⟨tss, he, ht, -⟩ := init_turns s env
  simp only [WinState.pushRaise, he] at h
  split at h
  · obtain rfl := pure_ok.mp h
    exact .quits _ tss _ rfl rfl ht hu
  · rename_i hq
    obtain ⟨t, hr, h⟩ := bind_ok.mp h
    obtain rfl := pure_ok.mp h
    obtain rfl : tss = some t := winTss_ok.mp hr
    have hs : signo ≠ 0 := by
      rintro rfl
      simp at hq
    exact .raise signo info context env t _ _ (setUp_of_init ht rfl) hu hs rfl rfl

theorem resumed_ok {x : Exception} {rest : List WinCall} (h : s.resumed x rest = .ok s') :
    Resumes s x rest s' := by
  unfold WinState.resumed at h
  split at h
  · obtain rfl := pure_ok.mp h
    exact .fault ‹_›
  · rename_i r hr
    simp only [bind_ok, Heap.read_ok, Option.some.injEq] at h
    obtain ⟨l, ⟨_, rfl, hl⟩, tss, ht, h⟩ := h
    obtain rfl := pure_ok.mp h
    exact .raise _ l tss hr hl (winTss_ok.mp ht)

theorem passReturns_ok {x : Exception} {hook : WinHook} {result : Disposition}
    {rest : List WinCall} (h : s.passReturns x hook result rest = .ok s') :
    PassReturns s x rest hook result s' := by
  cases hook with
  | continueHandler => exact .resumes result s' (resumed_ok h)
  | unhandledFilter =>
    cases result with
    | continueExecution =>
      obtain rfl := pure_ok.mp h
      exact .continues
    | continueSearch =>
      obtain rfl := pure_ok.mp h
      exact .terminates

/-- Where the head of the chain points to a raise, that raise is there to be looked at. -/
theorem matchingFrame_ok {record : ExceptionRecord} {r : Option Addr}
    (h : win32MatchingRaiseFrame s record = .ok r) :
    r = (if s.owns record then s.tss.bind WinTss.initiated else none) ∧
      (s.owns record = true → ∃ a l, r = some a ∧ s.raises a = some l) := by
  unfold win32MatchingRaiseFrame at h
  split at h
  · rename_i hn
    obtain rfl := pure_ok.mp h
    simp [WinState.owns, hn]
  · rename_i a ha
    simp only [bind_ok, Heap.read_ok, Option.some.injEq] at h
    obtain ⟨l, ⟨_, rfl, hl⟩, h⟩ := h
    obtain rfl := pure_ok.mp h
    have ho : s.owns record = win32ExceptionRecordMatches l.id record := by
      simp [WinState.owns, ha, hl]
    rw [ho, ha]
    refine ⟨rfl, fun hm => ⟨_, l, ?_, hl⟩⟩
    rw [if_pos hm]

theorem mark_eq {record : ExceptionRecord} {r : Addr} {l : WinRaise} (f : WinRaise → WinRaise)
    (hi : s.tss.bind WinTss.initiated = some r) (ho : s.owns record = true)
    (hl : s.raises r = some l) : s.setRaise r (f l) = s.mark record f := by
  unfold WinState.setRaise WinState.mark
  congr 1
  funext a
  by_cases ha : a = r
  · subst ha
    rw [Heap.set_self, if_pos ⟨hi, ho⟩, hl]
    rfl
  · rw [Heap.set_other _ _ ha, if_neg]
    rintro ⟨h, -⟩
    rw [hi] at h
    exact ha (Option.some.inj h).symm

theorem mark_nothing {record : ExceptionRecord} (f : WinRaise → WinRaise)
    (ho : s.owns record = false) : s.mark record f = s := by
  simp [WinState.mark, ho]

/-- Marking nothing leaves everything as it is. -/
theorem mark_same {record : ExceptionRecord} {r : Addr} {l : WinRaise} (f : WinRaise → WinRaise)
    (hi : s.tss.bind WinTss.initiated = some r) (hl : s.raises r = some l) (hf : f l = l) :
    s.mark record f = s := by
  unfold WinState.mark
  congr 1
  funext a
  split
  · rename_i h
    obtain rfl : r = a := Option.some.inj (hi.symm.trans h.1)
    rw [hl]
    exact congrArg some hf
  · rfl

theorem markClaimed_ok {record : ExceptionRecord} (h : s.markClaimed record = .ok s') :
    s' = s.mark record WinRaise.claim := by
  obtain ⟨r, hr, h⟩ := bind_ok.mp h
  obtain ⟨rfl, hlive⟩ := matchingFrame_ok hr
  cases ho : s.owns record with
  | false =>
    rw [ho] at h
    obtain rfl := pure_ok.mp h
    exact (mark_nothing _ ho).symm
  | true =>
    obtain ⟨a, l, ha, hl⟩ := hlive ho
    rw [ho, if_pos rfl] at h ha
    rw [ha] at h
    simp only [bind_ok, Heap.read_ok, Option.some.injEq] at h
    obtain ⟨l', ⟨_, rfl, hl'⟩, h⟩ := h
    obtain rfl := pure_ok.mp h
    exact mark_eq WinRaise.claim ha ho hl'

theorem unclaimedRaise_ok {record : ExceptionRecord} {result : Disposition}
    (h : win32UnclaimedSoftwareRaise s record = .ok (result, s')) :
    result = s.unclaimedResult record ∧ s' = s.mark record WinRaise.decline := by
  obtain ⟨r, hr, h⟩ := bind_ok.mp h
  obtain ⟨rfl, hlive⟩ := matchingFrame_ok hr
  cases ho : s.owns record with
  | false =>
    rw [ho] at h
    obtain ⟨rfl, rfl⟩ := Prod.mk.inj (pure_ok.mp h)
    exact ⟨by simp [WinState.unclaimedResult, ho], (mark_nothing _ ho).symm⟩
  | true =>
    obtain ⟨a, l, ha, hl⟩ := hlive ho
    rw [ho, if_pos rfl] at h ha
    rw [ha] at h
    simp only [bind_ok, Heap.read_ok, Option.some.injEq] at h
    obtain ⟨l', ⟨_, rfl, hl'⟩, h⟩ := h
    have hresult : s.unclaimedResult record = .continueExecution := by
      simp [WinState.unclaimedResult, ho]
    cases hc : l'.wasClaimed with
    | true =>
      rw [hc, if_pos rfl] at h
      obtain ⟨rfl, rfl⟩ := Prod.mk.inj (pure_ok.mp h)
      exact ⟨hresult.symm, (mark_same _ ha hl' (by simp [WinRaise.decline, hc])).symm⟩
    | false =>
      rw [hc, if_neg (by simp)] at h
      obtain ⟨rfl, rfl⟩ := Prod.mk.inj (pure_ok.mp h)
      refine ⟨hresult.symm, ?_⟩
      rw [← mark_eq WinRaise.decline ha ho hl', WinRaise.decline, hc, if_neg (by simp)]

theorem passUnclaimed_ok {x : Exception} {hook : WinHook} {rest : List WinCall}
    (h : s.passUnclaimed x hook rest = .ok s') :
    PassReturns (s.declined x.record) x rest hook (s.unclaimedResult x.record) s' := by
  obtain ⟨⟨result, s₁⟩, hu, h⟩ := bind_ok.mp h
  obtain ⟨rfl, rfl⟩ := unclaimedRaise_ok hu
  exact passReturns_ok h

theorem globalPass_turns {x : Exception} {hook : WinHook} {r : RecordId}
    {rest : List WinCall} (hh : Hooked s x rest hook r)
    (h : win32GlobalDeciderPass w (s.setLast r s.lastResult) x hook rest = .ok s') :
    WinTurn w s .advance s' := by
  simp only [win32GlobalDeciderPass] at h
  split at h
  · rename_i hx
    exact .unsupported hook x rest r s' hh hx (passReturns_ok h)
  · obtain ⟨⟨e, g⟩, he, h⟩ := bind_ok.mp h
    have he := ofLib_ok.mp he
    cases e with
    | absent => exact .nobody hook x .absent g r rest s' hh he (.inl rfl) (passUnclaimed_ok h)
    | unclaimed sa =>
      exact .nobody hook x (.unclaimed sa) g r rest s' hh he (.inr ⟨sa, rfl⟩)
        (passUnclaimed_ok h)
    | deciding item current value sa =>
      obtain rfl := pure_ok.mp h
      exact .askFirst hook x item current value sa g _ r rest hh he rfl

theorem exceptionFilter_turns {x : Exception} {guard : Addr} {todo : List Addr}
    {rest : List WinCall} (hc : s.calls = .dispatch x (.filters (guard :: todo)) :: rest)
    (h : win32ExceptionFilter w s x guard todo rest = .ok s') : WinTurn w s .advance s' := by
  simp only [win32ExceptionFilter, bind_ok, Heap.read_ok, Option.some.injEq] at h
  obtain ⟨gs, ⟨_, rfl, hg⟩, h⟩ := h
  split at h
  · rename_i hset
    obtain ⟨tss, ht, h⟩ := bind_ok.mp h
    obtain rfl := pure_ok.mp h
    exact .ask x _ gs todo rest tss _ hc hg hset (winTss_ok.mp ht) rfl
  · rename_i hset
    obtain rfl := pure_ok.mp h
    exact .skip x _ gs todo rest hc hg (by simpa using hset)

theorem winSection_turns {x : Exception} {pc : WinPc} {rest : List WinCall}
    (hc : s.calls = .dispatch x pc :: rest) (h : winSection w s x pc rest = .ok s') :
    WinTurn w s .advance s' := by
  cases pc with
  | filters todo =>
    cases todo with
    | nil =>
      obtain rfl := pure_ok.mp h
      exact .exhausted x rest hc
    | cons guard todo => exact exceptionFilter_turns hc h
  | unhandled => exact globalPass_turns (.filter hc) h
  | continuing =>
    simp only [winSection, win32VectoredContinueHandler] at h
    split at h
    · exact .goesOn x rest s' hc ‹_› (resumed_ok h)
    · rename_i hm
      exact globalPass_turns (r := s.lastRecord) (.handler hc (by simpa using hm)) h
  | asking | deciding | terminated => simp [winSection] at h

/-- The list from the first call with the property on. -/
theorem split_first {p : WinCall → Bool} {l rest : List WinCall} {c : WinCall}
    (h : l.dropWhile p = c :: rest) :
    l = l.takeWhile p ++ c :: rest ∧ p c = false ∧ ∀ d ∈ l.takeWhile p, p d = true := by
  refine ⟨?_, ?_, fun d hd => List.mem_takeWhile_imp hd⟩
  · rw [← h, List.takeWhile_append_dropWhile]
  · have := List.head?_dropWhile_not p l
    rw [h] at this
    simpa using this

theorem winFrameAnswer_turns {x : Exception} {guard : Addr} {todo : List Addr} {d : Decision}
    {rest : List WinCall} (hc : s.calls = .dispatch x (.asking guard todo) :: rest)
    (h : winFrameAnswer s x guard todo d rest = .ok s') : WinTurn w s (.decide d) s' := by
  cases d with
  | nextDecider =>
    obtain rfl := pure_ok.mp h
    exact .decline x guard todo rest _ hc (.inl rfl)
  | resumeExecution =>
    obtain ⟨u, hm, h⟩ := bind_ok.mp h
    obtain rfl := markClaimed_ok hm
    obtain rfl := pure_ok.mp h
    exact .claim x guard todo rest hc
  | callRecovery =>
    simp only [winFrameAnswer, bind_ok, Heap.read_ok, Option.some.injEq] at h
    obtain ⟨gs, ⟨_, rfl, hg⟩, h⟩ := h
    cases hr : gs.recovery with
    | false =>
      rw [hr, if_neg (by simp)] at h
      obtain rfl := pure_ok.mp h
      exact .decline x _ todo rest _ hc (.inr ⟨rfl, gs, hg, hr⟩)
    | true =>
      rw [hr, if_pos rfl] at h
      obtain ⟨tss, ht, h⟩ := bind_ok.mp h
      unfold WinState.execute at h
      split at h
      · rename_i c rest' hd
        obtain rfl := pure_ok.mp h
        rw [WinState.setTss_calls, WinState.emit_calls, hc] at hd
        rw [List.dropWhile_cons_of_pos (by simp [WinCall.tries])] at hd
        obtain ⟨hl, hcc, hgone⟩ := split_first hd
        cases c with
        | dispatch => simp [WinCall.tries] at hcc
        | sigguarded a recovering =>
          cases recovering with
          | true => simp [WinCall.tries] at hcc
          | false =>
            obtain rfl : a = _ := by simpa [WinCall.tries] using hcc
            have hc' := hc
            rw [hl] at hc'
            have := WinTurn.recover (w := w) x a gs todo _ rest' tss (fun d hd => by
              simpa using hgone d hd) hc' hg hr (winTss_ok.mp ht)
            convert this using 4
            rw [WinState.setTss_calls, WinState.emit_calls, hc,
              List.takeWhile_cons_of_pos (by simp [WinCall.tries])]
      · simp at h

theorem winGlobalAnswer_turns {x : Exception} {hook : WinHook} {item current rsi : Addr}
    {d : Decision} {rest : List WinCall}
    (hc : s.calls = .dispatch x (.deciding hook item current rsi) :: rest)
    (h : winGlobalAnswer s x hook item current rsi d rest = .ok s') :
    WinTurn w s (.decide d) s' := by
  simp only [winGlobalAnswer, bind_ok, Heap.read_ok, Option.some.injEq, ofLib_ok] at h
  obtain ⟨info, ⟨_, rfl, hi⟩, ⟨l, g⟩, hl, h⟩ := h
  by_cases hd : d = .nextDecider
  · rw [hd, show (Decision.nextDecider != .nextDecider) = false from rfl] at hl
    cases l with
    | claimed =>
      obtain ⟨_, -, hl⟩ := bind_ok.mp hl
      simp only [Bool.false_eq_true, if_false] at hl
      split at hl
      · obtain ⟨_, -, hl⟩ := bind_ok.mp hl
        simp at hl
      · obtain ⟨_, -, hl⟩ := bind_ok.mp hl
        simp at hl
    | deciding next value =>
      obtain rfl := pure_ok.mp h
      exact .askNext d hook x item current next _ value g info _ rest hc hd hi hl rfl
    | unclaimed => exact .exhaust d hook x item current _ g rest s' hc hd hl (passUnclaimed_ok h)
  · rw [show (d != .nextDecider) = true by simpa using hd] at hl
    obtain rfl : l = .claimed := by
      obtain ⟨_, -, hl⟩ := bind_ok.mp hl
      obtain ⟨_, -, hl⟩ := bind_ok.mp hl
      exact (congrArg Prod.fst (pure_ok.mp hl)).symm
    simp only at h
    split at h
    · rename_i r hr
      obtain ⟨tss, ht, hf⟩ := Option.bind_eq_some_iff.mp hr
      unfold WinState.longjmp at h
      split at h
      · rename_i c rest' hdrop
        simp only [bind_ok, Heap.read_ok, Option.some.injEq] at h
        obtain ⟨l, ⟨_, rfl, hl'⟩, h⟩ := h
        obtain rfl := pure_ok.mp h
        obtain ⟨hsplit, hcc, hgone⟩ := split_first hdrop
        cases c with
        | sigguarded => simp [WinCall.raise] at hcc
        | dispatch y pc =>
          exact .jump d hook x y pc item current _ _ g tss l _ rest' rest hd hc hl ht hf
            (fun e he => by simpa using hgone e he) hsplit (by simpa [WinCall.raise] using hcc) hl'
      · simp at h
    · exact .settle d hook x item current _ g rest s' hd hc hl ‹_› (passReturns_ok h)

/-- Every step of the thread is one of those. -/
theorem winStep_turns {act : WinAction} (h : winStep w s act = .ok s') : WinTurn w s act s' := by
  cases act with
  | sigguarded signals recovery decider value env =>
    simp only [winStep] at h
    split at h
    · exact pushWinGuard_turns ‹_› h
    · simp at h
  | raise signo info context env =>
    simp only [winStep] at h
    split at h
    · exact winPushRaise_turns ‹_› h
    · simp at h
  | fault record =>
    simp only [winStep] at h
    split at h
    · obtain rfl := pure_ok.mp h
      exact .fault record _ ‹_› rfl
    · simp at h
  | elsewhere g =>
    obtain rfl := pure_ok.mp h
    exact .elsewhere g
  | advance =>
    simp only [winStep] at h
    split at h
    · exact winSection_turns ‹_› h
    · simp at h
  | debugged =>
    simp only [winStep] at h
    split at h
    · obtain rfl := pure_ok.mp h
      exact .debugged _ _ ‹_›
    · simp at h
  | decide d =>
    simp only [winStep] at h
    split at h
    · exact winFrameAnswer_turns ‹_› h
    · exact winGlobalAnswer_turns ‹_› h
    · simp at h
  | write info =>
    simp only [winStep, writeWinInfo] at h
    split at h
    · simp only [bind_ok, Heap.read_ok, Option.some.injEq] at h
      obtain ⟨gs, ⟨_, rfl, hg⟩, h⟩ := h
      obtain rfl := pure_ok.mp h
      exact .write info _ _ _ gs _ ‹_› hg
    · simp only [bind_ok, Heap.read_ok, Option.some.injEq] at h
      obtain ⟨old, ⟨_, rfl, hi⟩, h⟩ := h
      obtain rfl := pure_ok.mp h
      exact .writeGlobal info _ _ _ _ _ old _ ‹_› hi
    · simp at h
  | ret value =>
    simp only [winStep] at h
    split at h
    · obtain rfl := pure_ok.mp h
      exact .ret value _ _ _ ‹_›
    · simp at h

end

end Wg14Signals
