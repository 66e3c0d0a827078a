import Wg14Signals.WinAbandon

namespace Wg14Signals
open Lib

/-- What happens on a thread where global deciders may also leave their raise for good. -/
inductive CacheAction where
  | lib (act : WinAction)
  /-- The global decider that is running calls `sigdecider_abandon`. -/
  | abandon
  /-- Having done so, it jumps to the code its exception comes from, or so many calls further out. -/
  | leave (out : Nat)

/-- A thread, with what it has done about each dispatch of an exception. -/
structure CacheLog where
  state : WinState
  /-- The dispatches for which the pass over the global deciders has been begun. -/
  passes : List Addr
  /-- What a frame filter that has claimed its exception, or the pass, has decided. -/
  decided : List (Addr × Disposition)
  /-- What the continue handler has returned. -/
  returned : List (Addr × Disposition)

def CacheLog.initial (g : Global) : CacheLog where
  state := .initial g
  passes := []
  decided := []
  returned := []

/-- Does the continue handler find an entry for its exception? -/
def WinState.cached (s : WinState) (x : Exception) : Bool :=
  win32ExceptionRecordMatches s.lastRecord x.record

/-- The dispatch whose pass a step begins. -/
def WinState.passBegins (s : WinState) : WinAction → Option Addr
  | .advance =>
    match s.calls with
    | .dispatch x .unhandled :: _ => some x.ptr
    | .dispatch x .continuing :: _ => if s.cached x then none else some x.ptr
    | _ => none
  | _ => none

/-- What the continue handler returns where it finds an entry. -/
def WinState.reuses (s : WinState) : WinAction → Option (Addr × Disposition)
  | .advance =>
    match s.calls with
    | .dispatch x .continuing :: _ => if s.cached x then some (x.ptr, s.lastResult) else none
    | _ => none
  | _ => none

/-- Is the pass for this exception still inside a decider? -/
def WinState.inPass (s : WinState) (x : Exception) : Bool :=
  match s.calls with
  | .dispatch y (.deciding _ _ _ _) :: _ => y.ptr == x.ptr
  | _ => false

/-- The dispatch whose pass a step to `s'` brings to its end, with the hook it returns to. A claim
that jumps to a raise does not return. -/
def WinState.passEnds (s s' : WinState) : WinAction → Option (Exception × WinHook)
  | .advance =>
    match s.calls with
    | .dispatch x .unhandled :: _ => if s'.inPass x then none else some (x, .unhandledFilter)
    | .dispatch x .continuing :: _ =>
      if s.cached x || s'.inPass x then none else some (x, .continueHandler)
    | _ => none
  | .decide d =>
    match s.calls with
    | .dispatch x (.deciding hook _ _ _) :: _ =>
      if d == .nextDecider then if s'.inPass x then none else some (x, hook)
      else if (s.tss.bind WinTss.front).isSome then none
      else some (x, hook)
    | _ => none
  | _ => none

/-- What the pass has returned. It has recorded that, unless the exception has no signal. -/
def Exception.passResult (w : WinPlatform) (x : Exception) (s' : WinState) : Disposition :=
  if signalFromWin32ExceptionCode w x.record.code = 0 then .continueSearch else s'.lastResult

/-- The decision of a frame filter that claims its exception. -/
def WinState.filterClaims (s : WinState) : WinAction → Option (Addr × Disposition)
  | .decide .resumeExecution =>
    match s.calls with
    | .dispatch x (.asking _ _) :: _ => some (x.ptr, .continueExecution)
    | _ => none
  | _ => none

/-- What has been done about the dispatches after a step to `s'`. -/
def CacheLog.log (w : WinPlatform) (l : CacheLog) (act : WinAction) (s' : WinState) : CacheLog :=
  let s := l.state
  let ends := s.passEnds s' act
  let result := ends.map fun e => (e.1.ptr, e.1.passResult w s')
  let answer := if ends.any fun e => e.2 == .continueHandler then result else none
  { state := s'
    passes := (s.passBegins act).toList ++ l.passes
    decided := (s.filterClaims act).toList ++ result.toList ++ l.decided
    returned := (s.reuses act).toList ++ answer.toList ++ l.returned }

/-- The running global decider calls `sigdecider_abandon`. -/
def WinState.abandonPass (s : WinState) : Except ThreadFault WinState :=
  match s.calls with
  | .dispatch _ (.deciding _ _ _ rsi) :: _ => do
    let info ← s.infos.read .info (some rsi)
    let (s, info) ← winSigdeciderAbandon s { toSiginfo := info }
    pure (s.setInfo rsi info.toSiginfo)
  | _ => throw .disabled

/-- It leaves for good. -/
def WinState.leavePass (s : WinState) (out : Nat) : Except ThreadFault WinState :=
  match s.calls with
  | .dispatch _ (.deciding _ _ _ rsi) :: rest => do
    let info ← s.infos.read .info (some rsi)
    let landing := rest.drop out
    if info.internalDeciderIsAbandoned && landing.head?.all WinCall.runsUserCode then
      pure ((s.discard (s.calls.take (s.calls.length - landing.length))).goto landing)
    else throw .disabled
  | _ => throw .disabled

def cacheStep (w : WinPlatform) (l : CacheLog) : CacheAction → Except ThreadFault CacheLog
  | .lib act => do
    let s' ← winStep w l.state act
    pure (l.log w act s')
  | .abandon => do
    let s' ← l.state.abandonPass
    pure { l with state := s' }
  | .leave out => do
    let s' ← l.state.leavePass out
    pure { l with state := s' }

/-- The code of an exception is not zero. -/
def CacheAction.coded : CacheAction → Bool
  | .lib (.fault record) => record.code != 0
  | _ => true

/-- The dispatch a frame filter has claimed. -/
def WinEvent.frameClaim : WinEvent → Option Addr
  | .claimed x (.frame _) => some x.ptr
  | _ => none

def CacheLog.claims (l : CacheLog) : List Addr := l.state.trace.filterMap WinEvent.frameClaim

end Wg14Signals
