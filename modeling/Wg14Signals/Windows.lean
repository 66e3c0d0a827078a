import Wg14Signals.Exceptions
import Wg14Signals.Guards

namespace Wg14Signals
open Lib

/-- A `sig_global_state_tss_state_t` on Windows. -/
structure WinTss where
  front : Option Addr := none
  /-- `stdc_raise_initiated_exception`. -/
  initiated : Option Addr := none
  deriving DecidableEq, Repr

/-- A `win32_exception_filter_state`, the `state` of a `sigguarded` call. -/
structure WinGuard where
  rsi : Siginfo := {}
  guarded : SigSet
  recovery : Bool
  decider : Nat
  value : Int
  tssFrontAtEntry : Option Addr
  winAtEntry : Option Addr

/-- The locals of a `stdc_raise` that the thread's two chains link: `current`, of which the jump
buffer is left out, and `current2`. -/
structure WinRaise where
  prev : Option Addr
  winPrev : Option Addr
  wasUnclaimed : Bool := false
  wasClaimed : Bool := false
  id : RecordId
  deriving DecidableEq, Repr

/-- What a filter or a handler makes of an exception. -/
inductive Disposition where
  | continueExecution
  | continueSearch
  deriving DecidableEq, Repr

/-- Which of the process hooks runs the pass over the global deciders. -/
inductive WinHook where
  | unhandledFilter
  | continueHandler
  deriving DecidableEq, Repr

/-- Where the dispatch of an exception stands. -/
inductive WinPc where
  /-- The filters of these guards are still to be run. -/
  | filters (todo : List Addr)
  /-- Inside the decider of a guard, called by its filter. -/
  | asking (guard : Addr) (todo : List Addr)
  | unhandled
  /-- Inside the decider of a global node. -/
  | deciding (hook : WinHook) (item current rsi : Addr)
  /-- Execution is to go on, and the vectored continue handler comes first. -/
  | continuing
  /-- The process has ended. -/
  | terminated
  deriving DecidableEq

/-- A call in progress on the thread's stack. -/
inductive WinCall where
  /-- A `sigguarded` call: inside the guarded function, or inside the recovery function in its
  `__except` block. -/
  | sigguarded (guard : Addr) (recovering : Bool)
  /-- The dispatch of an exception, with the `stdc_raise` that has raised it, if one has. -/
  | dispatch (x : Exception) (pc : WinPc)
  deriving DecidableEq

/-- What the program sees of the library. -/
inductive WinEvent where
  | asked (x : Exception) (who : Consulted) (rsi : Siginfo)
  /-- The decision of a decider settles the exception. -/
  | claimed (x : Exception) (who : Consulted)
  | recovered (guard : Addr) (rsi : Siginfo)
  /-- A `stdc_raise` returns, if it has come to raise anything with its locals. -/
  | raised (raise : Option Addr) (result : Bool)
  /-- The code at fault goes on. -/
  | resumed (x : Exception)
  | returned (value : Int)
  | terminated (x : Exception)
  deriving DecidableEq, Repr

structure WinState where
  g : Global
  tss : Option WinTss
  guards : Heap WinGuard
  nextGuard : Addr
  raises : Heap WinRaise
  nextRaise : Addr
  /-- The `stdc_siginfo` locals of the passes in progress. -/
  infos : Heap Siginfo
  nextInfo : Addr
  nextException : Addr
  /-- `wg14_last_global_decider_record` and `wg14_last_global_decider_result`. -/
  lastRecord : RecordId
  lastResult : Disposition
  /-- The calls in progress, innermost first. -/
  calls : List WinCall
  /-- The last event comes first. -/
  trace : List WinEvent

/-- A thread that has not called the library yet, whatever the others have done. -/
def WinState.initial (g : Global) : WinState where
  g := g
  tss := none
  guards := Heap.empty
  nextGuard := 0
  raises := Heap.empty
  nextRaise := 0
  infos := Heap.empty
  nextInfo := 0
  nextException := 0
  lastRecord := {}
  lastResult := .continueExecution
  calls := []
  trace := []

/-- What the thread does next. -/
inductive WinAction where
  | sigguarded (signals : SigSet) (recovery : Bool) (decider : Nat) (value : Int)
      (env : SetupEnv)
  | raise (signo : Signo) (info : Option ExceptionRecord) (context : Option Addr)
      (env : SetupEnv)
  /-- The user's code faults. -/
  | fault (record : ExceptionRecord)
  /-- Whatever other threads, or calls that touch nothing else, do to the state all share. -/
  | elsewhere (g : Global)
  /-- The innermost dispatch goes on. -/
  | advance
  /-- It does so without the unhandled exception filter, which a debugger keeps out. -/
  | debugged
  /-- The decider the innermost dispatch is inside of returns. -/
  | decide (d : Decision)
  /-- It writes to the `stdc_siginfo` it was given. -/
  | write (info : PublicInfo)
  /-- A guarded function or a recovery function returns. -/
  | ret (value : Int)

@[simps -fullyApplied]
def WinState.setG (s : WinState) (g : Global) : WinState := { s with g }

@[simps -fullyApplied]
def WinState.setTss (s : WinState) (tss : WinTss) : WinState := { s with tss := some tss }

@[simps -fullyApplied]
def WinState.setLast (s : WinState) (id : RecordId) (result : Disposition) : WinState :=
  { s with lastRecord := id, lastResult := result }

@[simps -fullyApplied]
def WinState.goto (s : WinState) (calls : List WinCall) : WinState := { s with calls }

@[simps -fullyApplied]
def WinState.emit (s : WinState) (e : WinEvent) : WinState := { s with trace := e :: s.trace }

@[simps -fullyApplied]
def WinState.setGuard (s : WinState) (guard : Addr) (gs : WinGuard) : WinState :=
  { s with guards := s.guards.set guard (some gs) }

@[simps -fullyApplied]
def WinState.setRaise (s : WinState) (raise : Addr) (l : WinRaise) : WinState :=
  { s with raises := s.raises.set raise (some l) }

@[simps -fullyApplied]
def WinState.setInfo (s : WinState) (rsi : Addr) (info : Siginfo) : WinState :=
  { s with infos := s.infos.set rsi (some info) }

/-- The `rsi` of a pass goes out of scope. -/
@[simps -fullyApplied]
def WinState.dropInfo (s : WinState) (rsi : Addr) : WinState :=
  { s with infos := s.infos.set rsi none }

/-- Can the program's own code be running inside this call? -/
def WinCall.runsUserCode : WinCall → Bool
  | .sigguarded _ _ => true
  | .dispatch _ (.asking _ _) => true
  | .dispatch _ (.deciding _ _ _ _) => true
  | .dispatch _ _ => false

def WinState.userCode (s : WinState) : Bool := s.calls.head?.all WinCall.runsUserCode

/-- The objects of a call that is gone. -/
def WinCall.guard : WinCall → Option Addr
  | .sigguarded guard _ => some guard
  | .dispatch _ _ => none

def WinCall.raise : WinCall → Option Addr
  | .sigguarded _ _ => none
  | .dispatch x _ => x.raise

def WinCall.info : WinCall → Option Addr
  | .dispatch _ (.deciding _ _ _ rsi) => some rsi
  | _ => none

/-- The guard whose `__try` block the call is inside of. -/
def WinCall.tries : WinCall → Option Addr
  | .sigguarded guard false => some guard
  | _ => none

/-- The locals of these calls go out of scope. -/
@[simps -fullyApplied]
def WinState.discard (s : WinState) (gone : List WinCall) : WinState :=
  { s with
    guards := fun a => if a ∈ gone.filterMap WinCall.guard then none else s.guards a
    raises := fun a => if a ∈ gone.filterMap WinCall.raise then none else s.raises a
    infos := fun a => if a ∈ gone.filterMap WinCall.info then none else s.infos a }

/-- `sig_global_tss_state_init`, with a native thread-local. The pointer stays set when
`thread_atexit` fails. -/
def WinState.init (s : WinState) (env : SetupEnv) : Bool × WinState :=
  match s.tss with
  | some _ => (true, s)
  | none => if env.calloc then (env.atexit, s.setTss {}) else (false, s)

/-- The thread's state, through a pointer that must not be null. -/
def WinState.readTss (s : WinState) : Except ThreadFault WinTss :=
  match s.tss with
  | some tss => pure tss
  | none => throw (.tss none)

/-- An exception is raised: the filters of the `__try` blocks the code is inside of are run,
innermost first, also of those whose filter is running. -/
def WinState.pushException (s : WinState) (record : ExceptionRecord) (raise : Option Addr) :
    WinState :=
  let x : Exception := { record, ptr := s.nextException, raise }
  ({ s with nextException := s.nextException + 1 } : WinState).goto
    (.dispatch x (.filters (s.calls.filterMap WinCall.tries)) :: s.calls)

/-- `stdc_raise` up to `RaiseException`. -/
def WinState.pushRaise (w : WinPlatform) (s : WinState) (signo : Signo)
    (info : Option ExceptionRecord) (context : Option Addr) (env : SetupEnv) :
    Except ThreadFault WinState :=
  let (ok, s) := s.init env
  if !ok || signo == 0 then pure (s.emit (.raised none false))
  else do
    let tss ← s.readTss
    let record := raisedRecord w signo info context
    let l : WinRaise := { prev := tss.front, winPrev := tss.initiated, id := .of record }
    let s := (s.setRaise s.nextRaise l).setTss
      { front := some s.nextRaise, initiated := some s.nextRaise }
    pure (({ s with nextRaise := s.nextRaise + 1 } : WinState).pushException
      (deliveredRecord w record) (some s.nextRaise))

/-- `RaiseException` or the faulting instruction, once execution is continued. -/
def WinState.resumed (s : WinState) (x : Exception) (rest : List WinCall) :
    Except ThreadFault WinState :=
  match x.raise with
  | none => pure ((s.goto rest).emit (.resumed x))
  | some r => do
    let l ← s.raises.read .frame (some r)
    let _ ← s.readTss
    let s := (s.setTss { front := l.prev, initiated := l.winPrev }).discard
      [.dispatch x .continuing]
    pure ((s.goto rest).emit (.raised (some r) !l.wasUnclaimed))

/-- `longjmp` to a `stdc_raise`, which returns true. -/
def WinState.longjmp (s : WinState) (r : Addr) : Except ThreadFault WinState :=
  match s.calls.dropWhile fun c => c.raise != some r with
  | c :: rest => do
    let l ← s.raises.read .frame (some r)
    let gone := s.calls.takeWhile fun c => c.raise != some r
    let s := (s.setTss { front := l.prev, initiated := l.winPrev }).discard (gone ++ [c])
    pure ((s.goto rest).emit (.raised (some r) true))
  | [] => throw (.frame (some r))

/-- The raise at the head of the chain, if the record is that of its exception. -/
def win32MatchingRaiseFrame (s : WinState) (record : ExceptionRecord) :
    Except ThreadFault (Option Addr) :=
  match s.tss.bind WinTss.initiated with
  | none => pure none
  | some r => do
    let l ← s.raises.read .frame (some r)
    pure (if win32ExceptionRecordMatches l.id record then some r else none)

def win32RecordGlobalDeciderDecision (s : WinState) (record : ExceptionRecord)
    (result : Disposition) : WinState :=
  s.setLast (.of record) result

/-- `win32_unclaimed_software_raise`. -/
def win32UnclaimedSoftwareRaise (s : WinState) (record : ExceptionRecord) :
    Except ThreadFault (Disposition × WinState) := do
  match ← win32MatchingRaiseFrame s record with
  | some r => do
    let l ← s.raises.read .frame (some r)
    if l.wasClaimed then pure (.continueExecution, s)
    else pure (.continueExecution, s.setRaise r { l with wasUnclaimed := true })
  | none => pure (.continueSearch, s)

/-- `win32_global_decider_pass` returns to the hook that has run it. The system ignores what the
continue handler returns. -/
def WinState.passReturns (s : WinState) (x : Exception) (hook : WinHook) (result : Disposition)
    (rest : List WinCall) : Except ThreadFault WinState :=
  match hook, result with
  | .unhandledFilter, .continueExecution => pure (s.goto (.dispatch x .continuing :: rest))
  | .unhandledFilter, .continueSearch =>
    pure ((s.goto (.dispatch x .terminated :: rest)).emit (.terminated x))
  | .continueHandler, _ => (s.setLast {} s.lastResult).resumed x rest

/-- None of the global deciders wants the exception, or there is none. -/
def WinState.passUnclaimed (s : WinState) (x : Exception) (hook : WinHook)
    (rest : List WinCall) : Except ThreadFault WinState := do
  let (result, s) ← win32UnclaimedSoftwareRaise s x.record
  (win32RecordGlobalDeciderDecision s x.record result).passReturns x hook result rest

/-- `win32_global_decider_pass` up to the call of the first global decider. -/
def win32GlobalDeciderPass (w : WinPlatform) (s : WinState) (x : Exception) (hook : WinHook)
    (rest : List WinCall) : Except ThreadFault WinState :=
  let signo := signalFromWin32ExceptionCode w x.record.code
  if signo = 0 then s.passReturns x hook .continueSearch rest
  else do
    let (e, g) ← ofLib (raiseEnter s.g signo)
    let s := s.setG g
    match e with
    | .absent => s.passUnclaimed x hook rest
    | .deciding item current value _ =>
      let info : Siginfo := { win32PrepareRsi signo x with
        value
        internalSighandler := some item
        internalGlobalDecider := some current }
      let s' : WinState := { s with nextInfo := s.nextInfo + 1 }
      pure (((s'.setInfo s.nextInfo info).goto
        (.dispatch x (.deciding hook item current s.nextInfo) :: rest)).emit
        (.asked x (.global current) info))
    | .unclaimed _ => s.passUnclaimed x hook rest

/-- `win32_vectored_continue_handler`. -/
def win32VectoredContinueHandler (w : WinPlatform) (s : WinState) (x : Exception)
    (rest : List WinCall) : Except ThreadFault WinState :=
  if win32ExceptionRecordMatches s.lastRecord x.record then
    (s.setLast {} s.lastResult).resumed x rest
  else win32GlobalDeciderPass w s x .continueHandler rest

/-- `win32_exception_filter` up to the call of the decider. -/
def win32ExceptionFilter (w : WinPlatform) (s : WinState) (x : Exception) (guard : Addr)
    (todo : List Addr) (rest : List WinCall) : Except ThreadFault WinState := do
  let gs ← s.guards.read .frame (some guard)
  let signo := signalFromWin32ExceptionCode w x.record.code
  if sigismember gs.guarded signo then do
    let tss ← s.readTss
    let rsi : Siginfo := { win32PrepareRsi signo x with
      value := gs.value
      internalLocalDecider := tss.front }
    pure (((s.setGuard guard { gs with rsi }).goto
      (.dispatch x (.asking guard todo) :: rest)).emit (.asked x (.frame guard) rsi))
  else pure (s.goto (.dispatch x (.filters todo) :: rest))

/-- The next section of the innermost dispatch, outside deciders. -/
def winSection (w : WinPlatform) (s : WinState) (x : Exception) (pc : WinPc)
    (rest : List WinCall) : Except ThreadFault WinState :=
  match pc with
  | .filters (guard :: todo) => win32ExceptionFilter w s x guard todo rest
  | .filters [] => pure (s.goto (.dispatch x .unhandled :: rest))
  | .unhandled =>
    -- `win32_unhandled_exception_filter`
    win32GlobalDeciderPass w (s.setLast {} s.lastResult) x .unhandledFilter rest
  | .continuing => win32VectoredContinueHandler w s x rest
  | _ => throw .disabled

/-- A filter has returned `EXCEPTION_EXECUTE_HANDLER`: the stack is unwound to its guard, whose
recovery function is called. -/
def WinState.execute (s : WinState) (guard : Addr) (rsi : Siginfo) : Except ThreadFault WinState :=
  match s.calls.dropWhile fun c => c.tries != some guard with
  | _ :: rest =>
    let s := s.discard (s.calls.takeWhile fun c => c.tries != some guard)
    pure ((s.goto (.sigguarded guard true :: rest)).emit (.recovered guard rsi))
  | [] => throw (.frame (some guard))

/-- The exception of the raise at the head of the chain, if this is it, has been claimed by the
decider of a guard. -/
def WinState.markClaimed (s : WinState) (record : ExceptionRecord) :
    Except ThreadFault WinState := do
  match ← win32MatchingRaiseFrame s record with
  | some r => do
    let l ← s.raises.read .frame (some r)
    pure (s.setRaise r { l with wasClaimed := true })
  | none => pure s

/-- A guard's decider has returned to the filter. -/
def winFrameAnswer (s : WinState) (x : Exception) (guard : Addr) (todo : List Addr)
    (d : Decision) (rest : List WinCall) : Except ThreadFault WinState :=
  match d with
  | .nextDecider => pure (s.goto (.dispatch x (.filters todo) :: rest))
  | .resumeExecution => do
    let s ← s.markClaimed x.record
    let s := win32RecordGlobalDeciderDecision s x.record .continueExecution
    pure ((s.goto (.dispatch x .continuing :: rest)).emit (.claimed x (.frame guard)))
  | .callRecovery => do
    let gs ← s.guards.read .frame (some guard)
    if gs.recovery then do
      let _ ← s.readTss
      ((s.emit (.claimed x (.frame guard))).setTss
        { front := gs.tssFrontAtEntry, initiated := gs.winAtEntry }).execute guard gs.rsi
    else pure (s.goto (.dispatch x (.filters todo) :: rest))

/-- A global decider has returned to the pass. The next one is given the same `rsi`. -/
def winGlobalAnswer (s : WinState) (x : Exception) (hook : WinHook) (item current rsi : Addr)
    (d : Decision) (rest : List WinCall) : Except ThreadFault WinState := do
  let info ← s.infos.read .info (some rsi)
  let (l, g) ← ofLib (raiseLeave s.g item current (d != .nextDecider))
  let s := s.setG g
  match l with
  | .claimed =>
    let s := s.emit (.claimed x (.global current))
    match s.tss.bind WinTss.front with
    | some r => s.longjmp r
    | none =>
      (win32RecordGlobalDeciderDecision (s.dropInfo rsi) x.record .continueExecution).passReturns
        x hook .continueExecution rest
  | .deciding current value =>
    let info := { info with
      value
      internalSighandler := some item
      internalGlobalDecider := some current }
    pure (((s.setInfo rsi info).goto
      (.dispatch x (.deciding hook item current rsi) :: rest)).emit
      (.asked x (.global current) info))
  | .unclaimed => (s.dropInfo rsi).passUnclaimed x hook rest

/-- `sigguarded` up to the call of the guarded function. -/
def pushWinGuard (s : WinState) (signals : SigSet) (recovery : Bool) (decider : Nat)
    (value : Int) (env : SetupEnv) : Except ThreadFault WinState :=
  let (ok, s) := s.init env
  if !ok then pure (s.emit (.returned (-99)))
  else do
    let tss ← s.readTss
    let gs : WinGuard :=
      { guarded := signals, recovery, decider, value, tssFrontAtEntry := tss.front,
        winAtEntry := tss.initiated }
    pure ((({ s with nextGuard := s.nextGuard + 1 } : WinState).setGuard s.nextGuard gs).goto
      (.sigguarded s.nextGuard false :: s.calls))

/-- The decider the innermost dispatch is inside of writes to its `stdc_siginfo`. -/
def writeWinInfo (s : WinState) (info : PublicInfo) : Except ThreadFault WinState :=
  match s.calls with
  | .dispatch _ (.asking guard _) :: _ => do
    let gs ← s.guards.read .frame (some guard)
    pure (s.setGuard guard { gs with rsi := { gs.rsi with toPublicInfo := info } })
  | .dispatch _ (.deciding _ _ _ rsi) :: _ => do
    let old ← s.infos.read .info (some rsi)
    pure (s.setInfo rsi { old with toPublicInfo := info })
  | _ => throw .disabled

def winStep (w : WinPlatform) (s : WinState) : WinAction → Except ThreadFault WinState
  | .sigguarded signals recovery decider value env =>
    if s.userCode then pushWinGuard s signals recovery decider value env else throw .disabled
  | .raise signo info context env =>
    if s.userCode then s.pushRaise w signo info context env else throw .disabled
  | .fault record => if s.userCode then pure (s.pushException record none) else throw .disabled
  | .elsewhere g => pure (s.setG g)
  | .advance =>
    match s.calls with
    | .dispatch x pc :: rest => winSection w s x pc rest
    | _ => throw .disabled
  | .debugged =>
    match s.calls with
    | .dispatch x (.filters []) :: rest => pure (s.goto (.dispatch x .continuing :: rest))
    | _ => throw .disabled
  | .decide d =>
    match s.calls with
    | .dispatch x (.asking guard todo) :: rest => winFrameAnswer s x guard todo d rest
    | .dispatch x (.deciding hook item current rsi) :: rest =>
      winGlobalAnswer s x hook item current rsi d rest
    | _ => throw .disabled
  | .write info => writeWinInfo s info
  | .ret value =>
    match s.calls with
    | .sigguarded guard recovering :: rest =>
      pure (((s.discard [.sigguarded guard recovering]).goto rest).emit (.returned value))
    | _ => throw .disabled

end Wg14Signals
