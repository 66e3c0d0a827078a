import Wg14Signals.Machine
import Wg14Signals.Resume
import Wg14Signals.Siginfo
import Wg14Signals.Siginstall

namespace Wg14Signals
open Lib

/-- A `sig_global_state_tss_state_per_frame_t`, the `current` of a `sigguarded` call. -/
structure GuardFrame where
  prev : Option Addr
  guarded : SigSet
  /-- Whether the pointer to the recovery function is not null. -/
  recovery : Bool
  decider : Nat
  rsi : Siginfo

/-- Where a `stdc_raise` stands. -/
inductive GuardPc where
  /-- About to look at a frame. -/
  | walk (frame : Option Addr)
  /-- Inside the decider of a frame, which was given the `rsi`. -/
  | asking (frame rsi : Addr)
  /-- Inside the decider of a global node. -/
  | deciding (item current rsi : Addr) (sa : Sigaction)
  | invoke (sa : Sigaction)
  | handoff (h : Handoff)
  /-- Inside the handler that was there before the library. -/
  | handler (h : Handler)
  deriving DecidableEq

/-- A call in progress on the thread's stack. -/
inductive GuardCall where
  /-- A `sigguarded` call with its locals: inside the guarded function, or inside the recovery
  function once `setjmp` has returned again. -/
  | sigguarded (frame : Addr) (tss old : Option Addr) (recovering : Bool)
  /-- A `stdc_raise`, called by `raw_signal_handler` if it was `delivered`. -/
  | raise (args : RaiseArgs) (delivered : Bool) (pc : GuardPc)
  deriving DecidableEq

/-- Whose decider a raise calls. -/
inductive Consulted where
  | frame (f : Addr)
  | global (n : Addr)
  deriving DecidableEq, Repr

/-- What the program sees of the library. -/
inductive GuardEvent where
  /-- A raise calls a decider, with the `stdc_siginfo` as it is then. -/
  | asked (args : RaiseArgs) (who : Consulted) (rsi : Siginfo)
  | recovered (frame : Addr) (rsi : Siginfo)
  | handled (h : Handler)
  /-- The `stdc_raise` of the program returns. -/
  | raised (result : Bool)
  /-- A `sigguarded` call returns. -/
  | returned (value : Int)
  deriving DecidableEq, Repr

structure GuardState where
  process : Process
  frames : Heap GuardFrame
  nextFrame : Addr
  /-- The `stdc_siginfo` locals of the raises in progress. -/
  infos : Heap Siginfo
  nextInfo : Addr
  /-- The calls in progress, innermost first. -/
  calls : List GuardCall
  /-- The handles `siginstall` has returned. -/
  installs : List (Nat × SigSet)
  nextInstall : Nat
  /-- The last event comes first. -/
  trace : List GuardEvent

/-- A thread that has not called the library yet, whatever the others have done. -/
def GuardState.initial (asyncSafeThreadLocal : Bool) (g : Global) : GuardState where
  process := { g, store := .initial asyncSafeThreadLocal, errno := 0 }
  frames := Heap.empty
  nextFrame := 0
  infos := Heap.empty
  nextInfo := 0
  calls := []
  installs := []
  nextInstall := 0
  trace := []

/-- What the thread does next. -/
inductive GuardAction where
  | sigguarded (signals : SigSet) (recovery : Bool) (decider : Nat) (value : Int)
      (env : SetupEnv)
  | raise (args : RaiseArgs) (env : SetupEnv)
  /-- The kernel enters `raw_signal_handler`. -/
  | deliver (args : RaiseArgs) (env : SetupEnv)
  | siginstall (guarded : Option SigSet) (env : SiginstallEnv)
  | siguninstall (handle : Nat)
  /-- Whatever other threads, or calls that touch nothing else, do to the state all share. -/
  | elsewhere (g : Global)
  /-- The innermost raise goes through its next section. -/
  | advance
  /-- The decider the innermost raise is inside of returns. -/
  | decide (d : Decision)
  /-- It writes to the `stdc_siginfo` it was given. -/
  | write (info : PublicInfo)
  | abandon
  | resume
  /-- An abandoned decider leaves its raise for good, and that of a frame the guard as well. -/
  | jump
  /-- A guarded function, a recovery function or a previous handler returns. -/
  | ret (value : Int)

def GuardState.store (s : GuardState) : ThreadStorage := s.process.store

def GuardState.g (s : GuardState) : Global := s.process.g

@[simps -fullyApplied]
def GuardState.setStore (s : GuardState) (store : ThreadStorage) : GuardState :=
  { s with process := { s.process with store } }

@[simps -fullyApplied]
def GuardState.setG (s : GuardState) (g : Global) : GuardState :=
  { s with process := { s.process with g } }

@[simps -fullyApplied]
def GuardState.goto (s : GuardState) (calls : List GuardCall) : GuardState := { s with calls }

@[simps -fullyApplied]
def GuardState.emit (s : GuardState) (e : GuardEvent) : GuardState :=
  { s with trace := e :: s.trace }

@[simps -fullyApplied]
def GuardState.setFrame (s : GuardState) (frame : Addr) (f : GuardFrame) : GuardState :=
  { s with frames := s.frames.set frame (some f) }

@[simps -fullyApplied]
def GuardState.setInfo (s : GuardState) (rsi : Addr) (info : Siginfo) : GuardState :=
  { s with infos := s.infos.set rsi (some info) }

/-- Can the program's own code be running inside this call? -/
def GuardCall.runsUserCode : GuardCall → Bool
  | .sigguarded _ _ _ _ => true
  | .raise _ _ (.asking _ _) => true
  | .raise _ _ (.deciding _ _ _ _) => true
  | .raise _ _ (.handler _) => true
  -- the signal the raise has just sent itself may have run any handler
  | .raise _ _ (.handoff (.restore _)) => true
  | .raise _ _ _ => false

def GuardState.userCode (s : GuardState) : Bool := s.calls.head?.all GuardCall.runsUserCode

/-- The objects of a call that is gone. -/
def GuardCall.frame : GuardCall → Option Addr
  | .sigguarded frame _ _ _ => some frame
  | .raise _ _ _ => none

def GuardCall.info : GuardCall → Option Addr
  | .raise _ _ (.asking _ rsi) => some rsi
  | .raise _ _ (.deciding _ _ rsi _) => some rsi
  | _ => none

/-- The locals of these calls go out of scope. -/
@[simps -fullyApplied]
def GuardState.discard (s : GuardState) (gone : List GuardCall) : GuardState :=
  { s with
    frames := fun a => if a ∈ gone.filterMap GuardCall.frame then none else s.frames a
    infos := fun a => if a ∈ gone.filterMap GuardCall.info then none else s.infos a }

/-- `stdc_raise` returns. Nobody looks at what `raw_signal_handler` calls it for but that it
falls back on the default action when the answer is false. -/
def GuardState.answer (s : GuardState) (args : RaiseArgs) (delivered result : Bool)
    (rest : List GuardCall) : GuardState :=
  if delivered then
    if result then s.goto rest else s.goto (.raise args true (.invoke .dfl) :: rest)
  else (s.goto rest).emit (.raised result)

/-- A decider is called with a new `stdc_siginfo`. -/
def GuardState.ask (s : GuardState) (args : RaiseArgs) (delivered : Bool) (who : Consulted)
    (rsi : Siginfo) (pc : Addr → GuardPc) (rest : List GuardCall) : GuardState :=
  ({ s with
    infos := s.infos.set s.nextInfo (some rsi)
    nextInfo := s.nextInfo + 1
    calls := .raise args delivered (pc s.nextInfo) :: rest }).emit (.asked args who rsi)

/-- `stdc_raise` up to its loop over the frames. -/
def GuardState.pushRaise (p : Platform) (s : GuardState) (args : RaiseArgs) (delivered : Bool)
    (env : SetupEnv) (calls : List GuardCall) : Except ThreadFault GuardState := do
  let (ok, store) := s.store.init env
  let s := s.setStore store
  if !ok then pure (s.answer args delivered false calls)
  else if args.signo < 1 ∨ p.nsig ≤ args.signo then
    pure (s.answer args delivered false calls)
  else do
    let tss ← s.store.find .tss
    let state ← s.store.states.read .tss tss
    pure (s.goto (.raise args delivered (.walk state.front) :: calls))

/-- The loop looks at a frame: `rsi` is filled in and the frame's decider called, if the
frame's set has the signal. -/
def walkSection (s : GuardState) (args : RaiseArgs) (delivered : Bool) (frame : Addr)
    (rest : List GuardCall) : Except ThreadFault GuardState := do
  let f ← s.frames.read .frame (some frame)
  if f.guarded args.signo then
    let rsi := { prepareRsi {} args with
      value := f.rsi.value
      internalLocalDecider := some frame }
    pure (s.ask args delivered (.frame frame) rsi (.asking frame) rest)
  else
    pure (s.goto (.raise args delivered (.walk f.prev) :: rest))

/-- The first locked section, and the call of the first global decider. -/
def globalSection (s : GuardState) (args : RaiseArgs) (delivered : Bool)
    (rest : List GuardCall) : Except ThreadFault GuardState := do
  let (e, g) ← ofLib (raiseEnter s.g args.signo)
  let s := s.setG g
  match e with
  | .absent => pure (s.answer args delivered false rest)
  | .deciding item current value sa =>
    let rsi := { prepareRsi {} args with
      value
      internalSighandler := some item
      internalGlobalDecider := some current }
    pure (s.ask args delivered (.global current) rsi (.deciding item current · sa) rest)
  | .unclaimed sa => pure (s.goto (.raise args delivered (.invoke sa) :: rest))

/-- The next section of the innermost raise, outside deciders. -/
def guardSection (p : Platform) (s : GuardState) (args : RaiseArgs) (delivered : Bool)
    (pc : GuardPc) (rest : List GuardCall) : Except ThreadFault GuardState :=
  match pc with
  | .walk (some frame) => walkSection s args delivered frame rest
  | .walk none => globalSection s args delivered rest
  | .invoke sa =>
    match invokeSigaction p sa args.signo with
    | .calls .raw =>
      s.pushRaise p args true {} (.raise args delivered (.handler .raw) :: rest)
    | .calls h => pure ((s.goto (.raise args delivered (.handler h) :: rest)).emit (.handled h))
    | .default => pure (s.goto (.raise args delivered (.handoff .query) :: rest))
    | .ignores => pure (s.answer args delivered true rest)
  | .handoff .query =>
    pure (s.goto (.raise args delivered (.handoff (.reset (s.g.kernel args.signo))) :: rest))
  | .handoff (.reset current) =>
    pure ((s.setG (s.g.setKernel args.signo .dfl)).goto
      (.raise args delivered (.handoff (.kill current)) :: rest))
  | .handoff (.kill current) =>
    let calls := .raise args delivered (.handoff (.restore current)) :: rest
    if s.g.kernel args.signo = .raw then s.pushRaise p args true {} calls
    else pure (s.goto calls)
  | .handoff (.restore current) =>
    pure ((s.setG (s.g.setKernel args.signo current)).answer args delivered true rest)
  | _ => throw .disabled

/-- Is this the call whose `jmp_buf` the frame holds, with the guarded function still
running? -/
def GuardCall.holds (frame : Addr) : GuardCall → Bool
  | .sigguarded f _ _ recovering => f == frame && !recovering
  | .raise _ _ _ => false

/-- `longjmp` to a frame, and what `sigguarded` does when `setjmp` returns again. -/
def GuardState.longjmp (s : GuardState) (frame : Addr) : Except ThreadFault GuardState :=
  match s.calls.dropWhile fun c => !c.holds frame with
  | .sigguarded _ tss old _ :: rest => do
    let f ← s.frames.read .frame (some frame)
    let store ← s.store.setFront .tss tss old
    let gone := s.calls.takeWhile fun c => !c.holds frame
    let s := (s.discard gone).setStore store
    pure ((s.goto (.sigguarded frame tss old true :: rest)).emit (.recovered frame f.rsi))
  | _ => throw (.frame (some frame))

/-- A frame's decider has returned. -/
def frameAnswer (s : GuardState) (args : RaiseArgs) (delivered : Bool) (frame rsi : Addr)
    (d : Decision) (rest : List GuardCall) : Except ThreadFault GuardState := do
  let info ← s.infos.read .info (some rsi)
  if info.internalDeciderIsAbandoned then throw .disabled
  else do
    let f ← s.frames.read .frame (some frame)
    let gone := [.raise args delivered (.asking frame rsi)]
    match d with
    | .nextDecider =>
      pure ((s.discard gone).goto (.raise args delivered (.walk f.prev) :: rest))
    | .resumeExecution => pure ((s.discard gone).answer args delivered true rest)
    | .callRecovery =>
      if f.recovery then
        (s.setFrame frame { f with rsi := info }).longjmp frame
      else pure ((s.discard gone).goto (.raise args delivered (.walk f.prev) :: rest))

/-- A global decider has returned. The next one is given the same `rsi`. -/
def globalAnswer (s : GuardState) (args : RaiseArgs) (delivered : Bool)
    (item current rsi : Addr) (sa : Sigaction) (d : Decision) (rest : List GuardCall) :
    Except ThreadFault GuardState := do
  let info ← s.infos.read .info (some rsi)
  if info.internalDeciderIsAbandoned then throw .disabled
  else do
    let (l, g) ← ofLib (raiseLeave s.g item current (d != .nextDecider))
    let s := s.setG g
    let gone := [.raise args delivered (.deciding item current rsi sa)]
    match l with
    | .claimed => pure ((s.discard gone).answer args delivered true rest)
    | .deciding current value =>
      let info := { info with
        value
        internalSighandler := some item
        internalGlobalDecider := some current }
      pure (((s.setInfo rsi info).goto
        (.raise args delivered (.deciding item current rsi sa) :: rest)).emit
        (.asked args (.global current) info))
    | .unclaimed => pure ((s.discard gone).goto (.raise args delivered (.invoke sa) :: rest))

/-- The half of `sigdecider_abandon` that concerns the decider of a frame. -/
def GuardState.popFrame (s : GuardState) : Option Addr → Except ThreadFault GuardState
  | none => pure s
  | some frame => do
    let tss ← s.store.find .tss
    let state ← s.store.states.read .tss tss
    if state.front ≠ some frame then throw .aborted
    else do
      let f ← s.frames.read .frame (some frame)
      let store ← s.store.setFront .tss tss f.prev
      pure (s.setStore store)

/-- The half of `sigdecider_abandon_resume` that does. -/
def GuardState.unpopFrame (s : GuardState) : Option Addr → Except ThreadFault GuardState
  | none => pure s
  | some frame => do
    let tss ← s.store.find .tss
    let state ← s.store.states.read .tss tss
    let f ← s.frames.read .frame (some frame)
    if state.front ≠ f.prev then throw .aborted
    else do
      let store ← s.store.setFront .tss tss (some frame)
      pure (s.setStore store)

/-- The other halves: on POSIX both pointers are there, or neither is. -/
def GuardState.withPins (s : GuardState) (info : Siginfo)
    (f : Global → Addr → Addr → Except Fault Global) : Except ThreadFault GuardState :=
  match info.internalSighandler, info.internalGlobalDecider with
  | some item, some current => do
    let g ← ofLib (f s.g item current)
    pure (s.setG g)
  | _, _ => pure s

/-- `sigdecider_abandon` of a decider that is not abandoned. -/
def GuardState.abandon (s : GuardState) (info : Siginfo) : Except ThreadFault GuardState := do
  let s ← s.popFrame info.internalLocalDecider
  s.withPins info sigdeciderAbandon

/-- `sigdecider_abandon_resume` of one that is. -/
def GuardState.abandonResume (s : GuardState) (info : Siginfo) :
    Except ThreadFault GuardState := do
  let s ← s.unpopFrame info.internalLocalDecider
  s.withPins info sigdeciderAbandonResume

/-- What the running decider does with the `stdc_siginfo` it was given. -/
def GuardState.withInfo (s : GuardState)
    (f : GuardState → Addr → Siginfo → Except ThreadFault GuardState) :
    Except ThreadFault GuardState :=
  match s.calls.head?.bind GuardCall.info with
  | some rsi => do
    let info ← s.infos.read .info (some rsi)
    f s rsi info
  | none => throw .disabled

/-- Where an abandoned decider jumps to: below its raise, and below the guard too if it was
that of a frame. -/
def GuardCall.landing (calls : List GuardCall) : Option (List GuardCall) :=
  match calls with
  | .raise _ _ (.asking frame _) :: rest =>
    match rest.dropWhile fun c => !c.holds frame with
    | _ :: landing => some landing
    | [] => none
  | .raise _ _ (.deciding _ _ _ _) :: rest => some rest
  | _ => none

def jumpSection (s : GuardState) (info : Siginfo) : Except ThreadFault GuardState :=
  if info.internalDeciderIsAbandoned then
    match GuardCall.landing s.calls with
    | some landing =>
      pure ((s.discard (s.calls.take (s.calls.length - landing.length))).goto landing)
    | none => throw .disabled
  else throw .disabled

/-- `sigguarded` up to the call of the guarded function. -/
def pushGuard (s : GuardState) (signals : SigSet) (recovery : Bool) (decider : Nat) (value : Int)
    (env : SetupEnv) : Except ThreadFault GuardState := do
  let (ok, store) := s.store.init env
  let s := s.setStore store
  if !ok then pure (s.emit (.returned (-99)))
  else do
    let tss ← s.store.find .tss
    let state ← s.store.states.read .tss tss
    let frame : GuardFrame :=
      { prev := state.front, guarded := signals, recovery, decider, rsi := { value } }
    let store ← s.store.setFront .tss tss (some s.nextFrame)
    let calls := .sigguarded s.nextFrame tss state.front false :: s.calls
    pure (((({ s with nextFrame := s.nextFrame + 1 } : GuardState).setFrame s.nextFrame
      frame).setStore store).goto calls)

/-- The user's function inside the innermost call returns. -/
def returnSection (s : GuardState) (value : Int) : Except ThreadFault GuardState :=
  match s.calls with
  | .sigguarded frame tss old recovering :: rest =>
    let s := (s.discard [.sigguarded frame tss old recovering]).goto rest
    if recovering then pure (s.emit (.returned value))
    else do
      let store ← s.store.setFront .tss tss old
      pure ((s.setStore store).emit (.returned value))
  | .raise args delivered (.handler _) :: rest => pure (s.answer args delivered true rest)
  | _ => throw .disabled

def guardStep (p : Platform) (s : GuardState) : GuardAction → Except ThreadFault GuardState
  | .sigguarded signals recovery decider value env =>
    if s.userCode then pushGuard s signals recovery decider value env else throw .disabled
  | .raise args env =>
    if s.userCode then s.pushRaise p args false env s.calls else throw .disabled
  | .deliver args env =>
    if s.g.kernel args.signo = .raw then s.pushRaise p args true env s.calls
    else throw .disabled
  | .siginstall guarded env =>
    if s.userCode then do
      let (handle, process) ← siginstall p env s.process guarded
      match handle with
      | some set =>
        pure { s with
          process
          installs := (s.nextInstall, set) :: s.installs
          nextInstall := s.nextInstall + 1 }
      | none => pure { s with process }
    else throw .disabled
  | .siguninstall handle =>
    match s.userCode, s.installs.find? fun h => h.1 == handle with
    | true, some (_, set) => do
      let process ← siguninstall p s.process set
      pure { s with process, installs := s.installs.eraseP fun h => h.1 == handle }
    | _, _ => throw .disabled
  | .elsewhere g => pure (s.setG g)
  | .advance =>
    match s.calls with
    | .raise args delivered pc :: rest => guardSection p s args delivered pc rest
    | _ => throw .disabled
  | .decide d =>
    match s.calls with
    | .raise args delivered (.asking frame rsi) :: rest =>
      frameAnswer s args delivered frame rsi d rest
    | .raise args delivered (.deciding item current rsi sa) :: rest =>
      globalAnswer s args delivered item current rsi sa d rest
    | _ => throw .disabled
  | .write info =>
    s.withInfo fun s rsi old => pure (s.setInfo rsi { old with toPublicInfo := info })
  | .abandon =>
    s.withInfo fun s rsi info =>
      if info.internalDeciderIsAbandoned then pure s
      else do
        let s ← s.abandon info
        pure (s.setInfo rsi { info with internalDeciderIsAbandoned := true })
  | .resume =>
    s.withInfo fun s rsi info =>
      if info.internalDeciderIsAbandoned then do
        let s ← s.abandonResume info
        pure (s.setInfo rsi { info with internalDeciderIsAbandoned := false })
      else pure s
  | .jump => s.withInfo fun s _ info => jumpSection s info
  | .ret value => returnSection s value

end Wg14Signals
