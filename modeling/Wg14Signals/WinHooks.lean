import Wg14Signals.Lib.Runs
import Wg14Signals.Registry

namespace Wg14Signals
open Lib

/-- What `SetUnhandledExceptionFilter` can be given, `library` being
`win32_unhandled_exception_filter`. -/
inductive UnhandledFilter where
  | library
  | other (f : Option Addr)
  deriving DecidableEq, Repr

/-- A vectored continue handler, `library` being `win32_vectored_continue_handler`. -/
inductive ContinueHandler where
  | library
  | other (f : Addr)
  deriving DecidableEq, Repr

/-- The hooks of the process, as the system keeps them. -/
structure WinSystem where
  filter : UnhandledFilter
  /-- The registered continue handlers, first called first, with the handles returned for them. -/
  continueHandlers : List (Addr × ContinueHandler)
  nextHandle : Addr
  old : ∀ x ∈ continueHandlers, x.1 < nextHandle

namespace WinSystem

/-- `AddVectoredContinueHandler`, where it succeeds. -/
def addContinueHandler (sys : WinSystem) (h : ContinueHandler) : WinSystem where
  filter := sys.filter
  continueHandlers := (sys.nextHandle, h) :: sys.continueHandlers
  nextHandle := sys.nextHandle + 1
  old x hx := by
    rcases List.mem_cons.mp hx with rfl | hx
    · exact Nat.lt_succ_self _
    · exact Nat.lt_succ_of_lt (sys.old x hx)

/-- `RemoveVectoredContinueHandler`. -/
def removeContinueHandler (sys : WinSystem) (handle : Option Addr) : WinSystem where
  filter := sys.filter
  continueHandlers := sys.continueHandlers.filter fun x => some x.1 != handle
  nextHandle := sys.nextHandle
  old x hx := sys.old x (List.mem_of_mem_filter hx)

/-- `SetUnhandledExceptionFilter`, which returns the one set before. -/
def setUnhandledFilter (sys : WinSystem) (f : UnhandledFilter) : UnhandledFilter × WinSystem :=
  (sys.filter, { sys with filter := f })

/-- How often the library's continue handler is registered. -/
def registered (sys : WinSystem) : Nat :=
  sys.continueHandlers.countP fun x => x.2 == .library

end WinSystem

/-- Which of the fallible calls made by one `install_sighandler` succeed on Windows. -/
structure WinInstallEnv where
  calloc : Bool := true
  addHandler : Bool := true
  tssCreate : Bool := true
  deriving DecidableEq, Repr

/-- The `sig_global_state_t` of Windows, with the system's hooks. Its containers have no
`old_handler`. -/
structure WinLibrary where
  g : Global
  vectoredContinueHandler : Option Addr
  oldUnhandledExceptionFilter : UnhandledFilter
  system : WinSystem

def WinLibrary.setG (m : WinLibrary) (g : Global) : WinLibrary := { m with g }

/-- `install_sighandler_impl` on Windows. -/
def winInstallSighandlerImpl (m : WinLibrary) (addHandler : Bool) : Bool × WinLibrary :=
  if m.g.sighandlersCount = 0 then
    if addHandler then
      let system := m.system.addContinueHandler .library
      let (old, system) := system.setUnhandledFilter .library
      (true, { m with
        vectoredContinueHandler := some m.system.nextHandle
        oldUnhandledExceptionFilter := old
        system })
    else (false, { m with vectoredContinueHandler := none })
  else (true, m)

/-- `uninstall_sighandler_impl` on Windows. -/
def winUninstallSighandlerImpl (m : WinLibrary) : WinLibrary :=
  if m.g.sighandlersCount = 0 then
    let (_, system) := m.system.setUnhandledFilter m.oldUnhandledExceptionFilter
    { m with system := system.removeContinueHandler m.vectoredContinueHandler }
  else m

/-- The hooks are taken out if this was the last signal, the map entry is erased, and its reference
dropped. -/
def winDropEntry (m : WinLibrary) (signo : Signo) (item : Addr) : Except Fault WinLibrary := do
  let m := winUninstallSighandlerImpl m
  let g ← sighandlerInfoRelease (m.g.setMap signo none) item
  pure (m.setG g)

/-- `install_sighandler` from the increment of `install_count` on. -/
def winCountInstall (m : WinLibrary) (signo : Signo) (item : Addr) (env : WinInstallEnv) :
    Except Fault (Bool × WinLibrary) := do
  let k ← m.g.readContainer item
  if m.g.sighandlersCount = 0 ∧ env.tssCreate = false then
    if k.installCount + 1 - 1 = 0 then do
      let m ← winDropEntry m signo item
      pure (false, m)
    else pure (false, m)
  else
    pure (true, m.setG
      { m.g.setContainer item { k with installCount := k.installCount + 1 } with
        sighandlersCount := m.g.sighandlersCount + 1 })

/-- The critical section of `install_sighandler` on Windows. -/
def winInstallSighandler (m : WinLibrary) (signo : Signo) (env : WinInstallEnv) :
    Except Fault (Bool × WinLibrary) :=
  match m.g.map signo with
  | some item => winCountInstall m signo item env
  | none =>
    if env.calloc = false then pure (false, m)
    else
      let item := m.g.nextContainer
      let m := m.setG { m.g with nextContainer := item + 1 }
      let (ok, m) := winInstallSighandlerImpl m env.addHandler
      -- the new container is freed again before anything could point to it
      if !ok then pure (false, m)
      else
        let k : Container := { lifetimeRefcount := 1, oldHandler := .dfl }
        winCountInstall (m.setG ((m.g.setContainer item k).setMap signo (some item))) signo item env

/-- The critical section of `uninstall_sighandler` on Windows. -/
def winUninstallSighandler (m : WinLibrary) (signo : Signo) : Except Fault WinLibrary :=
  match m.g.map signo with
  | none => pure m
  | some item => do
    let k ← m.g.readContainer item
    let g ← freeDeferred m.g k
    let k := { k with deferredFrees := {}, installCount := k.installCount - 1 }
    let m := m.setG { g.setContainer item k with sighandlersCount := g.sighandlersCount - 1 }
    if k.installCount = 0 then winDropEntry m signo item else pure m

/-- A call in progress, between two of its critical sections. -/
inductive HookCall where
  | siginstall (set : SigSet) (done todo : List Signo)
  | rollback (todo : List Signo)
  | siguninstall (todo : List Signo)

structure HookState where
  lib : WinLibrary
  /-- The calls in progress, with their threads. -/
  calls : List (Tid × HookCall)
  /-- The handles `siginstall` has returned. -/
  installs : List (Nat × SigSet)
  nextInstall : Nat

/-- A process with these hooks that has not used the library yet. -/
def HookState.initial (sys : WinSystem) : HookState where
  lib :=
    { g :=
        { nodes := Heap.empty, nextNode := 0, containers := Heap.empty, nextContainer := 0,
          map := fun _ => none, sighandlersCount := 0, kernel := fun _ => .dfl }
      vectoredContinueHandler := none
      oldUnhandledExceptionFilter := .other none
      system := sys }
  calls := []
  installs := []
  nextInstall := 0

inductive HookAction where
  | siginstall (t : Tid) (guarded : Option SigSet) (malloc : Bool)
  | siguninstall (t : Tid) (handle : Nat)
  /-- The thread's call goes through its next critical section, or returns. -/
  | advance (t : Tid) (env : WinInstallEnv)

/-- The call a thread is in, and those of the others. -/
def HookState.call (s : HookState) (t : Tid) : Option HookCall :=
  (s.calls.find? fun c => c.1 == t).map Prod.snd

def HookState.others (s : HookState) (t : Tid) : List (Tid × HookCall) :=
  s.calls.eraseP fun c => c.1 == t

/-- The library is left in this state, and the call where it says. -/
def HookState.moves (s : HookState) (t : Tid) (lib : WinLibrary) (call : HookCall) : HookState :=
  { s with lib, calls := (t, call) :: s.others t }

/-- The call returns. -/
def HookState.returns (s : HookState) (t : Tid) : HookState := { s with calls := s.others t }

def hookSection (s : HookState) (t : Tid) (env : WinInstallEnv) :
    HookCall → Except Fault HookState
  | .siginstall set done (signo :: todo) => do
    let (ok, lib) ← winInstallSighandler s.lib signo env
    if ok then pure (s.moves t lib (.siginstall set (done ++ [signo]) todo))
    else pure (s.moves t lib (.rollback done))
  | .siginstall set _ [] =>
    pure { s.returns t with
      installs := (s.nextInstall, set) :: s.installs
      nextInstall := s.nextInstall + 1 }
  | .rollback (signo :: todo) => do
    let lib ← winUninstallSighandler s.lib signo
    pure (s.moves t lib (.rollback todo))
  | .rollback [] => pure (s.returns t)
  | .siguninstall (signo :: todo) => do
    let lib ← winUninstallSighandler s.lib signo
    pure (s.moves t lib (.siguninstall todo))
  | .siguninstall [] => pure (s.returns t)

def hookStep (p : Platform) (s : HookState) : HookAction → Except Fault HookState
  | .siginstall t guarded malloc =>
    match s.call t with
    | some _ => throw .disabled
    | none =>
      if malloc then
        let set := p.installSet guarded
        pure (s.moves t s.lib (.siginstall set [] (p.members set)))
      else pure s
  | .siguninstall t handle =>
    match s.call t, s.installs.find? fun h => h.1 == handle with
    | none, some (_, set) =>
      pure { s.moves t s.lib (.siguninstall (p.members set)) with
        installs := s.installs.eraseP fun h => h.1 == handle }
    | _, _ => throw .disabled
  | .advance t env =>
    match s.call t with
    | some call => hookSection s t env call
    | none => throw .disabled

/-- Both hooks are the library's as long as an install is counted, the continue handler once, and
otherwise as `sys` has them. -/
structure HooksFollow (sys : WinSystem) (m : WinLibrary) : Prop where
  counted : 0 < m.g.sighandlersCount → m.system.registered = 1 ∧ m.system.filter = .library
  uncounted : ¬ 0 < m.g.sighandlersCount →
    m.system.registered = 0 ∧ m.system.filter = sys.filter
  old : m.oldUnhandledExceptionFilter ≠ .library

end Wg14Signals
