import Wg14Signals.Install
import Wg14Signals.ThreadStorage

namespace Wg14Signals
open Lib

/-- Why a step of one thread could not be taken. Only `disabled` is no error of the code. -/
inductive ThreadFault where
  | disabled
  | lib (f : Fault)
  /-- A `sig_global_state_tss_state_t`, or the instance that holds it, was reached through a
  null or dangling pointer. -/
  | tss (p : Option Addr)
  | frame (p : Option Addr)
  | info (p : Option Addr)
  /-- An `assert` or `abort` of `sigdecider_abandon` or its counterpart. -/
  | aborted
  deriving DecidableEq, Repr

def ofLib {α : Type} : Except Fault α → Except ThreadFault α
  | .ok a => .ok a
  | .error f => .error (.lib f)

@[simp] theorem ofLib_ok {α : Type} {x : Except Fault α} {a : α} :
    ofLib x = .ok a ↔ x = .ok a := by
  cases x <;> simp [ofLib]

/-- What `siginstall` and `siguninstall` work on: the state all threads share, the storage of
the thread that calls them, and its `errno`. -/
structure Process where
  g : Global
  store : ThreadStorage
  errno : Int

structure SiginstallEnv where
  malloc : Bool := true
  /-- What fails while a signal is installed. -/
  signal : Signo → InstallEnv := fun _ => {}
  /-- What a call that fails leaves in `errno`. -/
  code : Int
  /-- What the calls that clean up afterwards leave there. -/
  noise : Int → Int := id

/-- Did the failed `install_sighandler` have an entry of the map to take back? -/
def InstallEnv.published (env : InstallEnv) (g : Global) (signo : Signo) : Bool :=
  (g.map signo).isSome || (env.calloc && env.sigaction)

/-- `install_sighandler`, with the storage it creates first and the `errno` it fails with. -/
def installStored (env : SiginstallEnv) (m : Process) (signo : Signo) :
    Except ThreadFault (Bool × Process) := do
  let (created, store) := m.store.create (env.signal signo).tssCreate
  let (ok, g) ← ofLib (installSighandler m.g signo
    { env.signal signo with tssCreate := created })
  if ok then
    pure (true, { m with g, store := if m.g.sighandlersCount = 0 then store else m.store })
  else
    -- only the path that drops a published entry again does not save `errno`
    let dropped := (env.signal signo).published m.g signo && (g.map signo).isNone
    pure (false, { m with g, errno := if dropped then env.noise env.code else env.code })

/-- Is this the uninstall after which `sighandlers_count` is zero? -/
def Global.lastUninstall (g : Global) (signo : Signo) : Bool :=
  (g.map signo).isSome && g.sighandlersCount - 1 == 0

/-- `uninstall_sighandler`, with the storage the last one destroys. -/
def uninstallStored (m : Process) (signo : Signo) : Except ThreadFault Process := do
  let g ← ofLib (uninstallSighandler m.g signo)
  if m.g.lastUninstall signo then do
    let store ← m.store.destroy .tss
    pure { m with g, store }
  else
    pure { m with g }

/-- One turn of the loop that takes back what a failed `siginstall` has installed. -/
def rollbackStored (env : SiginstallEnv) (m : Process) (signo : Signo) :
    Except ThreadFault Process := do
  let m ← uninstallStored m signo
  pure { m with errno := env.noise m.errno }

/-- The loop of `siginstall`. -/
def installAll (env : SiginstallEnv) (m : Process) (done : List Signo) :
    List Signo → Except ThreadFault (Bool × Process)
  | [] => pure (true, m)
  | signo :: todo => do
    let (ok, m) ← installStored env m signo
    if ok then installAll env m (done ++ [signo]) todo
    else do
      let errcode := m.errno
      let m ← done.foldlM (rollbackStored env) m
      pure (false, { m with errno := errcode })

/-- `siginstall`. The handle it returns holds the set. -/
def siginstall (p : Platform) (env : SiginstallEnv) (m : Process) (guarded : Option SigSet) :
    Except ThreadFault (Option SigSet × Process) :=
  if env.malloc then do
    let set := p.installSet guarded
    let (ok, m) ← installAll env m [] (p.members set)
    pure (if ok then some set else none, m)
  else
    pure (none, { m with errno := env.code })

/-- `siguninstall` of a handle that is not null. -/
def siguninstall (p : Platform) (m : Process) (set : SigSet) : Except ThreadFault Process :=
  (p.members set).foldlM uninstallStored m

end Wg14Signals
