import Wg14Signals.Install

namespace Wg14Signals
open Lib

/-- What fails in an `install_sighandler` on a platform with `NSIG >= 1024`: the insert into
the hash table allocates, too. -/
structure TableEnv extends InstallEnv where
  insert : Bool := true
  deriving DecidableEq, Repr

/-- Why it cannot go on. Only `disabled` is no error of the code: the lock is held. -/
inductive TableFault where
  | disabled
  | lib (f : Fault)
  /-- The end iterator was dereferenced. -/
  | endIterator
  deriving DecidableEq, Repr

def ofTable {α : Type} : Except Fault α → Except TableFault α
  | .ok a => .ok a
  | .error f => .error (.lib f)

/-- The `sig_global_state_t` with its lock. -/
structure Locked where
  g : Global
  lock : Bool

def Locked.acquire (m : Locked) : Except TableFault Locked :=
  if m.lock then throw .disabled else pure { m with lock := true }

def Locked.release (m : Locked) : Locked := { m with lock := false }

/-- `signo_to_sighandler_map_t_value`: the container at an iterator, which is `none` at the
end of the table. -/
def signoToSighandlerMapValue : Option Addr → Except TableFault Addr
  | none => throw .endIterator
  | some item => pure item

/-- `signo_to_sighandler_map_t_insert` of the hash table. Without memory it returns the end
iterator and leaves the table as it is. -/
def signoToSighandlerMapInsert (env : TableEnv) (g : Global) (signo : Signo) (item : Addr) :
    Option Addr × Global :=
  if env.insert then (some item, g.setMap signo (some item)) else (none, g)

/-- The container is allocated, and `install_sighandler_impl` has put the library's handler in
the place of the disposition it has saved. -/
def armSighandler (g : Global) (signo : Signo) : Global :=
  let item : Container := { lifetimeRefcount := 1, oldHandler := g.kernel signo }
  let g' : Global := { g with
    nextContainer := g.nextContainer + 1
    containers := g.containers.set g.nextContainer (some item) }
  g'.setKernel signo .raw

/-- `install_sighandler` from the increment of `install_count` on. -/
def countInstallAt (env : TableEnv) (m : Locked) (signo : Signo) (it : Option Addr) :
    Except TableFault (Bool × Locked) := do
  let item ← signoToSighandlerMapValue it
  let (ok, g) ← ofTable (countInstall m.g signo item env.toInstallEnv)
  pure (ok, { m with g }.release)

/-- `install_sighandler` on such a platform. -/
def installSighandlerTable (env : TableEnv) (m : Locked) (signo : Signo) :
    Except TableFault (Bool × Locked) := do
  let m ← m.acquire
  match m.g.map signo with
  | some item => countInstallAt env m signo (some item)
  | none =>
    if env.calloc = false then
      pure (false, m.release)
    else if env.sigaction = false then
      -- the new container is freed again before anything could point to it
      pure (false, { m with g := { m.g with nextContainer := m.g.nextContainer + 1 } }.release)
    else
      let (it, g) := signoToSighandlerMapInsert env (armSighandler m.g signo) signo m.g.nextContainer
      countInstallAt env { m with g } signo it

/-- The call returns with the lock released, and with everything as it was unless it has
succeeded: the map, all counts, the kernel's dispositions, and no container more. -/
def InstallsCleanly (env : TableEnv) (m : Locked) (signo : Signo) : Prop :=
  ∃ ok m', installSighandlerTable env m signo = .ok (ok, m') ∧ m'.lock = false ∧
    (ok = false → m'.g = { m.g with nextContainer := m'.g.nextContainer })

end Wg14Signals
