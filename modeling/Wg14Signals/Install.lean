import Wg14Signals.Registry

namespace Wg14Signals
open Lib

/-- Which of the fallible calls made by one `install_sighandler` succeed. -/
structure InstallEnv where
  calloc : Bool := true
  sigaction : Bool := true
  tssCreate : Bool := true
  deriving DecidableEq, Repr

/-- Save the kernel's disposition in a new container, put the library's handler in
its place and publish the container in the map. Its `install_count` is still zero. -/
def newSighandlerInfo (g : Global) (signo : Signo) : Global :=
  let item : Container := { lifetimeRefcount := 1, oldHandler := g.kernel signo }
  let g' : Global := { g with
    nextContainer := g.nextContainer + 1
    containers := g.containers.set g.nextContainer (some item) }
  (g'.setKernel signo .raw).setMap signo (some g.nextContainer)

/-- Restore the saved disposition, erase the map entry and drop its reference. -/
def dropEntry (g : Global) (signo : Signo) (item : Addr) (k : Container) : Except Fault Global :=
  sighandlerInfoRelease ((g.setKernel signo k.oldHandler).setMap signo none) item

/-- The second half of `install_sighandler`, from the increment of `install_count`
on. A first install whose per-thread storage cannot be created is rolled back. -/
def countInstall (g : Global) (signo : Signo) (item : Addr) (env : InstallEnv) :
    Except Fault (Bool × Global) := do
  let k ← g.readContainer item
  if g.sighandlersCount = 0 ∧ env.tssCreate = false then
    if k.installCount + 1 - 1 = 0 then do
      let g ← dropEntry g signo item k
      pure (false, g)
    else
      pure (false, g)
  else
    pure (true, { g.setContainer item { k with installCount := k.installCount + 1 } with
      sighandlersCount := g.sighandlersCount + 1 })

/-- The critical section of `install_sighandler`. -/
def installSighandler (g : Global) (signo : Signo) (env : InstallEnv) :
    Except Fault (Bool × Global) :=
  match g.map signo with
  | some item => countInstall g signo item env
  | none =>
    if env.calloc = false then
      pure (false, g)
    else if env.sigaction = false then
      -- the new container is freed again before anything could point to it
      pure (false, { g with nextContainer := g.nextContainer + 1 })
    else
      countInstall (newSighandlerInfo g signo) signo g.nextContainer env

/-- The critical section of `uninstall_sighandler`. The per-thread storage it
destroys after the last uninstall is not part of this state. -/
def uninstallSighandler (g : Global) (signo : Signo) : Except Fault Global :=
  match g.map signo with
  | none => pure g
  | some item => do
    let k ← g.readContainer item
    let g ← freeDeferred g k
    let k := { k with deferredFrees := {}, installCount := k.installCount - 1 }
    let g := { g.setContainer item k with sighandlersCount := g.sighandlersCount - 1 }
    if k.installCount = 0 then dropEntry g signo item k else pure g

end Wg14Signals
