import Wg14Signals.Siginstall

namespace Wg14Signals
open Lib

/-- The state all threads share is as it was, but for nodes on a `deferred_frees` list, which
may have been freed. -/
structure AsBefore (g g' : Global) : Prop where
  map : g'.map = g.map
  kernel : g'.kernel = g.kernel
  count : g'.sighandlersCount = g.sighandlersCount
  containers : ∀ c k, g.containers c = some k →
    g'.containers c = some k ∨ g'.containers c = some { k with deferredFrees := {} }
  gone : ∀ c, g.containers c = none → g'.containers c = none
  deciders : ∀ c k n, g.containers c = some k →
    DList.Reaches g.nodes k.globalHandler.front n → g'.nodes n = g.nodes n
  nodes : ∀ n, g'.nodes n = g.nodes n ∨ g'.nodes n = none ∧
    ∃ c k, g.containers c = some k ∧ DList.Reaches g.nodes k.deferredFrees.front n

/-- A failed `siginstall` has left nothing behind: the shared state and the guard stack of the
thread are as before, and `errno` is what the call that failed has set. -/
structure Undone (env : SiginstallEnv) (m m' : Process) : Prop where
  g : AsBefore m.g m'.g
  front : m'.store.front = m.store.front
  errno : m'.errno = env.code

/-- The first signal that `siginstall` tries gets past the allocation of its container and the
`sigaction` call. -/
def SiginstallEnv.publishes (env : SiginstallEnv) (p : Platform) (guarded : Option SigSet)
    (signo : Signo) : Prop :=
  env.malloc = true ∧ (p.members (p.installSet guarded)).head? = some signo ∧
    (env.signal signo).calloc = true ∧ (env.signal signo).sigaction = true

/-- Nothing is installed, the thread has guards on a stack the fallback holds, and the first
signal is installed: taking that back destroys the storage. -/
def SiginstallEnv.dropsGuards (env : SiginstallEnv) (p : Platform) (m : Process)
    (guarded : Option SigSet) : Prop :=
  m.g.sighandlersCount = 0 ∧ (∃ tss, m.store.slot = .fallback tss) ∧ m.store.front ≠ none ∧
    ∃ signo, env.publishes p guarded signo

/-- Nothing is installed, the storage cannot be created, and the calls that take the entry of
the first signal back leave another `errno`. -/
def SiginstallEnv.dropsErrno (env : SiginstallEnv) (p : Platform) (m : Process)
    (guarded : Option SigSet) : Prop :=
  m.g.sighandlersCount = 0 ∧ m.store.slot = .fallback none ∧ env.noise env.code ≠ env.code ∧
    ∃ signo, env.publishes p guarded signo ∧ (env.signal signo).tssCreate = false

end Wg14Signals
