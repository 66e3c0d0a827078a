import Wg14Signals.Guards

namespace Wg14Signals
open Lib

/-- Is there an uninstall among these, made one after the other, after which
`sighandlers_count` is zero? -/
def Global.uninstallsLast (g : Global) : List Signo → Bool
  | [] => false
  | signo :: l =>
    g.lastUninstall signo || (uninstallSighandler g signo).toOption.any fun g => g.uninstallsLast l

/-- Does the loop of `siginstall` fail, and take back the last install there is? -/
def rollsBackLast (env : SiginstallEnv) (m : Process) (done : List Signo) : List Signo → Bool
  | [] => false
  | signo :: todo =>
    (installStored env m signo).toOption.any fun r =>
      if r.1 then rollsBackLast env r.2 (done ++ [signo]) todo else r.2.g.uninstallsLast done

/-- The step brings `sighandlers_count` to zero, upon which the fallback destroys the instance
that holds what its threads have. -/
def GuardState.losesStorage (p : Platform) (s : GuardState) : GuardAction → Bool
  | .siginstall guarded env =>
    env.malloc && rollsBackLast env s.process [] (p.members (p.installSet guarded))
  | .siguninstall handle =>
    (s.installs.find? fun h => h.1 == handle).any fun h => s.g.uninstallsLast (p.members h.2)
  | _ => false

/-- A step of a program with one thread, in which no allocation fails. -/
def Provided (s : GuardState) : GuardAction → Prop
  | .sigguarded _ _ _ _ env => env = {}
  | .raise _ env => env = {}
  | .deliver _ env => env = {}
  | .siginstall _ env => env.malloc = true ∧
    ∀ signo, (env.signal signo).calloc = true ∧ (env.signal signo).tssCreate = true
  | .elsewhere g => g.sighandlersCount = s.g.sighandlersCount
  | _ => True

/-- What a program has seen of the library by the end of these steps, if it gets there. -/
def observed (p : Platform) (asyncSafeThreadLocal : Bool) (kernel : Signo → Sigaction)
    (acts : List GuardAction) : Option (List GuardEvent) :=
  (acts.foldlM (guardStep p)
    (.initial asyncSafeThreadLocal (State.initial kernel).g)).toOption.map GuardState.trace

end Wg14Signals
