import Wg14Signals.Windows

namespace Wg14Signals
open Lib

/-- What a decider installed with `value` is to find in its `stdc_siginfo` on Windows. -/
def Exception.presents (w : WinPlatform) (x : Exception) (value : Int) : PublicInfo :=
  { (win32PrepareRsi (signalFromWin32ExceptionCode w x.record.code) x).toPublicInfo with value }

/-- The value a decider was installed with, where the library keeps it. -/
def GuardState.valueOf (s : GuardState) : Consulted → Option Int
  | .frame frame => (s.frames frame).map fun f => f.rsi.value
  | .global n => (s.g.nodes n).map Node.value

def WinState.valueOf (s : WinState) : Consulted → Option Int
  | .frame guard => (s.guards guard).map WinGuard.value
  | .global n => (s.g.nodes n).map Node.value

/-- A global decider that passes has left its `stdc_siginfo` as it was given to it, but for
`value`. -/
def GuardState.leavesInfo (s : GuardState) : GuardAction → Bool
  | .decide .nextDecider =>
    match s.calls with
    | .raise args _ (.deciding _ _ rsi _) :: _ =>
      (s.infos rsi).all fun info => info.toPublicInfo == args.presents info.value
    | _ => true
  | _ => true

def WinState.leavesInfo (w : WinPlatform) (s : WinState) : WinAction → Bool
  | .decide .nextDecider =>
    match s.calls with
    | .dispatch x (.deciding _ _ _ rsi) :: _ =>
      (s.infos rsi).all fun info => info.toPublicInfo == x.presents w info.value
    | _ => true
  | _ => true

end Wg14Signals
