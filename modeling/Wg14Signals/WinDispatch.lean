import Wg14Signals.Dispatch
import Wg14Signals.Windows

namespace Wg14Signals
open Lib

/-- What the filters and the hooks take the signal of a raise to be. -/
def WinPlatform.receives (w : WinPlatform) (signo : Signo) : Signo :=
  signalFromWin32ExceptionCode w (win32ExceptionCodeFromSignal w signo)

def WinState.recovers (s : WinState) (a : Addr) : Bool := (s.guards a).any WinGuard.recovery

/-- The signals the filter of a guard calls its decider for. -/
def WinState.guardSet (s : WinState) (a : Addr) : Option SigSet :=
  (s.guards a).map fun gs => sigismember gs.guarded

/-- The guards whose filters an exception raised now comes to, in their order. -/
def WinState.tries (s : WinState) : List Addr := s.calls.filterMap WinCall.tries

/-- What a dispatch does next where deciders only return decisions. -/
def WinPc.quietly (dec : Consulted → Decision) : WinPc → WinAction
  | .asking guard _ => .decide (dec (.frame guard))
  | .deciding _ _ n _ => .decide (dec (.global n))
  | _ => .advance

def WinState.quietly (dec : Consulted → Decision) (s : WinState) : WinAction :=
  match s.calls with
  | .dispatch _ pc :: _ => pc.quietly dec
  | _ => .advance

def WinEvent.who : WinEvent → Option Consulted
  | .asked _ who _ => some who
  | _ => none

def WinEvent.outcome : WinEvent → Bool
  | .asked _ _ _ => false
  | .claimed _ _ => false
  | _ => true

/-- The deciders called so far, in their order. -/
def WinState.consulted (s : WinState) : List Consulted :=
  s.trace.reverse.filterMap WinEvent.who

/-- What has come of the exceptions so far. -/
def WinState.outcomes (s : WinState) : List WinEvent := s.trace.reverse.filter WinEvent.outcome

/-- How a `stdc_raise` that has raised an exception ends: by its return, or in the recovery
function of a guard, whose result is what the `sigguarded` call returns. -/
def WinState.Ended (w : WinPlatform) (s s' : WinState) : Verdict → Prop
  | .recovered a => ∃ info xs rest, s.calls = xs ++ .sigguarded a false :: rest ∧
    s'.calls = .sigguarded a true :: rest ∧ s'.outcomes = s.outcomes ++ [.recovered a info] ∧
    ∀ value, ∃ t, winStep w s' (.ret value) = .ok t ∧ t.calls = rest ∧
      t.outcomes = s'.outcomes ++ [.returned value]
  | .claimed => s'.calls = s.calls ∧
    s'.outcomes = s.outcomes ++ [.raised (some s.nextRaise) true]
  | .unclaimed => s'.calls = s.calls ∧
    s'.outcomes = s.outcomes ++ [.raised (some s.nextRaise) false]

end Wg14Signals
