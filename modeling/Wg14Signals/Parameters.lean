import Wg14Signals.SignalCodes
import Wg14Signals.Informing

namespace Wg14Signals
open Lib

/-- The address an exception is about, if its record tells it. -/
def ExceptionRecord.faultAddr (info : ExceptionRecord) : Option Addr :=
  if 2 ≤ info.params.length then pointer (info.params.getD 1 0) else none

def ExceptionRecord.errorCode (info : ExceptionRecord) : Int :=
  if 3 ≤ info.params.length then (BitVec.ofNat 32 (info.params.getD 2 0)).toInt else 0

/-- A decider finds what the `stdc_raise` was called with. -/
structure Tells (info : ExceptionRecord) (context : Addr) (pub : PublicInfo) : Prop where
  rawContext : pub.rawContext = some context
  addr : pub.addr = info.faultAddr
  errorCode : pub.errorCode = info.errorCode

/-- Every decider called for a raise finds that, as long as global deciders that pass leave what
they are given as it is; and the record of the caller is after any number of raises as it was. -/
def Survives (w : WinPlatform) (signo : Signo) (info : ExceptionRecord) (context : Addr) : Prop :=
  (∀ g s env s' x todo, Run (winStep w) (fun _ _ => True) (.initial g) s →
    winStep w s (.raise signo (some info) (some context) env) = .ok s' →
    s'.calls = .dispatch x (.filters todo) :: s.calls →
    ∀ u act v who rsi, Run (winStep w) (fun u act => u.leavesInfo w act = true) s' u →
      u.leavesInfo w act = true → winStep w u act = .ok v →
      v.trace = .asked x who rsi :: u.trace → Tells info context rsi.toPublicInfo) ∧
  ∀ k, Nat.repeat (fun info => addContext info (some context)) k info = info

end Wg14Signals
