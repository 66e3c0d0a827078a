import Wg14Signals.Lib.Heap
import Wg14Signals.Signals

namespace Wg14Signals
open Lib

/-- The public members of a `stdc_siginfo`, those a decider may write. -/
structure PublicInfo where
  signo : Signo := 0
  errorCode : Int := 0
  addr : Option Addr := none
  value : Int := 0
  rawInfo : Option Addr := none
  rawContext : Option Addr := none
  deriving DecidableEq, Repr

/-- A `stdc_siginfo`. -/
structure Siginfo extends PublicInfo where
  internalLocalDecider : Option Addr := none
  internalSighandler : Option Addr := none
  internalGlobalDecider : Option Addr := none
  internalDeciderIsAbandoned : Bool := false
  deriving DecidableEq, Repr

/-- A `siginfo_t` given to a raise: where it is, and what the library reads of it. -/
structure OsInfo where
  ptr : Addr
  siErrno : Int
  siAddr : Option Addr
  deriving DecidableEq, Repr

/-- What `stdc_raise` is called with. -/
structure RaiseArgs where
  signo : Signo
  info : Option OsInfo := none
  context : Option Addr := none
  deriving DecidableEq, Repr

/-- `prepare_rsi` on POSIX. It leaves `value` as it is. -/
def prepareRsi (rsi : Siginfo) (args : RaiseArgs) : Siginfo :=
  let rsi := { rsi with
    signo := args.signo
    rawContext := args.context
    internalDeciderIsAbandoned := false
    internalGlobalDecider := none
    internalLocalDecider := none
    internalSighandler := none }
  match args.info with
  | some siginfo =>
    { rsi with
      rawInfo := some siginfo.ptr
      errorCode := siginfo.siErrno
      addr := siginfo.siAddr }
  | none => { rsi with rawInfo := none, errorCode := 0, addr := none }

/-- What a decider installed with `value` is to find in its `stdc_siginfo`. -/
def RaiseArgs.presents (args : RaiseArgs) (value : Int) : PublicInfo where
  signo := args.signo
  errorCode := (args.info.map OsInfo.siErrno).getD 0
  addr := args.info.bind OsInfo.siAddr
  value := value
  rawInfo := args.info.map OsInfo.ptr
  rawContext := args.context

@[simp] theorem prepareRsi_value (rsi : Siginfo) (args : RaiseArgs) :
    (prepareRsi rsi args).value = rsi.value := by
  unfold prepareRsi
  split <;> rfl

theorem prepareRsi_public (rsi : Siginfo) (args : RaiseArgs) :
    (prepareRsi rsi args).toPublicInfo = args.presents rsi.value := by
  unfold prepareRsi
  split <;> simp [RaiseArgs.presents, *]

end Wg14Signals
