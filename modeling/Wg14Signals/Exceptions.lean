import Wg14Signals.Siginfo

namespace Wg14Signals
open Lib

/-- What the library takes from the signal headers on Windows. -/
structure WinPlatform where
  nsig : Nat
  sigabrt : Signo
  sigbus : Signo
  sigill : Signo
  sigsegv : Signo
  sigfpe : Signo
  /-- Whether the system marks the records of `RaiseException` with
  `EXCEPTION_SOFTWARE_ORIGINATE`. -/
  originates : Bool
  /-- A `sigset_t` has 32 bits. -/
  narrow : nsig ≤ 32
  /-- They are labels of one `switch`. -/
  distinct : [sigabrt, sigbus, sigill, sigsegv, sigfpe].Nodup
  valid : ∀ signo ∈ [sigabrt, sigbus, sigill, sigsegv, sigfpe], 1 ≤ signo ∧ signo < nsig

/-- The numbers of the Windows headers, and of the library where these have none. -/
def WinPlatform.headers : WinPlatform where
  nsig := 23
  sigabrt := 22
  sigbus := 7
  sigill := 4
  sigsegv := 11
  sigfpe := 8
  originates := true
  narrow := by decide
  distinct := by decide
  valid := by decide

/-- `sigismember(set, signo) == 1`. -/
def sigismember (set : SigSet) (signo : Signo) : Bool :=
  decide (1 ≤ signo) && decide (signo ≤ 32) && set signo

/-- `WG14_SIGNALS_USER_RAISE_BASE`. -/
def userRaiseBase : BitVec 32 := 0x40000000#32

def win32ExceptionCodeFromSignal (w : WinPlatform) (c : Signo) : BitVec 32 :=
  if c = w.sigabrt then 0xC0000025#32
  else if c = w.sigbus then 0xC0000006#32
  else if c = w.sigill then 0xC000001D#32
  else if c = w.sigsegv then 0xC0000005#32
  else if c = w.sigfpe then 0xC0000090#32
  else userRaiseBase ||| (BitVec.ofInt 32 c &&& 0x3FFFFFFF#32)

def signalFromWin32ExceptionCode (w : WinPlatform) (c : BitVec 32) : Signo :=
  if c = 0xC0000025#32 then w.sigabrt
  else if c = 0xC0000006#32 then w.sigbus
  else if c = 0xC000001D#32 then w.sigill
  else if c = 0xC0000005#32 ∨ c = 0xC00000FD#32 then w.sigsegv
  else if c ∈ [0xC000008D#32, 0xC000008E#32, 0xC000008F#32, 0xC0000090#32, 0xC0000091#32,
      0xC0000092#32, 0xC0000093#32, 0xC0000094#32, 0xC0000095#32] then w.sigfpe
  else if c &&& 0x80000000#32 = 0#32 ∧ userRaiseBase ≤ c then (c - userRaiseBase).toNat
  else 0

/-- An `EXCEPTION_RECORD`. The parameters are its `ExceptionInformation`, `NumberParameters` in
number. -/
structure ExceptionRecord where
  code : BitVec 32
  flags : BitVec 32 := 0#32
  params : List Nat := []
  deriving DecidableEq, Repr

def exceptionNoncontinuable : BitVec 32 := 0x1#32

def exceptionSoftwareOriginate : BitVec 32 := 0x80#32

def exceptionMaximumParameters : Nat := 15

/-- The parameter that says that the next one is a context. -/
def contextMarker : Nat := 0xdeadbeefdeadbeef

/-- The fields an exception is recognised by, as they are kept of a raise and of the last pass
over the global deciders. -/
structure RecordId where
  code : BitVec 32 := 0#32
  flags : BitVec 32 := 0#32
  numberParameters : Nat := 0
  first : Nat := 0
  deriving DecidableEq, Repr

def RecordId.of (record : ExceptionRecord) : RecordId where
  code := record.code
  flags := record.flags
  numberParameters := record.params.length
  first := record.params.headD 0

def win32ExceptionRecordMatches (id : RecordId) (record : ExceptionRecord) : Bool :=
  id.code == record.code &&
    id.flags &&& ~~~exceptionSoftwareOriginate ==
      record.flags &&& ~~~exceptionSoftwareOriginate &&
    id.numberParameters == record.params.length &&
    (record.params.isEmpty || id.first == record.params.headD 0)

/-- An exception being dispatched: its record and context with their addresses, and the
`stdc_raise` it comes from, unless it is a fault. -/
structure Exception where
  record : ExceptionRecord
  ptr : Addr
  raise : Option Addr
  deriving DecidableEq, Repr

/-- A `ULONG_PTR` as a pointer. -/
def pointer (v : Nat) : Option Addr := if v = 0 then none else some v

/-- `prepare_rsi` on Windows. It leaves no member as it was. -/
def win32PrepareRsi (signo : Signo) (x : Exception) : Siginfo :=
  let params := x.record.params
  let n := params.length
  { signo
    rawContext :=
      if 2 ≤ n ∧ params.getD (n - 2) 0 = contextMarker then pointer (params.getD (n - 1) 0)
      else some x.ptr
    rawInfo := some x.ptr
    errorCode := if 3 ≤ n then (BitVec.ofNat 32 (params.getD 2 0)).toInt else 0
    addr := if 2 ≤ n then pointer (params.getD 1 0) else none }

/-- What `stdc_raise` makes of the `EXCEPTION_RECORD` it is given, before it raises it. -/
def addContext (info : ExceptionRecord) (context : Option Addr) : ExceptionRecord :=
  match context with
  | some c =>
    if info.params.length < exceptionMaximumParameters - 2 then
      { info with params := info.params ++ [contextMarker, c] }
    else info
  | none => info

/-- The record `stdc_raise` hands to `RaiseException`, and keeps the fields of. -/
def raisedRecord (w : WinPlatform) (signo : Signo) (info : Option ExceptionRecord)
    (context : Option Addr) : ExceptionRecord :=
  match info with
  | some info =>
    { code := win32ExceptionCodeFromSignal w signo
      flags := info.flags &&& exceptionNoncontinuable
      params := (addContext info context).params }
  | none => { code := win32ExceptionCodeFromSignal w signo }

/-- What the system delivers of it. -/
def deliveredRecord (w : WinPlatform) (record : ExceptionRecord) : ExceptionRecord :=
  if w.originates then { record with flags := record.flags ||| exceptionSoftwareOriginate }
  else record

end Wg14Signals
