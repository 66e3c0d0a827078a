import Mathlib.Logic.Function.Basic
import Wg14Signals.Exceptions

/-! The `sigset_t` of the Windows build, and the three sets of signals that the library fills on
the first call which asks for them. -/

namespace Wg14Signals.Sigset
open Lib

abbrev SigsetT := BitVec 32

/-- `EINVAL` of the Windows headers. -/
def einval : Int := 22

/-- A set, and the `errno` of the thread. -/
structure State where
  ss : SigsetT
  errno : Int
  deriving DecidableEq

def sigemptyset (s : State) : Int × State := (0, { s with ss := 0 })

def sigfillset (s : State) : Int × State := (0, { s with ss := BitVec.allOnes 32 })

/-- `1u << (signo - 1)` -/
def bit (signo : Signo) : SigsetT := 1#32 <<< (signo - 1).toNat

def sigaddset (s : State) (signo : Signo) : Int × State :=
  if signo < 1 ∨ signo > 32 then (-1, { s with errno := einval })
  else (0, { s with ss := s.ss ||| bit signo })

def sigdelset (s : State) (signo : Signo) : Int × State :=
  if signo < 1 ∨ signo > 32 then (-1, { s with errno := einval })
  else (0, { s with ss := s.ss &&& ~~~bit signo })

def sigismember (s : State) (signo : Signo) : Int × State :=
  if signo < 1 ∨ signo > 32 then (-1, { s with errno := einval })
  else (if s.ss &&& bit signo ≠ 0 then 1 else 0, s)

inductive Call where
  | empty
  | fill
  | add (signo : Signo)
  | del (signo : Signo)
  | isMember (signo : Signo)

def Call.perform (s : State) : Call → Int × State
  | empty => sigemptyset s
  | fill => sigfillset s
  | add signo => sigaddset s signo
  | del signo => sigdelset s signo
  | isMember signo => sigismember s signo

/-- A set of the signals 1 to 32, and `errno`. -/
structure Abstract where
  set : SigSet
  errno : Int

/-- What the call is for: a number that is no signal's is refused with `EINVAL`. -/
def Call.means (s : Abstract) : Call → Int × Abstract
  | empty => (0, { s with set := fun _ => false })
  | fill => (0, { s with set := fun n => decide (1 ≤ n ∧ n ≤ 32) })
  | add signo =>
    if 1 ≤ signo ∧ signo ≤ 32 then (0, { s with set := Function.update s.set signo true })
    else (-1, { s with errno := einval })
  | del signo =>
    if 1 ≤ signo ∧ signo ≤ 32 then (0, { s with set := Function.update s.set signo false })
    else (-1, { s with errno := einval })
  | isMember signo =>
    if 1 ≤ signo ∧ signo ≤ 32 then (if s.set signo then 1 else 0, s)
    else (-1, { s with errno := einval })

/-- One call after the other, with what they return. -/
def runCalls {σ : Type} (perform : σ → Call → Int × σ) (s : σ) : List Call → List Int × σ
  | [] => ([], s)
  | call :: calls =>
    let (ret, s) := perform s call
    let (rets, s) := runCalls perform s calls
    (ret :: rets, s)

/-- The signals in a set. -/
def members (ss : SigsetT) : SigSet := fun n =>
  decide (1 ≤ n ∧ n ≤ 32) && ss.getLsbD (n - 1).toNat

def State.abstract (s : State) : Abstract := { set := members s.ss, errno := s.errno }

/-- The sets that `sigfillset_synchronous` and its like copy out. -/
inductive Kind where
  | synchronous
  | asynchronousNondebug
  | asynchronousDebug

/-- `signos`. There is none for `asynchronous_debug`. -/
def Kind.signos (w : WinPlatform) : Kind → List Signo
  | synchronous => [w.sigabrt, w.sigbus, w.sigfpe, w.sigill, w.sigsegv]
  | asynchronousNondebug => [2, 9, 19, 15]
  | asynchronousDebug => []

/-- `x`, filled with `signos`. -/
def filled (signos : List Signo) : SigsetT :=
  (signos.foldl (fun s signo => (sigaddset s signo).2) ⟨0, 0⟩).ss

/-- Where a thread is in a call of one of these functions. -/
inductive FillPc where
  | idle
  /-- It has not found the first signal in `v`. -/
  | fill
  /-- It is about to copy `v`. -/
  | copy

/-- A static `v`, and the threads in the functions that use it. -/
structure Filling (τ : Type) where
  v : SigsetT
  pc : τ → FillPc
  /-- What has been copied out. -/
  copied : List (τ × SigsetT)

inductive FillAct (τ : Type) where
  /-- `if(sigismember(&v, signos[0]))` -/
  | check (t : τ)
  /-- `v = x` -/
  | store (t : τ)
  | copy (t : τ)

namespace Filling

variable {τ : Type} [DecidableEq τ]

omit [DecidableEq τ] in
def initial : Filling τ where
  v := 0
  pc _ := .idle
  copied := []

def goTo (s : Filling τ) (t : τ) (pc : FillPc) : Filling τ :=
  { s with pc := Function.update s.pc t pc }

/-- `none`: the thread is not where it could do this. -/
def step (signos : List Signo) (s : Filling τ) : FillAct τ → Option (Filling τ)
  | .check t =>
    match s.pc t, signos with
    | .idle, [] => some (s.goTo t .fill)
    | .idle, signo :: _ =>
      if (sigismember ⟨s.v, 0⟩ signo).1 ≠ 0 then some (s.goTo t .copy) else some (s.goTo t .fill)
    | _, _ => none
  | .store t =>
    match s.pc t with
    | .fill => some ({ s with v := filled signos }.goTo t .copy)
    | _ => none
  | .copy t =>
    match s.pc t with
    | .copy => some ({ s with copied := (t, s.v) :: s.copied }.goTo t .idle)
    | _ => none

end Filling

end Wg14Signals.Sigset
