import Mathlib.Data.List.Basic

namespace Wg14Signals

/-- Signal numbers as the library's `int` parameters carry them. -/
abbrev Signo := Int

/-- A `sigset_t`, by membership. -/
abbrev SigSet := Signo → Bool

/-- Threads of the process. One that starts later is another one, also if the kernel
gives it the id of one that has exited. -/
abbrev Tid := Nat

/-- What the library takes from the platform's signal headers. -/
structure Platform where
  nsig : Nat
  sigkill : Signo
  sigstop : Signo
  /-- The range `SIGRTMIN .. SIGRTMAX`. -/
  realtime : SigSet
  /-- `SIGCANCEL` and `SIGSETXID`, where they are defined. -/
  internal : SigSet
  /-- `SIGCHLD`, `SIGURG` and `SIGWINCH`: their default action is to do nothing. -/
  defaultIgnored : SigSet

/-- Signals 1 to 3, none of them special. -/
def Platform.tiny : Platform where
  nsig := 4
  sigkill := 9
  sigstop := 19
  realtime _ := false
  internal _ := false
  defaultIgnored _ := false

/-- The signal numbers visited by `for(int signo = 1; signo < NSIG; signo++)`
with `SIGKILL` and `SIGSTOP` skipped. -/
def Platform.loop (p : Platform) : List Signo :=
  ((List.range p.nsig).map Int.ofNat).filter fun n =>
    decide (1 ≤ n) && n != p.sigkill && n != p.sigstop

/-- The signals of the loop that belong to a set. -/
def Platform.members (p : Platform) (set : SigSet) : List Signo := p.loop.filter set

/-- The set `siginstall` acts on. A null argument stands for every signal but the
realtime ones; the internal ones are dropped from any set. -/
def Platform.installSet (p : Platform) (guarded : Option SigSet) : SigSet := fun n =>
  (match guarded with
    | none => !p.realtime n
    | some set => set n) && !p.internal n

/-- Handler pointers a `struct sigaction` can hold, `raw` being `raw_signal_handler`. -/
inductive Handler where
  | dfl
  | ign
  | raw
  | user (f : Nat)
  deriving DecidableEq, Repr

/-- A `struct sigaction`, as far as `invoke_sigaction` reads it: whether
`SA_SIGINFO` is set, and the handler. -/
structure Sigaction where
  siginfo : Bool := false
  handler : Handler
  deriving DecidableEq, Repr

/-- The action `install_sighandler_impl` installs. -/
def Sigaction.raw : Sigaction := { siginfo := true, handler := .raw }

def Sigaction.dfl : Sigaction := { handler := .dfl }

/-- What a decider returns. -/
inductive Decision where
  | nextDecider
  | resumeExecution
  | callRecovery
  deriving DecidableEq, Repr

end Wg14Signals
