import Wg14Signals.Lib.Runs
import Wg14Signals.Registry

namespace Wg14Signals
open Lib

/-- A registration with `thread_atexit`: the library's own, of `free` on a thread's state,
or one of the application's. -/
inductive Callback where
  | free (mem : Addr)
  | application (func : Nat)
  deriving DecidableEq

/-- The two implementations of `thread_atexit` on POSIX. -/
inductive AtexitPath where
  | cxaThreadAtexit
  | pthreadKey

/-- A thread of a program whose per-thread state is a native thread-local, from its start
until its last exit callback has run. -/
structure ExitThread where
  /-- What `*sig_tss_state_raw()` holds. -/
  slot : Option Addr
  /-- How many states have been allocated, and how often each was passed to `free`. -/
  allocated : Nat
  frees : Addr → Nat
  /-- The registered callbacks, last registered first. -/
  items : List Callback
  /-- Those `thread_atexit_run` has taken over and has yet to call. -/
  round : List Callback
  exiting : Bool
  /-- The application's callback that is running. -/
  running : Option Nat

def ExitThread.initial : ExitThread where
  slot := none
  allocated := 0
  frees := fun _ => 0
  items := []
  round := []
  exiting := false
  running := none

def threadAtexit (s : ExitThread) (cb : Callback) : Int × ExitThread :=
  (0, { s with items := cb :: s.items })

/-- `sig_global_tss_state_init`, the allocation having succeeded. -/
def sigGlobalTssStateInit (s : ExitThread) : Int × ExitThread :=
  match s.slot with
  | some _ => (0, s)
  | none =>
    let mem := s.allocated
    threadAtexit { s with slot := some mem, allocated := s.allocated + 1 } (.free mem)

def ExitThread.sigGlobalTssState (s : ExitThread) : Option Addr := s.slot

/-- The callback that runs next, and what is left then. The runtime calls the one last
registered; `thread_atexit_run` takes the whole list over, and is called again for what
was registered meanwhile. -/
def ExitThread.next (path : AtexitPath) (s : ExitThread) : Option (Callback × ExitThread) :=
  match path, s.round, s.items with
  | .cxaThreadAtexit, _, cb :: items => some (cb, { s with items })
  | .cxaThreadAtexit, _, [] => none
  | .pthreadKey, cb :: round, _ => some (cb, { s with round })
  | .pthreadKey, [], cb :: items => some (cb, { s with round := items, items := [] })
  | .pthreadKey, [], [] => none

inductive ExitAction where
  /-- `sigguarded` or `stdc_raise`, by the thread's own code, by an exit callback, or by a
  signal handler at any time. -/
  | use
  | register (func : Nat)
  | exit
  | run
  /-- The running callback returns. -/
  | done

def exitStep (path : AtexitPath) (s : ExitThread) : ExitAction → Except Fault ExitThread
  | .use => pure (sigGlobalTssStateInit s).2
  | .register func => pure (threadAtexit s (.application func)).2
  | .exit => pure { s with exiting := true }
  | .run =>
    match s.exiting, s.running, s.next path with
    | true, none, some (.free mem, s') =>
      pure { s' with frees := fun p => if p = mem then s.frees p + 1 else s.frees p }
    | true, none, some (.application func, s') => pure { s' with running := some func }
    | _, _, _ => throw .disabled
  | .done =>
    match s.running with
    | some _ => pure { s with running := none }
    | none => throw .disabled

/-- The callbacks that have yet to run. -/
def ExitThread.pending (s : ExitThread) : List Callback := s.round ++ s.items

/-- The thread has not used the library yet, or the callback its first use registered has
yet to run. -/
def ExitThread.StateKept (s : ExitThread) : Prop :=
  ∀ mem ∈ s.slot, .free mem ∈ s.pending

instance (s : ExitThread) : Decidable s.StateKept :=
  match h : s.slot with
  | none => isTrue fun mem hm => by simp [h] at hm
  | some mem => decidable_of_iff (.free mem ∈ s.pending) (by simp [ExitThread.StateKept, h])

end Wg14Signals
