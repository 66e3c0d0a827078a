import Mathlib.Algebra.Group.Nat.Defs
import Wg14Signals.Lib.Runs
import Wg14Signals.Tss

namespace Wg14Signals
open Lib

/-- One thread, from its start to its exit, and the thread-local variables that
`my_current_thread_id` keeps for it. A `uintptr_t` has `w` bits. -/
structure KeyThread (w : Nat) where
  /-- The kernel's id of the thread. -/
  kernelId : BitVec w
  currentThreadIdCached : BitVec w := 0
  mycache : BitVec w := 0
  generationCached : BitVec w := 0

/-- `current_thread_id`, which has a cache of its own where thread-locals are safe to use in
a signal handler. -/
def KeyThread.currentThreadId {w : Nat} (safe : Bool) (th : KeyThread w) :
    BitVec w × KeyThread w :=
  if safe then
    let id := if th.currentThreadIdCached = 0 then th.kernelId else th.currentThreadIdCached
    (id, { th with currentThreadIdCached := id })
  else (th.kernelId, th)

/-- The generation in the high half, the kernel's id in the low half. -/
def compositeKey {w : Nat} (generation id : BitVec w) : BitVec 64 :=
  generation.setWidth 64 <<< 32 ||| (id.setWidth 32).setWidth 64

def KeyThread.cacheId {w : Nat} (safe : Bool) (th : KeyThread w) : KeyThread w :=
  if th.mycache = 0 then
    let (id, th) := th.currentThreadId safe
    { th with mycache := id }
  else th

/-- `my_current_thread_id`: the key, and what the shared counter and the thread's variables
hold then. -/
def KeyThread.myCurrentThreadId {w : Nat} (safe : Bool) (counter : BitVec w)
    (th : KeyThread w) : BitVec 64 × BitVec w × KeyThread w :=
  let th := th.cacheId safe
  if th.generationCached = 0 then
    let generation := 1 + counter
    (compositeKey generation th.mycache, counter + 1, { th with generationCached := generation })
  else (compositeKey th.generationCached th.mycache, counter, th)

structure KeyState (w : Nat) where
  generationCounter : BitVec w
  /-- How many threads have been started. -/
  started : Nat
  /-- Those that have not exited. They are told apart by how many were started before. -/
  threads : Nat → Option (KeyThread w)
  /-- What each call of `my_current_thread_id` returned, and to whom. -/
  given : List (Nat × BitVec 64)

def KeyState.initial (w : Nat) : KeyState w where
  generationCounter := 0
  started := 0
  threads := fun _ => none
  given := []

inductive KeyAction (w : Nat) where
  | start (kernelId : BitVec w)
  | call (i : Nat)
  | exit (i : Nat)

def KeyState.setThread {w : Nat} (s : KeyState w) (i : Nat) (th : Option (KeyThread w)) :
    Nat → Option (KeyThread w) :=
  fun j => if j = i then th else s.threads j

def keyStep {w : Nat} (safe : Bool) (s : KeyState w) :
    KeyAction w → Except TssFault (KeyState w)
  | .start kernelId =>
    pure { s with started := s.started + 1, threads := s.setThread s.started (some { kernelId }) }
  | .call i =>
    match s.threads i with
    | none => throw .disabled
    | some th =>
      let (key, generationCounter, th) := th.myCurrentThreadId safe s.generationCounter
      pure { s with
        generationCounter
        threads := s.setThread i (some th)
        given := (i, key) :: s.given }
  | .exit i =>
    match s.threads i with
    | none => throw .disabled
    | some _ => pure { s with threads := s.setThread i none }

/-- What the kernel promises: a new thread has an id that no live one has. -/
def KeyState.IdsApart {w : Nat} (s : KeyState w) : KeyAction w → Prop
  | .start kernelId => ∀ i th, s.threads i = some th → th.kernelId ≠ kernelId
  | _ => True

/-- The step draws no generation, or one that is neither the sentinel nor too large for the
half of the key it stands in. -/
def KeyState.Spare {w : Nat} (s : KeyState w) : KeyAction w → Prop
  | .call i => ∀ th, s.threads i = some th → th.generationCached = 0 →
      s.generationCounter.toNat + 1 < 2 ^ w ∧ s.generationCounter.toNat < 2 ^ 32
  | _ => True

end Wg14Signals
