import Wg14Signals.TssHistory

namespace Wg14Signals
open Lib

/-- What one thread does with an instance before it exits, in order. While the `attr.create`
of a `thread_init` runs, signal handlers do what stands in its `during`. -/
inductive TssUse where
  | done
  | get (rest : TssUse)
  | threadInit (pos : Nat) (during rest : TssUse)

/-- How many of the nested calls of the first `thread_init` create an item, itself included. -/
def TssUse.depth : TssUse → Nat
  | .done => 0
  | .get rest => rest.depth
  | .threadInit _ during _ => during.depth + 1

/-- A signal handler enters the first `thread_init` again, its item not being created yet. -/
def TssUse.reenters : TssUse → Bool
  | .done => false
  | .get rest => rest.reenters
  | .threadInit _ during _ => 0 < during.depth

/-- Callbacks and allocations succeed. The pointers `get` has returned are in order. -/
def TssUse.run (t : Tid) (val : Addr) :
    TssUse → TssHistory → Except TssFault (List (Option Value) × TssHistory)
  | .done, h => pure ([], h)
  | .get rest, h => do
    let ret ← tssAsyncSignalSafeGet h.state.mem t val
    let h ← historyStep h (.get t val)
    let (got, h) ← rest.run t val h
    pure (ret :: got, h)
  | .threadInit pos during rest, h => do
    let ret ← tssAsyncSignalSafeGet h.state.mem t val
    let h ← historyStep h (.threadInit t val)
    match ret with
    | some _ => rest.run t val h
    | none => do
      let (nested, h) ← during.run t val h
      let h ← historyStep h (.created t .item)
      let h ← historyStep h (.advance t { pos })
      let h ← historyStep h (.advance t { pos })
      let (got, h) ← rest.run t val h
      pure (nested ++ got, h)

/-- The registrations on the `deinit_state` of an instance. -/
def TssMem.count (m : TssMem) (val : Addr) : Nat :=
  match (m.instances val).bind Tss.state with
  | none => 0
  | some state =>
    match m.states state with
    | none => 0
    | some st => st.count

/-- What a thread that exits does next. -/
def TssState.leaving (s : TssState) (t : Tid) : TssAction :=
  match s.top t with
  | some _ => .advance t {}
  | none => if s.exiting t then .runAtexit t else .exit t

/-- What `h` has become in `h'` through a use of the instance and the exit callbacks after it. -/
structure Tolerated (val : Addr) (h : TssHistory) (got : List (Option Value))
    (h' : TssHistory) : Prop where
  /-- A pointer once returned is returned from then on. -/
  stable : got.Pairwise fun a b => ∀ v, a = some v → b = some v
  /-- Each item that has been created is destroyed once. -/
  destroyed : ∀ vs, h'.produced = vs ++ h.produced →
    ∀ v ∈ vs, h'.state.begun v = h.state.begun v + 1
  count : h'.state.mem.count val = h.state.mem.count val

end Wg14Signals
