import Wg14Signals.LockUnlock
import Wg14Signals.VerstableRuns

/-! Threads that share a hash table under a lock, as they do the tables of the library. -/

namespace Wg14Signals.LockedTable
open Lib VtTable

/-- A table, unless it has misbehaved. -/
abbrev Shared (κ ν : Type) := Except VtFault (VtTable κ ν)

/-- What a thread does with the lock, or with the table between `LOCK` and `UNLOCK`. -/
inductive Act (τ κ ν : Type) where
  | begin (t : τ) (ops : List (VtOp κ ν))
  | load (t : τ)
  | swap (t : τ) (spurious : Bool)
  | work (t : τ)
  | unlock (t : τ)

variable {τ κ ν : Type} [DecidableEq κ]

/-- A call, whose answer the thread notes. -/
def call (hashFn : κ → BitVec 64) (op : VtOp κ ν) : SectionStep (Shared κ ν) (VtLog κ ν) := fun x =>
  match x.1 with
  | .error _ => x
  | .ok t =>
    match t.apply hashFn op with
    | .error e => (.error e, x.2)
    | .ok (answer, t) => (.ok t, (op, answer) :: x.2)

def Act.spin (hashFn : κ → BitVec 64) : Act τ κ ν → SpinAct τ (Shared κ ν) (VtLog κ ν)
  | begin t ops => .begin t (ops.map (call hashFn))
  | load t => .load t
  | swap t spurious => .swap t spurious
  | work t => .work t
  | unlock t => .unlock t

/-- Nobody has come to the lock, and the table has just been initialised. -/
def initial : Spin τ (Shared κ ν) (VtLog κ ν) := .initial (.ok .init) fun _ => []

/-- The sections a thread has come to, each with its calls. -/
def begun [DecidableEq τ] (t : τ) (acts : List (Act τ κ ν)) : List (List (VtOp κ ν)) :=
  acts.filterMap fun act =>
    match act with
    | .begin u ops => if u = t then some ops else none
    | _ => none

/-- All keys the threads store are among these. -/
def StoresIn (K : Finset κ) (acts : List (Act τ κ ν)) : Prop :=
  ∀ t ops, Act.begin t ops ∈ acts → ∀ op ∈ ops, ∀ k, op.stores = some k → k ∈ K

/-- A section that has been performed. -/
def whole (hashFn : κ → BitVec 64) (x : τ × List (VtOp κ ν)) :
    WholeAct τ (Shared κ ν) (VtLog κ ν) :=
  .within x.1 (x.2.map (call hashFn))

end Wg14Signals.LockedTable
