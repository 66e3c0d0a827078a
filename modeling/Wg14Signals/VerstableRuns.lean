import Wg14Signals.Lib.Runs
import Wg14Signals.VerstableMap

namespace Wg14Signals
open Lib

/-- The calls a table can receive, those that allocate with what `malloc` will say. -/
inductive VtOp (κ ν : Type) where
  | insert (key : κ) (val : ν) (mallocs : List Bool)
  | getOrInsert (key : κ) (val : ν) (mallocs : List Bool)
  | get (key : κ)
  | size
  | erase (key : κ)
  | reserve (size : Nat) (mallocs : List Bool)
  | shrink (mallocs : List Bool)
  | clear
  | cleanup
  /-- A loop over the table that erases the keys it is not to keep. -/
  | sweep (keep : κ → ν → Bool)

/-- What a caller learns from a call. -/
inductive VtAnswer (κ ν : Type) where
  /-- What the iterator returned points to, unless it is the end iterator. -/
  | entry (e : Option (κ × ν))
  | count (n : Nat)
  | done (ok : Bool)
  | visited (entries : List (κ × ν))

/-- Does the call store a key that may be new? -/
def VtOp.inserts {κ ν : Type} : VtOp κ ν → Bool
  | .insert .. | .getOrInsert .. => true
  | _ => false

/-- The key a call stores, unless it runs out of memory. -/
def VtOp.stores {κ ν : Type} : VtOp κ ν → Option κ
  | .insert key _ _ | .getOrInsert key _ _ => some key
  | _ => none

/-- Does the call never give buckets back? -/
def VtOp.keepsBuckets {κ ν : Type} : VtOp κ ν → Bool
  | .shrink _ | .cleanup => false
  | _ => true

namespace VtTable

variable {κ ν : Type}

def entryAt (t : VtTable κ ν) (itr : VtItr) : Except VtFault (Option (κ × ν)) :=
  if itr.isEnd then pure none
  else do
    let entry ← t.readBucket itr.metadatum
    pure (some entry)

variable [DecidableEq κ]

def apply (hashFn : κ → BitVec 64) (t : VtTable κ ν) :
    VtOp κ ν → Except VtFault (VtAnswer κ ν × VtTable κ ν)
  | .insert key val mallocs => do
    let (itr, t, _) ← t.insert hashFn key val mallocs
    let entry ← t.entryAt itr
    pure (.entry entry, t)
  | .getOrInsert key val mallocs => do
    let (itr, t, _) ← t.getOrInsert hashFn key val mallocs
    let entry ← t.entryAt itr
    pure (.entry entry, t)
  | .get key => do
    let itr ← t.get hashFn key
    let entry ← t.entryAt itr
    pure (.entry entry, t)
  | .size => pure (.count t.size, t)
  | .erase key => do
    let (erased, t) ← t.erase hashFn key
    pure (.done erased, t)
  | .reserve size mallocs => do
    let (ok, t, _) ← t.reserve hashFn size mallocs
    pure (.done ok, t)
  | .shrink mallocs => do
    let (ok, t, _) ← t.shrink hashFn mallocs
    pure (.done ok, t)
  | .clear => pure (.done true, t.clear)
  | .cleanup => pure (.done true, t.cleanup)
  | .sweep keep => do
    let (visited, t) ← t.sweep hashFn keep
    pure (.visited visited, t)

/-- The entries of a finite map that are to be kept. -/
def keepIn (m : κ → Option ν) (keep : κ → ν → Bool) : κ → Option ν :=
  fun k => (m k).filter (keep k)

omit [DecidableEq κ] in
/-- A list has the entries of a finite map, each key once. -/
structure Lists (m : κ → Option ν) (entries : List (κ × ν)) : Prop where
  nodup : (entries.map Prod.fst).Nodup
  mem : ∀ k v, (k, v) ∈ entries ↔ m k = some v

end VtTable

open VtTable

/-- What the calls mean: operations on a finite map, in which only an insertion may fail,
for want of memory. -/
inductive VtOp.Means {κ ν : Type} [DecidableEq κ] (m : κ → Option ν) :
    VtOp κ ν → VtAnswer κ ν → (κ → Option ν) → Prop where
  | insert (key : κ) (val : ν) (mallocs : List Bool) :
    Means m (.insert key val mallocs) (.entry (some (key, val))) (put m key val)
  | notInserted (key : κ) (val : ν) (mallocs : List Bool) (absent : m key = none) :
    Means m (.insert key val mallocs) (.entry none) m
  | getOrInsert (key : κ) (val : ν) (mallocs : List Bool) :
    Means m (.getOrInsert key val mallocs) (.entry (some (key, (m key).getD val)))
      (put m key ((m key).getD val))
  | notGot (key : κ) (val : ν) (mallocs : List Bool) (absent : m key = none) :
    Means m (.getOrInsert key val mallocs) (.entry none) m
  | get (key : κ) : Means m (.get key) (.entry ((m key).map (key, ·))) m
  | size (entries : List (κ × ν)) (lists : Lists m entries) :
    Means m .size (.count entries.length) m
  | erase (key : κ) : Means m (.erase key) (.done (m key).isSome) (drop m key)
  | reserve (size : Nat) (mallocs : List Bool) (ok : Bool) :
    Means m (.reserve size mallocs) (.done ok) m
  | shrink (mallocs : List Bool) (ok : Bool) : Means m (.shrink mallocs) (.done ok) m
  | clear : Means m .clear (.done true) fun _ => none
  | cleanup : Means m .cleanup (.done true) fun _ => none
  | sweep (keep : κ → ν → Bool) (entries : List (κ × ν)) (lists : Lists m entries) :
    Means m (.sweep keep) (.visited entries) (keepIn m keep)

/-- The calls a table has received, and its answers, the last one first. -/
abbrev VtLog (κ ν : Type) := List (VtOp κ ν × VtAnswer κ ν)

/-- The answers are those of a finite map, which has become `m`. -/
inductive VtLog.Explains {κ ν : Type} [DecidableEq κ] : VtLog κ ν → (κ → Option ν) → Prop where
  | nil : Explains [] fun _ => none
  | cons {log : VtLog κ ν} {m m' : κ → Option ν} {op : VtOp κ ν} {answer : VtAnswer κ ν}
    (before : Explains log m) (means : op.Means m answer m') : Explains ((op, answer) :: log) m'

/-- A table and what has happened to it. -/
structure VtHistory (κ ν : Type) where
  table : VtTable κ ν
  log : VtLog κ ν

namespace VtHistory

variable {κ ν : Type} [DecidableEq κ]

omit [DecidableEq κ] in
def initial : VtHistory κ ν where
  table := .init
  log := []

def step (hashFn : κ → BitVec 64) (s : VtHistory κ ν) (op : VtOp κ ν) :
    Except VtFault (VtHistory κ ν) := do
  let (answer, t) ← s.table.apply hashFn op
  pure { table := t, log := (op, answer) :: s.log }

/-- An insertion that runs out of memory finds fewer keys than the displacement limit. With
more, `evict` may have taken a key off its chain before it found no bucket for it. -/
def Safe (hashFn : κ → BitVec 64) (s : VtHistory κ ν) (op : VtOp κ ν) : Prop :=
  op.inserts = true → ∀ t, s.table.apply hashFn op = .ok (.entry none, t) →
    s.table.keyCount < vtDisplacementLimit

/-- What a table can have been through. -/
def Reached (hashFn : κ → BitVec 64) (s : VtHistory κ ν) : Prop :=
  Run (step hashFn) (Safe hashFn) initial s

end VtHistory

end Wg14Signals
