import Wg14Signals.Verstable
import Mathlib.Data.Finset.Card
import Mathlib.Data.Finset.Range

namespace Wg14Signals.VtTable
open Lib

variable {κ ν : Type}

/-- Quadratic probing under a mask. -/
def scheme (hashFn : κ → BitVec 64) (mask : Nat) : Scheme Nat κ where
  slot homeBucket displacement := (homeBucket + vtQuadratic displacement) &&& mask
  home key := (hashFn key).toNat &&& mask
  stop := vtDisplacementLimit
  slot_zero key := by simp [vtQuadratic, Nat.and_assoc]
  stop_pos := by decide

/-- The table as cells with chains threaded through them. One bucket may be left `out`: its
key has been moved away, but the metadatum does not say so yet. -/
def cells (t : VtTable κ ν) (out : Option Nat := none) : Cells Nat κ ν where
  used b := b ≤ t.bucketsMask ∧ t.metadata b ≠ vtEmpty ∧ some b ≠ out
  head b := b ≤ t.bucketsMask ∧ t.metadata b &&& vtInHomeBucketMask ≠ 0
  link := t.displacement
  entry := t.buckets

/-- The bucket holds this key and value. -/
def Holds (t : VtTable κ ν) (b : Nat) (key : κ) (val : ν) : Prop := t.cells.Holds b key val

/-- Some bucket does. -/
def Has (t : VtTable κ ν) (key : κ) (val : ν) : Prop := ∃ b, t.Holds b key val

/-- The table holds what a finite map says. -/
def Maps (t : VtTable κ ν) (m : κ → Option ν) : Prop := ∀ key val, m key = some val ↔ t.Has key val

def inUse (t : VtTable κ ν) : Finset Nat :=
  (Finset.range (t.bucketsMask + 1)).filter fun b => t.metadata b ≠ vtEmpty

/-- Every bucket in use holds a key, no two the same one; chains do not matter. This is all
that `rehash` needs of the table it leaves. -/
structure Stored (t : VtTable κ ν) : Prop where
  size : ∃ n, t.bucketsMask + 1 = 2 ^ n ∧ (n = 0 ∨ 3 ≤ n)
  entry : ∀ b, t.cells.used b → ∃ key val, t.buckets b = some (key, val)
  keys : ∀ b b' key val val', t.Holds b key val → t.Holds b' key val' → b = b'
  count : t.keyCount = t.inUse.card
  load : exceedsMaxLoad t.keyCount t.bucketCount = false
  /-- The iteration stopper. -/
  stopper : t.bucketsMask ≠ 0 → t.metadata (t.bucketsMask + 1) ≠ vtEmpty

/-- The table between two operations. -/
structure Wf (hashFn : κ → BitVec 64) (t : VtTable κ ν) : Prop extends Stored t where
  chained : ∃ chains, t.cells.Wf (scheme hashFn t.bucketsMask) chains
  hashfrag : ∀ b key val, t.Holds b key val →
    t.metadata b &&& vtHashFragMask = vtHashfrag (hashFn key)

/-- No room for a new key without a rehash. -/
def Full (m : κ → Option ν) (t : VtTable κ ν) (key : κ) : Prop :=
  m key = none ∧ exceedsMaxLoad (t.keyCount + 1) t.bucketCount = true

/-- A finite map with another value for a key. -/
def put [DecidableEq κ] (m : κ → Option ν) (key : κ) (val : ν) : κ → Option ν :=
  fun k => if k = key then some val else m k

/-- A finite map without a key. -/
def drop [DecidableEq κ] (m : κ → Option ν) (key : κ) : κ → Option ν :=
  fun k => if k = key then none else m k

end Wg14Signals.VtTable
