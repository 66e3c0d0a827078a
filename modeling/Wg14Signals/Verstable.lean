import Mathlib.Algebra.Group.Nat.Defs
import Wg14Signals.Lib.Chaining

namespace Wg14Signals
open Lib

/-- `XXXXYZZZZZZZZZZZ`: a fragment of the key's hash, whether the key is in its home
bucket, and the displacement of the next key of the chain. -/
abbrev Metadatum := BitVec 16

def vtEmpty : Metadatum := 0x0000#16
def vtHashFragMask : Metadatum := 0xF000#16
def vtInHomeBucketMask : Metadatum := 0x0800#16
def vtDisplacementMask : Metadatum := 0x07FF#16

/-- The mask where it is compared with a displacement. -/
def vtDisplacementLimit : Nat := 0x07FF

def vtMinNonzeroBucketCount : Nat := 8

def vtHashfrag (hash : BitVec 64) : Metadatum := (hash >>> 48).setWidth 16 &&& vtHashFragMask

def vtQuadratic (displacement : Nat) : Nat := (displacement * displacement + displacement) / 2

def vtHashInteger (key : BitVec 64) : BitVec 64 :=
  let key := key ^^^ (key >>> 23)
  let key := key * 0x2127599bf4325c37#64
  key ^^^ (key >>> 47)

/-- More keys than `bucket_count * MAX_LOAD`. The constant is the `double` nearest to 0.9;
its product with a power of two is exact, and so is a key count below 2^53. -/
def exceedsMaxLoad (keys bucketCount : Nat) : Bool :=
  bucketCount * 8106479329266893 < keys * 2 ^ 53

/-- What the table must never do. -/
inductive VtFault where
  /-- Read a bucket in which nothing has been stored. -/
  | uninitialised (bucket : Nat)
  /-- Read past the excess metadata. -/
  | overread (metadatum : Nat)
  /-- Follow a chain, or repeat an insertion, without end. -/
  | loop
  deriving DecidableEq, Repr

/-- A hash table. Without an allocation the mask is zero, and the metadata are those of
`vt_empty_placeholder_metadatum`. -/
structure VtTable (κ ν : Type) where
  keyCount : Nat
  bucketsMask : Nat
  /-- What `malloc` leaves in a bucket is `none`. -/
  buckets : Nat → Option (κ × ν)
  metadata : Nat → Metadatum

/-- An iterator. Its pointer into the buckets moves with the one into the metadata; the
pointers are offsets, and those of the end iterator, which are null, are zero. -/
structure VtItr where
  metadatum : Nat
  metadataEnd : Nat
  /-- `SIZE_MAX` is `none`. -/
  homeBucket : Option Nat
  deriving DecidableEq, Repr

def VtItr.isEnd (itr : VtItr) : Bool := itr.metadatum == itr.metadataEnd

def VtItr.endItr : VtItr where
  metadatum := 0
  metadataEnd := 0
  homeBucket := some 0

/-- The first of four metadata in a row that is not zero. -/
def vtFirstNonzeroUint16 (metadata : Nat → Metadatum) (metadatum : Nat) : Nat :=
  let half := if metadata metadatum = 0 ∧ metadata (metadatum + 1) = 0 then 2 else 0
  if metadata (metadatum + half) = 0 then half + 1 else half

namespace VtTable

variable {κ ν : Type}

def init : VtTable κ ν where
  keyCount := 0
  bucketsMask := 0
  buckets := fun _ => none
  metadata := fun _ => vtEmpty

def bucketCount (t : VtTable κ ν) : Nat :=
  t.bucketsMask + if t.bucketsMask = 0 then 0 else 1

def size (t : VtTable κ ν) : Nat := t.keyCount

def readBucket (t : VtTable κ ν) (bucket : Nat) : Except VtFault (κ × ν) :=
  match t.buckets bucket with
  | some entry => pure entry
  | none => throw (.uninitialised bucket)

@[simps -fullyApplied]
def setBucket (t : VtTable κ ν) (bucket : Nat) (key : κ) (val : ν) : VtTable κ ν :=
  { t with buckets := fun b => if b = bucket then some (key, val) else t.buckets b }

@[simps -fullyApplied]
def setMetadatum (t : VtTable κ ν) (bucket : Nat) (m : Metadatum) : VtTable κ ν :=
  { t with metadata := fun b => if b = bucket then m else t.metadata b }

/-- The displacement in a bucket's metadatum. -/
def displacement (t : VtTable κ ν) (bucket : Nat) : Nat :=
  (t.metadata bucket &&& vtDisplacementMask).toNat

/-- The bucket at a displacement from a home bucket. -/
def slot (t : VtTable κ ν) (homeBucket displacement : Nat) : Nat :=
  (homeBucket + vtQuadratic displacement) &&& t.bucketsMask

def homeBucket (hashFn : κ → BitVec 64) (t : VtTable κ ν) (key : κ) : Nat :=
  (hashFn key).toNat &&& t.bucketsMask

/-- An iterator to a bucket, the home bucket being known. -/
def itr (t : VtTable κ ν) (bucket homeBucket : Nat) : VtItr where
  metadatum := bucket
  metadataEnd := t.bucketsMask + 1
  homeBucket := some homeBucket

/-- A `while( true )` along the chain of a home bucket. -/
def traverse {α : Type} (t : VtTable κ ν) (homeBucket bucket : Nat)
    (test : Nat → Except VtFault (Option α)) : Except VtFault α :=
  chase .loop (fun b => t.slot homeBucket (t.displacement b)) test vtDisplacementLimit bucket

/-- `find_first_empty` from a displacement on, so many of them being left below the limit. -/
def findFirstEmptyFrom (t : VtTable κ ν) (homeBucket : Nat) : Nat → Nat → Nat → Option (Nat × Nat)
  | 0, _, _ => none
  | left + 1, displacement, linearDisplacement =>
    let empty := (homeBucket + linearDisplacement) &&& t.bucketsMask
    if t.metadata empty = vtEmpty then some (empty, displacement)
    else findFirstEmptyFrom t homeBucket left (displacement + 1)
      (linearDisplacement + (displacement + 1))

/-- The earliest empty bucket for a key whose home bucket is taken, and its displacement. -/
def findFirstEmpty (t : VtTable κ ν) (homeBucket : Nat) : Option (Nat × Nat) :=
  t.findFirstEmptyFrom homeBucket (vtDisplacementLimit - 1) 1 1

/-- The bucket of the key after which one at this displacement is to be linked. -/
def findInsertLocationInChain (t : VtTable κ ν) (homeBucket displacementToEmpty : Nat) :
    Except VtFault Nat :=
  t.traverse homeBucket homeBucket fun candidate =>
    pure (if displacementToEmpty < t.displacement candidate then some candidate else none)

/-- The bucket before this one in a chain. -/
def findPrev (t : VtTable κ ν) (homeBucket bucket : Nat) : Except VtFault Nat :=
  t.traverse homeBucket homeBucket fun prev =>
    pure (if t.slot homeBucket (t.displacement prev) = bucket then some prev else none)

/-- `metadata[ bucket ]` with another displacement. -/
def withDisplacement (t : VtTable κ ν) (bucket : Nat) (displacement : Metadatum) : Metadatum :=
  (t.metadata bucket &&& ~~~vtDisplacementMask) ||| displacement

/-- Store a key in an empty bucket, and link it to its chain after the key in `prev`. -/
def linkKey (t : VtTable κ ν) (prev empty displacement : Nat) (hashfrag : Metadatum) (key : κ)
    (val : ν) : VtTable κ ν :=
  let t := t.setBucket empty key val
  let t := t.setMetadatum empty (hashfrag ||| (t.metadata prev &&& vtDisplacementMask))
  t.setMetadatum prev (t.withDisplacement prev (.ofNat 16 displacement))

/-- Take the key in a bucket off its chain, `prev` being the bucket before it. -/
def disconnect (t : VtTable κ ν) (prev bucket : Nat) : VtTable κ ν :=
  t.setMetadatum prev (t.withDisplacement prev (t.metadata bucket &&& vtDisplacementMask))

/-- The second half of `evict`: a key on no chain goes to an empty bucket, and back on the
chain of its home bucket from there. -/
def moveKey (t : VtTable κ ν) (homeBucket bucket : Nat) (key : κ) (val : ν) :
    Except VtFault (Bool × VtTable κ ν) := do
  match t.findFirstEmpty homeBucket with
  | none => pure (false, t)
  | some (empty, displacement) =>
    let prev ← t.findInsertLocationInChain homeBucket displacement
    pure (true,
      t.linkKey prev empty displacement (t.metadata bucket &&& vtHashFragMask) key val)

/-- Move a key that does not belong in the bucket out of it. False: there is nowhere to move
it to, and it is on no chain any more. -/
def evict (hashFn : κ → BitVec 64) (t : VtTable κ ν) (bucket : Nat) :
    Except VtFault (Bool × VtTable κ ν) := do
  let (key, val) ← t.readBucket bucket
  let homeBucket := t.homeBucket hashFn key
  let prev ← t.findPrev homeBucket bucket
  (t.disconnect prev bucket).moveKey homeBucket bucket key val

/-- Store a key in its home bucket, which is empty, as the beginning of a chain. -/
def storeHome (t : VtTable κ ν) (homeBucket : Nat) (hashfrag : Metadatum) (key : κ) (val : ν) :
    VtTable κ ν :=
  let t := t.setBucket homeBucket key val
  t.setMetadatum homeBucket (hashfrag ||| vtInHomeBucketMask ||| vtDisplacementMask)

variable [DecidableEq κ]

/-- Does a bucket hold this key? -/
def holdsKey (t : VtTable κ ν) (hashfrag : Metadatum) (key : κ) (bucket : Nat) :
    Except VtFault Bool :=
  if t.metadata bucket &&& vtHashFragMask = hashfrag then do
    let entry ← t.readBucket bucket
    pure (entry.1 == key)
  else pure false

/-- The loop of `insert_raw` and `get` that looks for a key on the chain of its home bucket. -/
def findInChain (t : VtTable κ ν) (homeBucket : Nat) (hashfrag : Metadatum) (key : κ) :
    Except VtFault (Option Nat) :=
  t.traverse homeBucket homeBucket fun bucket => do
    if ← t.holdsKey hashfrag key bucket then pure (some (some bucket))
    else pure (if t.displacement bucket = vtDisplacementLimit then some none else none)

/-- `insert_raw` where the home bucket is empty, or holds a key that does not belong there. -/
def insertAtHome (hashFn : κ → BitVec 64) (t : VtTable κ ν) (key : κ) (val : ν) :
    Except VtFault (VtItr × VtTable κ ν) := do
  let homeBucket := t.homeBucket hashFn key
  if exceedsMaxLoad (t.keyCount + 1) t.bucketCount then
    pure (.endItr, t)
  else
    let (vacated, t) ←
      if t.metadata homeBucket = vtEmpty then pure (true, t) else t.evict hashFn homeBucket
    if vacated then
      let t := t.storeHome homeBucket (vtHashfrag (hashFn key)) key val
      pure (t.itr homeBucket homeBucket, { t with keyCount := t.keyCount + 1 })
    else pure (.endItr, t)

/-- `insert_raw` where the home bucket begins a chain on which the key is not. -/
def insertInChain (hashFn : κ → BitVec 64) (t : VtTable κ ν) (key : κ) (val : ν) :
    Except VtFault (VtItr × VtTable κ ν) := do
  let homeBucket := t.homeBucket hashFn key
  if exceedsMaxLoad (t.keyCount + 1) t.bucketCount then
    pure (.endItr, t)
  else
    match t.findFirstEmpty homeBucket with
    | none => pure (.endItr, t)
    | some (empty, displacement) =>
      let prev ← t.findInsertLocationInChain homeBucket displacement
      let t := t.linkKey prev empty displacement (vtHashfrag (hashFn key)) key val
      pure (t.itr empty homeBucket, { t with keyCount := t.keyCount + 1 })

def insertRaw (hashFn : κ → BitVec 64) (t : VtTable κ ν) (key : κ) (val : ν)
    (unique replace : Bool) : Except VtFault (VtItr × VtTable κ ν) := do
  let homeBucket := t.homeBucket hashFn key
  if t.metadata homeBucket &&& vtInHomeBucketMask = 0 then t.insertAtHome hashFn key val
  else
    let found ←
      if unique then pure none else t.findInChain homeBucket (vtHashfrag (hashFn key)) key
    match found with
    | some bucket =>
      pure (t.itr bucket homeBucket, if replace then t.setBucket bucket key val else t)
    | none => t.insertInChain hashFn key val

/-- What `rehash` allocates: no key, and a stopper after the last metadatum. -/
def allocated (bucketCount : Nat) : VtTable κ ν where
  keyCount := 0
  bucketsMask := bucketCount - 1
  buckets := fun _ => none
  metadata := fun b => if b = bucketCount then 0x01 else vtEmpty

/-- The loop of `rehash` over the buckets of the old table, which a key that cannot be
reinserted ends. -/
def reinsert (hashFn : κ → BitVec 64) (t : VtTable κ ν) :
    List Nat → VtTable κ ν → Except VtFault (VtTable κ ν)
  | [], newTable => pure newTable
  | bucket :: rest, newTable =>
    if t.metadata bucket = vtEmpty then reinsert hashFn t rest newTable
    else do
      let (key, val) ← t.readBucket bucket
      let (itr, newTable) ← newTable.insertRaw hashFn key val true false
      if itr.isEnd then pure newTable else reinsert hashFn t rest newTable

/-- Move all keys to a larger or smaller allocation. The list says which of the calls of
`malloc` succeed, the first first; after its end none does. What is left of it is returned. -/
def rehash (hashFn : κ → BitVec 64) (t : VtTable κ ν) :
    Nat → List Bool → Except VtFault (Bool × VtTable κ ν × List Bool)
  | _, [] => pure (false, t, [])
  | _, false :: mallocs => pure (false, t, mallocs)
  | bucketCount, true :: mallocs => do
    let newTable ← t.reinsert hashFn (List.range t.bucketCount) (allocated bucketCount)
    if newTable.keyCount < t.keyCount then rehash hashFn t (bucketCount * 2) mallocs
    else pure (true, newTable, mallocs)

/-- The loop of `insert` and `get_or_insert`. Each round but the first follows a `malloc`. -/
def insertGrowing (hashFn : κ → BitVec 64) (key : κ) (val : ν) (replace : Bool) :
    Nat → VtTable κ ν → List Bool → Except VtFault (VtItr × VtTable κ ν × List Bool)
  | 0, _, _ => throw .loop
  | rounds + 1, t, mallocs => do
    let (itr, t) ← t.insertRaw hashFn key val false replace
    if itr.isEnd = false then pure (itr, t, mallocs)
    else
      let (grown, t, mallocs) ← t.rehash hashFn
        (if t.bucketsMask = 0 then vtMinNonzeroBucketCount else t.bucketCount * 2) mallocs
      if grown then insertGrowing hashFn key val replace rounds t mallocs
      else pure (itr, t, mallocs)

def insert (hashFn : κ → BitVec 64) (t : VtTable κ ν) (key : κ) (val : ν) (mallocs : List Bool) :
    Except VtFault (VtItr × VtTable κ ν × List Bool) :=
  insertGrowing hashFn key val true (mallocs.length + 1) t mallocs

def getOrInsert (hashFn : κ → BitVec 64) (t : VtTable κ ν) (key : κ) (val : ν)
    (mallocs : List Bool) : Except VtFault (VtItr × VtTable κ ν × List Bool) :=
  insertGrowing hashFn key val false (mallocs.length + 1) t mallocs

def get (hashFn : κ → BitVec 64) (t : VtTable κ ν) (key : κ) : Except VtFault VtItr := do
  let homeBucket := t.homeBucket hashFn key
  if t.metadata homeBucket &&& vtInHomeBucketMask = 0 then pure .endItr
  else
    match ← t.findInChain homeBucket (vtHashfrag (hashFn key)) key with
    | some bucket => pure (t.itr bucket homeBucket)
    | none => pure .endItr

omit [DecidableEq κ] in
/-- The home bucket of the key an iterator stands at, which it may not have recorded. -/
def itrHomeBucket (hashFn : κ → BitVec 64) (t : VtTable κ ν) (itr : VtItr) : Except VtFault Nat :=
  match itr.homeBucket with
  | some homeBucket => pure homeBucket
  | none =>
    if t.metadata itr.metadatum &&& vtInHomeBucketMask ≠ 0 then pure itr.metadatum
    else do
      let entry ← t.readBucket itr.metadatum
      pure (t.homeBucket hashFn entry.1)

/-- Erase the key an iterator stands at, always at the end of its chain. True: the iterator
is to be advanced. -/
def eraseItrRaw (hashFn : κ → BitVec 64) (t : VtTable κ ν) (itr : VtItr) :
    Except VtFault (Bool × VtTable κ ν) := do
  let t := { t with keyCount := t.keyCount - 1 }
  let itrBucket := itr.metadatum
  let inHomeBucket := t.metadata itrBucket &&& vtInHomeBucketMask ≠ 0
  if inHomeBucket ∧ t.displacement itrBucket = vtDisplacementLimit then
    pure (true, t.setMetadatum itrBucket vtEmpty)
  else
    let homeBucket ← t.itrHomeBucket hashFn itr
    if t.displacement itrBucket = vtDisplacementLimit then
      let bucket ← t.findPrev homeBucket itrBucket
      let t := t.setMetadatum bucket (t.metadata bucket ||| vtDisplacementMask)
      pure (true, t.setMetadatum itrBucket vtEmpty)
    else
      -- the last key of the chain, and the one before it
      let (prev, bucket) ← t.traverse homeBucket itrBucket fun prev =>
        let bucket := t.slot homeBucket (t.displacement prev)
        pure (if t.displacement bucket = vtDisplacementLimit then some (prev, bucket) else none)
      let (key, val) ← t.readBucket bucket
      let t := t.setBucket itrBucket key val
      let t := t.setMetadatum itrBucket ((t.metadata itrBucket &&& ~~~vtHashFragMask) |||
        (t.metadata bucket &&& vtHashFragMask))
      let t := t.setMetadatum prev (t.metadata prev ||| vtDisplacementMask)
      let t := t.setMetadatum bucket vtEmpty
      pure (decide (bucket ≤ itrBucket), t)

def erase (hashFn : κ → BitVec 64) (t : VtTable κ ν) (key : κ) :
    Except VtFault (Bool × VtTable κ ν) := do
  let itr ← t.get hashFn key
  if itr.isEnd then pure (false, t)
  else
    let (_, t) ← t.eraseItrRaw hashFn itr
    pure (true, t)

omit [DecidableEq κ] in
/-- On to the first bucket in use, four metadata at a time. -/
def fastForward (t : VtTable κ ν) : Nat → VtItr → Except VtFault VtItr
  | 0, _ => throw .loop
  | fuel + 1, itr =>
    let i := itr.metadatum
    if t.bucketsMask + 1 + 4 < i + 4 then throw (.overread i)
    else if t.metadata i = 0 ∧ t.metadata (i + 1) = 0 ∧ t.metadata (i + 2) = 0 ∧
        t.metadata (i + 3) = 0 then
      t.fastForward fuel { itr with metadatum := i + 4 }
    else pure { itr with
      metadatum := i + vtFirstNonzeroUint16 t.metadata i
      homeBucket := none }

omit [DecidableEq κ] in
def next (t : VtTable κ ν) (itr : VtItr) : Except VtFault VtItr :=
  t.fastForward (t.bucketCount + 1) { itr with metadatum := itr.metadatum + 1 }

omit [DecidableEq κ] in
def first (t : VtTable κ ν) : Except VtFault VtItr :=
  if t.keyCount = 0 then pure .endItr
  else t.fastForward (t.bucketCount + 1)
    { metadatum := 0, metadataEnd := t.bucketsMask + 1, homeBucket := none }

def eraseItr (hashFn : κ → BitVec 64) (t : VtTable κ ν) (itr : VtItr) :
    Except VtFault (VtItr × VtTable κ ν) := do
  let (advance, t) ← t.eraseItrRaw hashFn itr
  if advance then do
    let itr ← t.next itr
    pure (itr, t)
  else pure (itr, t)

/-- On from a key in a loop over the table, the key being erased or kept. -/
def sweepOn (hashFn : κ → BitVec 64) (t : VtTable κ ν) (itr : VtItr) (kept : Bool) :
    Except VtFault (VtItr × VtTable κ ν) :=
  if kept then do
    let itr ← t.next itr
    pure (itr, t)
  else t.eraseItr hashFn itr

/-- A loop from an iterator on that visits every key, and erases those not to be kept. -/
def sweepFrom (hashFn : κ → BitVec 64) (keep : κ → ν → Bool) :
    Nat → VtTable κ ν → VtItr → Except VtFault (List (κ × ν) × VtTable κ ν)
  | 0, _, _ => throw .loop
  | fuel + 1, t, itr =>
    if itr.isEnd then pure ([], t)
    else do
      let (key, val) ← t.readBucket itr.metadatum
      let (itr, t) ← t.sweepOn hashFn itr (keep key val)
      let (visited, t) ← sweepFrom hashFn keep fuel t itr
      pure ((key, val) :: visited, t)

def sweep (hashFn : κ → BitVec 64) (keep : κ → ν → Bool) (t : VtTable κ ν) :
    Except VtFault (List (κ × ν) × VtTable κ ν) := do
  let itr ← t.first
  sweepFrom hashFn keep (t.keyCount + 1) t itr

/-- Doubled until so many keys are within the maximum load. -/
def growFor (size : Nat) : Nat → Nat → Nat
  | 0, bucketCount => bucketCount
  | fuel + 1, bucketCount =>
    if exceedsMaxLoad size bucketCount then growFor size fuel (bucketCount * 2) else bucketCount

def minBucketCountForSize (size : Nat) : Nat :=
  if size = 0 then 0 else growFor size size vtMinNonzeroBucketCount

def reserve (hashFn : κ → BitVec 64) (t : VtTable κ ν) (size : Nat) (mallocs : List Bool) :
    Except VtFault (Bool × VtTable κ ν × List Bool) :=
  let bucketCount := minBucketCountForSize size
  if bucketCount ≤ t.bucketCount then pure (true, t, mallocs)
  else t.rehash hashFn bucketCount mallocs

def shrink (hashFn : κ → BitVec 64) (t : VtTable κ ν) (mallocs : List Bool) :
    Except VtFault (Bool × VtTable κ ν × List Bool) :=
  let bucketCount := minBucketCountForSize t.keyCount
  if bucketCount = t.bucketCount then pure (true, t, mallocs)
  else if bucketCount = 0 then
    -- `buckets` is left as it is, and not read any more
    pure (true, { t with bucketsMask := 0, metadata := fun _ => vtEmpty }, mallocs)
  else t.rehash hashFn bucketCount mallocs

def clear (t : VtTable κ ν) : VtTable κ ν :=
  if t.keyCount = 0 then t
  else { t with
    keyCount := 0
    metadata := fun b => if b < t.bucketCount then vtEmpty else t.metadata b }

def cleanup (t : VtTable κ ν) : VtTable κ ν := if t.bucketsMask = 0 then t else init

end VtTable

end Wg14Signals
