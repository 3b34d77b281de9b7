import Nachos.Lib.LinkedList
import Mathlib.Algebra.Ring.Int.Defs

/-!
# Hash tables (`lib/hash.cc`)

A bucket is a linked list, and `numBuckets` is the number of buckets. `int`s that overflow are
`Fault.undefined`. `getKey` and `hash` are those of the constructor; `choice item` is where `new` would put
the element for an item.
-/

namespace Nachos

def initialBuckets : Nat := 4
def resizeRatio : Int := 3
def increaseSizeBy : Nat := 4

structure HashTable (T : Type) where
  buckets : List (LinkedList T)
  numItems : Int

namespace HashTable

variable {Key T : Type}

def initBuckets (t : HashTable T) (sz : Nat) : HashTable T := { t with buckets := List.replicate sz .new }

def new : HashTable T := initBuckets ⟨[], 0⟩ initialBuckets

def bucket (t : HashTable T) (i : Nat) : Except Fault (LinkedList T) :=
  (t.buckets[i]?).elim (.error .undefined) .ok

def findNextFullBucket (t : HashTable T) (bucket : Nat) : Nat :=
  bucket + (t.buckets.drop bucket).findIdx (!·.isEmpty)

section

variable (getKey : T → Key) (hash : Key → BitVec 32)

def hashValue (t : HashTable T) (key : Key) : Except Fault Nat := do
  let result := (hash key).toNat % t.buckets.length
  assert (result < t.buckets.length)
  return result

def sanityCheck (t : HashTable T) : Except Fault Unit := do
  t.buckets.zipIdx.forM fun (bucket, i) => do
    bucket.sanityCheck
    let _ ← bucket.iterate fun item => do
      assert (i = (← t.hashValue hash (getKey item)))
      return (none : Option Unit)
  assert (t.numItems = (t.buckets.map LinkedList.numInList).sum)

variable [DecidableEq Key]

def findInBucket (t : HashTable T) (bucket : Nat) (key : Key) : Except Fault (Option T) := do
  (← t.bucket bucket).iterate fun item => return if key = getKey item then some item else none

def find (t : HashTable T) (key : Key) : Except Fault (Option T) := do
  t.findInBucket getKey (← t.hashValue hash key) key

def isInTable (t : HashTable T) (key : Key) : Except Fault Bool :=
  return (← t.find getKey hash key).isSome

variable [DecidableEq T] (choice : T → Nat)

/-- `buckets[HashValue(getKey(item))]->Append(item)`. -/
def append (t : HashTable T) (item : T) : Except Fault (HashTable T) := do
  let i ← t.hashValue hash (getKey item)
  let bucket ← (← t.bucket i).append (choice item) item
  return { t with buckets := t.buckets.set i bucket }

/-- The inner loop of `ReHash`, which empties an old bucket, for at most `n` rounds. -/
def moveItems (t : HashTable T) : Nat → LinkedList T → Except Fault (HashTable T)
  | n, old => if old.isEmpty then .ok t else
    match n with
    | 0 => .error .undefined
    | n + 1 => do
      let (item, old) ← old.removeFront
      (← t.append getKey hash choice item).moveItems n old

def reHash (t : HashTable T) : Except Fault (HashTable T) := do
  t.sanityCheck getKey hash
  if t.buckets.length * increaseSizeBy < 2 ^ 31 then
    let t ← t.buckets.foldlM (fun t old => t.moveItems getKey hash choice old.size old)
      (t.initBuckets (t.buckets.length * increaseSizeBy))
    t.sanityCheck getKey hash
    return t
  else .error .undefined

/-- `Insert` rehashes a table that is too full. -/
def resize (t : HashTable T) : Except Fault (HashTable T) :=
  if resizeRatio ≤ t.numItems.tdiv t.buckets.length then t.reHash getKey hash choice else .ok t

def insert (t : HashTable T) (item : T) : Except Fault (HashTable T) := do
  assert ((← t.isInTable getKey hash (getKey item)) = false)
  let t ← (← t.resize getKey hash choice).append getKey hash choice item
  if t.numItems + 1 < 2 ^ 31 then
    let t := { t with numItems := t.numItems + 1 }
    assert ((← t.isInTable getKey hash (getKey item)) = true)
    return t
  else .error .undefined

def remove (t : HashTable T) (key : Key) : Except Fault (T × HashTable T) := do
  let i ← t.hashValue hash key
  match ← t.findInBucket getKey i key with
  | none => .error .assertion
  | some item =>
    let bucket ← (← t.bucket i).remove item
    let t := { buckets := t.buckets.set i bucket, numItems := t.numItems - 1 }
    assert ((← t.isInTable getKey hash key) = false)
    return (item, t)

inductive Call (Key T : Type)
  | insert (choice : T → Nat) (item : T)
  | remove (key : Key)

def call (t : HashTable T) : Call Key T → Except Fault (Option T × HashTable T)
  | .insert choice item => return (none, ← t.insert getKey hash choice item)
  | .remove key => do
    let (item, t) ← t.remove getKey hash key
    return (some item, t)

end

structure HashIterator where
  bucket : Nat
  bucketIter : Option LinkedList.ListIterator

namespace HashIterator

/-- The iterator in the first full bucket from `bucket` on. -/
def startAt (table : HashTable T) (bucket : Nat) : HashIterator :=
  let bucket := table.findNextFullBucket bucket
  ⟨bucket, (table.buckets[bucket]?).map .new⟩

def new (table : HashTable T) : HashIterator := startAt table 0

def isDone (table : HashTable T) (it : HashIterator) : Bool := it.bucket == table.buckets.length

def item (table : HashTable T) (it : HashIterator) : Except Fault T := do
  assert (it.isDone table = false)
  match it.bucketIter with
  | none => .error .undefined
  | some bucketIter => bucketIter.item (← table.bucket it.bucket)

def next (table : HashTable T) (it : HashIterator) : Except Fault HashIterator :=
  match it.bucketIter with
  | none => .error .undefined
  | some bucketIter => do
    let bucketIter ← bucketIter.next (← table.bucket it.bucket)
    return if bucketIter.isDone then startAt table (it.bucket + 1)
      else { it with bucketIter := some bucketIter }

/-- `for (; !iter->IsDone(); iter->Next())` with `iter->Item()`, for at most `n` rounds. -/
def visits (table : HashTable T) : Nat → HashIterator → Except Fault (List T)
  | n, it => if it.isDone table then .ok [] else
    match n with
    | 0 => .error .undefined
    | n + 1 => do
      let item ← it.item table
      let items ← visits table n (← it.next table)
      return item :: items

end HashIterator

end HashTable

end Nachos
