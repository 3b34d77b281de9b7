import Nachos.Base.Words
import Nachos.Lib.Debug

/-!
# Bitmaps (`lib/bitmap.cc`)

An array of bits stored in 32-bit words. Every access asserts that the bit number is in range;
`Mark` and `Clear` assert their effect with `Test`.
-/

namespace Nachos

open Base

def bitsInWord : Nat := 32

/-- `Bitmap`: `numBits` bits in `numWords` words (`map.length`). -/
structure Bitmap where
  numBits : Nat
  map : List (BitVec bitsInWord)
  numWords : map.length = divRoundUp numBits bitsInWord
  deriving DecidableEq

namespace Bitmap

def test (b : Bitmap) (which : Int) : Except Fault Bool := do
  assert (0 ≤ which ∧ which < b.numBits)
  return b.map.getD (which.toNat / bitsInWord) 0 &&& Words.one bitsInWord (which.toNat % bitsInWord)
    != 0

/-- The bitmap with its words changed at one place, as many words as before. -/
def withMap (b : Bitmap) (map : List (BitVec bitsInWord)) (h : map.length = b.map.length) :
    Bitmap :=
  { b with map, numWords := h.trans b.numWords }

def mark (b : Bitmap) (which : Int) : Except Fault Bitmap := do
  assert (0 ≤ which ∧ which < b.numBits)
  let b := b.withMap (Words.set b.map which.toNat) (Words.length_set ..)
  assert ((← b.test which) = true)
  return b

def clear (b : Bitmap) (which : Int) : Except Fault Bitmap := do
  assert (0 ≤ which ∧ which < b.numBits)
  let b := b.withMap (Words.clear b.map which.toNat) (Words.length_clear ..)
  assert ((← b.test which) = false)
  return b

def new (numItems : Int) : Except Fault Bitmap := do
  assert (numItems > 0)
  let numWords := divRoundUp numItems.toNat bitsInWord
  let b : Bitmap := ⟨numItems.toNat, List.replicate numWords 0, List.length_replicate⟩
  (List.range b.numBits).foldlM (fun b (i : Nat) => b.clear i) b

/-- The loop of `FindAndSet` from bit `i`, with `n` bits to go. -/
def findFrom (b : Bitmap) : Nat → Nat → Except Fault (Int × Bitmap)
  | _, 0 => return (-1, b)
  | i, n + 1 => do
    if (← b.test i) then b.findFrom (i + 1) n
    else return (i, ← b.mark i)

def findAndSet (b : Bitmap) : Except Fault (Int × Bitmap) := b.findFrom 0 b.numBits

/-- The loop of `NumClear` from bit `i`, with `n` bits to go and `count` found so far. -/
def countFrom (b : Bitmap) : Nat → Nat → Nat → Except Fault Nat
  | _, 0, count => return count
  | i, n + 1, count => do
    if (← b.test i) then b.countFrom (i + 1) n count
    else b.countFrom (i + 1) n (count + 1)

def numClear (b : Bitmap) : Except Fault Nat := b.countFrom 0 b.numBits 0

inductive Call
  | mark (which : Int)
  | clear (which : Int)
  | test (which : Int)
  | findAndSet
  | numClear
  deriving DecidableEq

inductive Answer
  | nothing
  | bool (b : Bool)
  | int (n : Int)
  deriving DecidableEq

def call (b : Bitmap) : Call → Except Fault (Answer × Bitmap)
  | .mark which => do return (.nothing, ← b.mark which)
  | .clear which => do return (.nothing, ← b.clear which)
  | .test which => do return (.bool (← b.test which), b)
  | .findAndSet => do
    let (i, b) ← b.findAndSet
    return (.int i, b)
  | .numClear => do return (.int (← b.numClear), b)

end Bitmap

end Nachos
