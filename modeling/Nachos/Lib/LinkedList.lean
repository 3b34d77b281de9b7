import Mathlib.Algebra.GroupWithZero.Nat
import Mathlib.Data.List.AList
import Nachos.Lib.Debug

/-!
# Linked lists (`lib/list.cc`)

`List<T>` and `SortedList<T>` with their pointers. `heap` has the elements that are allocated; a pointer
to anything else must not be followed. A loop that goes on for more elements than there are comes back
to one of them, and does not end: both are `Fault.undefined`. `numInList` is not wrapped, as 2³¹ elements
do not fit in an address space.
-/

namespace Nachos

structure ListElement (T : Type) where
  item : T
  next : Option Nat

structure LinkedList (T : Type) where
  heap : AList fun _ : Nat => ListElement T
  first : Option Nat
  last : Option Nat
  numInList : Int

namespace LinkedList

variable {T : Type}

def new : LinkedList T := ⟨∅, none, none, 0⟩

def deref (l : LinkedList T) (ptr : Option Nat) : Except Fault (ListElement T) :=
  match ptr.bind l.heap.lookup with
  | some element => .ok element
  | none => .error .undefined

/-- `ptr->next = next`. -/
def setNext (l : LinkedList T) (ptr : Option Nat) (next : Option Nat) : Except Fault (LinkedList T) := do
  let element ← l.deref ptr
  return { l with heap := ptr.elim l.heap fun a => l.heap.insert a { element with next } }

/-- Where `new` puts an object: anywhere that is free. -/
def malloc (l : LinkedList T) (choice : Nat) : Nat :=
  if choice ∈ l.heap then l.heap.keys.sum + 1 else choice

/-- `new ListElement<T>(item)`. -/
def newElement (l : LinkedList T) (choice : Nat) (item : T) : Nat × LinkedList T :=
  (l.malloc choice, { l with heap := l.heap.insert (l.malloc choice) ⟨item, none⟩ })

/-- `delete ptr`. -/
def delete (l : LinkedList T) (ptr : Option Nat) : LinkedList T :=
  { l with heap := ptr.elim l.heap l.heap.erase }

def isEmpty (l : LinkedList T) : Bool := l.numInList == 0

def size (l : LinkedList T) : Nat := l.heap.keys.length

/-- The loops of `Remove` and `SortedList::Insert`: from `ptr` on, the first element such that the one behind
it has an item with this property. -/
def findBefore (l : LinkedList T) (p : T → Bool) : Nat → Option Nat → Except Fault (Option Nat)
  | 0, _ => .error .undefined
  | n + 1, ptr => do
    let element ← l.deref ptr
    if element.next = none then return none
    else if p (← l.deref element.next).item then return ptr
    else l.findBefore p n element.next

/-- The loop of `List::SanityCheck`, which counts. -/
def countToLast (l : LinkedList T) : Nat → Int → Option Nat → Except Fault Int
  | 0, _, _ => .error .undefined
  | n + 1, numFound, ptr =>
    if ptr = l.last then return numFound
    else do
      assert (numFound + 1 ≤ l.numInList)
      l.countToLast n (numFound + 1) (← l.deref ptr).next

def sanityCheck (l : LinkedList T) : Except Fault Unit :=
  if l.first = none then assert (l.numInList = 0 ∧ l.last = none)
  else if l.first = l.last then do
    assert (l.numInList = 1)
    assert ((← l.deref l.last).next = none)
  else do
    assert ((← l.countToLast l.size 1 l.first) = l.numInList)
    assert ((← l.deref l.last).next = none)

/-- The loop of `SortedList::SanityCheck`, from `prev` on. -/
def checkOrder (compare : T → T → Int) (l : LinkedList T) : Nat → Option Nat → Except Fault Unit
  | 0, _ => .error .undefined
  | n + 1, prev => do
    let element ← l.deref prev
    if element.next = none then return ()
    else
      assert (compare element.item (← l.deref element.next).item ≤ 0)
      l.checkOrder compare n element.next

def sortedSanityCheck (compare : T → T → Int) (l : LinkedList T) : Except Fault Unit := do
  l.sanityCheck
  if l.first ≠ l.last then l.checkOrder compare l.size l.first

structure ListIterator where
  current : Option Nat

namespace ListIterator

def new (list : LinkedList T) : ListIterator := ⟨list.first⟩

def isDone (it : ListIterator) : Bool := it.current.isNone

def item (list : LinkedList T) (it : ListIterator) : Except Fault T := do
  assert (it.isDone = false)
  return (← list.deref it.current).item

def next (list : LinkedList T) (it : ListIterator) : Except Fault ListIterator :=
  return ⟨(← list.deref it.current).next⟩

/-- `for (; !iterator.IsDone(); iterator.Next())`, for at most `n` rounds; `body` gets the items in turn, and
what it returns ends the loop. -/
def loop {R : Type} (list : LinkedList T) (body : T → Except Fault (Option R)) :
    Nat → ListIterator → Except Fault (Option R)
  | n, it => if it.isDone then .ok none else
    match n with
    | 0 => .error .undefined
    | n + 1 => do
      match ← body (← it.item list) with
      | some result => return some result
      | none => loop list body n (← it.next list)

end ListIterator

def iterate {R : Type} (l : LinkedList T) (body : T → Except Fault (Option R)) : Except Fault (Option R) :=
  ListIterator.loop l body l.size (.new l)

variable [DecidableEq T]

/-- The loop of `IsInList`. -/
def isInListFrom (l : LinkedList T) (item : T) : Nat → Option Nat → Except Fault Bool
  | _, none => .ok false
  | 0, some _ => .error .undefined
  | n + 1, some ptr => do
    let element ← l.deref (some ptr)
    if item = element.item then return true
    else l.isInListFrom item n element.next

def isInList (l : LinkedList T) (item : T) : Except Fault Bool := l.isInListFrom item l.size l.first

def added (l : LinkedList T) (item : T) : Except Fault (LinkedList T) := do
  let l := { l with numInList := l.numInList + 1 }
  assert ((← l.isInList item) = true)
  return l

def append (l : LinkedList T) (choice : Nat) (item : T) : Except Fault (LinkedList T) := do
  let (element, l) := l.newElement choice item
  assert ((← l.isInList item) = false)
  if l.isEmpty then added { l with first := some element, last := some element } item
  else do
    let l ← l.setNext l.last (some element)
    added { l with last := some element } item

def prepend (l : LinkedList T) (choice : Nat) (item : T) : Except Fault (LinkedList T) := do
  let (element, l) := l.newElement choice item
  assert ((← l.isInList item) = false)
  if l.isEmpty then added { l with first := some element, last := some element } item
  else do
    let l ← l.setNext (some element) l.first
    added { l with first := some element } item

def removeFront (l : LinkedList T) : Except Fault (T × LinkedList T) := do
  assert (l.isEmpty = false)
  let element := l.first
  let front ← l.deref element
  let l := if l.first = l.last then { l with first := none, last := none }
    else { l with first := front.next }
  return (front.item, { l with numInList := l.numInList - 1 }.delete element)

/-- The branch of `Remove` for an item that is not the first one. -/
def removeBehind (l : LinkedList T) (item : T) : Except Fault (LinkedList T) := do
  let prev ← l.findBefore (item = ·) l.size l.first
  assert (prev ≠ none)
  let ptr := (← l.deref prev).next
  let next := (← l.deref ptr).next
  let l ← l.setNext prev next
  let l := if next = none then { l with last := prev } else l
  return { l.delete ptr with numInList := l.numInList - 1 }

def remove (l : LinkedList T) (item : T) : Except Fault (LinkedList T) := do
  assert ((← l.isInList item) = true)
  let l ← if item = (← l.deref l.first).item then do
      let (removed, l) ← l.removeFront
      assert (item = removed)
      pure l
    else l.removeBehind item
  assert ((← l.isInList item) = false)
  return l

/-- `SortedList::Insert`. The loop returns in front of the last `ASSERT`. -/
def insert (compare : T → T → Int) (l : LinkedList T) (choice : Nat) (item : T) :
    Except Fault (LinkedList T) := do
  let (element, l) := l.newElement choice item
  assert ((← l.isInList item) = false)
  if l.isEmpty then added { l with first := some element, last := some element } item
  else if compare item (← l.deref l.first).item < 0 then do
    let l ← l.setNext (some element) l.first
    added { l with first := some element } item
  else match ← l.findBefore (fun other => compare item other < 0) l.size l.first with
    | some ptr => do
      let l ← l.setNext (some element) (← l.deref (some ptr)).next
      let l ← l.setNext (some ptr) (some element)
      return { l with numInList := l.numInList + 1 }
    | none => do
      let l ← l.setNext l.last (some element)
      added { l with last := some element } item

/-- The public functions of the two classes; `choice` is where `new` would put the element. -/
inductive Call (T : Type)
  | append (choice : Nat) (item : T)
  | prepend (choice : Nat) (item : T)
  | insert (choice : Nat) (item : T)
  | remove (item : T)
  | removeFront

def call (compare : T → T → Int) (l : LinkedList T) : Call T → Except Fault (Option T × LinkedList T)
  | .append choice item => return (none, ← l.append choice item)
  | .prepend choice item => return (none, ← l.prepend choice item)
  | .insert choice item => return (none, ← l.insert compare choice item)
  | .remove item => return (none, ← l.remove item)
  | .removeFront => do
    let (item, l) ← l.removeFront
    return (some item, l)

end LinkedList

end Nachos
