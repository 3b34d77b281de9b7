import Nachos.Lib.Debug

/-!
# Sorted lists (`lib/list.cc`)

A list as the items from `first` to `last`; `numInList` is its length. Items are compared with `==` as
the pointers of the source are.
-/

namespace Nachos.SortedList

variable {T : Type}

/-- The loop of `SortedList::Insert`: the item goes somewhere behind `ptr`. -/
def insertBehind (compare : T → T → Int) (item ptr : T) : List T → List T
  | [] => [ptr, item]
  | next :: rest =>
    if compare item next < 0 then ptr :: item :: next :: rest
    else ptr :: insertBehind compare item next rest

/-- Where `SortedList::Insert` puts the item. -/
def place (compare : T → T → Int) (item : T) : List T → List T
  | [] => [item]
  | first :: rest =>
    if compare item first < 0 then item :: first :: rest
    else insertBehind compare item first rest

/-- `SortedList::Insert`. Its second `ASSERT` is not reached when the loop returns; it holds there
too. -/
def insert [DecidableEq T] (compare : T → T → Int) (item : T) (list : List T) :
    Except Fault (List T) := do
  assert (item ∉ list)
  assert (item ∈ place compare item list)
  return place compare item list

end Nachos.SortedList
