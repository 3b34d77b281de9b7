import Nachos.Base.Runs
import Nachos.Lib.Bitmap
import Nachos.Threads.Synch

/-!
# Named semaphores (`threads/stable.cc`, `threads/sem.cc`)

The table behind `CreateSem`, `Wait` and `Signal`. A call is one step, up to the end of the `P` or `V` in
it; a thread that sleeps in `P` takes another round when it has been woken.
-/

namespace Nachos.STable

open Base Function

def maxSemaphore : Nat := 10

/-- `SEM_NAME_MAX_LEN`, the length of the array for the name. -/
def semNameMaxLen : Nat := 64

abbrev Name := List (BitVec 8)

structure Sem where
  name : Name
  sem : Semaphore (BitVec 32)
  deriving DecidableEq, Repr

namespace Sem

/-- `Sem::Sem`: `strcpy` needs room for the zero. -/
def new (sname : Name) (permits : BitVec 32) : Option Sem :=
  if sname.length < semNameMaxLen then some ⟨sname, .new permits⟩ else none

/-- One round of `Sem::wait`: whether thread `t` took the value, or else is queued. -/
def wait (s : Sem) (t : Tid) : Sem × Bool := ({ s with sem := (s.sem.p t).1 }, (s.sem.p t).2)

def signal (s : Sem) : Sem := { s with sem := s.sem.v.1 }

end Sem

/-- An element of `semTab`, which the constructor does not initialise. -/
inductive Entry
  | null
  | wild
  | obj (sem : Sem)
  deriving DecidableEq, Repr

structure State where
  bm : Bitmap
  semTab : Nat → Entry
  /-- the thread is in `semTab[i]->wait()`, asleep or woken -/
  waiting : Tid → Option Nat
  /-- what the last call of a thread returned -/
  result : Tid → Int
  fault : Option Fault

namespace State

def fail (s : State) (f : Fault) : State := { s with fault := some f }

def answer (s : State) (t : Tid) (result : Int) : State :=
  { s with waiting := update s.waiting t none
           result := update s.result t result }

def setSem (s : State) (i : Nat) (sem : Sem) : State :=
  { s with semTab := update s.semTab i (.obj sem) }

/-- The loop of `Wait` and `Signal` from slot `i`, with `n` slots to go. -/
def findName (s : State) (name : Name) : Nat → Nat → Except Fault (Option Nat)
  | _, 0 => return none
  | i, n + 1 =>
    match s.semTab i with
    | .null => s.findName name (i + 1) n
    | .wild => throw .undefined
    | .obj sem => if sem.name = name then return some i else s.findName name (i + 1) n

/-- `STable::Create`. A call that makes a semaphore ends without `return`: the caller finds what is left
in the register, `eax`. -/
def create (s : State) (t : Tid) (name : Name) (init eax : BitVec 32) : State :=
  match s.bm.findAndSet with
  | .error f => s.fail f
  | .ok (id, bm) =>
    if id = -1 then s.answer t (-1)
    else
      match Sem.new name init with
      | none => s.fail .undefined
      | some sem => ({ s with bm }.setSem id.toNat sem).answer t eax.toInt

/-- A round of `semTab[i]->wait()`. -/
def waitSem (s : State) (t : Tid) (i : Nat) : State :=
  match s.semTab i with
  | .obj sem =>
    match sem.wait t with
    | (sem, true) => (s.setSem i sem).answer t i
    | (sem, false) => { s.setSem i sem with waiting := update s.waiting t (some i) }
  | .null | .wild => s.fail .undefined

/-- `semTab[i]->signal()`. -/
def signalSem (s : State) (t : Tid) (i : Nat) : State :=
  match s.semTab i with
  | .obj sem => (s.setSem i sem.signal).answer t i
  | .null | .wild => s.fail .undefined

/-- `STable::Wait` and `STable::Signal`: `act` on the first semaphore with this name. -/
def onName (s : State) (t : Tid) (name : Name) (act : Tid → Nat → State) : State :=
  match s.findName name 0 maxSemaphore with
  | .error f => s.fail f
  | .ok none => s.answer t (-1)
  | .ok (some i) => act t i

/-- The thread is in the queue of slot `i`. -/
def asleep (s : State) (t : Tid) (i : Nat) : Bool :=
  match s.semTab i with
  | .obj sem => decide (t ∈ sem.sem.queue)
  | .null | .wild => false

end State

/-- What happens next: a call of a thread, or a thread that was woken in `wait` goes on. -/
inductive Choice
  | create (t : Tid) (name : Name) (init eax : BitVec 32)
  | wait (t : Tid) (name : Name)
  | signal (t : Tid) (name : Name)
  | resume (t : Tid)

def step (s : State) (choice : Choice) : Option State :=
  if s.fault.isSome then none
  else
    match choice with
    | .create t name init eax =>
      if (s.waiting t).isSome then none else some (s.create t name init eax)
    | .wait t name => if (s.waiting t).isSome then none else some (s.onName t name s.waitSem)
    | .signal t name => if (s.waiting t).isSome then none else some (s.onName t name s.signalSem)
    | .resume t =>
      match s.waiting t with
      | none => none
      | some i => if s.asleep t i then none else some (s.waitSem t i)

/-- `STable::STable`, over the memory it is constructed in. -/
def new (semTab : Nat → Entry) : Except Fault State := do
  let bm ← Bitmap.new maxSemaphore
  return ⟨bm, semTab, fun _ => none, fun _ => 0, none⟩

end Nachos.STable
