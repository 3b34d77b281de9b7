import Mathlib.Tactic.Common

/-!
# Semaphores (`threads/synch.cc`)

`P` and `V` run with interrupts off. `P` is a loop: a thread that finds no value goes to sleep in the
queue, and looks again when it has been woken. The two functions here are one round of that loop and
the whole of `V`; the systems that use them do the sleeping and waking.

The value is an `int`: a word where it comes from a user or is raised by interrupts, and a number where
only kernel code uses the semaphore, which never raises it that far. The two do the same as long as the
number is below `2 ^ 31` (`p_toWord`, `v_toWord`).
-/

namespace Nachos

abbrev Tid := Nat

structure Semaphore (ν : Type) where
  value : ν
  queue : List Tid
  deriving DecidableEq, Repr

namespace Semaphore

variable {ν : Type} [OfNat ν 0] [OfNat ν 1] [Add ν] [Sub ν] [DecidableEq ν]

def new (initialValue : ν) : Semaphore ν := ⟨initialValue, []⟩

/-- `queue->Append(currentThread)` -/
@[simp] def append (s : Semaphore ν) (t : Tid) : Semaphore ν := { s with queue := s.queue ++ [t] }

/-- `queue->RemoveFront()`, if there is a thread in the queue -/
@[simp] def removeFront (s : Semaphore ν) : Semaphore ν := { s with queue := s.queue.tail }

/-- `value--` -/
@[simp] def decrement (s : Semaphore ν) : Semaphore ν := { s with value := s.value - 1 }

/-- `value++` -/
@[simp] def increment (s : Semaphore ν) : Semaphore ν := { s with value := s.value + 1 }

/-- One round of `Semaphore::P` by thread `t`: whether it took the value, or else is queued. -/
def p (s : Semaphore ν) (t : Tid) : Semaphore ν × Bool :=
  if s.value = 0 then (s.append t, false) else (s.decrement, true)

/-- `Semaphore::V`: the semaphore and the thread that is made ready. -/
def v (s : Semaphore ν) : Semaphore ν × Option Tid := (s.removeFront.increment, s.queue.head?)

def toWord (s : Semaphore Nat) : Semaphore (BitVec 32) := ⟨BitVec.ofNat 32 s.value, s.queue⟩

theorem p_toWord {s : Semaphore Nat} (h : s.value < 2147483648) (t : Tid) :
    s.toWord.p t = ((s.p t).1.toWord, (s.p t).2) := by
  have hzero : (BitVec.ofNat 32 s.value = 0) ↔ s.value = 0 := by
    rw [← BitVec.toNat_inj, BitVec.toNat_ofNat, Nat.mod_eq_of_lt (by omega)]
    rfl
  simp only [p, toWord, hzero]
  split
  · rfl
  · have hsub : BitVec.ofNat 32 s.value - 1 = BitVec.ofNat 32 (s.value - 1) := by bv_omega
    simp only [decrement, hsub]

theorem v_toWord (s : Semaphore Nat) : s.toWord.v = (s.v.1.toWord, s.v.2) := by
  simp [v, toWord, BitVec.ofNat_add]

end Semaphore

end Nachos
