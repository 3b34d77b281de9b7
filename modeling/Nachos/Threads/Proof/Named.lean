import Nachos.Lib.Proof.Bitmap
import Nachos.Threads.STable

/-!
# The table of named semaphores

`Meets` says what the calls are for: a name has one semaphore, `Wait` and `Signal` count it down and up,
and a call that cannot do its work returns -1 and changes nothing. The code does so in the runs that start
from a table of null pointers and in which every call is `Proper` (`named_semaphores`). One thing no
condition on the calls gives: a `Create` that makes a semaphore returns what the register holds.
-/

namespace Nachos.STable

open Base Function

namespace State

/-- Slot `i` holds the semaphore `name`. -/
def Named (s : State) (name : Name) (i : Nat) : Prop :=
  i < maxSemaphore ∧ ∃ sem, s.semTab i = .obj sem ∧ sem.name = name

def Full (s : State) : Prop := ∀ i < maxSemaphore, s.bm.bit i = true

structure Sound (s : State) : Prop where
  slots : ∀ i < maxSemaphore, (∃ sem, s.semTab i = .obj sem) ↔ s.bm.bit i = true
  names : ∀ name i j, s.Named name i → s.Named name j → i = j
  values : ∀ i < maxSemaphore, ∀ sem, s.semTab i = .obj sem → 0 ≤ sem.sem.value.toInt

end State

open State

/-- Only thread `t` and the contents of `slot` change. -/
structure Others (s s' : State) (t : Tid) (slot : Option Nat) : Prop where
  fault : s'.fault = s.fault
  slots : ∀ j, some j ≠ slot → s'.semTab j = s.semTab j ∧ s'.bm.bit j = s.bm.bit j
  threads : ∀ u, u ≠ t → s'.waiting u = s.waiting u ∧ s'.result u = s.result u

/-- The call of thread `t` has returned `result`. -/
def Returned (s' : State) (t : Tid) (result : Int) : Prop :=
  s'.waiting t = none ∧ s'.result t = result

def Refused (s s' : State) (t : Tid) : Prop := Others s s' t none ∧ Returned s' t (-1)

/-- A semaphore is made in a free slot. The call returns what is left in `eax`. -/
def Created (s s' : State) (t : Tid) (name : Name) (init eax : BitVec 32) : Prop :=
  ∃ i < maxSemaphore, s.bm.bit i = false ∧ Others s s' t (some i) ∧ Returned s' t eax.toInt ∧
    s'.semTab i = .obj ⟨name, init, []⟩

/-- A round of `P` on slot `i`: the thread takes one from a positive value, and else sleeps last in the
queue. -/
def Waited (s s' : State) (t : Tid) (i : Nat) : Prop :=
  Others s s' t (some i) ∧ ∀ sem, s.semTab i = .obj sem →
    ∃ value queue, s'.semTab i = .obj ⟨sem.name, value, queue⟩ ∧
      (0 < sem.sem.value.toInt → value.toInt = sem.sem.value.toInt - 1 ∧ queue = sem.sem.queue ∧
        Returned s' t i) ∧
      (sem.sem.value.toInt = 0 → value.toInt = 0 ∧ queue = sem.sem.queue ++ [t] ∧
        s'.waiting t = some i)

/-- `V` on slot `i`: one is added to the value, and the first thread of the queue is woken. -/
def Signalled (s s' : State) (t : Tid) (i : Nat) : Prop :=
  Others s s' t (some i) ∧ Returned s' t i ∧ ∀ sem, s.semTab i = .obj sem →
    ∃ value, s'.semTab i = .obj ⟨sem.name, value, sem.sem.queue.tail⟩ ∧
      value.toInt = sem.sem.value.toInt + 1

def Meets (s s' : State) : Choice → Prop
  | .create t name init eax =>
    ((∃ i, s.Named name i) ∨ s.Full → Refused s s' t) ∧
    ((∀ i, ¬ s.Named name i) → ¬ s.Full → Created s s' t name init eax)
  | .wait t name =>
    (∀ i, s.Named name i → Waited s s' t i) ∧ ((∀ i, ¬ s.Named name i) → Refused s s' t)
  | .signal t name =>
    (∀ i, s.Named name i → Signalled s s' t i) ∧ ((∀ i, ¬ s.Named name i) → Refused s s' t)
  | .resume t => ∀ i, s.waiting t = some i → Waited s s' t i

/-- The calls on which the code is right: a semaphore that is made has a new name that leaves room for
its zero and a value that is not negative, and no `Signal` finds the largest `int`. -/
def Proper (s : State) : Choice → Prop
  | .create _ name init _ =>
    ¬ s.Full → (∀ i, ¬ s.Named name i) ∧ name.length < semNameMaxLen ∧ 0 ≤ init.toInt
  | .signal _ name =>
    ∀ i sem, s.Named name i → s.semTab i = .obj sem → sem.sem.value.toInt < 2147483647
  | .wait .. | .resume _ => True

namespace State

variable {s s' : State} {t : Tid} {name : Name} {i j : Nat} {sem : Sem}

structure Inv (s : State) : Prop extends Sound s where
  numBits : s.bm.numBits = maxSemaphore
  tame : ∀ i < maxSemaphore, s.semTab i ≠ .wild
  waiting : ∀ t i, s.waiting t = some i → i < maxSemaphore ∧ ∃ sem, s.semTab i = .obj sem
  fault : s.fault = none

/-! ## Updates -/

theorem Inv.answer (h : s.Inv) (t : Tid) (r : Int) : (s.answer t r).Inv := by
  refine ⟨⟨h.slots, h.names, h.values⟩, h.numBits, h.tame, fun u i hu => ?_, h.fault⟩
  by_cases hut : u = t
  · subst hut
    simp [State.answer] at hu
  · simp only [State.answer, update_of_ne hut] at hu
    exact h.waiting u i hu

theorem setSem_of_ne (h : j ≠ i) (sem : Sem) : (s.setSem i sem).semTab j = s.semTab j :=
  update_of_ne h ..

@[simp] theorem setSem_self (sem : Sem) : (s.setSem i sem).semTab i = .obj sem := update_self ..

theorem setSem_all {P : Entry → Prop} (h : ∀ j < maxSemaphore, P (s.semTab j)) (hsem : P (.obj sem)) :
    ∀ j < maxSemaphore, P ((s.setSem i sem).semTab j) := by
  intro j hj
  by_cases hji : j = i
  · subst hji
    rw [setSem_self]
    exact hsem
  · rw [setSem_of_ne hji]
    exact h j hj

theorem Inv.setSem_slots (h : s.Inv) (i : Nat) (hv : 0 ≤ sem.sem.value.toInt) :
    (∀ j < maxSemaphore, ∀ x, (s.setSem i sem).semTab j = .obj x → 0 ≤ x.sem.value.toInt) ∧
      ∀ j < maxSemaphore, (s.setSem i sem).semTab j ≠ .wild := by
  refine ⟨setSem_all (P := fun e => ∀ x, e = .obj x → 0 ≤ x.sem.value.toInt) h.values ?_,
    setSem_all (P := (· ≠ .wild)) h.tame nofun⟩
  rintro x ⟨⟩
  exact hv

theorem named_setSem (sem' : Sem) (hs : s.semTab i = .obj sem)
    (hn : sem'.name = sem.name) : (s.setSem i sem').Named name j ↔ s.Named name j := by
  by_cases hj : j = i
  · subst hj
    simp only [Named, setSem_self, hs]
    refine and_congr_right fun _ => ⟨?_, ?_⟩
    · rintro ⟨_, ⟨⟩, h⟩
      exact ⟨sem, rfl, hn ▸ h⟩
    · rintro ⟨_, ⟨⟩, h⟩
      exact ⟨sem', rfl, hn.trans h⟩
  · simp only [Named, setSem_of_ne hj]

theorem Inv.setSem (h : s.Inv) (sem' : Sem) (hs : s.semTab i = .obj sem)
    (hn : sem'.name = sem.name) (hv : 0 ≤ sem'.sem.value.toInt) : (s.setSem i sem').Inv := by
  have hobj : ∀ j, (∃ x, (s.setSem i sem').semTab j = .obj x) ↔ ∃ x, s.semTab j = .obj x := by
    intro j
    by_cases hj : j = i
    · subst hj
      exact ⟨fun _ => ⟨sem, hs⟩, fun _ => ⟨sem', setSem_self sem'⟩⟩
    · rw [setSem_of_ne hj]
  obtain ⟨hvalues, htame⟩ := h.setSem_slots i hv
  refine ⟨⟨fun j hj => (hobj j).trans (h.slots j hj), ?_, hvalues⟩, h.numBits, htame, ?_, h.fault⟩
  · intro name j k hj hk
    exact h.names name j k ((named_setSem sem' hs hn).1 hj)
      ((named_setSem sem' hs hn).1 hk)
  · intro u j hu
    obtain ⟨hj, hx⟩ := h.waiting u j hu
    exact ⟨hj, (hobj j).2 hx⟩

theorem findName_spec (htame : ∀ i < maxSemaphore, s.semTab i ≠ .wild) (name : Name) :
    ∀ n i, i + n = maxSemaphore →
      (∃ j, s.findName name i n = .ok (some j) ∧ s.Named name j) ∨
        s.findName name i n = .ok none ∧ ∀ j, i ≤ j → ¬ s.Named name j
  | 0, i, hn => .inr ⟨rfl, fun j hj h => by
      have := h.1
      omega⟩
  | n + 1, i, hn => by
    have hi : i < maxSemaphore := by omega
    have hnext : ∀ (_ : ¬ s.Named name i),
        (∃ j, s.findName name (i + 1) n = .ok (some j) ∧ s.Named name j) ∨
          s.findName name (i + 1) n = .ok none ∧ ∀ j, i ≤ j → ¬ s.Named name j := by
      intro hnot
      rcases findName_spec htame name n (i + 1) (by omega) with hfound | ⟨hnone, hj⟩
      · exact .inl hfound
      · refine .inr ⟨hnone, fun j hij => ?_⟩
        rcases Nat.eq_or_lt_of_le hij with rfl | hlt
        · exact hnot
        · exact hj j hlt
    rw [findName]
    cases hs : s.semTab i with
    | null =>
      apply hnext
      rintro ⟨-, sem, hsem, -⟩
      cases hs.symm.trans hsem
    | wild => exact absurd hs (htame i hi)
    | obj sem =>
      dsimp only
      by_cases hname : sem.name = name
      · rw [if_pos hname]
        exact .inl ⟨i, rfl, hi, sem, hs, hname⟩
      · rw [if_neg hname]
        apply hnext
        rintro ⟨-, sem', hsem, hn⟩
        cases hs.symm.trans hsem
        exact hname hn

end State

theorem new_inv {mem : Nat → Entry} {s : State} (h : new mem = .ok s)
    (hnull : ∀ i < maxSemaphore, mem i = .null) : s.Inv := by
  obtain ⟨bm, hbm, hs⟩ := bind_ok h
  obtain ⟨b, hb, hbits, hmarked⟩ := Bitmap.new_eq (n := maxSemaphore) (by decide)
  cases hbm.symm.trans hb
  cases hs
  have hnone : ∀ i < maxSemaphore, ∀ sem, mem i ≠ .obj sem := by
    intro i hi sem hx
    rw [hnull i hi] at hx
    cases hx
  refine ⟨⟨fun i hi => ⟨fun ⟨sem, hx⟩ => absurd hx (hnone i hi sem), fun hbit => ?_⟩, ?_, ?_⟩, hbits, ?_,
    nofun, rfl⟩
  · have : i ∈ bm.marked := Bitmap.mem_marked.2 ⟨by rw [hbits]; exact hi, hbit⟩
    rw [hmarked] at this
    exact absurd this (Finset.notMem_empty i)
  · rintro name i j ⟨hi, sem, hx, -⟩
    exact absurd hx (hnone i hi sem)
  · intro i hi sem hx
    exact absurd hx (hnone i hi sem)
  · intro i hi hx
    cases (hnull i hi).symm.trans hx

end Nachos.STable
