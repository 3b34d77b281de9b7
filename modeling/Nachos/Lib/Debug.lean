import Nachos.Base.Except

/-!
# Stopping the simulator

`ASSERT` (`lib/debug.h`) prints a message and calls `Abort`; a function of the model that contains
one returns `Except Fault`. `Fault.undefined` is a host operation without a defined result (an
index outside an array, a division that overflows).
-/

namespace Nachos

inductive Fault
  | assertion
  | undefined
  deriving DecidableEq, Repr

def assert (condition : Prop) [Decidable condition] : Except Fault Unit :=
  if condition then .ok () else .error .assertion

variable {c : Prop} {s : Nat}

theorem assert_ok [Decidable c] {u : Unit} (h : assert c = .ok u) : c := by
  unfold assert at h
  split at h
  · assumption
  · cases h

@[simp] theorem assert_of [Decidable c] (h : c) : assert c = .ok () := if_pos h

@[simp] theorem assert_not [Decidable c] (h : ¬ c) : assert c = .error .assertion := if_neg h

def divRoundUp (n s : Nat) : Nat := n / s + if n % s > 0 then 1 else 0

theorem le_divRoundUp_mul (n : Nat) (hs : 0 < s) : n ≤ divRoundUp n s * s := by
  unfold divRoundUp
  have h := Nat.div_add_mod n s
  have hm := Nat.mod_lt n hs
  rw [Nat.add_mul, Nat.mul_comm (n / s) s]
  split <;> omega

theorem lt_divRoundUp {i n : Nat} (hs : 0 < s) (h : i < n) : i / s < divRoundUp n s := by
  have := le_divRoundUp_mul n hs
  exact Nat.div_lt_of_lt_mul (by rw [Nat.mul_comm]; omega)

theorem mul_lt_of_lt_divRoundUp {i n : Nat} (hs : 0 < s) (h : i < divRoundUp n s) : i * s < n := by
  unfold divRoundUp at h
  have hd := Nat.div_add_mod n s
  split at h
  · have : i * s ≤ n / s * s := Nat.mul_le_mul_right s (by omega)
    rw [Nat.mul_comm (n / s) s] at this
    omega
  · have : (i + 1) * s ≤ n / s * s := Nat.mul_le_mul_right s (by omega)
    rw [Nat.mul_comm (n / s) s, Nat.add_mul] at this
    omega

end Nachos
