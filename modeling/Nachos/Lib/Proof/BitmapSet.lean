import Nachos.Base.Calls
import Nachos.Lib.Proof.Bitmap

/-!
# A bitmap under any sequence of calls

`spec` is the set of marked bits with the calls as operations on it, and a bitmap implements it
(`implements`). `bitmap_represents` says what this means for a bitmap after any sequence of calls: a bit
is set exactly when the last call that was about it marked it.
-/

namespace Nachos.Bitmap

open Base

/-! ## The set -/

def firstMissing (n : Nat) (s : Finset Nat) : Option Nat := (List.range n).find? (· ∉ s)

def Call.InRange (n : Int) : Call → Prop
  | .mark which | .clear which | .test which => 0 ≤ which ∧ which < n
  | .findAndSet | .numClear => True

instance (n : Int) : (c : Call) → Decidable (c.InRange n)
  | .mark _ | .clear _ | .test _ => inferInstanceAs (Decidable (_ ∧ _))
  | .findAndSet | .numClear => .isTrue trivial

def spec (n : Nat) : Spec (Finset Nat) Call Answer where
  allows _ c := c.InRange n
  answer s
    | .mark _ | .clear _ => .nothing
    | .test which => .bool (which.toNat ∈ s)
    | .findAndSet => .int (((firstMissing n s).map Int.ofNat).getD (-1))
    | .numClear => .int (n - s.card : Nat)
  next s
    | .mark which => insert which.toNat s
    | .clear which => s.erase which.toNat
    | .findAndSet => (firstMissing n s).elim s (insert · s)
    | .test _ | .numClear => s

variable {n i j : Nat} {s : Finset Nat} {b : Bitmap} {c : Call}

theorem firstMissing_eq_some : firstMissing n s = some i ↔ i < n ∧ i ∉ s ∧ ∀ k < i, k ∈ s := by
  rw [firstMissing, List.find?_range_eq_some]
  simp [and_left_comm]

theorem firstMissing_eq_none : firstMissing n s = none ↔ ∀ i < n, i ∈ s := by
  simp [firstMissing]

def Is (n : Nat) (s : Finset Nat) (b : Bitmap) : Prop := b.numBits = n ∧ b.marked = s

theorem Is.bit (h : Is n s b) (hi : i < n) : b.bit i = decide (i ∈ s) := by
  obtain ⟨rfl, rfl⟩ := h
  simp [mem_marked, hi]

theorem Is.findAndSet (h : Is n s b) :
    b.findAndSet = .ok (((firstMissing n s).map Int.ofNat).getD (-1),
      (firstMissing n s).elim b b.set) := by
  rcases b.findAndSet_cases with ⟨j, hj, hb, hlow, hf⟩ | ⟨hall, hf⟩
  · have hn : j < n := h.1 ▸ hj
    have hmiss : firstMissing n s = some j := by
      refine firstMissing_eq_some.2 ⟨hn, ?_, fun k hk => ?_⟩
      · simpa [h.bit hn] using hb
      · simpa [h.bit (hk.trans hn)] using hlow k hk
    rw [hf, hmiss]
    rfl
  · have hmiss : firstMissing n s = none := by
      refine firstMissing_eq_none.2 fun i hi => ?_
      simpa [h.bit hi] using hall i (h.1 ▸ hi)
    rw [hf, hmiss]
    rfl

def after (n : Nat) (s : Finset Nat) (b : Bitmap) : Call → Bitmap
  | .mark which => b.set which.toNat
  | .clear which => b.unset which.toNat
  | .findAndSet => (firstMissing n s).elim b b.set
  | .test _ | .numClear => b

theorem call_eq (h : Is n s b) (hc : c.InRange n) :
    b.call c = .ok ((spec n).answer s c, b.after n s c) := by
  obtain ⟨rfl, rfl⟩ := id h
  cases c with
  | mark which | clear which =>
    obtain ⟨i, rfl⟩ := Int.eq_ofNat_of_zero_le hc.1
    simp only [call, mark_eq (Int.ofNat_lt.1 hc.2), clear_eq (Int.ofNat_lt.1 hc.2)]
    rfl
  | test which =>
    obtain ⟨i, rfl⟩ := Int.eq_ofNat_of_zero_le hc.1
    have hi := Int.ofNat_lt.1 hc.2
    simp only [call, test_eq hi, h.bit hi]
    rfl
  | findAndSet =>
    rw [call, h.findAndSet]
    rfl
  | numClear =>
    rw [call, numClear_eq]
    rfl

theorem Is.after (h : Is n s b) (hc : c.InRange n) : Is n ((spec n).next s c) (b.after n s c) := by
  have hset : ∀ {i : Nat}, i < n → Is n (insert i s) (b.set i) := fun hi =>
    ⟨h.1, by rw [marked_set (h.1 ▸ hi), h.2]⟩
  cases c with
  | mark which => exact hset (by have := hc.2; have := hc.1; omega)
  | clear which =>
    refine ⟨h.1, ?_⟩
    have hi : which.toNat < b.numBits := by
      rw [h.1]
      have := hc.1
      have := hc.2
      omega
    rw [Bitmap.after, marked_unset hi, h.2]
    rfl
  | test | numClear => exact h
  | findAndSet =>
    show Is n ((firstMissing n s).elim s (insert · s)) ((firstMissing n s).elim b b.set)
    cases hm : firstMissing n s with
    | none => exact h
    | some i => exact hset (firstMissing_eq_some.1 hm).1

theorem implements (n : Nat) : Implements (spec n) call (Is n) := fun _ b c h hc =>
  ⟨b.after n _ c, call_eq h hc, h.after hc⟩

/-! ## The last call about a bit -/

/-- The call, with its answer, marked bit `i`. -/
def Marks (i : Nat) : Call × Answer → Prop
  | (.mark which, _) => which = i
  | (.findAndSet, answer) => answer = .int i
  | _ => False

def Clears (i : Nat) : Call × Answer → Prop
  | (.clear which, _) => which = i
  | _ => False

/-- The last call that marked or cleared bit `i` marked it. -/
def LastMarks (history : List (Call × Answer)) (i : Nat) : Prop :=
  ∃ before e later, history = before ++ e :: later ∧ Marks i e ∧ ∀ e' ∈ later, ¬ Marks i e' ∧ ¬ Clears i e'

theorem lastMarks_cons {e : Call × Answer} {history : List (Call × Answer)} :
    LastMarks (e :: history) i ↔
      LastMarks history i ∨ Marks i e ∧ ∀ e' ∈ history, ¬ Marks i e' ∧ ¬ Clears i e' := by
  constructor
  · rintro ⟨before, e', later, heq, hm, hl⟩
    cases before with
    | nil =>
      cases heq
      exact .inr ⟨hm, hl⟩
    | cons d before =>
      cases heq
      exact .inl ⟨before, e', later, rfl, hm, hl⟩
  · rintro (⟨before, e', later, rfl, hm, hl⟩ | ⟨hm, hl⟩)
    · exact ⟨e :: before, e', later, rfl, hm, hl⟩
    · exact ⟨[], e, history, rfl, hm, hl⟩

theorem mem_next (hc : c.InRange n) : i ∈ (spec n).next s c ↔
      Marks i (c, (spec n).answer s c) ∨ ¬ Clears i (c, (spec n).answer s c) ∧ i ∈ s := by
  cases c with
  | mark which =>
    have hw := hc.1
    simp only [spec, Marks, Clears, Finset.mem_insert, not_false_eq_true, true_and]
    exact or_congr_left (by omega)
  | clear which =>
    have hw := hc.1
    simp only [spec, Marks, Clears, Finset.mem_erase, false_or]
    exact and_congr_left fun _ => by omega
  | test | numClear => simp [spec, Marks, Clears]
  | findAndSet =>
    cases hm : firstMissing n s with
    | none => simp [spec, Marks, Clears, hm]
    | some j => simp [spec, Marks, Clears, hm, eq_comm]

theorem mem_final {cs : List Call} (hcs : ∀ c ∈ cs, c.InRange n) :
    i ∈ (spec n).final s cs ↔ LastMarks (cs.zip ((spec n).answers s cs)) i ∨
      i ∈ s ∧ ∀ e ∈ cs.zip ((spec n).answers s cs), ¬ Marks i e ∧ ¬ Clears i e := by
  induction cs generalizing s with
  | nil => simp [Spec.final, Spec.answers, LastMarks]
  | cons c cs ih =>
    have hc := hcs c List.mem_cons_self
    rw [Spec.final, List.foldl_cons, ← Spec.final, ih fun c hc => hcs c (List.mem_cons_of_mem _ hc),
      mem_next hc, Spec.answers, List.zip_cons_cons, lastMarks_cons, List.forall_mem_cons]
    tauto

/-! ## The bitmap after any calls -/

/-- The bitmap of size `n` after the calls, with the bits `s`. -/
structure Represents (n : Int) (history : List (Call × Answer)) (b : Bitmap) (s : Finset Nat) : Prop where
  numBits : (b.numBits : Int) = n
  marked : ∀ i, i ∈ s ↔ LastMarks history i
  words : ∀ i : Nat, i < n → (Words.bit b.map i = true ↔ i ∈ s)
  test : ∀ i : Nat, i < n → b.test i = .ok (decide (i ∈ s))
  /-- no call changes another bit, in any of the words -/
  others : ∀ c : Call, c.InRange n → ∃ answer b', b.call c = .ok (answer, b') ∧
    b'.map.length = b.map.length ∧
    ∀ i, ¬ Marks i (c, answer) → ¬ Clears i (c, answer) → Words.bit b'.map i = Words.bit b.map i
  findAndSet :
    (∃ (i : Nat) (b' : Bitmap), i < n ∧ i ∉ s ∧ (∀ k < i, k ∈ s) ∧
      b.findAndSet = .ok ((i : Int), b') ∧ b'.test i = .ok true) ∨
    (∀ i : Nat, i < n → i ∈ s) ∧ b.findAndSet = .ok (-1, b)
  numClear : ∃ k : Nat, b.numClear = .ok k ∧ (k + s.card : Int) = n

theorem bit_after (h : Is n s b) (hc : c.InRange n)
    (hm : ¬ Marks i (c, (spec n).answer s c)) (hu : ¬ Clears i (c, (spec n).answer s c)) :
    (b.after n s c).bit i = b.bit i := by
  have hset : ∀ {j : Nat}, j < n → i ≠ j → (b.set j).bit i = b.bit i := fun hj hne => by
    simp [bit_set (h.1 ▸ hj), hne]
  cases c with
  | mark which =>
    obtain ⟨j, rfl⟩ := Int.eq_ofNat_of_zero_le hc.1
    exact hset (Int.ofNat_lt.1 hc.2) fun hij => hm (by rw [hij]; rfl)
  | clear which =>
    obtain ⟨j, rfl⟩ := Int.eq_ofNat_of_zero_le hc.1
    have hne : i ≠ j := fun hij => hu (by rw [hij]; rfl)
    have hj : j < b.numBits := h.1 ▸ Int.ofNat_lt.1 hc.2
    simp [Bitmap.after, bit_unset hj, hne]
  | test | numClear => rfl
  | findAndSet =>
    show ((firstMissing n s).elim b b.set).bit i = b.bit i
    cases hf : firstMissing n s with
    | none => rfl
    | some j =>
      refine hset (firstMissing_eq_some.1 hf).1 ?_
      rintro rfl
      exact hm (by simp [Marks, spec, hf])

theorem Is.represents {history : List (Call × Answer)} (h : Is n s b)
    (hs : ∀ i, i ∈ s ↔ LastMarks history i) : Represents n history b s where
  numBits := by rw [h.1]
  marked := hs
  words i hi := by
    show b.bit i = true ↔ i ∈ s
    simp [h.bit (Int.ofNat_lt.1 hi)]
  test i hi := by rw [test_eq (h.1 ▸ Int.ofNat_lt.1 hi), h.bit (Int.ofNat_lt.1 hi)]
  others c hc := by
    refine ⟨_, _, call_eq h hc, ?_, fun i => bit_after h hc⟩
    rw [(b.after n s c).numWords, b.numWords, (h.after hc).1, h.1]
  findAndSet := by
    have hf := h.findAndSet
    cases hm : firstMissing n s with
    | none =>
      rw [hm] at hf
      exact .inr ⟨fun i hi => firstMissing_eq_none.1 hm i (Int.ofNat_lt.1 hi), hf⟩
    | some i =>
      rw [hm] at hf
      obtain ⟨hi, hnot, hlow⟩ := firstMissing_eq_some.1 hm
      refine .inl ⟨i, b.set i, Int.ofNat_lt.2 hi, hnot, hlow, hf, ?_⟩
      have hi' : i < b.numBits := h.1 ▸ hi
      rw [test_eq (by simpa using hi'), bit_set hi']
      simp
  numClear := by
    refine ⟨_, numClear_eq b, ?_⟩
    have := card_marked_add_clear b
    rw [h.1, h.2] at *
    omega

/-- **A bitmap represents the set of its marked bits**, after its constructor and any sequence of calls
with bit numbers in range. -/
theorem bitmap_represents {numItems : Int} (hn : 0 < numItems) {cs : List Call}
    (hcs : ∀ c ∈ cs, c.InRange numItems) :
    ∃ b0 answers b s, new numItems = .ok b0 ∧ runCalls call b0 cs = .ok (answers, b) ∧
      answers.length = cs.length ∧ Represents numItems (cs.zip answers) b s := by
  obtain ⟨n, rfl⟩ := Int.eq_ofNat_of_zero_le (Int.le_of_lt hn)
  obtain ⟨b0, h0, hbits, hempty⟩ := new_eq (Int.ofNat_lt.1 hn)
  obtain ⟨b, hrun, hb⟩ := (implements n).runs ⟨hbits, hempty⟩ (Spec.allows_of_forall fun _ => hcs)
  refine ⟨b0, _, b, _, h0, hrun, Spec.length_answers, hb.represents fun i => ?_⟩
  rw [mem_final hcs]
  simp

theorem bitmap_represents_two_words : ∃ b0 answers b s, new 40 = .ok b0 ∧
    runCalls call b0 [.mark 33, .findAndSet, .mark 1, .clear 33, .findAndSet] = .ok (answers, b) ∧
      answers.length = 5 ∧ Represents 40
        ([.mark 33, .findAndSet, .mark 1, .clear 33, .findAndSet].zip answers) b s :=
  bitmap_represents (by decide : (0 : Int) < 40) (by decide)

end Nachos.Bitmap
