import Nachos.Lib.Bitmap
import Mathlib.Data.Finset.Card
import Mathlib.Data.Finset.Range
import Mathlib.Order.Interval.Finset.Nat

/-!
# Bitmaps as sets

`Bitmap.marked b` is the set of bits of `b` that are set. In range, no operation of the bitmap stops
the simulator, and each is an operation on the set: `Test` is membership (`test_eq`), `Mark` and
`Clear` insert and erase (`mark_eq`, `clear_eq`), `FindAndSet` inserts the least element missing
(`findAndSet_cases`), `NumClear` counts the missing ones (`numClear_eq`).
-/

namespace Nachos.Bitmap

open Base

def bit (b : Bitmap) (i : Nat) : Bool := Words.bit b.map i

def marked (b : Bitmap) : Finset Nat := (Finset.range b.numBits).filter (b.bit · = true)

variable {b : Bitmap} {i : Nat}

theorem mem_marked : i ∈ b.marked ↔ i < b.numBits ∧ b.bit i = true := by
  simp [marked]

theorem word_lt (b : Bitmap) (h : i < b.numBits) : i / bitsInWord < b.map.length := by
  rw [b.numWords]
  exact lt_divRoundUp (by decide) h

theorem test_eq (h : i < b.numBits) : b.test i = .ok (b.bit i) := by
  unfold test
  rw [assert_of (by omega)]
  have hb : (b.map.getD (i / bitsInWord) 0 &&& Words.one bitsInWord (i % bitsInWord) != 0)
      = b.bit i := by
    rw [Bool.eq_iff_iff, bne_iff_ne, Words.and_one_ne_zero (Nat.mod_lt _ (by decide))]
    rfl
  simp only [Int.toNat_natCast, ok_bind, pure_eq_ok, hb]

def set (b : Bitmap) (i : Nat) : Bitmap := b.withMap (Words.set b.map i) (Words.length_set ..)

def unset (b : Bitmap) (i : Nat) : Bitmap :=
  b.withMap (Words.clear b.map i) (Words.length_clear ..)

@[simp] theorem numBits_set (b : Bitmap) (i : Nat) : (b.set i).numBits = b.numBits := rfl
@[simp] theorem numBits_unset (b : Bitmap) (i : Nat) : (b.unset i).numBits = b.numBits := rfl

theorem bit_set (h : i < b.numBits) (j : Nat) : (b.set i).bit j = (decide (j = i) || b.bit j) :=
  Words.bit_set b.map (by decide) (b.word_lt h)

theorem bit_unset (h : i < b.numBits) (j : Nat) : (b.unset i).bit j = (decide (j ≠ i) && b.bit j) :=
  Words.bit_clear b.map (by decide) (b.word_lt h)

theorem mark_eq (h : i < b.numBits) : b.mark i = .ok (b.set i) := by
  unfold mark
  rw [assert_of (by omega)]
  have ht : (b.set i).test i = .ok true := by
    rw [test_eq (by simpa using h), bit_set h]
    simp
  change (do assert ((← (b.set i).test i) = true); return b.set i) = _
  simp [ht]

theorem clear_eq (h : i < b.numBits) : b.clear i = .ok (b.unset i) := by
  unfold clear
  rw [assert_of (by omega)]
  have ht : (b.unset i).test i = .ok false := by
    rw [test_eq (by simpa using h), bit_unset h]
    simp
  change (do assert ((← (b.unset i).test i) = false); return b.unset i) = _
  simp [ht]

theorem clear_ok {b' : Bitmap} {which : Int} (h : b.clear which = .ok b') :
    ∃ i : Nat, which = i ∧ i < b.numBits ∧ b' = b.unset i := by
  have hr : 0 ≤ which ∧ which < b.numBits := by
    unfold clear at h
    obtain ⟨_, hu, -⟩ := bind_ok h
    exact assert_ok hu
  obtain ⟨i, rfl⟩ := Int.eq_ofNat_of_zero_le hr.1
  have hi : i < b.numBits := by omega
  rw [clear_eq hi, Except.ok.injEq] at h
  exact ⟨i, rfl, hi, h.symm⟩

theorem marked_set (h : i < b.numBits) : (b.set i).marked = insert i b.marked := by
  ext j
  simp only [mem_marked, numBits_set, bit_set h, Finset.mem_insert, Bool.or_eq_true,
    decide_eq_true_eq]
  constructor
  · rintro ⟨hj, rfl | hb⟩
    · exact .inl rfl
    · exact .inr ⟨hj, hb⟩
  · rintro (rfl | ⟨hj, hb⟩)
    · exact ⟨h, .inl rfl⟩
    · exact ⟨hj, .inr hb⟩

theorem marked_unset (h : i < b.numBits) : (b.unset i).marked = b.marked.erase i := by
  ext j
  simp only [mem_marked, numBits_unset, bit_unset h, Finset.mem_erase, Bool.and_eq_true,
    decide_eq_true_eq]
  tauto

theorem new_eq {n : Nat} (hn : 0 < n) :
    ∃ b, new n = .ok b ∧ b.numBits = n ∧ b.marked = ∅ := by
  unfold new
  rw [assert_of (by omega)]
  simp only [Int.toNat_natCast, ok_bind]
  -- every `Clear` of the loop is in range and leaves an empty bitmap empty
  have key : ∀ (l : List Nat) (b : Bitmap), (∀ i ∈ l, i < b.numBits) → b.marked = ∅ →
      ∃ b', l.foldlM (fun b (i : Nat) => b.clear i) b = .ok b' ∧ b'.numBits = b.numBits ∧
        b'.marked = ∅ := by
    intro l
    induction l with
    | nil => exact fun b _ hb => ⟨b, rfl, rfl, hb⟩
    | cons i l ih =>
      intro b hl hb
      have hi := hl i (.head _)
      obtain ⟨b', h1, h2, h3⟩ := ih (b.unset i) (fun j hj => hl j (.tail _ hj))
        (by rw [marked_unset hi, hb]; rfl)
      exact ⟨b', by rw [List.foldlM_cons, clear_eq hi]; exact h1, h2, h3⟩
  refine key _ _ (fun i hi => by simpa using hi) ?_
  ext i
  simp [mem_marked, bit, Words.bit_replicate_zero]

theorem findFrom_cases : ∀ (n i : Nat), i + n = b.numBits →
    (∃ j, i ≤ j ∧ j < b.numBits ∧ b.bit j = false ∧ (∀ k, i ≤ k → k < j → b.bit k = true) ∧
      b.findFrom i n = .ok ((j : Int), b.set j)) ∨
    ((∀ k, i ≤ k → k < b.numBits → b.bit k = true) ∧ b.findFrom i n = .ok (-1, b))
  | 0, i, h => .inr ⟨fun k _ _ => by omega, rfl⟩
  | n + 1, i, h => by
    have hi : i < b.numBits := by omega
    rw [findFrom, test_eq hi, ok_bind]
    cases hb : b.bit i with
    | false =>
      refine .inl ⟨i, Nat.le_refl _, hi, hb, fun k _ _ => by omega, ?_⟩
      simp [mark_eq hi]
    | true =>
      simp only [↓reduceIte]
      -- bit `i` is set, so the claim about the bits from `i + 1` on extends to `i`
      have hk : ∀ k, i ≤ k → k = i ∨ i + 1 ≤ k := fun k _ => by omega
      rcases findFrom_cases n (i + 1) (by omega) with ⟨j, h1, h2, h3, h4, h5⟩ | ⟨h1, h2⟩
      · refine .inl ⟨j, by omega, h2, h3, fun k hik hkj => ?_, h5⟩
        rcases hk k hik with rfl | hik
        · exact hb
        · exact h4 k hik hkj
      · refine .inr ⟨fun k hik hkn => ?_, h2⟩
        rcases hk k hik with rfl | hik
        · exact hb
        · exact h1 k hik hkn

theorem findAndSet_cases (b : Bitmap) :
    (∃ j, j < b.numBits ∧ b.bit j = false ∧ (∀ k < j, b.bit k = true) ∧
      b.findAndSet = .ok ((j : Int), b.set j)) ∨
    ((∀ k < b.numBits, b.bit k = true) ∧ b.findAndSet = .ok (-1, b)) := by
  rcases findFrom_cases (b := b) b.numBits 0 (by omega) with ⟨j, -, h2, h3, h4, h5⟩ | ⟨h1, h2⟩
  · exact .inl ⟨j, h2, h3, fun k hk => h4 k (Nat.zero_le _) hk, h5⟩
  · exact .inr ⟨fun k hk => h1 k (Nat.zero_le _) hk, h2⟩

theorem countFrom_eq : ∀ (n i c : Nat), i + n = b.numBits →
    b.countFrom i n c =
      .ok (c + ((Finset.Ico i b.numBits).filter (b.bit · = false)).card)
  | 0, i, c, h => by
    have : Finset.Ico i b.numBits = ∅ := Finset.Ico_eq_empty (by omega)
    simp [countFrom, this]
  | n + 1, i, c, h => by
    have hi : i < b.numBits := by omega
    have hs : Finset.Ico i b.numBits = insert i (Finset.Ico (i + 1) b.numBits) := by
      ext k; simp only [Finset.mem_Ico, Finset.mem_insert]; omega
    have hn : i ∉ (Finset.Ico (i + 1) b.numBits).filter (b.bit · = false) := by simp
    rw [countFrom, test_eq hi, ok_bind, hs, Finset.filter_insert]
    cases hb : b.bit i with
    | false =>
      rw [if_neg (by simp), if_pos rfl, countFrom_eq n (i + 1) (c + 1) (by omega),
        Finset.card_insert_of_notMem hn]
      congr 1; omega
    | true => rw [if_pos rfl, if_neg (by simp), countFrom_eq n (i + 1) c (by omega)]

theorem card_marked_add_clear (b : Bitmap) :
    ((Finset.range b.numBits).filter (b.bit · = false)).card + b.marked.card = b.numBits := by
  have h := Finset.card_filter_add_card_filter_not (s := Finset.range b.numBits)
    (p := fun i => b.bit i = true)
  simp only [Bool.not_eq_true, Finset.card_range] at h
  unfold marked
  omega

theorem numClear_eq (b : Bitmap) : b.numClear = .ok (b.numBits - b.marked.card) := by
  unfold numClear
  rw [countFrom_eq _ _ _ (by omega), ← Finset.range_eq_Ico]
  have := card_marked_add_clear b
  congr 1; omega

theorem marked_lt (h : i ∈ b.marked) : i < b.numBits := (mem_marked.1 h).1

theorem exists_clear (h : b.marked.card < b.numBits) : ∃ i < b.numBits, b.bit i = false := by
  by_contra hc
  push Not at hc
  have : b.marked = Finset.range b.numBits := by
    ext i
    simp only [mem_marked, Finset.mem_range, and_iff_left_iff_imp]
    exact fun hi => by simpa using hc i hi
  rw [this, Finset.card_range] at h
  omega

/-- The first `n` clear bits: what `n` calls of `FindAndSet` find. -/
def firstClear (b : Bitmap) (n : Nat) : List Nat :=
  ((List.range b.numBits).filter (!b.bit ·)).take n

theorem firstClear_succ {j : Nat} (hj : j < b.numBits) (hb : b.bit j = false)
    (hlow : ∀ k < j, b.bit k = true) (n : Nat) :
    b.firstClear (n + 1) = j :: (b.set j).firstClear n := by
  have hr : List.range b.numBits =
      List.range j ++ j :: List.range' (j + 1) (b.numBits - (j + 1)) := by
    have h := List.range'_append_1 (s := 0) (m := j) (n := b.numBits - (j + 1) + 1)
    rw [List.range'_succ, Nat.zero_add, ← List.range_eq_range', ← List.range_eq_range',
      show j + (b.numBits - (j + 1) + 1) = b.numBits by omega] at h
    exact h.symm
  have h1 : (List.range j).filter (!b.bit ·) = [] :=
    List.filter_eq_nil_iff.2 fun k hk => by simp [hlow k (List.mem_range.1 hk)]
  have h2 : (List.range j).filter (!(b.set j).bit ·) = [] :=
    List.filter_eq_nil_iff.2 fun k hk => by
      simp [bit_set hj, hlow k (List.mem_range.1 hk)]
  have h3 : ∀ l : List Nat, j ∉ l → l.filter (!(b.set j).bit ·) = l.filter (!b.bit ·) :=
    fun l hl => List.filter_congr fun k hk => by
      have : k ≠ j := fun he => hl (he ▸ hk)
      simp [bit_set hj, this]
  unfold firstClear
  rw [numBits_set, hr, List.filter_append, List.filter_append, h1, h2, List.nil_append,
    List.nil_append, List.filter_cons_of_pos (by simp [hb]),
    List.filter_cons_of_neg (by simp [bit_set hj]), h3 _ (by simp [List.mem_range']; omega),
    List.take_succ_cons]

end Nachos.Bitmap
