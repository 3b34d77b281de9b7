import Nachos.Machine.Proof.Precise

/-!
# Translations through a page table and through a TLB

`translate_table` and `translate_tlb` say what `Translate` does in each mode: which entry it finds
(`tableEntry`, `tlbEntry`), and what it makes of it (`checked`, `marked`). From them: no assertion fails
and an access stays in one frame (`SafeTranslation`), and a TLB with copies of the entries of a page
table gives the results of that table.
-/

namespace Nachos.Machine

open Base

variable {m m' : Machine} {virtAddr : Word} {size : Nat} {writing : Bool} {e : TranslationEntry}
    {table tlb : List TranslationEntry}

/-! ## The entry -/

/-- The address has the alignment of an access of this size. -/
def Aligned (virtAddr : Word) (size : Nat) : Prop :=
  ¬ ((size = 4 ∧ virtAddr &&& 0x3#32 ≠ 0) ∨ (size = 2 ∧ virtAddr &&& 0x1#32 ≠ 0))

instance (virtAddr : Word) (size : Nat) : Decidable (Aligned virtAddr size) :=
  inferInstanceAs (Decidable (¬ _))

def tableEntry (table : List TranslationEntry) (vpn : Nat) : Except ExceptionType TranslationEntry :=
  match table[vpn]? with
  | none => .error .addressErrorException
  | some e => if e.valid then .ok e else .error .pageFaultException

def tlbIndex (tlb : List TranslationEntry) (vpn : Nat) : Option Nat :=
  tlb.findIdx? fun e => e.valid && e.virtualPage == BitVec.ofNat 32 vpn

def checked (writing : Bool) (offset : Nat) (e : TranslationEntry) : Except ExceptionType Nat :=
  if e.readOnly && writing then .error .readOnlyException
  else if numPhysPages ≤ e.physicalPage.toNat then .error .busErrorException
  else .ok (e.physicalPage.toNat * pageSize + offset)

def marked (writing : Bool) (e : TranslationEntry) : TranslationEntry :=
  { e with use := true, dirty := e.dirty || writing }

theorem Aligned.offset_le (h : Aligned virtAddr size) (hsize : size = 1 ∨ size = 2 ∨ size = 4) :
    virtAddr.toNat % pageSize + size ≤ pageSize := by
  unfold Aligned at h
  rw [show pageSize = 128 from rfl]
  rcases hsize with rfl | rfl | rfl
  · omega
  · have := mod_two_of_and (v := virtAddr) (by tauto)
    omega
  · have := mod_four_of_and (v := virtAddr) (by tauto)
    omega

theorem checked_ok {offset p : Nat} (h : checked writing offset e = .ok p) :
    e.physicalPage.toNat < numPhysPages ∧ p = e.physicalPage.toNat * pageSize + offset ∧
      (e.readOnly && writing) = false := by
  unfold checked at h
  split at h
  · cases h
  · rename_i hro
    split at h
    · cases h
    · cases h
      exact ⟨Nat.not_le.1 ‹_›, rfl, by simpa using hro⟩

/-! ## What `Translate` does -/

theorem useEntry_run {update : TranslationEntry → Machine → Machine}
    {offset : Nat} (hfit : offset + size ≤ pageSize) (writing : Bool) (m : Machine) :
    (useEntry e update offset size writing).run m =
      match checked writing offset e with
      | .error exception => .ok (.error exception) m
      | .ok p => .ok (.ok p) (update (marked writing e) m) := by
  unfold useEntry checked
  by_cases hro : (e.readOnly && writing) = true
  · rw [if_pos hro, if_pos hro]
    rfl
  · rw [if_neg hro, if_neg hro]
    dsimp only
    by_cases hframe : numPhysPages ≤ e.physicalPage.toNat
    · rw [if_pos hframe, if_pos hframe]
      rfl
    · have hin : e.physicalPage.toNat * pageSize + offset + size ≤ memorySize :=
        calc e.physicalPage.toNat * pageSize + offset + size
            ≤ e.physicalPage.toNat * pageSize + pageSize := by omega
          _ = (e.physicalPage.toNat + 1) * pageSize := (Nat.succ_mul _ _).symm
          _ ≤ memorySize := Nat.mul_le_mul_right _ (Nat.not_le.1 hframe)
      rw [if_neg hframe, if_neg hframe, EStateM.run_bind]
      dsimp only
      change (assertM _ >>= _).run _ = _
      rw [run_assertM_bind, if_pos hin]
      rfl

theorem translate_unaligned (h : ¬ Aligned virtAddr size) (writing : Bool) (m : Machine) :
    (translate virtAddr size writing).run m = .ok (.error .addressErrorException) m := by
  unfold translate
  rw [if_pos (not_not.1 h)]
  rfl

/-- A page table with all the entries of its size is installed, and no TLB. -/
structure HasTable (m : Machine) (table : List TranslationEntry) : Prop where
  noTLB : m.tlb = none
  installed : m.pageTable = some table
  size : m.pageTableSize = table.length

structure HasTLB (m : Machine) (tlb : List TranslationEntry) : Prop where
  installed : m.tlb = some tlb
  noTable : m.pageTable = none
  size : tlb.length = tlbSize

theorem translate_table (hm : m.HasTable table)
    (h : Aligned virtAddr size) (hsize : size = 1 ∨ size = 2 ∨ size = 4) (writing : Bool) :
    (translate virtAddr size writing).run m =
      match (tableEntry table (virtAddr.toNat / pageSize)).bind fun e =>
          (checked writing (virtAddr.toNat % pageSize) e).map (e, ·) with
      | .error exception => .ok (.error exception) m
      | .ok (e, p) => .ok (.ok p)
        { m with pageTable := some (table.set (virtAddr.toNat / pageSize) (marked writing e)) } := by
  unfold translate
  rw [if_neg h, run_get_bind, run_assertM_bind, if_pos (.inl hm.noTLB), run_assertM_bind,
    if_pos (.inr (by simp [hm.installed]))]
  conv_lhs => rw [hm.noTLB, hm.size, hm.installed]
  dsimp only [Option.getD_some]
  unfold tableEntry
  cases he : table[virtAddr.toNat / pageSize]? with
  | none =>
    rw [if_pos (List.getElem?_eq_none_iff.1 he)]
    rfl
  | some e =>
    rw [if_neg (Nat.not_le.2 (List.getElem?_eq_some_iff.1 he).1)]
    dsimp only
    cases hv : e.valid with
    | false => rfl
    | true =>
      rw [if_neg (by decide), if_pos rfl, useEntry_run (h.offset_le hsize)]
      cases hc : checked writing (virtAddr.toNat % pageSize) e with
      | error exception => simp [Except.bind, Except.map, hc]
      | ok p => simp [Except.bind, Except.map, hc, hm.installed]

theorem translate_tlb (hm : m.HasTLB tlb)
    (h : Aligned virtAddr size) (hsize : size = 1 ∨ size = 2 ∨ size = 4) (writing : Bool) :
    (translate virtAddr size writing).run m =
      match tlbIndex tlb (virtAddr.toNat / pageSize) with
      | none => .ok (.error .pageFaultException) m
      | some i =>
        match tlb[i]? with
        | none => .error (.fault .undefined) m
        | some e =>
          match checked writing (virtAddr.toNat % pageSize) e with
          | .error exception => .ok (.error exception) m
          | .ok p => .ok (.ok p) { m with tlb := some (tlb.set i (marked writing e)) } := by
  unfold translate
  rw [if_neg h, run_get_bind, run_assertM_bind, if_pos (.inr hm.noTable), run_assertM_bind,
    if_pos (.inl (by simp [hm.installed]))]
  conv_lhs => rw [hm.installed]
  dsimp only
  rw [List.take_of_length_le hm.size.le]
  change (match tlbIndex tlb (virtAddr.toNat / pageSize) with
    | none => _
    | some i => _ : MachineM _).run m = _
  cases tlbIndex tlb (virtAddr.toNat / pageSize) with
  | none => rfl
  | some i =>
    dsimp only
    cases he : tlb[i]? with
    | none => rfl
    | some e =>
      dsimp only
      rw [useEntry_run (h.offset_le hsize)]
      cases checked writing (virtAddr.toNat % pageSize) e with
      | error exception => rfl
      | ok p => simp [hm.installed]

theorem tlbIndex_eq_some {vpn i : Nat} (h : tlbIndex tlb vpn = some i) :
    ∃ e, tlb[i]? = some e ∧ e.valid = true ∧ e.virtualPage = BitVec.ofNat 32 vpn := by
  obtain ⟨hi, hp, -⟩ := List.findIdx?_eq_some_iff_getElem.1 h
  rw [Bool.and_eq_true, beq_iff_eq] at hp
  exact ⟨tlb[i], List.getElem?_eq_getElem hi, hp⟩

/-! ## Safety -/

/-- A translation returns; an address it returns is in a frame, at the offset of the virtual one and with
all the bytes of the access; and with an exception nothing has changed. -/
structure SafeTranslation (m : Machine) (virtAddr : Word) (size : Nat) (writing : Bool) : Prop where
  returns : ∃ result m', (translate virtAddr size writing).run m = .ok result m'
  frame : ∀ p m', (translate virtAddr size writing).run m = .ok (.ok p) m' →
    ∃ frame < numPhysPages, p = frame * pageSize + virtAddr.toNat % pageSize ∧
      virtAddr.toNat % pageSize + size ≤ pageSize
  unchanged : ∀ exception m', (translate virtAddr size writing).run m = .ok (.error exception) m' →
    m' = m

theorem safe_of_error {exception : ExceptionType}
    (h : (translate virtAddr size writing).run m = .ok (.error exception) m) :
    SafeTranslation m virtAddr size writing := by
  refine ⟨⟨_, _, h⟩, fun p m' hp => ?_, fun exception' m' he => ?_⟩
  · rw [h] at hp
    cases hp
  · rw [h] at he
    cases he
    rfl

theorem safe_of_checked {p : Nat} {m1 : Machine} (ha : Aligned virtAddr size)
    (hsize : size = 1 ∨ size = 2 ∨ size = 4)
    (hc : checked writing (virtAddr.toNat % pageSize) e = .ok p)
    (h : (translate virtAddr size writing).run m = .ok (.ok p) m1) :
    SafeTranslation m virtAddr size writing := by
  obtain ⟨hframe, hp, -⟩ := checked_ok hc
  refine ⟨⟨_, _, h⟩, fun p' m' hp' => ?_, fun exception m' he => ?_⟩
  · rw [h] at hp'
    cases hp'
    exact ⟨_, hframe, hp, ha.offset_le hsize⟩
  · rw [h] at he
    cases he

theorem safe_of_table (hm : m.HasTable table)
    (hsize : size = 1 ∨ size = 2 ∨ size = 4) : SafeTranslation m virtAddr size writing := by
  by_cases ha : Aligned virtAddr size
  · have h := translate_table hm ha hsize writing
    cases he : tableEntry table (virtAddr.toNat / pageSize) with
    | error exception =>
      rw [he] at h
      exact safe_of_error h
    | ok e =>
      cases hc : checked writing (virtAddr.toNat % pageSize) e with
      | error exception =>
        rw [he, Except.bind, hc] at h
        exact safe_of_error h
      | ok p =>
        rw [he, Except.bind, hc] at h
        exact safe_of_checked ha hsize hc h
  · exact safe_of_error (translate_unaligned ha writing m)

theorem safe_of_tlb (hm : m.HasTLB tlb)
    (hsize : size = 1 ∨ size = 2 ∨ size = 4) : SafeTranslation m virtAddr size writing := by
  by_cases ha : Aligned virtAddr size
  · have h := translate_tlb hm ha hsize writing
    cases hi : tlbIndex tlb (virtAddr.toNat / pageSize) with
    | none =>
      rw [hi] at h
      exact safe_of_error h
    | some i =>
      obtain ⟨e, he, -⟩ := tlbIndex_eq_some hi
      rw [hi] at h
      dsimp only at h
      rw [he] at h
      dsimp only at h
      cases hc : checked writing (virtAddr.toNat % pageSize) e with
      | error exception =>
        rw [hc] at h
        exact safe_of_error h
      | ok p =>
        rw [hc] at h
        exact safe_of_checked ha hsize hc h
  · exact safe_of_error (translate_unaligned ha writing m)

/-! ## The two modes -/

/-- Every valid entry is a copy of the page table's entry for its page, but for use and dirty bits. -/
def Copied (tlb table : List TranslationEntry) : Prop :=
  ∀ e ∈ tlb, e.valid = true →
    ∃ e', table[e.virtualPage.toNat]? = some e' ∧ mapping e' = mapping e

theorem checked_congr {e' : TranslationEntry} (h : mapping e' = mapping e) (writing : Bool)
    (offset : Nat) : checked writing offset e' = checked writing offset e := by
  have hro := congrArg TranslationEntry.readOnly h
  have hframe := congrArg TranslationEntry.physicalPage h
  unfold checked
  rw [show e'.readOnly = e.readOnly from hro, show e'.physicalPage = e.physicalPage from hframe]

theorem translate_agrees (hm : m.HasTLB tlb)
    (hm' : m'.HasTable table) (hcopy : Copied tlb table) (hsize : size = 1 ∨ size = 2 ∨ size = 4)
    (hfound : outcome ((translate virtAddr size writing).run m) ≠ .ok (.error .pageFaultException)) :
    outcome ((translate virtAddr size writing).run m) =
      outcome ((translate virtAddr size writing).run m') := by
  by_cases ha : Aligned virtAddr size
  · rw [translate_tlb hm ha hsize] at hfound ⊢
    rw [translate_table hm' ha hsize]
    cases hi : tlbIndex tlb (virtAddr.toNat / pageSize) with
    | none =>
      rw [hi] at hfound
      exact absurd rfl hfound
    | some i =>
      obtain ⟨e, he, hvalid, hpage⟩ := tlbIndex_eq_some hi
      obtain ⟨e', he', hmap⟩ := hcopy e (List.mem_of_getElem? he) hvalid
      have hvpn : e.virtualPage.toNat = virtAddr.toNat / pageSize := by
        have := virtAddr.isLt
        rw [hpage, BitVec.toNat_ofNat, Nat.mod_eq_of_lt]
        exact (Nat.div_le_self _ _).trans_lt this
      have hvalid' : e'.valid = true := (congrArg TranslationEntry.valid hmap).trans hvalid
      have hentry : tableEntry table (virtAddr.toNat / pageSize) = .ok e' := by
        rw [tableEntry, ← hvpn, he']
        exact if_pos hvalid'
      dsimp only
      rw [he, hentry, Except.bind, checked_congr hmap]
      dsimp only
      cases checked writing (virtAddr.toNat % pageSize) e with
      | error exception => rfl
      | ok p => rfl
  · rw [translate_unaligned ha, translate_unaligned ha]
    rfl

/-- **`Translate`**, with any page table or TLB: it is safe, and where a TLB has copies of the entries of
a page table the result is that of the table. -/
theorem translate_safe (virtAddr : Word) (size : Nat) (writing : Bool)
    (hsize : size = 1 ∨ size = 2 ∨ size = 4) :
    (∀ m, (∃ table, m.HasTable table) ∨ (∃ tlb, m.HasTLB tlb) →
      SafeTranslation m virtAddr size writing) ∧
    ∀ (m m' : Machine) (tlb table : List TranslationEntry), m.HasTLB tlb → m'.HasTable table →
      Copied tlb table →
      outcome ((translate virtAddr size writing).run m) ≠ .ok (.error .pageFaultException) →
      outcome ((translate virtAddr size writing).run m) =
        outcome ((translate virtAddr size writing).run m') := by
  refine ⟨fun m hm => ?_, fun m m' tlb table hm hm' hcopy => translate_agrees hm hm' hcopy hsize⟩
  rcases hm with ⟨table, hm⟩ | ⟨tlb, hm⟩
  · exact safe_of_table hm hsize
  · exact safe_of_tlb hm hsize

def oneMapping : TranslationEntry := ⟨0, 3, true, false, false, false⟩

theorem translate_safe_word :
    SafeTranslation ⟨fun _ => 0, fun _ => 0, none, some [oneMapping], 1⟩ 8 4 true ∧
      outcome ((translate 8 4 true).run
        ⟨fun _ => 0, fun _ => 0, some (oneMapping :: List.replicate 3 ⟨0, 0, false, false, false, false⟩),
          none, 0⟩) = .ok (.ok 392) ∧
      outcome ((translate 8 4 true).run ⟨fun _ => 0, fun _ => 0, none, some [oneMapping], 1⟩) =
        .ok (.ok 392) := by
  have hmodes := translate_safe 8 4 true (.inr (.inr rfl))
  have htable : HasTable ⟨fun _ => 0, fun _ => 0, none, some [oneMapping], 1⟩ [oneMapping] :=
    ⟨rfl, rfl, rfl⟩
  have htlb : HasTLB ⟨fun _ => 0, fun _ => 0,
      some (oneMapping :: List.replicate 3 ⟨0, 0, false, false, false, false⟩), none, 0⟩
      (oneMapping :: List.replicate 3 ⟨0, 0, false, false, false, false⟩) := ⟨rfl, rfl, rfl⟩
  refine ⟨hmodes.1 _ (.inl ⟨_, htable⟩), by decide, ?_⟩
  rw [← hmodes.2 _ _ _ _ htlb htable ?_ (by decide)]
  · decide
  · unfold Copied
    decide

end Nachos.Machine
