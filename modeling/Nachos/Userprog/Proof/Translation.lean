import Nachos.Machine.Proof.UserMemory
import Nachos.Userprog.AddrSpace

/-!
# The two translations

The loader translates with `AddrSpace::Translate`, user instructions with `Machine::Translate` on the same
table. They check in different orders and compare frame numbers with different signs; on a table with
valid entries and frames of the machine they agree on every address and both kinds of access
(`translate_agree`).
-/

namespace Nachos.AddrSpace

open Base Machine

structure Proper (e : TranslationEntry) : Prop where
  valid : e.valid = true
  nonneg : 0 ≤ e.physicalPage.toInt
  lt : e.physicalPage.toInt < numPhysPages

namespace Proper

variable {e : TranslationEntry} (h : Proper e)
include h

theorem toInt_eq : e.physicalPage.toInt = e.physicalPage.toNat := by
  have h0 := h.nonneg
  rw [BitVec.toInt_eq_toNat_cond] at h0 ⊢
  have := e.physicalPage.isLt
  split <;> omega

theorem frame_lt : e.physicalPage.toNat < numPhysPages := by
  have := h.lt
  rw [h.toInt_eq] at this
  omega

theorem addr_lt {offset : Nat} (ho : offset < pageSize) :
    e.physicalPage.toNat * pageSize + offset < memorySize :=
  calc e.physicalPage.toNat * pageSize + offset
      < e.physicalPage.toNat * pageSize + pageSize := by omega
    _ = (e.physicalPage.toNat + 1) * pageSize := (Nat.succ_mul _ _).symm
    _ ≤ memorySize := Nat.mul_le_mul_right _ h.frame_lt

theorem toNat_paddr {offset : Nat} (ho : offset < pageSize) :
    (e.physicalPage * BitVec.ofNat 32 pageSize + BitVec.ofNat 32 offset).toNat =
      e.physicalPage.toNat * pageSize + offset := by
  have hlt := h.addr_lt ho
  have hm : memorySize < 2 ^ 32 := by decide
  have hp : pageSize < 2 ^ 32 := by decide
  rw [BitVec.toNat_add, BitVec.toNat_mul, BitVec.toNat_ofNat, BitVec.toNat_ofNat, Nat.mod_eq_of_lt hp,
    Nat.mod_eq_of_lt (show offset < 2 ^ 32 by omega), Nat.mod_eq_of_lt (a := _ * _) (by omega),
    Nat.mod_eq_of_lt (by omega)]

end Proper

def touch (e : TranslationEntry) (write : Bool) : TranslationEntry :=
  { e with use := true, dirty := e.dirty || write }

section
variable {s : AddrSpace} {vaddr : Word} {write : Bool} {e : TranslationEntry}

/-! ## The kernel's translation -/

theorem translate_outside (h : s.pageTable[vaddr.toNat / pageSize]? = none) :
    s.translate vaddr write = .ok (.error .addressErrorException) := by
  simp only [translate, h, pure_eq_ok]

theorem translate_readOnly (h : s.pageTable[vaddr.toNat / pageSize]? = some e)
    (hro : (write && e.readOnly) = true) :
    s.translate vaddr write = .ok (.error .readOnlyException) := by
  simp only [translate, h, hro, if_true, pure_eq_ok]

theorem translate_proper (h : s.pageTable[vaddr.toNat / pageSize]? = some e) (he : Proper e)
    (hro : (write && e.readOnly) = false) :
    ∃ paddr : Word, paddr.toNat = e.physicalPage.toNat * pageSize + vaddr.toNat % pageSize ∧
      s.translate vaddr write = .ok (.ok (paddr,
        { s with pageTable := s.pageTable.set (vaddr.toNat / pageSize) (touch e write) })) := by
  have ho : vaddr.toNat % pageSize < pageSize := Nat.mod_lt _ (by decide)
  have hp := he.toNat_paddr ho
  refine ⟨_, hp, ?_⟩
  unfold translate
  dsimp only
  rw [h]
  dsimp only
  rw [if_neg (by simp [hro]), if_neg (Int.not_le.2 he.lt), assert_of (by rw [hp]; exact he.addr_lt ho)]
  rfl

/-! ## The machine's translation, of a byte -/

variable {m : Machine} (ht : m.tlb = none)
include ht

theorem machineTranslate_run :
    (Machine.translate vaddr 1 write).run (s.restoreState m) =
      (if s.numPages ≤ vaddr.toNat / pageSize then pure (.error .addressErrorException)
        else match s.pageTable[vaddr.toNat / pageSize]? with
          | none => throw (.fault .undefined)
          | some entry =>
            if !entry.valid then pure (.error .pageFaultException)
            else useEntry entry (fun entry m => { m with
              pageTable := m.pageTable.map (·.set (vaddr.toNat / pageSize) entry) })
              (vaddr.toNat % pageSize) 1 write : MachineM _).run (s.restoreState m) := by
  have htlb : (s.restoreState m).tlb = none := ht
  unfold Machine.translate
  rw [if_neg (by simp), run_get_bind, run_assertM_bind, if_pos (.inl htlb), run_assertM_bind,
    if_pos (.inr (by simp [restoreState])), htlb]
  rfl

theorem machineTranslate_outside (h : s.pageTable[vaddr.toNat / pageSize]? = none) :
    (Machine.translate vaddr 1 write).run (s.restoreState m) =
      .ok (.error .addressErrorException) (s.restoreState m) := by
  have hle : s.numPages ≤ vaddr.toNat / pageSize := List.getElem?_eq_none_iff.1 h
  rw [machineTranslate_run ht, if_pos hle]
  rfl

theorem machineTranslate_readOnly (h : s.pageTable[vaddr.toNat / pageSize]? = some e) (he : Proper e)
    (hro : (write && e.readOnly) = true) :
    (Machine.translate vaddr 1 write).run (s.restoreState m) =
      .ok (.error .readOnlyException) (s.restoreState m) := by
  have hlt : vaddr.toNat / pageSize < s.numPages := (List.getElem?_eq_some_iff.1 h).1
  rw [Bool.and_comm] at hro
  rw [machineTranslate_run ht, if_neg (Nat.not_le.2 hlt), h]
  dsimp only
  rw [he.valid]
  unfold useEntry
  rw [hro]
  rfl

theorem machineTranslate_proper (h : s.pageTable[vaddr.toNat / pageSize]? = some e) (he : Proper e)
    (hro : (write && e.readOnly) = false) :
    (Machine.translate vaddr 1 write).run (s.restoreState m) =
      .ok (.ok (e.physicalPage.toNat * pageSize + vaddr.toNat % pageSize))
        (restoreState { s with
          pageTable := s.pageTable.set (vaddr.toNat / pageSize) (touch e write) } m) := by
  have hlt : vaddr.toNat / pageSize < s.numPages := (List.getElem?_eq_some_iff.1 h).1
  have hfit : e.physicalPage.toNat * pageSize + vaddr.toNat % pageSize < memorySize :=
    he.addr_lt (Nat.mod_lt _ (by decide))
  rw [Bool.and_comm] at hro
  rw [machineTranslate_run ht, if_neg (Nat.not_le.2 hlt), h]
  dsimp only
  rw [he.valid]
  unfold useEntry
  rw [hro, if_neg (by decide), if_neg Bool.false_ne_true, if_neg (Nat.not_le.2 he.frame_lt),
    EStateM.run_bind]
  dsimp only
  change (assertM _ >>= _).run _ = _
  rw [run_assertM_bind, if_pos (by omega)]
  simp only [restoreState, numPages, List.length_set]
  rfl

end

/-- **The two translations agree** on every address and both kinds of access: the same exception and no
change, or the same physical address and the same table after it. -/
theorem translate_agree (s : AddrSpace) (m : Machine) (ht : m.tlb = none)
    (hs : ∀ e ∈ s.pageTable, Proper e) (vaddr : Word) (write : Bool) :
    (∃ exception, s.translate vaddr write = .ok (.error exception) ∧
      (Machine.translate vaddr 1 write).run (s.restoreState m) =
        .ok (.error exception) (s.restoreState m)) ∨
    ∃ paddr s', s.translate vaddr write = .ok (.ok (paddr, s')) ∧
      (Machine.translate vaddr 1 write).run (s.restoreState m) =
        .ok (.ok paddr.toNat) (s'.restoreState m) := by
  cases h : s.pageTable[vaddr.toNat / pageSize]? with
  | none => exact .inl ⟨_, translate_outside h, machineTranslate_outside ht h⟩
  | some e =>
    have he := hs e (List.mem_of_getElem? h)
    cases hro : write && e.readOnly with
    | true => exact .inl ⟨_, translate_readOnly h hro, machineTranslate_readOnly ht h he hro⟩
    | false =>
      obtain ⟨paddr, hp, hk⟩ := translate_proper h he hro
      refine .inr ⟨paddr, _, hk, ?_⟩
      rw [hp]
      exact machineTranslate_proper ht h he hro

/-- A byte of a read-only page, read and written, and a byte behind the last page. -/
theorem translate_agree_readOnly :
    let s : AddrSpace := ⟨⟨[]⟩, [⟨0, 5, true, true, false, false⟩]⟩
    let m : Machine := ⟨0, 0, none, none, 0⟩
    (∀ v write, (∃ exception, s.translate v write = .ok (.error exception) ∧
      (Machine.translate v 1 write).run (s.restoreState m) =
        .ok (.error exception) (s.restoreState m)) ∨
    ∃ paddr s', s.translate v write = .ok (.ok (paddr, s')) ∧
      (Machine.translate v 1 write).run (s.restoreState m) =
        .ok (.ok paddr.toNat) (s'.restoreState m)) ∧
    (s.translate 3 false).toOption.map (·.toOption.map (·.1)) = some (some 643) ∧
    s.translate 3 true = .ok (.error .readOnlyException) ∧
    s.translate 128 false = .ok (.error .addressErrorException) := by
  refine ⟨translate_agree _ _ rfl ?_, by decide, by decide, by decide⟩
  intro e he
  rw [List.mem_singleton.1 he]
  exact ⟨rfl, by decide, by decide⟩

end Nachos.AddrSpace
