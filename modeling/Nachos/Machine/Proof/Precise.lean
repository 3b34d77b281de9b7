import Nachos.Machine.Proof.Isolation

/-!
# Exceptions are precise

Every instruction raises its exceptions before it has an effect: when `OneInstruction` calls
`RaiseException`, registers and memory are what they were (`oneInstruction_precise`). Only use and
dirty bits of the translations may have been set. `RaiseException` then sets `BadVAddr` and completes
the pending load (`runInstruction_raises`). An overflow is raised when the result of an addition or a
subtraction is no `int`, and only then (`overflow_iff`).
-/

namespace Nachos.Machine

open Base

/-! ## Nothing is changed before an exception -/

def RaisedIn (R : Machine → Machine → Prop) (m0 : Machine) (e : Stop) (m : Machine) : Prop :=
  ∀ which badVAddr, e = .raise which badVAddr → R m0 m

theorem readMem_contents (cfg : Build) (addr : Word) (size : Nat) (m : Machine) :
    SameContents m (final ((readMem cfg addr size).run m)) := by
  rw [readMem_final]
  exact translate_contents addr size false m

section
variable {R : Machine → Machine → Prop} [IsPreorder Machine R]
  (ht : ∀ virtAddr size writing m, R m (final ((translate virtAddr size writing).run m)))
include ht

theorem writeMem_raises (cfg : Build) (addr : Word) (size : Nat) (value : Word) (m0 : Machine) :
    Triple (R m0) (writeMem cfg addr size value) (fun _ _ => True) (RaisedIn R m0) := by
  refine Triple.bind (Q := fun _ => R m0) ?_ fun r => ?_
  · refine Triple.stop (fun e m hm _ _ _ => hm) ?_
    exact Keeps.of_rel (ht addr size true) m0
  · cases r with
    | error e => exact Triple.throw fun m hm _ _ _ => hm
    | ok p =>
      refine Triple.bind (Q := fun _ _ => True) ?_ fun bytes => Triple.modify fun _ _ => trivial
      cases writtenBytes cfg size value with
      | error f => exact Triple.throw fun m hm _ _ h => by cases h
      | ok bytes => exact Triple.pure fun _ _ => trivial

theorem routines_precise (cfg : Build) (m0 : Machine) :
    Routines cfg (R m0) (fun _ => True) (RaisedIn R m0) where
  weaken _ _ := trivial
  reg _ _ _ := Keeps.modify fun _ _ => trivial
  read addr size := by
    refine Triple.stop (fun _ _ hm _ _ _ => hm) (Keeps.of_rel (fun m => ?_) m0)
    rw [readMem_final]
    exact ht addr size false m
  write addr size value := writeMem_raises ht cfg addr size value m0
  raise _ _ _ hm _ _ _ := hm
  assertion _ hm _ _ _ := hm

theorem oneInstruction_raises {cfg : Build} {m m' : Machine} {which : ExceptionType}
    {badVAddr : Word} (h : (oneInstruction cfg).run m = .error (.raise which badVAddr) m') :
    R m m' := by
  have htriple := oneInstruction_triple (routines_precise ht cfg m)
    (fun _ _ => Keeps.modify fun _ _ => trivial) (fun _ _ _ _ h => by cases h)
  exact htriple.stops (refl_of R m) h which badVAddr rfl

end

variable {cfg : Build} {m m' : Machine} {badVAddr : Word}

theorem oneInstruction_precise {which : ExceptionType}
    (h : (oneInstruction cfg).run m = .error (.raise which badVAddr) m') :
    SameContents m m' := oneInstruction_raises translate_contents h

def mapping (e : TranslationEntry) : TranslationEntry := { e with use := false, dirty := false }

structure SameMappings (m m' : Machine) : Prop where
  pageTable : m'.pageTable.map (·.map mapping) = m.pageTable.map (·.map mapping)
  tlb : m'.tlb.map (·.map mapping) = m.tlb.map (·.map mapping)
  size : m'.pageTableSize = m.pageTableSize

instance : IsPreorder Machine SameMappings where
  refl _ := ⟨rfl, rfl, rfl⟩
  trans _ _ _ h h' := ⟨h'.1.trans h.1, h'.2.trans h.2, h'.3.trans h.3⟩

theorem map_mapping_set {l : List TranslationEntry} {i : Nat} {e e' : TranslationEntry}
    (he : l[i]? = some e) (hm : mapping e' = mapping e) :
    (l.set i e').map mapping = l.map mapping := by
  obtain ⟨hi, rfl⟩ := List.getElem?_eq_some_iff.1 he
  rw [List.map_set, hm, ← List.map_set (a := l[i]), List.set_getElem_self]

theorem translate_mappings (virtAddr : Word) (size : Nat) (writing : Bool) (m : Machine) :
    SameMappings m (final ((translate virtAddr size writing).run m)) := by
  apply translate_rel
  · intro m i e use dirty he
    refine ⟨?_, rfl, rfl⟩
    cases hp : m.pageTable with
    | none => rfl
    | some table =>
      rw [hp] at he
      exact congrArg some (map_mapping_set he rfl)
  · intro m tlb i e use dirty ht he
    refine ⟨rfl, ?_, rfl⟩
    rw [ht]
    exact congrArg some (map_mapping_set he rfl)

/-! ## The trap -/

/-- What `RaiseException` has done when the kernel's handler runs. -/
structure Trapped (m : Machine) (badVAddr : Word) (m' : Machine) : Prop where
  mem : m'.mainMemory = m.mainMemory
  mappings : SameMappings m m'
  /-- the pending load is completed -/
  registers : ∀ r, r ≠ gpr 0 → r ≠ loadReg → r ≠ loadValueReg → r ≠ badVAddrReg →
    m'.registers r =
      if (m.registers loadReg).toNat = r then m.registers loadValueReg else m.registers r
  badVAddr : (m.registers loadReg).toNat ≠ badVAddrReg → m'.registers badVAddrReg = badVAddr
  noLoad : m'.registers loadReg = 0 ∧ m'.registers loadValueReg = 0
  zero : m'.registers (gpr 0) = 0

def loaded (m : Machine) (target : Reg) (r v : Word) : Machine :=
  (((m.setReg target (m.registers loadValueReg)).setReg loadReg r).setReg loadValueReg v).setReg
    (gpr 0) 0

theorem delayedLoad_run (r v : Word) (m : Machine) :
    (delayedLoad r v).run m =
      if hl : (m.registers loadReg).toNat < numTotalRegs then .ok () (m.loaded ⟨_, hl⟩ r v)
      else .error (.fault .undefined) m := by
  unfold delayedLoad storeRegister
  rw [run_get_bind]
  split <;> rfl

theorem trap_run (badVAddr : Word) (m : Machine) :
    (trap badVAddr).run m = (delayedLoad 0 0).run (m.setReg badVAddrReg badVAddr) := rfl

theorem loaded_trapped {m1 : Machine} (hc : SameContents m m1)
    (hs : SameMappings m m1) {target : Reg} (ht : (target : Nat) = (m.registers loadReg).toNat) :
    Trapped m badVAddr ((m1.setReg badVAddrReg badVAddr).loaded target 0 0) := by
  have hvalue : (m1.setReg badVAddrReg badVAddr).registers loadValueReg =
      m.registers loadValueReg := by
    simp [hc.registers, show loadValueReg ≠ badVAddrReg by decide]
  have htarget (r : Reg) : r = target ↔ (m.registers loadReg).toNat = r := by
    rw [Fin.ext_iff, ← ht]
    exact eq_comm
  unfold loaded
  refine ⟨hc.mem, ⟨hs.pageTable, hs.tlb, hs.size⟩, ?_, ?_, ?_, ?_⟩
  · intro r h0 h1 h2 h3
    rw [registers_setReg, if_neg h0, registers_setReg, if_neg h2, registers_setReg, if_neg h1,
      registers_setReg, hvalue, registers_setReg, if_neg h3, hc.registers]
    simp only [htarget]
  · intro hne
    have hne' : badVAddrReg ≠ target := fun h => hne ((htarget _).1 h)
    simp [hne', show badVAddrReg ≠ gpr 0 by decide, show badVAddrReg ≠ loadReg by decide,
      show badVAddrReg ≠ loadValueReg by decide]
  · simp [show loadReg ≠ gpr 0 by decide, show loadReg ≠ loadValueReg by decide,
      show loadValueReg ≠ gpr 0 by decide]
  · simp

theorem runInstruction_raises {which : ExceptionType}
    (h : (runInstruction cfg).run m = .error (.raise which badVAddr) m') :
    Trapped m badVAddr m' := by
  have hone : Triple (· = m) (oneInstruction cfg) (fun _ _ => True)
      fun e m1 => RaisedIn SameContents m e m1 ∧ RaisedIn SameMappings m e m1 := by
    intro m0 hm0
    rw [hm0]
    cases hr : (oneInstruction cfg).run m with
    | ok u m1 => trivial
    | error e m1 =>
      refine ⟨?_, ?_⟩
      · rintro which badVAddr rfl
        exact oneInstruction_precise hr
      · rintro which badVAddr rfl
        exact oneInstruction_raises translate_mappings hr
  have hboth : Triple (· = m) (runInstruction cfg) (fun _ _ => True)
      fun e m' => ∀ which badVAddr, e = .raise which badVAddr → Trapped m badVAddr m' := by
    refine runInstruction_triple hone (fun f m' _ which badVAddr he => by cases he) ?_
    intro which badVAddr m1 hm1
    rw [EStateM.run_bind, trap_run, delayedLoad_run]
    by_cases hl : ((m1.setReg badVAddrReg badVAddr).registers loadReg).toNat < numTotalRegs
    · rw [dif_pos hl]
      rintro which' badVAddr' ⟨⟩
      have hc := hm1.1 _ _ rfl
      apply loaded_trapped hc (hm1.2 _ _ rfl)
      simp [hc.registers, show loadReg ≠ badVAddrReg by decide]
    · rw [dif_neg hl]
      rintro which' badVAddr' ⟨⟩
  exact hboth.stops rfl h which badVAddr rfl

/-! ## Overflows -/

def OutOfRange (n : Int) : Prop := n < -2 ^ 31 ∨ 2 ^ 31 ≤ n

/-- The instruction adds or subtracts, with a result that is no `int`. -/
def Overflows (instr : Instruction) (m : Machine) : Prop :=
  let rs := (m.gp instr.rs).toInt
  let rt := (m.gp instr.rt).toInt
  match instr.opCode with
  | .add => OutOfRange (rs + rt)
  | .addi => OutOfRange (rs + instr.extra.toInt)
  | .sub => OutOfRange (rs - rt)
  | _ => False

theorem and_signBit (v : Word) : v &&& signBit = 0 ↔ v.msb = false := by
  rw [show signBit = BitVec.twoPow 32 31 by decide, BitVec.and_twoPow, BitVec.msb_eq_getLsbD_last]
  split <;> simp_all

theorem saddOverflow_iff (x y : Word) : x.saddOverflow y = true ↔ OutOfRange (x.toInt + y.toInt) := by
  simp [BitVec.saddOverflow, OutOfRange, or_comm]

theorem ssubOverflow_iff (x y : Word) : x.ssubOverflow y = true ↔ OutOfRange (x.toInt - y.toInt) := by
  simp [BitVec.ssubOverflow, OutOfRange, or_comm]

theorem arithOverflow_iff (instr : Instruction) (m : Machine) :
    ArithOverflow instr m ↔ Overflows instr m := by
  unfold ArithOverflow Overflows
  generalize m.gp instr.rs = rs
  generalize m.gp instr.rt = rt
  cases instr.opCode with
  | add =>
    simp only [Ne, and_signBit, BitVec.msb_xor]
    rw [← saddOverflow_iff, BitVec.saddOverflow_eq]
    cases rs.msb <;> cases rt.msb <;> cases (rs + rt).msb <;> decide
  | addi =>
    simp only [Ne, and_signBit, BitVec.msb_xor]
    rw [← saddOverflow_iff, BitVec.saddOverflow_eq]
    cases rs.msb <;> cases instr.extra.msb <;> cases (rs + instr.extra).msb <;> decide
  | sub =>
    simp only [Ne, and_signBit, BitVec.msb_xor]
    rw [← ssubOverflow_iff, BitVec.ssubOverflow_eq]
    cases rs.msb <;> cases rt.msb <;> cases (rs - rt).msb <;> decide
  | _ => exact Iff.rfl

def NoOverflow (e : Stop) (_ : Machine) : Prop := ∀ badVAddr, e ≠ .raise .overflowException badVAddr

theorem assertM_noOverflow (c : Prop) [Decidable c] :
    Keeps (fun _ => True) NoOverflow (assertM c) :=
  assertM_keeps (fun _ _ _ => nofun) c

theorem useEntry_noOverflow (entry : TranslationEntry)
    (update : TranslationEntry → Machine → Machine) (offset size : Nat) (writing : Bool) :
    Triple (fun _ => True) (useEntry entry update offset size writing)
      (fun r _ => r ≠ .error .overflowException) NoOverflow := by
  unfold useEntry
  split
  · exact Triple.pure fun _ _ => by simp
  · dsimp only
    split
    · exact Triple.pure fun _ _ => by simp
    · refine Triple.bind (Q := fun _ _ => True) (Triple.modify fun _ _ => trivial) fun _ => ?_
      exact Triple.bind (assertM_noOverflow _) fun _ => Triple.pure fun _ _ => by simp

theorem translate_noOverflow (virtAddr : Word) (size : Nat) (writing : Bool) :
    Triple (fun _ => True) (translate virtAddr size writing)
      (fun r _ => r ≠ .error .overflowException) NoOverflow := by
  unfold translate
  split
  · exact Triple.pure fun _ _ => by simp
  · refine Triple.get_bind' fun m => ?_
    refine Triple.bind (assertM_noOverflow _) fun _ => Triple.bind (assertM_noOverflow _) fun _ => ?_
    dsimp only
    split
    · split
      · exact Triple.pure fun _ _ => by simp
      · split
        · exact Triple.throw fun _ _ _ => by simp
        · split
          · exact Triple.pure fun _ _ => by simp
          · exact useEntry_noOverflow _ _ _ _ _
    · split
      · exact Triple.pure fun _ _ => by simp
      · split
        · exact Triple.throw fun _ _ _ => by simp
        · exact useEntry_noOverflow _ _ _ _ _

theorem liftFault_noOverflow {α : Type} (x : Except Fault α) :
    Keeps (fun _ => True) NoOverflow (liftFault x) := by
  cases x with
  | ok a => exact Keeps.pure a
  | error f => exact Keeps.throw fun _ _ _ => nofun

theorem readMem_noOverflow (cfg : Build) (addr : Word) (size : Nat) :
    Keeps (fun _ => True) NoOverflow (readMem cfg addr size) := by
  refine Triple.bind (translate_noOverflow addr size false) fun r => ?_
  cases r with
  | error e =>
    refine Triple.throw fun m he badVAddr h => ?_
    cases h
    exact he rfl
  | ok p => exact Triple.pre (fun _ _ => trivial) (Keeps.get_bind' fun m => liftFault_noOverflow _)

theorem writeMem_noOverflow (cfg : Build) (addr : Word) (size : Nat) (value : Word) :
    Keeps (fun _ => True) NoOverflow (writeMem cfg addr size value) := by
  refine Triple.bind (translate_noOverflow addr size true) fun r => ?_
  cases r with
  | error e =>
    refine Triple.throw fun m he badVAddr h => ?_
    cases h
    exact he rfl
  | ok p =>
    refine Triple.pre (fun _ _ => trivial) (Keeps.bind (liftFault_noOverflow _) fun _ => ?_)
    exact Keeps.modify fun _ _ => trivial

theorem overflows_congr (hc : SameContents m m') (instr : Instruction) :
    Overflows instr m' ↔ Overflows instr m := by
  unfold Overflows gp
  rw [hc.registers]

theorem execute_overflow {instr : Instruction} {pcAfter : Word} 
    (h : (execute cfg instr pcAfter).run m = .error (.raise .overflowException badVAddr) m') :
    Overflows instr m := by
  let E : Stop → Machine → Prop := fun e _ =>
    ∀ badVAddr, e = .raise .overflowException badVAddr → Overflows instr m
  have hparts : Parts cfg (SameContents m) (fun _ => True) E := by
    refine ⟨fun _ _ => trivial, fun _ _ _ => Keeps.modify fun _ _ => trivial, ?_, ?_, ?_, ?_⟩
    · intro addr size m1 hm1
      have hno := readMem_noOverflow cfg addr size m1 trivial
      have hcont := trans_of SameContents hm1 (readMem_contents cfg addr size m1)
      cases hr : (readMem cfg addr size).run m1 with
      | ok value m2 =>
        rw [hr] at hcont
        exact hcont
      | error e m2 =>
        rw [hr] at hno
        exact fun badVAddr he => absurd he (hno badVAddr)
    · intro addr size value
      refine Triple.pre (fun _ _ => trivial) (Triple.stop ?_ (writeMem_noOverflow cfg addr size value))
      exact fun e _ hno badVAddr he => absurd he (hno badVAddr)
    · intro which badVAddr m1 hne _ badVAddr' he
      cases he
      exact absurd rfl hne
    · exact fun _ _ _ he => by cases he
  have htriple := execute_parts hparts instr pcAfter (fun _ _ _ _ he => by cases he) ?_
  · exact htriple.stops (refl_of SameContents m) h badVAddr rfl
  · intro m1 hm1 hov _ _
    exact (overflows_congr hm1 instr).1 ((arithOverflow_iff instr m1).1 hov)

theorem execute_of_overflow {instr : Instruction} {pcAfter : Word} (h : Overflows instr m) :
    (execute cfg instr pcAfter).run m = .error (.raise .overflowException 0) m := by
  rw [← arithOverflow_iff] at h
  unfold ArithOverflow at h
  dsimp only at h
  unfold execute
  rw [run_get_bind]
  split at h
  · rename_i hop
    simp only [hop]
    rw [if_pos h]
    rfl
  · rename_i hop
    simp only [hop]
    rw [if_pos h]
    rfl
  · rename_i hop
    simp only [hop]
    rw [if_pos h]
    rfl
  · exact h.elim

theorem finish_noOverflow (p : Pending) : Keeps (fun _ => True) NoOverflow (do
    delayedLoad p.nextLoadReg p.nextLoadValue
    writeRegister prevPCReg ((← get).registers pcReg)
    writeRegister pcReg ((← get).registers nextPCReg)
    writeRegister nextPCReg p.pcAfter) := by
  have hreg (r : Reg) (v : Word) : Keeps (fun _ => True) NoOverflow (writeRegister r v) :=
    Keeps.modify fun _ _ => trivial
  refine Keeps.bind (delayedLoad_keeps hreg (fun _ _ _ _ => nofun) _ _) fun _ => ?_
  refine Keeps.get_bind' fun _ => Keeps.bind (hreg _ _) fun _ => ?_
  exact Keeps.get_bind' fun _ => Keeps.bind (hreg _ _) fun _ => hreg _ _

theorem overflow_iff (cfg : Build) (m : Machine) :
    (∃ badVAddr m', (oneInstruction cfg).run m = .error (.raise .overflowException badVAddr) m') ↔
      ∃ raw m1, (readMem cfg (m.registers pcReg) 4).run m = .ok raw m1 ∧
        Overflows (Instruction.decode raw) m := by
  have hno := readMem_noOverflow cfg (m.registers pcReg) 4 m trivial
  have hcont := readMem_contents cfg (m.registers pcReg) 4 m
  unfold oneInstruction
  rw [run_get_bind, EStateM.run_bind]
  cases hr : (readMem cfg (m.registers pcReg) 4).run m with
  | error e m1 =>
    rw [hr] at hno
    refine ⟨?_, nofun⟩
    rintro ⟨badVAddr, m', ⟨⟩⟩
    exact absurd rfl (hno badVAddr)
  | ok raw m1 =>
    rw [hr] at hcont
    change SameContents m m1 at hcont
    dsimp only
    rw [run_get_bind, EStateM.run_bind]
    constructor
    · rintro ⟨badVAddr, m', h⟩
      refine ⟨raw, m1, rfl, ?_⟩
      cases he : (execute cfg (Instruction.decode raw) (m1.registers nextPCReg + 4)).run m1 with
      | error e m2 =>
        rw [he] at h
        cases h
        exact (overflows_congr hcont _).1 (execute_overflow he)
      | ok p m2 =>
        rw [he] at h
        exact absurd rfl ((finish_noOverflow p).stops trivial h badVAddr)
    · rintro ⟨_, _, ⟨⟩, hov⟩
      rw [execute_of_overflow ((overflows_congr hcont _).2 hov)]
      exact ⟨_, _, rfl⟩

/-! ## Precise exceptions -/

/-- **Exceptions are precise.** When `OneInstruction` raises an exception, memory and registers are
those from before the instruction, and the translations too, up to the `use` and `dirty` bits. The
kernel's handler then finds the pending load completed, `BadVAddr` set and nothing else changed. The
exception is an overflow for an `ADD`, `ADDI` or `SUB` whose signed result does not fit, and only for
these. -/
theorem precise_exceptions (cfg : Build) (m : Machine) :
    (∀ which badVAddr m', (oneInstruction cfg).run m = .error (.raise which badVAddr) m' →
      SameContents m m' ∧ SameMappings m m') ∧
    (∀ which badVAddr m', (runInstruction cfg).run m = .error (.raise which badVAddr) m' →
      Trapped m badVAddr m') ∧
    ((∃ badVAddr m',
        (oneInstruction cfg).run m = .error (.raise .overflowException badVAddr) m') ↔
      ∃ raw m1, (readMem cfg (m.registers pcReg) 4).run m = .ok raw m1 ∧
        Overflows (Instruction.decode raw) m) := by
  refine ⟨fun which badVAddr m' h => ?_, fun which badVAddr m' h => ?_, overflow_iff cfg m⟩
  · exact ⟨oneInstruction_precise h, oneInstruction_raises translate_mappings h⟩
  · exact runInstruction_raises h

def programPage (program : List Word) (registers : Reg → Word) : Machine where
  registers := registers
  mainMemory i := ((program.getD (i / 4) 0) >>> (8 * (i % 4))).setWidth 8
  tlb := none
  pageTable := some [⟨0, 0, true, false, false, false⟩]
  pageTableSize := 1

/-- `ADDI r1, r1, 1` when `r1` is the greatest `int`. -/
theorem precise_exceptions_addi : ∃ badVAddr m',
    (oneInstruction buildLinux).run
      (programPage [0x20210001] fun r => if r = gpr 1 then 0x7fffffff else 0) =
      .error (.raise .overflowException badVAddr) m' := by
  refine (precise_exceptions buildLinux _).2.2.2 ⟨0x20210001, _, rfl, ?_⟩
  right
  decide

end Nachos.Machine
