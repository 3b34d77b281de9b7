import Nachos.Base.Lists
import Nachos.Machine.Proof.Precise

/-!
# The register file

Registers are addressed by fields of the instruction and, for a delayed load, by the contents of
`LoadReg`. `RegisterFile` is what keeps this in range: `R0` is zero and `LoadReg` names a general
register. An instruction that returns, a flush and a trap establish it again
(`oneInstruction_registerFile`, `delayedLoad_registerFile`), though an instruction may write `R0`
on its way.
-/

namespace Nachos

open Base

/-! ## Decoding -/

theorem registerField_val (value : Word) (shift : Nat) :
    (registerField value shift : Nat) = ((value >>> shift) &&& 0x1f#32).toNat := by
  have hle : ((value >>> shift) &&& 0x1f#32).toNat ≤ 31 := by
    rw [BitVec.toNat_and]
    exact Nat.and_le_right
  exact Nat.mod_eq_of_lt (by omega)

/-- What `Decode` makes of an instruction: registers in range, and an opcode that the `switch` has a
case for. -/
structure WellDecoded (value : Word) : Prop where
  rs : ((Instruction.decode value).rs : Nat) = ((value >>> 21) &&& 0x1f#32).toNat
  rt : ((Instruction.decode value).rt : Nat) = ((value >>> 16) &&& 0x1f#32).toNat
  rd : ((Instruction.decode value).rd : Nat) = ((value >>> 11) &&& 0x1f#32).toNat
  inRange : ∀ shift : Nat, ((value >>> shift) &&& 0x1f#32).toNat < 32
  opCode_le : (Instruction.decode value).opCode.number ≤ maxOpcode
  opCode_ne : (Instruction.decode value).opCode ≠ .rfe

theorem opCode_number_le (opCode : OpCode) : opCode.number ≤ maxOpcode := by
  cases opCode <;> decide

theorem opTable_ne_rfe : ∀ entry ∈ opTable, entry.1 ≠ .op .rfe := by decide

theorem specialTable_ne_rfe : ∀ opCode ∈ specialTable, opCode ≠ .rfe := by decide

theorem wellDecoded (value : Word) : WellDecoded value := by
  refine ⟨registerField_val value 21, registerField_val value 16, registerField_val value 11, ?_,
    opCode_number_le _, ?_⟩
  · intro shift
    rw [← registerField_val]
    exact (registerField value shift).isLt
  · have hcode := getD_of_forall (d := (.op .res, .iFmt)) opTable_ne_rfe (by decide)
      ((value >>> 26) &&& 0x3f#32).toNat
    unfold Instruction.decode
    cases hentry : opTable.getD ((value >>> 26) &&& 0x3f#32).toNat (.op .res, .iFmt) with
    | mk code format =>
      rw [hentry] at hcode
      cases code with
      | op opCode => exact fun h => hcode (congrArg TableCode.op h)
      | special => exact getD_of_forall specialTable_ne_rfe (by decide) _
      | bcond =>
        dsimp only
        split_ifs <;> decide

namespace Machine

def LoadsGeneral (m : Machine) : Prop := (m.registers loadReg).toNat < 32

instance (m : Machine) : Decidable m.LoadsGeneral := inferInstanceAs (Decidable (_ < _))

theorem gpr_ne {r : Fin 32} {r' : Reg} (h : 32 ≤ r'.val) : gpr r ≠ r' := by
  rintro rfl
  exact absurd h (Nat.not_le.2 r.isLt)

theorem gpr_injective : Function.Injective gpr := by
  intro r r' h
  exact Fin.ext (congrArg (Fin.val (n := numTotalRegs)) h)

/-- `R0` is zero and `LoadReg` names a general register. -/
structure RegisterFile (registers : Reg → Word) : Prop where
  zero : registers (gpr 0) = 0
  load : (registers loadReg).toNat < 32

/-! ## The pending load -/

def Pends (r v : Word) (m : Machine) : Prop :=
  m.registers loadReg = r ∧ m.registers loadValueReg = v

variable {r : Word} {m : Machine}

theorem Pends.setReg {v : Word} (h : Pends r v m) {q : Reg} (hl : q ≠ loadReg)
    (hv : q ≠ loadValueReg) (a : Word) : Pends r v (m.setReg q a) := by
  unfold Pends
  rw [registers_setReg, registers_setReg, if_neg hl.symm, if_neg hv.symm]
  exact h

theorem Pends.of_registers {v : Word} {m' : Machine} (h : Pends r v m)
    (hr : m'.registers = m.registers) : Pends r v m' := by
  unfold Pends
  rw [hr]
  exact h

theorem execute_pends (cfg : Build) (instr : Instruction) (pcAfter r v : Word) :
    Keeps (Pends r v) (fun _ => Pends r v) (execute cfg instr pcAfter) := by
  refine execute_triple ⟨fun _ h => h, ?_, ?_, ?_, ?_, ?_⟩ instr pcAfter fun _ h _ => h
  · exact fun q a hq => Keeps.modify fun m hm =>
      hm.setReg (hq.trans (by decide)).ne (hq.trans (by decide)).ne a
  · exact fun addr size => Keeps.of_final fun m hm => hm.of_registers (readMem_contents _ _ _ m).1
  · exact fun addr size value => Keeps.of_final fun m hm =>
      hm.of_registers (writeMem_registers _ _ _ _ m)
  · exact fun _ _ _ h => h
  · exact fun _ h => h

def Small (p : Pending) (_ : Machine) : Prop := p.nextLoadReg.toNat < 32

section
variable {P : Machine → Prop}

theorem triple_true {α : Type} (x : MachineM α) :
    Triple P x (fun _ _ => True) (fun _ _ => True) := by
  intro m hm
  cases x.run m <;> trivial

theorem done_small (pcAfter : Word) : Triple P (done pcAfter) Small (fun _ _ => True) :=
  Triple.pure fun _ _ => show (0 : Nat) < 32 by decide

theorem bind_small {α : Type} (x : MachineM α) {f : α → MachineM Pending}
    (hf : ∀ a, Triple (fun _ => True) (f a) Small (fun _ _ => True)) :
    Triple P (x >>= f) Small (fun _ _ => True) :=
  Triple.bind (triple_true x) hf

theorem load_small (rt : Fin 32) (pcAfter value : Word) :
    Triple P (pure ⟨pcAfter, BitVec.ofNat 32 rt, value⟩ : MachineM Pending) Small
      (fun _ _ => True) := by
  refine Triple.pure fun _ _ => ?_
  change (BitVec.ofNat 32 rt).toNat < 32
  rw [BitVec.toNat_ofNat]
  omega

theorem branchIf_small (taken : Machine → Bool) (instr : Instruction) (pcAfter : Word) :
    Triple P (branchIf taken instr pcAfter) Small (fun _ _ => True) :=
  bind_small _ fun _ => done_small _

end

theorem execute_small (cfg : Build) (instr : Instruction) (pcAfter : Word) :
    Triple (fun _ => True) (execute cfg instr pcAfter) Small (fun _ _ => True) := by
  refine Triple.get_bind fun m _ => ?_
  cases instr.opCode with
  | addiu | addu | and | andi | lui | mfhi | mflo | nor | or | ori | sll | sllv | slt | slti | sltiu
  | sltu | sra | srav | srl | srlv | subu | xor | xori | jal | mthi | mtlo | sb | sh | sw =>
    exact bind_small _ fun _ => done_small _
  | add | addi | sub =>
    exact Triple.ite (fun _ => Triple.throw fun _ _ => trivial) fun _ => bind_small _ fun _ =>
      done_small _
  | beq | bgez | bgtz | blez | bltz | bne => exact branchIf_small _ _ _
  | bgezal | bltzal => exact bind_small _ fun _ => branchIf_small _ _ _
  | j | jr => exact done_small _
  | jalr | mult | multu | swl | swr => exact bind_small _ fun _ => bind_small _ fun _ => done_small _
  | divu =>
    exact Triple.ite (fun _ => bind_small _ fun _ => bind_small _ fun _ => done_small _)
      fun _ => bind_small _ fun _ => bind_small _ fun _ => done_small _
  | div =>
    refine Triple.ite (fun _ => bind_small _ fun _ => bind_small _ fun _ => done_small _) fun _ => ?_
    exact Triple.ite (fun _ => Triple.throw fun _ _ => trivial)
      fun _ => bind_small _ fun _ => bind_small _ fun _ => done_small _
  | lb | lbu => exact bind_small _ fun _ => load_small _ _ _
  | lh | lhu | lw =>
    exact Triple.ite (fun _ => Triple.throw fun _ _ => trivial) fun _ => bind_small _ fun _ =>
      load_small _ _ _
  | lwl | lwr => exact bind_small _ fun _ => bind_small _ fun _ => load_small _ _ _
  | syscall | res | unimp | rfe => exact Triple.throw fun _ _ => trivial

/-! ## What keeps the register file -/

theorem loaded_registerFile (m : Machine) (target : Reg) (hr : r.toNat < 32) (v : Word) :
    RegisterFile (m.loaded target r v).registers := by
  unfold loaded
  refine ⟨?_, ?_⟩
  · rw [registers_setReg, if_pos rfl]
  · rw [registers_setReg, if_neg (by decide), registers_setReg, if_neg (by decide),
      registers_setReg, if_pos rfl]
    exact hr

theorem delayedLoad_registerFile (hl : m.LoadsGeneral) (hr : r.toNat < 32) (v : Word) :
    ∃ m', (delayedLoad r v).run m = .ok () m' ∧ RegisterFile m'.registers := by
  have hlt : (m.registers loadReg).toNat < numTotalRegs := Nat.lt_trans hl (by decide)
  refine ⟨m.loaded ⟨_, hlt⟩ r v, ?_, loaded_registerFile m _ hr v⟩
  rw [delayedLoad_run, dif_pos hlt]

theorem RegisterFile.update {ρ : Reg → Word} (h : RegisterFile ρ) {q : Reg} (h0 : q ≠ gpr 0)
    (hl : q ≠ loadReg) (v : Word) : RegisterFile (Function.update ρ q v) := by
  refine ⟨?_, ?_⟩
  · rw [Function.update_of_ne h0.symm]
    exact h.zero
  · rw [Function.update_of_ne hl.symm]
    exact h.load

theorem execute_load {cfg : Build} {m1 m2 : Machine} {instr : Instruction} {pcAfter : Word}
    {p : Pending} (hl : m.LoadsGeneral) (hc : SameContents m m1)
    (h : (execute cfg instr pcAfter).run m1 = .ok p m2) :
    m2.LoadsGeneral ∧ p.nextLoadReg.toNat < 32 := by
  have hp : Pends (m.registers loadReg) (m.registers loadValueReg) m1 :=
    Pends.of_registers ⟨rfl, rfl⟩ hc.registers
  have hp2 := (execute_pends cfg instr pcAfter _ _).returns hp h
  refine ⟨?_, (execute_small cfg instr pcAfter).returns trivial h⟩
  unfold LoadsGeneral
  rw [hp2.1]
  exact hl

theorem oneInstruction_registerFile {cfg : Build} {m' : Machine} {u : Unit}
    (hl : m.LoadsGeneral) (h : (oneInstruction cfg).run m = .ok u m') : RegisterFile m'.registers := by
  obtain ⟨_, _, ⟨⟩, h⟩ := run_bind_ok h
  obtain ⟨raw, m1, hraw, h⟩ := run_bind_ok h
  obtain ⟨_, _, ⟨⟩, h⟩ := run_bind_ok h
  obtain ⟨p, m2, hp, h⟩ := run_bind_ok h
  obtain ⟨_, m3, hload, h⟩ := run_bind_ok h
  have hc := readMem_contents cfg (m.registers pcReg) 4 m
  rw [hraw] at hc
  obtain ⟨hl2, hsmall⟩ := execute_load hl hc hp
  obtain ⟨m3', hload', hfile⟩ := delayedLoad_registerFile hl2 hsmall p.nextLoadValue
  rw [hload] at hload'
  cases hload'
  cases h
  exact ((hfile.update (by decide) (by decide) _).update (by decide) (by decide) _).update
    (by decide) (by decide) _

theorem trap_registerFile (badVAddr : Word) (hl : m.LoadsGeneral) :
    ∃ m', (trap badVAddr).run m = .ok () m' ∧ RegisterFile m'.registers := by
  rw [trap_run]
  refine delayedLoad_registerFile ?_ (by decide) 0
  unfold LoadsGeneral
  rw [registers_setReg, if_neg (by decide)]
  exact hl

end Machine

end Nachos
