import Nachos.Machine.MipsSim

/-!
# What an instruction keeps

`Routines cfg P Q E`: the parts of an instruction (writes of a register below the program counters,
the two memory accesses, and the stops) lead from `P` to `Q`, or stop with `E`. Then the `switch` of
`OneInstruction` does (`execute_triple`), by one case for each group of instructions; `execute_parts`
is the same with the overflow of additions and subtractions apart (`Parts`). What follows the
`switch`, and the trap, write the other registers too: `oneInstruction_triple` is for a `Q` that
every register write keeps, and `runInstruction_triple` adds the trap.
-/

namespace Nachos.Machine

open Base

def DivOverflow (instr : Instruction) (m : Machine) : Prop :=
  instr.opCode = .div ∧ m.gp instr.rs = signBit ∧ m.gp instr.rt = -1

/-- The parts of an instruction: with `P` before the first effect and `Q` after it, or stopped with
`E`. Exceptions are raised before the first effect. -/
structure Routines (cfg : Build) (P Q : Machine → Prop) (E : Stop → Machine → Prop) : Prop where
  weaken : ∀ m, P m → Q m
  reg : ∀ (r : Reg) (v : Word), r < pcReg → Keeps Q E (writeRegister r v)
  read : ∀ addr size, Keeps P E (readMem cfg addr size)
  write : ∀ addr size value, Triple P (writeMem cfg addr size value) (fun _ => Q) E
  raise : ∀ which badVAddr m, P m → E (.raise which badVAddr) m
  assertion : ∀ m, P m → E (.fault .assertion) m

def ArithOverflow (instr : Instruction) (m : Machine) : Prop :=
  let rs := m.gp instr.rs
  let rt := m.gp instr.rt
  match instr.opCode with
  | .add => (rs ^^^ rt) &&& signBit = 0 ∧ (rs ^^^ (rs + rt)) &&& signBit ≠ 0
  | .addi =>
    (rs ^^^ instr.extra) &&& signBit = 0 ∧ (instr.extra ^^^ (rs + instr.extra)) &&& signBit ≠ 0
  | .sub => (rs ^^^ rt) &&& signBit ≠ 0 ∧ (rs ^^^ (rs - rt)) &&& signBit ≠ 0
  | _ => False

structure Parts (cfg : Build) (P Q : Machine → Prop) (E : Stop → Machine → Prop) : Prop where
  weaken : ∀ m, P m → Q m
  reg : ∀ (r : Reg) (v : Word), r < pcReg → Keeps Q E (writeRegister r v)
  read : ∀ addr size, Keeps P E (readMem cfg addr size)
  write : ∀ addr size value, Triple P (writeMem cfg addr size value) (fun _ => Q) E
  raise : ∀ which badVAddr m, which ≠ .overflowException → P m → E (.raise which badVAddr) m
  assertion : ∀ m, P m → E (.fault .assertion) m

section
variable {P Q : Machine → Prop} {E : Stop → Machine → Prop} {cfg : Build}

theorem Routines.parts (h : Routines cfg P Q E) : Parts cfg P Q E :=
  ⟨h.weaken, h.reg, h.read, h.write, fun which badVAddr m _ => h.raise which badVAddr m, h.assertion⟩

theorem gpr_lt (r : Fin 32) : gpr r < pcReg :=
  Nat.lt_of_lt_of_le r.isLt (by decide)

theorem done_keeps (pcAfter : Word) : Keeps Q E (done pcAfter) := Keeps.pure _

theorem branchIf_keeps (taken : Machine → Bool) (instr : Instruction) (pcAfter : Word) :
    Keeps Q E (branchIf taken instr pcAfter) :=
  Keeps.get_bind' fun _ => done_keeps _

theorem assertM_keeps (h : ∀ m, P m → E (.fault .assertion) m) (c : Prop) [Decidable c] :
    Keeps P E (assertM c) :=
  Keeps.ite (Keeps.pure _) (Keeps.throw h)

theorem setResult_keeps (h : Parts cfg P Q E) (r : Fin 32) (v pcAfter : Word) :
    Keeps Q E (setResult r v pcAfter) :=
  Keeps.bind (h.reg _ _ (gpr_lt r)) fun _ => done_keeps _

theorem writeTwo_keeps (h : Parts cfg P Q E) {r r' : Reg} (hr : r < pcReg) (hr' : r' < pcReg)
    (v v' pcAfter : Word) : Keeps Q E (do writeRegister r v; writeRegister r' v'; done pcAfter) :=
  Keeps.bind (h.reg _ _ hr) fun _ => Keeps.bind (h.reg _ _ hr') fun _ => done_keeps _

theorem link_keeps (h : Parts cfg P Q E) : Keeps Q E link :=
  Keeps.get_bind' fun _ => h.reg _ _ (by decide)

theorem alignedWord_keeps (h : Parts cfg P Q E) (tmp : Word) :
    Keeps P E (alignedWord cfg tmp) := by
  unfold alignedWord
  split
  · exact Keeps.bind (h.read _ _) fun _ => Keeps.pure _
  · exact Keeps.bind (assertM_keeps h.assertion _) fun _ =>
      Keeps.bind (h.read _ _) fun _ => Keeps.pure _

theorem load_keeps (h : Parts cfg P Q E) {α : Type} {x : MachineM α} {f : α → Pending}
    (hx : Keeps P E x) : Triple P (do let value ← x; return f value) (fun _ => Q) E :=
  Triple.bind hx fun _ => Triple.pure h.weaken

theorem raiseIf_keeps {α : Type} {c : Prop} [Decidable c] {x : MachineM α} {m : Machine}
    {which : ExceptionType} {badVAddr : Word} (he : c → E (.raise which badVAddr) m)
    (hx : Triple (· = m) x (fun _ => Q) E) :
    Triple (· = m) (if c then throw (.raise which badVAddr) else x) (fun _ => Q) E :=
  Triple.ite (fun hc => Triple.throw (by rintro _ rfl; exact he hc)) fun _ => hx

theorem execute_parts (h : Parts cfg P Q E) (instr : Instruction) (pcAfter : Word)
    (hdiv : ∀ m, P m → DivOverflow instr m → E (.fault .undefined) m)
    (hov : ∀ m, P m → ArithOverflow instr m → E (.raise .overflowException 0) m) :
    Triple P (execute cfg instr pcAfter) (fun _ => Q) E := by
  refine Triple.get_bind fun m hm => ?_
  have hq := h.weaken m hm
  cases hop : instr.opCode with
  | addiu | addu | and | andi | lui | mfhi | mflo | nor | or | ori | sll | sllv | slt | slti | sltiu
  | sltu | sra | srav | srl | srlv | subu | xor | xori =>
    exact (setResult_keeps h _ _ _).at_state hq
  | add | addi | sub =>
    refine raiseIf_keeps (fun hc => hov m hm ?_) ((setResult_keeps h _ _ _).at_state hq)
    unfold ArithOverflow
    rw [hop]
    exact hc
  | beq | bgez | bgtz | blez | bltz | bne => exact (branchIf_keeps _ _ _).at_state hq
  | bgezal | bltzal =>
    exact (Keeps.bind (link_keeps h) fun _ => branchIf_keeps _ _ _).at_state hq
  | jal => exact (Keeps.bind (link_keeps h) fun _ => done_keeps _).at_state hq
  | j | jr => exact (done_keeps _).at_state hq
  | jalr =>
    exact (Keeps.bind (h.reg _ _ (gpr_lt _)) fun _ => Keeps.get_bind' fun _ =>
      done_keeps _).at_state hq
  | mthi | mtlo => exact (Keeps.bind (h.reg _ _ (by decide)) fun _ => done_keeps _).at_state hq
  | mult | multu => exact (writeTwo_keeps h (by decide) (by decide) _ _ _).at_state hq
  | divu =>
    exact (Keeps.ite (writeTwo_keeps h (by decide) (by decide) _ _ _)
      (writeTwo_keeps h (by decide) (by decide) _ _ _)).at_state hq
  | div =>
    have htwo : ∀ v v', Triple (· = m)
        (do writeRegister loReg v; writeRegister hiReg v'; done pcAfter) (fun _ => Q) E :=
      fun v v' => (writeTwo_keeps h (by decide) (by decide) v v' pcAfter).at_state hq
    refine Triple.ite (fun _ => htwo _ _) fun _ => Triple.ite (fun hov => ?_) fun _ => htwo _ _
    exact Triple.throw (by rintro _ rfl; exact hdiv _ hm ⟨hop, hov⟩)
  | lb | lbu => exact (load_keeps h (h.read _ _)).at_state hm
  | lh | lhu | lw =>
    exact raiseIf_keeps (fun _ => h.raise _ _ m nofun hm) ((load_keeps h (h.read _ _)).at_state hm)
  | lwl | lwr =>
    exact (Triple.bind (alignedWord_keeps h _) fun _ => Triple.get_bind fun _ hm =>
      Triple.pure (by rintro _ rfl; exact h.weaken _ hm)).at_state hm
  | sb | sh | sw => exact (Triple.bind (h.write _ _ _) fun _ => done_keeps _).at_state hm
  | swl | swr =>
    exact (Triple.bind (alignedWord_keeps h _) fun _ =>
      Triple.bind (h.write _ _ _) fun _ => done_keeps _).at_state hm
  | syscall | res | unimp => exact Triple.throw (by rintro _ rfl; exact h.raise _ _ _ nofun hm)
  | rfe => exact Triple.throw (by rintro _ rfl; exact h.assertion _ hm)

theorem execute_triple (h : Routines cfg P Q E) (instr : Instruction) (pcAfter : Word)
    (hdiv : ∀ m, P m → DivOverflow instr m → E (.fault .undefined) m) :
    Triple P (execute cfg instr pcAfter) (fun _ => Q) E :=
  execute_parts h.parts instr pcAfter hdiv fun m hm _ => h.raise _ _ m hm

/-! ## The whole of `OneInstruction` -/

section

variable (hreg : ∀ r v, Keeps Q E (writeRegister r v))
    (hload : ∀ m, Q m → numTotalRegs ≤ (m.registers loadReg).toNat → E (.fault .undefined) m)
include hreg hload

theorem delayedLoad_keeps (r v : Word) : Keeps Q E (delayedLoad r v) := by
  refine Keeps.get_bind fun m hm => Triple.bind (Q := fun _ => Q) ?_ fun _ =>
    Keeps.bind (hreg _ _) fun _ => Keeps.bind (hreg _ _) fun _ => hreg _ _
  unfold storeRegister
  split
  · exact (hreg _ _).at_state hm
  · exact Triple.throw (by rintro _ rfl; exact hload _ hm (by omega))

theorem trap_keeps (badVAddr : Word) : Keeps Q E (trap badVAddr) :=
  Keeps.bind (hreg _ _) fun _ => delayedLoad_keeps hreg hload _ _

end

theorem oneInstruction_triple (h : Routines cfg P Q E)
    (hreg : ∀ r v, Keeps Q E (writeRegister r v)) (hundef : ∀ m, Q m → E (.fault .undefined) m) :
    Triple P (oneInstruction cfg) (fun _ => Q) E :=
  Triple.get_bind fun _ hm => Triple.bind ((h.read _ _).at_state hm) fun _ =>
    Triple.get_bind fun _ hm =>
    Triple.bind ((execute_triple h _ _ fun m hm _ => hundef m (h.weaken m hm)).at_state hm) fun _ =>
    Keeps.bind (delayedLoad_keeps hreg (fun m hm _ => hundef m hm) _ _) fun _ =>
    Keeps.get_bind' fun _ => Keeps.bind (hreg _ _) fun _ =>
    Keeps.get_bind' fun _ => Keeps.bind (hreg _ _) fun _ => hreg _ _

theorem runInstruction_triple {Q : Unit → Machine → Prop} {E' : Stop → Machine → Prop}
    (h : Triple P (oneInstruction cfg) Q E)
    (hfault : ∀ f m, E (.fault f) m → E' (.fault f) m)
    (htrap : ∀ which badVAddr, Triple (E (.raise which badVAddr))
      (do trap badVAddr; throw (Stop.raise which badVAddr)) Q E') :
    Triple P (runInstruction cfg) Q E' := by
  intro m hm
  have hone := h m hm
  rw [EStateM.run] at hone ⊢
  dsimp only [runInstruction]
  cases hr : oneInstruction cfg m with
  | ok u m' =>
    rw [hr] at hone
    exact hone
  | error stop m' =>
    rw [hr] at hone
    cases stop with
    | fault f => exact hfault f m' hone
    | raise which badVAddr => exact htrap which badVAddr m' hone

end

end Nachos.Machine
