import Nachos.Machine.Proof.Commute
import Nachos.Machine.Proof.RegisterFile

/-!
# Completing the pending load early

`DelayedLoad(0, 0)` at an instruction boundary completes the pending load one instruction early. An
instruction that leaves the target alone does not see the difference: from the machine where the load
is done (`ahead`) it does what it does from the other one (`execute_ahead`), and when it returns, both
machines have completed the load.

`LWL` and `LWR` into `R0` merge with a value that nobody reads; it is the only thing that may differ
afterwards (`SamePending`).
-/

namespace Nachos

open Base Function

/-- The general registers that the `switch` of `OneInstruction` reads or writes. The register a load
is delayed for is not among them, nor the one that `LWL` and `LWR` merge into. -/
def Instruction.touches (instr : Instruction) : List (Fin 32) :=
  match instr.opCode with
  | .add | .addu | .and | .nor | .or | .sllv | .slt | .sltu | .srav | .srlv | .sub | .subu | .xor =>
    [instr.rs, instr.rt, instr.rd]
  | .addi | .addiu | .andi | .beq | .bne | .div | .divu | .mult | .multu | .ori | .sb | .sh | .slti
  | .sltiu | .sw | .swl | .swr | .xori => [instr.rs, instr.rt]
  | .sll | .sra | .srl => [instr.rt, instr.rd]
  | .lui => [instr.rt]
  | .bgez | .bgtz | .blez | .bltz | .jr | .lb | .lbu | .lh | .lhu | .lw | .lwl | .lwr | .mthi
  | .mtlo => [instr.rs]
  | .bgezal | .bltzal => [instr.rs, 31]
  | .jal => [31]
  | .jalr => [instr.rs, instr.rd]
  | .mfhi | .mflo => [instr.rd]
  | .j | .syscall | .unimp | .res | .rfe => []

namespace Machine

/-! ## The machine that is ahead -/

def Hidden (r : Fin 32) (q : Reg) : Prop := q = loadReg ∨ q = loadValueReg ∨ r ≠ 0 ∧ q = gpr r

def aheadRegisters (r : Fin 32) (v w : Word) (registers : Reg → Word) (q : Reg) : Word :=
  if q = loadReg then 0 else if q = loadValueReg then w
  else if r ≠ 0 ∧ q = gpr r then v else registers q

theorem aheadRegisters_visible {r : Fin 32} {q : Reg} (hq : ¬ Hidden r q) (v w : Word)
    (registers : Reg → Word) : aheadRegisters r v w registers q = registers q := by
  unfold aheadRegisters
  rw [if_neg fun h => hq (.inl h), if_neg fun h => hq (.inr (.inl h)),
    if_neg fun h => hq (.inr (.inr h))]

def ahead (r : Fin 32) (v w : Word) : Machine → Machine := changed (aheadRegisters r v w) id

section
variable {r : Fin 32} {v w pcAfter : Word} {m m' : Machine} {q : Reg} {cfg : Build}
    {instr : Instruction}

theorem registers_ahead (hq : ¬ Hidden r q) : (ahead r v w m).registers q = m.registers q :=
  aheadRegisters_visible hq v w m.registers

theorem setReg_ahead (hq : ¬ Hidden r q) (a : Word) :
    (ahead r v w m).setReg q a = ahead r v w (m.setReg q a) := by
  unfold ahead changed setReg
  dsimp only [id]
  congr 1
  funext q'
  by_cases h : q' = q
  · subst h
    rw [update_self, aheadRegisters_visible hq, update_self]
  · rw [update_of_ne h, aheadRegisters, aheadRegisters, update_of_ne h]

theorem gp_ahead {q : Fin 32} (hq : ¬ Hidden r (gpr q)) : (ahead r v w m).gp q = m.gp q :=
  registers_ahead hq

theorem writeRegister_ahead (hq : ¬ Hidden r q) (a : Word) :
    Commutes (ahead r v w) (writeRegister q a) :=
  Commutes.modify fun _ => setReg_ahead hq a

/-! ## The parts of an instruction -/

theorem done_ahead (pcAfter : Word) : Commutes (ahead r v w) (done pcAfter) := Commutes.pure _

theorem setResult_ahead {q : Fin 32} (hq : ¬ Hidden r (gpr q)) (a pcAfter : Word) :
    Commutes (ahead r v w) (setResult q a pcAfter) :=
  Commutes.bind (writeRegister_ahead hq a) fun _ => done_ahead _

theorem writeTwo_ahead {q' : Reg} (hq : ¬ Hidden r q) (hq' : ¬ Hidden r q') (a a' pcAfter : Word) :
    Commutes (ahead r v w) (do writeRegister q a; writeRegister q' a'; done pcAfter) :=
  Commutes.bind (writeRegister_ahead hq a) fun _ =>
    Commutes.bind (writeRegister_ahead hq' a') fun _ => done_ahead _

theorem visible_of_le (hq : 32 ≤ q.val) (hl : q ≠ loadReg) (hv : q ≠ loadValueReg) :
    ¬ Hidden r q := by
  rintro (h | h | ⟨-, h⟩)
  · exact hl h
  · exact hv h
  · exact gpr_ne hq h.symm

theorem nextPC_visible : ¬ Hidden r nextPCReg := visible_of_le (by decide) (by decide) (by decide)

theorem hi_visible : ¬ Hidden r hiReg := visible_of_le (by decide) (by decide) (by decide)

theorem lo_visible : ¬ Hidden r loReg := visible_of_le (by decide) (by decide) (by decide)

theorem branchIf_ahead {taken : Machine → Bool} (ht : ∀ m, taken (ahead r v w m) = taken m)
    (instr : Instruction) (pcAfter : Word) :
    Commutes (ahead r v w) (branchIf taken instr pcAfter) := by
  refine Commutes.get_bind (fun m => ?_) fun m => done_ahead _
  rw [ht, registers_ahead nextPC_visible]

theorem link_ahead (hq : ¬ Hidden r retAddrReg) : Commutes (ahead r v w) link := by
  refine Commutes.get_bind (fun m => ?_) fun m => writeRegister_ahead hq _
  rw [registers_ahead nextPC_visible]

theorem readMem_ahead (cfg : Build) (addr : Word) (size : Nat) :
    Commutes (ahead r v w) (readMem cfg addr size) := readMem_changed cfg addr size

theorem alignedWord_ahead (cfg : Build) (tmp : Word) :
    Commutes (ahead r v w) (alignedWord cfg tmp) := by
  unfold alignedWord
  refine Commutes.ite ?_ ?_
  · exact Commutes.bind (readMem_ahead _ _ _) fun _ => Commutes.pure _
  · exact Commutes.bind (assertM_commutes _ _) fun _ =>
      Commutes.bind (readMem_ahead _ _ _) fun _ => Commutes.pure _

theorem load_ahead (addr : Word) (size : Nat) (f : Word → Pending) :
    Commutes (ahead r v w) (do let value ← readMem cfg addr size; return f value) :=
  Commutes.bind (readMem_ahead _ _ _) fun _ => Commutes.pure _

/-! ## Instructions -/

/-- An instruction that leaves the target alone does not see whether the load is done, unless it
merges with its value. -/
theorem execute_commutes (hvis : ∀ q ∈ instr.touches, ¬ Hidden r (gpr q)) (hl : instr.opCode ≠ .lwl)
    (hr : instr.opCode ≠ .lwr) (m : Machine) :
    (execute cfg instr pcAfter).run (ahead r v w m) =
      onState (ahead r v w) ((execute cfg instr pcAfter).run m) := by
  refine Commutes.run_get_bind ?_ ?_
  · -- the registers that are read first have the same contents
    have hgp : ∀ q ∈ instr.touches, (ahead r v w m).gp q = m.gp q := fun q hq => gp_ahead (hvis q hq)
    have hnext := registers_ahead (r := r) (v := v) (w := w) (m := m) nextPC_visible
    have hhi := registers_ahead (r := r) (v := v) (w := w) (m := m) hi_visible
    have hlo := registers_ahead (r := r) (v := v) (w := w) (m := m) lo_visible
    cases hop : instr.opCode <;> simp [hgp, Instruction.touches, hop, hnext, hhi, hlo]
  · cases hop : instr.opCode with
    | lwl => exact absurd hop hl
    | lwr => exact absurd hop hr
    | addu | and | nor | or | sllv | slt | sltu | srav | srlv | subu | xor | sll | sra | srl | mfhi
    | mflo | addiu | andi | ori | slti | sltiu | xori | lui =>
      exact setResult_ahead (hvis _ (by simp [Instruction.touches, hop])) _ _
    | add | sub | addi =>
      exact Commutes.ite (Commutes.throw _)
        (setResult_ahead (hvis _ (by simp [Instruction.touches, hop])) _ _)
    | beq | bne =>
      have hrs := hvis instr.rs (by simp [Instruction.touches, hop])
      have hrt := hvis instr.rt (by simp [Instruction.touches, hop])
      exact branchIf_ahead (fun m => by rw [gp_ahead hrs, gp_ahead hrt]) _ _
    | bgez | bgtz | blez | bltz =>
      have hrs := hvis instr.rs (by simp [Instruction.touches, hop])
      exact branchIf_ahead (fun m => by rw [gp_ahead hrs]) _ _
    | bgezal | bltzal =>
      have hrs := hvis instr.rs (by simp [Instruction.touches, hop])
      exact Commutes.bind (link_ahead (hvis 31 (by simp [Instruction.touches, hop]))) fun _ =>
        branchIf_ahead (fun m => by rw [gp_ahead hrs]) _ _
    | jal =>
      exact Commutes.bind (link_ahead (hvis 31 (by simp [Instruction.touches, hop]))) fun _ =>
        done_ahead _
    | j | jr => exact done_ahead _
    | jalr =>
      have hrs := hvis instr.rs (by simp [Instruction.touches, hop])
      have hrd := hvis instr.rd (by simp [Instruction.touches, hop])
      exact Commutes.bind (writeRegister_ahead hrd _) fun _ =>
        Commutes.get_bind (fun m => by rw [gp_ahead hrs]) fun _ => done_ahead _
    | mthi => exact Commutes.bind (writeRegister_ahead hi_visible _) fun _ => done_ahead _
    | mtlo => exact Commutes.bind (writeRegister_ahead lo_visible _) fun _ => done_ahead _
    | mult | multu => exact writeTwo_ahead hi_visible lo_visible _ _ _
    | divu =>
      exact Commutes.ite (writeTwo_ahead lo_visible hi_visible _ _ _)
        (writeTwo_ahead lo_visible hi_visible _ _ _)
    | div =>
      exact Commutes.ite (writeTwo_ahead lo_visible hi_visible _ _ _)
        (Commutes.ite (Commutes.throw _) (writeTwo_ahead lo_visible hi_visible _ _ _))
    | lb | lbu => exact load_ahead _ _ _
    | lh | lhu | lw => exact Commutes.ite (Commutes.throw _) (load_ahead _ _ _)
    | sb | sh | sw => exact Commutes.bind (writeMem_changed _ _ _ _) fun _ => done_ahead _
    | swl | swr =>
      exact Commutes.bind (alignedWord_ahead _ _) fun _ =>
        Commutes.bind (writeMem_changed _ _ _ _) fun _ => done_ahead _
    | syscall | res | unimp | rfe => exact Commutes.throw _

structure SamePending (p p' : Pending) : Prop where
  pcAfter : p'.pcAfter = p.pcAfter
  nextLoadReg : p'.nextLoadReg = p.nextLoadReg
  nextLoadValue : p.nextLoadReg ≠ 0 → p'.nextLoadValue = p.nextLoadValue

def Mirrored (r : Fin 32) (v w : Word) (m : Machine) (x : MachineM Pending) : Prop :=
  Post (fun p m1 => ∃ p', x.run (ahead r v w m) = .ok p' (ahead r v w m1) ∧ SamePending p p')
    (fun e m1 => x.run (ahead r v w m) = .error e (ahead r v w m1)) (x.run m)

theorem mirrored_of_commutes {x : MachineM Pending}
    (h : x.run (ahead r v w m) = onState (ahead r v w) (x.run m)) : Mirrored r v w m x := by
  unfold Mirrored
  rw [h]
  cases x.run m with
  | ok p m1 => exact ⟨p, rfl, rfl, rfl, fun _ => rfl⟩
  | error e m1 => exact rfl

theorem ofNat_eq_zero_iff (q : Fin 32) : BitVec.ofNat 32 q = 0 ↔ q = 0 := by
  rw [← BitVec.toNat_inj, BitVec.toNat_ofNat, Nat.mod_eq_of_lt (by omega), Fin.ext_iff]
  rfl

theorem ofNat_inj {q q' : Fin 32} : BitVec.ofNat 32 q = BitVec.ofNat 32 q' ↔ q = q' := by
  rw [← BitVec.toNat_inj, BitVec.toNat_ofNat, BitVec.toNat_ofNat, Nat.mod_eq_of_lt (by omega),
    Nat.mod_eq_of_lt (by omega), Fin.ext_iff]

theorem mergeTarget_ahead (hp : Pends (BitVec.ofNat 32 r) v m) {rt : Fin 32} (hrt : rt ≠ 0) :
    (ahead r v w m).mergeTarget rt = m.mergeTarget rt := by
  have hload : (ahead r v w m).registers loadReg = 0 := rfl
  unfold mergeTarget
  rw [hload, hp.1, hp.2, if_neg fun h => hrt ((ofNat_eq_zero_iff rt).1 h.symm)]
  by_cases hr : r = rt
  · subst hr
    rw [if_pos rfl]
    have h1 : gpr r ≠ loadReg := gpr_ne (by decide)
    have h2 : gpr r ≠ loadValueReg := gpr_ne (by decide)
    change aheadRegisters r v w m.registers (gpr r) = v
    rw [aheadRegisters, if_neg h1, if_neg h2, if_pos ⟨hrt, rfl⟩]
  · rw [if_neg fun h => hr (ofNat_inj.1 h)]
    refine gp_ahead ?_
    rintro (h | h | ⟨-, h⟩)
    · exact gpr_ne (by decide) h
    · exact gpr_ne (by decide) h
    · exact hr (gpr_injective h).symm

theorem alignedWord_registers (cfg : Build) (tmp : Word) (registers : Reg → Word) :
    Keeps (fun m => m.registers = registers) (fun _ m => m.registers = registers)
      (alignedWord cfg tmp) := by
  have hread (addr : Word) : Keeps (fun m => m.registers = registers)
      (fun _ m => m.registers = registers) (readMem cfg addr 4) :=
    Keeps.of_final fun m hm => (readMem_contents cfg addr 4 m).registers.trans hm
  unfold alignedWord
  refine Keeps.ite ?_ ?_
  · exact Keeps.bind (hread _) fun _ => Keeps.pure _
  · exact Keeps.bind (Keeps.ite (Keeps.pure _) (Keeps.throw fun _ h => h)) fun _ =>
      Keeps.bind (hread _) fun _ => Keeps.pure _

def mergeLoad (cfg : Build) (instr : Instruction) (merge : Word → Word → Word → Word)
    (tmp pcAfter : Word) : MachineM Pending := do
  let (_, value, which) ← alignedWord cfg tmp
  return ⟨pcAfter, BitVec.ofNat 32 instr.rt, merge which ((← get).mergeTarget instr.rt) value⟩

theorem mergeLoad_mirrored {merge : Word → Word → Word → Word}
    {tmp : Word} (hp : Pends (BitVec.ofNat 32 r) v m) :
    Mirrored r v w m (mergeLoad cfg instr merge tmp pcAfter) := by
  have hregs := (alignedWord_registers cfg tmp m.registers).final_of (s := m) rfl
  unfold Mirrored mergeLoad
  rw [EStateM.run_bind, EStateM.run_bind, alignedWord_ahead cfg tmp m]
  cases ha : (alignedWord cfg tmp).run m with
  | error e m1 => exact rfl
  | ok word m1 =>
    rw [ha] at hregs
    have hp1 : Pends (BitVec.ofNat 32 r) v m1 := hp.of_registers hregs
    refine ⟨_, rfl, rfl, rfl, fun hne => ?_⟩
    have hrt : instr.rt ≠ 0 := fun h => hne ((ofNat_eq_zero_iff _).2 h)
    exact congrArg (merge word.2.2 · word.2.1) (mergeTarget_ahead hp1 hrt)

theorem mirrored_of_mergeLoad (merge : Word → Word → Word → Word)
    (heq : ∀ m, (execute cfg instr pcAfter).run m =
      (mergeLoad cfg instr merge (m.gp instr.rs + instr.extra) pcAfter).run m)
    (hrs : ¬ Hidden r (gpr instr.rs)) (hp : Pends (BitVec.ofNat 32 r) v m) :
    Mirrored r v w m (execute cfg instr pcAfter) := by
  unfold Mirrored
  rw [heq, heq, gp_ahead hrs]
  exact mergeLoad_mirrored hp

theorem execute_ahead (cfg : Build) (pcAfter : Word)
    (hvis : ∀ q ∈ instr.touches, ¬ Hidden r (gpr q)) (hp : Pends (BitVec.ofNat 32 r) v m) :
    Mirrored r v w m (execute cfg instr pcAfter) := by
  by_cases hl : instr.opCode = .lwl
  · refine mirrored_of_mergeLoad mergeLeft (fun m => ?_)
      (hvis instr.rs (by simp [Instruction.touches, hl])) hp
    unfold execute
    simp only [hl]
    rfl
  · by_cases hr : instr.opCode = .lwr
    · refine mirrored_of_mergeLoad mergeRight (fun m => ?_)
        (hvis instr.rs (by simp [Instruction.touches, hr])) hp
      unfold execute
      simp only [hr]
      rfl
    · exact mirrored_of_commutes (execute_commutes hvis hl hr m)

/-! ## The end of `OneInstruction` -/

def advanced (m : Machine) (pcAfter : Word) : Machine :=
  let m := m.setReg prevPCReg (m.registers pcReg)
  let m := m.setReg pcReg (m.registers nextPCReg)
  m.setReg nextPCReg pcAfter

theorem setReg_comm {q' : Reg} (h : q ≠ q') (a a' : Word) (m : Machine) :
    (m.setReg q a).setReg q' a' = (m.setReg q' a').setReg q a := by
  unfold setReg
  rw [update_comm h]

theorem advanced_setReg (h1 : q ≠ prevPCReg) (h2 : q ≠ pcReg) (h3 : q ≠ nextPCReg)
    (a pcAfter : Word) : (m.setReg q a).advanced pcAfter = (m.advanced pcAfter).setReg q a := by
  unfold advanced
  dsimp only
  rw [setReg_comm h1, setReg_comm h2, setReg_comm h3]
  simp only [registers_setReg, if_neg h2.symm, if_neg h3.symm]

theorem delayedLoad_pends (hp : Pends (BitVec.ofNat 32 r) v m) (a b : Word) :
    (delayedLoad a b).run m = .ok () (m.loaded (gpr r) a b) := by
  have hval : (m.registers loadReg).toNat = r := by
    rw [hp.1, BitVec.toNat_ofNat]
    omega
  have hlt : (m.registers loadReg).toNat < numTotalRegs := by
    rw [hval]
    exact (gpr r).isLt
  have htarget : (⟨_, hlt⟩ : Reg) = gpr r := Fin.ext hval
  rw [delayedLoad_run, dif_pos hlt, htarget]

theorem registers_loaded (m : Machine) (target : Reg) (a b : Word) (q : Reg) :
    (m.loaded target a b).registers q =
      if q = gpr 0 then 0 else if q = loadValueReg then b else if q = loadReg then a
      else if q = target then m.registers loadValueReg else m.registers q := by
  simp only [loaded, registers_setReg]

theorem loaded_ahead (hp : Pends (BitVec.ofNat 32 r) v m) (a b : Word) :
    (ahead r v w m).loaded (gpr 0) a b = m.loaded (gpr r) a b := by
  refine congrArg (fun registers => { m with registers }) (funext fun q => ?_)
  change ((ahead r v w m).loaded (gpr 0) a b).registers q = (m.loaded (gpr r) a b).registers q
  rw [registers_loaded, registers_loaded]
  by_cases h0 : q = gpr 0
  · rw [if_pos h0, if_pos h0]
  rw [if_neg h0, if_neg h0, if_neg h0]
  by_cases hv : q = loadValueReg
  · rw [if_pos hv, if_pos hv]
  rw [if_neg hv, if_neg hv]
  by_cases hl : q = loadReg
  · rw [if_pos hl, if_pos hl]
  rw [if_neg hl, if_neg hl, hp.2]
  change aheadRegisters r v w m.registers q = _
  rw [aheadRegisters, if_neg hl, if_neg hv]
  by_cases hr : q = gpr r
  · have hne : r ≠ 0 := fun h => h0 (h ▸ hr)
    rw [if_pos ⟨hne, hr⟩, if_pos hr]
  · rw [if_neg fun h => hr h.2, if_neg hr]

theorem delayedLoad_ahead (hp : Pends (BitVec.ofNat 32 r) v m) (a b : Word) :
    (delayedLoad a b).run (ahead r v w m) = .ok () (m.loaded (gpr r) a b) := by
  have hahead : Pends (BitVec.ofNat 32 (0 : Fin 32)) w (ahead r v w m) := ⟨rfl, rfl⟩
  rw [delayedLoad_pends hahead, loaded_ahead hp]

theorem setReg_loaded (m : Machine) (target : Reg) (a b b' : Word) :
    (m.loaded target a b).setReg loadValueReg b' = m.loaded target a b' := by
  unfold loaded
  rw [setReg_comm (by decide)]
  unfold setReg
  rw [update_idem]

def SameLoad (m m' : Machine) : Prop :=
  m' = m ∨ m.registers loadReg = 0 ∧ ∃ w, m' = m.setReg loadValueReg w

theorem sameLoad_loaded {p p' : Pending} (h : SamePending p p') (m : Machine) (target : Reg) :
    SameLoad ((m.loaded target p.nextLoadReg p.nextLoadValue).advanced p.pcAfter)
      ((m.loaded target p'.nextLoadReg p'.nextLoadValue).advanced p'.pcAfter) := by
  rw [h.pcAfter, h.nextLoadReg]
  by_cases hn : p.nextLoadReg = 0
  · refine .inr ⟨?_, p'.nextLoadValue, ?_⟩
    · unfold advanced
      dsimp only
      rw [registers_setReg, if_neg (by decide), registers_setReg, if_neg (by decide),
        registers_setReg, if_neg (by decide), registers_loaded, if_neg (by decide),
        if_neg (by decide), if_pos rfl, hn]
    · rw [← advanced_setReg (by decide) (by decide) (by decide), setReg_loaded]
  · rw [h.nextLoadValue hn]
    exact .inl rfl

theorem oneInstruction_run (cfg : Build) (m : Machine) :
    (oneInstruction cfg).run m =
      match (readMem cfg (m.registers pcReg) 4).run m with
      | .error e m1 => .error e m1
      | .ok raw m1 =>
        match (execute cfg (Instruction.decode raw) (m1.registers nextPCReg + 4)).run m1 with
        | .error e m2 => .error e m2
        | .ok p m2 =>
          match (delayedLoad p.nextLoadReg p.nextLoadValue).run m2 with
          | .error e m3 => .error e m3
          | .ok _ m3 => .ok () (m3.advanced p.pcAfter) := by
  unfold oneInstruction
  rw [run_get_bind, EStateM.run_bind]
  cases (readMem cfg (m.registers pcReg) 4).run m with
  | error e m1 => rfl
  | ok raw m1 =>
    dsimp only
    rw [run_get_bind, EStateM.run_bind]
    cases (execute cfg (Instruction.decode raw) (m1.registers nextPCReg + 4)).run m1 with
    | error e m2 => rfl
    | ok p m2 =>
      dsimp only
      rw [EStateM.run_bind]
      cases (delayedLoad p.nextLoadReg p.nextLoadValue).run m2 <;> rfl

/-- **An instruction that leaves the target alone ends in the same machine when the load is done
early**, or stops in the same way. -/
theorem oneInstruction_ahead (cfg : Build) (hp : Pends (BitVec.ofNat 32 r) v m)
    (hvis : ∀ raw m1, (readMem cfg (m.registers pcReg) 4).run m = .ok raw m1 →
      ∀ q ∈ (Instruction.decode raw).touches, ¬ Hidden r (gpr q)) :
    Post
      (fun _ m' => ∃ m'', (oneInstruction cfg).run (ahead r v w m) = .ok () m'' ∧ SameLoad m' m'')
      (fun e m' => (oneInstruction cfg).run (ahead r v w m) = .error e (ahead r v w m') ∧
        Pends (BitVec.ofNat 32 r) v m')
      ((oneInstruction cfg).run m) := by
  have hpc : (ahead r v w m).registers pcReg = m.registers pcReg :=
    registers_ahead (visible_of_le (by decide) (by decide) (by decide))
  have hcont := readMem_contents cfg (m.registers pcReg) 4 m
  rw [oneInstruction_run, oneInstruction_run, hpc, readMem_ahead cfg (m.registers pcReg) 4 m]
  cases hraw : (readMem cfg (m.registers pcReg) 4).run m with
  | error e m1 =>
    rw [hraw] at hcont
    exact ⟨rfl, hp.of_registers hcont.registers⟩
  | ok raw m1 =>
    rw [hraw] at hcont
    have hp1 : Pends (BitVec.ofNat 32 r) v m1 := hp.of_registers hcont.registers
    have hnext : (ahead r v w m1).registers nextPCReg = m1.registers nextPCReg :=
      registers_ahead nextPC_visible
    have hexec := execute_ahead (w := w) cfg (m1.registers nextPCReg + 4) (hvis raw m1 hraw) hp1
    have hpends := execute_pends cfg (Instruction.decode raw) (m1.registers nextPCReg + 4) _ _ m1 hp1
    unfold Mirrored at hexec
    dsimp only [onState]
    rw [hnext]
    cases he : (execute cfg (Instruction.decode raw) (m1.registers nextPCReg + 4)).run m1 with
    | error e m2 =>
      rw [he] at hexec hpends
      rw [show _ = _ from hexec]
      exact ⟨rfl, hpends⟩
    | ok p m2 =>
      rw [he] at hexec hpends
      obtain ⟨p', hp', hsame⟩ := hexec
      rw [hp']
      dsimp only
      rw [delayedLoad_pends hpends, delayedLoad_ahead hpends]
      exact ⟨_, rfl, sameLoad_loaded hsame m2 (gpr r)⟩

/-! ## Interrupts -/

def flushed (m : Machine) : Machine := final ((delayedLoad 0 0).run m)

theorem flushed_ahead (hp : Pends (BitVec.ofNat 32 r) v m) :
    flushed (ahead r v w m) = flushed m := by
  unfold flushed
  rw [delayedLoad_ahead hp, delayedLoad_pends hp]

theorem flushed_eq_ahead (hp : Pends (BitVec.ofNat 32 r) v m) (h0 : m.gp 0 = 0) :
    flushed m = ahead r v 0 m := by
  unfold flushed
  rw [delayedLoad_pends hp]
  refine congrArg (fun registers => { m with registers }) (funext fun q => ?_)
  change (m.loaded (gpr r) 0 0).registers q = aheadRegisters r v 0 m.registers q
  rw [registers_loaded, aheadRegisters, hp.2]
  by_cases hz : q = gpr 0
  · subst hz
    have hne : ¬ (r ≠ 0 ∧ gpr 0 = gpr r) := fun h => h.1 (gpr_injective h.2).symm
    rw [if_pos rfl, if_neg (by decide), if_neg (by decide), if_neg hne]
    exact h0.symm
  rw [if_neg hz]
  by_cases hl : q = loadReg
  · rw [if_neg (hl ▸ by decide), if_pos hl, if_pos hl]
  by_cases hv : q = loadValueReg
  · rw [if_pos hv, if_neg hl, if_pos hv]
  rw [if_neg hv, if_neg hl, if_neg hl, if_neg hv]
  by_cases hr : q = gpr r
  · have hne : r ≠ 0 := fun h => hz (h ▸ hr)
    rw [if_pos hr, if_pos ⟨hne, hr⟩]
  · rw [if_neg hr, if_neg fun h => hr h.2]

theorem setReg_eq_ahead (hl : m.registers loadReg = 0) :
    m.setReg loadValueReg w = ahead 0 v w m := by
  refine congrArg (fun registers => { m with registers }) (funext fun q => ?_)
  change (m.setReg loadValueReg w).registers q = aheadRegisters 0 v w m.registers q
  have hne : ¬ ((0 : Fin 32) ≠ 0 ∧ q = gpr 0) := fun h => h.1 rfl
  rw [registers_setReg, aheadRegisters, if_neg hne]
  by_cases hq : q = loadReg
  · subst hq
    rw [if_neg (by decide), if_pos rfl, hl]
  · rw [if_neg hq]

theorem trap_ahead (hp : Pends (BitVec.ofNat 32 r) v m) (badVAddr : Word) :
    (trap badVAddr).run (ahead r v w m) = (trap badVAddr).run m := by
  have hvis : ¬ Hidden r badVAddrReg := visible_of_le (by decide) (by decide) (by decide)
  have hp' := hp.setReg (q := badVAddrReg) (by decide) (by decide) badVAddr
  rw [trap_run, trap_run, setReg_ahead hvis, delayedLoad_ahead hp', delayedLoad_pends hp']

/-- The next instruction leaves the target of the pending load alone. -/
def Undisturbed (cfg : Build) (m : Machine) : Prop :=
  ∀ raw m1, (readMem cfg (m.registers pcReg) 4).run m = .ok raw m1 →
    ∀ q ∈ (Instruction.decode raw).touches, q ≠ 0 → m.registers loadReg ≠ BitVec.ofNat 32 q

def Alongside (m m' : Machine) : Prop :=
  m' = m ∨ ∃ r v w, Pends (BitVec.ofNat 32 (r : Fin 32)) v m ∧ m' = ahead r v w m

theorem exists_pends (h : m.LoadsGeneral) :
    ∃ r : Fin 32, Pends (BitVec.ofNat 32 r) (m.registers loadValueReg) m := by
  refine ⟨⟨_, h⟩, ?_, rfl⟩
  rw [BitVec.ofNat_toNat, BitVec.setWidth_eq]

theorem SameLoad.flushed_eq (h : SameLoad m m') : flushed m' = flushed m := by
  rcases h with rfl | ⟨hl, w, rfl⟩
  · rfl
  · have hp : Pends (BitVec.ofNat 32 (0 : Fin 32)) (m.registers loadValueReg) m := ⟨hl, rfl⟩
    rw [setReg_eq_ahead (v := m.registers loadValueReg) hl, flushed_ahead hp]

theorem SameLoad.alongside (h : SameLoad m m') (hm : RegisterFile m.registers)
    (interrupt : Bool) : Alongside m (if interrupt then flushed m' else m') := by
  cases interrupt with
  | true =>
    obtain ⟨r, hp⟩ := exists_pends hm.load
    rw [if_pos rfl, h.flushed_eq, flushed_eq_ahead hp hm.zero]
    exact .inr ⟨r, _, 0, hp, rfl⟩
  | false =>
    rw [if_neg (by decide)]
    rcases h with rfl | ⟨hl, w, rfl⟩
    · exact .inl rfl
    · exact .inr ⟨0, m.registers loadValueReg, w, ⟨hl, rfl⟩, setReg_eq_ahead hl⟩

/-- **One instruction, with the load done early or not**: both machines return, alike again, or both
stop in the same way, and a trap makes them equal. -/
theorem oneInstruction_alongside (h : Alongside m m') (hu : Undisturbed cfg m) : Post
      (fun _ m1 => ∃ m2, (oneInstruction cfg).run m' = .ok () m2 ∧ SameLoad m1 m2)
      (fun e m1 => ∃ m2, (oneInstruction cfg).run m' = .error e m2 ∧ flushed m2 = flushed m1 ∧
        ∀ badVAddr, (trap badVAddr).run m2 = (trap badVAddr).run m1)
      ((oneInstruction cfg).run m) := by
  rcases h with rfl | ⟨r, v, w, hp, rfl⟩
  · cases (oneInstruction cfg).run m' with
    | ok u m1 => exact ⟨m1, rfl, .inl rfl⟩
    | error e m1 => exact ⟨m1, rfl, rfl, fun _ => rfl⟩
  · have hone := oneInstruction_ahead (w := w) cfg hp ?_
    · cases hr : (oneInstruction cfg).run m with
      | ok u m1 =>
        rw [hr] at hone
        exact hone
      | error e m1 =>
        rw [hr] at hone
        exact ⟨_, hone.1, flushed_ahead hone.2, trap_ahead hone.2⟩
    · rintro raw m1 hraw q hq (h | h | ⟨hr, h⟩)
      · exact gpr_ne (by decide) h
      · exact gpr_ne (by decide) h
      · obtain rfl := gpr_injective h
        exact hu raw m1 hraw q hq hr hp.1

end

end Machine

end Nachos
