import Nachos.Machine.Proof.Flush

/-!
# One instruction at a time

When `OneInstruction` has fetched an instruction (`Fetches`), the rest of it is the `switch` and the
completion of the pending load (`finished`). What an instruction does can be read off its case of the
`switch` with `oneInstruction_fetched`.
-/

namespace Nachos.Machine

open Base

variable {cfg : Build} {m m1 m2 : Machine} {instr : Instruction} {p : Pending}

/-- `OneInstruction` fetches an instruction; the machine that the `switch` starts in. -/
def Fetches (cfg : Build) (m : Machine) (instr : Instruction) (m1 : Machine) : Prop :=
  ∃ raw, (readMem cfg (m.registers pcReg) 4).run m = .ok raw m1 ∧ Instruction.decode raw = instr

theorem Fetches.contents (h : Fetches cfg m instr m1) : SameContents m m1 := by
  obtain ⟨raw, hraw, -⟩ := h
  have hc := readMem_contents cfg (m.registers pcReg) 4 m
  rw [hraw] at hc
  exact hc

theorem Fetches.gp (h : Fetches cfg m instr m1) (r : Fin 32) : m1.gp r = m.gp r :=
  congrFun h.contents.registers (gpr r)

def loadTarget (m : Machine) : Fin 32 := Fin.ofNat 32 (m.registers loadReg).toNat

def finished (m : Machine) (p : Pending) : Machine :=
  (m.loaded (gpr m.loadTarget) p.nextLoadReg p.nextLoadValue).advanced p.pcAfter

@[simp] theorem mainMemory_finished : (m.finished p).mainMemory = m.mainMemory := rfl

theorem registers_finished {q : Reg} (h1 : q ≠ prevPCReg) (h2 : q ≠ pcReg) (h3 : q ≠ nextPCReg) :
    (m.finished p).registers q =
      if q = gpr 0 then 0 else if q = loadValueReg then p.nextLoadValue
      else if q = loadReg then p.nextLoadReg
      else if q = gpr m.loadTarget then m.registers loadValueReg else m.registers q := by
  unfold finished advanced
  dsimp only
  rw [registers_setReg, if_neg h3, registers_setReg, if_neg h2, registers_setReg, if_neg h1,
    registers_loaded]

theorem gp_finished (r : Fin 32) :
    (m.finished p).gp r =
      if r = 0 then 0 else if r = m.loadTarget then m.registers loadValueReg else m.gp r := by
  have hvalue : gpr r ≠ loadValueReg := gpr_ne (by decide)
  have hload : gpr r ≠ loadReg := gpr_ne (by decide)
  unfold gp
  rw [registers_finished (gpr_ne (by decide)) (gpr_ne (by decide)) (gpr_ne (by decide)),
    if_neg hvalue, if_neg hload]
  simp only [gpr_injective.eq_iff]

@[simp] theorem loadReg_finished : (m.finished p).registers loadReg = p.nextLoadReg := by
  rw [registers_finished (by decide) (by decide) (by decide), if_neg (by decide),
    if_neg (by decide), if_pos rfl]

@[simp] theorem loadValueReg_finished :
    (m.finished p).registers loadValueReg = p.nextLoadValue := by
  rw [registers_finished (by decide) (by decide) (by decide), if_neg (by decide), if_pos rfl]

theorem hiLo_finished {q : Reg} (h : q = hiReg ∨ q = loReg) :
    (m.finished p).registers q = m.registers q := by
  have hne (r : Fin 32) : q ≠ gpr r := by
    rcases h with rfl | rfl <;> exact (gpr_ne (by decide)).symm
  rw [registers_finished, if_neg (hne 0), if_neg, if_neg, if_neg (hne _)] <;>
    rcases h with rfl | rfl <;> decide

theorem delayedLoad_general (hl : m.LoadsGeneral) (a b : Word) :
    (delayedLoad a b).run m = .ok () (m.loaded (gpr m.loadTarget) a b) := by
  refine delayedLoad_pends (v := m.registers loadValueReg) ⟨?_, rfl⟩ a b
  refine BitVec.eq_of_toNat_eq ?_
  rw [BitVec.toNat_ofNat]
  unfold loadTarget
  have := show (m.registers loadReg).toNat < 32 from hl
  rw [Fin.val_ofNat]
  omega

theorem oneInstruction_fetched (hl : m.LoadsGeneral) (hf : Fetches cfg m instr m1) :
    (oneInstruction cfg).run m =
      match (execute cfg instr (m1.registers nextPCReg + 4)).run m1 with
      | .error e m2 => .error e m2
      | .ok p m2 => .ok () (m2.finished p) := by
  have hc := hf.contents
  obtain ⟨raw, hraw, rfl⟩ := hf
  rw [oneInstruction_run, hraw]
  dsimp only
  cases he : (execute cfg (Instruction.decode raw) (m1.registers nextPCReg + 4)).run m1 with
  | error e m2 => rfl
  | ok p m2 =>
    dsimp only
    rw [delayedLoad_general (execute_load hl hc he).1]
    rfl

theorem Fetches.returned {m' : Machine} (hf : Fetches cfg m instr m1)
    (h : (oneInstruction cfg).run m = .ok () m') :
    ∃ p m2, (execute cfg instr (m1.registers nextPCReg + 4)).run m1 = .ok p m2 ∧
      m'.mainMemory = m2.mainMemory ∧ m'.tlb = m2.tlb ∧ m'.pageTable = m2.pageTable ∧
      m'.pageTableSize = m2.pageTableSize := by
  obtain ⟨raw, hraw, rfl⟩ := hf
  rw [oneInstruction_run, hraw] at h
  dsimp only at h
  cases he : (execute cfg (Instruction.decode raw) (m1.registers nextPCReg + 4)).run m1 with
  | error e m2 =>
    rw [he] at h
    cases h
  | ok p m2 =>
    rw [he] at h
    dsimp only at h
    rw [delayedLoad_run] at h
    split_ifs at h
    · cases h
      exact ⟨p, m2, rfl, rfl, rfl, rfl, rfl⟩

end Nachos.Machine
