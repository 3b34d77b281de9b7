import Nachos.Machine.Proof.Commute
import Nachos.Userprog.Proof.Frames

/-!
# Processes do not see each other's instructions

`Machine.runInstruction_isolated` says that an instruction writes only in the frames of the installed
table, and `Spaces.FrameInv` that no frame is in two tables. So a read through the table of another
process finds what it found before (`user_isolation`): the translation does not look at memory
(`translate_withMemory`), and ends in a frame the instruction left alone.
-/

namespace Nachos

open Base

namespace Machine

def withMemory (m : Machine) (mem : Memory) : Machine := { m with mainMemory := mem }

def resultWithMemory {α : Type} (mem : Memory) :
    EStateM.Result Stop Machine α → EStateM.Result Stop Machine α
  | .ok a m => .ok a (m.withMemory mem)
  | .error e m => .error e (m.withMemory mem)

theorem translate_withMemory (virtAddr : Word) (size : Nat) (writing : Bool) (m : Machine)
    (mem : Memory) :
    (translate virtAddr size writing).run (m.withMemory mem) =
      resultWithMemory mem ((translate virtAddr size writing).run m) := by
  have h := translate_changed (g := id) (h := fun _ => mem) virtAddr size writing m
  change (translate virtAddr size writing).run (m.withMemory mem) = _ at h
  rw [h]
  cases (translate virtAddr size writing).run m <;> rfl

theorem readPhys_congr {cfg : Build} {mem mem' : Memory} {p size : Nat}
    (h : (size = 1 ∨ size = 2 ∨ size = 4) → ∀ a, p ≤ a → a < p + size → mem' a = mem a) :
    readPhys cfg mem' p size = readPhys cfg mem p size := by
  unfold readPhys
  split
  · have h := h (by decide)
    rw [h p (by omega) (by omega)]
  · have h := h (by decide)
    rw [hostShort, hostShort, h p (by omega) (by omega), h (p + 1) (by omega) (by omega)]
  · have h := h (by decide)
    rw [hostWord, hostWord, h p (by omega) (by omega), h (p + 1) (by omega) (by omega),
      h (p + 2) (by omega) (by omega), h (p + 3) (by omega) (by omega)]
  · rfl

theorem readMem_congr (cfg : Build) (addr : Word) (size : Nat) {m : Machine} (ht : m.tlb = none)
    {mem : Memory} (hmem : ∀ a, a / pageSize ∈ m.tableFrames → mem a = m.mainMemory a) :
    outcome ((readMem cfg addr size).run (m.withMemory mem)) =
      outcome ((readMem cfg addr size).run m) := by
  unfold readMem
  rw [EStateM.run_bind, EStateM.run_bind, translate_withMemory]
  cases htr : (translate addr size false).run m with
  | error e m1 => rfl
  | ok r m1 =>
    cases r with
    | error e => rfl
    | ok p =>
      have hm1 : m1.mainMemory = m.mainMemory := by
        have := (translate_contents addr size false m).mem
        rwa [htr] at this
      have hread : readPhys cfg mem p size = readPhys cfg m1.mainMemory p size := by
        refine readPhys_congr fun hsize a h1 h2 => ?_
        rw [hm1]
        exact hmem a (frame_of_access ht htr hsize h1 h2)
      dsimp only [resultWithMemory]
      rw [EStateM.run_bind, EStateM.run_bind, EStateM.run_get, EStateM.run_get]
      dsimp only [withMemory]
      rw [hread]
      cases readPhys cfg m1.mainMemory p size <;> rfl

end Machine

/-! ## Installed tables -/

namespace AddrSpace

/-- The space's table is in the machine; instructions have set use and dirty bits in it. -/
structure Installed (s : AddrSpace) (m : Machine) : Prop where
  tlb : m.tlb = none
  frames : m.tableFrames = s.frames
  size : m.pageTableSize = s.numPages

theorem installed_restoreState (s : AddrSpace) {m : Machine} (ht : m.tlb = none) :
    s.Installed (s.restoreState m) := ⟨ht, rfl, rfl⟩

theorem Installed.sound {s : AddrSpace} {m : Machine} (h : s.Installed m)
    (hl : (m.registers loadReg).toNat < numTotalRegs) : m.Sound := by
  refine ⟨hl, h.tlb, ?_⟩
  have := congrArg List.length h.frames
  rw [Machine.tableFrames, List.length_map, length_frames] at this
  rw [h.size, this]

/-- What `Scheduler::Run` does to the machine when the space's thread runs again: `RestoreUserState`
and `RestoreState`. -/
def resume (s : AddrSpace) (userRegisters : Reg → Word) (m : Machine) : Machine :=
  s.restoreState { m with registers := userRegisters }

end AddrSpace

/-- **User-mode isolation.** In every reachable set of address spaces, with the table of one of them
installed and whatever is in the registers and in memory, an instruction leaves every byte outside
the frames of that table as it was. So every read through the table of another space, whatever bits
instructions have set in it, returns what it returned before. The simulator itself stays defined: only a
`LoadReg` that names no register or a division of the smallest `int` by minus one is undefined. -/
theorem user_isolation (cfg : Build) (m0 : Machine) (ops : List SpaceOp) {s : Spaces}
    (hr : Spaces.history cfg m0 ops = .ok s) {i : Nat} {A : AddrSpace} (hA : s.live[i]? = some A)
    (m : Machine) (hm : A.Installed m) :
    (∀ a, a / pageSize ∉ A.frames →
      (final ((Machine.runInstruction cfg).run m)).mainMemory a = m.mainMemory a) ∧
    (∀ (j : Nat) (B B' : AddrSpace), j ≠ i → s.live[j]? = some B → B'.frames = B.frames →
      ∀ userRegisters addr size,
      outcome ((Machine.readMem cfg addr size).run
          (B'.resume userRegisters (final ((Machine.runInstruction cfg).run m)))) =
        outcome ((Machine.readMem cfg addr size).run (B'.resume userRegisters m))) ∧
    (∀ m', (Machine.runInstruction cfg).run m = .error (.fault .undefined) m' →
      numTotalRegs ≤ (m.registers loadReg).toNat ∨ ∃ instr, Machine.DivOverflow instr m') := by
  have hi := Machine.runInstruction_isolated cfg m
  have hmem : ∀ a, a / pageSize ∉ A.frames →
      (final ((Machine.runInstruction cfg).run m)).mainMemory a = m.mainMemory a := by
    intro a ha
    exact hi.mem hm.tlb a (by rw [hm.frames]; exact ha)
  refine ⟨hmem, ?_, ?_⟩
  · intro j B B' hj hB hB' userRegisters addr size
    have hdis : A.frames.Disjoint B.frames := by
      refine (Spaces.FrameInv.history hr).owned.disjoint hj.symm ?_ ?_
      · simp [Spaces.pool, hA]
      · simp [Spaces.pool, hB]
    have hmachine : B'.resume userRegisters (final ((Machine.runInstruction cfg).run m)) =
        (B'.resume userRegisters m).withMemory
          (final ((Machine.runInstruction cfg).run m)).mainMemory := by
      unfold AddrSpace.resume AddrSpace.restoreState Machine.withMemory
      rw [hi.tlb hm.tlb, hm.tlb]
    have htlb : (B'.resume userRegisters m).tlb = none := hm.tlb
    rw [hmachine]
    refine Machine.readMem_congr cfg addr size htlb fun a ha => hmem a fun hin => hdis hin ?_
    rw [← hB']
    exact ha
  · intro m' herr
    rcases Nat.lt_or_ge (m.registers loadReg).toNat numTotalRegs with hlt | hge
    · exact .inr (Machine.runInstruction_undefined (hm.sound hlt) herr)
    · exact .inl hge

/-- `sw r1, 0(r0)` at the start of the first frame. -/
def storeMemory : Memory := writeBlock 0 0 (hostWordBytes buildLinux 0xac010000)

/-- A program overwrites its own first word, and the other one keeps what it has. -/
theorem user_isolation_store :
    ∃ s A B, Spaces.history buildLinux ⟨0, 0, none, none, 0⟩
        [.create 0 emptyProgram, .create 0 emptyProgram] = .ok s ∧ s.live = [A, B] ∧
      ∀ userRegisters addr size,
        outcome ((Machine.readMem buildLinux addr size).run (B.resume userRegisters
            (final ((Machine.runInstruction buildLinux).run
              (A.restoreState ⟨0, storeMemory, none, none, 0⟩))))) =
          outcome ((Machine.readMem buildLinux addr size).run (B.resume userRegisters
            (A.restoreState ⟨0, storeMemory, none, none, 0⟩))) := by
  have h : (do
      let s ← Spaces.history buildLinux ⟨0, 0, none, none, 0⟩
        [.create 0 emptyProgram, .create 0 emptyProgram]
      return decide (s.live.length = 2) : Except Fault Bool) = .ok true := by decide +kernel
  obtain ⟨s, hs, h⟩ := bind_ok h
  obtain ⟨A, B, hl⟩ := List.length_eq_two.1 (of_decide_eq_true (Except.ok.inj h))
  have hA : s.live[0]? = some A := by rw [hl]; rfl
  have hB : s.live[1]? = some B := by rw [hl]; rfl
  refine ⟨s, A, B, hs, hl, ?_⟩
  exact (user_isolation buildLinux _ _ hs hA _ (A.installed_restoreState rfl)).2.1 1 B B
    (by decide) hB rfl

end Nachos
