import Nachos.Userprog.Programs
import Nachos.Userprog.Proof.Syscalls

/-!
# The register file of user programs

`RegisterFile` holds of the machine's registers and of every saved register file, in every run of user
programs (`Programs.Reachable`). It follows that no register outside the machine is addressed.
-/

namespace Nachos

open Base Machine

variable {κ : Type} {cfg : Build} {sys : Services κ}

/-! ## System calls -/

theorem completed_registerFile {ρ : Reg → Word} (h : RegisterFile ρ) (res : Word) :
    RegisterFile (completed ρ res) := by
  unfold completed
  exact (((h.update (by decide) (by decide) _).update (by decide) (by decide) _).update
    (by decide) (by decide) _).update (by decide) (by decide) _

theorem handler_registerFile {c : Syscall} {s s' : KernelState κ} {res : Word}
    (h : (c.handler cfg sys).run s = .ok res s') (hs : RegisterFile s.machine.registers) :
    RegisterFile s'.machine.registers := by
  rw [(handler_ok c h).2]
  split
  · exact hs.update (by decide) (by decide) res
  · exact completed_registerFile hs res

theorem userInstruction_registerFile {s s' : KernelState κ} {res : Option Word}
    (hs : RegisterFile s.machine.registers)
    (h : (userInstruction cfg sys).run s = .ok res s') : RegisterFile s'.machine.registers := by
  cases res with
  | some res =>
    obtain ⟨t, c, -, ht, -, -, -, -, hrun⟩ := userInstruction_ok hs.load h
    exact handler_registerFile hrun ht
  | none =>
    dsimp only [EStateM.run, userInstruction] at h
    cases hone : oneInstruction cfg s.machine with
    | ok u m =>
      rw [hone] at h
      cases h
      exact oneInstruction_registerFile hs.load hone
    | error stop m =>
      rw [hone] at h
      cases stop with
      | fault f => cases h
      | raise which badVAddr =>
        obtain ⟨_, _, _, h⟩ := run_bind_ok (x := raiseException cfg sys which badVAddr) h
        cases h

theorem exceptionHandler_registerFile {which : ExceptionType} {s s' : KernelState κ} {res : Word}
    (h : (exceptionHandler cfg sys which).run s = .ok res s')
    (hs : RegisterFile s.machine.registers) : RegisterFile s'.machine.registers := by
  obtain ⟨c, -, hc⟩ := exceptionHandler_ok h
  exact handler_registerFile hc hs

theorem initRegisters_registerFile (space : AddrSpace) (m : Machine) :
    RegisterFile (space.initRegisters m).registers := by
  unfold AddrSpace.initRegisters
  have h : RegisterFile fun _ => 0 := ⟨rfl, by decide⟩
  exact ((h.update (by decide) (by decide) _).update (by decide) (by decide) _).update
    (by decide) (by decide) _

namespace Programs

/-! ## Runs -/

structure InOrder (s : Programs κ) : Prop where
  machine : RegisterFile s.machine.registers
  saved : ∀ t registers, s.userRegisters t = some registers → RegisterFile registers

variable {s : Programs κ}

theorem returned_eq {α : Type} {s' : Programs κ}
    {r : EStateM.Result HandlerStop (KernelState κ) α} (h : s.returned r = some s') :
    ∃ a k, r = .ok a k ∧ s' = { s with machine := k.machine, kernel := k.kernel } := by
  cases r with
  | ok a k =>
    cases h
    exact ⟨a, k, rfl, rfl⟩
  | error e k => cases h

theorem step_inOrder {s' : Programs κ} {e : Event κ} (hs : InOrder s)
    (h : step cfg sys s e = some s') : InOrder s' := by
  cases e with
  | instruction =>
    obtain ⟨res, k, hk, rfl⟩ := returned_eq h
    exact ⟨userInstruction_registerFile hs.machine hk, hs.saved⟩
  | raise =>
    dsimp only [step] at h
    split at h
    · rename_i which badVAddr m hm
      cases h
      have ht := runInstruction_raises hm
      exact ⟨⟨ht.zero, by rw [ht.noLoad.1]; decide⟩, hs.saved⟩
    · cases h
  | result res =>
    cases h
    exact ⟨hs.machine.update (by decide) (by decide) res, hs.saved⟩
  | increasePC =>
    dsimp only [step] at h
    obtain ⟨res, k, hk, rfl⟩ := returned_eq h
    cases hk
    exact ⟨((hs.machine.update (by decide) (by decide) _).update (by decide) (by decide) _).update
      (by decide) (by decide) _, hs.saved⟩
  | flush =>
    obtain ⟨res, k, hk, rfl⟩ := returned_eq h
    obtain ⟨m', hm', rfl⟩ := onMachine_ok hk
    obtain ⟨m, hm, hfile⟩ := delayedLoad_registerFile (r := 0) hs.machine.load (by decide) 0
    rw [hm'] at hm
    cases hm
    exact ⟨hfile, hs.saved⟩
  | saveUserState t =>
    cases h
    refine ⟨hs.machine, fun t' registers h => ?_⟩
    dsimp only at h
    rcases eq_or_ne t' t with rfl | hne
    · rw [Function.update_self] at h
      cases h
      exact hs.machine
    · rw [Function.update_of_ne hne] at h
      exact hs.saved t' registers h
  | restoreUserState t =>
    obtain ⟨registers, hr, rfl⟩ := Option.map_eq_some_iff.1 h
    exact ⟨hs.saved t registers hr, hs.saved⟩
  | initRegisters space =>
    cases h
    exact ⟨initRegisters_registerFile space s.machine, hs.saved⟩
  | others m kernel =>
    cases h
    exact ⟨hs.machine, hs.saved⟩

theorem reachable_inOrder (h : Reachable cfg sys s) : InOrder s := by
  obtain ⟨m, kernel, space, h⟩ := h
  refine h.invariant ⟨initRegisters_registerFile space m, nofun⟩ ?_
  exact fun s e s' hs _ hstep => step_inOrder hs hstep

/-- **The register file stays in order.** In every run of user programs, with any contents of memory:
`R0` is zero and `LoadReg` names a general register, in the machine and in what is saved. So every
register that the next instruction or `DelayedLoad` addresses exists: the fields of an instruction are
decoded in range, and `LoadReg` is still in range when `OneInstruction` completes the pending load. Every
word is decoded to an opcode that the `switch` has a case for. -/
theorem register_file_invariant {s : Programs κ} (h : Reachable cfg sys s) :
    RegisterFile s.machine.registers ∧
    (∀ t registers, s.userRegisters t = some registers → RegisterFile registers) ∧
    (∀ value, WellDecoded value) ∧
    (∀ raw m1 pcAfter p m2,
      (readMem cfg (s.machine.registers pcReg) 4).run s.machine = .ok raw m1 →
      (execute cfg (Instruction.decode raw) pcAfter).run m1 = .ok p m2 →
      m2.LoadsGeneral ∧ p.nextLoadReg.toNat < 32 ∧
        ∃ m3, (delayedLoad p.nextLoadReg p.nextLoadValue).run m2 = .ok () m3) ∧
    ∃ m', (delayedLoad 0 0).run s.machine = .ok () m' := by
  have hs := reachable_inOrder h
  refine ⟨hs.machine, hs.saved, wellDecoded, ?_, ?_⟩
  · intro raw m1 pcAfter p m2 hraw hp
    have hc := readMem_contents cfg (s.machine.registers pcReg) 4 s.machine
    rw [hraw] at hc
    obtain ⟨hl, hsmall⟩ := execute_load hs.machine.load hc hp
    obtain ⟨m3, hm3, -⟩ := delayedLoad_registerFile hl hsmall p.nextLoadValue
    exact ⟨hl, hsmall, m3, hm3⟩
  · obtain ⟨m', hm', -⟩ := delayedLoad_registerFile (r := 0) hs.machine.load (by decide) 0
    exact ⟨m', hm'⟩

def loadAndSwitch : List (Event Unit) :=
  [.instruction, .saveUserState 0, .initRegisters ⟨⟨[]⟩, []⟩, .saveUserState 1,
    .restoreUserState 0, .flush]

theorem register_file_loadAndSwitch :
    ∃ s, Reachable buildLinux zeroServices s ∧ s.machine.registers (gpr 1) = 0x8c010000 ∧
      RegisterFile s.machine.registers := by
  obtain ⟨s, hrun, hr⟩ := exists_runs (step buildLinux zeroServices) (fun _ _ => True)
    (start (programPage [0x8c010000] 0) () ⟨⟨[]⟩, []⟩) loadAndSwitch
    (fun s => s.machine.registers (gpr 1) = 0x8c010000) (by decide +kernel)
  have hreach : Reachable buildLinux zeroServices s := ⟨_, _, _, hrun⟩
  exact ⟨s, hreach, hr, (register_file_invariant hreach).1⟩

end Programs

end Nachos
