import Nachos.Userprog.Execution
import Nachos.Userprog.Proof.Programs

/-!
# Interrupts do not change what a program computes

Two runs of a program, one of them with interrupts, stay `Linked`: they have the same exceptions and the
same kernel, and their machines are alike up to the pending load (`next_linked`). So they are equal
when the last load is completed (`interrupts_transparent`).
-/

namespace Nachos

open Base Machine

variable {κ : Type} {cfg : Build}

/-- `ExceptionHandler`, with any routines of the kernel behind it. -/
def kernelHandler (cfg : Build) (sys : Services κ) : Handler κ where
  handle := exceptionHandler cfg sys
  keeps := exceptionHandler_registerFile

namespace Execution

variable {handler : Handler κ} {x x' : Execution κ} {m : Machine}

structure Linked (x x' : Execution κ) : Prop where
  kernel : x'.state.kernel = x.state.kernel
  exceptions : x'.exceptions = x.exceptions
  stopped : x'.stopped = x.stopped
  machine : x'.state.machine.flushed = x.state.machine.flushed
  running : x.stopped = none →
    SameLoad x.state.machine x'.state.machine ∧ RegisterFile x.state.machine.registers

theorem Linked.flush_eq (h : Linked x x') : x'.flush = x.flush := by
  obtain ⟨⟨m, k⟩, exceptions, stopped⟩ := x
  obtain ⟨⟨m', k'⟩, exceptions', stopped'⟩ := x'
  obtain ⟨rfl, rfl, rfl, hm, -⟩ := h
  exact congrArg (fun m => (⟨⟨m, k'⟩, exceptions', stopped'⟩ : Execution κ)) hm

theorem linked_self (h : RegisterFile x.state.machine.registers) : Linked x x :=
  ⟨rfl, rfl, rfl, rfl, fun _ => ⟨.inl rfl, h⟩⟩

theorem raise_congr {which : ExceptionType} {badVAddr : Word} {m' : Machine} (k : κ)
    (h : (trap badVAddr).run m' = (trap badVAddr).run m) :
    (raise handler which badVAddr).run ⟨m', k⟩ = (raise handler which badVAddr).run ⟨m, k⟩ := by
  have htrap : (onMachine (trap badVAddr)).run (⟨m', k⟩ : KernelState κ) =
      (onMachine (trap badVAddr)).run ⟨m, k⟩ := by
    rw [EStateM.run, EStateM.run] at h ⊢
    unfold onMachine
    dsimp only
    rw [h]
  unfold raise
  rw [EStateM.run_bind, EStateM.run_bind, htrap]

theorem raise_registerFile {which : ExceptionType} {badVAddr res : Word} {k : κ}
    {s : KernelState κ} (hl : m.LoadsGeneral)
    (h : (raise handler which badVAddr).run ⟨m, k⟩ = .ok res s) :
    RegisterFile s.machine.registers := by
  obtain ⟨_, s1, htrap, hh⟩ := run_bind_ok h
  obtain ⟨m1, hm1, rfl⟩ := onMachine_ok htrap
  obtain ⟨m2, hm2, hfile⟩ := trap_registerFile badVAddr hl
  rw [hm1] at hm2
  cases hm2
  exact handler.keeps hh hfile

theorem instruction_linked {m' : Machine} (h : Linked x x')
    (hfile : RegisterFile x.state.machine.registers)
    (hu : Undisturbed cfg x.state.machine) (ha : Alongside x.state.machine m') :
    Linked (instruction cfg handler x)
      (instruction cfg handler { x' with state := { x'.state with machine := m' } }) := by
  have hone := oneInstruction_alongside ha hu
  unfold instruction
  dsimp only
  cases hr : (oneInstruction cfg).run x.state.machine with
  | ok u m1 =>
    rw [hr] at hone
    obtain ⟨m2, hm2, hsame⟩ := hone
    rw [hm2]
    have hfile1 := oneInstruction_registerFile hfile.load hr
    exact ⟨h.kernel, h.exceptions, h.stopped, hsame.flushed_eq, fun _ => ⟨hsame, hfile1⟩⟩
  | error e m1 =>
    rw [hr] at hone
    obtain ⟨m2, hm2, hflush, htrap⟩ := hone
    rw [hm2]
    cases e with
    | fault f => exact ⟨h.kernel, h.exceptions, rfl, hflush, nofun⟩
    | raise which badVAddr =>
      have hl1 : m1.LoadsGeneral := by
        rw [LoadsGeneral, (oneInstruction_precise hr).registers]
        exact hfile.load
      dsimp only
      rw [h.kernel, h.exceptions, h.stopped, raise_congr _ (htrap badVAddr)]
      cases hh : (raise handler which badVAddr).run ⟨m1, x.state.kernel⟩ with
      | ok res s => exact linked_self (raise_registerFile hl1 hh)
      | error e s => exact ⟨rfl, rfl, rfl, rfl, by simp⟩

theorem next_linked (h : Linked x x')
    (hu : x.stopped = none → Undisturbed cfg x.state.machine) (interrupt : Bool) :
    Linked (next cfg handler x false) (next cfg handler x' interrupt) := by
  unfold next
  cases hstop : x.stopped with
  | some e =>
    rw [h.stopped, hstop]
    exact h
  | none =>
    rw [h.stopped, hstop]
    obtain ⟨hsame, hfile⟩ := h.running hstop
    have hnext : Linked (instruction cfg handler x) _ :=
      instruction_linked h hfile (hu hstop) (hsame.alongside hfile interrupt)
    cases interrupt <;> exact hnext

theorem run_linked (interrupts : List Bool) (h : Linked x x')
    (hu : ∀ k < interrupts.length, (uninterrupted cfg handler x k).stopped = none →
      Undisturbed cfg (uninterrupted cfg handler x k).state.machine) :
    Linked (uninterrupted cfg handler x interrupts.length) (run cfg handler x' interrupts) := by
  induction interrupts generalizing x x' with
  | nil => exact h
  | cons interrupt interrupts ih =>
    refine ih (next_linked h (hu 0 (by simp)) interrupt) fun k hk => ?_
    exact hu (k + 1) (by simpa using hk)

/-- **Interrupts do not change what a program computes.** In a run in which no instruction reads or
writes the target of the load that is still pending, interrupts at any of the instruction boundaries
change nothing: with the last load completed, the machine, the kernel and the exceptions are those of the
run without interrupts. -/
theorem interrupts_transparent {x : Execution κ} (hx : RegisterFile x.state.machine.registers)
    (interrupts : List Bool)
    (hu : ∀ k < interrupts.length, (uninterrupted cfg handler x k).stopped = none →
      Undisturbed cfg (uninterrupted cfg handler x k).state.machine) :
    (run cfg handler x interrupts).flush =
      (uninterrupted cfg handler x interrupts.length).flush :=
  (run_linked interrupts (linked_self hx) hu).flush_eq

/-- A program at the start of memory, with no exceptions so far and `r0` in `R0`. -/
def ofProgram (program : List Word) (r0 : Word) : Execution Unit :=
  ⟨⟨programPage program fun r => if r = gpr 0 then r0 else if r = nextPCReg then 4 else 0, ()⟩, [], none⟩

theorem undisturbed_of_fetch (word : Word)
    (h : outcome ((readMem cfg (m.registers pcReg) 4).run m) = .ok word)
    (ht : ∀ q ∈ (Instruction.decode word).touches, q ≠ 0 →
      m.registers loadReg ≠ BitVec.ofNat 32 q) : Undisturbed cfg m := by
  intro raw m1 hraw
  rw [hraw] at h
  cases h
  exact ht

/-- `LW r1, 0(r0)` and `ADDU r2, r0, r0`, with an interrupt in between. -/
theorem interrupts_transparent_load :
    (run buildLinux (kernelHandler buildLinux zeroServices)
      (ofProgram [0x8c010000, 0x00001021] 0) [false, true]).flush =
    (uninterrupted buildLinux (kernelHandler buildLinux zeroServices)
      (ofProgram [0x8c010000, 0x00001021] 0) 2).flush := by
  refine interrupts_transparent ⟨rfl, by decide⟩ [false, true] fun k hk _ => ?_
  match k, hk with
  | 0, _ => exact undisturbed_of_fetch 0x8c010000 (by decide +kernel) (by decide +kernel)
  | 1, _ => exact undisturbed_of_fetch 0x00001021 (by decide +kernel) (by decide +kernel)

/-- With 1 in `R0`, an interrupt changes what `ADDU r1, r0, r0` computes: it zeroes `R0`. -/
theorem interrupts_not_transparent :
    ∃ x : Execution Unit, x.state.machine.gp 0 ≠ 0 ∧
      (∀ k < 1, (uninterrupted buildLinux (kernelHandler buildLinux zeroServices) x k).stopped = none →
        Undisturbed buildLinux
          (uninterrupted buildLinux (kernelHandler buildLinux zeroServices) x k).state.machine) ∧
      (run buildLinux (kernelHandler buildLinux zeroServices) x [true]).flush ≠
        (uninterrupted buildLinux (kernelHandler buildLinux zeroServices) x 1).flush := by
  refine ⟨ofProgram [0x00000821] 1, by decide, ?_, ?_⟩
  · intro k hk _
    obtain rfl : k = 0 := by omega
    exact undisturbed_of_fetch 0x00000821 (by decide +kernel) (by decide +kernel)
  · intro h
    have hr1 := congrArg (fun x : Execution Unit => x.state.machine.registers (gpr 1)) h
    revert hr1
    decide +kernel

end Execution

end Nachos
