import Nachos.Base.Runs
import Nachos.Userprog.AddrSpace
import Nachos.Userprog.Exception

/-!
# User programs over time

The machine that all user programs share, with the register files saved for their threads. What
happens to it between two instructions is an event: instructions and system calls, the flush of the
pending load when an interrupt is due, context switches, and whatever the kernel does to memory, to the
tables and to itself. A system call that returns is one event (`instruction`), or, when other threads
run in between, the exception (`raise`) and later the writes of its handler (`result`, `increasePC`).
-/

namespace Nachos

/-- The machine, the kernel and `userRegisters` of each thread, once saved. -/
structure Programs (κ : Type) where
  machine : Machine
  kernel : κ
  userRegisters : Nat → Option (Reg → Word)

namespace Programs

variable {κ : Type}

inductive Event (κ : Type)
  /-- `OneInstruction`, with the system call if it makes one -/
  | instruction
  /-- `OneInstruction`, up to the handler of its exception -/
  | raise
  /-- a handler writes the result -/
  | result (res : Word)
  /-- a handler steps over the instruction -/
  | increasePC
  /-- `CheckIfDue` finds an interrupt -/
  | flush
  | saveUserState (t : Nat)
  | restoreUserState (t : Nat)
  | initRegisters (space : AddrSpace)
  /-- anything else happens to memory, to the tables and to the kernel -/
  | others (m : Machine) (kernel : κ)

def returned {α : Type} (s : Programs κ) :
    EStateM.Result HandlerStop (KernelState κ) α → Option (Programs κ)
  | .ok _ k => some { s with machine := k.machine, kernel := k.kernel }
  | .error _ _ => none

variable (cfg : Build) (sys : Services κ)

def step (s : Programs κ) : Event κ → Option (Programs κ)
  | .instruction => s.returned ((userInstruction cfg sys).run ⟨s.machine, s.kernel⟩)
  | .raise =>
    match (Machine.runInstruction cfg).run s.machine with
    | .error (.raise _ _) m => some { s with machine := m }
    | _ => none
  | .result res => some { s with machine := s.machine.setReg (gpr 2) res }
  | .increasePC => s.returned (Nachos.increasePC.run ⟨s.machine, s.kernel⟩)
  | .flush => s.returned ((onMachine (Machine.delayedLoad 0 0)).run ⟨s.machine, s.kernel⟩)
  | .saveUserState t =>
    some { s with userRegisters := Function.update s.userRegisters t (some s.machine.registers) }
  | .restoreUserState t =>
    (s.userRegisters t).map fun registers => { s with machine := { s.machine with registers } }
  | .initRegisters space => some { s with machine := space.initRegisters s.machine }
  | .others m kernel =>
    some { s with machine := { m with registers := s.machine.registers }, kernel }

/-- The first program starts, with anything in memory and in the tables. -/
def start (m : Machine) (kernel : κ) (space : AddrSpace) : Programs κ :=
  ⟨space.initRegisters m, kernel, fun _ => none⟩

def Reachable (s : Programs κ) : Prop :=
  ∃ m kernel space, Base.Runs (step cfg sys) (fun _ _ => True) (start m kernel space) s

end Programs

end Nachos
