import Nachos.Machine.Proof.Flush
import Nachos.Userprog.Exception

/-!
# A user program with interrupts

The loop of `Machine::Run` on one program. Before each instruction an interrupt may be due, and then
`CheckIfDue` completes the pending load; what the handlers of interrupts do to the kernel is not seen
here. An exception goes to a handler of the kernel, which may change everything. The exceptions are
recorded.
-/

namespace Nachos

variable {κ : Type}

/-- A handler for exceptions. It leaves the register file in order when it returns. -/
structure Handler (κ : Type) where
  handle : ExceptionType → HandlerM κ Word
  keeps : ∀ {which s res s'}, (handle which).run s = .ok res s' →
    Machine.RegisterFile s.machine.registers → Machine.RegisterFile s'.machine.registers

structure Execution (κ : Type) where
  state : KernelState κ
  exceptions : List (ExceptionType × Word)
  /-- why the simulator or the program has ended -/
  stopped : Option HandlerStop

namespace Execution

/-- `DelayedLoad(0, 0)`. -/
def flush (x : Execution κ) : Execution κ :=
  { x with state := { x.state with machine := x.state.machine.flushed } }

variable (cfg : Build) (handler : Handler κ)

/-- `RaiseException`. -/
def raise (which : ExceptionType) (badVAddr : Word) : HandlerM κ Word := do
  onMachine (Machine.trap badVAddr)
  handler.handle which

/-- `OneInstruction`. -/
def instruction (x : Execution κ) : Execution κ :=
  match (Machine.oneInstruction cfg).run x.state.machine with
  | .ok _ m => { x with state := { x.state with machine := m } }
  | .error (.fault f) m =>
    { x with state := { x.state with machine := m }, stopped := some (.fault f) }
  | .error (.raise which badVAddr) m =>
    let exceptions := x.exceptions ++ [(which, badVAddr)]
    match (raise handler which badVAddr).run { x.state with machine := m } with
    | .ok _ state => { x with state, exceptions }
    | .error e state => ⟨state, exceptions, some e⟩

/-- An instruction, and before it an interrupt if one is due. -/
def next (x : Execution κ) (interrupt : Bool) : Execution κ :=
  if x.stopped.isSome then x
  else instruction cfg handler (if interrupt then x.flush else x)

def run (x : Execution κ) (interrupts : List Bool) : Execution κ :=
  interrupts.foldl (next cfg handler) x

/-- The run of `n` instructions without interrupts. -/
def uninterrupted (x : Execution κ) (n : Nat) : Execution κ :=
  run cfg handler x (List.replicate n false)

end Execution

end Nachos
