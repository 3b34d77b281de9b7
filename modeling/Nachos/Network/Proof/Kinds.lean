import Nachos.Filesys.Proof.Calls

/-!
# Socket calls and the kind of stream

`SysConnect` and `SysServerListen` cast what the table has at the descriptor to the class they expect
(`network/socket.cc`, `network/serversocket.cc`). Only the null pointer is checked, so a descriptor of
another class is not refused (`socket_calls_respect_kind_iff`).
-/

namespace Nachos

open Base Streams

inductive KindCall
  | connect (ip : CString) (port : Int)
  | serverListen

namespace KindCall

def run (fd : Int) : KindCall → FilesM Int
  | .connect ip port => sysConnect fd ip port
  | .serverListen => sysServerListen fd

def IsFor : KindCall → Stream → Prop
  | .connect _ _, .socket _ => True
  | .serverListen, .serverSocket _ => True
  | _, _ => False

end KindCall

/-- The call acts on a stream of its class only: otherwise it fails and leaves the table and the objects
in it as they are. -/
def RespectsKind (s : Files) (fd : Int) (c : KindCall) : Prop :=
  (∃ stream, s.getStream fd = some stream ∧ c.IsFor stream) ∨
    ∃ s', (c.run fd).run s = .ok (-1) s' ∧ s'.fdt = s.fdt

variable {s : Files} {fd : Int}

theorem respectsKind_of_none (h : s.getStream fd = none) (c : KindCall) : RespectsKind s fd c := by
  refine .inr ⟨s, ?_, rfl⟩
  cases c with
  | connect ip port =>
    rw [KindCall.run, sysConnect, run_get_bind, h]
    rfl
  | serverListen =>
    rw [KindCall.run, sysServerListen, run_get_bind, h]
    rfl

theorem run_wrong_kind {stream : Stream} (h : s.getStream fd = some stream)
    {c : KindCall} (hc : ¬ c.IsFor stream) : (c.run fd).run s = .error (.fault .undefined) s := by
  cases c with
  | connect ip port =>
    rw [KindCall.run, sysConnect, run_get_bind, h]
    cases stream with
    | socket _ => exact absurd trivial hc
    | file _ | serverSocket _ => rfl
  | serverListen =>
    rw [KindCall.run, sysServerListen, run_get_bind, h]
    cases stream with
    | serverSocket _ => exact absurd trivial hc
    | file _ | socket _ => rfl

theorem not_respectsKind {stream : Stream} (h : s.getStream fd = some stream)
    {c : KindCall} (hc : ¬ c.IsFor stream) : ¬ RespectsKind s fd c := by
  rintro (⟨stream', h', hc'⟩ | ⟨s', hrun, -⟩)
  · rw [h] at h'
    cases h'
    exact hc hc'
  · rw [run_wrong_kind h hc] at hrun
    cases hrun

/-- **Socket calls and the kind of stream.** For every table and every descriptor, a socket call
respects the kind of stream if and only if the descriptor has no stream of another class. -/
theorem socket_calls_respect_kind_iff (s : Files) (fd : Int) (c : KindCall) :
    RespectsKind s fd c ↔ ∀ stream, s.getStream fd = some stream → c.IsFor stream := by
  constructor
  · intro h stream hs
    by_contra hc
    exact not_respectsKind hs hc h
  · intro h
    cases hs : s.getStream fd with
    | none => exact respectsKind_of_none hs c
    | some stream => exact .inl ⟨stream, hs, h stream hs⟩

/-- `Connect` and `ServerListen` on the descriptor of a file. -/
theorem socket_calls_on_file :
    openedFiles.Reachable ∧ openedFiles.getStream 2 = some (.file openedFile) ∧
      ¬ RespectsKind openedFiles 2 (.connect [49] 80) ∧
        ¬ RespectsKind openedFiles 2 .serverListen := by
  have h : openedFiles.getStream 2 = some (.file openedFile) := rfl
  exact ⟨openedFiles_reachable, h, not_respectsKind h id, not_respectsKind h id⟩

end Nachos
