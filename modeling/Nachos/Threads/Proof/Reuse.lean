import Nachos.Threads.Proof.Steps

/-!
# PCBs in storage that is used again

In `State` every PCB has a number of its own, and a deleted one keeps what it held. In the program the
storage of a deleted PCB can be given to a new one, and a thread that still has a pointer to the deleted
PCB works on the new one from then on. `Heap` has this too: `block` says which PCB is now in the
storage that a PCB was made in. Until a thread uses a deleted PCB the two are the same (`Heap.runs`).
-/

namespace Nachos.PTable

open Base

variable (f : Tid → Tid)

def Sem.follow : Sem → Sem
  | .bmsem => .bmsem
  | .addrLock => .addrLock
  | .joinsem p => .joinsem (f p)
  | .exitsem p => .exitsem (f p)
  | .multex p => .multex (f p)
  | .shouldExit p => .shouldExit (f p)

def ExecPc.follow : ExecPc → ExecPc
  | .created p i => .created (f p) i
  | .incNumWait parent p i => .incNumWait (f parent) (f p) i
  | .firstChild parent p i => .firstChild (f parent) (f p) i
  | .counted p i => .counted (f p) i
  | .opening p i => .opening (f p) i
  | .allocating p i executable noffH => .allocating (f p) i executable noffH
  | .forking p i space noffH => .forking (f p) i space noffH
  | .forked p i => .forked (f p) i
  | pc => pc

def ExitPc.follow : ExitPc → ExitPc
  | .joinReleased p parentID => .joinReleased (f p) parentID
  | .exitReleased p parentID => .exitReleased (f p) parentID
  | .decNumWait p parent => .decNumWait (f p) (f parent)
  | .lastChild p parent => .lastChild (f p) (f parent)
  | .counted p parent => .counted (f p) (f parent)
  | .accepted p parent => .accepted (f p) (f parent)
  | .waited p => .waited (f p)
  | pc => pc

/-- The pointers of the code at a place lead to the PCBs `f`. -/
def Place.follow : Place → Place
  | .exec filename argv pc => .exec filename argv (pc.follow f)
  | .join pID child (.joined p) => .join pID child (.joined (f p))
  | .exit exitCode pc => .exit exitCode (pc.follow f)
  | pl => pl

def Choice.actor : Choice → Option Tid
  | .call t _ | .go t => some t
  | .destroy | .outside .. => none

/-- The process system, and for each PCB the one that is now in its storage. -/
structure Heap where
  state : State
  block : Tid → Tid

namespace Heap

/-- A thread that is to use a deleted PCB uses what is in its place. -/
def follow (h : Heap) (choice : Choice) : State :=
  choice.actor.elim h.state fun t => h.state.setThread t fun thread =>
    { thread with place := thread.place.follow h.block, waiting := thread.waiting.map (·.follow h.block) }

/-- The storage after a step to `s'`: a PCB that is made in it is in the storage of `p`, if that is free. -/
def allocate (h : Heap) (s' : State) : Option Tid → Tid → Tid
  | none, q => h.block q
  | some p, q =>
    if s'.next ≠ h.state.next ∧ (h.state.pcbs (h.block p)).deleted ∧ h.block q = h.block p then h.state.next
    else h.block q

def step (h : Heap) (c : Choice × Option Tid) : Option Heap := do
  let s ← PTable.step { h.state with freedUse := false } c.1
  if s.freedUse then
    let s ← PTable.step (h.follow c.1) c.1
    return ⟨{ s with freedUse := true }, h.allocate s c.2⟩
  else return ⟨{ s with freedUse := h.state.freedUse }, h.allocate s c.2⟩

def startMainThread (env : Env) (filename : Name) : Except Fault Heap :=
  return ⟨← PTable.startMainThread env filename, id⟩

def Reachable (env : Env) (filename : Name) (h : Heap) : Prop :=
  ∃ h0, startMainThread env filename = .ok h0 ∧ Runs step (fun _ _ => True) h0 h

variable {h h' : Heap} {c : Choice × Option Tid} {s : State} {env : Env} {filename : Name}

theorem with_freedUse {b : Bool} (h : s.freedUse = b) : { s with freedUse := b } = s := by
  subst h
  rfl

theorem step_eq (hs : h.step c = some h') (hf : h'.state.freedUse = false) :
    h.state.freedUse = false ∧ PTable.step h.state c.1 = some h'.state := by
  obtain ⟨s, hstep, hs⟩ := Option.bind_eq_some_iff.1 hs
  split at hs
  · obtain ⟨s1, -, hs⟩ := Option.bind_eq_some_iff.1 hs
    cases hs
    cases hf
  · rename_i hused
    cases hs
    have hfalse : h.state.freedUse = false := hf
    rw [with_freedUse hfalse] at hstep
    refine ⟨hfalse, hstep.trans (congrArg some ?_)⟩
    exact (with_freedUse ((Bool.not_eq_true _ ▸ hused).trans hfalse.symm)).symm

theorem runs {h0 : Heap} (hrun : Runs step (fun _ _ => True) h0 h) (hf : h.state.freedUse = false) :
    Runs PTable.step (fun _ _ => True) h0.state h.state := by
  induction hrun with
  | start => exact .start
  | step _ _ hs ih =>
    obtain ⟨hfalse, hs⟩ := step_eq hs hf
    exact .step (ih hfalse) trivial hs

theorem Reachable.state (hr : Reachable env filename h) (hf : h.state.freedUse = false) :
    PTable.Reachable env filename h.state := by
  obtain ⟨h₀, h0, hrun⟩ := hr
  obtain ⟨s0, hs, h0⟩ := bind_ok h0
  cases h0
  exact ⟨s0, hs, runs hrun hf⟩

end Heap

end Nachos.PTable
