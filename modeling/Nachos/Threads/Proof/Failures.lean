import Nachos.Threads.Proof.Alone

/-!
# Process calls that fail

A call that cannot be carried out should return -1 and leave the table, the counter of the caller and the
frames as they were (`Atomic`). The call is followed from the moment on when the thread is behind its first
`bmsem->P()` (`Begun`), without steps of other threads in between. Only a call of `ExecUpdate` or
`ExecVUpdate` with a full table does what it should (`atomic_iff`): the other failures are found by an
assertion, or by none.
-/

namespace Nachos.PTable

open Base

variable {s s' : State} {t : Tid} {filename : Name} {argv : List Name} {pID : Int} {child : Entry}

/-- The program and the arguments of a call of `ExecUpdate` or `ExecVUpdate`. -/
def Call.program : Call → Option (Name × List Name)
  | .exec filename => some (filename, [])
  | .execV (filename :: argv) => some (filename, filename :: argv)
  | .execV [] | .join _ | .exit _ => none

namespace State

def TableFull (s : State) : Prop := ∀ i < s.bm.numBits, s.bm.bit i = true

def FramesShort (s : State) (filename : Name) : Prop :=
  ∃ executable noffH, s.files filename = some executable ∧
    readHeader buildLinux s.junk executable = .ok noffH ∧
    s.gPhysPageBitMap.numBits - s.gPhysPageBitMap.marked.card < AddrSpace.pagesFor noffH

def Fails (s : State) : Call → Prop
  | .exec filename | .execV (filename :: _) =>
    s.files filename = none ∨ s.TableFull ∨ s.FramesShort filename
  | .execV [] => s.TableFull
  | .join pID => ∀ p, s.entry pID ≠ .obj p
  | .exit _ => False

/-- The thread is behind the first `bmsem->P()` of the call; in front of a call that does not come so
far. -/
def Begun (s : State) (t : Tid) : Call → Prop
  | .exec filename => At s t (.exec filename [] .finding)
  | .execV (filename :: argv) => At s t (.exec filename (filename :: argv) .finding)
  | .execV [] => At s t .user
  | .join pID => ∃ child, At s t (.join pID child .checking)
  | .exit exitCode => At s t (.exit exitCode .checking)

end State

def Call.first (t : Tid) : Call → Choice
  | .execV [] => .call t (.execV [])
  | _ => .go t

/-- The table, what counts the children of the caller, and the frames are as they were. -/
structure State.Untouched (s s' : State) (t : Tid) : Prop where
  bm : s'.bm = s.bm
  pcb : s'.pcb = s.pcb
  numwait : (s'.pcbs t).numwait = (s.pcbs t).numwait
  shouldExit : s'.sems (.shouldExit t) = s.sems (.shouldExit t)
  gPhysPageBitMap : s'.gPhysPageBitMap = s.gPhysPageBitMap

def State.Atomic (s : State) (t : Tid) (c : Call) : Prop :=
  ∃ s1 s', step s (c.first t) = some s1 ∧ Repeats step (.go t) s1 s' ∧
    At s' t .user ∧ (s'.threads t).result = -1 ∧ s.Untouched s' t

/-! ## A full table -/

theorem State.Untouched.put {s0 : State} (h : s0.Untouched s t) (x : Semaphore Nat) (pl : Place) :
    s0.Untouched (s.put t .bmsem x pl) t :=
  have hne : Sem.shouldExit t ≠ .bmsem := nofun
  { h with shouldExit := (State.put_sems_of_ne hne x).trans h.shouldExit }

theorem full_atomic {c : Call} (h : At s t (.exec filename argv .finding)) (hc : c.first t = .go t)
    (hfull : s.TableFull) : s.Atomic t c := by
  have hf : s.bm.findAndSet = .ok (-1, s.bm) := by
    rcases s.bm.findAndSet_cases with ⟨j, hj, hbit, -, -⟩ | ⟨-, hf⟩
    · exact nomatch hbit.symm.trans (hfull j hj)
    · exact hf
  have hu : s.Untouched s t := ⟨rfl, rfl, rfl, rfl, rfl⟩
  -- `FindAndSet` returns -1 and `bmsem` is given back
  have h1 : step s (.go t) = some (s.v t .bmsem (.exec filename argv (.found (-1)))) := by
    rw [h.step_eq]
    show some (s.getFreeSlot t _) = _
    unfold State.getFreeSlot
    rw [hf]
  have hat1 := at_put (t := t) h.stopped h.destroyed .bmsem (s.sems .bmsem).v.1
    (.exec filename argv (.found (-1)))
  have hu1 := hu.put (s.sems .bmsem).v.1 (.exec filename argv (.found (-1)))
  have hvalue : ((s.v t .bmsem (.exec filename argv (.found (-1)))).sems .bmsem).value ≠ 0 := by
    rw [State.v_eq_put, State.put_sems_self]
    exact Nat.succ_ne_zero _
  rw [← State.v_eq_put] at hat1 hu1
  generalize s.v t .bmsem _ = s1 at h1 hat1 hu1 hvalue
  -- the thread takes it again
  have h2 := hat1.step_eq.trans (congrArg some (State.p_eq_put hvalue))
  have hat2 := at_put (t := t) hat1.stopped hat1.destroyed .bmsem
    (s1.sems .bmsem).decrement (.exec filename argv (.creating (-1)))
  have hu2 := hu1.put (s1.sems .bmsem).decrement
    (.exec filename argv (.creating (-1)))
  generalize s1.put t .bmsem _ _ = s2 at h2 hat2 hu2
  -- and returns
  have h3 : step s2 (.go t) = some ((s2.put t .bmsem (s2.sems .bmsem).v.1 .user).writeResult t (-1)) :=
    hat2.step_eq
  have hu3 := hu2.put (s2.sems .bmsem).v.1 .user
  refine ⟨s1, _, hc ▸ h1, .tail (.tail .refl h2) h3,
    (at_put hat2.stopped hat2.destroyed _ _ _).writeResult _, ?_, ?_⟩
  · rw [State.writeResult, State.setThread_self]
  · exact ⟨hu3.bm, hu3.pcb, hu3.numwait, hu3.shouldExit, hu3.gPhysPageBitMap⟩

/-! ## The other failures -/

structure Store where
  files : Name → Option OpenFile
  junk : Memory
  bm : Bitmap
  gPhysPageBitMap : Bitmap

namespace State

def store (s : State) : Store := ⟨s.files, s.junk, s.bm, s.gPhysPageBitMap⟩

theorem store_round (sem : Sem) : (s.round t sem).store = s.store := by
  unfold round
  split <;> rfl

theorem store_p (sem : Sem) (pl : Place) : (s.p t sem pl).store = s.store := store_round sem

def NoProgram (s : State) (filename : Name) : Prop :=
  s.files filename = none ∨ s.FramesShort filename ∨ 32 ≤ filename.length

end State

def ExecPc.Doomed (s : State) (filename : Name) : ExecPc → Prop
  | .finding => ¬ s.TableFull
  | .found freeSlot | .creating freeSlot => freeSlot ≠ -1
  | .allocating _ _ _ noffH =>
    s.gPhysPageBitMap.numBits - s.gPhysPageBitMap.marked.card < AddrSpace.pagesFor noffH ∨
      32 ≤ filename.length
  | .forking .. => 32 ≤ filename.length
  | .forked .. => False
  | .created .. | .incNumWait .. | .firstChild .. | .counted .. | .opening .. => True

def ExecDoomed (s : State) (t : Tid) (filename : Name) (argv : List Name) : Prop :=
  s.stopped ≠ none ∨ s.NoProgram filename ∧
    ∃ pc : ExecPc, (s.threads t).place = .exec filename argv pc ∧ pc.Doomed s filename

theorem execDoomed_stop (reason : StopReason) : ExecDoomed (s.stop reason) t filename argv := .inl nofun

section

variable {pc : ExecPc}

theorem noProgram_congr (hs : s'.store = s.store) (h : s.NoProgram filename) :
    s'.NoProgram filename := by
  simp only [State.store, Store.mk.injEq] at hs
  obtain ⟨hfiles, hjunk, -, hframes⟩ := hs
  unfold State.NoProgram State.FramesShort at h ⊢
  rwa [hfiles, hjunk, hframes]

theorem doomed_congr (hs : s'.store = s.store) (h : pc.Doomed s filename) :
    pc.Doomed s' filename := by
  simp only [State.store, Store.mk.injEq] at hs
  obtain ⟨-, -, hbm, hframes⟩ := hs
  cases pc with
  | finding =>
    change ¬ s.TableFull at h
    change ¬ s'.TableFull
    unfold State.TableFull at h ⊢
    rwa [hbm]
  | allocating =>
    unfold ExecPc.Doomed at h ⊢
    rwa [hframes]
  | _ => exact h

theorem ExecDoomed.of_store (hs : s'.store = s.store) (h : s.NoProgram filename)
    (hpl : (s'.threads t).place = .exec filename argv pc) (hpc : pc.Doomed s filename) :
    ExecDoomed s' t filename argv :=
  .inr ⟨noProgram_congr hs h, pc, hpl, doomed_congr hs hpc⟩

theorem execDoomed_p (pc : ExecPc) (h : s.NoProgram filename) (sem : Sem) (hpc : pc.Doomed s filename) :
    ExecDoomed (s.p t sem (.exec filename argv pc)) t filename argv :=
  .of_store (State.store_p _ _) h (State.p_place _ _) hpc

theorem doomed_opening {p : Tid} {i : Nat} {executable : OpenFile} {noffH : NoffHeader}
    (h : s.NoProgram filename) (hfile : s.files filename = some executable)
    (hheader : readHeader buildLinux s.junk executable = .ok noffH) :
    (ExecPc.allocating p i executable noffH).Doomed s filename := by
  rcases h with hnone | ⟨executable', noffH', hfile', hheader', hlt⟩ | hlong
  · cases hnone.symm.trans hfile
  · cases hfile.symm.trans hfile'
    cases hheader.symm.trans hheader'
    exact .inl hlt
  · exact .inr hlong

theorem does_doomed (h : s.NoProgram filename) (hpc : pc.Doomed s filename)
    (hd : s.Does t (.exec filename argv pc) s') : ExecDoomed s' t filename argv := by
  cases hd with
  | stop => exact execDoomed_stop _
  | p he =>
    cases he with
    | found => exact execDoomed_p (.creating _) h _ hpc
    | created => exact execDoomed_p (.incNumWait ..) h _ trivial
    | incNumWait => exact execDoomed_p (.firstChild ..) h _ trivial
    | counted => exact execDoomed_p (.opening ..) h _ trivial
    | opening hfile hheader => exact execDoomed_p _ h _ (doomed_opening h hfile hheader)
  | v hr => cases hr
  | find hf =>
    rcases s.bm.findAndSet_cases with ⟨j, -, -, -, hf'⟩ | ⟨hbits, -⟩
    · cases hf.symm.trans hf'
      refine .inr ⟨h, _, State.v_place _ _, ?_⟩
      show (j : Int) ≠ -1
      omega
    · exact absurd hbits hpc
  | refuse => exact absurd rfl hpc
  | create => exact .inr ⟨h, _, State.v_place _ _, trivial⟩
  | count => exact .inr ⟨noProgram_congr rfl h, .counted .., State.v_place _ _, trivial⟩
  | allocate hok =>
    have hlong : 32 ≤ filename.length := hpc.resolve_left fun hlt =>
      (AddrSpace.allocPages_isOk _ 0 s.gPhysPageBitMap).1.not.2 (Nat.not_le.2 hlt) ⟨_, hok⟩
    exact .inr ⟨.inr (.inr hlong), _, State.v_place _ _, hlong⟩
  | fork hlt => exact absurd hlt (Nat.not_le.2 (Nat.lt_succ_of_le hpc))
  | forked => exact hpc.elim

end

theorem step_stopped {choice : Choice} (h : s.stopped ≠ none) : step s choice = none := by
  unfold step
  rw [if_pos (Option.isSome_iff_ne_none.2 h)]

theorem step_doomed (h : ExecDoomed s t filename argv) (hs : step s (.go t) = some s') :
    ExecDoomed s' t filename argv := by
  rcases h with hstop | ⟨h, pc, hpl, hpc⟩
  · cases (step_stopped hstop).symm.trans hs
  · cases step_takes hs with
    | round => exact .of_store (State.store_round _) h ((State.round_place _).trans hpl) hpc
    | run _ hd =>
      rw [hpl] at hd
      exact does_doomed h hpc hd

theorem not_atomic_exec {c : Call} (hc : c.first t = .go t)
    (h : At s t (.exec filename argv .finding)) (hno : s.NoProgram filename) (hfull : ¬ s.TableFull) :
    ¬ s.Atomic t c := by
  rintro ⟨s1, s', hs, hrun, hat, -⟩
  rw [hc] at hs
  have hd : ExecDoomed s t filename argv := .inr ⟨hno, .finding, h.place, hfull⟩
  rcases hrun.invariant (step_doomed hd hs) fun _ _ h hs => step_doomed h hs with hstop | ⟨-, _, hpl, -⟩
  · exact hstop hat.stopped
  · cases hpl.symm.trans hat.place

def JoinDoomed (s : State) (t : Tid) (pID : Int) : Prop :=
  s.stopped ≠ none ∨ (∀ p, s.entry pID ≠ .obj p) ∧
    ∃ child pc, (s.threads t).place = .join pID child pc ∧ ∀ p, pc ≠ .joined p

theorem State.entry_round (sem : Sem) : (s.round t sem).entry pID = s.entry pID := by
  have h : (s.round t sem).pcb = s.pcb := by
    unfold round
    split <;> rfl
  unfold entry
  rw [h]

theorem step_joinDoomed (h : JoinDoomed s t pID) (hs : step s (.go t) = some s') :
    JoinDoomed s' t pID := by
  rcases h with hstop | ⟨hentry, child, pc, hpl, hpc⟩
  · cases (step_stopped hstop).symm.trans hs
  · cases step_takes hs with
    | round =>
      refine .inr ⟨fun p => ?_, child, pc, (State.round_place _).trans hpl, hpc⟩
      rw [State.entry_round]
      exact hentry p
    | run _ hd =>
      rw [hpl] at hd
      cases hd with
      | stop => exact .inl nofun
      | p he =>
        cases he with
        | joinWait hp => exact absurd hp (hentry _)
      | v hr =>
        cases hr with
        | joinChecking => exact .inr ⟨hentry, child, _, State.v_place _ _, nofun⟩
      | joined => exact absurd rfl (hpc _)

theorem not_atomic_join (h : At s t (.join pID child .checking)) (hentry : ∀ p, s.entry pID ≠ .obj p) :
    ¬ s.Atomic t (.join pID) := by
  rintro ⟨s1, s', hs, hrun, hat, -⟩
  have hd : JoinDoomed s t pID := .inr ⟨hentry, child, _, h.place, nofun⟩
  rcases hrun.invariant (step_joinDoomed hd hs) fun _ _ h hs => step_joinDoomed h hs with
    hstop | ⟨-, _, _, hpl, -⟩
  · exact hstop hat.stopped
  · cases hpl.symm.trans hat.place

theorem not_atomic_execV (h : At s t .user) : ¬ s.Atomic t (.execV []) := by
  rintro ⟨s1, s', hs, hrun, hat, -⟩
  have hstep : step s (.call t (.execV [])) = some (s.stop (.fault .assertion)) := by
    rw [h.call_eq]
    unfold State.call
    rw [h.place]
  cases hstep.symm.trans hs
  have hend : step (s.stop (.fault .assertion)) (.go t) = none := rfl
  rw [hrun.eq_of_none hend] at hat
  cases hat.stopped

/-- **A call that cannot be carried out returns -1 and changes nothing** exactly when it is a call of
`ExecUpdate` or `ExecVUpdate` and the table is full. -/
theorem atomic_iff {c : Call} (hb : s.Begun t c) (hf : s.Fails c) :
    s.Atomic t c ↔ c.program.isSome = true ∧ s.TableFull := by
  cases c with
  | exec filename =>
    refine ⟨fun h => ⟨rfl, ?_⟩, fun h => full_atomic hb rfl h.2⟩
    by_contra hfull
    exact not_atomic_exec rfl hb (hf.imp_right fun hf => .inl (hf.resolve_left hfull)) hfull h
  | execV argv =>
    cases argv with
    | nil => exact ⟨fun h => absurd h (not_atomic_execV hb), nofun⟩
    | cons filename argv =>
      refine ⟨fun h => ⟨rfl, ?_⟩, fun h => full_atomic hb rfl h.2⟩
      by_contra hfull
      exact not_atomic_exec rfl hb (hf.imp_right fun hf => .inl (hf.resolve_left hfull)) hfull h
  | join pID =>
    obtain ⟨child, hb⟩ := hb
    exact ⟨fun h => absurd h (not_atomic_join hb hf), nofun⟩
  | exit => exact hf.elim

def tenthExec : List Choice :=
  steps 0 1 ++ (.call 0 (.exec []) :: steps 0 12) ++
    (List.replicate 8 (.call 0 (.exec []) :: steps 0 11)).flatten ++ .call 0 (.exec []) :: steps 0 1

theorem atomic_tenthExec : ∃ s, Reachable zeroEnv [] s ∧ s.Begun 0 (.exec []) ∧ s.Fails (.exec []) ∧
    s.Atomic 0 (.exec []) := by
  obtain ⟨s0, s, h0, hrun, hstop, hd, hpl, hw, hfull⟩ :=
    exists_runs_of_ok (startMainThread zeroEnv []) step (fun _ _ => True) tenthExec
      (fun s => s.stopped = none ∧ s.toBeDestroyed = none ∧
        (s.threads 0).place = .exec [] [] .finding ∧ (s.threads 0).waiting = none ∧
        ∀ i < s.bm.numBits, s.bm.bit i = true) (by decide +kernel)
  have hb : s.Begun 0 (.exec []) := ⟨hstop, hd, hpl, hw⟩
  have hf : s.Fails (.exec []) := .inr (.inl hfull)
  exact ⟨s, ⟨s0, h0, hrun⟩, hb, hf,
    (atomic_iff hb hf).2 ⟨rfl, hfull⟩⟩

def oneFileEnv : Env :=
  { zeroEnv with files := fun filename => if filename = [] then some emptyProgram else none }

/-- `Exec` of a name that is not there stops the kernel, with a slot and a PCB that nobody has. -/
theorem missing_not_atomic : ∃ s, Reachable oneFileEnv [] s ∧ s.Begun 0 (.exec [65]) ∧
    s.Fails (.exec [65]) ∧ ¬ s.Atomic 0 (.exec [65]) ∧
    ∃ s', Repeats step (.go 0) s s' ∧ s'.stopped = some (.fault .assertion) ∧ s'.pcb 1 = .obj 1 := by
  obtain ⟨s0, s, h0, hrun, ⟨hstop, hd, hpl, hw⟩, hfile, hbit, hlt, h'⟩ :=
    exists_runs_of_ok (startMainThread oneFileEnv []) step (fun _ _ => True)
      (steps 0 1 ++ .call 0 (.exec [65]) :: steps 0 1)
      (fun s => (s.stopped = none ∧ s.toBeDestroyed = none ∧
        (s.threads 0).place = .exec [65] [] .finding ∧ (s.threads 0).waiting = none) ∧
        s.files [65] = none ∧ s.bm.bit 1 = false ∧ 1 < s.bm.numBits ∧
        (runChecked step (fun _ _ => true) s (steps 0 8)).any fun s' =>
          decide (s'.stopped = some (.fault .assertion) ∧ s'.pcb 1 = .obj 1)) (by decide +kernel)
  obtain ⟨s', hs', hend⟩ := (Option.any_eq_true _ _).1 h'
  have hb : s.Begun 0 (.exec [65]) := ⟨hstop, hd, hpl, hw⟩
  have hfull : ¬ s.TableFull := fun hfull => nomatch hbit.symm.trans (hfull 1 hlt)
  exact ⟨s, ⟨s0, h0, hrun⟩, hb, .inl hfile,
    not_atomic_exec rfl hb (.inl hfile) hfull, s', repeats_of_runChecked hs', of_decide_eq_true hend⟩

end Nachos.PTable
