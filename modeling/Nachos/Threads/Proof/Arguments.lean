import Nachos.Threads.Proof.Join

/-!
# The arguments of a process

`ExecVUpdate` stores the arguments in the new PCB before the PCB is in the table, and no step changes
them (`step_grows`). So the process whose number `ExecV` returns has the arguments `ExecV` was
called with, as long as it lives (`execV_args`).
-/

namespace Nachos.PTable

open Base Function

def PCB.fixed (pcb : PCB) : List Name × Option Tid × Nat := (pcb.userArgs, pcb.parent, pcb.pID)

namespace State

structure Grows (s s' : State) : Prop where
  next : s.next ≤ s'.next
  fixed : ∀ p < s.next, (s'.pcbs p).fixed = (s.pcbs p).fixed

namespace Grows

variable {s0 s s' : State} {t q : Tid} {sem : Sem} {pl : Place}

theorem refl (s : State) : Grows s s := ⟨Nat.le_refl _, fun _ _ => rfl⟩

section

variable (h : Grows s0 s)
include h

theorem trans (h' : Grows s s') : Grows s0 s' where
  next := Nat.le_trans h.next h'.next
  fixed p hp := (h'.fixed p (Nat.lt_of_lt_of_le hp h.next)).trans (h.fixed p hp)

/-! One lemma for each operation: it keeps what `s` has kept. -/

theorem setThread (f : Thread → Thread) : Grows s0 (s.setThread t f) :=
  ⟨h.next, h.fixed⟩

theorem setSem (x : Semaphore Nat) : Grows s0 (s.setSem sem x) :=
  ⟨h.next, h.fixed⟩

theorem use (owner : Option Tid) : Grows s0 (s.use owner) := ⟨h.next, h.fixed⟩

theorem stop (reason : StopReason) : Grows s0 (s.stop reason) :=
  ⟨h.next, h.fixed⟩

theorem goto : Grows s0 (s.goto t pl) := h.setThread _

theorem writeResult (r : Int) : Grows s0 (s.writeResult t r) := h.setThread _

theorem round : Grows s0 (s.round t sem) := by
  unfold State.round
  split
  · exact ((h.use _).setSem _).setThread _
  · exact (h.use _).setSem _

theorem p : Grows s0 (s.p t sem pl) := (h.setThread _).round

theorem v : Grows s0 (s.v t sem pl) := ((h.use _).setSem _).goto

theorem setPCB {f : PCB → PCB} (hf : ∀ pcb, (f pcb).fixed = pcb.fixed) :
    Grows s0 (s.setPCB q f) := by
  refine ⟨h.next, fun p hp => ?_⟩
  rw [← h.fixed p hp]
  by_cases hpq : p = q
  · subst hpq
    simp only [State.setPCB, update_self, hf]
  · simp only [State.setPCB, update_of_ne hpq]

theorem addNumwait (k : Int) : Grows s0 (s.addNumwait q k) :=
  h.setPCB fun _ => rfl

theorem setExitCode (c : Int) : Grows s0 (s.setExitCode q c) :=
  h.setPCB fun _ => rfl

theorem newPCB (i : Nat) (argv : List Name) : Grows s0 (s.newPCB t i argv) := by
  refine ⟨Nat.le_succ_of_le h.next, fun p hp => ?_⟩
  have hne : p ≠ s.next := Nat.ne_of_lt (Nat.lt_of_lt_of_le hp h.next)
  simp only [State.newPCB, update_of_ne hne]
  exact h.fixed p hp

end

end Grows

variable {s s' : State} {t : Tid}

theorem does_grows {pl : Place} (hd : s.Does t pl s') : Grows s s' := by
  have h := Grows.refl s
  cases hd with
  | stop => exact h.stop _
  | p => exact h.p
  | v => exact h.v
  | loaded => exact h.goto
  | find | allocate => exact Grows.v ⟨h.next, h.fixed⟩
  | refuse | forked => exact h.v.writeResult _
  | create => exact (h.newPCB _ _).v
  | count | settle => exact (h.addNumwait _).v
  | fork => exact Grows.goto ⟨h.next, h.fixed⟩
  | joined => exact (h.use _).goto.writeResult _
  | release => exact (h.setExitCode _).v
  | remove =>
    refine Grows.v (Grows.setPCB ?_ fun _ => rfl)
    exact ⟨h.next, h.fixed⟩
  | removed => exact ⟨h.next, h.fixed⟩

end State

open State

variable {s s' s0 : State} {t p : Tid}

theorem step_grows {choice : Choice} (hs : step s choice = some s') : Grows s s' := by
  have h := Grows.refl s
  cases step_takes hs with
  | round => exact h.round
  | run _ hd => exact does_grows hd
  | call | refuse | destroy | destroyFails | outside => exact ⟨h.next, h.fixed⟩

theorem runs_grows {C : State → Choice → Prop} (h : Runs step C s s') : Grows s s' := by
  refine h.invariant (.refl s) fun _ _ _ hi _ hs => hi.trans (step_grows hs)

/-! ## `ExecVUpdate` -/

def ExecPc.made : ExecPc → Option Tid
  | .created p _ | .incNumWait _ p _ | .firstChild _ p _ | .counted p _ | .opening p _
  | .allocating p .. | .forking p .. | .forked p _ => some p
  | .finding | .found _ | .creating _ => none

/-- A thread has called `ExecV` with these arguments: it is in the call and the PCB it has made has them,
or it is back with the number of a child that has them, or with -1. -/
def InExecV (s : State) (t : Tid) (argv : List Name) : Prop :=
  match (s.threads t).place with
  | .exec _ argv' pc => argv' = argv ∧ ∀ p, pc.made = some p →
      p < s.next ∧ (s.pcbs p).userArgs = argv
  | .user => 0 ≤ (s.threads t).result → ∃ p, p < s.next ∧
      (s.pcbs p).fixed = (argv, some t, (s.threads t).result.toNat)
  | _ => False

theorem inExecV_of_place {argv : List Name} {filename : Name} {pc : ExecPc}
    (hpl : (s.threads t).place = .exec filename argv pc)
    (h : ∀ p, pc.made = some p → p < s.next ∧ (s.pcbs p).userArgs = argv) : InExecV s t argv := by
  unfold InExecV
  rw [hpl]
  exact ⟨rfl, h⟩

theorem userArgs_of_grows (h : s.Grows s') (hp : p < s.next) :
    (s'.pcbs p).userArgs = (s.pcbs p).userArgs := congrArg (·.1) (h.fixed p hp)

theorem InExecV.of_place {argv : List Name} (h : InExecV s t argv) (hg : s.Grows s')
    (hp : (s'.threads t).place = (s.threads t).place)
    (hr : (s'.threads t).result = (s.threads t).result) : InExecV s' t argv := by
  unfold InExecV at h ⊢
  rw [hp, hr]
  cases hpl : (s.threads t).place with
  | exec filename argv' pc =>
    rw [hpl] at h
    refine ⟨h.1, fun p hp => ?_⟩
    obtain ⟨hlt, hargs⟩ := h.2 p hp
    exact ⟨Nat.lt_of_lt_of_le hlt hg.next, (userArgs_of_grows hg hlt).trans hargs⟩
  | user =>
    rw [hpl] at h
    intro hr
    obtain ⟨p, hlt, hfixed⟩ := h hr
    exact ⟨p, Nat.lt_of_lt_of_le hlt hg.next, (hg.fixed p hlt).trans hfixed⟩
  | _ =>
    rw [hpl] at h
    exact h

theorem State.v_place (sem : Sem) (pl : Place) : ((s.v t sem pl).threads t).place = pl := by
  rw [v, goto, setThread_self]

section

variable {filename : Name} {argv : List Name} {pc : ExecPc}

theorem inExecV_move {pc' : ExecPc} (hg : s.Grows s')
    (hpl : (s'.threads t).place = .exec filename argv pc') (hm : pc'.made = pc.made)
    (h : ∀ p, pc.made = some p → p < s.next ∧ (s.pcbs p).userArgs = argv) : InExecV s' t argv := by
  refine inExecV_of_place hpl fun p hp => ?_
  obtain ⟨hlt, hargs⟩ := h p (hm.symm.trans hp)
  exact ⟨Nat.lt_of_lt_of_le hlt hg.next, (userArgs_of_grows hg hlt).trans hargs⟩

theorem returned_thread (sem : Sem) (r : Int) : ((s.v t sem .user).writeResult t r).threads t =
    { s.threads t with place := .user, waiting := none, result := r } := by
  rw [writeResult, setThread_self, v, goto, setThread_self]
  rfl

theorem inExecV_does (hi : s.view.Inv) (hpl : (s.threads t).place = .exec filename argv pc)
    (h : ∀ p, pc.made = some p → p < s.next ∧ (s.pcbs p).userArgs = argv)
    (hd : s.Does t (.exec filename argv pc) s') : InExecV s' t argv := by
  have hg := does_grows hd
  have hk : s.view.Knows t _ (s.threads t).place := hi.knows t
  rw [hpl] at hk
  cases hd with
  | stop => exact inExecV_move hg hpl rfl h
  | p he => cases he <;> exact inExecV_move hg (p_place _ _) rfl h
  | v hr => cases hr
  | find | allocate => exact inExecV_move hg (State.v_place _ _) rfl h
  | count hc => cases hc <;> exact inExecV_move hg (State.v_place _ _) rfl h
  | fork => exact inExecV_move hg (congrArg Thread.place (setThread_self _)) rfl h
  | refuse =>
    unfold InExecV
    rw [returned_thread]
    intro h
    exact absurd (show (0 : Int) ≤ -1 from h) (by decide)
  | create =>
    refine inExecV_of_place (State.v_place _ _) fun p hp => ?_
    cases hp
    refine ⟨Nat.lt_succ_self _, ?_⟩
    change (update s.pcbs s.next _ s.next).userArgs = argv
    rw [update_self]
    rfl
  | @forked _ _ p i =>
    obtain ⟨hlt, hargs⟩ := h p rfl
    unfold InExecV
    rw [returned_thread]
    intro _
    refine ⟨p, hlt, ?_⟩
    change ((s.pcbs p).userArgs, (s.pcbs p).parent, (s.pcbs p).pID) = (argv, some t, i)
    rw [hargs]
    exact congrArg _ (Prod.ext hk.2.1 hk.2.2)

theorem round_result (sem : Sem) : ((s.round t sem).threads t).result = (s.threads t).result := by
  unfold State.round
  split
  · rw [setThread_self]
    rfl
  · rfl

theorem InExecV.step {choice : Choice} (hi : s.view.Inv) (h : InExecV s t argv)
    (hc : ∀ c, choice ≠ .call t c) (hs : step s choice = some s') : InExecV s' t argv := by
  have hub : s.view.place t ≠ .unborn := by
    intro hub
    unfold InExecV at h
    rw [show (s.threads t).place = _ from hub] at h
    exact h
  by_cases hactor : choice.actor = some t
  · have hg := step_grows hs
    cases step_takes hs with
    | call | refuse =>
      cases hactor
      exact absurd rfl (hc _)
    | round =>
      cases hactor
      exact h.of_place hg (round_place _) (round_result _)
    | run _ hd =>
      cases hactor
      unfold InExecV at h
      split at h
      · rename_i hpl
        obtain ⟨rfl, h⟩ := h
        rw [hpl] at hd
        exact inExecV_does hi hpl h hd
      · rename_i hpl
        rw [hpl] at hd
        cases hd with
        | stop hne => exact absurd rfl hne
        | p he => cases he
        | v hr => cases hr
      · exact h.elim
    | destroy | destroyFails | outside => cases hactor
  · have ht := threads_of_ne hi hub hactor hs
    exact h.of_place (step_grows hs) (by rw [ht]) (by rw [ht])

theorem inExecV_call (hargv : argv ≠ []) (hs : PTable.step s (.call t (.execV argv)) = some s') :
    InExecV s' t argv := by
  unfold PTable.step at hs
  split at hs
  · cases hs
  · cases hd : s.toBeDestroyed with
    | some u =>
      rw [hd] at hs
      cases hs
    | none =>
      rw [hd] at hs
      obtain ⟨filename, args, rfl⟩ := List.exists_cons_of_ne_nil hargv
      dsimp only at hs
      unfold State.call at hs
      split at hs
      · cases hs
        have hpl : ((s.enter t .bmsem (.exec filename (filename :: args) .finding)).threads t).place =
            .exec filename (filename :: args) .finding := by
          rw [enter, setThread_self]
        exact inExecV_of_place hpl fun p hp => by cases hp
      · cases hs

/-- **The child has the arguments.** When `ExecV(argv)` is back with a number, the process with this
number has the arguments `argv`, in every later state. -/
theorem execV_args {env : Env} {main : Name} {s1 s2 : State} {C : State → Choice → Prop}
    (hr : Reachable env main s) (hargv : argv ≠ [])
    (hs : PTable.step s (.call t (.execV argv)) = some s0)
    (hrun : Runs PTable.step (fun _ choice => ∀ c, choice ≠ .call t c) s0 s1)
    (hu : (s1.threads t).place = .user) (hp : s1.entry (s1.threads t).result = .obj p)
    (hlater : Runs PTable.step C s1 s2) : (s2.pcbs p).userArgs = argv := by
  have hi0 : s0.view.Inv := step_inv (reachable_inv hr) hs
  obtain ⟨hi1, hin⟩ : s1.view.Inv ∧ InExecV s1 t argv :=
    hrun.invariant (I := fun s => s.view.Inv ∧ InExecV s t argv) ⟨hi0, inExecV_call hargv hs⟩
      fun _ _ _ hi hc hs => ⟨step_inv hi.1 hs, hi.2.step hi.1 hc hs⟩
  obtain ⟨hnn, hentry⟩ := entry_obj hp
  unfold InExecV at hin
  rw [hu] at hin
  obtain ⟨q, hlt, hfixed⟩ := hin hnn
  have hparent : (s1.pcbs q).parent = some t := congrArg (·.2.1) hfixed
  have hid : (s1.pcbs q).pID = (s1.threads t).result.toNat := congrArg (·.2.2) hfixed
  have hnot : ¬ (s1.view.place t).released := by
    rw [show s1.view.place t = _ from hu]
    exact nofun
  have hq := hi1.entry_of_not_gone hlt (View.not_gone_of_parent hi1 hparent hnot)
  rw [show (s1.view.pcbs q).pID = _ from hid] at hq
  cases hentry.symm.trans hq
  exact (userArgs_of_grows (runs_grows hlater) hlt).trans (congrArg (·.1) hfixed)

end

end Nachos.PTable
