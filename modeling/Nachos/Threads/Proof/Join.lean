import Nachos.Threads.Proof.Reuse

/-!
# `Join` delivers the exit status

A thread leaves `JoinUpdate` only by its own step behind `JoinWait` (`threads_of_ne`: the steps of the
others do not move it). What it reads there is the exit code of the child it was called for: the
invariant says that this is the PCB it waited on, and that the child has set its code.
-/

namespace Nachos.PTable

open Base

namespace State

variable {s s' : State} {t u p : Tid} {sem : Sem} {pl : Place}

/-! ## The steps of the other threads -/

theorem setThread_of_ne (h : t ≠ u) (f : Thread → Thread) : (s.setThread u f).threads t = s.threads t :=
  Function.update_of_ne h ..

@[simp] theorem setThread_self (f : Thread → Thread) : (s.setThread t f).threads t = f (s.threads t) :=
  Function.update_self ..

theorem round_of_ne (h : t ≠ u) : (s.round u sem).threads t = s.threads t := by
  unfold round
  split
  · exact setThread_of_ne h _
  · rfl

theorem p_of_ne (h : t ≠ u) : (s.p u sem pl).threads t = s.threads t :=
  (round_of_ne h).trans (setThread_of_ne h _)

theorem goto_of_ne (h : t ≠ u) : (s.goto u pl).threads t = s.threads t := setThread_of_ne h _

theorem v_of_ne (h : t ≠ u) : (s.v u sem pl).threads t = s.threads t := by
  unfold v
  exact goto_of_ne h

theorem writeResult_of_ne (h : t ≠ u) (r : Int) : (s.writeResult u r).threads t = s.threads t :=
  setThread_of_ne h _

theorem does_of_ne (h : t ≠ u) (hf : pl.unforked ≠ some t) (hd : s.Does u pl s') :
    s'.threads t = s.threads t := by
  cases hd with
  | stop => rfl
  | p => exact p_of_ne h
  | loaded | removed => exact goto_of_ne h
  | refuse | forked => exact (writeResult_of_ne h _).trans (v_of_ne h)
  | fork =>
    rw [goto_of_ne h, fork]
    refine setThread_of_ne ?_ _
    rintro rfl
    exact hf rfl
  | joined => exact (writeResult_of_ne h _).trans (goto_of_ne h)
  | v | find | create | count | allocate | release | settle | remove => exact v_of_ne h

end State

open State

variable {s s' : State} {t : Tid}

theorem threads_of_ne {choice : Choice} (hi : s.view.Inv) (ht : s.view.place t ≠ .unborn)
    (h : choice.actor ≠ some t) (hs : step s choice = some s') : s'.threads t = s.threads t := by
  have hne : ∀ {u : Tid}, choice.actor = some u → t ≠ u := fun hu htu => h (htu ▸ hu)
  cases step_takes hs with
  | call => exact setThread_of_ne (hne rfl) _
  | round => exact round_of_ne (hne rfl)
  | @run u _ _ hd => exact does_of_ne (hne rfl) (fun hf => ht (hi.unforked u t hf)) hd
  | refuse | destroy | destroyFails | outside => rfl

/-! ## The return of `JoinUpdate` -/

namespace State

theorem p_place (sem : Sem) (pl : Place) : ((s.p t sem pl).threads t).place = pl := by
  unfold p round
  split <;> simp [enter, setThread, setSem, use]

theorem round_place (sem : Sem) : ((s.round t sem).threads t).place = (s.threads t).place := by
  unfold round
  split
  · rw [setThread_self]
    rfl
  · rfl

end State

theorem join_returns {choice : Choice} {pID : Int} {child : Entry} {pc : JoinPc} (hi : s.view.Inv)
    (hpl : (s.threads t).place = .join pID child pc) (hs : step s choice = some s')
    (hu : (s'.threads t).place = .user) : (s.threads t).waiting = none ∧
      ∃ q, pc = .joined q ∧ s' = s.joinStep t pID child (.joined q) := by
  have hub : s.view.place t ≠ .unborn := fun h => nomatch hpl.symm.trans h
  have hactor : choice.actor = some t := by
    by_contra hne
    rw [threads_of_ne hi hub hne hs, hpl] at hu
    cases hu
  cases step_takes hs with
  | call hpl' | refuse hpl' =>
    cases hactor
    cases hpl.symm.trans hpl'
  | round =>
    cases hactor
    rw [round_place, hpl] at hu
    cases hu
  | run hw hd =>
    cases hactor
    rw [hpl] at hd
    cases hd with
    | stop => cases hpl.symm.trans hu
    | p he =>
      rw [p_place] at hu
      subst hu
      cases he
    | v hr =>
      rw [v, goto, setThread_self] at hu
      cases hr
      cases hu
    | joined => exact ⟨hw, _, rfl, rfl⟩
  | destroy | destroyFails | outside => cases hactor

/-- **`Join` delivers the exit status.** In every run in which no deleted PCB is used, when
`JoinUpdate(pID)` returns to the parent of process `p`, which had the number `pID` at the call, process
`p` has executed `ExitUpdate(c)` and `c` is what the parent gets. -/
theorem join_delivers_status {env : Env} {filename : Name} {h h' : Heap} {choice : Choice × Option Tid}
    {pID : Int} {p : Tid} {pc : JoinPc} (hr : Heap.Reachable env filename h)
    (hpl : (h.state.threads t).place = .join pID (.obj p) pc)
    (hpar : (h.state.pcbs p).parent = some t) (hs : h.step choice = some h')
    (hu : (h'.state.threads t).place = .user) (hf : h'.state.freedUse = false) :
    ∃ c, (h.state.threads p).place.code = some c ∧ (h'.state.threads t).result = c := by
  obtain ⟨hf, hs⟩ := Heap.step_eq hs hf
  have hi := reachable_inv (hr.state hf)
  obtain ⟨hw, q, rfl, hs'⟩ := join_returns hi hpl hs hu
  have hk := hi.knows t
  rw [show h.state.view.place t = _ from hpl, show h.state.view.waiting t = none from hw] at hk
  obtain ⟨-, -, hsame, hcode⟩ := hk
  have hqp : q = p := hsame p rfl hpar
  subst hqp
  obtain ⟨c, hc⟩ := Option.isSome_iff_exists.1 (hcode rfl)
  refine ⟨c, hc, ?_⟩
  rw [hs', joinStep, writeResult, setThread_self]
  exact hi.code q c hc

def zeroEnv : Env := ⟨fun _ => some emptyProgram, 0, fun _ => (0, 0), fun _ => false⟩

def steps (t : Tid) (k : Nat) : List Choice := List.replicate k (.go t)

def execAndJoin : List Choice :=
  steps 0 1 ++ .call 0 (.exec []) :: steps 0 12 ++ steps 1 1 ++ .call 1 (.exit 7) :: steps 1 8 ++
    .call 0 (.join 1) :: steps 0 3

theorem join_delivers_seven : ∃ h h', Heap.Reachable zeroEnv [] h ∧
    h.step (.go 0, none) = some h' ∧ (h'.state.threads 0).place = .user ∧
      ∃ c, (h.state.threads 1).place.code = some c ∧ (h'.state.threads 0).result = c := by
  obtain ⟨h₀, h, h0, hrun, hpl, hpar, hs⟩ :=
    exists_runs_of_ok (Heap.startMainThread zeroEnv []) Heap.step (fun _ _ => True)
      (execAndJoin.map (·, none))
      (fun h => (h.state.threads 0).place = .join 1 (.obj 1) (.joined 1) ∧
        (h.state.pcbs 1).parent = some 0 ∧ (h.step (.go 0, none)).any fun h' =>
          decide ((h'.state.threads 0).place = .user ∧ h'.state.freedUse = false)) (by decide +kernel)
  obtain ⟨h', hs', hu⟩ := (Option.any_eq_true _ _).1 hs
  obtain ⟨hu, hf⟩ := of_decide_eq_true hu
  exact ⟨h, h', ⟨h₀, h0, hrun⟩, hs', hu,
    join_delivers_status ⟨h₀, h0, hrun⟩ hpl hpar hs' hu hf⟩

/-- Main executes 1, which executes 2, which executes 3. All three call `Exit`; 3 is between the `P` and
the `V` of `ExitWait` of 2 when 2 is removed. Main executes 4 in the storage of 2, and 3 does its `V`.
Now 5, a child of 4 that calls `Exit(5)`, does not have to wait for its parent: it is removed when 4 is
in `Join`, behind `JoinWait`. Main executes 6 in the storage of 5, and 6 calls `Exit(7)`. -/
def reuseTwice : List (Choice × Option Tid) :=
  let exec (t : Tid) (k : Nat) : List Choice := .call t (.exec []) :: steps t k
  (steps 0 1 ++ exec 0 12 ++ steps 1 1 ++ exec 1 12 ++ steps 2 1 ++ exec 2 12 ++ steps 3 1 ++
    .call 1 (.exit 0) :: steps 1 8 ++ .call 2 (.exit 0) :: steps 2 10 ++ .call 3 (.exit 0) :: steps 3 8 ++
    steps 2 4 ++ .destroy :: exec 0 12 ++ steps 4 1 ++ steps 3 1 ++ exec 4 12 ++ steps 5 1 ++
    .call 5 (.exit 5) :: steps 5 3 ++ .call 4 (.join 4) :: steps 4 3 ++ steps 5 10).map (·, some 2) ++
  (.destroy :: exec 0 11 ++ steps 6 1 ++ .call 6 (.exit 7) :: steps 6 3).map (·, some 5)

/-- `Join` of 5 returns what 6 has called `Exit` with. -/
theorem join_delivers_other : ∃ h h', Heap.Reachable zeroEnv [] h ∧
    (h.state.threads 4).place = .join 4 (.obj 5) (.joined 5) ∧ (h.state.pcbs 5).parent = some 4 ∧
    (h.state.threads 5).place.code = some 5 ∧ h.step (.go 4, none) = some h' ∧
    (h'.state.threads 4).place = .user ∧ (h'.state.threads 4).result = 7 := by
  obtain ⟨h₀, h, h0, hrun, hpl, hpar, hcode, hs⟩ :=
    exists_runs_of_ok (Heap.startMainThread zeroEnv []) Heap.step (fun _ _ => True) reuseTwice
      (fun h => (h.state.threads 4).place = .join 4 (.obj 5) (.joined 5) ∧
        (h.state.pcbs 5).parent = some 4 ∧ (h.state.threads 5).place.code = some 5 ∧
        (h.step (.go 4, none)).any fun h' =>
          decide ((h'.state.threads 4).place = .user ∧ (h'.state.threads 4).result = 7))
      (by decide +kernel)
  obtain ⟨h', hs', hu⟩ := (Option.any_eq_true _ _).1 hs
  exact ⟨h, h', ⟨h₀, h0, hrun⟩, hpl, hpar, hcode, hs', of_decide_eq_true hu⟩

/-- **A child is kept for its parent.** In every run in which no deleted PCB is used, a process is in its
slot of the table, and no other process has its number, until its parent has executed `ExitRelease`: the
parent can join it until then. -/
theorem child_kept {env : Env} {filename : Name} {h : Heap} {p : Tid}
    (hr : Heap.Reachable env filename h) (hf : h.state.freedUse = false) (hp : p < h.state.next)
    (hpar : (h.state.pcbs p).parent = some t) (ht : (h.state.threads t).place.released = false) :
    h.state.pcb (h.state.pcbs p).pID = .obj p ∧ ∀ q < h.state.next, (h.state.pcbs q).deleted = false →
      (h.state.pcbs q).pID = (h.state.pcbs p).pID → q = p := by
  have hi := reachable_inv (hr.state hf)
  have hng := View.not_gone_of_parent hi hpar (Bool.eq_false_iff.1 ht)
  have hentry : h.state.pcb (h.state.pcbs p).pID = .obj p := hi.entry_of_not_gone hp hng
  refine ⟨hentry, fun q hq hqd hid => ?_⟩
  cases hentry.symm.trans ((hi.entry_iff _ q).2 ⟨hq, hqd, hid⟩)
  rfl

theorem child_kept_exited : ∃ h, Heap.Reachable zeroEnv [] h ∧
    h.state.pcb (h.state.pcbs 1).pID = .obj 1 := by
  obtain ⟨h₀, h, h0, hrun, hf, hp, hpar, ht⟩ :=
    exists_runs_of_ok (Heap.startMainThread zeroEnv []) Heap.step (fun _ _ => True)
      (execAndJoin.map (·, none)) (fun h => h.state.freedUse = false ∧ 1 < h.state.next ∧
        (h.state.pcbs 1).parent = some 0 ∧ (h.state.threads 0).place.released = false)
      (by decide +kernel)
  exact ⟨h, ⟨h₀, h0, hrun⟩, (child_kept ⟨h₀, h0, hrun⟩ hf hp hpar ht).1⟩

end Nachos.PTable
