import Nachos.Threads.Proof.Arguments

/-!
# A thread that runs alone

The steps of a thread with no steps of others in between. `At s t pl` says that the kernel runs and `t` is
at `pl`, in no `P`: then its next step is the code there (`At.step`). A `P` on a semaphore with a value
is only a change of that value (`p_eq_put`), as `V` is, and both leave the rest alone.
-/

namespace Nachos.PTable

open Base Function

variable {s s' : State} {t u : Tid} {sem : Sem} {pl : Place}

/-- The kernel runs, and the thread is at `pl`. -/
structure At (s : State) (t : Tid) (pl : Place) : Prop where
  stopped : s.stopped = none
  destroyed : s.toBeDestroyed = none
  place : (s.threads t).place = pl
  waiting : (s.threads t).waiting = none

theorem step_go_eq (hstop : s.stopped = none) (hd : s.toBeDestroyed = none) :
    step s (.go t) = s.go t := by
  unfold step
  rw [hstop, hd]
  rfl

theorem At.step_eq (h : At s t pl) : step s (.go t) = s.run t pl := by
  rw [step_go_eq h.stopped h.destroyed]
  unfold State.go
  rw [h.waiting, h.place]

theorem At.call_eq (h : At s t pl) (c : Call) : step s (.call t c) = s.call t c := by
  unfold step
  rw [h.stopped, h.destroyed]
  rfl

/-! ## Semaphores -/

namespace State

def put (s : State) (t : Tid) (sem : Sem) (x : Semaphore Nat) (pl : Place) : State :=
  ((s.use sem.owner).setSem sem x).goto t pl

theorem v_eq_put : s.v t sem pl = s.put t sem (s.sems sem).v.1 pl := rfl

theorem round_enter_eq_put (h : (s.sems sem).value ≠ 0) : (s.enter t sem pl).round t sem =
    s.put t sem (s.sems sem).decrement pl := by
  have hp : ((s.enter t sem pl).sems sem).p t = ((s.sems sem).decrement, true) := if_neg h
  unfold round
  rw [hp]
  simp [put, goto, enter, setThread, setSem, use]

theorem p_eq_put (h : (s.sems sem).value ≠ 0) : s.p t sem pl = s.put t sem (s.sems sem).decrement pl :=
  round_enter_eq_put h

theorem round_eq_put (h : (s.sems sem).value ≠ 0) : s.round t sem =
    s.put t sem (s.sems sem).decrement (s.threads t).place := by
  have hp : (s.sems sem).p t = ((s.sems sem).decrement, true) := if_neg h
  unfold round
  rw [hp]
  rfl

def wait (s : State) (t : Tid) (sem : Sem) (pl : Place) : State :=
  ((s.enter t sem pl).use sem.owner).setSem sem ((s.sems sem).append t)

theorem p_eq_wait (h : (s.sems sem).value = 0) : s.p t sem pl = s.wait t sem pl := by
  have hp : ((s.enter t sem pl).sems sem).p t = ((s.sems sem).append t, false) := if_pos h
  unfold p round
  rw [hp]
  rfl

theorem wait_threads : (s.wait t sem pl).threads t = { s.threads t with place := pl, waiting := some sem } :=
  update_self ..

theorem wait_sems_self : (s.wait t sem pl).sems sem = (s.sems sem).append t :=
  update_self ..

theorem wait_sems_of_ne {sem' : Sem} (h : sem' ≠ sem) : (s.wait t sem pl).sems sem' = s.sems sem' :=
  update_of_ne h ..

theorem wait_value (sem' : Sem) : ((s.wait t sem pl).sems sem').value = (s.sems sem').value := by
  by_cases h : sem' = sem
  · rw [h, wait_sems_self]
    rfl
  · rw [wait_sems_of_ne h]

theorem wait_go : (s.wait t sem pl).go t = none := by
  have hq : t ∈ ((s.wait t sem pl).sems sem).queue := by
    rw [wait_sems_self]
    exact List.mem_append_right _ (List.mem_singleton_self t)
  unfold go
  rw [wait_threads]
  exact if_pos hq

theorem put_sems_self (x : Semaphore Nat) : (s.put t sem x pl).sems sem = x :=
  update_self ..

theorem put_sems_of_ne {sem' : Sem} (h : sem' ≠ sem) (x : Semaphore Nat) :
    (s.put t sem x pl).sems sem' = s.sems sem' :=
  update_of_ne h ..

end State

theorem at_put (hstop : s.stopped = none) (hd : s.toBeDestroyed = none) (sem : Sem) (x : Semaphore Nat)
    (pl' : Place) : At (s.put t sem x pl') t pl' where
  stopped := hstop
  destroyed := hd
  place := by simp [State.put, State.goto]
  waiting := by simp [State.put, State.goto]

theorem At.writeResult (h : At s t pl) (r : Int) : At (s.writeResult t r) t pl where
  stopped := h.stopped
  destroyed := h.destroyed
  place := by rw [State.writeResult, State.setThread_self, h.place]
  waiting := by rw [State.writeResult, State.setThread_self, h.waiting]

end Nachos.PTable
