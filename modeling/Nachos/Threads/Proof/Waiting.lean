import Nachos.Threads.Proof.Join

/-!
# What a thread waits for

A thread that is still in a `P` waits for the semaphore of the `P` before its place (`step_waits`).
-/

namespace Nachos.PTable

open Base

/-! ## The semaphore before a place -/

def ExecPc.entered : ExecPc → Option Sem
  | .finding | .creating _ => some .bmsem
  | .incNumWait parent _ _ => some (.multex parent)
  | .firstChild parent _ _ => some (.shouldExit parent)
  | .opening p _ => some (.multex p)
  | .allocating .. => some .addrLock
  | _ => none

def JoinPc.entered : JoinPc → Option Sem
  | .checking => some .bmsem
  | .checked _ => none
  | .joined q => some (.joinsem q)

def ExitPc.entered (t : Tid) : ExitPc → Option Sem
  | .checking | .removing => some .bmsem
  | .decNumWait _ parent => some (.multex parent)
  | .accepted _ parent => some (.exitsem parent)
  | .exited => some (.shouldExit t)
  | _ => none

def Place.entered (t : Tid) : Place → Option Sem
  | .copying _ => some .addrLock
  | .exec _ _ pc => pc.entered
  | .join _ _ pc => pc.entered
  | .exit _ pc => pc.entered t
  | _ => none

def Thread.Waits (t : Tid) (thread : Thread) : Prop :=
  ∀ sem, thread.waiting = some sem → thread.place.entered t = some sem

namespace State

def Waits (s : State) : Prop := ∀ t, (s.threads t).Waits t

variable {s s' : State} {t p : Tid} {sem : Sem} {pl : Place}

/-! ## The steps of a thread -/

theorem waits_setThread {f : Thread → Thread} (h : s.Waits) (hf : (f (s.threads t)).Waits t) :
    (s.setThread t f).Waits :=
  (Function.forall_update_iff s.threads fun u thread => thread.Waits u).2 ⟨hf, fun u _ => h u⟩

theorem waits_goto (h : s.Waits) : (s.goto t pl).Waits := waits_setThread h nofun

theorem waits_enter (h : s.Waits) (hpl : pl.entered t = some sem) : (s.enter t sem pl).Waits := by
  refine waits_setThread h ?_
  rintro _ ⟨⟩
  exact hpl

theorem waits_writeResult (h : s.Waits) (r : Int) : (s.writeResult t r).Waits := waits_setThread h (h t)

theorem waits_round (h : s.Waits) : (s.round t sem).Waits := by
  unfold round
  split
  · exact waits_setThread (s := (s.use sem.owner).setSem sem _) h nofun
  · exact h

theorem waits_p (h : s.Waits) (hpl : pl.entered t = some sem) : (s.p t sem pl).Waits :=
  waits_round (waits_enter h hpl)

theorem waits_v (h : s.Waits) : (s.v t sem pl).Waits :=
  waits_goto (s := (s.use sem.owner).setSem sem _) h

theorem waits_fork {i : Nat} {space : AddrSpace} {noffH : NoffHeader} (h : s.Waits) :
    (s.fork p i space noffH).Waits := by
  rw [fork]
  refine waits_setThread h fun _ hw => ?_
  cases hw

theorem enters_entered {pl' : Place} (hi : s.view.Inv) (hpl : (s.threads t).place = pl)
    (he : s.Enters t pl sem pl') : pl'.entered t = some sem := by
  have hk : s.view.Knows t _ (s.threads t).place := hi.knows t
  rw [hpl] at hk
  cases he with
  | leaveMain | leave =>
    obtain ⟨rfl, -⟩ := hk
    rfl
  | _ => rfl

theorem does_waits (h : s.Waits) (hi : s.view.Inv) (hpl : (s.threads t).place = pl)
    (hd : s.Does t pl s') : s'.Waits := by
  cases hd with
  | stop => exact h
  | p he => exact waits_p h (enters_entered hi hpl he)
  | v => exact waits_v h
  | loaded | removed => exact waits_goto h
  | @find _ _ _ bm => exact waits_v (s := { s with bm }) h
  | refuse | forked => exact waits_writeResult (waits_v h) _
  | create => exact waits_v (s := s.newPCB t _ _) h
  | count | settle => exact waits_v (s := s.addNumwait _ _) h
  | @allocate _ _ _ _ _ _ _ gPhysPageBitMap => exact waits_v (s := { s with gPhysPageBitMap }) h
  | fork => exact waits_goto (waits_fork h)
  | @joined _ _ q => exact waits_writeResult (waits_goto (s := s.use (some q)) h) _
  | release => exact waits_v (s := s.setExitCode _ _) h
  | remove => exact waits_v (s := setPCB _ _ _) h

end State

open State

variable {s s' : State}

theorem step_waits {choice : Choice} (h : s.Waits) (hi : s.view.Inv) (hs : step s choice = some s') :
    s'.Waits := by
  cases step_takes hs with
  | call _ hb => exact waits_enter h (by cases hb <;> rfl)
  | round => exact waits_round h
  | run _ hd => exact does_waits h hi rfl hd
  | refuse | destroy | destroyFails | outside => exact h

theorem start_waits {env : Env} {filename : Name} (hs : startMainThread env filename = .ok s) :
    s.Waits := by
  obtain ⟨bm, frames, space, noffH, rfl, -⟩ := start_ok hs
  exact waits_fork fun _ => nofun

end Nachos.PTable
