import Nachos.Base.Runs
import Nachos.Threads.Proof.Moves

/-!
# The scheduler under interrupts

Every move keeps the invariant of `Moves.lean`. It follows for all runs, of any number of threads and
with interrupts at every tick, that a thread is in one place (`scheduler_invariant`), that the ready
list is served in order, that no assertion about the interrupt level fails, and that `P`, `V`, `Fork`
and `Yield` return with the level they were entered with.
-/

namespace Nachos.Threads

open Base Function

/-! ## Threads that are not forked yet -/

namespace Queues

def Fresh (q : Queues) : Prop := ∀ t, q.status t = .justCreated → q.finished t = false

variable {q : Queues} {t u : Tid}

theorem status_of_running (h : q.place t = .running) : q.status t = .running := by
  rw [place, finished_of_place h (by simp)] at h
  cases hs : q.status t <;> simp_all [ThreadStatus.place]

theorem created_of_setStatus (status : ThreadStatus) (hs : status ≠ .justCreated)
    (h : (q.setStatus u status).status t = .justCreated) : q.status t = .justCreated := by
  by_cases htu : t = u
  · subst htu
    simp only [setStatus, update_self] at h
    exact absurd h hs
  · simpa only [setStatus, update_of_ne htu] using h

theorem created_of_makeReady (h : (q.makeReady u).status t = .justCreated) :
    q.status t = .justCreated :=
  created_of_setStatus .ready (by simp) h

theorem created_of_post {k : SemId} (h : (q.post k).status t = .justCreated) :
    q.status t = .justCreated := by
  unfold post at h
  dsimp only at h
  split at h
  · exact h
  · exact created_of_makeReady (q := q.setSem k _) h

theorem created_of_acts {actions : List State.Action}
    (h : (actions.foldl act q).status t = .justCreated) : q.status t = .justCreated := by
  induction actions generalizing q with
  | nil => exact h
  | cons a actions ih =>
    have hq := ih h
    cases a with
    | v n => exact created_of_post hq
    | yieldOnReturn => exact hq

theorem Fresh.setStatus (h : q.Fresh) (status : ThreadStatus) (hs : status ≠ .justCreated)
    (t : Tid) : (q.setStatus t status).Fresh := by
  intro u hu
  by_cases hut : u = t
  · subst hut
    simp only [Queues.setStatus, update_self] at hu
    exact absurd hu hs
  · simp only [Queues.setStatus, update_of_ne hut] at hu
    exact h u hu

theorem Fresh.makeReady (h : q.Fresh) (t : Tid) : (q.makeReady t).Fresh :=
  h.setStatus .ready (by simp) t

theorem Fresh.post (h : q.Fresh) (k : SemId) : (q.post k).Fresh := by
  unfold Queues.post
  dsimp only
  split
  · exact h
  · exact Fresh.makeReady (q := q.setSem k _) h _

theorem Fresh.acts (h : q.Fresh) (actions : List State.Action) : (actions.foldl act q).Fresh := by
  induction actions generalizing q with
  | nil => exact h
  | cons a actions ih =>
    apply ih
    cases a with
    | v n => exact h.post (.sem n)
    | yieldOnReturn => exact h

theorem Fresh.finish (h : q.Fresh) (t : Tid) :
    ({ q with finished := update q.finished t true }.setStatus t .blocked).Fresh := by
  intro u hu
  by_cases hut : u = t
  · subst hut
    simp [Queues.setStatus] at hu
  · simp only [Queues.setStatus, update_of_ne hut] at hu ⊢
    exact h u hu

theorem removeFront_makeReady {ts : List Tid} (h : q.readyList = t :: ts) :
    q.removeFront.makeReady u = (q.makeReady u).removeFront := by
  simp [removeFront, makeReady, setStatus, h]

end Queues

/-! ## The pieces of a move -/

variable {s : State} {code : List Frame} {mode : Mode}

@[simp] theorem State.code_goto (s : State) (code : List Frame) : (s.goto code).code = code := by
  simp [State.code, State.goto]

theorem State.stack_goto_of_ne {t : Tid} (h : t ≠ s.currentThread) :
    (s.goto code).stack t = s.stack t := update_of_ne h _ _

theorem Fits.canRun {level : IntStatus} {status : MachineStatus}
    (h : Fits mode code level status) : CanRun mode code level status := by
  unfold CanRun
  split
  · exact h.elim
  · exact h

theorem Parked.fits (h : Parked mode code) : Fits mode code .intOff .systemMode := by
  cases h with
  | switched out hf => exact ⟨rfl, rfl, hf⟩
  | begin => exact ⟨rfl, rfl, rfl⟩

theorem Others.goto (h : Others s) (code : List Frame) : Others (s.goto code) where
  parked t ht := by
    rw [State.stack_goto_of_ne (show t ≠ s.currentThread from ht)]
    exact h.parked t ht
  fresh := h.fresh
  forked := h.forked
  inHandler := h.inHandler

theorem inv_goto (h : Others s) (hb : s.queues.board.Inv (some s.currentThread))
    (hf : Fits (s.mode s.currentThread) code s.level s.status) : Inv (s.goto code) where
  toOthers := h.goto code
  board := by
    rw [State.occupant_eq]
    · exact hb
    · intro f rest
      rw [State.code_goto]
      exact hf.not_sleeping rest
  current := by
    rw [State.code_goto]
    exact hf.canRun

theorem inv_sleep (h : Others s) (hb : s.queues.board.Inv none) (hl : s.level = .intOff)
    (hs : s.status = .systemMode) (f : Bool)
    (hf : Fits (s.mode s.currentThread) code .intOff .systemMode) :
    Inv (s.goto (.sleeping f :: code)) where
  toOthers := h.goto _
  board := by
    rw [State.occupant_sleeping (State.code_goto _ _)]
    exact hb
  current := by
    rw [State.code_goto]
    exact ⟨hl, hs, hf⟩

theorem inv_switchTo (h : Others s) {nextThread : Tid} (f : Bool) (hl : s.level = .intOff)
    (hs : s.status = .systemMode)
    (hb : (s.queues.setStatus nextThread .running).board.Inv (some nextThread))
    (hf : Fits (s.mode s.currentThread) code .intOff .systemMode) :
    Inv (s.switchTo nextThread f code) := by
  have hparked (t : Tid) :
      Parked (s.mode t) (update s.stack s.currentThread (.switched s.cpu :: code) t) := by
    by_cases ht : t = s.currentThread
    · subst ht
      rw [update_self]
      exact .switched _ hf
    · rw [update_of_ne ht]
      exact h.parked t ht
  have hnext : Fits (s.mode nextThread) (s.switchTo nextThread f code).code .intOff .systemMode :=
    (hparked nextThread).fits
  refine ⟨⟨fun t _ => hparked t, Queues.Fresh.setStatus h.fresh _ (by simp) nextThread,
    ?_, h.inHandler⟩, ?_, ?_⟩
  · simp [State.switchTo, Queues.setStatus]
  · rw [State.occupant_eq]
    · exact hb
    · exact fun g rest => hnext.not_sleeping rest
  · have hc := hnext.canRun
    rw [← hl, ← hs] at hc
    exact hc

theorem inv_tested (h : Others s) (hb : s.queues.board.Inv (some s.currentThread))
    (hl : s.level = .intOff) (hs : s.status = .systemMode) (k : SemId) {oldLevel : IntStatus}
    (hf : Fits (s.mode s.currentThread) code oldLevel .systemMode) :
    Inv (s.tested k oldLevel code) := by
  have hrun : s.queues.place s.currentThread = .running := (hb.running _).2 rfl
  have hfin : s.queues.finished s.currentThread = false := Queues.finished_of_place hrun (by simp)
  unfold State.tested
  split
  · apply inv_sleep
    · exact ⟨h.parked, Queues.Fresh.setStatus (q := s.queues.setSem k _) h.fresh _ (by simp) _,
        by simp [Queues.setStatus], h.inHandler⟩
    · rw [Queues.board_wait hfin]
      exact hb.wait k
    · exact hl
    · exact hs
    · exact ⟨rfl, rfl, hf⟩
  · apply inv_goto
    · exact ⟨h.parked, h.fresh, h.forked, h.inHandler⟩
    · rw [Queues.board_setSem (by rfl)]
      exact hb
    · rw [show s.status = _ from hs]
      exact hf

theorem inv_entered (h : Others s) (hb : s.queues.board.Inv (some s.currentThread))
    (hs : s.status = .systemMode) (k : SemId)
    (hf : Fits (s.mode s.currentThread) code s.level .systemMode) : Inv (s.entered k code) := by
  unfold State.entered
  apply inv_tested
  · exact ⟨h.parked, h.fresh, h.forked, h.inHandler⟩
  · exact hb
  · rfl
  · exact hs
  · exact ⟨rfl, hf⟩

theorem inv_posted (h : Others s) (hb : s.queues.board.Inv (some s.currentThread)) (k : SemId)
    (hf : Fits (s.mode s.currentThread) code s.level s.status) : Inv (s.posted k code) := by
  unfold State.posted
  apply inv_goto
  · exact ⟨h.parked, Queues.Fresh.post h.fresh k, fun hc => h.forked (Queues.created_of_post hc),
      h.inHandler⟩
  · rw [Queues.board_post hb]
    exact hb.wake k
  · exact ⟨rfl, hf⟩

theorem inv_yieldTo (h : Others s) (hb : s.queues.board.Inv (some s.currentThread))
    (hs : s.status = .systemMode)
    (hf : Fits (s.mode s.currentThread) code s.level .systemMode) : Inv (s.yieldTo code) := by
  have hrun : s.queues.board.place s.currentThread = .running := (hb.running _).2 rfl
  have hfin : s.queues.finished s.currentThread = false := Queues.finished_of_place hrun (by simp)
  unfold State.yieldTo
  split
  · apply inv_goto
    · exact ⟨h.parked, h.fresh, h.forked, h.inHandler⟩
    · exact hb
    · rw [show s.status = _ from hs]
      exact ⟨rfl, hf⟩
  · rename_i nextThread rest hr
    have hready : (s.queues.makeReady s.currentThread).board.Inv none := by
      rw [Queues.board_makeReady hfin]
      have hm := hb.makeReady (t := s.currentThread) (by simp [hrun]) (by simp [hrun])
      rwa [if_pos rfl] at hm
    have hq : (s.queues.makeReady s.currentThread).readyList =
        nextThread :: (rest ++ [s.currentThread]) := by
      simp [Queues.makeReady, hr]
    apply inv_switchTo
    · refine ⟨h.parked, ?_, by simp [Queues.makeReady, Queues.setStatus], h.inHandler⟩
      exact Queues.Fresh.makeReady (q := s.queues.removeFront) h.fresh _
    · rfl
    · exact hs
    · rw [Queues.removeFront_makeReady hr, Queues.board_dispatch hready hq]
      exact hready.dispatch hq
    · exact ⟨rfl, hf⟩

theorem inv_leveled (h : Others s) (hb : s.queues.board.Inv (some s.currentThread))
    {now : IntStatus} (hf : Fits (s.mode s.currentThread) code now s.status) :
    Inv (s.leveled now code) := by
  unfold State.leveled
  apply inv_goto
  · exact ⟨h.parked, h.fresh, h.forked, h.inHandler⟩
  · exact hb
  · split
    · rename_i ht
      rw [ht.1] at hf
      exact hf
    · exact hf

theorem Mode.status_of_ne_user (h : mode ≠ .user) : mode.status = .systemMode := by
  cases mode with
  | user => exact absurd rfl h
  | kernel => rfl
  | exception => rfl

theorem Others.setMode (h : Others s) (mode : Mode) : Others (s.setMode mode) where
  parked t ht := by
    have hm : (s.setMode mode).mode t = s.mode t := update_of_ne ht _ _
    rw [hm]
    exact h.parked t ht
  fresh := h.fresh
  forked := h.forked
  inHandler := h.inHandler

theorem inv_setMode (h : Others s) (hb : s.queues.board.Inv (some s.currentThread))
    (hc : s.code = []) (hs : s.status = mode.status) : Inv (s.setMode mode) where
  toOthers := h.setMode mode
  board := by
    rw [State.occupant_eq]
    · exact hb
    · intro f rest
      rw [show (s.setMode mode).code = [] from hc]
      simp
  current := by
    have hm : (s.setMode mode).mode s.currentThread = mode := update_self ..
    show CanRun ((s.setMode mode).mode s.currentThread) s.code s.level s.status
    rw [hm, hc]
    exact hs

/-! ## The moves -/

theorem interrupted_others (h : Others s) (due : Option (List State.Action)) :
    Others (s.interrupted due) := by
  cases due with
  | none => exact h
  | some actions =>
    exact ⟨h.parked, Queues.Fresh.acts h.fresh actions,
      fun hc => h.forked (Queues.created_of_acts hc), h.inHandler⟩

theorem move_inv {s' : State} (h : Inv s) (hm : Move s s') : Inv s' := by
  cases hm with
  | returned hc =>
    obtain ⟨hb, -, hf⟩ := h.top hc (by simp)
    exact inv_goto h.toOthers hb hf
  | setLevel hc =>
    obtain ⟨hb, hf⟩ := h.top hc (by simp)
    exact inv_leveled h.toOthers hb hf
  | @oneTick code due hc hy =>
    obtain ⟨hb, hf⟩ := h.top hc (by simp)
    have ho := interrupted_others h.toOthers due
    have hb' := State.interrupted_board hb due
    cases due <;> exact inv_goto ⟨ho.parked, ho.fresh, ho.forked, ho.inHandler⟩ hb' hf
  | @tickYield code due hc hy =>
    obtain ⟨hb, hf⟩ := h.top hc (by simp)
    have ho := interrupted_others h.toOthers due
    have hb' := State.interrupted_board hb due
    cases due <;>
      exact inv_yieldTo ⟨ho.parked, ho.fresh, ho.forked, ho.inHandler⟩ hb' rfl ⟨rfl, rfl, hf⟩
  | yielded hc =>
    obtain ⟨hb, hl, -, hf⟩ := h.top hc (by simp)
    rw [← hl] at hf
    exact inv_goto ⟨h.parked, h.fresh, h.forked, h.inHandler⟩ hb hf
  | slept hc =>
    obtain ⟨hb, hl, hs, hf⟩ := h.top hc (by simp)
    apply inv_tested
    · exact ⟨h.parked, h.fresh, h.forked, h.inHandler⟩
    · rw [Queues.board_setSem (by rfl)]
      exact hb
    · exact hl
    · exact hs
    · exact hf
  | idle hc hr =>
    obtain ⟨hb, hl, hs, hf⟩ := h.asleep hc
    refine ⟨⟨h.parked, Queues.Fresh.acts h.fresh _,
      fun hc => h.forked (Queues.created_of_acts hc), h.inHandler⟩, ?_, ?_⟩
    · rw [State.occupant_sleeping (by exact hc)]
      exact Queues.acts_inv hb _
    · show CanRun (s.mode s.currentThread) s.code s.level .systemMode
      rw [hc]
      exact ⟨hl, rfl, hf⟩
  | switch hc hr =>
    obtain ⟨hb, hl, hs, hf⟩ := h.asleep hc
    apply inv_switchTo
    · exact ⟨h.parked, h.fresh, h.forked, h.inHandler⟩
    · exact hl
    · exact hs
    · rw [Queues.board_dispatch hb hr]
      exact hb.dispatch hr
    · exact hf
  | switched hc =>
    obtain ⟨hb, hl, hs, hf⟩ := h.top hc (by simp)
    exact inv_goto h.toOthers hb ⟨hl, hs, rfl, rfl, hf⟩
  | restore hc =>
    obtain ⟨hb, hf⟩ := h.top hc (by simp)
    exact inv_goto ⟨h.parked, h.fresh, h.forked, h.inHandler⟩ hb hf
  | resumed hc | noneDestroyed hc hd =>
    obtain ⟨hb, hl, hs, hf⟩ := h.top hc (by simp)
    rw [← hl, ← hs] at hf
    exact inv_goto h.toOthers hb hf
  | begin hc =>
    obtain ⟨hb, hl, hs, hf⟩ := h.top hc (by simp)
    exact inv_goto h.toOthers hb ⟨hl, hs, hf⟩
  | destroyed hc hd hsp | deleted hc =>
    obtain ⟨hb, hl, hs, hf⟩ := h.top hc (by simp)
    rw [← hl, ← hs] at hf
    exact inv_goto ⟨h.parked, h.fresh, h.forked, h.inHandler⟩ hb hf
  | destroy hc hd hsp =>
    obtain ⟨hb, hl, hs, hf⟩ := h.top hc (by simp)
    exact inv_entered h.toOthers hb hs _ ⟨hl, rfl, hf⟩
  | clearSpace hc =>
    obtain ⟨hb, hl, hs, hf⟩ := h.top hc (by simp)
    exact inv_posted h.toOthers hb _ ⟨hl, hs, hf⟩
  | @fork t hc hm hs =>
    obtain ⟨hb, hst⟩ := h.own hc
    have hp : s.queues.board.place t = .fresh := by
      show s.queues.place t = .fresh
      rw [Queues.place, h.fresh t hs, hs]
      rfl
    have hne : some s.currentThread ≠ some t := by
      rintro ⟨rfl⟩
      rw [(hb.running _).2 rfl] at hp
      cases hp
    apply inv_goto
    · exact ⟨h.parked, Queues.Fresh.makeReady h.fresh t,
        fun hc => h.forked (Queues.created_of_makeReady hc), h.inHandler⟩
    · rw [Queues.board_makeReady (h.fresh t hs)]
      have hr := hb.makeReady (t := t) (by simp [hp]) (by simp [hp])
      rwa [if_neg hne] at hr
    · exact ⟨rfl, hst⟩
  | yield hc hm =>
    obtain ⟨hb, hst⟩ := h.own hc
    have hsys := Mode.status_of_ne_user hm
    exact inv_yieldTo h.toOthers hb (hst.trans hsys) hsys.symm
  | p hc hm =>
    obtain ⟨hb, hst⟩ := h.own hc
    have hsys := Mode.status_of_ne_user hm
    exact inv_entered h.toOthers hb (hst.trans hsys) _ hsys.symm
  | v hc hm =>
    obtain ⟨hb, hst⟩ := h.own hc
    exact inv_posted h.toOthers hb _ hst
  | finish hc hm =>
    obtain ⟨hb, hst⟩ := h.own hc
    have hsys := Mode.status_of_ne_user hm
    apply inv_sleep
    · exact ⟨h.parked, Queues.Fresh.finish h.fresh _, by simp [Queues.setStatus], h.inHandler⟩
    · rw [Queues.board_retire]
      exact hb.retire
    · rfl
    · exact hst.trans hsys
    · exact hsys.symm
  | ownLevel hc hm =>
    obtain ⟨hb, hst⟩ := h.own hc
    exact inv_leveled h.toOthers hb hst
  | setSpace hc hm hs | writeRegisters hc hm =>
    exact ⟨⟨h.parked, h.fresh, h.forked, h.inHandler⟩, h.board, h.current⟩
  | execute hc hm | raise hc hm =>
    apply inv_setMode
    · exact ⟨h.parked, h.fresh, h.forked, h.inHandler⟩
    · exact (h.own hc).1
    · exact hc
    · rfl
  | instruction hc hm =>
    obtain ⟨hb, hst⟩ := h.own hc
    exact inv_goto ⟨h.parked, h.fresh, h.forked, h.inHandler⟩ hb hst
  | handled hc hm =>
    obtain ⟨hb, -⟩ := h.own hc
    apply inv_goto
    · apply Others.setMode
      exact ⟨h.parked, h.fresh, h.forked, h.inHandler⟩
    · exact hb
    · simp [Fits, State.setMode, State.setRegisters, Mode.status]

/-! ## Runs -/

def Reachable (initial : SemId → Word) (cpu : Cpu) (s : State) : Prop :=
  Runs step (fun _ _ => True) (start initial cpu) s

theorem step_inv {s' : State} {choice : Choice} (h : Inv s) (hs : step s choice = some s') :
    Inv s' := by
  rcases step_cases h hs with hm | ⟨reason, rfl⟩
  · exact move_inv h hm
  · exact ⟨⟨h.parked, h.fresh, h.forked, h.inHandler⟩, h.board, h.current⟩

theorem place_start (initial : SemId → Word) (cpu : Cpu) (t : Tid) :
    (start initial cpu).queues.place t = if t = 0 then .running else .fresh := by
  by_cases ht : t = 0
  · subst ht
    rfl
  · simp [Queues.place, start, ht, ThreadStatus.place]

theorem start_inv (initial : SemId → Word) (cpu : Cpu) : Inv (start initial cpu) where
  parked t ht := by
    have hstack : (start initial cpu).stack t = [.begin] := by
      simp [start, show t ≠ 0 from ht]
    rw [hstack]
    exact .begin
  fresh := fun _ _ => rfl
  forked := by simp [start]
  inHandler := rfl
  board := by
    have hplace := place_start initial cpu
    refine ⟨?_, ?_, List.nodup_nil, ?_, fun _ => List.nodup_nil, nofun, rfl⟩
    · intro t
      show (start initial cpu).queues.place t = .running ↔ some 0 = some t
      rw [hplace]
      by_cases ht : t = 0
      · simp [ht]
      · simp [ht, Ne.symm ht]
    · intro t
      show t ∈ [] ↔ (start initial cpu).queues.place t = .ready
      rw [hplace]
      by_cases ht : t = 0 <;> simp [ht]
    · intro t
      show (∃ k : SemId, t ∈ []) ↔ (start initial cpu).queues.place t = .waiting
      rw [hplace]
      by_cases ht : t = 0 <;> simp [ht]
  current := rfl

theorem reachable_inv {initial : SemId → Word} {cpu : Cpu} (h : Reachable initial cpu s) : Inv s :=
  Runs.invariant h (start_inv initial cpu) fun _ _ _ hi _ hs => step_inv hi hs

/-! ## The scheduler's invariant -/

namespace State

/-- The thread runs. In the loop of `Sleep` `currentThread` is a blocked thread, or one that is ready
again. -/
def Running (s : State) (t : Tid) : Prop :=
  s.currentThread = t ∧ s.queues.status t = .running

/-- The thread runs, or is on the ready list once with status `READY`, or is on one semaphore's queue
once with status `BLOCKED`; and it is only one of these. -/
def InOnePlace (s : State) (t : Tid) : Prop :=
  (s.Running t ∧ t ∉ s.queues.readyList ∧ ∀ k, t ∉ (s.queues.sems k).queue) ∨
  (¬ s.Running t ∧ s.queues.status t = .ready ∧ s.queues.readyList.count t = 1 ∧
    ∀ k, t ∉ (s.queues.sems k).queue) ∨
  (¬ s.Running t ∧ s.queues.status t = .blocked ∧ t ∉ s.queues.readyList ∧
    ∃ k, (s.queues.sems k).queue.count t = 1 ∧ ∀ k', k' ≠ k → t ∉ (s.queues.sems k').queue)

end State

theorem Inv.inOnePlace (h : Inv s) {t : Tid} (hforked : s.queues.status t ≠ .justCreated)
    (hfin : s.queues.finished t = false) : s.InOnePlace t := by
  have hplace : s.queues.board.place t = (s.queues.status t).place := by
    show s.queues.place t = _
    rw [Queues.place, hfin]
    rfl
  have hf : s.queues.board.place t ≠ .fresh := by
    rw [hplace]
    cases hst : s.queues.status t <;> simp_all [ThreadStatus.place]
  have hr : s.queues.board.place t ≠ .retired := by
    rw [hplace]
    cases s.queues.status t <;> simp [ThreadStatus.place]
  rcases h.board.exactly_one hf hr with ⟨hcpu, hp, hl, hq⟩ | ⟨-, hp, hl, hq⟩ | ⟨-, hp, hl, hq⟩
  · have hcur : s.currentThread = t := by
      unfold State.occupant at hcpu
      split at hcpu
      · cases hcpu
      · exact Option.some.inj hcpu
    rw [hplace] at hp
    refine .inl ⟨⟨hcur, ?_⟩, hl, hq⟩
    cases hst : s.queues.status t <;> simp_all [ThreadStatus.place]
  · rw [hplace] at hp
    have hst : s.queues.status t = .ready := by
      cases hst : s.queues.status t <;> simp_all [ThreadStatus.place]
    exact .inr (.inl ⟨fun hrun => by simp [hrun.2] at hst, hst, hl, hq⟩)
  · rw [hplace] at hp
    have hst : s.queues.status t = .blocked := by
      cases hst : s.queues.status t <;> simp_all [ThreadStatus.place]
    exact .inr (.inr ⟨fun hrun => by simp [hrun.2] at hst, hst, hl, hq⟩)

def levelAssertions : List Assertion :=
  [.readyToRun, .findNextToRun, .run, .sleep, .checkIfDue, .setLevel]

/-- **The scheduler's invariant.** In every state of every run each forked thread that has not finished
is in one place, the threads have been taken off the ready list in the order in which they became
ready, no step fails an assertion about the interrupt level, and a call of `P`, `V`, `Fork` or `Yield`
returns with the level it was entered with. -/
theorem scheduler_invariant {initial : SemId → Word} {cpu : Cpu} {s : State}
    (h : Reachable initial cpu s) :
    (∀ t, s.queues.status t ≠ .justCreated → s.queues.finished t = false → s.InOnePlace t) ∧
    s.queues.readied = s.queues.served ++ s.queues.readyList ∧
    (∀ choice a, s.next choice = some (.error (.assertion a)) → a ∉ levelAssertions) ∧
    ∀ entered code, s.code = .returned entered :: code → s.level = entered := by
  have hi := reachable_inv h
  refine ⟨fun t => hi.inOnePlace, hi.board.fifo, ?_, ?_⟩
  · intro choice a hn
    cases next_outcome hi hn with
    | stops he =>
      rcases he with he | he | he
      · cases he
      · cases he
        decide
      · cases he
        decide
  · intro entered code hc
    exact (hi.top hc (by simp)).2.1

def forkAndWait : List Choice :=
  [.call (.setLevel .intOn), .go none, .call (.fork 1), .go none, .go (some [.yieldOnReturn]),
    .go none, .go none, .go none, .go none, .call (.p (.sem 0))]

theorem scheduler_invariant_forkAndWait : ∃ s, Reachable 0 ⟨0, none, 0⟩ s ∧
    s.queues.status 1 = .blocked ∧ s.InOnePlace 1 ∧
    s.queues.readied = s.queues.served ++ s.queues.readyList := by
  obtain ⟨s, hrun, hb, hf⟩ := exists_runs step (fun _ _ => True) (start 0 ⟨0, none, 0⟩) forkAndWait
    (fun s => s.queues.status 1 = .blocked ∧ s.queues.finished 1 = false) (by decide +kernel)
  obtain ⟨hplace, hfifo, -⟩ := scheduler_invariant hrun
  exact ⟨s, hrun, hb, hplace 1 (by simp [hb]) hf, hfifo⟩

end Nachos.Threads
