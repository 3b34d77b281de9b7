import Nachos.Base.Dispatch
import Nachos.Threads.Thread

/-!
# The moves of the kernel threads

What a step of the kernel can do, read off `Threads.step` once (`next_cases`). The invariant that it
needs has two parts. The lists and statuses form a dispatcher's board in order (`Queues.board`). And
the code on each thread's stack fits the interrupt level and the machine's status that it will be run
at (`Fits`): the code of the current thread fits the state as it is, that of the others fits a return
from `SWITCH`. Under it none of the assertions on the level or on lists fails, and `Move` says which
states the step can lead to.
-/

namespace Nachos.Threads

open Base Function

/-! ## The board -/

def ThreadStatus.place : ThreadStatus → Place
  | .justCreated => .fresh
  | .running => .running
  | .ready => .ready
  | .blocked => .waiting

namespace Queues

def place (q : Queues) (t : Tid) : Place :=
  if q.finished t then .retired else (q.status t).place

def board (q : Queues) : Board Tid SemId :=
  ⟨q.readyList, fun k => (q.sems k).queue, q.place, q.readied, q.served⟩

variable {q : Queues} {t : Tid} {cpu : Option Tid}

theorem finished_of_place {p : Place} (h : q.place t = p) (hp : p ≠ .retired) :
    q.finished t = false := by
  unfold place at h
  split at h
  · exact absurd h.symm hp
  · rename_i hf
    exact Bool.eq_false_iff.2 hf

theorem place_setStatus (h : q.finished t = false) (status : ThreadStatus) :
    (q.setStatus t status).place = update q.place t status.place := by
  funext u
  by_cases hu : u = t
  · subst hu
    simp [place, setStatus, h]
  · simp [place, setStatus, hu]

theorem board_makeReady (h : q.finished t = false) :
    (q.makeReady t).board = q.board.makeReady t :=
  Board.ext rfl rfl (place_setStatus h .ready) rfl rfl

theorem board_setSem {k : SemId} {s : Sem} (h : s.queue = (q.sems k).queue) :
    (q.setSem k s).board = q.board := by
  refine Board.ext rfl ?_ rfl rfl rfl
  funext k'
  by_cases hk : k' = k
  · subst hk
    simp [board, setSem, h]
  · simp [board, setSem, hk]

theorem board_wait (h : q.finished t = false) (k : SemId) :
    ((q.setSem k ((q.sems k).append t)).setStatus t .blocked).board = q.board.wait t k := by
  refine Board.ext rfl ?_ (place_setStatus h .blocked) rfl rfl
  funext k'
  by_cases hk : k' = k
  · subst hk
    simp [board, Board.wait, setSem, setStatus, Sem.append]
  · simp [board, Board.wait, setSem, setStatus, hk]

theorem board_post (h : q.board.Inv cpu) (k : SemId) : (q.post k).board = q.board.wake k := by
  unfold post Board.wake
  cases hk : (q.sems k).queue with
  | nil =>
    have hb : q.board.waiting k = [] := hk
    simp only [hb, List.head?_nil]
    exact board_setSem (by simp [Sem.removeFront, Sem.increment, hk])
  | cons t ts =>
    have hb : q.board.waiting k = t :: ts := hk
    have hf : q.finished t = false :=
      finished_of_place (h.place_waiting (k := k) (by simp [hb])) (by simp)
    simp only [hb, List.head?_cons]
    rw [board_makeReady (by exact hf)]
    congr 1
    refine Board.ext rfl ?_ rfl rfl rfl
    funext k'
    by_cases hk' : k' = k
    · subst hk'
      simp [board, setSem, Sem.removeFront, Sem.increment, hk]
    · simp [board, setSem, hk']

theorem board_dispatch (h : q.board.Inv cpu) {ts : List Tid} (hq : q.readyList = t :: ts) :
    (q.removeFront.setStatus t .running).board = q.board.dispatch := by
  have hb : q.board.ready = t :: ts := hq
  have hf : q.finished t = false :=
    finished_of_place ((h.ready t).1 (by simp [hb])) (by simp)
  unfold Board.dispatch
  simp only [hb]
  refine Board.ext ?_ rfl (place_setStatus (q := q.removeFront) hf .running) rfl ?_
  · simp [board, removeFront, setStatus, hq]
  · simp [board, removeFront, setStatus, hq]

theorem board_retire (t : Tid) :
    ({ q with finished := update q.finished t true }.setStatus t .blocked).board =
      q.board.retire t := by
  refine Board.ext rfl rfl ?_ rfl rfl
  funext u
  by_cases hu : u = t
  · subst hu
    simp [board, Board.retire, place, setStatus]
  · simp [board, Board.retire, place, setStatus, hu]

end Queues

/-! ## Code that fits the level and the status -/

def Mode.status : Mode → MachineStatus
  | .user => .userMode
  | .kernel | .exception => .systemMode

/-- The code can be run from this level and status on: an assertion on the level will not fail, a call
returns with the level it was entered with, and the thread gets back to its own code with the status
that belongs to it. -/
def Fits (mode : Mode) : List Frame → IntStatus → MachineStatus → Prop
  | [], _, status => status = mode.status
  | .returned entered :: code, level, status => level = entered ∧ Fits mode code level status
  | .setLevel now :: code, _, status => Fits mode code now status
  | .oneTick :: code, _, status => Fits mode code .intOn status
  | .yielded oldStatus :: code, level, status =>
    level = .intOn ∧ status = .systemMode ∧ Fits mode code .intOn oldStatus
  | .slept _ oldLevel :: code, level, status =>
    level = .intOff ∧ status = .systemMode ∧ Fits mode code oldLevel .systemMode
  -- `Sleep` calls nothing that comes back to it but `Run`
  | .sleeping _ :: _, _, _ => False
  | .begin :: code, level, status =>
    level = .intOff ∧ status = .systemMode ∧ Fits mode code .intOn .systemMode
  | .switched _ :: code, level, status
  | .restore _ :: code, level, status
  | .resumed _ :: code, level, status
  | .checkToBeDestroyed :: code, level, status
  | .clearSpace :: code, level, status
  | .deleted :: code, level, status =>
    level = .intOff ∧ status = .systemMode ∧ Fits mode code .intOff .systemMode

def CanRun (mode : Mode) : List Frame → IntStatus → MachineStatus → Prop
  | .sleeping _ :: code, level, status =>
    level = .intOff ∧ status = .systemMode ∧ Fits mode code .intOff .systemMode
  | code, level, status => Fits mode code level status

inductive Parked : Mode → List Frame → Prop
  | switched {mode : Mode} {code : List Frame} (out : Cpu) :
      Fits mode code .intOff .systemMode → Parked mode (.switched out :: code)
  | begin : Parked .kernel [.begin]

def State.occupant (s : State) : Option Tid :=
  match s.code with
  | .sleeping _ :: _ => none
  | _ => some s.currentThread

structure Others (s : State) : Prop where
  parked : ∀ t, t ≠ s.currentThread → Parked (s.mode t) (s.stack t)
  fresh : ∀ t, s.queues.status t = .justCreated → s.queues.finished t = false
  forked : s.queues.status s.currentThread ≠ .justCreated
  inHandler : s.inHandler = false

structure Inv (s : State) : Prop extends Others s where
  board : s.queues.board.Inv s.occupant
  current : CanRun (s.mode s.currentThread) s.code s.level s.status

/-! ## Moves -/

namespace Queues

def act (q : Queues) : State.Action → Queues
  | .v n => q.post (.sem n)
  | .yieldOnReturn => q

end Queues

namespace State

def Action.yields : Action → Bool
  | .v _ => false
  | .yieldOnReturn => true

def interrupted (s : State) : Option (List Action) → State
  | none => s
  | some actions =>
    { s.delayedLoad with
      queues := actions.foldl Queues.act s.queues
      yieldOnReturn := s.yieldOnReturn || actions.any Action.yields }

def leveled (s : State) (now : IntStatus) (code : List Frame) : State :=
  { s with level := now }.goto
    (if now = IntStatus.intOn ∧ s.level = IntStatus.intOff then .oneTick :: code else code)

def tested (s : State) (k : SemId) (oldLevel : IntStatus) (code : List Frame) : State :=
  if (s.queues.sems k).value = 0 then
    { s with
      queues := (s.queues.setSem k ((s.queues.sems k).append s.currentThread)).setStatus
        s.currentThread .blocked }.goto (.sleeping false :: .slept k oldLevel :: code)
  else
    { s with queues := s.queues.setSem k (s.queues.sems k).decrement }.goto
      (.setLevel oldLevel :: code)

def entered (s : State) (k : SemId) (code : List Frame) : State :=
  { s with level := .intOff }.tested k s.level (.returned s.level :: code)

def posted (s : State) (k : SemId) (code : List Frame) : State :=
  { s with level := .intOff, queues := s.queues.post k }.goto
    (.setLevel s.level :: .returned s.level :: code)

def yieldTo (s : State) (code : List Frame) : State :=
  match s.queues.readyList with
  | [] => { s with level := .intOff }.goto (.setLevel s.level :: .returned s.level :: code)
  | nextThread :: _ =>
    { s with
      level := .intOff
      queues := s.queues.removeFront.makeReady s.currentThread }.switchTo nextThread false
      (.setLevel s.level :: .returned s.level :: code)

end State

/-- The moves: from `s` a step leads to a state. The first group runs the code at the top of the stack
of the current thread, the second is that thread's own code. -/
inductive Move (s : State) : State → Prop
  | returned {entered : IntStatus} {code : List Frame} :
      s.code = .returned entered :: code → Move s (s.goto code)
  | setLevel {now : IntStatus} {code : List Frame} :
      s.code = .setLevel now :: code → Move s (s.leveled now code)
  | oneTick {code : List Frame} {due : Option (List State.Action)} :
      s.code = .oneTick :: code → (s.interrupted due).yieldOnReturn = false →
      Move s ({ s.interrupted due with level := .intOn }.goto code)
  | tickYield {code : List Frame} {due : Option (List State.Action)} :
      s.code = .oneTick :: code → (s.interrupted due).yieldOnReturn = true →
      Move s ({ s.interrupted due with
        level := .intOn, yieldOnReturn := false, status := .systemMode }.yieldTo
          (.yielded s.status :: code))
  | yielded {oldStatus : MachineStatus} {code : List Frame} :
      s.code = .yielded oldStatus :: code → Move s ({ s with status := oldStatus }.goto code)
  | slept {k : SemId} {oldLevel : IntStatus} {code : List Frame} :
      s.code = .slept k oldLevel :: code →
      Move s ({ s with
        queues := s.queues.setSem k ((s.queues.sems k).retest s.currentThread) }.tested k oldLevel
          code)
  | idle {finishing : Bool} {code : List Frame} {actions : List State.Action} :
      s.code = .sleeping finishing :: code → s.queues.readyList = [] →
      Move s { s.interrupted (some actions) with status := .systemMode }
  | switch {finishing : Bool} {code : List Frame} {nextThread : Tid} {rest : List Tid} :
      s.code = .sleeping finishing :: code → s.queues.readyList = nextThread :: rest →
      Move s ({ s with queues := s.queues.removeFront }.switchTo nextThread finishing code)
  | switched {out : Cpu} {code : List Frame} :
      s.code = .switched out :: code →
      Move s (s.goto (.checkToBeDestroyed :: .restore out :: code))
  | restore {out : Cpu} {code : List Frame} :
      s.code = .restore out :: code → Move s (s.restoreUserState.goto (.resumed out :: code))
  | resumed {out : Cpu} {code : List Frame} :
      s.code = .resumed out :: code → Move s (s.goto code)
  | begin {code : List Frame} :
      s.code = .begin :: code →
      Move s (s.goto (.checkToBeDestroyed :: .setLevel .intOn :: code))
  | noneDestroyed {code : List Frame} :
      s.code = .checkToBeDestroyed :: code → s.toBeDestroyed = none → Move s (s.goto code)
  | destroyed {code : List Frame} {t : Tid} :
      s.code = .checkToBeDestroyed :: code → s.toBeDestroyed = some t → s.space t = none →
      Move s ({ s with toBeDestroyed := none }.goto code)
  | destroy {code : List Frame} {t : Tid} :
      s.code = .checkToBeDestroyed :: code → s.toBeDestroyed = some t → s.space t ≠ none →
      Move s (s.entered .addrLock (.clearSpace :: code))
  | clearSpace {code : List Frame} :
      s.code = .clearSpace :: code → Move s (s.posted .addrLock (.deleted :: code))
  | deleted {code : List Frame} :
      s.code = .deleted :: code → Move s ({ s with toBeDestroyed := none }.goto code)
  | fork {t : Tid} :
      s.code = [] → s.mode s.currentThread ≠ .user → s.queues.status t = .justCreated →
      Move s ({ s with level := .intOff, queues := s.queues.makeReady t }.goto
        [.setLevel s.level, .returned s.level])
  | yield : s.code = [] → s.mode s.currentThread ≠ .user → Move s (s.yieldTo [])
  | p {k : SemId} : s.code = [] → s.mode s.currentThread ≠ .user → Move s (s.entered k [])
  | v {k : SemId} : s.code = [] → s.mode s.currentThread ≠ .user → Move s (s.posted k [])
  | finish :
      s.code = [] → s.mode s.currentThread ≠ .user →
      Move s ({ s with
        level := .intOff
        queues := { s.queues with
          finished := update s.queues.finished s.currentThread true }.setStatus
            s.currentThread .blocked }.goto [.sleeping true])
  | ownLevel {now : IntStatus} :
      s.code = [] → s.mode s.currentThread ≠ .user → Move s (s.leveled now [])
  | setSpace {t : Tid} {space : Space} :
      s.code = [] → s.mode s.currentThread ≠ .user → s.queues.status t = .justCreated →
      Move s { s with space := update s.space t (some space) }
  | writeRegisters {registers : Reg → Word} :
      s.code = [] → s.mode s.currentThread ≠ .user → Move s (s.setRegisters registers)
  | execute {space : Space} :
      s.code = [] → s.mode s.currentThread = .kernel → Move s (s.execute space)
  | instruction {registers : Reg → Word} :
      s.code = [] → s.mode s.currentThread = .user →
      Move s ((s.setRegisters registers).goto [.oneTick])
  | raise {registers : Reg → Word} :
      s.code = [] → s.mode s.currentThread = .user →
      Move s ({ s.setRegisters registers with status := .systemMode }.setMode .exception)
  | handled {registers : Reg → Word} :
      s.code = [] → s.mode s.currentThread = .exception →
      Move s (({ s.setRegisters registers with status := .userMode }.setMode .user).goto
        [.oneTick])

/-! ## The functions do what the moves say -/

theorem assert_ok {condition : Prop} [Decidable condition] (h : condition) (a : Assertion) :
    assert condition a = .ok () := if_pos h

namespace Queues

variable {q : Queues}

theorem removeFront_nil (h : q.readyList = []) : q.removeFront = q := by
  cases q
  cases h
  simp [removeFront]

theorem act_inv {cpu : Option Tid} (h : q.board.Inv cpu) (a : State.Action) :
    (q.act a).board.Inv cpu := by
  cases a with
  | v n =>
    rw [act, board_post h]
    exact h.wake (.sem n)
  | yieldOnReturn => exact h

theorem acts_inv {cpu : Option Tid} (h : q.board.Inv cpu)
    (actions : List State.Action) : (actions.foldl act q).board.Inv cpu := by
  induction actions generalizing q with
  | nil => exact h
  | cons a actions ih => exact ih (act_inv h a)

end Queues

namespace State

variable {s : State} {code : List Frame} {t : Tid} {cpu : Option Tid}

theorem with_level_of_eq {level : IntStatus} (h : s.level = level) : { s with level } = s := by
  cases s
  cases h
  rfl

theorem readyToRun_ok (hl : s.level = .intOff) (ht : t ∉ s.queues.readyList) :
    s.readyToRun t = .ok { s with queues := s.queues.makeReady t } := by
  rw [readyToRun, assert_ok hl, assert_ok ht]
  rfl

theorem findNextToRun_ok (hl : s.level = .intOff) :
    s.findNextToRun =
      .ok (s.queues.readyList.head?, { s with queues := s.queues.removeFront }) := by
  rw [findNextToRun, assert_ok hl]
  rfl

theorem run_ok {finishing : Bool} (hl : s.level = .intOff)
    (hd : finishing = true → s.toBeDestroyed = none) :
    s.run t finishing code = .ok (s.switchTo t finishing code) := by
  rw [run, assert_ok hl, assert_ok hd]
  rfl

theorem sleep_ok {finishing : Bool} (hl : s.level = .intOff) :
    s.sleep finishing code =
      .ok ({ s with queues := s.queues.setStatus s.currentThread .blocked }.goto
        (.sleeping finishing :: code)) := by
  rw [sleep, assert_ok hl]
  rfl

theorem yield_ok (h : s.queues.board.Inv (some s.currentThread)) :
    s.yield code = .ok (s.yieldTo code) := by
  have hc : s.queues.place s.currentThread = .running := (h.running _).2 rfl
  have hn : s.currentThread ∉ s.queues.readyList :=
    h.notMem_ready (show s.queues.place s.currentThread ≠ .ready by simp [hc])
  unfold yield yieldTo
  dsimp only
  rw [findNextToRun_ok rfl, ok_bind]
  cases hr : s.queues.readyList with
  | nil =>
    simp only [List.head?_nil]
    rw [Queues.removeFront_nil hr]
    rfl
  | cons nextThread rest =>
    have hn' : s.currentThread ∉ s.queues.removeFront.readyList := by
      rw [Queues.removeFront, hr]
      rw [hr] at hn
      exact fun hm => hn (List.mem_cons_of_mem _ hm)
    simp only [List.head?_cons]
    rw [readyToRun_ok rfl hn', ok_bind, run_ok rfl (by simp)]

theorem vBody_ok (hl : s.level = .intOff) (h : s.queues.board.Inv cpu) (k : SemId) :
    s.vBody k = .ok { s with queues := s.queues.post k } := by
  unfold vBody Queues.post
  cases hk : (s.queues.sems k).queue with
  | nil => simp [Queues.setSem, hk]
  | cons t ts =>
    have hp : s.queues.place t = .waiting := h.place_waiting (k := k) (by simp [Queues.board, hk])
    have hn : t ∉ s.queues.readyList :=
      h.notMem_ready (show s.queues.place t ≠ .ready by simp [hp])
    simp only [hk, List.head?_cons]
    rw [readyToRun_ok (by exact hl) (by exact hn)]
    simp [Queues.setSem, Queues.makeReady, Queues.setStatus]

theorem pLoop_ok (hl : s.level = .intOff) (h : s.queues.board.Inv (some s.currentThread))
    (k : SemId) (oldLevel : IntStatus) :
    s.pLoop k oldLevel code = .ok (s.tested k oldLevel code) := by
  have hc : s.queues.place s.currentThread = .running := (h.running _).2 rfl
  have hn : s.currentThread ∉ (s.queues.sems k).queue :=
    h.notMem_waiting (show s.queues.place s.currentThread ≠ .waiting by simp [hc]) k
  unfold pLoop tested
  dsimp only
  split
  · rw [assert_ok hn, ok_bind, sleep_ok (by exact hl)]
  · rfl

def acted (s : State) (a : Action) : State :=
  { s with queues := s.queues.act a, yieldOnReturn := s.yieldOnReturn || a.yields }

theorem handle_ok (hl : s.level = .intOff) (hi : s.inHandler = true)
    (h : s.queues.board.Inv cpu) (a : Action) : s.handle a = .ok (s.acted a) := by
  cases a with
  | v n =>
    rw [handle, with_level_of_eq hl]
    rw [vBody_ok hl h, ok_bind, assert_ok (.inl hl)]
    simp [acted, Queues.act, Action.yields]
  | yieldOnReturn =>
    rw [handle, assert_ok hi]
    simp [acted, Queues.act, Action.yields]

theorem handles_ok (hl : s.level = .intOff) (hi : s.inHandler = true)
    (h : s.queues.board.Inv cpu) (actions : List Action) :
    actions.foldlM handle s = .ok { s with
      queues := actions.foldl Queues.act s.queues
      yieldOnReturn := s.yieldOnReturn || actions.any Action.yields } := by
  induction actions generalizing s with
  | nil => simp
  | cons a actions ih =>
    rw [List.foldlM_cons, handle_ok hl hi h, ok_bind,
      ih (by exact hl) (by exact hi) (by exact Queues.act_inv h a)]
    simp [acted, Bool.or_assoc]

theorem checkIfDue_ok (hl : s.level = .intOff) (hi : s.inHandler = false)
    (h : s.queues.board.Inv cpu) (due : Option (List Action)) :
    s.checkIfDue due = .ok (s.interrupted due) := by
  unfold checkIfDue
  rw [assert_ok hl, ok_bind]
  cases due with
  | none => rfl
  | some actions =>
    dsimp only
    rw [handles_ok (by exact hl) rfl (by exact h), ok_bind]
    simp [interrupted, delayedLoad, hi]

end State

/-! ## What a step can do -/

def StopReason.Expected (reason : StopReason) : Prop :=
  reason = .halt ∨ reason = .assertion .toBeDestroyed ∨ reason = .assertion .deleteCurrent

inductive Outcome (s : State) : Result → Prop
  | moves {s' : State} : Move s s' → Outcome s (.ok s')
  | stops {reason : StopReason} : reason.Expected → Outcome s (.error reason)

variable {s : State} {code : List Frame} {f : Bool} {r : Result}

theorem Fits.not_sleeping {mode : Mode} {level : IntStatus} {status : MachineStatus}
    (h : Fits mode code level status) (rest : List Frame) : code ≠ .sleeping f :: rest := by
  rintro rfl
  exact h

theorem State.occupant_eq (h : ∀ f rest, s.code ≠ .sleeping f :: rest) :
    s.occupant = some s.currentThread := by
  unfold State.occupant
  split
  · rename_i hc
    exact absurd hc (h _ _)
  · rfl

theorem State.occupant_sleeping (h : s.code = .sleeping f :: code) : s.occupant = none := by
  simp [State.occupant, h]

theorem Inv.board_awake (h : Inv s) (ha : ∀ f rest, s.code ≠ .sleeping f :: rest) :
    s.queues.board.Inv (some s.currentThread) := State.occupant_eq ha ▸ h.board

theorem Inv.fits (h : Inv s) (ha : ∀ f rest, s.code ≠ .sleeping f :: rest) :
    Fits (s.mode s.currentThread) s.code s.level s.status := by
  have hc := h.current
  unfold CanRun at hc
  split at hc
  · rename_i hs
    exact absurd hs (ha _ _)
  · exact hc

theorem Inv.top (h : Inv s) {frame : Frame} (hc : s.code = frame :: code)
    (hf : ∀ f, frame ≠ .sleeping f) :
    s.queues.board.Inv (some s.currentThread) ∧
      Fits (s.mode s.currentThread) (frame :: code) s.level s.status := by
  have ha : ∀ f rest, s.code ≠ .sleeping f :: rest := by
    intro f rest h'
    rw [hc] at h'
    exact hf f (List.cons.inj h').1
  exact ⟨h.board_awake ha, hc ▸ h.fits ha⟩

theorem Inv.own (h : Inv s) (hc : s.code = []) :
    s.queues.board.Inv (some s.currentThread) ∧ s.status = (s.mode s.currentThread).status := by
  have ha : ∀ f rest, s.code ≠ .sleeping f :: rest := by simp [hc]
  have hf := h.fits ha
  rw [hc] at hf
  exact ⟨h.board_awake ha, hf⟩

theorem Inv.asleep (h : Inv s) (hc : s.code = .sleeping f :: code) :
    s.queues.board.Inv none ∧ s.level = .intOff ∧ s.status = .systemMode ∧
      Fits (s.mode s.currentThread) code .intOff .systemMode := by
  have hb := h.board
  have hr := h.current
  rw [State.occupant_sleeping hc] at hb
  rw [hc] at hr
  exact ⟨hb, hr⟩

theorem State.p_ok (h : s.queues.board.Inv (some s.currentThread)) (k : SemId) :
    s.p k code = .ok (s.entered k code) :=
  State.pLoop_ok (s := { s with level := .intOff }) rfl h k s.level

theorem State.v_ok (h : s.queues.board.Inv (some s.currentThread)) (k : SemId) :
    s.v k code = .ok (s.posted k code) := by
  unfold State.v
  rw [State.vBody_ok rfl (by exact h)]
  rfl

theorem State.setLevel_ok (h : s.inHandler = false) (now : IntStatus) :
    s.setLevel now code = .ok (s.leveled now code) := by
  unfold State.setLevel
  rw [assert_ok (.inr h)]
  rfl

theorem State.fork_ok (h : s.queues.board.Inv (some s.currentThread)) {t : Tid}
    (ht : s.queues.place t = .fresh) :
    s.fork t code = .ok ({ s with level := .intOff, queues := s.queues.makeReady t }.goto
      (.setLevel s.level :: .returned s.level :: code)) := by
  have hn : t ∉ s.queues.readyList :=
    h.notMem_ready (show s.queues.place t ≠ .ready by simp [ht])
  unfold State.fork
  dsimp only
  rw [State.readyToRun_ok rfl (by exact hn)]
  rfl

theorem sleepLoop_outcome (h : Inv s) (hc : s.code = .sleeping f :: code)
    (due : Option (List State.Action)) : Outcome s (s.sleepLoop f due code) := by
  obtain ⟨hb, hl, -, -⟩ := h.asleep hc
  unfold State.sleepLoop
  rw [State.findNextToRun_ok hl, ok_bind]
  cases hr : s.queues.readyList with
  | nil =>
    simp only [List.head?_nil]
    rw [Queues.removeFront_nil hr]
    unfold State.idle
    rw [State.checkIfDue_ok (by exact hl) (by exact h.inHandler) (by exact hb), ok_bind]
    cases due with
    | none => exact .stops (.inl rfl)
    | some actions => exact .moves (.idle hc hr)
  | cons nextThread rest =>
    simp only [List.head?_cons]
    by_cases hd : f = true → s.toBeDestroyed = none
    · rw [State.run_ok (by exact hl) (by exact hd)]
      exact .moves (.switch hc hr)
    · rw [State.run, assert_ok (by exact hl), ok_bind, assert, if_neg (by exact hd)]
      exact .stops (.inr (.inl rfl))

theorem checkToBeDestroyed_outcome (h : Inv s) (hc : s.code = .checkToBeDestroyed :: code) :
    Outcome s (s.checkToBeDestroyed code) := by
  obtain ⟨hb, -⟩ := h.top hc (by simp)
  unfold State.checkToBeDestroyed
  cases hd : s.toBeDestroyed with
  | none => exact .moves (.noneDestroyed hc hd)
  | some t =>
    by_cases ht : t ≠ s.currentThread
    · simp only [assert_ok ht, ok_bind]
      cases hs : s.space t with
      | none => exact .moves (.destroyed hc hd hs)
      | some space =>
        simp only [State.p_ok hb]
        exact .moves (.destroy hc hd (by simp [hs]))
    · simp only [assert, if_neg ht]
      exact .stops (.inr (.inr rfl))

theorem State.interrupted_level (due : Option (List State.Action)) (level : IntStatus) :
    { s with level }.interrupted due = { s.interrupted due with level } := by
  cases due <;> rfl

theorem State.interrupted_currentThread (due : Option (List State.Action)) :
    (s.interrupted due).currentThread = s.currentThread := by
  cases due <;> rfl

theorem State.interrupted_board {cpu : Option Tid} (h : s.queues.board.Inv cpu)
    (due : Option (List State.Action)) : (s.interrupted due).queues.board.Inv cpu := by
  cases due with
  | none => exact h
  | some actions => exact Queues.acts_inv h actions

theorem oneTick_outcome (h : Inv s) (hc : s.code = .oneTick :: code)
    (due : Option (List State.Action)) : Outcome s (s.oneTick due code) := by
  obtain ⟨hb, -⟩ := h.top hc (by simp)
  unfold State.oneTick
  rw [State.checkIfDue_ok (s := { s with level := .intOff }) rfl h.inHandler hb, ok_bind,
    State.interrupted_level]
  dsimp only
  by_cases hy : (s.interrupted due).yieldOnReturn = true
  · rw [if_pos hy, State.yield_ok]
    · exact .moves (.tickYield hc hy)
    · dsimp only
      rw [State.interrupted_currentThread]
      exact State.interrupted_board hb due
  · rw [if_neg hy]
    exact .moves (.oneTick hc (Bool.eq_false_iff.2 hy))

theorem goOn_outcome (h : Inv s) {frame : Frame} (hc : s.code = frame :: code)
    (due : Option (List State.Action)) : Outcome s (s.goOn due code frame) := by
  cases frame with
  | returned entered => exact .moves (.returned hc)
  | setLevel now =>
    rw [State.goOn, State.setLevel_ok h.inHandler]
    exact .moves (.setLevel hc)
  | oneTick => exact oneTick_outcome h hc due
  | yielded oldStatus => exact .moves (.yielded hc)
  | slept k oldLevel =>
    obtain ⟨hb, hl, -⟩ := h.top hc (by simp)
    have hb' : (s.queues.setSem k ((s.queues.sems k).retest s.currentThread)).board.Inv
        (some s.currentThread) := by
      rw [Queues.board_setSem (by rfl)]
      exact hb
    rw [State.goOn, State.pLoop_ok (by exact hl) (by exact hb')]
    exact .moves (.slept hc)
  | sleeping f => exact sleepLoop_outcome h hc due
  | switched out =>
    obtain ⟨-, hl, -⟩ := h.top hc (by simp)
    rw [State.goOn, assert_ok hl]
    exact .moves (.switched hc)
  | restore out => exact .moves (.restore hc)
  | resumed out => exact .moves (.resumed hc)
  | begin => exact .moves (.begin hc)
  | checkToBeDestroyed => exact checkToBeDestroyed_outcome h hc
  | clearSpace =>
    obtain ⟨hb, -⟩ := h.top hc (by simp)
    rw [State.goOn, State.v_ok hb]
    exact .moves (.clearSpace hc)
  | deleted => exact .moves (.deleted hc)

theorem kernelCall_outcome (h : Inv s) (hc : s.code = []) (hm : s.mode s.currentThread ≠ .user)
    {call : Call} (hr : s.kernelCall call = some r) : Outcome s r := by
  obtain ⟨hb, -⟩ := h.own hc
  cases call with
  | fork t =>
    rw [State.kernelCall] at hr
    split at hr
    · rename_i hs
      cases hr
      have ht : s.queues.place t = .fresh := by
        rw [Queues.place, h.fresh t hs, hs]
        rfl
      rw [State.fork_ok hb ht]
      exact .moves (.fork hc hm hs)
    · cases hr
  | yield =>
    cases hr
    rw [State.yield_ok hb]
    exact .moves (.yield hc hm)
  | p k =>
    cases hr
    rw [State.p_ok hb]
    exact .moves (.p hc hm)
  | v k =>
    cases hr
    rw [State.v_ok hb]
    exact .moves (.v hc hm)
  | finish =>
    cases hr
    rw [State.finish, State.sleep_ok rfl]
    exact .moves (.finish hc hm)
  | setLevel now =>
    cases hr
    rw [State.setLevel_ok h.inHandler]
    exact .moves (.ownLevel hc hm)
  | setSpace t space =>
    rw [State.kernelCall] at hr
    split at hr
    · rename_i hs
      cases hr
      exact .moves (.setSpace hc hm hs)
    · cases hr
  | writeRegisters registers =>
    cases hr
    exact .moves (.writeRegisters hc hm)
  | execute space | instruction registers | raise registers | handled registers => cases hr

theorem call_outcome (h : Inv s) (hc : s.code = []) {call : Call}
    (hr : s.call call = some r) : Outcome s r := by
  unfold State.call at hr
  split at hr
  · rename_i hm
    cases hr
    exact .moves (.instruction hc hm)
  · rename_i hm
    cases hr
    exact .moves (.raise hc hm)
  · cases hr
  · rename_i hm
    cases hr
    exact .moves (.handled hc hm)
  · rename_i hm _
    exact kernelCall_outcome h hc (by simp [hm]) hr
  · rename_i hm
    cases hr
    exact .moves (.execute hc hm)
  · rename_i hm _
    exact kernelCall_outcome h hc (by simp [hm]) hr

theorem next_outcome (h : Inv s) {choice : Choice} (hr : s.next choice = some r) : Outcome s r := by
  unfold State.next at hr
  split at hr
  · cases hr
    exact goOn_outcome h (by assumption) _
  · exact call_outcome h (by assumption) hr
  · cases hr

theorem step_cases (h : Inv s) {choice : Choice} {s' : State} (hs : step s choice = some s') :
    Move s s' ∨ ∃ reason, s' = { s with stopped := some reason } := by
  unfold step at hs
  split at hs
  · cases hs
  obtain ⟨r, hr, hs⟩ := Option.map_eq_some_iff.1 hs
  cases next_outcome h hr with
  | moves hm =>
    cases hs
    exact .inl hm
  | stops he =>
    cases hs
    exact .inr ⟨_, rfl⟩

end Nachos.Threads
