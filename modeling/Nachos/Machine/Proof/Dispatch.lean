import Nachos.Machine.Devices
import Nachos.Machine.Proof.Delivery

/-!
# Does the loop of `CheckIfDue` end?

A round of the loop takes an interrupt that is due off the list. What its handler schedules is due later,
as long as the time fits in an `int`: then the number of interrupts that are due goes down
(`ends_of_delays`). A time that does not fit is in the past, and the timer schedules itself again and
again at the same tick (`Stuck`).
-/

namespace Nachos.Interrupt

open Base

section

variable {κ σ : Type} [DecidableEq κ]

/-- **The loop of `CheckIfDue` ends**: after finitely many handlers it returns, unless an `ASSERT` of a
handler stops the machine. -/
inductive Ends (callBack : Handlers κ σ) (c : Caller) : State κ σ → Prop
  | returns {s s' : State κ σ} : s.callNext callBack c = .ok s' → s'.caller = none → Ends callBack c s
  | again {s s' : State κ σ} : s.callNext callBack c = .ok s' → s'.caller = some c →
      Ends callBack c s' → Ends callBack c s
  | failed {s : State κ σ} {next : PendingInterrupt κ} {rest : List (PendingInterrupt κ)} {f : Fault} :
      s.pending = next :: rest → callBack next.callOnInterrupt (s.removed next rest) = .error f →
        Ends callBack c s

structure Running (c : Caller) (s : State κ σ) : Prop where
  caller : s.caller = some c
  due : s.again = true
  inHandler : s.inHandler = true
  fresh : ∀ x ∈ s.pending, x.id < s.scheduled

namespace State

def dueCount (s : State κ σ) : Nat := s.pending.countP fun x => x.when ≤ s.stats.totalTicks

structure Later (s s' : State κ σ) : Prop where
  stats : s'.stats = s.stats
  world : s'.world = s.world
  caller : s'.caller = s.caller
  inHandler : s'.inHandler = s.inHandler
  fresh : ∀ x ∈ s'.pending, x.id < s'.scheduled
  dueCount : s'.dueCount = s.dueCount

variable {s s' : State κ σ}

omit [DecidableEq κ] in
theorem Later.trans {s'' : State κ σ} (h : s.Later s') (h' : s'.Later s'') : s.Later s'' :=
  ⟨h'.stats.trans h.stats, h'.world.trans h.world, h'.caller.trans h.caller,
    h'.inHandler.trans h.inHandler, h'.fresh, h'.dueCount.trans h.dueCount⟩

theorem schedule_eq {toCall : κ} {fromNow : Int} {type : IntType}
    (hf : ∀ x ∈ s.pending, x.id < s.scheduled) (hpos : fromNow > 0) :
    s.schedule toCall fromNow type = .ok { s with
      pending := s.pending.orderedInsert (fun a b => pendingCompare a b < 0)
        ⟨toCall, int (s.stats.totalTicks + fromNow), type, s.scheduled, s.stats.totalTicks + fromNow⟩
      scheduled := s.scheduled + 1 } := by
  unfold schedule
  simp only [assert_of hpos, ok_bind]
  rw [SortedList.insert_eq]
  · rfl
  · intro hin
    exact Nat.lt_irrefl _ (hf _ hin)

theorem schedule_later {toCall : κ} {fromNow : Int} {type : IntType}
    (hf : ∀ x ∈ s.pending, x.id < s.scheduled) (hpos : fromNow > 0)
    (hlow : -2 ^ 31 ≤ s.stats.totalTicks) (hb : s.stats.totalTicks + fromNow < 2 ^ 31) :
    ∃ s', s.schedule toCall fromNow type = .ok s' ∧ s.Later s' := by
  rw [schedule_eq hf hpos]
  refine ⟨_, rfl, rfl, rfl, rfl, rfl, fun x hx => ?_, ?_⟩
  · rcases (List.mem_orderedInsert _).1 hx with rfl | hx
    · exact Nat.lt_succ_self _
    · exact Nat.lt_succ_of_lt (hf x hx)
  · have hwhen : int (s.stats.totalTicks + fromNow) = s.stats.totalTicks + fromNow :=
      int_eq (by omega) hb
    unfold dueCount
    rw [(List.perm_orderedInsert _ _ _).countP_eq, List.countP_cons, hwhen]
    have hnot : ¬ s.stats.totalTicks + fromNow ≤ s.stats.totalTicks := by omega
    simp [hnot]

def InFuture (totalTicks : Int) (actions : List (Action κ)) : Prop :=
  ∀ toCall fromNow type, .schedule toCall fromNow type ∈ actions →
    0 < fromNow ∧ totalTicks + fromNow < 2 ^ 31

theorem performAll_later {actions : List (Action κ)} (hlow : -2 ^ 31 ≤ s.stats.totalTicks)
    (hh : s.inHandler = true) (hf : ∀ x ∈ s.pending, x.id < s.scheduled)
    (ha : InFuture s.stats.totalTicks actions) :
    ∃ s', actions.foldlM perform s = .ok s' ∧ s.Later s' := by
  induction actions generalizing s with
  | nil => exact ⟨s, rfl, rfl, rfl, rfl, rfl, hf, rfl⟩
  | cons a actions ih =>
    have hfirst : ∃ s', s.perform a = .ok s' ∧ s.Later s' := by
      cases a with
      | schedule toCall fromNow type =>
        obtain ⟨hpos, hb⟩ := ha toCall fromNow type (List.mem_cons_self ..)
        exact schedule_later hf hpos hlow hb
      | yieldOnReturn =>
        refine ⟨{ s with yieldOnReturn := true }, ?_, rfl, rfl, rfl, rfl, hf, rfl⟩
        rw [perform, assert_of hh]
        rfl
    obtain ⟨s1, hs1, h1⟩ := hfirst
    obtain ⟨s2, hs2, h2⟩ := ih (by rw [h1.stats]; exact hlow) (h1.inHandler.trans hh) h1.fresh (by
      rw [h1.stats]
      exact fun toCall fromNow type hm => ha toCall fromNow type (List.mem_cons_of_mem a hm))
    refine ⟨s2, ?_, h1.trans h2⟩
    rw [List.foldlM_cons, hs1]
    exact hs2

end State

open State

variable {callBack : Handlers κ σ} {c : Caller} {s : State κ σ}

omit [DecidableEq κ] in
theorem endRound_cases (hc : s.caller = some c) (hh : s.inHandler = true)
    (hf : ∀ x ∈ s.pending, x.id < s.scheduled) :
    (s.endRound c).caller = none ∨ (Running c (s.endRound c) ∧ s.endRound c = s) := by
  unfold endRound
  split
  · rename_i ha
    exact .inr ⟨⟨hc, ha, hh, hf⟩, rfl⟩
  · exact .inl (returned_same { s with inHandler := false, caller := none } c true).1

/-- **The loop ends when what the handlers schedule is in the future**: the number of interrupts that are
due goes down. `I`: what the handlers keep of their data. -/
theorem ends_of_delays (I : σ → Prop) {totalTicks : Int} (hlow : -2 ^ 31 ≤ totalTicks)
    (hI : ∀ toCall (s : State κ σ) world actions, I s.world →
      callBack toCall s = .ok (world, actions) → I world ∧ InFuture totalTicks actions)
    (hr : Running c s) (ht : s.stats.totalTicks = totalTicks) (hs : I s.world) : Ends callBack c s := by
  induction hn : s.dueCount using Nat.strong_induction_on generalizing s with
  | _ n ih =>
    have ha := hr.due
    unfold State.again at ha
    cases hp : s.pending with
    | nil =>
      rw [hp] at ha
      cases ha
    | cons next rest =>
      rw [hp] at ha
      have hcount : s.dueCount = (s.removed next rest).dueCount + 1 := by
        unfold State.dueCount State.removed
        rw [hp, List.countP_cons, if_pos ha]
      cases hcall : callBack next.callOnInterrupt (s.removed next rest) with
      | error f => exact .failed hp hcall
      | ok r =>
        obtain ⟨world, actions⟩ := r
        obtain ⟨hworld, hfuture⟩ := hI _ (s.removed next rest) _ _ hs hcall
        obtain ⟨s1, hs1, h1⟩ := performAll_later (s := { s.removed next rest with world }) (by
            show -2 ^ 31 ≤ s.stats.totalTicks
            rw [ht]
            exact hlow) hr.inHandler (fun x hx => hr.fresh x (hp ▸ List.mem_cons_of_mem next hx)) (by
            show InFuture s.stats.totalTicks actions
            rw [ht]
            exact hfuture)
        have hround : s.callNext callBack c = .ok (s1.endRound c) := by
          unfold callNext
          rw [hp]
          show (callBack next.callOnInterrupt (s.removed next rest) >>= _) = _
          rw [hcall]
          show (actions.foldlM perform { s.removed next rest with world } >>= _) = _
          rw [hs1]
          rfl
        rcases endRound_cases (h1.caller.trans hr.caller) (h1.inHandler.trans hr.inHandler) h1.fresh with
          hnone | ⟨hrun, hsame⟩
        · exact .returns hround hnone
        · rw [hsame] at hround hrun
          refine .again hround hrun.caller (ih s1.dueCount ?_ hrun ?_ ?_ rfl)
          · have hle : s1.dueCount = (s.removed next rest).dueCount := h1.dueCount
            omega
          · exact (congrArg Statistics.totalTicks h1.stats).trans ht
          · rw [h1.world]
            exact hworld

end

/-! ## The devices -/

open State

def maxDelay (randomize : Bool) : Int := if randomize then 200 else 100

theorem setInterrupt_delay {d d' : Devices} {actions : List (Action Device)}
    (h : setInterrupt d = (d', actions)) : d'.randomize = d.randomize ∧
      ∀ toCall fromNow type, .schedule toCall fromNow type ∈ actions →
        0 < fromNow ∧ fromNow ≤ maxDelay d.randomize := by
  unfold setInterrupt at h
  split at h
  · cases h
    exact ⟨rfl, nofun⟩
  · split at h
    · rename_i hr
      cases h
      refine ⟨rfl, fun toCall fromNow type hm => ?_⟩
      cases List.mem_singleton.1 hm
      have hlt : d.random 0 % (timerTicks * 2).toNat < 200 := Nat.mod_lt _ (by decide)
      rw [maxDelay, if_pos hr]
      omega
    · rename_i hr
      cases h
      refine ⟨rfl, fun toCall fromNow type hm => ?_⟩
      cases List.mem_singleton.1 hm
      rw [maxDelay, if_neg hr]
      decide

theorem hundred_le_maxDelay (randomize : Bool) : 100 ≤ maxDelay randomize := by
  cases randomize <;> decide

variable {s : State Device Devices} {c : Caller}

theorem callBack_delay {device : Device} {d : Devices}
    {actions : List (Action Device)} (h : callBack device s = .ok (d, actions)) :
    d.randomize = s.world.randomize ∧ ∀ toCall fromNow type,
      .schedule toCall fromNow type ∈ actions → 0 < fromNow ∧ fromNow ≤ maxDelay s.world.randomize := by
  have hmax := hundred_le_maxDelay s.world.randomize
  cases device with
  | timer =>
    cases h
    obtain ⟨hr, hdelay⟩ := setInterrupt_delay (d := s.world) rfl
    refine ⟨hr, fun toCall fromNow type hm => ?_⟩
    rcases List.mem_append.1 hm with hm | hm
    · unfold alarm at hm
      split at hm
      · cases List.mem_singleton.1 hm
      · cases hm
    · exact hdelay toCall fromNow type hm
  | consoleInput =>
    obtain ⟨_, -, h⟩ := bind_ok (show (assert _ >>= _) = _ from h)
    dsimp only at h
    split at h
    · cases h
      refine ⟨rfl, fun toCall fromNow type hm => ?_⟩
      cases List.mem_singleton.1 hm
      exact ⟨by decide, hmax⟩
    · cases h
      exact ⟨rfl, nofun⟩
    · cases h
      exact ⟨rfl, nofun⟩
    · cases h
  | networkInput =>
    obtain ⟨⟨network, _⟩, -, h⟩ := bind_ok (show (_ >>= _) = _ from h)
    cases h
    refine ⟨rfl, fun toCall fromNow type hm => ?_⟩
    cases List.mem_singleton.1 hm
    exact ⟨by decide, hmax⟩
  | consoleOutput | networkOutput | disk =>
    cases h
    exact ⟨rfl, nofun⟩

/-! ## The timer at the end of time -/

/-- Only the timer's interrupt is pending, it is due, and its next one would be due after the last time
that fits in an `int`. -/
structure Stuck (c : Caller) (s : State Device Devices) : Prop where
  caller : s.caller = some c
  inHandler : s.inHandler = true
  pending : ∃ x, s.pending = [x] ∧ x.callOnInterrupt = .timer
  below : s.stats.totalTicks < 2 ^ 31
  delay : ∃ d, setInterrupt s.world = (s.world, [.schedule .timer d .timerInt]) ∧ 0 < d ∧ d ≤ 200 ∧
    2 ^ 31 ≤ s.stats.totalTicks + d

theorem int_eq_sub {x : Int} (h : 2 ^ 31 ≤ x) (h' : x < 2 ^ 32) : int x = x - 2 ^ 32 := by
  have hsub : int (x - 2 ^ 32) = x - 2 ^ 32 := int_eq (by omega) (by omega)
  rw [← hsub]
  unfold int
  exact (Int.sub_bmod_right x (2 ^ 32)).symm

theorem alarm_perform (hh : s.inHandler = true) (status) :
    ∃ b, (alarm status).foldlM perform s = .ok { s with yieldOnReturn := b } := by
  unfold alarm
  split
  · refine ⟨true, ?_⟩
    rw [List.foldlM_cons, perform, assert_of hh]
    rfl
  · exact ⟨s.yieldOnReturn, rfl⟩

def rescheduled (s : State Device Devices) (x : PendingInterrupt Device) (d : Int) (b : Bool) :
    State Device Devices :=
  { s.removed x [] with
    yieldOnReturn := b
    pending := [⟨.timer, int (s.stats.totalTicks + d), .timerInt, s.scheduled, s.stats.totalTicks + d⟩]
    scheduled := s.scheduled + 1 }

theorem timer_round {x : PendingInterrupt Device} {d : Int}
    (hp : s.pending = [x]) (htimer : x.callOnInterrupt = .timer) (hin : s.inHandler = true)
    (hset : setInterrupt s.world = (s.world, [.schedule .timer d .timerInt])) (hpos : 0 < d) :
    ∃ b, s.callNext callBack c = .ok ((rescheduled s x d b).endRound c) := by
  obtain ⟨b, halarm⟩ := alarm_perform (s := s.removed x []) hin s.status
  have hsched : ({ s.removed x [] with yieldOnReturn := b } : State Device Devices).schedule
      .timer d .timerInt = .ok (rescheduled s x d b) := by
    have hfresh : ∀ y ∈ ([] : List (PendingInterrupt Device)), y.id < s.scheduled := nofun
    rw [schedule_eq hfresh hpos]
    rfl
  have hcall : callBack x.callOnInterrupt (s.removed x []) =
      .ok (s.world, alarm s.status ++ [.schedule .timer d .timerInt]) := by
    rw [htimer]
    show Except.ok ((setInterrupt s.world).1, alarm s.status ++ (setInterrupt s.world).2) = _
    rw [hset]
  refine ⟨b, ?_⟩
  unfold callNext
  rw [hp]
  show (callBack x.callOnInterrupt (s.removed x []) >>= _) = _
  rw [hcall]
  show ((alarm s.status ++ [Action.schedule Device.timer d .timerInt]).foldlM perform
    (s.removed x []) >>= _) = _
  rw [List.foldlM_append, halarm]
  show ((State.schedule _ Device.timer d .timerInt >>= pure) >>= _) = _
  rw [hsched]
  rfl

theorem Stuck.round (h : Stuck c s) : ∃ s', s.callNext callBack c = .ok s' ∧ Stuck c s' := by
  obtain ⟨x, hp, htimer⟩ := h.pending
  obtain ⟨d, hset, hpos, hle, hlate⟩ := h.delay
  obtain ⟨b, hround⟩ := timer_round (c := c) hp htimer h.inHandler hset hpos
  have hbelow := h.below
  have hwhen : int (s.stats.totalTicks + d) = s.stats.totalTicks + d - 2 ^ 32 :=
    int_eq_sub hlate (by omega)
  have hdue : (rescheduled s x d b).again = true :=
    decide_eq_true (show int (s.stats.totalTicks + d) ≤ s.stats.totalTicks by omega)
  rw [endRound, if_pos hdue] at hround
  exact ⟨_, hround, h.caller, h.inHandler, ⟨_, rfl, rfl⟩, hbelow, d, hset, hpos, hle, hlate⟩

theorem Stuck.not_ends (h : Stuck c s) : ¬ Ends callBack c s := by
  intro he
  induction he with
  | returns hround hnone =>
    obtain ⟨s', hs', hstuck⟩ := h.round
    cases hround.symm.trans hs'
    cases hnone.symm.trans hstuck.caller
  | again hround _ _ ih =>
    obtain ⟨s', hs', hstuck⟩ := h.round
    cases hround.symm.trans hs'
    exact ih hstuck
  | failed hp hcall =>
    obtain ⟨x, hp', htimer⟩ := h.pending
    cases hp.symm.trans hp'
    rw [htimer] at hcall
    cases hcall

def timerOnly (randomize : Bool) : Devices :=
  ⟨randomize, false, eof, false, 0, ⟨⟨0, 0, 0⟩, []⟩, false, false, fun _ => 199, fun _ => .nothing,
    fun _ => none⟩

theorem setInterrupt_timerOnly (randomize : Bool) : setInterrupt (timerOnly randomize) =
    (timerOnly randomize, [.schedule .timer (maxDelay randomize) .timerInt]) := by
  cases randomize <;> rfl

def timerDue (totalTicks : Int) (randomize : Bool) : State Device Devices :=
  { State.new (timerOnly randomize) with
    pending := [⟨.timer, totalTicks, .timerInt, 0, totalTicks⟩]
    stats := ⟨totalTicks, 0, 0, 0⟩
    inHandler := true
    caller := some .oneTick
    scheduled := 1 }

/-- **The loop of `CheckIfDue` ends at a tick**, whatever is pending and whatever the devices do, exactly
when the longest delay from that tick fits in an `int`. -/
theorem dispatch_ends_iff (totalTicks : Word) (randomize : Bool) :
    (∀ (c : Caller) (s : State Device Devices), Running c s → s.stats.totalTicks = totalTicks.toInt →
      s.world.randomize = randomize → Ends callBack c s) ↔
      totalTicks.toInt + maxDelay randomize < 2 ^ 31 := by
  have hlow : -2 ^ 31 ≤ totalTicks.toInt := BitVec.le_toInt totalTicks
  have hhigh : totalTicks.toInt < 2 ^ 31 := BitVec.toInt_lt
  have hmax : maxDelay randomize ≤ 200 := by cases randomize <;> decide
  constructor
  · intro h
    by_contra hlate
    have hstuck : Stuck .oneTick (timerDue totalTicks.toInt randomize) := by
      refine ⟨rfl, rfl, ⟨_, rfl, rfl⟩, hhigh, maxDelay randomize, setInterrupt_timerOnly randomize, ?_,
        hmax, Int.not_lt.1 hlate⟩
      exact Int.lt_of_lt_of_le (by decide) (hundred_le_maxDelay randomize)
    refine hstuck.not_ends (h .oneTick _ ⟨rfl, ?_, rfl, ?_⟩ rfl rfl)
    · exact decide_eq_true (Int.le_refl _)
    · intro x hx
      rw [List.mem_singleton.1 hx]
      exact Nat.one_pos
  · intro hfits c s hr ht hrand
    refine ends_of_delays (fun d => d.randomize = randomize) hlow
      (fun device s d actions hd hcall => ?_) hr ht hrand
    obtain ⟨hsame, hdelay⟩ := callBack_delay hcall
    refine ⟨hsame.trans hd, fun toCall fromNow type hm => ?_⟩
    obtain ⟨hpos, hle⟩ := hdelay toCall fromNow type hm
    rw [hd] at hle
    exact ⟨hpos, by omega⟩

/-! ## A run to the end of time -/

structure Ticking (k : Nat) (s : State Device Devices) : Prop where
  level : s.level = .intOff
  pending : ∃ x, s.pending = [x] ∧ x.callOnInterrupt = .timer ∧ x.when = 100 * (k + 1)
  totalTicks : s.stats.totalTicks = 100 * k
  world : s.world = timerOnly false
  caller : s.caller = none
  halted : s.halted = false

structure Tick (k : Nat) (s : State Device Devices) : Prop where
  level : s.level = .intOff
  pending : ∃ x, s.pending = [x] ∧ x.callOnInterrupt = .timer
  totalTicks : s.stats.totalTicks = 100 * (k + 1)
  world : s.world = timerOnly false
  caller : s.caller = some .idle
  inHandler : s.inHandler = true
  halted : s.halted = false

theorem Ticking.idle {k : Nat} (h : Ticking k s) :
    ∃ s', step callBack s .idle = some s' ∧ Tick k s' := by
  obtain ⟨x, hp, htimer, hwhen⟩ := h.pending
  have hgt : x.when > s.stats.totalTicks := by
    rw [hwhen, h.totalTicks]
    omega
  refine ⟨(({ s with status := .idleMode } : State Device Devices).advanceTo x.when).enterLoop .idle,
    ?_, h.level, ⟨x, hp, htimer⟩, hwhen, h.world, rfl, rfl, h.halted⟩
  simp [step, State.idle, checkIfDue, h.halted, h.caller, h.level, hp, hgt, assert, Except.toOption]

theorem setInterrupt_tick (h : s.world = timerOnly false) :
    setInterrupt s.world = (s.world, [.schedule .timer 100 .timerInt]) := by
  rw [h]
  exact setInterrupt_timerOnly false

theorem Tick.callNext {k : Nat} (hk : 100 * (k + 2) < 2 ^ 31)
    (h : Tick k s) : ∃ s', step callBack s .callNext = some s' ∧ Ticking (k + 1) s' := by
  obtain ⟨x, hp, htimer⟩ := h.pending
  obtain ⟨b, hround⟩ := timer_round (c := .idle) hp htimer h.inHandler (setInterrupt_tick h.world)
    (by decide)
  have hwhen : int (s.stats.totalTicks + 100) = 100 * ((k + 1 : Nat) + 1) := by
    rw [h.totalTicks, int_eq (by omega) (by omega)]
    omega
  have hlater : (rescheduled s x 100 b).again = false := by
    refine decide_eq_false (Int.not_le.2 ?_)
    show s.stats.totalTicks < int (s.stats.totalTicks + 100)
    rw [hwhen, h.totalTicks]
    omega
  rw [endRound, if_neg (Bool.eq_false_iff.1 hlater)] at hround
  have hstep : step callBack s .callNext = (s.callNext callBack .idle).toOption := by
    simp [step, h.halted, h.caller]
  rw [hround] at hstep
  exact ⟨_, hstep, h.level, ⟨_, rfl, rfl, hwhen⟩, h.totalTicks, h.world, rfl, h.halted⟩

theorem runs_ticking (k : Nat) (hk : 100 * (k + 1) < 2 ^ 31) : ∃ s,
    Runs (step callBack) (fun _ _ => True) (.new (timerOnly false)) s ∧ Ticking k s := by
  induction k with
  | zero =>
    have hfirst : step callBack (.new (timerOnly false)) (.schedule .timer 100 .timerInt) =
        some { State.new (timerOnly false) with
          pending := [⟨.timer, 100, .timerInt, 0, 100⟩], scheduled := 1 } := rfl
    exact ⟨_, Runs.start.step trivial hfirst, rfl, ⟨_, rfl, rfl, rfl⟩, rfl, rfl, rfl, rfl⟩
  | succ k ih =>
    obtain ⟨s, hrun, hs⟩ := ih (by omega)
    obtain ⟨s1, hidle, h1⟩ := hs.idle
    obtain ⟨s2, hnext, h2⟩ := h1.callNext (by omega)
    exact ⟨s2, (hrun.step trivial hidle).step trivial hnext, h2⟩

/-- The machine only idles, and after 21474836 interrupts of the timer it is in the loop for good. -/
theorem dispatch_not_ended : ∃ s : State Device Devices,
    Runs (step callBack) (fun _ _ => True) (.new (timerOnly false)) s ∧
      s.stats.totalTicks = 2147483600 ∧ s.caller = some .idle ∧ ¬ Ends callBack .idle s := by
  obtain ⟨s, hrun, hs⟩ := runs_ticking 21474835 (by decide)
  obtain ⟨s', hidle, h⟩ := hs.idle
  refine ⟨s', hrun.step trivial hidle, h.totalTicks, h.caller, Stuck.not_ends ?_⟩
  have htotal : s'.stats.totalTicks = 2147483600 := h.totalTicks
  exact ⟨h.caller, h.inHandler, h.pending, by omega, 100, setInterrupt_tick h.world, by decide, by decide,
    by omega⟩

end Nachos.Interrupt
