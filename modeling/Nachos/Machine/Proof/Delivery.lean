import Nachos.Base.Sorted
import Nachos.Lib.Proof.List
import Nachos.Machine.Interrupt

/-!
# Interrupts are delivered once, in time and in order

The interrupts that were called, followed by those that are pending, are sorted by their time and, for
equal times, by when they were scheduled (`Core.sorted`): a new one is due after the clock, so it comes
behind all that were called, and `Insert` puts it behind those pending with the same time.

This takes that times are stored as they are. `Schedule` adds `fromNow` to the clock in an `int`, and
a sum that does not fit is in the past (`interrupts_not_delivered`).
-/

namespace Nachos.Interrupt

open Base Threads

variable {κ σ : Type}

theorem int_eq {x : Int} (h : -2 ^ 31 ≤ x) (h' : x < 2 ^ 31) : int x = x := by
  unfold int
  exact Int.bmod_eq_of_le (by omega) (by omega)

def Before (a b : PendingInterrupt κ) : Prop := a.when < b.when ∨ a.when = b.when ∧ a.id < b.id

theorem Before.trans {a b c : PendingInterrupt κ} (h : Before a b) (h' : Before b c) : Before a c := by
  unfold Before at *
  omega

theorem pendingCompare_neg {x y : PendingInterrupt κ} : pendingCompare x y < 0 ↔ x.when < y.when := by
  unfold pendingCompare
  split
  · rename_i h
    exact iff_of_true (by decide) h
  · rename_i h
    split
    · exact iff_of_false (by decide) h
    · exact iff_of_false (by decide) h

namespace State

def interrupts (s : State κ σ) : List (PendingInterrupt κ) := s.calls.map Prod.fst ++ s.pending

structure Core (s : State κ σ) : Prop where
  sorted : s.interrupts.Pairwise Before
  nodup : (s.interrupts.map (·.id)).Nodup
  ids : ∀ x ∈ s.interrupts, x.id < s.scheduled
  exact : ∀ x ∈ s.interrupts, x.when = x.due
  bounded : ∀ x ∈ s.pending, x.when < 2 ^ 31
  called : ∀ c ∈ s.calls, c.1.when ≤ c.2 ∧ c.2 ≤ s.stats.totalTicks
  inRange : 0 ≤ s.stats.totalTicks ∧ s.stats.totalTicks < 2 ^ 31
  parts : 0 ≤ s.stats.idleTicks ∧ 0 ≤ s.stats.systemTicks ∧ 0 ≤ s.stats.userTicks
  ticks : s.stats.totalTicks = s.stats.idleTicks + s.stats.systemTicks + s.stats.userTicks

variable {s s' : State κ σ}

theorem Core.congr (h : s.Core) (hp : s'.pending = s.pending) (hc : s'.calls = s.calls)
    (hn : s'.scheduled = s.scheduled) (ht : s'.stats = s.stats) : s'.Core := by
  have hi : s'.interrupts = s.interrupts := by rw [interrupts, interrupts, hp, hc]
  refine ⟨hi ▸ h.sorted, hi ▸ h.nodup, ?_, hi ▸ h.exact, hp ▸ h.bounded, ?_, ht ▸ h.inRange,
    ht ▸ h.parts, ht ▸ h.ticks⟩
  · rw [hi, hn]
    exact h.ids
  · rw [hc, ht]
    exact h.called

def Quiet (s : State κ σ) : Prop := ∀ x ∈ s.pending, s.stats.totalTicks < x.when

structure Inv (s : State κ σ) : Prop extends Core s where
  quiet : s.caller = none → s.Quiet
  busy : s.caller.isSome → s.again = true

theorem quiet_of_not_again (h : s.Core) (ha : s.again = false) : s.Quiet := by
  intro x hx
  have hs := (List.pairwise_append.1 h.sorted).2.1
  unfold again at ha
  cases hp : s.pending with
  | nil =>
    rw [hp] at hx
    cases hx
  | cons front rest =>
    rw [hp] at ha hx hs
    have hfront := of_decide_eq_false ha
    rcases List.mem_cons.1 hx with rfl | hx
    · omega
    · have hb := (List.pairwise_cons.1 hs).1 x hx
      unfold Before at hb
      omega

/-! ## The clock -/

theorem core_returned (h : s.Core) (c : Caller) (b : Bool) : (s.returned c b).Core := by
  unfold returned
  split
  · split
    · exact h.congr rfl rfl rfl rfl
    · exact h.congr rfl rfl rfl rfl
  · exact h.congr rfl rfl rfl rfl
  · exact h.congr rfl rfl rfl rfl

theorem returned_same (s : State κ σ) (c : Caller) (b : Bool) :
    (s.returned c b).caller = s.caller ∧ (s.returned c b).pending = s.pending ∧
      (s.returned c b).stats = s.stats := by
  unfold returned
  split
  · split <;> exact ⟨rfl, rfl, rfl⟩
  · exact ⟨rfl, rfl, rfl⟩
  · exact ⟨rfl, rfl, rfl⟩

theorem inv_returned (h : s.Core) (hq : s.Quiet) (hc : s.caller = none) (c : Caller) (b : Bool) :
    (s.returned c b).Inv := by
  obtain ⟨hcaller, hpending, hstats⟩ := returned_same s c b
  refine ⟨core_returned h c b, fun _ => ?_, fun hsome => ?_⟩
  · unfold Quiet
    rw [hpending, hstats]
    exact hq
  · rw [hcaller, hc] at hsome
    cases hsome

theorem core_advanceTo {next : PendingInterrupt κ} (h : s.Core) (hn : next ∈ s.pending)
    (hlt : s.stats.totalTicks < next.when) : (s.advanceTo next.when).Core := by
  obtain ⟨h0, h1⟩ := h.inRange
  obtain ⟨hi, hsys, hu⟩ := h.parts
  have hbound := h.bounded next hn
  have hticks := h.ticks
  have hdiff : int (next.when - s.stats.totalTicks) = next.when - s.stats.totalTicks :=
    int_eq (by omega) (by omega)
  have hidle : (s.advanceTo next.when).stats.idleTicks =
      s.stats.idleTicks + (next.when - s.stats.totalTicks) := by
    show int _ = _
    rw [hdiff, int_eq (by omega) (by omega)]
  refine ⟨h.sorted, h.nodup, h.ids, h.exact, h.bounded, fun c hc => ?_, ⟨?_, hbound⟩, ⟨?_, hsys, hu⟩, ?_⟩
  · have := h.called c hc
    refine ⟨this.1, ?_⟩
    show c.2 ≤ next.when
    omega
  · show 0 ≤ next.when
    omega
  · rw [hidle]
    omega
  · rw [hidle]
    show next.when = _ + s.stats.systemTicks + s.stats.userTicks
    omega

theorem inv_enterLoop (h : s.Core) (ha : s.again = true) (c : Caller) : (s.enterLoop c).Inv :=
  ⟨h.congr rfl rfl rfl rfl, nofun, fun _ => ha⟩

theorem checkIfDue_inv {advanceClock : Bool} {c : Caller} (h : s.Core) (hc : s.caller = none)
    (hs : s.checkIfDue advanceClock c = .ok s') :
    s'.Inv ∧ s.stats.totalTicks ≤ s'.stats.totalTicks := by
  unfold checkIfDue at hs
  obtain ⟨_, -, hs⟩ := bind_ok hs
  split at hs
  · rename_i hp
    cases hs
    refine ⟨inv_returned h ?_ hc c false, Int.le_of_eq (by rw [(returned_same s c false).2.2])⟩
    intro x hx
    rw [hp] at hx
    cases hx
  · rename_i next rest hp
    split at hs
    · rename_i hgt
      split at hs
      · cases hs
        refine ⟨inv_returned h (quiet_of_not_again h ?_) hc c false,
          Int.le_of_eq (by rw [(returned_same s c false).2.2])⟩
        unfold again
        rw [hp]
        exact decide_eq_false (by omega)
      · cases hs
        have hmem : next ∈ s.pending := hp ▸ List.mem_cons_self ..
        refine ⟨inv_enterLoop (core_advanceTo h hmem hgt) ?_ c, Int.le_of_lt hgt⟩
        unfold again
        rw [show (s.advanceTo next.when).pending = next :: rest from hp]
        exact decide_eq_true (Int.le_refl next.when)
    · rename_i hle
      cases hs
      refine ⟨inv_enterLoop h ?_ c, Int.le_refl _⟩
      unfold again
      rw [hp]
      exact decide_eq_true (by omega)

def tickLength (s : State κ σ) : Int := if s.status = .systemMode then systemTick else userTick

theorem core_tick (h : s.Core) (hb : s.stats.totalTicks + s.tickLength < 2 ^ 31) :
    s.tick.Core ∧ s.stats.totalTicks ≤ s.tick.stats.totalTicks := by
  obtain ⟨h0, h1⟩ := h.inRange
  obtain ⟨hi, hsys, hu⟩ := h.parts
  have hticks := h.ticks
  unfold tickLength at hb
  unfold tick
  split
  · rename_i hst
    rw [if_pos hst] at hb
    unfold systemTick at hb ⊢
    have htotal : int (s.stats.totalTicks + 10) = s.stats.totalTicks + 10 := int_eq (by omega) hb
    have hsystem : int (s.stats.systemTicks + 10) = s.stats.systemTicks + 10 :=
      int_eq (by omega) (by omega)
    rw [htotal, hsystem]
    refine ⟨⟨h.sorted, h.nodup, h.ids, h.exact, h.bounded, fun c hc => ?_, ?_, ?_, ?_⟩, ?_⟩
    · have := h.called c hc
      exact ⟨this.1, Int.le_trans this.2 (Int.le_add_of_nonneg_right (by decide))⟩
    all_goals
      dsimp only
      omega
  · rename_i hst
    rw [if_neg hst] at hb
    unfold userTick at hb ⊢
    have htotal : int (s.stats.totalTicks + 1) = s.stats.totalTicks + 1 := int_eq (by omega) hb
    have huser : int (s.stats.userTicks + 1) = s.stats.userTicks + 1 := int_eq (by omega) (by omega)
    rw [htotal, huser]
    refine ⟨⟨h.sorted, h.nodup, h.ids, h.exact, h.bounded, fun c hc => ?_, ?_, ?_, ?_⟩, ?_⟩
    · have := h.called c hc
      exact ⟨this.1, Int.le_trans this.2 (Int.le_add_of_nonneg_right (by decide))⟩
    all_goals
      dsimp only
      omega

/-! ## The ends of a round -/

theorem core_removed {next : PendingInterrupt κ} {rest : List (PendingInterrupt κ)} (h : s.Core)
    (hp : s.pending = next :: rest) (hle : next.when ≤ s.stats.totalTicks) :
    (s.removed next rest).Core := by
  have hi : (s.removed next rest).interrupts = s.interrupts := by
    show (s.calls ++ [(next, s.stats.totalTicks)]).map Prod.fst ++ rest = _
    rw [interrupts, hp, List.map_append, List.append_assoc]
    rfl
  refine ⟨hi ▸ h.sorted, hi ▸ h.nodup, hi ▸ h.ids, hi ▸ h.exact, fun x hx => ?_, fun c hc => ?_, h.inRange,
    h.parts, h.ticks⟩
  · exact h.bounded x (hp ▸ List.mem_cons_of_mem next hx)
  · rcases List.mem_append.1 hc with hc | hc
    · exact h.called c hc
    · rw [List.mem_singleton.1 hc]
      exact ⟨hle, Int.le_refl _⟩

theorem endRound_inv {c : Caller} (h : s.Core) (hc : s.caller = some c) :
    (s.endRound c).Inv ∧ (s.endRound c).stats = s.stats := by
  unfold endRound
  split
  · rename_i ha
    refine ⟨⟨h, fun hn => ?_, fun _ => ha⟩, rfl⟩
    cases hc.symm.trans hn
  · rename_i ha
    have hq := quiet_of_not_again h (Bool.eq_false_of_not_eq_true ha)
    refine ⟨inv_returned (s := { s with inHandler := false, caller := none })
      (h.congr rfl rfl rfl rfl) hq rfl c true, ?_⟩
    exact (returned_same { s with inHandler := false, caller := none } c true).2.2

/-! ## Scheduling -/

section

variable [DecidableEq κ]

structure Scheduled (s s' : State κ σ) : Prop where
  core : s'.Core
  calls : s'.calls = s.calls
  stats : s'.stats = s.stats
  caller : s'.caller = s.caller

theorem schedule_scheduled {toCall : κ} {fromNow : Int} {type : IntType} (h : s.Core)
    (hb : s.stats.totalTicks + fromNow < 2 ^ 31) (hs : s.schedule toCall fromNow type = .ok s') :
    s.Scheduled s' ∧ ∀ x ∈ s'.pending, x ∈ s.pending ∨ s.stats.totalTicks < x.when := by
  unfold schedule at hs
  obtain ⟨_, hpos, hs⟩ := bind_ok hs
  have hpos := assert_ok hpos
  obtain ⟨pending, hins, hs⟩ := bind_ok hs
  cases hs
  obtain ⟨-, rfl⟩ := SortedList.insert_ok hins
  obtain ⟨h0, h1⟩ := h.inRange
  have hwhen : int (s.stats.totalTicks + fromNow) = s.stats.totalTicks + fromNow :=
    int_eq (by omega) hb
  rw [hwhen]
  generalize hitem : (⟨toCall, s.stats.totalTicks + fromNow, type, s.scheduled,
    s.stats.totalTicks + fromNow⟩ : PendingInterrupt κ) = item
  have hw : item.when = s.stats.totalTicks + fromNow := by rw [← hitem]
  have hid : item.id = s.scheduled := by rw [← hitem]
  have hdue : item.when = item.due := by rw [← hitem]
  generalize hp : s.pending.orderedInsert (fun a b => pendingCompare a b < 0) item = pending
  have hperm : pending.Perm (item :: s.pending) := hp ▸ List.perm_orderedInsert _ item s.pending
  have hall : (s.calls.map Prod.fst ++ pending).Perm (item :: s.interrupts) :=
    (hperm.append_left _).trans List.perm_middle
  have hmem : ∀ x ∈ pending, x = item ∨ x ∈ s.pending := fun x hx =>
    List.mem_cons.1 (hperm.mem_iff.1 hx)
  have hmemAll : ∀ x ∈ s.calls.map Prod.fst ++ pending, x = item ∨ x ∈ s.interrupts := fun x hx =>
    List.mem_cons.1 (hall.mem_iff.1 hx)
  obtain ⟨hcalls, hpending, hcross⟩ := List.pairwise_append.1 h.sorted
  have hold : ∀ x ∈ s.pending, x.id < item.id := by
    intro x hx
    rw [hid]
    exact h.ids x (List.mem_append_right _ hx)
  refine ⟨⟨⟨?_, ?_, ?_, ?_, ?_, h.called, h.inRange, h.parts, h.ticks⟩, rfl, rfl, rfl⟩, ?_⟩
  · refine List.pairwise_append.2 ⟨hcalls, ?_, fun a ha b hb => ?_⟩
    · rw [← hp]
      refine pairwise_orderedInsert hpending (fun b _ hr => ?_) (fun b hb hr => ?_)
        fun b c => Before.trans
      · exact .inl (pendingCompare_neg.1 hr)
      · have hge : ¬ item.when < b.when := fun hlt => hr (pendingCompare_neg.2 hlt)
        have := hold b hb
        unfold Before
        omega
    · rcases hmem b hb with rfl | hb
      · -- it is due after now, and what was called was due by now
        obtain ⟨c, hc, rfl⟩ := List.mem_map.1 ha
        have := h.called c hc
        exact .inl (by omega)
      · exact hcross a ha b hb
  · show ((s.calls.map Prod.fst ++ pending).map (·.id)).Nodup
    rw [(hall.map _).nodup_iff, List.map_cons]
    refine List.nodup_cons.2 ⟨fun hin => ?_, h.nodup⟩
    obtain ⟨x, hx, hxid⟩ := List.mem_map.1 hin
    have := h.ids x hx
    omega
  · intro x hx
    show x.id < s.scheduled + 1
    rcases hmemAll x hx with rfl | hx
    · omega
    · have := h.ids x hx
      omega
  · intro x hx
    rcases hmemAll x hx with rfl | hx
    · exact hdue
    · exact h.exact x hx
  · intro x hx
    rcases hmem x hx with rfl | hx
    · omega
    · exact h.bounded x hx
  · intro x hx
    rcases hmem x hx with rfl | hx
    · exact .inr (by omega)
    · exact .inl hx

theorem perform_scheduled {a : Action κ} (h : s.Core)
    (hb : ∀ toCall fromNow type, a = .schedule toCall fromNow type →
      s.stats.totalTicks + fromNow < 2 ^ 31) (hs : s.perform a = .ok s') : s.Scheduled s' := by
  cases a with
  | schedule toCall fromNow type => exact (schedule_scheduled h (hb _ _ _ rfl) hs).1
  | yieldOnReturn =>
    obtain ⟨_, -, hs⟩ := bind_ok hs
    cases hs
    exact ⟨h.congr rfl rfl rfl rfl, rfl, rfl, rfl⟩

theorem performAll_scheduled {actions : List (Action κ)} (h : s.Core)
    (hb : ∀ toCall fromNow type, .schedule toCall fromNow type ∈ actions →
      s.stats.totalTicks + fromNow < 2 ^ 31) (hs : actions.foldlM perform s = .ok s') :
    s.Scheduled s' := by
  refine foldlM_inv (fun s' => s.Scheduled s') actions (fun a ha s1 s2 h1 h2 => ?_)
    ⟨h, rfl, rfl, rfl⟩ hs
  have h3 := perform_scheduled h1.core (fun toCall fromNow type hact => ?_) h2
  · exact ⟨h3.core, h3.calls.trans h1.calls, h3.stats.trans h1.stats, h3.caller.trans h1.caller⟩
  · rw [h1.stats]
    exact hb toCall fromNow type (hact ▸ ha)

theorem callNext_inv {callBack : Handlers κ σ} {c : Caller} (h : s.Inv) (hc : s.caller = some c)
    (hb : ∀ next rest, s.pending = next :: rest → ∀ world actions,
      callBack next.callOnInterrupt (s.removed next rest) = .ok (world, actions) →
        ∀ toCall fromNow type, .schedule toCall fromNow type ∈ actions →
          s.stats.totalTicks + fromNow < 2 ^ 31)
    (hs : s.callNext callBack c = .ok s') : s'.Inv ∧ s'.stats = s.stats := by
  have ha := h.busy (by rw [hc]; rfl)
  unfold again at ha
  unfold callNext at hs
  split at hs
  · cases hs
  · rename_i next rest hp
    rw [hp] at ha
    have hcore := core_removed h.toCore hp (of_decide_eq_true ha)
    obtain ⟨⟨world, actions⟩, hcall, hs⟩ := bind_ok hs
    obtain ⟨s1, hacts, hs⟩ := bind_ok hs
    cases hs
    have hsched := performAll_scheduled (s := { s.removed next rest with world })
      (hcore.congr rfl rfl rfl rfl) (hb next rest hp world actions hcall) hacts
    obtain ⟨hinv, hstats⟩ := endRound_inv hsched.core (hsched.caller.trans hc)
    exact ⟨hinv, hstats.trans hsched.stats⟩

end

end State

open State

/-! ## Runs -/

structure Delivered (s : State κ σ) : Prop where
  /-- an interrupt is called at most once, and is not pending then -/
  once : (s.interrupts.map (·.id)).Nodup
  notEarly : ∀ c ∈ s.calls, c.1.due ≤ c.2
  ordered : s.calls.Pairwise fun a b => a.1.due < b.1.due ∨ a.1.due = b.1.due ∧ a.1.id < b.1.id
  /-- outside of `CheckIfDue` -/
  returned : s.caller = none → ∀ x ∈ s.pending, s.stats.totalTicks < x.due
  ticks : s.stats.totalTicks = s.stats.idleTicks + s.stats.systemTicks + s.stats.userTicks

variable {s s' : State κ σ}

theorem delivered_of_inv (h : s.Inv) : Delivered s := by
  have hmem : ∀ c ∈ s.calls, c.1 ∈ s.interrupts := fun c hc =>
    List.mem_append_left _ (List.mem_map_of_mem hc)
  refine ⟨h.nodup, fun c hc => ?_, ?_, fun hc x hx => ?_, h.ticks⟩
  · rw [← h.exact c.1 (hmem c hc)]
    exact (h.called c hc).1
  · have hsorted := List.pairwise_map.1 (List.pairwise_append.1 h.sorted).1
    refine hsorted.imp_of_mem fun {a b} ha hb hab => ?_
    rw [← h.exact a.1 (hmem a ha), ← h.exact b.1 (hmem b hb)]
    exact hab
  · rw [← h.exact x (List.mem_append_right _ hx)]
    exact h.quiet hc x hx

theorem ok_of_toOption {α : Type} {x : Except Fault α} {a : α} (h : x.toOption = some a) :
    x = .ok a := by
  cases x with
  | error => cases h
  | ok b =>
    cases h
    rfl

theorem oneTick_inv (h : s.Inv) (hc : s.caller = none)
    (hb : s.stats.totalTicks + s.tickLength < 2 ^ 31) (hs : s.oneTick = .ok s') :
    s'.Inv ∧ s.stats.totalTicks ≤ s'.stats.totalTicks := by
  obtain ⟨hcore, hle⟩ := core_tick h.toCore hb
  have hcaller : s.tick.caller = none := by
    unfold tick
    split <;> exact hc
  obtain ⟨hinv, hle'⟩ := checkIfDue_inv (s := { s.tick with level := .intOff })
    (hcore.congr rfl rfl rfl rfl) hcaller hs
  exact ⟨hinv, Int.le_trans hle hle'⟩

section

variable [DecidableEq κ]

/-- Simulated time stays below `2 ^ 31` in this step. -/
def ClockBelow (s : State κ σ) : Event κ σ → Prop
  | .oneTick => s.stats.totalTicks + s.tickLength < 2 ^ 31
  | .setLevel .intOn => s.level = .intOff → s.stats.totalTicks + s.tickLength < 2 ^ 31
  | _ => True

/-- The interrupts that are scheduled in this step are due before `2 ^ 31`. -/
def DueBelow (callBack : Handlers κ σ) (s : State κ σ) : Event κ σ → Prop
  | .schedule _ fromNow _ => s.stats.totalTicks + fromNow < 2 ^ 31
  | .callNext => ∀ next rest, s.pending = next :: rest → ∀ world actions,
      callBack next.callOnInterrupt (s.removed next rest) = .ok (world, actions) →
        ∀ toCall fromNow type, .schedule toCall fromNow type ∈ actions →
          s.stats.totalTicks + fromNow < 2 ^ 31
  | _ => True

variable {callBack : Handlers κ σ}

theorem step_inv {event : Event κ σ} (h : s.Inv) (hclock : ClockBelow s event)
    (hdue : DueBelow callBack s event) (hs : step callBack s event = some s') :
    s'.Inv ∧ s.stats.totalTicks ≤ s'.stats.totalTicks := by
  unfold step at hs
  split at hs
  · cases hs
  · split at hs
    · rename_i c hc
      obtain ⟨hinv, hstats⟩ := callNext_inv h hc hdue (ok_of_toOption hs)
      exact ⟨hinv, Int.le_of_eq (congrArg Statistics.totalTicks hstats.symm)⟩
    · rename_i now hc
      have hs := ok_of_toOption hs
      obtain ⟨_, -, hs⟩ := bind_ok hs
      split at hs
      · rename_i hon
        obtain ⟨rfl, hoff⟩ := hon
        exact oneTick_inv (s := { s with level := .intOn })
          ⟨h.toCore.congr rfl rfl rfl rfl, h.quiet, h.busy⟩ hc (hclock hoff) hs
      · cases hs
        exact ⟨⟨h.toCore.congr rfl rfl rfl rfl, h.quiet, h.busy⟩, Int.le_refl _⟩
    · rename_i hc
      exact oneTick_inv h hc hclock (ok_of_toOption hs)
    · rename_i hc
      exact checkIfDue_inv (s := { s with status := .idleMode }) (h.toCore.congr rfl rfl rfl rfl) hc
        (ok_of_toOption hs)
    · cases hs
      exact ⟨⟨h.toCore.congr rfl rfl rfl rfl, h.quiet, h.busy⟩, Int.le_refl _⟩
    · rename_i hc
      obtain ⟨hsched, hnew⟩ := schedule_scheduled h.toCore hdue (ok_of_toOption hs)
      refine ⟨⟨hsched.core, fun _ x hx => ?_, fun hsome => ?_⟩, ?_⟩
      · rw [hsched.stats]
        exact (hnew x hx).elim (h.quiet hc x) id
      · rw [hsched.caller, hc] at hsome
        cases hsome
      · exact Int.le_of_eq (congrArg Statistics.totalTicks hsched.stats.symm)
    · cases hs
      exact ⟨⟨h.toCore.congr rfl rfl rfl rfl, h.quiet, h.busy⟩, Int.le_refl _⟩
    · cases hs

omit [DecidableEq κ] in
theorem new_inv (world : σ) : (State.new world : State κ σ).Inv :=
  ⟨⟨.nil, List.nodup_nil, nofun, nofun, nofun, nofun, ⟨Int.le_refl 0, by show (0 : Int) < 2 ^ 31; decide⟩,
    ⟨Int.le_refl 0, Int.le_refl 0, Int.le_refl 0⟩, rfl⟩, fun _ => nofun, nofun⟩

/-- **Interrupts are delivered once, in time and in order**, and the clock does not go back, in every run
in which simulated time, and what is scheduled, stays below `2 ^ 31`. -/
theorem interrupts_delivered {world : σ}
    (hrun : Runs (step callBack) (fun s e => ClockBelow s e ∧ DueBelow callBack s e) (.new world) s) :
    Delivered s ∧
      ∀ s', Runs (step callBack) (fun s e => ClockBelow s e ∧ DueBelow callBack s e) s s' →
        s.stats.totalTicks ≤ s'.stats.totalTicks := by
  have h : s.Inv := hrun.invariant (new_inv world) fun _ _ _ hi hC hs => (step_inv hi hC.1 hC.2 hs).1
  refine ⟨delivered_of_inv h, fun s' hrun' => ?_⟩
  refine (hrun'.invariant (I := fun s' => s'.Inv ∧ s.stats.totalTicks ≤ s'.stats.totalTicks)
    ⟨h, Int.le_refl _⟩ fun _ _ _ hi hC hs => ?_).2
  obtain ⟨hinv, hle⟩ := step_inv hi.1 hC.1 hC.2 hs
  exact ⟨hinv, Int.le_trans hi.2 hle⟩

end

/-- An object that does nothing, and one that schedules the other. -/
def lateHandlers (fromNow : Int) : Handlers Bool Unit := fun toCall _ =>
  .ok ((), if toCall then [.schedule false fromNow .timerInt] else [])

def oneInterrupt (toCall : Bool) : List (Event Bool Unit) :=
  [.schedule toCall 5 .timerInt, .setLevel .intOn, .callNext]

def threeInterrupts : List (Event Bool Unit) :=
  [.schedule true 5 .timerInt, .schedule false 5 .timerInt, .setLevel .intOn, .callNext, .callNext,
    .oneTick, .callNext]

theorem clockBelow_of_check {s : State Bool Unit} {event : Event Bool Unit}
    (h : decide (s.stats.totalTicks + s.tickLength < 2 ^ 31) = true) : ClockBelow s event := by
  have hb := of_decide_eq_true h
  cases event with
  | oneTick => exact hb
  | setLevel now =>
    cases now with
    | intOn => exact fun _ => hb
    | intOff => trivial
  | _ => trivial

theorem interrupts_delivered_once : ∃ s : State Bool Unit,
    Runs (step (lateHandlers 5)) (fun s e => ClockBelow s e ∧ DueBelow (lateHandlers 5) s e) (.new ()) s ∧
      s.calls.map (fun c => (c.1.id, c.1.when, c.2)) = [(0, 5, 10), (1, 5, 10), (2, 15, 20)] ∧
      Delivered s := by
  have h : (runChecked (step (lateHandlers 5))
      (fun s e => decide (s.stats.totalTicks + s.tickLength < 2 ^ 31) &&
        decide (s.stats.totalTicks + 5 < 2 ^ 31) &&
        match e with
        | .schedule _ fromNow _ => decide (fromNow = 5)
        | _ => true)
      (.new ()) threeInterrupts).any (fun s => decide (s.calls.map (fun c => (c.1.id, c.1.when, c.2)) =
        [(0, 5, 10), (1, 5, 10), (2, 15, 20)])) = true := by
    decide +kernel
  obtain ⟨s, hs, hcalls⟩ := (Option.any_eq_true _ _).1 h
  have hrun : Runs (step (lateHandlers 5))
      (fun s e => ClockBelow s e ∧ DueBelow (lateHandlers 5) s e) (.new ()) s := by
    refine runs_of_runChecked (fun s e hc => ?_) hs
    obtain ⟨hc, he⟩ := Bool.and_eq_true_iff.1 hc
    obtain ⟨hclock, h5⟩ := Bool.and_eq_true_iff.1 hc
    have hb : s.stats.totalTicks + 5 < 2 ^ 31 := of_decide_eq_true h5
    refine ⟨clockBelow_of_check hclock, ?_⟩
    cases e with
    | schedule toCall fromNow type =>
      rw [show fromNow = 5 from of_decide_eq_true he]
      exact hb
    | callNext =>
      intro next rest hp world actions hcall toCall fromNow type hmem
      cases hcall
      split at hmem
      · cases List.mem_singleton.1 hmem
        exact hb
      · cases hmem
    | _ => trivial
  exact ⟨s, hrun, of_decide_eq_true hcalls, (interrupts_delivered hrun).1⟩

/-- At time 10 a handler schedules an interrupt for time 2147483657, and it is called at once. -/
theorem interrupts_not_delivered : ∃ s : State Bool Unit,
    Runs (step (lateHandlers 2147483647)) ClockBelow (.new ()) s ∧ s.stats.totalTicks = 10 ∧ ¬ Delivered s := by
  have h : (runChecked (step (lateHandlers 2147483647))
      (fun s _ => decide (s.stats.totalTicks + s.tickLength < 2 ^ 31))
      (.new ()) (oneInterrupt true ++ [.callNext])).any (fun s =>
        decide (s.stats.totalTicks = 10) && s.calls.any fun c => decide (c.2 < c.1.due)) = true := by
    decide +kernel
  obtain ⟨s, hs, hs'⟩ := (Option.any_eq_true _ _).1 h
  obtain ⟨hten, hearly⟩ := Bool.and_eq_true_iff.1 hs'
  refine ⟨s, runs_of_runChecked (fun _ _ => clockBelow_of_check) hs, of_decide_eq_true hten, fun hd => ?_⟩
  obtain ⟨c, hc, hlt⟩ := List.any_eq_true.1 hearly
  exact absurd (hd.notEarly c hc) (Int.not_le.2 (of_decide_eq_true hlt))

end Nachos.Interrupt
