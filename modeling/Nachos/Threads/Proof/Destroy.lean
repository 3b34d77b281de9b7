import Nachos.Base.Runs
import Nachos.Threads.Scheduler
import Nachos.Threads.Thread
import Mathlib.Data.List.Nodup
import Mathlib.Data.List.Perm.Basic

/-!
# Finished threads are destroyed once

`Inv` is the invariant of the scheduler on runs in which threads finish only while `addrLock` is free:
each thread that can run is in one place, a finished thread has been deleted or is the one that the
next thread deletes, and then the lock is free. It speaks of a `View` of the state, without the
machine. `destroyed_once` is the result for all these runs, and `destroyed_twice` a run in which a thread
finishes while the lock is held. `Sees` connects the scheduler here with the one under interrupts.
-/

namespace Nachos

open Base
open Function (comp_update update update_eq_self update_of_ne update_self)

namespace Scheduler

@[ext]
structure View where
  currentThread : Tid
  phase : Phase
  readyList : List Tid
  toBeDestroyed : Option Tid
  addrLock : Semaphore Nat
  next : Tid
  stopped : Option StopReason
  deletes : Tid → Nat
  clears : Tid → Nat
  activity : Tid → Activity
  destroys : Tid → List Tid
  hasSpace : Tid → Bool

def State.view (s : State) : View where
  currentThread := s.currentThread
  phase := s.phase
  readyList := s.readyList
  toBeDestroyed := s.toBeDestroyed
  addrLock := s.addrLock
  next := s.next
  stopped := s.stopped
  deletes := s.deletes
  clears := s.clears
  activity := s.activity
  destroys := s.destroys
  hasSpace t := (s.space t).isSome

namespace View

def Sleeps (v : View) : Prop := ∃ finishing, v.phase = .sleeping finishing

def onCPU (v : View) : List Tid :=
  match v.phase with
  | .sleeping _ => []
  | _ => [v.currentThread]

def placed (v : View) : List Tid := v.onCPU ++ v.readyList ++ v.addrLock.queue

def Awaits (v : View) (t : Tid) : Prop :=
  v.toBeDestroyed = some t ∨ v.phase = .sleeping true ∧ v.currentThread = t

def Gone (v : View) (t : Tid) : Prop :=
  v.deletes t = 1 ∧ v.clears t = if v.hasSpace t then 1 else 0

def Placeable (v : View) (t : Tid) : Prop :=
  t < v.next ∧ v.activity t ≠ .finished ∧ v.activity t ≠ .elsewhere

variable {v : View} {t : Tid}

theorem Placeable.lt (h : v.Placeable t) : t < v.next := h.1
theorem Placeable.notFinished (h : v.Placeable t) : v.activity t ≠ .finished := h.2.1
theorem Placeable.notElsewhere (h : v.Placeable t) : v.activity t ≠ .elsewhere := h.2.2

structure Inv (v : View) : Prop where
  reason : v.stopped ≠ some .toBeDestroyedSet
  destroys : ∀ t, v.destroys t = []
  fresh : ∀ t, v.next ≤ t → v.activity t = .user
  current : v.currentThread < v.next
  nodup : v.placed.Nodup
  placed : ∀ t ∈ v.placed, v.Placeable t
  queue : ∀ t ∈ v.addrLock.queue, ∃ sec, v.activity t = .acquiring sec
  alive : ∀ t, v.activity t ≠ .finished → v.deletes t = 0 ∧ v.clears t = 0
  dead : ∀ t, v.activity t = .finished → v.Gone t ∨ v.Awaits t
  awaits : ∀ t, v.Awaits t → v.activity t = .finished ∧ v.deletes t = 0 ∧ v.clears t = 0
  free : ∀ t, v.Awaits t → v.addrLock.value ≠ 0
  marked : v.toBeDestroyed ≠ none → v.phase = .switched

variable {v : View} {b : Activity}

theorem onCPU_running (h : ¬ v.Sleeps) : v.onCPU = [v.currentThread] := by
  unfold onCPU
  split
  · exact absurd ⟨_, ‹_›⟩ h
  · rfl

theorem onCPU_sleeping (h : v.Sleeps) : v.onCPU = [] := by
  obtain ⟨finishing, h⟩ := h
  rw [onCPU, h]

theorem not_sleeps_of {p : Phase} (h : v.phase = p) (hp : ∀ f, p ≠ .sleeping f) : ¬ v.Sleeps :=
  fun ⟨f, hf⟩ => hp f (h.symm.trans hf)

theorem Inv.unmarked (h : v.Inv) (hp : v.phase ≠ .switched) : v.toBeDestroyed = none := by
  by_contra hne
  exact hp (h.marked hne)

theorem not_awaits_of (hn : v.toBeDestroyed = none) (hp : v.phase ≠ .sleeping true) (u : Tid) :
    ¬ v.Awaits u := by
  rintro (hw | ⟨hw, -⟩)
  · exact nomatch hn.symm.trans hw
  · exact hp hw

def rearrange (v : View) (currentThread : Tid) (phase : Phase) (readyList : List Tid)
    (addrLock : Semaphore Nat) : View :=
  { v with currentThread, phase, readyList, addrLock }

theorem Inv.rearrange (h : v.Inv) (hn : v.toBeDestroyed = none) (hs : v.phase ≠ .sleeping true)
    (phase : Phase) (hs' : phase ≠ .sleeping true) (hlt : t < v.next) {readyList : List Tid}
    {addrLock : Semaphore Nat} (hp : (v.rearrange t phase readyList addrLock).placed.Perm v.placed)
    (hq : ∀ u ∈ addrLock.queue, ∃ sec, v.activity u = .acquiring sec) :
    (v.rearrange t phase readyList addrLock).Inv :=
  have hno := not_awaits_of (v := v.rearrange t phase readyList addrLock) hn hs'
  { h with
    current := hlt
    nodup := hp.nodup_iff.2 h.nodup
    placed := fun u hu => h.placed u (hp.mem_iff.1 hu)
    queue := hq
    dead := fun u hu => .inl ((h.dead u hu).resolve_right (not_awaits_of hn hs u))
    awaits := fun u hw => absurd hw (hno u)
    free := fun u hw => absurd hw (hno u)
    marked := fun hne => absurd hn hne }

def switchTo (v : View) (t : Tid) (readyList : List Tid) : View :=
  { v with currentThread := t, phase := .switched, readyList := readyList }

theorem Inv.switchTo (h : v.Inv) (hu : v.toBeDestroyed = none) (hs : v.phase ≠ .sleeping true)
    (t : Tid) (readyList : List Tid) (hp : (v.switchTo t readyList).placed.Perm v.placed) :
    (v.switchTo t readyList).Inv := by
  have ht : t ∈ v.placed := by
    rw [← hp.mem_iff]
    exact List.mem_append_left _ (List.mem_append_left _ (List.mem_singleton_self t))
  exact h.rearrange hu hs .switched nofun (h.placed t ht).lt hp h.queue

theorem Inv.finishTo (h : v.Inv) (hp : v.phase = .sleeping true) {readyList : List Tid}
    (hr : v.readyList = t :: readyList) :
    Inv { v.switchTo t readyList with toBeDestroyed := some v.currentThread } := by
  have hw : v.Awaits v.currentThread := .inr ⟨hp, rfl⟩
  have hu := h.unmarked (by rw [hp]; exact nofun)
  have hplaced : View.placed { v.switchTo t readyList with toBeDestroyed := some v.currentThread } =
      v.placed := by
    rw [View.placed, View.placed, onCPU_sleeping ⟨true, hp⟩, hr]
    rfl
  have hlt : t < v.next := by
    refine (h.placed t ?_).lt
    rw [← hplaced]
    exact List.mem_append_left _ (List.mem_append_left _ (List.mem_singleton_self t))
  have honly : ∀ u, View.Awaits { v.switchTo t readyList with
      toBeDestroyed := some v.currentThread } u → u = v.currentThread := by
    rintro u (hw' | ⟨hw', -⟩)
    · exact (Option.some.inj hw').symm
    · cases hw'
  exact { h with
    current := hlt
    nodup := hplaced ▸ h.nodup
    placed := fun u hu => h.placed u (by rw [← hplaced]; exact hu)
    dead := fun u hfin => by
      rcases h.dead u hfin with hg | hw' | ⟨-, rfl⟩
      · exact .inl hg
      · rw [hu] at hw'
        cases hw'
      · exact .inr (.inl rfl)
    awaits := fun u hw' => by
      rw [honly u hw']
      exact h.awaits _ hw
    free := fun u _ => h.free _ hw
    marked := fun _ => rfl }

/-! ### Moves of one thread -/

def put (v : View) (t : Tid) (b : Activity) : View :=
  { v with activity := Function.update v.activity t b }

theorem activity_put_of_ne {u : Tid} (h : u ≠ t) : (v.put t b).activity u = v.activity u :=
  update_of_ne h _ _

theorem activity_put_self : (v.put t b).activity t = b :=
  update_self _ _ _

theorem finished_put (ht : v.activity t ≠ .finished) (hb : b ≠ .finished)
    (u : Tid) : (v.put t b).activity u = .finished ↔ v.activity u = .finished := by
  by_cases hu : u = t
  · subst hu
    rw [activity_put_self]
    exact iff_of_false hb ht
  · rw [activity_put_of_ne hu]

structure Same (v v' : View) : Prop where
  destroys : v'.destroys = v.destroys
  stopped : v'.stopped = v.stopped
  deletes : v'.deletes = v.deletes
  clears : v'.clears = v.clears
  toBeDestroyed : v'.toBeDestroyed = v.toBeDestroyed

structure Moves (v v' : View) (t : Tid) (b : Activity) : Prop where
  activity : v'.activity = (v.put t b).activity
  hasSpace : ∀ u, u ≠ t → v'.hasSpace u = v.hasSpace u
  next : v.next ≤ v'.next
  lt : t < v'.next
  current : v'.currentThread < v'.next
  nodup : v'.placed.Nodup
  placed : ∀ u ∈ v'.placed, u ≠ t → u ∈ v.placed
  queue : ∀ u ∈ v'.addrLock.queue, u ≠ t → u ∈ v.addrLock.queue

theorem Inv.move (h : v.Inv) {v' : View} (hs : Same v v')
    (hm : Moves v v' t b) (ht : v.activity t ≠ .finished) (hb : b ≠ .finished)
    (he : t ∈ v'.placed → b ≠ .elsewhere) (hq : t ∈ v'.addrLock.queue → ∃ sec, b = .acquiring sec)
    (hw : ∀ u, v'.Awaits u ↔ v.Awaits u) (hfree : (∃ u, v.Awaits u) → v'.addrLock.value ≠ 0)
    (hmark : v.toBeDestroyed ≠ none → v'.phase = .switched) : v'.Inv := by
  have hfin : ∀ u, v'.activity u = .finished ↔ v.activity u = .finished := by
    intro u
    rw [hm.activity]
    exact finished_put ht hb u
  have hne : ∀ u, u ≠ t → v'.activity u = v.activity u := by
    intro u hu
    rw [hm.activity]
    exact activity_put_of_ne hu
  have hself : v'.activity t = b := by
    rw [hm.activity]
    exact activity_put_self
  refine ⟨?_, ?_, ?_, hm.current, hm.nodup, ?_, ?_, ?_, ?_, ?_, ?_, ?_⟩
  · rw [hs.stopped]
    exact h.reason
  · rw [hs.destroys]
    exact h.destroys
  · intro u hu
    rw [hne u (Nat.ne_of_gt (Nat.lt_of_lt_of_le hm.lt hu))]
    exact h.fresh u (Nat.le_trans hm.next hu)
  · intro u hu
    by_cases hut : u = t
    · subst hut
      exact ⟨hm.lt, by rw [hself]; exact hb, by rw [hself]; exact he hu⟩
    · have hpl := h.placed u (hm.placed u hu hut)
      exact ⟨Nat.lt_of_lt_of_le hpl.lt hm.next, by rw [hne u hut]; exact hpl.notFinished,
        by rw [hne u hut]; exact hpl.notElsewhere⟩
  · intro u hu
    by_cases hut : u = t
    · subst hut
      rw [hself]
      exact hq hu
    · rw [hne u hut]
      exact h.queue u (hm.queue u hu hut)
  · intro u hu
    rw [hs.deletes, hs.clears]
    exact h.alive u fun hf => hu ((hfin u).2 hf)
  · intro u hu
    rw [hfin] at hu
    have hut : u ≠ t := by
      rintro rfl
      exact ht hu
    rcases h.dead u hu with hg | haw
    · refine .inl ⟨by rw [hs.deletes]; exact hg.1, ?_⟩
      rw [hs.clears, hm.hasSpace u hut]
      exact hg.2
    · exact .inr ((hw u).2 haw)
  · intro u hu
    rw [hs.deletes, hs.clears, hfin]
    exact h.awaits u ((hw u).1 hu)
  · intro u hu
    exact hfree ⟨u, (hw u).1 hu⟩
  · intro hne
    refine hmark ?_
    rwa [hs.toBeDestroyed] at hne

theorem currentThread_mem_placed (hs : ¬ v.Sleeps) : v.currentThread ∈ v.placed := by
  rw [View.placed, onCPU_running hs]
  exact List.mem_append_left _ (List.mem_append_left _ (List.mem_singleton_self _))

theorem Inv.currentThread_notMem (h : v.Inv) (hs : ¬ v.Sleeps) :
    v.currentThread ∉ v.readyList ∧ v.currentThread ∉ v.addrLock.queue := by
  have := h.nodup
  rw [View.placed, onCPU_running hs, List.append_assoc, List.singleton_append, List.nodup_cons,
    List.mem_append, not_or] at this
  exact this.1

theorem Inv.unmarked_of_running (h : v.Inv) (hp : v.phase = .running) : v.toBeDestroyed = none :=
  h.unmarked (by rw [hp]; exact nofun)

theorem Inv.not_awaits (h : v.Inv) (hp : v.phase = .running) (u : Tid) : ¬ v.Awaits u :=
  not_awaits_of (h.unmarked_of_running hp) (by rw [hp]; exact nofun) u

theorem Inv.setCurrent (h : v.Inv) (hs : ¬ v.Sleeps) (hf : b ≠ .finished)
    (he : b ≠ .elsewhere) (space : Bool) :
    Inv { v.put v.currentThread b with
      hasSpace := update v.hasSpace v.currentThread space } := by
  have hcur := h.placed _ (currentThread_mem_placed hs)
  refine h.move ⟨rfl, rfl, rfl, rfl, rfl⟩ ⟨rfl, fun u hu => update_of_ne hu _ _,
    Nat.le_refl _, hcur.lt, hcur.lt, h.nodup, fun u hu _ => hu, fun u hu _ => hu⟩ hcur.notFinished hf
    (fun _ => he) ?_ (fun u => Iff.rfl) ?_ h.marked
  · intro hq
    exact absurd hq (h.currentThread_notMem hs).2
  · rintro ⟨u, hu⟩
    exact h.free u hu

theorem Inv.wait (h : v.Inv) (hp : v.phase = .running) :
    Inv { v.put v.currentThread .elsewhere with phase := .sleeping false } := by
  have hs := not_sleeps_of hp nofun
  have hcur := h.placed _ (currentThread_mem_placed hs)
  have hnd := h.nodup
  rw [View.placed, onCPU_running hs, List.append_assoc, List.singleton_append,
    List.nodup_cons] at hnd
  refine h.move ⟨rfl, rfl, rfl, rfl, rfl⟩ ⟨rfl, fun _ _ => rfl, Nat.le_refl _, hcur.lt, hcur.lt,
    hnd.2, fun u hu _ => ?_, fun u hu _ => hu⟩ hcur.notFinished nofun
    (fun hmem => absurd hmem hnd.1) (fun hq => ?_) (fun u => ?_) ?_ ?_
  · rw [View.placed, List.append_assoc]
    exact List.mem_append_right _ hu
  · exact absurd hq (h.currentThread_notMem hs).2
  · exact iff_of_false (not_awaits_of (v := { v with phase := .sleeping false })
      (h.unmarked_of_running hp) nofun u) (h.not_awaits hp u)
  · rintro ⟨u, hu⟩
    exact h.free u hu
  · intro hne
    exact absurd (h.unmarked (by rw [hp]; exact nofun)) hne

theorem perm_placed_ready (v : View) (t : Tid) :
    (v.onCPU ++ (v.readyList ++ [t]) ++ v.addrLock.queue).Perm (t :: v.placed) := by
  rw [← List.append_assoc, List.append_assoc _ [t]]
  exact List.perm_middle

theorem Inv.makeReady (h : v.Inv) {next : Tid} (hnot : t ∉ v.placed)
    (hfin : v.activity t ≠ .finished) (hnext : v.next ≤ next) (hlt : t < next) (hb : b ≠ .finished)
    (he : b ≠ .elsewhere) (space : Bool) :
    Inv { v.put t b with
      next, readyList := v.readyList ++ [t], hasSpace := update v.hasSpace t space } := by
  have hperm := v.perm_placed_ready t
  refine h.move ⟨rfl, rfl, rfl, rfl, rfl⟩ ⟨rfl, fun u hu => update_of_ne hu _ _, hnext, hlt,
    Nat.lt_of_lt_of_le h.current hnext, ?_, fun u hu hut => ?_, fun u hu _ => hu⟩ hfin hb
    (fun _ => he) (fun hq => ?_) (fun u => Iff.rfl) ?_ h.marked
  · refine hperm.nodup_iff.2 ?_
    rw [List.nodup_cons]
    exact ⟨hnot, h.nodup⟩
  · rcases List.mem_cons.1 (hperm.mem_iff.1 hu) with rfl | hu
    · exact absurd rfl hut
    · exact hu
  · exact absurd (List.mem_append_right _ hq) hnot
  · rintro ⟨u, hu⟩
    exact h.free u hu

theorem Inv.wake (h : v.Inv) (ht : v.activity t = .elsewhere) :
    Inv { v.put t .user with readyList := v.readyList ++ [t] } := by
  have hlt : t < v.next := by
    by_contra hge
    exact nomatch ht.symm.trans (h.fresh t (Nat.not_lt.1 hge))
  have := h.makeReady (b := .user) (fun hmem => (h.placed t hmem).notElsewhere ht)
    (by rw [ht]; exact nofun) (Nat.le_refl _) hlt nofun nofun (v.hasSpace t)
  rwa [update_eq_self] at this

theorem Inv.fork (h : v.Inv) (space : Bool) :
    Inv { v.put v.next .created with
      next := v.next + 1, readyList := v.readyList ++ [v.next],
      destroys := update v.destroys v.next [],
      hasSpace := update v.hasSpace v.next space } := by
  have hdes : update v.destroys v.next [] = v.destroys := by
    rw [← h.destroys v.next]
    exact update_eq_self _ _
  rw [hdes]
  exact h.makeReady (b := .created) (fun hmem => absurd (h.placed _ hmem).lt (Nat.lt_irrefl _))
    (by rw [h.fresh v.next (Nat.le_refl _)]; exact nofun) (Nat.le_succ _) (Nat.lt_succ_self _)
    nofun nofun space

/-! ### The lock -/

theorem Inv.setValue (h : v.Inv) (hp : v.phase = .running) (value : Nat) :
    Inv { v with addrLock := { v.addrLock with value } } :=
  { h with free := fun u hu => absurd hu (h.not_awaits hp u) }

theorem Inv.block (h : v.Inv) (hp : v.phase = .running) {sec : Section}
    (ha : v.activity v.currentThread = .acquiring sec) :
    Inv { v with
      addrLock := { v.addrLock with queue := v.addrLock.queue ++ [v.currentThread] },
      phase := .sleeping false } := by
  have hs := not_sleeps_of hp nofun
  have hperm : (v.readyList ++ (v.addrLock.queue ++ [v.currentThread])).Perm v.placed := by
    rw [View.placed, onCPU_running hs, ← List.append_assoc, List.append_assoc [v.currentThread]]
    exact List.perm_append_comm
  refine h.rearrange (h.unmarked_of_running hp) (by rw [hp]; exact nofun) (.sleeping false) nofun
    h.current hperm ?_
  intro u hu
  rcases List.mem_append.1 hu with hu | hu
  · exact h.queue u hu
  · rw [List.mem_singleton.1 hu]
    exact ⟨sec, ha⟩

def unlock (v : View) : View :=
  { v with addrLock := v.addrLock.v.1, readyList := v.readyList ++ v.addrLock.queue.head?.toList }

theorem placed_unlock (v : View) : v.unlock.placed = v.placed := by
  unfold placed
  show v.onCPU ++ (v.readyList ++ v.addrLock.queue.head?.toList) ++ v.addrLock.queue.tail =
    v.onCPU ++ v.readyList ++ v.addrLock.queue
  cases v.addrLock.queue with
  | nil => simp
  | cons t queue => simp

theorem Inv.unlock (h : v.Inv) : v.unlock.Inv :=
  { h with
    nodup := v.placed_unlock ▸ h.nodup
    placed := fun u hu => h.placed u (by rw [← v.placed_unlock]; exact hu)
    queue := fun u hu => h.queue u (List.mem_of_mem_tail hu)
    free := fun _ _ => Nat.succ_ne_zero _ }

/-! ### The end of a thread -/

theorem Inv.finish (h : v.Inv) (hp : v.phase = .running) (hfree : v.addrLock.value ≠ 0) :
    Inv { v.put v.currentThread .finished with phase := .sleeping true } := by
  have hs := not_sleeps_of hp nofun
  have hcur := h.placed _ (currentThread_mem_placed hs)
  have hnd := h.nodup
  rw [View.placed, onCPU_running hs, List.append_assoc, List.singleton_append,
    List.nodup_cons] at hnd
  have hwho : ∀ u, View.Awaits { v.put v.currentThread .finished with phase := .sleeping true } u →
      u = v.currentThread := by
    rintro u (hw | ⟨-, hw⟩)
    · exact absurd (.inl hw) (h.not_awaits hp u)
    · exact hw.symm
  have hput : ∀ u, u ≠ v.currentThread →
      update v.activity v.currentThread .finished u = v.activity u :=
    fun u hu => update_of_ne hu _ _
  refine { h with fresh := fun u hu => ?_, nodup := hnd.2, placed := fun u hu => ?_,
                  queue := fun u hu => ?_, alive := fun u hu => ?_, dead := fun u hu => ?_,
                  awaits := fun u hu => ?_, free := fun _ _ => hfree, marked := fun hne => ?_ }
  · show update v.activity v.currentThread .finished u = _
    rw [hput u (Nat.ne_of_gt (Nat.lt_of_lt_of_le h.current hu))]
    exact h.fresh u hu
  · have huc : u ≠ v.currentThread := by
      rintro rfl
      exact hnd.1 hu
    have hpl := h.placed u (by
      rw [View.placed, List.append_assoc]
      exact List.mem_append_right _ hu)
    refine ⟨hpl.lt, ?_, ?_⟩
    · show update v.activity v.currentThread .finished u ≠ _
      rw [hput u huc]
      exact hpl.notFinished
    · show update v.activity v.currentThread .finished u ≠ _
      rw [hput u huc]
      exact hpl.notElsewhere
  · show ∃ sec, update v.activity v.currentThread .finished u = _
    rw [hput u (by rintro rfl; exact (h.currentThread_notMem hs).2 hu)]
    exact h.queue u hu
  · have huc : u ≠ v.currentThread := by
      rintro rfl
      exact hu (update_self _ _ _)
    refine h.alive u fun hf => hu ?_
    exact (hput u huc).trans hf
  · by_cases huc : u = v.currentThread
    · exact .inr (.inr ⟨rfl, huc.symm⟩)
    · have hf : v.activity u = .finished := (hput u huc).symm.trans hu
      exact .inl ((h.dead u hf).resolve_right (h.not_awaits hp u))
  · rw [hwho u hu]
    exact ⟨update_self _ _ _, h.alive _ hcur.notFinished⟩
  · exact absurd (h.unmarked (by rw [hp]; exact nofun)) hne

theorem placed_running (hp : v.phase = .switched) (toBeDestroyed : Option Tid)
    (deletes clears : Tid → Nat) :
    View.placed { v with phase := .running, toBeDestroyed, deletes, clears } = v.placed := by
  rw [View.placed, View.placed, onCPU_running (not_sleeps_of hp nofun)]
  rfl

theorem Inv.resume (h : v.Inv) (hp : v.phase = .switched) (hn : v.toBeDestroyed = none) :
    Inv { v with phase := .running } :=
  h.rearrange hn (by rw [hp]; exact nofun) .running nofun h.current
    (List.Perm.of_eq (placed_running hp _ _ _)) h.queue

theorem Inv.destroyed (h : v.Inv) (ht : v.toBeDestroyed = some t) :
    Inv { v with
      toBeDestroyed := none, phase := .running,
      deletes := update v.deletes t (v.deletes t + 1),
      clears := update v.clears t (v.clears t + if v.hasSpace t then 1 else 0) } := by
  have hp : v.phase = .switched := h.marked (by rw [ht]; exact nofun)
  obtain ⟨hfin, hdel, hclr⟩ := h.awaits t (.inl ht)
  have hplaced := placed_running hp none (update v.deletes t (v.deletes t + 1))
    (update v.clears t (v.clears t + if v.hasSpace t then 1 else 0))
  have hno := not_awaits_of (v := { v with
    toBeDestroyed := none, phase := .running,
    deletes := update v.deletes t (v.deletes t + 1),
    clears := update v.clears t (v.clears t + if v.hasSpace t then 1 else 0) }) rfl nofun
  have hupd : ∀ (f : Tid → Nat) (n : Nat) u, u ≠ t → update f t n u = f u :=
    fun f n u hu => update_of_ne hu _ _
  refine { h with nodup := hplaced ▸ h.nodup, placed := fun u hu => ?_, alive := fun u hu => ?_,
                  dead := fun u hu => ?_, awaits := fun u hu => absurd hu (hno u),
                  free := fun u hu => absurd hu (hno u), marked := fun hne => absurd rfl hne }
  · exact h.placed u (by rw [← hplaced]; exact hu)
  · have hut : u ≠ t := by
      rintro rfl
      exact hu hfin
    show update v.deletes t _ u = 0 ∧ update v.clears t _ u = 0
    rw [hupd _ _ u hut, hupd _ _ u hut]
    exact h.alive u hu
  · refine .inl ?_
    by_cases hut : u = t
    · subst hut
      refine ⟨?_, ?_⟩
      · show update v.deletes u _ u = 1
        rw [update_self, hdel]
      · show update v.clears u _ u = _
        rw [update_self, hclr, Nat.zero_add]
    · have hg := (h.dead u hu).resolve_right (by
        rintro (hw | ⟨hw, -⟩)
        · rw [ht] at hw
          exact hut (Option.some.inj hw).symm
        · rw [hp] at hw
          cases hw)
      refine ⟨?_, ?_⟩
      · show update v.deletes t _ u = 1
        rw [hupd _ _ u hut]
        exact hg.1
      · show update v.clears t _ u = _
        rw [hupd _ _ u hut]
        exact hg.2

end View

/-! ## The steps of the scheduler on the view -/

namespace State

variable {s s' : State} {t : Tid}

theorem view_setThread (t : Tid) (f : Thread → Thread) :
    (s.setThread t f).view = { s.view with
      activity := update s.view.activity t (f (s.threads t)).activity
      destroys := update s.view.destroys t (f (s.threads t)).destroys
      hasSpace := update s.view.hasSpace t (f (s.threads t)).space.isSome } := by
  have hact := comp_update Thread.activity s.threads t (f (s.threads t))
  have hdes := comp_update Thread.destroys s.threads t (f (s.threads t))
  have hspc := comp_update (fun th => th.space.isSome) s.threads t (f (s.threads t))
  ext1 <;> first | rfl | exact hact | exact hdes | exact hspc

theorem view_setActivity (t : Tid) (b : Activity) :
    (s.setActivity t b).view = s.view.put t b := by
  rw [setActivity, view_setThread]
  ext1 <;> try rfl
  · exact update_eq_self _ _
  · exact update_eq_self _ _

@[simp] theorem view_saveUserState (t : Tid) : (s.saveUserState t).view = s.view := by
  unfold saveUserState
  split
  · rfl
  · rw [view_setThread]
    ext1 <;> try rfl
    · exact update_eq_self _ _
    · exact update_eq_self _ _
    · exact update_eq_self _ _

@[simp] theorem view_restoreUserState (t : Tid) : (s.restoreUserState t).view = s.view := by
  unfold restoreUserState
  split <;> rfl

theorem view_run_false (t : Tid) :
    (s.run t false).view = { s.view with currentThread := t, phase := .switched } := by
  have h := view_saveUserState (s := s) s.currentThread
  unfold run
  rw [← h]
  rfl

theorem view_run_true (h : s.toBeDestroyed = none) (t : Tid) :
    (s.run t true).view = { s.view with
      currentThread := t, phase := .switched, toBeDestroyed := some s.currentThread } := by
  have h' := view_saveUserState (s := { s with toBeDestroyed := some s.currentThread })
    s.currentThread
  unfold run
  rw [h, show s.view = { s.view with toBeDestroyed := none } by rw [← h]; rfl]
  exact congrArg (fun v : View => { v with currentThread := t, phase := .switched }) h'

theorem view_wake (t : Option Tid) :
    (s.wake t).view = { s.view with readyList := s.readyList ++ t.toList } := by
  cases t with
  | none =>
    rw [Option.toList_none, List.append_nil]
    rfl
  | some t => rfl

def Good (s : State) : Prop :=
  s.stopped ≠ some .toBeDestroyedSet ∧ (s.stopped = none → s.view.Inv)

theorem good_stop (f : Fault) : (s.stop (.fault f)).Good := ⟨nofun, nofun⟩

theorem Good.of_inv (h : s.view.Inv) : s.Good := ⟨h.reason, fun _ => h⟩

section

variable (h : s.view.Inv) (hp : s.phase = .running)
include h hp

theorem yield_inv : s.yield.view.Inv := by
  unfold yield
  split
  · exact h
  · rename_i t readyList hr
    rw [view_run_false]
    refine h.switchTo (h.unmarked ?_) ?_ t (readyList ++ [s.currentThread]) ?_
    · exact fun hs => nomatch hp.symm.trans hs
    · exact fun hs => nomatch hp.symm.trans hs
    · have hcpu : s.view.onCPU = [s.currentThread] :=
        View.onCPU_running (View.not_sleeps_of hp nofun)
      unfold View.placed
      rw [hcpu]
      refine List.Perm.append_right _ ?_
      show ([t] ++ (readyList ++ [s.currentThread])).Perm ([s.currentThread] ++ s.readyList)
      rw [hr, ← List.append_assoc]
      exact List.perm_append_comm

theorem tick_inv (timer : Bool) : (s.tick timer).view.Inv := by
  unfold tick
  split
  · exact yield_inv h hp
  · exact h

theorem setThread_inv {f : Thread → Thread}
    (hd : (f (s.threads s.currentThread)).destroys = s.destroys s.currentThread)
    (hf : (f (s.threads s.currentThread)).activity ≠ .finished)
    (he : (f (s.threads s.currentThread)).activity ≠ .elsewhere) :
    (s.setThread s.currentThread f).view.Inv := by
  have := h.setCurrent (View.not_sleeps_of hp nofun) hf he
    (f (s.threads s.currentThread)).space.isSome
  have hself : update s.view.destroys s.currentThread (s.destroys s.currentThread) =
      s.view.destroys := update_eq_self _ _
  rw [view_setThread, hd, hself]
  exact this

theorem setActivity_inv {b : Activity}
    (hf : b ≠ .finished) (he : b ≠ .elsewhere) : (s.setActivity s.currentThread b).view.Inv :=
  setThread_inv h hp rfl hf he

end

theorem resume_inv (h : View.Inv { s.view with phase := .running }) : s.resume.view.Inv := by
  unfold resume
  dsimp only
  split
  · exact setActivity_inv (s := { s with phase := .running }) h rfl nofun nofun
  · rw [view_restoreUserState]
    exact h

theorem deleted_inv (h : View.Inv { s.view with toBeDestroyed := none, phase := .running }) :
    s.deleted.view.Inv := by
  unfold deleted
  dsimp only
  split
  · exact resume_inv (s := { s with toBeDestroyed := none, phase := .running }) h
  · exact h

theorem destroy_good (hv : s.addrLock.value ≠ 0)
    (h : View.Inv { s.view with
      toBeDestroyed := none, phase := .running,
      clears := update s.clears t (s.clears t + if s.view.hasSpace t then 1 else 0) }) :
    (s.destroy t).Good := by
  unfold destroy
  cases hsp : s.space t with
  | none =>
    have hclr : (if s.view.hasSpace t then 1 else 0) = 0 := by
      show (if (s.space t).isSome then 1 else 0) = 0
      rw [hsp]
      rfl
    rw [hclr, Nat.add_zero, update_eq_self] at h
    exact .of_inv (deleted_inv h)
  | some space =>
    have hclr : (if s.view.hasSpace t then 1 else 0) = 1 := by
      show (if (s.space t).isSome then 1 else 0) = 1
      rw [hsp]
      rfl
    have hp : s.addrLock.p s.currentThread = (s.addrLock.decrement, true) :=
      if_neg hv
    rw [hclr] at h
    rw [hp]
    dsimp only
    unfold clearSpace
    split
    · exact good_stop _
    · refine .of_inv (deleted_inv ?_)
      have := (h.setValue rfl (s.addrLock.value - 1)).unlock
      rw [view_wake]
      exact this

theorem checkToBeDestroyed_good (h : s.view.Inv) (hp : s.phase = .switched) :
    s.checkToBeDestroyed.Good := by
  have hdes : s.destroys s.currentThread = [] := h.destroys _
  unfold checkToBeDestroyed
  cases ht : s.toBeDestroyed with
  | none =>
    refine .of_inv ?_
    dsimp only
    rw [if_pos hdes]
    exact resume_inv (h.resume hp ht)
  | some t => exact destroy_good (h.free t (.inl ht)) (h.destroyed ht)

theorem acquire_inv (h : s.view.Inv) (hp : s.phase = .running) {sec : Section}
    (ha : s.activity s.currentThread = .acquiring sec) (timer : Bool) :
    (s.acquire sec timer).view.Inv := by
  unfold acquire
  by_cases hv : s.addrLock.value = 0
  · have hlock : s.addrLock.p s.currentThread =
        ({ s.addrLock with queue := s.addrLock.queue ++ [s.currentThread] }, false) := if_pos hv
    rw [hlock]
    exact h.block hp ha
  · have hlock : s.addrLock.p s.currentThread =
        (s.addrLock.decrement, true) := if_neg hv
    rw [hlock]
    refine tick_inv ?_ ?_ timer
    · refine setActivity_inv ?_ ?_ nofun nofun
      · exact h.setValue hp _
      · exact hp
    · exact hp

theorem release_inv (h : s.view.Inv) (hp : s.phase = .running) {b : Activity}
    (hf : b ≠ .finished) (he : b ≠ .elsewhere) (timer : Bool) : (s.release b timer).view.Inv := by
  have hlocked : ∀ woken, (State.wake { s with addrLock := s.addrLock.v.1 } woken).phase = .running ∧
      (State.wake { s with addrLock := s.addrLock.v.1 } woken).currentThread = s.currentThread := by
    intro woken
    cases woken with
    | none => exact ⟨hp, rfl⟩
    | some t => exact ⟨hp, rfl⟩
  have hview : (State.wake { s with addrLock := s.addrLock.v.1 } s.addrLock.v.2).view.Inv := by
    rw [view_wake]
    exact h.unlock
  obtain ⟨hphase, hcur⟩ := hlocked s.addrLock.v.2
  have hset := setActivity_inv hview hphase hf he
  rw [hcur] at hset
  exact tick_inv hset hphase timer

theorem work_good (h : s.view.Inv) (hp : s.phase = .running) (hf : s.activity s.currentThread ≠ .finished)
    (he : s.activity s.currentThread ≠ .elsewhere) (timer : Bool) (sec : Section) :
    (s.work timer sec).Good := by
  cases sec with
  | construct executable numPages =>
    simp only [work]
    split
    · exact good_stop _
    · refine .of_inv (release_inv (b := .forking _) ?_ ?_ nofun nofun timer)
      · exact h
      · exact hp
  | load executable startAddr size virtualAddr stale =>
    simp only [work]
    split
    · exact good_stop _
    · split
      · exact good_stop _
      · refine .of_inv (release_inv (b := .user) ?_ ?_ nofun nofun timer)
        · refine setThread_inv ?_ ?_ rfl hf he
          · exact h
          · exact hp
        · exact hp

theorem fork_inv (h : s.view.Inv) (hp : s.phase = .running) (space : AddrSpace) (timer : Bool) :
    (s.fork space timer).view.Inv := by
  have hview := h.fork true
  unfold fork
  refine tick_inv ?_ ?_ timer
  · refine setActivity_inv ?_ ?_ nofun nofun
    · show View.Inv { (State.setThread _ _ _).view with readyList := s.readyList ++ [s.next] }
      rw [view_setThread]
      exact hview
    · exact hp
  · exact hp

theorem execute_inv (h : s.view.Inv) (hp : s.phase = .running) (space : AddrSpace) :
    (s.execute space).view.Inv := by
  refine setThread_inv ?_ ?_ rfl nofun nofun
  · exact h
  · exact hp

theorem finishTo_inv (h : s.view.Inv) (hp : s.phase = .sleeping true) {readyList : List Tid}
    (hr : s.readyList = t :: readyList) : (State.run { s with readyList } t true).view.Inv := by
  have hn := h.unmarked (fun hs => nomatch hp.symm.trans hs)
  rw [view_run_true (s := { s with readyList }) hn]
  exact h.finishTo hp hr

theorem sleepTo_inv (h : s.view.Inv) (hp : s.phase = .sleeping false)
    {readyList : List Tid} (hr : s.readyList = t :: readyList) :
    (State.run { s with readyList } t false).view.Inv := by
  have hn := h.unmarked (fun hs => nomatch hp.symm.trans hs)
  rw [view_run_false]
  refine h.switchTo hn (fun hs => nomatch hp.symm.trans hs) t readyList ?_
  have hcpu : s.view.onCPU = [] := View.onCPU_sleeping ⟨false, hp⟩
  unfold View.placed
  rw [hcpu]
  refine List.Perm.of_eq ?_
  show [t] ++ readyList ++ s.addrLock.queue = [] ++ s.readyList ++ s.addrLock.queue
  rw [hr]
  rfl

end State

open State

/-- Threads finish only while `addrLock` is free. -/
def FreeFinish (s : State) (choice : Choice) : Prop := choice = .finish → s.addrLock.value ≠ 0

instance (s : State) (choice : Choice) : Decidable (FreeFinish s choice) :=
  match choice with
  | .finish => decidable_of_iff (s.addrLock.value ≠ 0) ⟨fun h _ => h, fun h => h rfl⟩
  | .go _ | .enter _ | .wait | .wake _ | .execute => isTrue nofun

variable {s s' : State} {choice : Choice}

theorem wakeOther_good (h : s.view.Inv) {t : Tid} (hs : s.wakeOther t = some s') : s'.Good := by
  unfold wakeOther at hs
  split at hs
  · rename_i ha
    cases hs
    refine .of_inv ?_
    show View.Inv { (s.setActivity t .user).view with readyList := s.readyList ++ [t] }
    rw [view_setActivity]
    exact h.wake ha
  · cases hs

theorem leaveSleep_good (h : s.view.Inv) {finishing : Bool}
    (hp : s.phase = .sleeping finishing) (hs : s.leaveSleep finishing = some s') : s'.Good := by
  unfold leaveSleep at hs
  split at hs
  · cases hs
  · rename_i hr
    cases hs
    cases finishing with
    | true => exact .of_inv (finishTo_inv h hp hr)
    | false => exact .of_inv (sleepTo_inv h hp hr)

theorem goOn_good (h : s.view.Inv) (hp : s.phase = .running) {timer : Bool}
    (hs : s.goOn timer = some s') : s'.Good := by
  have hdes : s.destroys s.currentThread = [] := h.destroys _
  have hcur := h.placed _ (View.currentThread_mem_placed (View.not_sleeps_of hp nofun))
  unfold goOn at hs
  rw [hdes] at hs
  dsimp only at hs
  cases ha : s.activity s.currentThread with
  | acquiring sec =>
    rw [ha] at hs
    cases hs
    exact .of_inv (acquire_inv h hp ha timer)
  | holding sec =>
    rw [ha] at hs
    cases hs
    exact work_good h hp hcur.notFinished hcur.notElsewhere timer sec
  | forking space =>
    rw [ha] at hs
    cases hs
    exact .of_inv (fork_inv h hp space timer)
  | user =>
    rw [ha] at hs
    cases hs
    exact .of_inv (tick_inv h hp timer)
  | created | elsewhere | finished =>
    rw [ha] at hs
    cases hs

theorem enterFrom_good (h : s.view.Inv) (hp : s.phase = .running)
    (hC : FreeFinish s choice) (hs : s.enterFrom choice = some s') : s'.Good := by
  cases choice with
  | enter sec =>
    cases hs
    exact .of_inv (setActivity_inv h hp nofun nofun)
  | wait =>
    cases hs
    refine .of_inv ?_
    show View.Inv { (s.setActivity s.currentThread .elsewhere).view with phase := .sleeping false }
    rw [view_setActivity]
    exact h.wait hp
  | finish =>
    cases hs
    refine .of_inv ?_
    show View.Inv { (s.setActivity s.currentThread .finished).view with phase := .sleeping true }
    rw [view_setActivity]
    exact h.finish hp (hC rfl)
  | go timer | wake t | execute => cases hs

theorem ownStep_good (h : s.view.Inv) (hp : s.phase = .running)
    (hC : FreeFinish s choice) (hs : s.ownStep choice = some s') : s'.Good := by
  unfold ownStep at hs
  split at hs
  · exact goOn_good h hp hs
  · exact wakeOther_good h hs
  · split at hs
    · cases hs
      exact .of_inv (execute_inv h hp _)
    · cases hs
  · split at hs
    · exact enterFrom_good h hp hC hs
    · cases hs

theorem step_good (h : s.Good) (hC : FreeFinish s choice)
    (hs : step s choice = some s') : s'.Good := by
  unfold step at hs
  split at hs
  · cases hs
  · rename_i hstop
    have hinv := h.2 (Option.not_isSome_iff_eq_none.1 hstop)
    cases hp : s.phase with
    | running =>
      rw [hp] at hs
      exact ownStep_good hinv hp hC hs
    | switched =>
      rw [hp] at hs
      cases choice with
      | go timer =>
        cases hs
        exact checkToBeDestroyed_good hinv hp
      | enter sec | wait | wake t | execute | finish => cases hs
    | sleeping finishing =>
      rw [hp] at hs
      cases choice with
      | go timer => exact leaveSleep_good hinv hp hs
      | wake t => exact wakeOther_good hinv hs
      | enter sec | wait | execute | finish => cases hs

theorem start_good (kernel : Kernel) : (start kernel).Good := by
  have hno : ∀ u, ¬ (start kernel).view.Awaits u := by
    rintro u (hw | ⟨hw, -⟩) <;> cases hw
  refine .of_inv ⟨nofun, fun _ => rfl, fun _ _ => rfl, Nat.one_pos, List.nodup_singleton 0, ?_, nofun,
    fun _ _ => ⟨rfl, rfl⟩, nofun, fun u hu => absurd hu (hno u), fun u hu => absurd hu (hno u),
    fun hne => absurd rfl hne⟩
  intro u hu
  rw [List.mem_singleton.1 (show u ∈ [0] from hu)]
  exact ⟨Nat.one_pos, nofun, nofun⟩

structure Orderly (s : State) : Prop where
  /-- `ASSERT(toBeDestroyed == NULL)` has not failed -/
  notMarked : s.stopped ≠ some .toBeDestroyedSet
  /-- nobody waits for `addrLock` while holding it -/
  notHolding : s.stopped = none → ∀ t ∈ s.addrLock.queue, ∀ sec, s.activity t ≠ .holding sec
  /-- nobody is deleted twice, or deleted while running -/
  once : s.stopped = none → ∀ t, s.deletes t ≤ 1 ∧ s.clears t ≤ 1 ∧
    (s.deletes t = 1 → s.activity t = .finished)
  /-- whenever a thread runs its own code, every thread that has finished was deleted once, and its
  frames were cleared once -/
  gone : s.stopped = none → s.phase = .running → ∀ t, s.activity t = .finished →
    s.deletes t = 1 ∧ s.clears t = if (s.space t).isSome then 1 else 0

theorem State.Good.orderly (h : s.Good) : Orderly s := by
  refine ⟨h.1, fun hn t ht sec hh => ?_, fun hn t => ?_, fun hn hp t ht => ?_⟩
  · obtain ⟨sec', ha⟩ := (h.2 hn).queue t ht
    have ha' : s.activity t = .acquiring sec' := ha
    rw [hh] at ha'
    cases ha'
  · have hinv := h.2 hn
    by_cases hf : s.activity t = .finished
    · rcases hinv.dead t hf with ⟨hd, hc⟩ | hw
      · have hd' : s.deletes t = 1 := hd
        have hc' : s.clears t = if s.view.hasSpace t then 1 else 0 := hc
        refine ⟨Nat.le_of_eq hd', ?_, fun _ => hf⟩
        rw [hc']
        split <;> decide
      · obtain ⟨-, hd, hc⟩ := hinv.awaits t hw
        have hd' : s.deletes t = 0 := hd
        have hc' : s.clears t = 0 := hc
        rw [hd', hc']
        exact ⟨Nat.zero_le _, Nat.zero_le _, nofun⟩
    · obtain ⟨hd, hc⟩ := hinv.alive t hf
      have hd' : s.deletes t = 0 := hd
      have hc' : s.clears t = 0 := hc
      rw [hd', hc']
      exact ⟨Nat.zero_le _, Nat.zero_le _, nofun⟩
  · exact ((h.2 hn).dead t ht).resolve_right ((h.2 hn).not_awaits hp t)

/-- **Finished threads are destroyed once**, in every run in which threads finish only while `addrLock`
is free. -/
theorem destroyed_once {kernel : Kernel} {s : State} (h : Runs step FreeFinish (start kernel) s) :
    Orderly s :=
  (h.invariant (start_good kernel) fun _ _ _ hI hC hs => step_good hI hC hs).orderly

/-! ## Two runs -/

def forkOne : List Choice := [.enter (.construct ⟨[]⟩ 1), .go false, .go false, .go false]

def State.holds (s : State) (t : Tid) : Bool :=
  match s.activity t with
  | .holding _ => true
  | _ => false

def State.hasFinished (s : State) (t : Tid) : Bool :=
  match s.activity t with
  | .finished => true
  | _ => false

/-- Thread 0 is switched out behind the `P` of a third constructor. Thread 1 finishes, and thread 2
deletes it: it blocks. Thread 0 deletes it once more, and blocks on the lock it holds. -/
def holdAndFinish : List Choice :=
  forkOne ++ forkOne ++ [.enter (.construct ⟨[]⟩ 1), .go true, .go false, .finish, .go false,
    .go false, .go false, .go false]

/-- Without the condition a thread is deleted twice, and its frames are not cleared; the holder of
`addrLock` waits for `addrLock`, and nobody is left to run. -/
theorem destroyed_twice :
    ∃ kernel s, Runs step (fun _ _ => True) (start kernel) s ∧ s.stopped = none ∧
      s.deletes 1 = 2 ∧ s.clears 1 = 0 ∧ 0 ∈ s.addrLock.queue ∧ s.holds 0 ∧ s.readyList = [] ∧
      ¬ Orderly s := by
  obtain ⟨bitmap, -, h⟩ := bind_ok (show (do
      let bitmap ← Bitmap.new numPhysPages
      return (runChecked step (fun _ _ => decide True) (start ⟨⟨0, 0, none, none, 0⟩, bitmap⟩)
        holdAndFinish).any fun s => decide (s.stopped = none ∧ s.deletes 1 = 2 ∧ s.clears 1 = 0 ∧
          0 ∈ s.addrLock.queue ∧ s.holds 0 ∧ s.readyList = []) : Except Fault Bool) = .ok true by
    decide +kernel)
  obtain ⟨s, hrun, hn, hd, hc, hq, hh, hr⟩ := exists_runs _ (fun _ _ => True) _ _ _ (Except.ok.inj h)
  refine ⟨_, s, hrun, hn, hd, hc, hq, hh, hr, fun ho => ?_⟩
  exact absurd (ho.once hn 1).1 (by rw [hd]; decide)

def forkAndFinish : List Choice :=
  forkOne ++ [.go true, .go false, .finish, .go false, .go false]

theorem destroyed_once_forkAndFinish :
    ∃ kernel s, Runs step FreeFinish (start kernel) s ∧ s.stopped = none ∧ s.hasFinished 1 ∧
      s.deletes 1 = 1 := by
  obtain ⟨bitmap, -, h⟩ := bind_ok (show (do
      let bitmap ← Bitmap.new numPhysPages
      return (runChecked step (fun s c => decide (FreeFinish s c))
        (start ⟨⟨0, 0, none, none, 0⟩, bitmap⟩) forkAndFinish).any fun s =>
          decide (s.stopped = none ∧ s.phase = .running ∧ s.hasFinished 1) :
        Except Fault Bool) = .ok true by
    decide +kernel)
  obtain ⟨s, hrun, hn, hp, hf⟩ := exists_runs _ FreeFinish _ _ _ (Except.ok.inj h)
  have hfin : s.activity 1 = .finished := by
    unfold State.hasFinished at hf
    split at hf
    · assumption
    · cases hf
  exact ⟨_, s, hrun, hn, hf, ((destroyed_once hrun).gone hn hp 1 hfin).1⟩

/-! ## The scheduler under interrupts -/

structure Sees (s : State) (u : Threads.State) : Prop where
  currentThread : u.currentThread = s.currentThread
  readyList : u.queues.readyList = s.readyList
  toBeDestroyed : u.toBeDestroyed = s.toBeDestroyed
  registers : u.cpu.registers = s.kernel.machine.registers
  space : ∀ t, u.space t = none ↔ s.space t = none
  userRegisters : ∀ t, u.userRegisters t = (s.threads t).userRegisters

namespace Sees

variable {s : State} {u : Threads.State}

theorem readyToRun (h : Sees s u) (hoff : u.level = .intOff) {t : Tid} (ht : t ∉ s.readyList) :
    ∃ u', u.readyToRun t = .ok u' ∧ Sees (s.readyToRun t) u' := by
  refine ⟨{ u with queues := u.queues.makeReady t }, ?_, ⟨h.currentThread, ?_, h.toBeDestroyed,
    h.registers, h.space, h.userRegisters⟩⟩
  · simp only [Threads.State.readyToRun, Threads.assert, hoff, h.readyList, ht, not_false_eq_true,
      if_true]
    rfl
  · exact congrArg (· ++ [t]) h.readyList

theorem saveUserState (h : Sees s u) : Sees (s.saveUserState s.currentThread) u.saveUserState := by
  unfold State.saveUserState Threads.State.saveUserState
  cases hu : u.space u.currentThread with
  | none =>
    rw [if_pos ((h.space _).1 (h.currentThread ▸ hu))]
    exact h
  | some space =>
    have hs : s.space s.currentThread ≠ none := by
      rw [← h.currentThread, ne_eq, ← h.space, hu]
      nofun
    rw [if_neg hs]
    refine ⟨h.currentThread, h.readyList, h.toBeDestroyed, h.registers, fun t => ?_, fun t => ?_⟩
    · by_cases ht : t = s.currentThread
      · subst ht
        simpa [State.setThread, State.space] using h.space s.currentThread
      · simpa [State.setThread, State.space, ht] using h.space t
    · by_cases ht : t = s.currentThread
      · subst ht
        simp [State.setThread, h.currentThread, h.registers]
      · simp [State.setThread, h.currentThread, ht, h.userRegisters]

theorem run (h : Sees s u) (hoff : u.level = .intOff) (nextThread : Tid) (finishing : Bool)
    (code : List Threads.Frame) :
    (∃ u', u.run nextThread finishing code = .ok u' ∧ Sees (s.run nextThread finishing) u') ∨
      u.run nextThread finishing code = .error (.assertion .toBeDestroyed) ∧
        s.run nextThread finishing = s.stop .toBeDestroyedSet := by
  unfold State.run Threads.State.run
  simp only [Threads.assert, hoff, if_true, pure_eq_ok, ok_bind]
  by_cases hset : finishing = true → u.toBeDestroyed = none
  · refine .inl ⟨u.switchTo nextThread finishing code, ?_, ?_⟩
    · rw [if_pos hset]
      rfl
    · have hnot : (finishing && s.toBeDestroyed.isSome) = false := by
        cases finishing with
        | false => rfl
        | true => simp [← h.toBeDestroyed, hset rfl]
      rw [hnot, if_neg Bool.false_ne_true]
      cases finishing with
      | false =>
        have hsave := h.saveUserState
        exact ⟨rfl, hsave.readyList, hsave.toBeDestroyed, hsave.registers, hsave.space, hsave.userRegisters⟩
      | true =>
        have hmark : Sees { s with toBeDestroyed := some s.currentThread }
            { u with toBeDestroyed := some u.currentThread } :=
          ⟨h.currentThread, h.readyList, congrArg some h.currentThread, h.registers, h.space, h.userRegisters⟩
        have hsave := hmark.saveUserState
        exact ⟨rfl, hsave.readyList, hsave.toBeDestroyed, hsave.registers, hsave.space, hsave.userRegisters⟩
  · obtain ⟨hfin, hsome⟩ := Classical.not_imp.1 hset
    rw [h.toBeDestroyed, ← ne_eq, Option.ne_none_iff_isSome] at hsome
    refine .inr ⟨?_, ?_⟩
    · rw [if_neg hset]
      rfl
    · rw [hfin, hsome]
      rfl

end Sees

end Scheduler

end Nachos
