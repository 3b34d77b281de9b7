import Nachos.Base.Except
import Nachos.Threads.SynchList

/-!
# The monitor of a synchronized list

The code on a thread's stack says where it is with the lock (`Phase`), and each frame fits the one
behind it (`Fits`). Four invariants are kept by every step: the lock's semaphore counts the threads that
have the lock (`Locking`); the waiters of the condition and their semaphores are in order
(`Waiters.Inv`, for `State.view`); the list is what the operations on it make it, and the items to be
appended are not in it (`Items`); and while waiters are queued, no more items are in the list than
waiters are signalled, but for one while the thread that has the lock is about to signal or to take an
item (`Count`).
-/

namespace Nachos.SynchList

open Base

variable {α : Type} {s s' : State α} {t u : Tid} {f g : Frame α} {code : List (Frame α)} {w : Nat}

/-! ## Code that fits the lock -/

inductive Phase
  | outside
  /-- behind the `P` of `Acquire` -/
  | entered
  /-- `lockHolder` is this thread -/
  | inside
  /-- before the `V` of `Release` -/
  | leaving
  deriving DecidableEq, Repr

namespace Frame

@[simp] def enters : Frame α → Phase
  | .p _ | .returned _ => .outside
  | .acquired => .entered
  | .v .lock => .leaving
  | .v (.waiter _) | .release | .wait | .delete _ | .signal | .append _ | .whileEmpty
  | .removeFront => .inside

@[simp] def leaves : Frame α → Phase
  | .p .lock => .entered
  | .p (.waiter _) | .v .lock | .release | .whileEmpty | .removeFront | .returned _ => .outside
  | .v (.waiter _) | .acquired | .wait | .delete _ | .signal | .append _ => .inside

def isTop : Frame α → Bool
  | .v _ | .wait | .removeFront => true
  | _ => false

def Before : Frame α → List (Frame α) → Prop
  | .p (.waiter w), code => .p (.waiter w) ∉ code ∧ .delete w ∈ code
  | .delete w, code => .delete w ∉ code ∧ ∃ rest, code = .whileEmpty :: rest
  | .append item, code => .append item ∉ code ∧ ∃ rest, code = .signal :: rest
  | .wait, code => ∃ rest, code = .whileEmpty :: rest
  | .whileEmpty, code | .removeFront, code => ∀ item, .returned item ∉ code
  | _, _ => True

end Frame

def phase : List (Frame α) → Phase
  | [] => .outside
  | f :: _ => f.enters

@[simp] theorem phase_nil : phase ([] : List (Frame α)) = .outside := rfl

@[simp] theorem phase_cons (f : Frame α) (code : List (Frame α)) : phase (f :: code) = f.enters :=
  rfl

def Fits : List (Frame α) → Prop
  | [] => True
  | f :: code =>
    phase code = f.leaves ∧ f.Before code ∧ code.any Frame.isTop = false ∧ Fits code

theorem Fits.behind (h : Fits (f :: code)) (hg : g.isTop = true) : g ∉ code :=
  fun hm => by simpa [hg] using List.any_eq_false.1 h.2.2.1 g hm

theorem Fits.head?_ne (h : Fits (f :: code)) (hg : g.isTop = true) : code.head? ≠ some g :=
  fun he => h.behind hg (List.mem_of_mem_head? he)

theorem Fits.delete_mem (h : Fits code) (hp : .p (.waiter w) ∈ code) : .delete w ∈ code := by
  induction code with
  | nil => cases hp
  | cons f code ih =>
    rcases List.mem_cons.1 hp with rfl | hp
    · exact List.mem_cons_of_mem _ h.2.1.2
    · exact List.mem_cons_of_mem _ (ih h.2.2.2 hp)

theorem fits_append (item : α) : Fits (acquire [.append item, .signal, .release]) := by
  simp [acquire, Fits, Frame.Before, Frame.isTop]

theorem fits_removeFront : Fits (acquire [.whileEmpty] : List (Frame α)) := by
  simp [acquire, Fits, Frame.Before, Frame.isTop]

theorem Fits.wait (h : Fits (.wait :: code)) (hw : .delete w ∉ code) :
    Fits (.release :: .p (.waiter w) :: acquire (.delete w :: code)) := by
  obtain ⟨hp, hb, htop, hf⟩ := h
  have hwait : .p (.waiter w) ∉ code := fun hm => hw (hf.delete_mem hm)
  obtain ⟨rest, rfl⟩ := hb
  simp_all [acquire, Fits, Frame.Before, Frame.isTop]

/-! ## Steps -/

@[simp] theorem State.code_goto_self (s : State α) (t : Tid) (code : List (Frame α)) :
    (s.goto t code).code t = code := Function.update_self ..

theorem State.code_goto_of_ne (h : u ≠ t) : (s.goto t code).code u = s.code u :=
  Function.update_of_ne h _ _

theorem State.forall_goto {P : Tid → List (Frame α) → Prop} (ht : P t code)
    (hu : ∀ u, u ≠ t → P u (s.code u)) (u : Tid) : P u ((s.goto t code).code u) := by
  by_cases h : u = t
  · subst h
    rw [State.code_goto_self]
    exact ht
  · rw [State.code_goto_of_ne h]
    exact hu u h

inductive Move (s : State α) : State α → Prop
  | callAppend {t : Tid} {item : α} : s.code t = [] → item ∉ s.items →
      Move s ({ s with items := s.items ++ [item] }.goto t
        (acquire [.append item, .signal, .release]))
  | callRemoveFront {t : Tid} : s.code t = [] → Move s (s.goto t (acquire [.whileEmpty]))
  | sleeps {t : Tid} {k : SemId} {code : List (Frame α)} : s.code t = .p k :: code →
      Move s (s.setSem k ((s.sems k).append t))
  | taken {t : Tid} {k : SemId} {code : List (Frame α)} : s.code t = .p k :: code →
      (s.sems k).value ≠ 0 →
      Move s ((s.setSem k (s.sems k).decrement).goto t code)
  | v {t : Tid} {k : SemId} {code : List (Frame α)} : s.code t = .v k :: code →
      Move s ((s.setSem k ((s.sems k).v).1).goto t code)
  | acquired {t : Tid} {code : List (Frame α)} : s.code t = .acquired :: code →
      Move s ({ s with lockHolder := some t }.goto t code)
  | release {t : Tid} {code : List (Frame α)} : s.code t = .release :: code →
      Move s ({ s with lockHolder := none }.goto t (.v .lock :: code))
  | wait {t : Tid} {code : List (Frame α)} : s.code t = .wait :: code →
      Move s ({ s.setSem (.waiter s.waiters) (.new 0) with
        waiters := s.waiters + 1
        waitQueue := s.waitQueue ++ [s.waiters] }.goto t
          (.release :: .p (.waiter s.waiters) :: acquire (.delete s.waiters :: code)))
  | delete {t : Tid} {w : Nat} {code : List (Frame α)} : s.code t = .delete w :: code →
      Move s ({ s with
        deleted := Function.update s.deleted w true
        signalled := s.signalled.erase w }.goto t code)
  | signalNone {t : Tid} {code : List (Frame α)} : s.code t = .signal :: code →
      s.waitQueue = [] → Move s (s.goto t code)
  | signal {t : Tid} {w : Nat} {ws : List Nat} {code : List (Frame α)} :
      s.code t = .signal :: code → s.waitQueue = w :: ws →
      Move s ({ s with waitQueue := ws, signalled := s.signalled ++ [w] }.goto t
        (.v (.waiter w) :: code))
  | append {t : Tid} {item : α} {code : List (Frame α)} : s.code t = .append item :: code →
      Move s ({ s with
        list := s.list ++ [item], log := s.log ++ [QueueOp.append t item] }.goto t code)
  | whileEmpty {t : Tid} {code : List (Frame α)} : s.code t = .whileEmpty :: code → s.list = [] →
      Move s (s.goto t (.wait :: .whileEmpty :: code))
  | notEmpty {t : Tid} {code : List (Frame α)} : s.code t = .whileEmpty :: code → s.list ≠ [] →
      Move s (s.goto t (.removeFront :: code))
  | removeFront {t : Tid} {item : α} {list : List α} {code : List (Frame α)} :
      s.code t = .removeFront :: code → s.list = item :: list →
      Move s ({ s with list, log := s.log ++ [QueueOp.removeFront t item] }.goto t
        (.release :: .returned item :: code))
  | returned {t : Tid} {item : α} {code : List (Frame α)} : s.code t = .returned item :: code →
      Move s (s.goto t code)

/-! ## The lock -/

/-- The thread is between `Acquire` and `Release`. -/
def State.Holds (s : State α) (t : Tid) : Prop := phase (s.code t) ≠ .outside

structure Locking (s : State α) : Prop where
  fits : ∀ t, Fits (s.code t)
  lock : Exclusive s.Holds (s.sems .lock).value
  holder : ∀ t, phase (s.code t) = .inside → s.lockHolder = some t

def State.view (s : State α) : Waiters Tid where
  waits t w := .p (.waiter w) ∈ s.code t
  posts t w := .v (.waiter w) ∈ s.code t
  owns t w := .delete w ∈ s.code t
  value w := (s.sems (.waiter w)).value
  queue := s.waitQueue
  signalled := s.signalled
  next := s.waiters
  dropped := s.deleted

theorem holds_goto :
    (s.goto t code).Holds u ↔ (u = t ∧ phase code ≠ .outside) ∨ (u ≠ t ∧ s.Holds u) := by
  by_cases hu : u = t
  · subst hu
    simp [State.Holds]
  · simp [State.Holds, hu, State.code_goto_of_ne hu]

namespace Locking

theorem outside_of_ne (h : Locking s) (ht : s.Holds t) (hu : u ≠ t) :
    phase (s.code u) = .outside := by
  apply Classical.byContradiction
  intro hp
  exact hu (h.lock.unique hp ht)

section

variable (h : Locking s) (hcode : s'.code = s.code)
include h hcode

theorem of_eq (hholder : s'.lockHolder = s.lockHolder)
    (hvalue : (s'.sems .lock).value = (s.sems .lock).value) : Locking s' where
  fits := hcode ▸ h.fits
  lock := by
    rw [hvalue]
    exact h.lock.congr fun t => by rw [State.Holds, State.Holds, hcode]
  holder := hcode ▸ hholder ▸ h.holder

theorem goto (hf : Fits code) (hlock : Exclusive (s'.goto t code).Holds (s'.sems .lock).value)
    (ht : phase code = .inside → s'.lockHolder = some t)
    (ho : ∀ u, u ≠ t → phase (s.code u) = .inside → s'.lockHolder = some u) :
    Locking (s'.goto t code) where
  fits := State.forall_goto (P := fun _ => Fits) hf fun u _ => hcode ▸ h.fits u
  lock := hlock
  holder := State.forall_goto (P := fun u c => phase c = .inside → s'.lockHolder = some u) ht
    (hcode ▸ ho)

theorem stays (hf : Fits code) (hp : phase code = .outside ↔ phase (s.code t) = .outside)
    (hvalue : (s'.sems .lock).value = (s.sems .lock).value)
    (ht : phase code = .inside → s'.lockHolder = some t)
    (ho : ∀ u, u ≠ t → phase (s.code u) = .inside → s'.lockHolder = some u) :
    Locking (s'.goto t code) := by
  apply h.goto hcode hf ?_ ht ho
  rw [hvalue]
  apply h.lock.congr
  intro u
  rw [holds_goto]
  by_cases hu : u = t
  · subst hu
    simp [State.Holds, hp]
  · simp [State.Holds, hu, hcode]

theorem goesOn (hholder : s'.lockHolder = s.lockHolder)
    (hvalue : (s'.sems .lock).value = (s.sems .lock).value) (hf : Fits code)
    (hp : phase code = phase (s.code t)) : Locking (s'.goto t code) :=
  h.stays hcode hf (by rw [hp]) hvalue (fun hi => hholder ▸ h.holder t (hp ▸ hi))
    fun u _ hi => hholder ▸ h.holder u hi

end

end Locking

theorem move_locking (h : Locking s) (hw : s.view.Inv) (hm : Move s s') : Locking s' := by
  cases hm with
  | callAppend hc hi => exact h.goesOn rfl rfl rfl (fits_append _) (by simp [acquire, hc])
  | callRemoveFront hc => exact h.goesOn rfl rfl rfl fits_removeFront (by simp [acquire, hc])
  | @sleeps t k code hc =>
    refine h.of_eq rfl rfl ?_
    cases k <;> simp [State.setSem]
  | @taken t k code hc hv =>
    have hf := hc ▸ h.fits t
    cases k with
    | lock =>
      have hp : phase code = .entered := hf.1
      refine h.goto rfl hf.2.2.2 ?_ (by simp [hp]) fun u _ => h.holder u
      have hval : ((s.setSem .lock (s.sems .lock).decrement).sems
          .lock).value = (s.sems .lock).value - 1 := by simp [State.setSem]
      rw [hval]
      apply h.lock.take (t := t) hv
      intro u
      rw [holds_goto]
      by_cases hu : u = t
      · simp [hu, hp]
      · simp [hu, State.Holds, State.setSem]
    | waiter w => exact h.goesOn rfl rfl (by simp [State.setSem]) hf.2.2.2 (by simp [hf.1, hc])
  | @v t k code hc =>
    have hf := hc ▸ h.fits t
    cases k with
    | lock =>
      have hp : phase code = .outside := hf.1
      have ht : s.Holds t := by simp [State.Holds, hc]
      refine h.goto rfl hf.2.2.2 ?_ (by simp [hp]) fun u _ => h.holder u
      have hval : ((s.setSem .lock ((s.sems .lock).v).1).sems .lock).value =
          (s.sems .lock).value + 1 := by simp [State.setSem, Semaphore.v]
      rw [hval]
      apply h.lock.give ht
      intro u
      rw [holds_goto]
      by_cases hu : u = t
      · simp [hu, hp]
      · simp [hu, State.Holds, State.setSem]
    | waiter w => exact h.goesOn rfl rfl (by simp [State.setSem]) hf.2.2.2 (by simp [hf.1, hc])
  | @acquired t code hc =>
    have hf := hc ▸ h.fits t
    have ht : s.Holds t := by simp [State.Holds, hc]
    refine h.stays rfl hf.2.2.2 (by simp [hf.1, hc]) rfl (fun _ => rfl) fun u hu hi => ?_
    simp [h.outside_of_ne ht hu] at hi
  | @release t code hc =>
    have hf := hc ▸ h.fits t
    have ht : s.Holds t := by simp [State.Holds, hc]
    refine h.stays rfl ⟨hf.1, trivial, hf.2.2⟩ (by simp [hc]) rfl (by simp) fun u hu hi => ?_
    simp [h.outside_of_ne ht hu] at hi
  | @wait t code hc =>
    have hf := hc ▸ h.fits t
    have hnew : .delete s.waiters ∉ code := by
      intro hm
      have ho : s.view.owns t s.waiters := by simp [State.view, hc, hm]
      exact absurd (hw.owned t _ ho).1 (Nat.lt_irrefl _)
    exact h.goesOn rfl rfl (by simp [State.setSem]) (hf.wait hnew) (by simp [hc])
  | @delete t w code hc | @signalNone t code hc _ | @append t item code hc
  | @returned t item code hc =>
    have hf := hc ▸ h.fits t
    exact h.goesOn rfl rfl rfl hf.2.2.2 (by simp [hf.1, hc])
  | @signal t w ws code hc hq =>
    have hf := hc ▸ h.fits t
    exact h.goesOn rfl rfl rfl ⟨hf.1, trivial, hf.2.2⟩ (by simp [hc])
  | @whileEmpty t code hc hl =>
    have hf := hc ▸ h.fits t
    refine h.goesOn rfl rfl rfl ⟨rfl, ⟨code, rfl⟩, ?_, hf⟩ (by simp [hc])
    simpa [Frame.isTop] using hf.2.2.1
  | @notEmpty t code hc hl =>
    have hf := hc ▸ h.fits t
    exact h.goesOn rfl rfl rfl ⟨hf.1, hf.2⟩ (by simp [hc])
  | @removeFront t item list code hc hl =>
    have hf := hc ▸ h.fits t
    refine h.goesOn rfl rfl rfl ⟨rfl, trivial, ?_, hf.1, trivial, hf.2.2⟩ (by simp [hc])
    simpa [Frame.isTop] using hf.2.2.1

/-! ## The waiters -/

theorem mem_goto {f : Frame α} : f ∈ (s.goto t code).code u ↔ u = t ∧ f ∈ code ∨ u ≠ t ∧ f ∈ s.code u := by
  by_cases hu : u = t
  · subst hu
    simp
  · simp [hu, State.code_goto_of_ne hu]

theorem mem_goto_tail (hc : s.code t = f :: code) (hf : f ∉ code) :
    g ∈ (s.goto t code).code u ↔ g ∈ s.code u ∧ ¬ (u = t ∧ g = f) := by
  rw [mem_goto]
  by_cases hu : u = t
  · subst hu
    by_cases hg : g = f
    · simp [hg, hf]
    · simp [hc, hg]
  · simp [hu]

theorem mem_goto_push (pushed : List (Frame α)) (hc : s.code t = f :: code) (hg : g ≠ f) :
    g ∈ (s.goto t (pushed ++ code)).code u ↔ g ∈ s.code u ∨ (u = t ∧ g ∈ pushed) := by
  rw [mem_goto]
  by_cases hu : u = t
  · subst hu
    simp [hc, hg, or_comm]
  · simp [hu]

theorem view_goto (h : ∀ w, (.p (.waiter w) ∈ code ↔ .p (.waiter w) ∈ s.code t) ∧
    (.v (.waiter w) ∈ code ↔ .v (.waiter w) ∈ s.code t) ∧
    (.delete w ∈ code ↔ .delete w ∈ s.code t)) : (s.goto t code).view = s.view := by
  have hmem {f : Frame α} (hf : f ∈ code ↔ f ∈ s.code t) (u : Tid) :
      (f ∈ (s.goto t code).code u) = (f ∈ s.code u) := by
    by_cases hu : u = t
    · subst hu
      rw [State.code_goto_self]
      exact propext hf
    · rw [State.code_goto_of_ne hu]
  unfold State.view
  congr 1
  · funext u w
    exact hmem (h w).1 u
  · funext u w
    exact hmem (h w).2.1 u
  · funext u w
    exact hmem (h w).2.2 u

theorem view_setSem {k : SemId} {sem : Semaphore Nat}
    (h : ∀ w, k = .waiter w → sem.value = (s.sems k).value) : (s.setSem k sem).view = s.view := by
  have hvalue (w : Nat) : ((s.setSem k sem).sems (.waiter w)).value = (s.sems (.waiter w)).value := by
    by_cases hk : .waiter w = k
    · subst hk
      simpa [State.setSem] using h w rfl
    · simp [State.setSem, hk]
  unfold State.view
  simp only [hvalue]
  rfl

theorem setSem_value {sem : Semaphore Nat} {n : Nat} (h : sem.value = n) (v : Nat) :
    ((s.setSem (.waiter w) sem).sems (.waiter v)).value =
      if v = w then n else (s.sems (.waiter v)).value := by
  by_cases hv : v = w
  · simp [State.setSem, hv, h]
  · simp [State.setSem, hv]

theorem move_waiters (h : s.view.Inv) (hl : Locking s) (hm : Move s s') : s'.view.Inv := by
  cases hm with
  | callAppend hc hi | callRemoveFront hc =>
    rw [view_goto (by simp [acquire, hc])]
    exact h
  | @sleeps t k code hc =>
    rw [view_setSem (by simp)]
    exact h
  | @taken t k code hc hv =>
    cases k with
    | lock =>
      rw [view_goto (by simp [State.setSem, hc]), view_setSem (by simp)]
      exact h
    | waiter w =>
      have hnot : .p (.waiter w) ∉ code := (hc ▸ hl.fits t).2.1.1
      apply (h.pass (w := w) t hv).congr
      iterate 3 exact fun u v => (mem_goto_tail hc hnot).trans (by simp [State.view, Waiters.pass])
      · exact setSem_value rfl
      all_goals rfl
  | @v t k code hc =>
    cases k with
    | lock =>
      rw [view_goto (by simp [State.setSem, hc]), view_setSem (by simp)]
      exact h
    | waiter w =>
      have hnot : .v (.waiter w) ∉ code := (hc ▸ hl.fits t).behind rfl
      apply (h.post (t := t) (w := w) (by simp [State.view, hc])).congr
      iterate 3 exact fun u v => (mem_goto_tail hc hnot).trans (by simp [State.view, Waiters.post])
      · exact setSem_value rfl
      all_goals rfl
  | @acquired t code hc | @release t code hc | @signalNone t code hc hq | @append t item code hc
  | @whileEmpty t code hc hl | @notEmpty t code hc hl | @removeFront t item list code hc hl
  | @returned t item code hc =>
    rw [view_goto (by simp [hc])]
    exact h
  | @wait t code hc =>
    have hmem {g : Frame α} (u : Tid) (hg : g ≠ .wait) :=
      mem_goto_push (u := u) [.release, .p (.waiter s.waiters), .p .lock, .acquired,
        .delete s.waiters] hc hg
    apply (h.enlist t).congr
    iterate 3 exact fun u v => (hmem u (by simp)).trans (by simp [State.view, Waiters.enlist])
    · intro v
      refine (setSem_value rfl v).trans ?_
      split
      · rename_i hv
        exact (h.value_next (w := v) (hv ▸ Nat.le_refl _)).symm
      · rfl
    all_goals rfl
  | @delete t w code hc =>
    have hf := hc ▸ hl.fits t
    have hnot : .delete w ∉ code := hf.2.1.1
    have hpassed : .p (.waiter w) ∉ s.code t := by
      intro hm
      rw [hc] at hm
      exact hnot (hf.2.2.2.delete_mem (by simpa using hm))
    apply (h.drop (t := t) (w := w) (by simp [State.view, hc]) hpassed).congr
    iterate 3 exact fun u v => (mem_goto_tail hc hnot).trans (by simp [State.view, Waiters.drop])
    all_goals intros
    all_goals rfl
  | @signal t w ws code hc hq =>
    have hmem {g : Frame α} (u : Tid) (hg : g ≠ .signal) :=
      mem_goto_push (u := u) [.v (.waiter w)] hc hg
    apply (h.pick hq t).congr
    iterate 3 exact fun u v => (hmem u (by simp)).trans (by simp [State.view, Waiters.pick])
    all_goals intros
    all_goals rfl

/-! ## The list -/

section

variable [DecidableEq α]

structure Items (s : State α) : Prop where
  queue : replay s.log = some s.list
  listed : ∀ item ∈ s.list, item ∈ s.items
  pending : ∀ t item, .append item ∈ s.code t → item ∈ s.items ∧ item ∉ s.list
  pendingOnce : ∀ t u item, .append item ∈ s.code t → .append item ∈ s.code u → t = u
  returned : ∀ t item, .returned item ∈ s.code t → lastRemoved s.log t = some item

theorem Items.goto (h : Items s) (hlist : s'.list = s.list) (hitems : s'.items = s.items)
    (hlog : s'.log = s.log) (hcode : s'.code = s.code)
    (ha : ∀ item, .append item ∈ code → .append item ∈ s.code t)
    (hr : ∀ item, .returned item ∈ code → .returned item ∈ s.code t) : Items (s'.goto t code) := by
  have hmem {f : Frame α} (hf : f ∈ code → f ∈ s.code t) (u : Tid)
      (hu : f ∈ (s'.goto t code).code u) : f ∈ s.code u := by
    rcases mem_goto.1 hu with ⟨rfl, hm⟩ | ⟨-, hm⟩
    · exact hf hm
    · exact hcode ▸ hm
  refine ⟨?_, ?_, ?_, ?_, ?_⟩
  · show replay s'.log = some s'.list
    rw [hlog, hlist]
    exact h.queue
  · show ∀ item ∈ s'.list, item ∈ s'.items
    rw [hlist, hitems]
    exact h.listed
  · intro u item hu
    show item ∈ s'.items ∧ item ∉ s'.list
    rw [hlist, hitems]
    exact h.pending u item (hmem (ha item) u hu)
  · intro u u' item hu hu'
    exact h.pendingOnce u u' item (hmem (ha item) u hu) (hmem (ha item) u' hu')
  · intro u item hu
    show lastRemoved s'.log u = some item
    rw [hlog]
    exact h.returned u item (hmem (hr item) u hu)

theorem move_items (h : Items s) (hl : Locking s) (hm : Move s s') : Items s' := by
  cases hm with
  | @callAppend t item hc hi =>
    have hmem {u : Tid} {i : α} (hu : .append i ∈ (({ s with items := s.items ++ [item] }).goto t
        (acquire [.append item, .signal, .release])).code u) :
        u = t ∧ i = item ∨ u ≠ t ∧ .append i ∈ s.code u := by
      simpa [acquire] using mem_goto.1 hu
    have hnew (u : Tid) : .append item ∉ s.code u := fun hm => hi (h.pending u item hm).1
    refine ⟨h.queue, fun i hm => List.mem_append_left _ (h.listed i hm), ?_, ?_, ?_⟩
    · intro u i hu
      rcases hmem hu with ⟨-, rfl⟩ | ⟨-, hu⟩
      · exact ⟨List.mem_append_right _ (List.mem_singleton_self i), fun hm => hi (h.listed i hm)⟩
      · exact ⟨List.mem_append_left _ (h.pending u i hu).1, (h.pending u i hu).2⟩
    · intro u u' i hu hu'
      rcases hmem hu with ⟨rfl, rfl⟩ | ⟨-, hm⟩ <;> rcases hmem hu' with ⟨rfl, hi'⟩ | ⟨-, hm'⟩
      · rfl
      · exact absurd hm' (hnew u')
      · exact absurd (hi' ▸ hm) (hnew u)
      · exact h.pendingOnce u u' i hm hm'
    · intro u i hu
      rcases mem_goto.1 hu with ⟨-, hm⟩ | ⟨-, hm⟩
      · simp [acquire] at hm
      · exact h.returned u i hm
  | callRemoveFront hc =>
    exact h.goto rfl rfl rfl rfl (by simp [acquire]) (by simp [acquire])
  | sleeps hc => exact ⟨h.queue, h.listed, h.pending, h.pendingOnce, h.returned⟩
  | taken hc hv | v hc | acquired hc | release hc | delete hc | signalNone hc hq | signal hc hq
  | whileEmpty hc he | notEmpty hc he => exact h.goto rfl rfl rfl rfl (by simp [hc]) (by simp [hc])
  | wait hc => exact h.goto rfl rfl rfl rfl (by simp [acquire, hc]) (by simp [acquire, hc])
  | @append t item code hc =>
    have hnot : .append item ∉ code := (hc ▸ hl.fits t).2.1.1
    have ht : .append item ∈ s.code t := by simp [hc]
    obtain ⟨hin, hout⟩ := h.pending t item ht
    -- the others have other items to append
    have hmem {u : Tid} {i : α} (hu : .append i ∈ (s.goto t code).code u) :
        .append i ∈ s.code u ∧ i ≠ item := by
      obtain ⟨hm, hne⟩ := (mem_goto_tail hc hnot).1 hu
      refine ⟨hm, ?_⟩
      rintro rfl
      exact hne ⟨h.pendingOnce u t i hm ht, rfl⟩
    refine ⟨?_, ?_, ?_, ?_, ?_⟩
    · exact replay_concat h.queue
    · intro i hm
      rcases List.mem_append.1 hm with hm | hm
      · exact h.listed i hm
      · exact List.mem_singleton.1 hm ▸ hin
    · intro u i hu
      obtain ⟨hm, hne⟩ := hmem hu
      obtain ⟨hi, hn⟩ := h.pending u i hm
      exact ⟨hi, by simp [State.goto, hn, hne]⟩
    · intro u u' i hu hu'
      exact h.pendingOnce u u' i (hmem hu).1 (hmem hu').1
    · intro u i hu
      refine lastRemoved_append.trans (h.returned u i ?_)
      exact ((mem_goto_tail hc hnot).1 hu).1
  | @removeFront t item list code hc he =>
    have hnot : ∀ i, .returned i ∉ code := (hc ▸ hl.fits t).2.1
    have happend {u : Tid} {i : α} (hu : .append i ∈ (s.goto t
        (.release :: .returned item :: code)).code u) : .append i ∈ s.code u := by
      simpa using (mem_goto_push [.release, .returned item] hc (by simp)).1 hu
    refine ⟨?_, ?_, ?_, ?_, ?_⟩
    · refine (replay_concat h.queue).trans ?_
      simp [QueueOp.apply, he, State.goto]
    · intro i hm
      exact h.listed i (he ▸ List.mem_cons_of_mem _ hm)
    · intro u i hu
      obtain ⟨hi, hn⟩ := h.pending u i (happend hu)
      rw [he] at hn
      exact ⟨hi, fun hm => hn (List.mem_cons_of_mem _ hm)⟩
    · intro u u' i hu hu'
      exact h.pendingOnce u u' i (happend hu) (happend hu')
    · intro u i hu
      rcases mem_goto.1 hu with ⟨rfl, hm⟩ | ⟨hne, hm⟩
      · obtain rfl : i = item := by simpa [hnot] using hm
        exact lastRemoved_removeFront_self
      · exact (lastRemoved_removeFront_of_ne (Ne.symm hne)).trans (h.returned u i hm)
  | @returned t item code hc =>
    exact h.goto rfl rfl rfl rfl (by simp [hc]) fun _ hm => by simp [hc, hm]

end

/-! ## The count -/

def slack : List (Frame α) → Bool
  | .signal :: _ | .whileEmpty :: _ | .removeFront :: _ => true
  | _ => false

structure Count (s : State α) : Prop where
  empty : ∀ t, (s.code t).head? = some .wait → s.list = []
  notEmpty : ∀ t, (s.code t).head? = some .removeFront → s.list ≠ []
  count : s.waitQueue ≠ [] → s.list.length ≤ s.signalled.length ∨
    ∃ t, slack (s.code t) = true ∧ s.list.length ≤ s.signalled.length + 1

theorem phase_of_slack (h : slack code = true) : phase code = .inside := by
  unfold slack at h
  split at h <;> simp_all

theorem Count.goto (h : Count s) (hlist : s'.list = s.list) (hqueue : s'.waitQueue = s.waitQueue)
    (hsignalled : s'.signalled = s.signalled) (hcode : s'.code = s.code)
    (he : code.head? = some .wait → s.list = []) (hn : code.head? = some .removeFront → s.list ≠ [])
    (hs : slack (s.code t) = true → slack code = true) : Count (s'.goto t code) where
  empty := by
    apply State.forall_goto (P := fun _ c => c.head? = some .wait → s'.list = [])
    · exact hlist ▸ he
    · exact fun u _ => hlist ▸ hcode ▸ h.empty u
  notEmpty := by
    apply State.forall_goto (P := fun _ c => c.head? = some .removeFront → s'.list ≠ [])
    · exact hlist ▸ hn
    · exact fun u _ => hlist ▸ hcode ▸ h.notEmpty u
  count := by
    show s'.waitQueue ≠ [] → s'.list.length ≤ s'.signalled.length ∨ ∃ u, _ ∧
      s'.list.length ≤ s'.signalled.length + 1
    rw [hqueue, hlist, hsignalled]
    intro hw
    rcases h.count hw with hle | ⟨u, hu, hle⟩
    · exact .inl hle
    · refine .inr ⟨u, ?_, hle⟩
      by_cases hut : u = t
      · subst hut
        rw [State.code_goto_self]
        exact hs hu
      · rw [State.code_goto_of_ne hut, hcode]
        exact hu

theorem Count.goto_holds (hl : Locking s) (ht : s.Holds t) (hcode : s'.code = s.code)
    (he : code.head? = some .wait → s'.list = [])
    (hn : code.head? = some .removeFront → s'.list ≠ [])
    (hs : s'.waitQueue ≠ [] → s'.list.length ≤ s'.signalled.length ∨
      slack code = true ∧ s'.list.length ≤ s'.signalled.length + 1) : Count (s'.goto t code) := by
  have hout {f : Frame α} (hf : f.enters = .inside) (u : Tid) (hu : u ≠ t) :
      (s'.code u).head? ≠ some f := by
    have hp := hl.outside_of_ne ht hu
    rw [hcode]
    cases hc : s.code u with
    | nil => simp
    | cons g rest =>
      rw [hc] at hp
      rintro ⟨⟩
      rw [phase_cons, hf] at hp
      cases hp
  refine ⟨?_, ?_, ?_⟩
  · apply State.forall_goto (P := fun _ c => c.head? = some .wait → s'.list = []) he
    exact fun u hu hc => absurd hc (hout rfl u hu)
  · apply State.forall_goto (P := fun _ c => c.head? = some .removeFront → s'.list ≠ []) hn
    exact fun u hu hc => absurd hc (hout rfl u hu)
  · intro hw
    rcases hs hw with hle | ⟨hs, hle⟩
    · exact .inl hle
    · exact .inr ⟨t, by simpa using hs, hle⟩

theorem Count.le_of_holds (h : Count s) (hl : Locking s) (ht : s.Holds t)
    (hs : slack (s.code t) = false) (hw : s.waitQueue ≠ []) :
    s.list.length ≤ s.signalled.length := by
  rcases h.count hw with hle | ⟨u, hu, -⟩
  · exact hle
  · have hut : u = t := hl.lock.unique (by simp [State.Holds, phase_of_slack hu]) ht
    subst hut
    simp [hs] at hu

theorem Count.le_succ (h : Count s) (hw : s.waitQueue ≠ []) :
    s.list.length ≤ s.signalled.length + 1 := by
  rcases h.count hw with hle | ⟨-, -, hle⟩
  · omega
  · exact hle

theorem move_count (h : Count s) (hl : Locking s) (hm : Move s s') : Count s' := by
  cases hm with
  | callAppend hc hi | callRemoveFront hc =>
    exact h.goto rfl rfl rfl rfl (by simp [acquire]) (by simp [acquire]) (by simp [hc, slack])
  | sleeps hc => exact ⟨h.empty, h.notEmpty, h.count⟩
  | @taken t k code hc hv | @v t k code hc | @acquired t code hc | @returned t item code hc =>
    have hf := hc ▸ hl.fits t
    exact h.goto rfl rfl rfl rfl (fun he => absurd he (hf.head?_ne rfl))
      (fun he => absurd he (hf.head?_ne rfl)) (by simp [hc, slack])
  | release hc => exact h.goto rfl rfl rfl rfl (by simp) (by simp) (by simp [hc, slack])
  | @wait t code hc =>
    have hempty : s.list = [] := h.empty t (by simp [hc])
    exact Count.goto_holds hl (by simp [State.Holds, hc]) rfl (by simp) (by simp)
      fun _ => .inl (by simp [State.setSem, hempty])
  | @delete t w code hc =>
    have hf := hc ▸ hl.fits t
    have ht : s.Holds t := by simp [State.Holds, hc]
    obtain ⟨rest, rfl⟩ := hf.2.1.2
    refine Count.goto_holds hl ht rfl (by simp) (by simp) fun hw => .inr ⟨rfl, ?_⟩
    have hle := h.le_of_holds hl ht (by simp [hc, slack]) hw
    show s.list.length ≤ (s.signalled.erase w).length + 1
    rw [List.length_erase]
    split <;> omega
  | @signalNone t code hc hq =>
    have hf := hc ▸ hl.fits t
    exact Count.goto_holds hl (by simp [State.Holds, hc]) rfl
      (fun he => absurd he (hf.head?_ne rfl)) (fun he => absurd he (hf.head?_ne rfl))
      fun hw => absurd hq hw
  | @signal t w ws code hc hq =>
    refine Count.goto_holds hl (by simp [State.Holds, hc]) rfl (by simp) (by simp) fun _ => .inl ?_
    have hle := h.le_succ (by simp [hq])
    simpa using hle
  | @append t item code hc =>
    have hf := hc ▸ hl.fits t
    have ht : s.Holds t := by simp [State.Holds, hc]
    obtain ⟨rest, rfl⟩ := hf.2.1.2
    refine Count.goto_holds hl ht rfl (by simp) (by simp) fun hw => .inr ⟨rfl, ?_⟩
    have hle := h.le_of_holds hl ht (by simp [hc, slack]) hw
    simpa using hle
  | whileEmpty hc he =>
    exact Count.goto_holds hl (by simp [State.Holds, hc]) rfl (fun _ => he) (by simp)
      fun _ => .inl (by simp [he])
  | notEmpty hc he =>
    exact Count.goto_holds hl (by simp [State.Holds, hc]) rfl (by simp) (fun _ => he)
      fun hw => .inr ⟨rfl, h.le_succ hw⟩
  | @removeFront t item list code hc he =>
    refine Count.goto_holds hl (by simp [State.Holds, hc]) rfl (by simp) (by simp)
      fun hw => .inl ?_
    have hle := h.le_succ hw
    simpa [he] using hle

/-! ## Runs -/

theorem move_stopped (hm : Move s s') : s'.stopped = s.stopped := by
  cases hm <;> rfl

variable [DecidableEq α]

structure Inv (s : State α) : Prop where
  locking : Locking s
  waiters : s.view.Inv
  items : Items s
  count : Count s

theorem start_inv : Inv (start : State α) where
  locking := ⟨fun _ => trivial, .free fun _ h => h rfl, nofun⟩
  waiters := by constructor <;> simp [State.view, start, Semaphore.new]
  items := by constructor <;> simp [start, replay]
  count := by constructor <;> simp [start]

theorem move_inv (h : Inv s) (hm : Move s s') : Inv s' where
  locking := move_locking h.locking h.waiters hm
  waiters := move_waiters h.waiters h.locking hm
  items := move_items h.items h.locking hm
  count := move_count h.count h.locking hm

theorem assert_ok {condition : Prop} [Decidable condition] (h : condition) (stop : Stop) :
    assert condition stop = .ok () := if_pos h

theorem Inv.usable (h : Inv s) {k : SemId} (hc : s.code t = .p k :: code ∨ s.code t = .v k :: code) :
    s.usable k = true := by
  cases k with
  | lock => rfl
  | waiter w =>
    obtain ⟨u, hu⟩ : ∃ u, s.view.waits u w := by
      rcases hc with hc | hc
      · exact ⟨t, by simp [State.view, hc]⟩
      · exact (h.waiters.posting t w (by simp [State.view, hc])).1
    have hd : s.deleted w = false := (h.waiters.owned u w (h.waiters.waiting u w hu)).2
    simp [State.usable, hd]

theorem goOn_moves (h : Inv s) (hc : s.code t = f :: code) :
    ∃ s', s.goOn t code f = .ok s' ∧ Move s s' := by
  have hheld (hf : f.enters = .inside) : s.lockHolder = some t :=
    h.locking.holder t (by rw [hc]; exact hf)
  cases f with
  | p k =>
    simp only [State.goOn, State.p, assert_ok (h.usable (.inl hc)), ok_bind, Semaphore.p]
    by_cases hv : (s.sems k).value = 0
    · rw [if_pos hv]
      exact ⟨_, rfl, .sleeps hc⟩
    · rw [if_neg hv]
      exact ⟨_, rfl, .taken hc hv⟩
  | v k =>
    simp only [State.goOn, State.v, assert_ok (h.usable (.inr hc)), ok_bind]
    exact ⟨_, rfl, .v hc⟩
  | acquired => exact ⟨_, rfl, .acquired hc⟩
  | release =>
    simp only [State.goOn, State.release, assert_ok (hheld rfl), ok_bind]
    exact ⟨_, rfl, .release hc⟩
  | wait =>
    have hnew : s.waiters ∉ s.waitQueue :=
      fun hm => absurd (h.waiters.lt_next hm) (Nat.lt_irrefl _)
    simp only [State.goOn, State.wait, assert_ok (hheld rfl), assert_ok hnew, ok_bind]
    exact ⟨_, rfl, .wait hc⟩
  | delete w => exact ⟨_, rfl, .delete hc⟩
  | signal =>
    simp only [State.goOn, State.signal, assert_ok (hheld rfl), ok_bind]
    cases hq : s.waitQueue with
    | nil => exact ⟨_, rfl, .signalNone hc hq⟩
    | cons w ws => exact ⟨_, rfl, .signal hc hq⟩
  | append item =>
    have hnew : item ∉ s.list := (h.items.pending t item (by simp [hc])).2
    simp only [State.goOn, State.append, assert_ok hnew, ok_bind]
    exact ⟨_, rfl, .append hc⟩
  | whileEmpty =>
    by_cases hl : s.list = []
    · simp only [State.goOn, hl, List.isEmpty_nil, if_true]
      exact ⟨_, rfl, .whileEmpty hc hl⟩
    · simp only [State.goOn, List.isEmpty_iff, hl, if_false]
      exact ⟨_, rfl, .notEmpty hc hl⟩
  | removeFront =>
    cases hl : s.list with
    | nil => exact absurd hl (h.count.notEmpty t (by simp [hc]))
    | cons item list =>
      simp only [State.goOn, State.removeFront, hl]
      exact ⟨_, rfl, .removeFront hc hl⟩
  | returned item => exact ⟨_, rfl, .returned hc⟩

theorem step_moves (h : Inv s) {choice : Choice α} (hd : Distinct s choice)
    (hs : step s choice = some s') : Move s s' := by
  unfold step at hs
  split at hs
  · cases hs
  obtain ⟨r, hr, hs⟩ := Option.map_eq_some_iff.1 hs
  cases choice with
  | append t item =>
    cases hc : s.code t with
    | nil =>
      simp only [State.next, hc, Option.some.injEq] at hr
      subst hr
      cases hs
      exact .callAppend hc hd
    | cons f code => simp [State.next, hc] at hr
  | removeFront t =>
    cases hc : s.code t with
    | nil =>
      simp only [State.next, hc, Option.some.injEq] at hr
      subst hr
      cases hs
      exact .callRemoveFront hc
    | cons f code => simp [State.next, hc] at hr
  | go t =>
    cases hc : s.code t with
    | nil => simp [State.next, hc] at hr
    | cons f code =>
      simp only [State.next, hc] at hr
      split at hr
      · cases hr
      · cases hr
        obtain ⟨s1, hok, hm⟩ := goOn_moves h hc
        rw [hok] at hs
        cases hs
        exact hm

theorem reachable_inv (h : Reachable s) : Inv s ∧ s.stopped = none := by
  apply Runs.invariant (I := fun s => Inv s ∧ s.stopped = none) h ⟨start_inv, rfl⟩
  intro s choice s' hi hd hs
  have hm := step_moves hi.1 hd hs
  exact ⟨move_inv hi.1 hm, (move_stopped hm).trans hi.2⟩

/-- The thread is in `Condition::Wait`, and its waiter is `w`. -/
def State.InWait (s : State α) (t : Tid) (w : Nat) : Prop := .delete w ∈ s.code t

/-- **A synchronized list is a first-in first-out queue.** In every state of every run in which distinct
items are appended: one thread at most is between `Acquire` and `Release`; the items removed are, in
order, the first of the items appended, the others are in the list, and `RemoveFront` returns what it
has removed; no assertion has failed, so that nothing is taken from an empty list; and when the lock is
free and waiters are queued, there are no more items in the list than waiters that are signalled and
have not taken the lock again. -/
theorem synchList_fifo {s : State α} (h : Reachable s) :
    (∀ t u, s.Holds t → s.Holds u → t = u) ∧
    removed s.log <+: appended s.log ∧ removed s.log ++ s.list = appended s.log ∧
    (∀ t item, .returned item ∈ s.code t → lastRemoved s.log t = some item) ∧
    s.stopped = none ∧
    ((s.sems .lock).value ≠ 0 →
      (s.waitQueue ≠ [] → s.list.length ≤ s.signalled.length) ∧ s.signalled.Nodup ∧
      ∀ w, w ∈ s.signalled ↔ w ∉ s.waitQueue ∧ ∃ t, s.InWait t w ∧ ¬ s.Holds t) := by
  obtain ⟨hi, hstop⟩ := reachable_inv h
  have hfifo := removed_append_of_replay hi.items.queue
  refine ⟨fun t u => hi.locking.lock.unique, ⟨_, hfifo⟩, hfifo, hi.items.returned, hstop, ?_⟩
  intro hfree
  have hnone := hi.locking.lock.not_holds hfree
  refine ⟨?_, hi.waiters.signalledOnce, ?_⟩
  · intro hw
    rcases hi.count.count hw with hle | ⟨t, ht, -⟩
    · exact hle
    · exact absurd (by simp [State.Holds, phase_of_slack ht]) (hnone t)
  · intro w
    simpa [hnone, State.InWait, State.view] using hi.waiters.signalled w

def twoWaiters : List (Choice Nat) :=
  let go (t : Tid) (n : Nat) : List (Choice Nat) := List.replicate n (.go t)
  [.removeFront 1] ++ go 1 7 ++ [.removeFront 2] ++ go 2 7 ++ [.append 0 5] ++ go 0 7

theorem synchList_fifo_twoWaiters : ∃ s : State Nat, Reachable s ∧ (s.sems .lock).value = 1 ∧
    s.waitQueue = [1] ∧ s.list = [5] ∧ s.list.length ≤ s.signalled.length ∧
    removed s.log <+: appended s.log := by
  have h : ((runChecked step (fun s choice => match choice with
      | .append _ item => decide (item ∉ s.items)
      | _ => true) start twoWaiters).any fun s =>
        decide ((s.sems .lock).value = 1 ∧ s.waitQueue = [1] ∧ s.list = [5])) = true := by
    decide +kernel
  obtain ⟨s, hs, h⟩ := (Option.any_eq_true _ _).1 h
  obtain ⟨hv, hw, hl⟩ := of_decide_eq_true h
  have hrun : Reachable s := by
    refine runs_of_runChecked (fun s choice hd => ?_) hs
    cases choice with
    | append t item =>
      show item ∉ s.items
      exact of_decide_eq_true hd
    | removeFront t => trivial
    | go t => trivial
  obtain ⟨-, hfifo, -, -, -, hfree⟩ := synchList_fifo hrun
  exact ⟨s, hrun, hv, hw, hl, (hfree (by simp [hv])).1 (by simp [hw]), hfifo⟩

end Nachos.SynchList
