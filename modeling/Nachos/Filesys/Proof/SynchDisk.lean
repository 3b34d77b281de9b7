import Nachos.Filesys.SynchDisk
import Nachos.Threads.Proof.SynchDevice

/-!
# The synchronous disk serves its callers one by one

`Synchronized`: what holds of the disk in every run of any threads. The part about the lock, the
semaphore and the flag is that of every busy device (`Served`); what the sectors hold is here, against the
requests in their order (`contents`).
-/

namespace Nachos.SynchDisk

open Base

open FileSystem (Sector Disk numSectors)
open SynchDevice

variable {initial : Disk} {s : State (Busy Contents) Request Call} {log : List (Tid × Request)}
    {t : Tid} {sectorNumber : Int}

/-! ## What the sectors should hold -/

def Call.request : Call → Request
  | .readSector sectorNumber => .read sectorNumber
  | .writeSector sectorNumber data => .write sectorNumber data

def Request.written (n : Nat) : Request → Option Sector
  | .read _ => none
  | .write sectorNumber data => if sectorNumber = n then some data else none

/-- A sector after these requests: what the last one that wrote it has written. -/
def contents (initial : Disk) (log : List (Tid × Request)) (n : Nat) : Sector :=
  ((log.filterMap fun a => a.2.written n).getLast?).getD (initial n)

/-- What holds of the synchronous disk, with this on the disk at first. -/
structure Synchronized (initial : Disk) (s : State (Busy Contents) Request Call) : Prop where
  /-- `ASSERT(!active)` has not failed -/
  ready : s.stopped ≠ some .notReady
  outstanding : s.device.pending.length ≤ 1
  /-- a thread that goes on behind `P` does so by the interrupt of a request of its own -/
  own : ∀ w ∈ s.woken, w.2 ∈ s.device.completed ∧ ∃ request, s.performed[w.2]? = some (w.1, request)
  /-- and it does so before it returns -/
  returned : ∀ t, s.place t ≠ .inside [.wait] → ∀ r request, s.performed[r]? = some (t, request) →
    (t, r) ∈ s.woken
  /-- the requests are made in the order of the lock, but for the one of the holder -/
  order : ∃ rest, s.acquisitions.map (fun a => (a.1, a.2.request)) = s.performed ++ rest ∧
    rest.length ≤ 1
  /-- the writes have taken effect in this order -/
  sectors : ∀ n, s.device.data.sectors n = contents initial s.performed n
  reads : ∀ r t sectorNumber, s.performed[r]? = some (t, .read sectorNumber) →
    ∀ data, (r, data) ∈ s.device.data.delivered ↔
      data = contents initial (s.performed.take r) sectorNumber.toNat

/-! ## The disk as a busy device -/

theorem work_ne_notReady {α : Type} {c c' : Prop} [Decidable c] [Decidable c'] {a : α} :
    (do SynchDevice.assert c .argument
        SynchDevice.assert c' .host
        return a : Except SynchDevice.Stop α) ≠ .error .notReady := by
  by_cases hc : c
  · by_cases hc' : c'
    · rw [SynchDevice.assert_of hc, SynchDevice.assert_of hc']
      nofun
    · rw [SynchDevice.assert_of hc, SynchDevice.assert_not hc']
      nofun
  · rw [SynchDevice.assert_not hc]
    nofun

theorem synchronous : Synchronous interface where
  request d t op hostOk := by
    cases op with
    | read sectorNumber | write sectorNumber data => exact ⟨_, work_ne_notReady, rfl⟩
  callBack _ _ := rfl
  body call := by
    cases call with
    | readSector => exact .cons .nil
    | writeSector => exact .cons .nil

/-! ## The sectors -/

theorem contents_read (log : List (Tid × Request)) (t : Tid) (sectorNumber : Int) (n : Nat) :
    contents initial (log ++ [(t, .read sectorNumber)]) n = contents initial log n := by
  simp [contents, Request.written]

theorem contents_write (log : List (Tid × Request)) (t : Tid) (sectorNumber : Int) (data : Sector)
    (n : Nat) : contents initial (log ++ [(t, .write sectorNumber data)]) n =
      if sectorNumber = n then data else contents initial log n := by
  by_cases h : sectorNumber = n
  · simp [contents, Request.written, h]
  · simp [contents, Request.written, h]

structure Recorded (initial : Disk) (log : List (Tid × Request)) (c : Contents) : Prop where
  sectors : ∀ n, c.sectors n = contents initial log n
  reads : ∀ r t sectorNumber, log[r]? = some (t, .read sectorNumber) →
    ∀ data, (r, data) ∈ c.delivered ↔ data = contents initial (log.take r) sectorNumber.toNat
  bound : ∀ p ∈ c.delivered, p.1 < log.length

theorem Recorded.reads_append {c : Contents} (h : Recorded initial log c) {request : Request}
    {r : Nat} {u : Tid} (hr : r < log.length)
    (ho : (log ++ [(t, request)])[r]? = some (u, .read sectorNumber)) (data : Sector) :
    (r, data) ∈ c.delivered ↔
      data = contents initial ((log ++ [(t, request)]).take r) sectorNumber.toNat := by
  rw [List.getElem?_append_left hr] at ho
  rw [List.take_append_of_le_length hr.le]
  exact h.reads r u sectorNumber ho data

theorem Recorded.read {d d' : Busy Contents} {hostOk : Bool}
    (h : Recorded initial log d.data) (hd : d.operations = log.length)
    (hr : readRequest d sectorNumber hostOk = .ok d') :
    Recorded initial (log ++ [(t, .read sectorNumber)]) d'.data := by
  have hw := Busy.perform_ok hr
  obtain ⟨_, -, hw⟩ := bind_ok hw
  obtain ⟨_, -, hw⟩ := bind_ok hw
  rw [← Except.ok.inj hw]
  refine ⟨fun n => ?_, fun r u k ho data => ?_, fun p hp => ?_⟩
  · rw [contents_read]
    exact h.sectors n
  · rw [List.mem_append, List.mem_singleton, Prod.mk.injEq, hd]
    rcases Nat.lt_or_ge r log.length with hlt | hge
    · rw [← h.reads_append hlt ho data]
      exact ⟨fun hc => hc.resolve_right fun e => absurd e.1 hlt.ne, .inl⟩
    · obtain ⟨hlt, -⟩ := List.getElem?_eq_some_iff.1 ho
      rw [List.length_append, List.length_singleton] at hlt
      obtain rfl : r = log.length := by omega
      rw [List.getElem?_concat_length] at ho
      cases ho
      rw [List.take_left, ← h.sectors]
      exact ⟨fun hc => (hc.resolve_left fun hm => absurd (h.bound _ hm) (Nat.lt_irrefl _)).2,
        fun e => .inr ⟨rfl, e⟩⟩
  · rw [List.length_append, List.length_singleton]
    rcases List.mem_append.1 hp with hp | hp
    · exact (h.bound p hp).trans (Nat.lt_succ_self _)
    · rw [List.mem_singleton.1 hp]
      exact hd ▸ Nat.lt_succ_self _

theorem Recorded.write {d d' : Busy Contents} {data : Sector} {hostOk : Bool}
    (h : Recorded initial log d.data) (hr : writeRequest d sectorNumber data hostOk = .ok d') :
    Recorded initial (log ++ [(t, .write sectorNumber data)]) d'.data := by
  have hw := Busy.perform_ok hr
  obtain ⟨_, hin, hw⟩ := bind_ok hw
  obtain ⟨_, -, hw⟩ := bind_ok hw
  obtain ⟨h0, -⟩ := SynchDevice.assert_ok hin
  rw [← Except.ok.inj hw]
  refine ⟨fun n => ?_, fun r u k ho data' => ?_, fun p hp => ?_⟩
  · rw [contents_write]
    show Function.update d.data.sectors sectorNumber.toNat data n = _
    rw [Function.update_apply]
    by_cases hn : n = sectorNumber.toNat
    · rw [if_pos hn, if_pos (by omega)]
    · rw [if_neg hn, if_neg (by omega), h.sectors]
  · rcases Nat.lt_or_ge r log.length with hlt | hge
    · exact h.reads_append hlt ho data'
    · obtain ⟨hlt, -⟩ := List.getElem?_eq_some_iff.1 ho
      rw [List.length_append, List.length_singleton] at hlt
      obtain rfl : r = log.length := by omega
      rw [List.getElem?_concat_length] at ho
      cases ho
  · rw [List.length_append]
    exact (h.bound p hp).trans_le (Nat.le_add_right _ _)

theorem recorded (h : Reachable interface (.new ⟨initial, []⟩) s) :
    Recorded initial s.performed s.device.data := by
  refine h.data_invariant synchronous ⟨fun n => rfl, nofun, nofun⟩ ?_
  intro d d' log t op hostOk hd hi hr
  cases op with
  | read sectorNumber => exact hi.read hd hr
  | write sectorNumber data => exact hi.write hr

/-! ## The result -/

theorem body_eq (call : Call) : interface.body call = [.device call.request, .wait] := by
  cases call <;> rfl

theorem toDo_length_le (h : Reachable interface (.new ⟨initial, []⟩) s) : s.toDo.length ≤ 1 := by
  cases hl : s.lockHolder with
  | none => simp [State.toDo, hl]
  | some t =>
    obtain ⟨body, ht⟩ := (h.locked.holder t).1 hl
    obtain ⟨call, hc⟩ := h.isSuffix ht
    rw [h.locked.toDo_eq ht, operations, List.length_map]
    calc (body.filterMap Action.op?).length
        ≤ ((interface.body call).filterMap Action.op?).length := (hc.sublist.filterMap _).length_le
      _ = 1 := by rw [body_eq]; rfl

theorem flatMap_operations (calls : List (Tid × Call)) :
    calls.flatMap (fun a => operations a.1 (interface.body a.2)) =
      calls.map fun a => (a.1, a.2.request) := by
  induction calls with
  | nil => rfl
  | cons a calls ih =>
    rw [List.flatMap_cons, ih, body_eq]
    rfl

/-- **The synchronous disk**, in every run of any threads: the disk is never asked while it is active,
a call returns by the interrupt of its own request, and the requests take effect in the order of the
lock. -/
theorem synchronized_of_reachable (h : Reachable interface (.new ⟨initial, []⟩) s) :
    Synchronized initial s := by
  have hs := h.served synchronous
  have hd := recorded h
  refine ⟨hs.ready, ?_, hs.own, fun t ht r request ho => ?_, ?_, hd.sectors, hd.reads⟩
  · cases hs.phase with
    | idle _ hp | running _ _ _ _ hp | done _ _ _ _ hp => simp [hp]
  · rcases hs.woken r t request ho with hw | ⟨-, body, hu⟩
    · exact hw
    · obtain ⟨call, hc⟩ := h.isSuffix hu
      rw [body_eq] at hc
      -- the only wait of a call is its last statement
      rcases List.suffix_cons_iff.1 hc with he | he
      · cases he
      · rcases List.suffix_cons_iff.1 he with he | he
        · exact absurd (he ▸ hu) ht
        · cases List.eq_nil_of_suffix_nil he
  · exact ⟨s.toDo, by rw [← flatMap_operations, h.operations_eq], toDo_length_le h⟩

def filled (b : Byte) : Sector := ⟨List.replicate FileSystem.sectorSize b, List.length_replicate⟩

def writeThenRead : List (Event Call Nat) :=
  [.call 1 (.writeSector 5 (filled 7)), .call 2 (.readSector 5), .go 1 true, .go 2 true, .go 1 true,
    .go 1 true, .go 1 true, .interrupt 0, .go 1 true, .go 1 true, .go 1 true, .go 2 true, .go 2 true,
    .go 2 true, .interrupt 1, .go 2 true, .go 2 true, .go 2 true]

theorem synchronized_writeThenRead : ∃ s, Reachable interface (.new ⟨fun _ => filled 0, []⟩) s ∧
    (s.woken = [(1, 0), (2, 1)] ∧ s.device.data.delivered = [(1, filled 7)]) ∧
    Synchronized (fun _ => filled 0) s := by
  obtain ⟨s, h, hd⟩ := exists_runs (SynchDevice.step interface) (fun _ _ => True)
    (SynchDevice.start (.new ⟨fun _ => filled 0, []⟩)) writeThenRead
    (fun s => s.woken = [(1, 0), (2, 1)] ∧ s.device.data.delivered = [(1, filled 7)])
    (by decide +kernel)
  exact ⟨s, h, hd, synchronized_of_reachable h⟩

end Nachos.SynchDisk
