import Nachos.Threads.PTable
import Nachos.Userprog.Proof.Frames

/-!
# The invariant of the process table

`Inv` holds in every reachable state (`reachable_inv`): an element of `pcb` is the PCB of the one
process with that number that is not deleted, a marked number without a PCB is reserved by one thread,
a semaphore `exitsem` or `joinsem` has a value only when its process has come past its release. To
each place belongs what a thread knows there (`Knows`); it is said in terms that later states keep
(`View.Le`), so that the steps of the other threads do not matter to it.

`Inv` speaks of a `View` of the state. `Inv.goto` is the rule for the step of a thread to another
place; making a PCB, forking and removing have their own (`Inv.create`, `Inv.born`, `Inv.delete`).
-/

namespace Nachos

open Base Function
open Function (forall_update_iff update update_comm update_idem update_of_ne update_self)

namespace PTable

/-! ## What a place says -/

def ExitPc.codeSet : ExitPc → Bool
  | .checking | .checked _ => false
  | _ => true

def ExitPc.released : ExitPc → Bool
  | .checking | .checked _ | .joinReleased .. => false
  | _ => true

def ExitPc.leaves : ExitPc → Bool
  | .exited | .removing | .removed => true
  | _ => false

def ExecPc.reserves : ExecPc → Option Nat
  | .found freeSlot | .creating freeSlot => if freeSlot = -1 then none else some freeSlot.toNat
  | _ => none

def ExecPc.unforked : ExecPc → Option Tid
  | .created p _ | .incNumWait _ p _ | .firstChild _ p _ | .counted p _ | .opening p _
  | .allocating p .. | .forking p .. => some p
  | _ => none

namespace Place

/-- The thread has executed `ExitUpdate` with this code, up to `JoinRelease` at least. -/
def code : Place → Option Int
  | .exit exitCode pc => if pc.codeSet then some exitCode else none
  | .finished exitCode => some exitCode
  | _ => none

def released : Place → Bool
  | .exit _ pc => pc.released
  | .finished _ => true
  | _ => false

def leaves : Place → Bool
  | .exit _ pc => pc.leaves
  | .finished _ => true
  | _ => false

def gone : Place → Bool
  | .exit _ .removed | .finished _ => true
  | _ => false

def reserves : Place → Option Nat
  | .exec _ _ pc => pc.reserves
  | _ => none

def unforked : Place → Option Tid
  | .exec _ _ pc => pc.unforked
  | _ => none

def guarded : Place → Option Sem
  | .join _ _ (.joined q) => some (.joinsem q)
  | .exit _ (.accepted _ parent) => some (.exitsem parent)
  | _ => none

end Place

/-! ## Views -/

@[ext]
structure View where
  entry : Nat → Entry
  bit : Nat → Bool
  next : Tid
  pcbs : Tid → PCB
  place : Tid → Place
  waiting : Tid → Option Sem
  id : Tid → Nat
  /-- the values of `joinsem` and `exitsem` -/
  joins : Tid → Nat
  exits : Tid → Nat

def State.view (s : State) : View where
  entry := s.pcb
  bit := s.bm.bit
  next := s.next
  pcbs p := { s.pcbs p with numwait := 0 }
  place t := (s.threads t).place
  waiting t := (s.threads t).waiting
  id t := (s.threads t).id
  joins p := (s.sems (.joinsem p)).value
  exits p := (s.sems (.exitsem p)).value

namespace View

def Accepted (v : View) (t : Tid) : Prop :=
  ∀ k, (v.pcbs t).parent = some k → (v.place k).released

def ByParent (v : View) (t q : Tid) : Prop :=
  ∀ k, (v.pcbs t).parent = some k → q = k ∨ (v.place k).released

def Child (v : View) (t p : Tid) (i : Nat) : Prop :=
  p < v.next ∧ (v.pcbs p).parent = some t ∧ (v.pcbs p).pID = i

def ExecKnows (v : View) (t : Tid) : ExecPc → Prop
  | .finding | .found _ | .creating _ => True
  | .incNumWait q p i | .firstChild q p i => q = t ∧ v.Child t p i
  | .created p i | .counted p i | .opening p i | .allocating p i _ _ | .forking p i _ _
  | .forked p i => v.Child t p i

def JoinKnows (v : View) (t : Tid) (child : Entry) (passed : Bool) : JoinPc → Prop
  | .checking | .checked _ => True
  | .joined q => q < v.next ∧ (∀ p, child = .obj p → (v.pcbs p).parent = some t → q = p) ∧
      (passed → (v.place q).code.isSome)

def ExitKnows (v : View) (t : Tid) (passed : Bool) : ExitPc → Prop
  | .checking | .checked _ => True
  | .joinReleased cur parentID | .exitReleased cur parentID =>
    cur = t ∧ parentID = (v.pcbs t).parentID
  | .decNumWait cur par | .lastChild cur par | .counted cur par => cur = t ∧ v.ByParent t par
  | .accepted cur par => cur = t ∧ v.ByParent t par ∧ (passed → (v.place par).released)
  | .waited cur => cur = t ∧ v.Accepted t
  | .exited | .removing | .removed => v.Accepted t

def Knows (v : View) (t : Tid) (passed : Bool) : Place → Prop
  | .unborn | .user | .loading _ | .copying _ => True
  | .exec _ _ pc => v.ExecKnows t pc
  | .join pID child pc =>
    (∀ p, child = .obj p → p < v.next ∧ (v.pcbs p).pID = pID) ∧ v.JoinKnows t child passed pc
  | .exit _ pc => v.ExitKnows t passed pc
  | .finished _ => v.Accepted t

structure Inv (v : View) : Prop where
  entry_iff : ∀ i p, v.entry i = .obj p ↔
    p < v.next ∧ (v.pcbs p).deleted = false ∧ (v.pcbs p).pID = i
  marked : ∀ i p, v.entry i = .obj p → v.bit i = true
  reserved : ∀ t i, (v.place t).reserves = some i → v.bit i = true ∧ ∀ p, v.entry i ≠ .obj p
  reserver : ∀ t u i, (v.place t).reserves = some i → (v.place u).reserves = some i → t = u
  unused : ∀ p, v.next ≤ p → v.place p = .unborn
  unforked : ∀ t p, (v.place t).unforked = some p → v.place p = .unborn
  deleted : ∀ p, (v.pcbs p).deleted = true → (v.place p).gone
  id : ∀ t, v.place t ≠ .unborn → v.id t = (v.pcbs t).pID
  root : 0 < v.next ∧ (v.pcbs 0).parent = none ∧ (v.pcbs 0).pID = 0
  leaves : ∀ t, (v.place t).leaves → v.id t ≠ 0
  parent : ∀ p < v.next, ∀ k, (v.pcbs p).parent = some k →
    k < v.next ∧ (v.pcbs p).parentID = (v.pcbs k).pID
  exits : ∀ p, v.exits p ≠ 0 → (v.place p).released
  joins : ∀ p, v.joins p ≠ 0 → (v.place p).code.isSome
  code : ∀ p c, (v.place p).code = some c → (v.pcbs p).exitcode = c
  guarded : ∀ t sem sem', v.waiting t = some sem → (v.place t).guarded = some sem' → sem = sem'
  knows : ∀ t, v.Knows t (v.waiting t = none) (v.place t)

/-! ## What later states keep -/

structure Le (v v' : View) : Prop where
  next : v.next ≤ v'.next
  parent : ∀ p < v.next, (v'.pcbs p).parent = (v.pcbs p).parent
  pID : ∀ p < v.next, (v'.pcbs p).pID = (v.pcbs p).pID
  parentID : ∀ p < v.next, (v'.pcbs p).parentID = (v.pcbs p).parentID
  released : ∀ p, (v.place p).released → (v'.place p).released
  code : ∀ p, (v.place p).code.isSome → (v'.place p).code.isSome

variable {v v' : View} {t p q : Tid} {i : Nat} {passed : Bool} {pl : Place}

theorem Accepted.mono (h : v.Accepted t) (hle : v.Le v') (ht : t < v.next) : v'.Accepted t := by
  intro k hk
  rw [hle.parent t ht] at hk
  exact hle.released k (h k hk)

theorem ByParent.mono (h : v.ByParent t q) (hle : v.Le v') (ht : t < v.next) : v'.ByParent t q := by
  intro k hk
  rw [hle.parent t ht] at hk
  exact (h k hk).imp_right (hle.released k)

theorem Child.mono (h : v.Child t p i) (hle : v.Le v') : v'.Child t p i := by
  obtain ⟨hp, hpar, hid⟩ := h
  exact ⟨Nat.lt_of_lt_of_le hp hle.next, (hle.parent p hp).trans hpar, (hle.pID p hp).trans hid⟩

theorem ExecKnows.mono {pc : ExecPc} (h : v.ExecKnows t pc) (hle : v.Le v') : v'.ExecKnows t pc := by
  cases pc with
  | finding | found | creating => trivial
  | incNumWait | firstChild => exact ⟨h.1, Child.mono h.2 hle⟩
  | created | counted | opening | allocating | forking | forked => exact Child.mono h hle

theorem JoinKnows.mono {pc : JoinPc} {child : Entry}
    (h : v.JoinKnows t child passed pc) (hle : v.Le v')
    (hc : ∀ p, child = .obj p → p < v.next) : v'.JoinKnows t child passed pc := by
  cases pc with
  | checking | checked => trivial
  | joined q =>
    obtain ⟨hq, hsame, hcode⟩ := h
    refine ⟨Nat.lt_of_lt_of_le hq hle.next, ?_, fun hp => hle.code q (hcode hp)⟩
    intro p hp hpar
    rw [hle.parent p (hc p hp)] at hpar
    exact hsame p hp hpar

theorem ExitKnows.mono {pc : ExitPc} (h : v.ExitKnows t passed pc) (hle : v.Le v')
    (ht : t < v.next) : v'.ExitKnows t passed pc := by
  cases pc with
  | checking | checked => trivial
  | joinReleased | exitReleased => exact ⟨h.1, h.2.trans (hle.parentID t ht).symm⟩
  | decNumWait | lastChild | counted | waited => exact ⟨h.1, h.2.mono hle ht⟩
  | accepted cur par => exact ⟨h.1, h.2.1.mono hle ht, fun hp => hle.released par (h.2.2 hp)⟩
  | exited | removing | removed => exact Accepted.mono h hle ht

theorem Knows.mono (h : v.Knows t passed pl) (hle : v.Le v')
    (ht : t < v.next) : v'.Knows t passed pl := by
  cases pl with
  | unborn | user | loading | copying => trivial
  | exec _ _ pc => exact ExecKnows.mono h hle
  | join pID child pc =>
    obtain ⟨hc, hpc⟩ := h
    refine ⟨fun p hp => ?_, hpc.mono hle fun p hp => (hc p hp).1⟩
    obtain ⟨hlt, hid⟩ := hc p hp
    exact ⟨Nat.lt_of_lt_of_le hlt hle.next, by rw [hle.pID p hlt, hid]⟩
  | exit _ pc => exact ExitKnows.mono h hle ht
  | finished => exact Accepted.mono h hle ht

/-! ## Another place -/

theorem Inv.lt_next (h : v.Inv) (ht : v.place t ≠ .unborn) : t < v.next := by
  by_contra hlt
  exact ht (h.unused t (Nat.le_of_not_lt hlt))

theorem Inv.knows_of_le (h : v.Inv) (hle : v.Le v') (u : Tid) :
    v'.Knows u (v.waiting u = none) (v.place u) := by
  by_cases hu : v.place u = .unborn
  · rw [hu]
    trivial
  · exact (h.knows u).mono hle (h.lt_next hu)

structure Moves (v : View) (t : Tid) (pl : Place) : Prop where
  was : v.place t ≠ .unborn
  born : pl ≠ .unborn
  released : (v.place t).released → pl.released
  code : (v.place t).code.isSome → pl.code.isSome
  gone : (v.place t).gone → pl.gone
  leaves : pl.leaves → v.id t ≠ 0
  exitcode : ∀ c, pl.code = some c → (v.pcbs t).exitcode = c
  reserved : ∀ i, pl.reserves = some i → v.bit i = true ∧ (∀ p, v.entry i ≠ .obj p) ∧
    ∀ u, u ≠ t → (v.place u).reserves ≠ some i
  unforked : ∀ p, pl.unforked = some p → v.place p = .unborn

def goto (v : View) (t : Tid) (pl : Place) (waiting : Option Sem) (joins exits : Tid → Nat) : View :=
  { v with
    place := update v.place t pl
    waiting := update v.waiting t waiting
    joins
    exits }

section goto

variable {pl : Place} {waiting : Option Sem} {joins exits : Tid → Nat}

@[simp] theorem goto_place_self : (v.goto t pl waiting joins exits).place t = pl :=
  update_self ..

@[simp] theorem goto_waiting_self : (v.goto t pl waiting joins exits).waiting t = waiting :=
  update_self ..

theorem goto_place_of_ne (h : q ≠ t) : (v.goto t pl waiting joins exits).place q = v.place q :=
  update_of_ne h ..

theorem goto_waiting_of_ne (h : q ≠ t) : (v.goto t pl waiting joins exits).waiting q = v.waiting q :=
  update_of_ne h ..

theorem forall_goto {P : Tid → Place → Prop} (ht : P t pl) (h : ∀ u, u ≠ t → P u (v.place u)) (u : Tid) :
    P u ((v.goto t pl waiting joins exits).place u) :=
  (forall_update_iff v.place P).2 ⟨ht, h⟩ u

theorem Moves.le (hm : v.Moves t pl) : v.Le (v.goto t pl waiting joins exits) where
  next := Nat.le_refl _
  parent _ _ := rfl
  pID _ _ := rfl
  parentID _ _ := rfl
  released := forall_goto (P := fun p pl => (v.place p).released → pl.released) hm.released
    fun _ _ h => h
  code := forall_goto (P := fun p pl => (v.place p).code.isSome → pl.code.isSome) hm.code
    fun _ _ h => h

theorem Inv.goto (h : v.Inv) (hm : v.Moves t pl)
    (hj : ∀ q, joins q ≠ 0 →
      v.joins q ≠ 0 ∨ ((v.goto t pl waiting joins exits).place q).code.isSome)
    (he : ∀ q, exits q ≠ 0 →
      v.exits q ≠ 0 ∨ ((v.goto t pl waiting joins exits).place q).released)
    (hg : ∀ sem sem', waiting = some sem → pl.guarded = some sem' → sem = sem')
    (hk : v.Knows t (waiting = none) pl) : (v.goto t pl waiting joins exits).Inv where
  entry_iff := h.entry_iff
  marked := h.marked
  reserved := forall_goto (P := fun _ pl => ∀ i, pl.reserves = some i →
      v.bit i = true ∧ ∀ p, v.entry i ≠ .obj p)
    (fun i hi => ⟨(hm.reserved i hi).1, (hm.reserved i hi).2.1⟩) fun u _ => h.reserved u
  reserver u u' i hu hu' := by
    by_cases hut : u = t <;> by_cases hut' : u' = t
    · rw [hut, hut']
    · rw [hut, goto_place_self] at hu
      rw [goto_place_of_ne hut'] at hu'
      exact absurd hu' ((hm.reserved i hu).2.2 u' hut')
    · rw [hut', goto_place_self] at hu'
      rw [goto_place_of_ne hut] at hu
      exact absurd hu ((hm.reserved i hu').2.2 u hut)
    · rw [goto_place_of_ne hut] at hu
      rw [goto_place_of_ne hut'] at hu'
      exact h.reserver u u' i hu hu'
  unused p hp := by
    have hpt : p ≠ t := fun hpt => hm.was (h.unused t (hpt ▸ hp))
    rw [goto_place_of_ne hpt]
    exact h.unused p hp
  unforked := by
    have key : ∀ p, v.place p = .unborn → (v.goto t pl waiting joins exits).place p = .unborn := by
      intro p hp
      have hpt : p ≠ t := by
        rintro rfl
        exact hm.was hp
      rw [goto_place_of_ne hpt]
      exact hp
    exact forall_goto (P := fun _ pl' => ∀ p, pl'.unforked = some p →
        (v.goto t pl waiting joins exits).place p = .unborn)
      (fun p hp => key p (hm.unforked p hp)) fun u _ p hp => key p (h.unforked u p hp)
  deleted := forall_goto (P := fun p pl => (v.pcbs p).deleted = true → pl.gone)
    (fun hd => hm.gone (h.deleted t hd)) fun u _ => h.deleted u
  id := forall_goto (P := fun t pl => pl ≠ .unborn → v.id t = (v.pcbs t).pID)
    (fun _ => h.id t hm.was) fun u _ => h.id u
  root := h.root
  leaves := forall_goto (P := fun t pl => pl.leaves → v.id t ≠ 0) hm.leaves fun u _ => h.leaves u
  parent := h.parent
  exits q hq := (he q hq).elim (fun hq => hm.le.released q (h.exits q hq)) fun hq => hq
  joins q hq := (hj q hq).elim (fun hq => hm.le.code q (h.joins q hq)) fun hq => hq
  code := forall_goto (P := fun p pl => ∀ c, pl.code = some c → (v.pcbs p).exitcode = c)
    hm.exitcode fun u _ => h.code u
  guarded u sem sem' hw hpl := by
    by_cases hu : u = t
    · rw [hu, goto_waiting_self] at hw
      rw [hu, goto_place_self] at hpl
      exact hg sem sem' hw hpl
    · rw [goto_waiting_of_ne hu] at hw
      rw [goto_place_of_ne hu] at hpl
      exact h.guarded u sem sem' hw hpl
  knows u := by
    by_cases hu : u = t
    · rw [hu, goto_waiting_self, goto_place_self]
      exact hk.mono hm.le (h.lt_next hm.was)
    · rw [goto_waiting_of_ne hu, goto_place_of_ne hu]
      exact h.knows_of_le hm.le u

end goto

/-! ## The table -/

theorem leaves_of_gone (h : pl.gone) : pl.leaves := by
  cases pl with
  | exit c pc => cases pc with
    | removed => rfl
    | _ => cases h
  | finished => rfl
  | _ => cases h

theorem released_of_gone (h : pl.gone) : pl.released := by
  cases pl with
  | exit c pc => cases pc with
    | removed => rfl
    | _ => cases h
  | finished => rfl
  | _ => cases h

theorem Inv.entry_of_not_gone (h : v.Inv) (hp : p < v.next) (hg : ¬ (v.place p).gone) :
    v.entry (v.pcbs p).pID = .obj p := by
  refine (h.entry_iff _ p).2 ⟨hp, ?_, rfl⟩
  cases hd : (v.pcbs p).deleted with
  | false => rfl
  | true => exact absurd (h.deleted p hd) hg

theorem Inv.entry_zero (h : v.Inv) : v.entry 0 = .obj 0 := by
  obtain ⟨hn, -, hid⟩ := h.root
  have := h.entry_of_not_gone hn fun hg => by
    have hl := leaves_of_gone hg
    have hub : v.place 0 ≠ .unborn := by
      intro hub
      rw [hub] at hl
      cases hl
    exact h.leaves 0 hl ((h.id 0 hub).trans hid)
  rwa [hid] at this

def mark (v : View) (i : Nat) : View := { v with bit := fun j => decide (j = i) || v.bit j }

theorem Inv.mark (h : v.Inv) (i : Nat) : (v.mark i).Inv :=
  { h with
    marked := fun j p hj => by
      show (decide (j = i) || v.bit j) = true
      rw [h.marked j p hj, Bool.or_true]
    reserved := fun t j hj => by
      refine ⟨?_, (h.reserved t j hj).2⟩
      show (decide (j = i) || v.bit j) = true
      rw [(h.reserved t j hj).1, Bool.or_true] }

def create (v : View) (i : Nat) (pcb : PCB) : View :=
  { v with
    next := v.next + 1
    entry := update v.entry i (.obj v.next)
    pcbs := update v.pcbs v.next pcb
    joins := update v.joins v.next 0
    exits := update v.exits v.next 0 }

section create

variable {pcb : PCB}

theorem create_entry_self : (v.create i pcb).entry i = .obj v.next := update_self ..

theorem create_entry_of_ne {j : Nat} (h : j ≠ i) : (v.create i pcb).entry j = v.entry j :=
  update_of_ne h ..

theorem create_pcbs_of_lt (h : p < v.next) : (v.create i pcb).pcbs p = v.pcbs p :=
  update_of_ne (Nat.ne_of_lt h) ..

theorem create_pcbs_next : (v.create i pcb).pcbs v.next = pcb := update_self ..

theorem le_create : v.Le (v.create i pcb) where
  next := Nat.le_succ _
  parent p hp := by rw [create_pcbs_of_lt hp]
  pID p hp := by rw [create_pcbs_of_lt hp]
  parentID p hp := by rw [create_pcbs_of_lt hp]
  released _ h := h
  code _ h := h

theorem Inv.create (h : v.Inv) (ht : v.place t ≠ .unborn) (hbit : v.bit i = true)
    (hentry : ∀ p, v.entry i ≠ .obj p) (hfree : ∀ u, (v.place u).reserves ≠ some i)
    (hd : pcb.deleted = false) (hi : pcb.pID = i) (hp : pcb.parent = some t)
    (hpid : pcb.parentID = if i = 0 then -1 else (v.id t : Int)) : (v.create i pcb).Inv := by
  have hlt : t < v.next := h.lt_next ht
  have hi0 : i ≠ 0 := by
    rintro rfl
    exact hentry 0 h.entry_zero
  refine ⟨?_, ?_, ?_, h.reserver, ?_, h.unforked, ?_, ?_, ?_, h.leaves, ?_, ?_, ?_, ?_, h.guarded, ?_⟩
  · intro j p
    by_cases hj : j = i
    · subst hj
      rw [create_entry_self]
      constructor
      · rintro ⟨⟩
        rw [create_pcbs_next]
        exact ⟨Nat.lt_succ_self _, hd, hi⟩
      · rintro ⟨hp', hdel, hid⟩
        rcases Nat.lt_succ_iff_lt_or_eq.1 hp' with hlt | rfl
        · rw [create_pcbs_of_lt hlt] at hdel hid
          exact absurd ((h.entry_iff j p).2 ⟨hlt, hdel, hid⟩) (hentry p)
        · rfl
    · rw [create_entry_of_ne hj, h.entry_iff]
      constructor
      · rintro ⟨hlt, hdel, hid⟩
        rw [create_pcbs_of_lt hlt]
        exact ⟨Nat.lt_succ_of_lt hlt, hdel, hid⟩
      · rintro ⟨hp', hdel, hid⟩
        rcases Nat.lt_succ_iff_lt_or_eq.1 hp' with hlt | rfl
        · rw [create_pcbs_of_lt hlt] at hdel hid
          exact ⟨hlt, hdel, hid⟩
        · rw [create_pcbs_next, hi] at hid
          exact absurd hid.symm hj
  · exact (forall_update_iff v.entry fun j e => ∀ p, e = .obj p → v.bit j = true).2
      ⟨fun _ _ => hbit, fun j _ => h.marked j⟩
  · intro u j hj
    have hji : j ≠ i := by
      rintro rfl
      exact hfree u hj
    obtain ⟨hb, hno⟩ := h.reserved u j hj
    refine ⟨hb, fun p => ?_⟩
    rw [create_entry_of_ne hji]
    exact hno p
  · exact fun p hp => h.unused p (Nat.le_of_succ_le hp)
  · exact (forall_update_iff v.pcbs fun p pcb => pcb.deleted = true → (v.place p).gone).2
      ⟨fun hp => (nomatch hd.symm.trans hp), fun p _ => h.deleted p⟩
  · intro u hu
    have hult := h.lt_next hu
    rw [create_pcbs_of_lt hult]
    exact h.id u hu
  · obtain ⟨h1, h2, h3⟩ := h.root
    rw [create_pcbs_of_lt h1]
    exact ⟨Nat.lt_succ_of_lt h1, h2, h3⟩
  · intro p hp' k hk
    rcases Nat.lt_succ_iff_lt_or_eq.1 hp' with hlt' | rfl
    · rw [create_pcbs_of_lt hlt'] at hk ⊢
      obtain ⟨hk1, hk2⟩ := h.parent p hlt' k hk
      rw [create_pcbs_of_lt hk1]
      exact ⟨Nat.lt_succ_of_lt hk1, hk2⟩
    · rw [create_pcbs_next] at hk ⊢
      cases hp.symm.trans hk
      rw [create_pcbs_of_lt hlt, hpid, if_neg hi0, h.id t ht]
      exact ⟨Nat.lt_succ_of_lt hlt, rfl⟩
  · exact (forall_update_iff v.exits fun p n => n ≠ 0 → (v.place p).released).2
      ⟨absurd rfl, fun p _ => h.exits p⟩
  · exact (forall_update_iff v.joins fun p n => n ≠ 0 → (v.place p).code.isSome).2
      ⟨absurd rfl, fun p _ => h.joins p⟩
  · intro p c hc
    have hpn : v.place p ≠ .unborn := by
      intro hub
      have : (v.place p).code = some c := hc
      rw [hub] at this
      cases this
    rw [create_pcbs_of_lt (h.lt_next hpn)]
    exact h.code p c hc
  · exact h.knows_of_le le_create

end create

def born (v : View) (p : Tid) (pid segments : Nat) : View :=
  { v with
    place := update v.place p (.loading segments)
    waiting := update v.waiting p none
    id := update v.id p pid }

theorem Inv.born (h : v.Inv) (hp : p < v.next) (hub : v.place p = .unborn)
    (hid : (v.pcbs p).pID = i) (hfree : ∀ u, (v.place u).unforked ≠ some p) (segments : Nat) :
    (v.born p i segments).Inv := by
  have hplace {P : Tid → Place → Prop} (h1 : P p (.loading segments))
      (h2 : ∀ u, u ≠ p → P u (v.place u)) : ∀ u, P u ((v.born p i segments).place u) :=
    (forall_update_iff v.place P).2 ⟨h1, h2⟩
  have hle : v.Le (v.born p i segments) := by
    refine ⟨Nat.le_refl _, fun _ _ => rfl, fun _ _ => rfl, fun _ _ => rfl, ?_, ?_⟩
    · refine hplace (P := fun u pl => (v.place u).released → pl.released) ?_ fun _ _ h => h
      rw [hub]
      exact nofun
    · refine hplace (P := fun u pl => (v.place u).code.isSome → pl.code.isSome) ?_ fun _ _ h => h
      rw [hub]
      exact nofun
  have hwait : ∀ u, u ≠ p → (v.born p i segments).waiting u = v.waiting u :=
    fun u hu => update_of_ne hu ..
  have hids : ∀ u, u ≠ p → (v.born p i segments).id u = v.id u := fun u hu => update_of_ne hu ..
  refine ⟨h.entry_iff, h.marked, ?_, ?_, ?_, ?_, ?_, ?_, h.root, ?_, h.parent, ?_, ?_, ?_, ?_, ?_⟩
  · exact hplace (P := fun _ pl => ∀ i, pl.reserves = some i → v.bit i = true ∧ ∀ p, v.entry i ≠ .obj p)
      nofun fun u _ => h.reserved u
  · refine hplace (P := fun t pl => ∀ u i, pl.reserves = some i →
      ((v.born p _ segments).place u).reserves = some i → t = u) nofun fun t _ => ?_
    exact hplace (P := fun u pl => ∀ i, (v.place t).reserves = some i → pl.reserves = some i → t = u)
      nofun fun u _ => h.reserver t u
  · refine hplace (P := fun u pl => v.next ≤ u → pl = .unborn) ?_ fun u _ => h.unused u
    exact fun hle => absurd hp (Nat.not_lt_of_le hle)
  · refine hplace (P := fun _ pl => ∀ q, pl.unforked = some q → (v.born p i segments).place q = .unborn)
      nofun fun u _ q hq => ?_
    have hqp : q ≠ p := by
      rintro rfl
      exact hfree u hq
    rw [show (v.born p i segments).place q = v.place q from update_of_ne hqp ..]
    exact h.unforked u q hq
  · refine hplace (P := fun u pl => (v.pcbs u).deleted = true → pl.gone) ?_ fun u _ => h.deleted u
    intro hd
    have := h.deleted p hd
    rw [hub] at this
    cases this
  · refine hplace (P := fun u pl => pl ≠ .unborn → (v.born p i segments).id u = (v.pcbs u).pID) ?_ ?_
    · intro _
      rw [hid]
      exact update_self ..
    · intro u hu hne
      rw [hids u hu]
      exact h.id u hne
  · refine hplace (P := fun u pl => pl.leaves → (v.born p i segments).id u ≠ 0) nofun fun u hu => ?_
    rw [hids u hu]
    exact h.leaves u
  · exact fun u hu => hle.released u (h.exits u hu)
  · exact fun u hu => hle.code u (h.joins u hu)
  · exact hplace (P := fun u pl => ∀ c, pl.code = some c → (v.pcbs u).exitcode = c) nofun
      fun u _ => h.code u
  · refine hplace (P := fun u pl => ∀ sem sem', (v.born p i segments).waiting u = some sem →
      pl.guarded = some sem' → sem = sem') (fun _ _ _ => nofun) fun u hu => ?_
    rw [hwait u hu]
    exact h.guarded u
  · refine hplace (P := fun u pl => (v.born p i segments).Knows u
      ((v.born p i segments).waiting u = none) pl) trivial fun u hu => ?_
    rw [hwait u hu]
    exact h.knows_of_le hle u

structure SamePCBs (v v' : View) : Prop where
  next : v'.next = v.next
  place : v'.place = v.place
  parent : ∀ p, (v'.pcbs p).parent = (v.pcbs p).parent
  pID : ∀ p, (v'.pcbs p).pID = (v.pcbs p).pID
  parentID : ∀ p, (v'.pcbs p).parentID = (v.pcbs p).parentID

theorem SamePCBs.le (h : v.SamePCBs v') : v.Le v' where
  next := Nat.le_of_eq h.next.symm
  parent p _ := h.parent p
  pID p _ := h.pID p
  parentID p _ := h.parentID p
  released p hp := by rwa [h.place]
  code p hp := by rwa [h.place]

theorem update_field {α : Type} (field : PCB → α) {pcbs : Tid → PCB} {pcb : PCB}
    (h : field pcb = field (pcbs t)) (p : Tid) :
    field (update pcbs t pcb p) = field (pcbs p) := by
  by_cases hp : p = t
  · rw [hp, update_self, h]
  · rw [update_of_ne hp]

def setCode (v : View) (t : Tid) (exitcode : Int) : View :=
  { v with pcbs := update v.pcbs t { v.pcbs t with exitcode } }

theorem samePCBs_setCode (c : Int) : v.SamePCBs (v.setCode t c) :=
  ⟨rfl, rfl, update_field PCB.parent rfl, update_field PCB.pID rfl, update_field PCB.parentID rfl⟩

theorem setCode_exitcode (c : Int) : ((v.setCode t c).pcbs t).exitcode = c := by
  rw [show (v.setCode t c).pcbs t = _ from update_self ..]

theorem setCode_deleted (c : Int) (p : Tid) :
    ((v.setCode t c).pcbs p).deleted = (v.pcbs p).deleted := update_field PCB.deleted (by rfl) p

theorem Inv.setCode (h : v.Inv) (hc : (v.place t).code = none) (c : Int) : (v.setCode t c).Inv := by
  have hs := samePCBs_setCode (v := v) (t := t) c
  refine ⟨?_, h.marked, h.reserved, h.reserver, h.unused, h.unforked, ?_, ?_, ?_, h.leaves, ?_, h.exits,
    h.joins, ?_, h.guarded, h.knows_of_le hs.le⟩
  · intro i p
    rw [setCode_deleted, hs.pID]
    exact h.entry_iff i p
  · intro p hp
    rw [setCode_deleted] at hp
    exact h.deleted p hp
  · intro u hu
    rw [hs.pID]
    exact h.id u hu
  · rw [hs.parent, hs.pID]
    exact h.root
  · intro p hp k hk
    rw [hs.parent] at hk
    rw [hs.parentID, hs.pID]
    exact h.parent p hp k hk
  · intro p c' hp
    have hpt : p ≠ t := by
      rintro rfl
      cases hc.symm.trans hp
    rw [show (v.setCode t c).pcbs p = v.pcbs p from update_of_ne hpt ..]
    exact h.code p c' hp

def delete (v : View) (t : Tid) (i : Nat) : View :=
  { v with
    entry := update v.entry i .null
    bit := fun j => decide (j ≠ i) && v.bit j
    pcbs := update v.pcbs t { v.pcbs t with deleted := true } }

theorem delete_pcbs_of_ne (h : p ≠ t) : (v.delete t i).pcbs p = v.pcbs p := update_of_ne h ..

theorem samePCBs_delete : v.SamePCBs (v.delete t i) :=
  ⟨rfl, rfl, update_field PCB.parent rfl, update_field PCB.pID rfl, update_field PCB.parentID rfl⟩

theorem delete_exitcode (p : Tid) : ((v.delete t i).pcbs p).exitcode = (v.pcbs p).exitcode :=
  update_field PCB.exitcode (by rfl) p

theorem Inv.delete (h : v.Inv) (hg : (v.place t).gone) (hi : v.entry i = .obj t) :
    (v.delete t i).Inv := by
  have hs := samePCBs_delete (v := v) (t := t) (i := i)
  have hentry : ∀ j, j ≠ i → (v.delete t i).entry j = v.entry j := fun j hj => update_of_ne hj ..
  have hbit : ∀ j, j ≠ i → v.bit j = true → (v.delete t i).bit j = true := by
    intro j hj hb
    show (decide (j ≠ i) && v.bit j) = true
    rw [hb, decide_eq_true hj]
    rfl
  have hnull : ∀ p, (v.delete t i).entry i ≠ .obj p := by
    intro p
    rw [show (v.delete t i).entry i = .null from update_self ..]
    exact nofun
  refine ⟨?_, ?_, ?_, h.reserver, h.unused, h.unforked, ?_, ?_, ?_, h.leaves, ?_, h.exits, h.joins, ?_,
    h.guarded, h.knows_of_le hs.le⟩
  · intro j p
    by_cases hp : p = t
    · subst hp
      have hd : ((v.delete p i).pcbs p).deleted = true := by
        rw [show (v.delete p i).pcbs p = _ from update_self ..]
      rw [hd]
      refine ⟨fun hj => ?_, fun hj => nomatch hj.2.1⟩
      by_cases hji : j = i
      · exact absurd (hji ▸ hj) (hnull p)
      · rw [hentry j hji] at hj
        -- one process has one slot
        exact absurd (((h.entry_iff j p).1 hj).2.2.symm.trans ((h.entry_iff i p).1 hi).2.2) hji
    · rw [delete_pcbs_of_ne hp]
      by_cases hji : j = i
      · subst hji
        refine ⟨fun hj => absurd hj (hnull p), fun hj => ?_⟩
        have := (h.entry_iff j p).2 hj
        rw [hi] at this
        cases this
        exact absurd rfl hp
      · rw [hentry j hji]
        exact h.entry_iff j p
  · intro j p hj
    have hji : j ≠ i := by
      rintro rfl
      exact hnull p hj
    rw [hentry j hji] at hj
    exact hbit j hji (h.marked j p hj)
  · intro u j hj
    obtain ⟨hb, hno⟩ := h.reserved u j hj
    have hji : j ≠ i := by
      rintro rfl
      exact hno t hi
    refine ⟨hbit j hji hb, fun p => ?_⟩
    rw [hentry j hji]
    exact hno p
  · exact (forall_update_iff v.pcbs fun p pcb => pcb.deleted = true → (v.place p).gone).2
      ⟨fun _ => hg, fun p _ => h.deleted p⟩
  · intro u hu
    rw [hs.pID]
    exact h.id u hu
  · rw [hs.parent, hs.pID]
    exact h.root
  · intro p hp k hk
    rw [hs.parent] at hk
    rw [hs.parentID, hs.pID]
    exact h.parent p hp k hk
  · intro p c hp
    rw [delete_exitcode]
    exact h.code p c hp

/-! ## Steps that only move a thread -/

def pass (v : View) (t : Tid) (joins exits : Tid → Nat) : View :=
  { v with waiting := update v.waiting t none, joins, exits }

theorem Knows.pass {b : Bool} (h : v.Knows t b pl)
    (hj : ∀ q, pl.guarded = some (.joinsem q) → (v.place q).code.isSome)
    (he : ∀ q, pl.guarded = some (.exitsem q) → (v.place q).released) : v.Knows t true pl := by
  cases pl with
  | unborn | user | loading | copying => trivial
  | exec _ _ pc => exact h
  | join pID child pc =>
    refine ⟨h.1, ?_⟩
    cases pc with
    | checking | checked => trivial
    | joined q => exact ⟨h.2.1, h.2.2.1, fun _ => hj q rfl⟩
  | exit _ pc =>
    cases pc with
    | accepted cur par => exact ⟨h.1, h.2.1, fun _ => he par rfl⟩
    | _ => exact h
  | finished => exact h

theorem Inv.pass (h : v.Inv) {sem : Sem} (hw : v.waiting t = some sem) {joins exits : Tid → Nat}
    (hj : ∀ q, joins q ≠ 0 → v.joins q ≠ 0) (he : ∀ q, exits q ≠ 0 → v.exits q ≠ 0)
    (hjoin : ∀ q, sem = .joinsem q → v.joins q ≠ 0) (hexit : ∀ q, sem = .exitsem q → v.exits q ≠ 0) :
    (v.pass t joins exits).Inv :=
  { h with
    exits := fun p hp => h.exits p (he p hp)
    joins := fun p hp => h.joins p (hj p hp)
    guarded := fun u sem sem' hu => by
      have hut : u ≠ t := by
        rintro rfl
        rw [show (v.pass u joins exits).waiting u = none from update_self ..] at hu
        cases hu
      rw [show (v.pass t joins exits).waiting u = v.waiting u from update_of_ne hut ..] at hu
      exact h.guarded u sem sem' hu
    knows := fun u => by
      by_cases hut : u = t
      · subst hut
        rw [show (v.pass u joins exits).waiting u = none from update_self ..]
        refine (h.knows u).pass (fun q hq => h.joins q (hjoin q ?_)) fun q hq => h.exits q (hexit q ?_)
        · exact h.guarded u _ _ hw hq
        · exact h.guarded u _ _ hw hq
      · rw [show (v.pass t joins exits).waiting u = v.waiting u from update_of_ne hut ..]
        exact h.knows u }

def Onward (pl pl' : Place) : Prop :=
  pl ≠ .unborn ∧ pl' ≠ .unborn ∧ (pl.released → pl'.released) ∧ pl'.code = pl.code ∧
    (pl.gone → pl'.gone) ∧ (pl'.reserves = none ∨ pl'.reserves = pl.reserves) ∧
    (pl'.unforked = none ∨ pl'.unforked = pl.unforked)

theorem Inv.moves (h : v.Inv) (ho : Onward (v.place t) pl)
    (hl : pl.leaves → v.id t ≠ 0) : v.Moves t pl := by
  obtain ⟨h1, h2, h3, h4, h5, h6, h7⟩ := ho
  refine ⟨h1, h2, h3, fun hc => h4 ▸ hc, h5, hl, fun c hc => h.code t c (h4 ▸ hc), fun i hi => ?_,
    fun p hp => ?_⟩
  · rcases h6 with h6 | h6
    · cases h6.symm.trans hi
    · rw [h6] at hi
      exact ⟨(h.reserved t i hi).1, (h.reserved t i hi).2,
        fun u hu hui => hu (h.reserver u t i hui hi)⟩
  · rcases h7 with h7 | h7
    · cases h7.symm.trans hp
    · exact h.unforked t p (h7 ▸ hp)

section

variable {filename filename' : Name} {argv argv' : List Name} {c : Int} {pc : ExecPc}

theorem onward_exec {pc' : ExecPc} (hr : pc'.reserves = none ∨ pc'.reserves = pc.reserves)
    (hf : pc'.unforked = none ∨ pc'.unforked = pc.unforked) :
    Onward (.exec filename argv pc) (.exec filename' argv' pc') :=
  ⟨nofun, nofun, nofun, rfl, nofun, hr, hf⟩

theorem moves_exec {pc' : ExecPc} (hpl : v.place t = .exec filename argv pc)
    (hr : ∀ i, pc'.reserves = some i → v.bit i = true ∧ (∀ p, v.entry i ≠ .obj p) ∧
      ∀ u, u ≠ t → (v.place u).reserves ≠ some i)
    (hf : ∀ p, pc'.unforked = some p → v.place p = .unborn) :
    v.Moves t (.exec filename' argv' pc') := by
  refine ⟨?_, nofun, ?_, ?_, ?_, nofun, nofun, hr, hf⟩ <;>
  · rw [hpl]
    exact nofun

theorem Inv.createAt (h : v.Inv) {pcb : PCB} {joins exits : Tid → Nat}
    (hpl : v.place t = .exec filename argv pc) (hr : pc.reserves = some i)
    (hd : pcb.deleted = false) (hi : pcb.pID = i) (hp : pcb.parent = some t)
    (hpid : pcb.parentID = if i = 0 then -1 else (v.id t : Int))
    (hj : ∀ q, joins q ≠ 0 → (v.create i pcb).joins q ≠ 0)
    (he : ∀ q, exits q ≠ 0 → (v.create i pcb).exits q ≠ 0) :
    ((v.create i pcb).goto t (.exec filename argv (.created v.next i)) none joins exits).Inv := by
  have hrt : (v.place t).reserves = some i := by
    rw [hpl]
    exact hr
  -- the thread gives up its reservation, and then makes the PCB
  generalize hv' : v.goto t (.exec filename argv .finding) none v.joins v.exits = v'
  have hplace : v'.place t = .exec filename argv .finding := by
    rw [← hv']
    exact goto_place_self
  have h0 : v'.Inv := by
    rw [← hv']
    exact h.goto (moves_exec hpl nofun nofun) (fun _ => .inl) (fun _ => .inl) nofun trivial
  have h1 : (v'.create i pcb).Inv := by
    refine h0.create (t := t) ?_ ?_ ?_ ?_ hd hi hp ?_
    · rw [hplace]
      exact nofun
    · rw [← hv']
      exact (h.reserved t i hrt).1
    · rw [← hv']
      exact (h.reserved t i hrt).2
    · rw [← hv']
      refine forall_goto (P := fun _ pl => pl.reserves ≠ some i) nofun fun u hu hui => ?_
      exact hu (h.reserver u t i hui hrt)
    · rw [← hv']
      exact hpid
  have hsame : (v.create i pcb).goto t (.exec filename argv (.created v.next i)) none joins exits =
      (v'.create i pcb).goto t (.exec filename argv (.created v.next i)) none joins exits := by
    rw [← hv']
    refine View.ext rfl rfl rfl rfl ?_ ?_ rfl rfl rfl <;> exact (update_idem ..).symm
  have hnext : v'.next = v.next := by rw [← hv']; rfl
  rw [hsame]
  refine h1.goto (moves_exec hplace nofun ?_) ?_ ?_ nofun ?_
  · rintro p ⟨⟩
    exact h0.unused v.next (Nat.le_of_eq hnext)
  · intro q hq
    left
    rw [← hv']
    exact hj q hq
  · intro q hq
    left
    rw [← hv']
    exact he q hq
  · rw [← hnext]
    refine ⟨Nat.lt_succ_self _, ?_, ?_⟩
    · rw [create_pcbs_next, hp]
    · rw [create_pcbs_next, hi]

theorem parent_of_unforked {pl : Place} {b : Bool} (h : v.Knows t b pl) (hp : pl.unforked = some p) :
    (v.pcbs p).parent = some t := by
  cases pl with
  | exec _ _ pc =>
    cases pc with
    | finding | found | creating | forked => cases hp
    | incNumWait | firstChild =>
      cases hp
      exact h.2.2.1
    | created | counted | opening | allocating | forking =>
      cases hp
      exact h.2.1
  | _ => cases hp

theorem Inv.bornAt (h : v.Inv) {segments : Nat}
    (hpl : v.place t = .exec filename argv pc) (hp : pc.unforked = some p) (hc : v.Child t p i) :
    ((v.born p i segments).goto t (.exec filename argv (.forked p i)) none v.joins v.exits).Inv := by
  have hunf : (v.place t).unforked = some p := by
    rw [hpl]
    exact hp
  have hub := h.unforked t p hunf
  have hpt : p ≠ t := by
    rintro rfl
    rw [hpl] at hub
    cases hub
  -- the thread says that it has forked, and then forks
  have h0 : (v.goto t (.exec filename argv (.forked p i)) none v.joins v.exits).Inv :=
    h.goto (moves_exec hpl nofun nofun) (fun _ => .inl) (fun _ => .inl) nofun hc
  have h1 := h0.born (p := p) (i := i) hc.1 (by rw [goto_place_of_ne hpt, hub]) hc.2.2
    (forall_goto (P := fun _ pl => pl.unforked ≠ some p) nofun fun u hu hup =>
      hu (Option.some.inj ((parent_of_unforked (h.knows u) hup).symm.trans hc.2.1))) segments
  have hsame : (v.born p i segments).goto t (.exec filename argv (.forked p i)) none v.joins v.exits =
      (v.goto t (.exec filename argv (.forked p i)) none v.joins v.exits).born p i segments := by
    refine View.ext rfl rfl rfl rfl ?_ ?_ rfl rfl rfl <;> exact update_comm hpt ..
  rw [hsame]
  exact h1

theorem onward_exit {pc pc' : ExitPc} (hr : pc.released → pc'.released)
    (hc : pc'.codeSet = pc.codeSet) (hg : pc ≠ .removed) : Onward (.exit c pc) (.exit c pc') := by
  refine ⟨nofun, nofun, hr, ?_, ?_, .inl rfl, .inl rfl⟩
  · show (if pc'.codeSet then some c else none) = if pc.codeSet then some c else none
    rw [hc]
  · cases pc with
    | removed => exact absurd rfl hg
    | _ => exact nofun

theorem exec_moves (h : v.Inv) (hpl : v.place t = .exec filename argv pc) (pc' : ExecPc)
    (hr : pc'.reserves = none ∨ pc'.reserves = pc.reserves)
    (hf : pc'.unforked = none ∨ pc'.unforked = pc.unforked) :
    v.Moves t (.exec filename argv pc') := by
  refine h.moves ?_ nofun
  rw [hpl]
  exact onward_exec hr hf

theorem user_moves (h : v.Inv) {pl : Place} (hpl : v.place t = pl) (hub : pl ≠ .unborn)
    (hc : pl.code = none) (hr : ¬ pl.released) : v.Moves t .user := by
  subst hpl
  refine h.moves ⟨hub, nofun, fun hr' => absurd hr' hr, hc.symm, fun hg => ?_, .inl rfl, .inl rfl⟩ nofun
  exact absurd (released_of_gone hg) hr

theorem join_moves (h : v.Inv) {pID : Int} {child : Entry} {pc : JoinPc}
    (hpl : v.place t = .join pID child pc) (pc' : JoinPc) : v.Moves t (.join pID child pc') := by
  refine h.moves ?_ nofun
  rw [hpl]
  exact ⟨nofun, nofun, nofun, rfl, nofun, .inl rfl, .inl rfl⟩

theorem exit_moves (h : v.Inv) {pc : ExitPc} (hpl : v.place t = .exit c pc) (pc' : ExitPc)
    (hr : pc.released → pc'.released) (hc : pc'.codeSet = pc.codeSet) (hg : pc ≠ .removed)
    (hl : pc'.leaves → v.id t ≠ 0) : v.Moves t (.exit c pc') := by
  refine h.moves ?_ hl
  rw [hpl]
  exact onward_exit hr hc hg

theorem Inv.deleteAt (h : v.Inv) {joins exits : Tid → Nat} (hpl : v.place t = .exit c .removing)
    (hi : v.entry i = .obj t) (hj : ∀ q, joins q ≠ 0 → v.joins q ≠ 0)
    (he : ∀ q, exits q ≠ 0 → v.exits q ≠ 0) :
    ((v.delete t i).goto t (.exit c .removed) none joins exits).Inv := by
  have hk := h.knows t
  rw [hpl] at hk
  have hl : v.id t ≠ 0 := h.leaves t (by rw [hpl]; rfl)
  have h0 : (v.goto t (.exit c .removed) none joins exits).Inv :=
    h.goto (exit_moves h hpl _ (fun _ => rfl) rfl nofun fun _ => hl) (fun q hq => .inl (hj q hq))
      (fun q hq => .inl (he q hq)) nofun hk
  exact h0.delete (by rw [goto_place_self]; rfl) hi

theorem not_gone_of_parent (h : v.Inv) (hp : (v.pcbs p).parent = some t)
    (ht : ¬ (v.place t).released) : ¬ (v.place p).gone := by
  intro hg
  refine ht ?_
  have hk := h.knows p
  revert hg hk
  cases v.place p with
  | exit c pc =>
    cases pc with
    | removed => exact fun _ hk => hk t hp
    | _ => exact fun hg => nomatch hg
  | finished => exact fun _ hk => hk t hp
  | _ => exact fun hg => nomatch hg

end

end View

end PTable

end Nachos
