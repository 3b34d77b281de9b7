import Nachos.Threads.Proof.Arguments
import Nachos.Threads.Proof.Waiting

/-!
# A process and the children it waits for

`numwait` of a PCB counts the children that are past `IncNumWait` and have not executed `DecNumWait`,
and `shouldExit` has its value while there are none. `Accounts` is what matters to this: the two
numbers, and where each process stands with its parent and its children (`Stand`). One fact supports
the other: a parent that still counts a child has not passed `PCB::Exit`, so the child finds it in the
table and decrements the right counter (`parent_of_entry`).

The constructor of a PCB does not initialise `numwait`, so all of it depends on what is in its memory
(`children_accounted_iff`).
-/

namespace Nachos

open Base Function
open Function (comp_update forall_update_iff update update_eq_self update_of_ne update_self)

namespace PTable

/-! ## Where a process stands -/

/-- The child that a thread in `ExecUpdate` has made and not counted yet. -/
def ExecPc.uncounted : ExecPc → Option Tid
  | .created p _ | .incNumWait _ p _ | .firstChild _ p _ => some p
  | _ => none

def ExecPc.first : ExecPc → Bool
  | .firstChild .. => true
  | _ => false

def ExitPc.debits : ExitPc → Option Tid
  | .decNumWait _ parent => some parent
  | _ => none

def ExitPc.settled : ExitPc → Bool
  | .lastChild .. | .counted .. | .accepted .. | .waited _ | .exited | .removing | .removed => true
  | _ => false

/-- Behind `PCB::Exit`; `waiting`: still in the `P` before the place. -/
def ExitPc.passed (waiting : Bool) : ExitPc → Bool
  | .exited => !waiting
  | .removing | .removed => true
  | _ => false

namespace Place

def uncounted : Place → Option Tid
  | .exec _ _ pc => pc.uncounted
  | _ => none

/-- The thread has executed the `numwait--` of its parent's `DecNumWait`. -/
def settled : Place → Bool
  | .exit _ pc => pc.settled
  | .finished _ => true
  | _ => false

def passed (waiting : Bool) : Place → Bool
  | .exit _ pc => pc.passed waiting
  | .finished _ => true
  | _ => false

def first : Place → Bool
  | .exec _ _ pc => pc.first
  | _ => false

def debits : Place → Option Tid
  | .exit _ pc => pc.debits
  | _ => none

end Place

@[ext]
structure Stand where
  uncounted : Option Tid
  first : Bool
  /-- behind the `shouldExit->P()` of `IncNumWait` -/
  took : Bool
  debits : Option Tid
  settled : Bool
  passed : Bool

def Stand.owing (uncounted : Option Tid) : Stand := ⟨uncounted, false, false, none, false, false⟩

def Place.stand (pl : Place) (waiting : Bool) : Stand where
  uncounted := pl.uncounted
  first := pl.first
  took := pl.first && !waiting
  debits := pl.debits
  settled := pl.settled
  passed := pl.passed waiting

def Thread.stand (thread : Thread) : Stand := thread.place.stand thread.waiting.isSome

/-! ## Accounts -/

@[ext]
structure Accounts where
  next : Tid
  parent : Tid → Option Tid
  parentID : Tid → Int
  numwait : Tid → Int
  /-- the values of `shouldExit` -/
  permits : Tid → Nat
  /-- `numwait` as the constructor finds it -/
  found : Tid → Int
  stand : Tid → Stand

def State.accounts (s : State) : Accounts where
  next := s.next
  parent p := (s.pcbs p).parent
  parentID p := (s.pcbs p).parentID
  numwait p := (s.pcbs p).numwait
  permits p := (s.sems (.shouldExit p)).value
  found p := (s.uninit p).2
  stand t := (s.threads t).stand

namespace Accounts

variable {x : Accounts} {t p q : Tid} {st : Stand}

def Counts (x : Accounts) (p q : Tid) : Prop :=
  x.parent q = some p ∧ (x.stand p).uncounted ≠ some q ∧ (x.stand q).settled = false

instance : DecidablePred (x.Counts p) := fun _ => inferInstanceAs (Decidable (_ ∧ _ ∧ _))

def children (x : Accounts) (p : Tid) : Finset Tid := (Finset.range x.next).filter (x.Counts p)

theorem mem_children : q ∈ x.children p ↔ q < x.next ∧ x.Counts p q := by
  rw [children, Finset.mem_filter, Finset.mem_range]

def due (x : Accounts) (p : Tid) : Nat :=
  if x.numwait p = 0 ∧ (x.stand p).took = false ∧ (x.stand p).passed = false then 1 else 0

structure Tallies (x : Accounts) (p : Tid) : Prop where
  numwait : x.numwait p = (x.children p).card
  permits : x.permits p = x.due p
  first : (x.stand p).first = true → x.numwait p = 0
  took : (x.stand p).took = true → x.numwait p = 0
  passed : (x.stand p).passed = true → x.numwait p = 0

structure Balanced (x : Accounts) : Prop where
  tallies : ∀ p < x.next, x.Tallies p
  debits : ∀ t k, (x.stand t).debits = some k → x.parent t = some k
  orphan : ∀ p < x.next, x.parent p = none → p = 0 ∧ x.parentID p = -1

theorem due_of_ne (h : x.numwait p ≠ 0) : x.due p = 0 := if_neg fun hc => h hc.1

theorem due_of_took (h : (x.stand p).took = true) : x.due p = 0 :=
  if_neg fun hc => Bool.noConfusion (h.symm.trans hc.2.1)

theorem due_of_passed (h : (x.stand p).passed = true) : x.due p = 0 :=
  if_neg fun hc => Bool.noConfusion (h.symm.trans hc.2.2)

theorem due_ne_zero (h : x.due p ≠ 0) :
    x.due p = 1 ∧ x.numwait p = 0 ∧ (x.stand p).took = false ∧ (x.stand p).passed = false := by
  unfold due at h ⊢
  split at h
  · rename_i hc
    exact ⟨if_pos hc, hc⟩
  · exact absurd rfl h

namespace Tallies

theorem nonneg (h : x.Tallies p) : 0 ≤ x.numwait p := by
  rw [h.numwait]
  exact Int.natCast_nonneg _

theorem pos (h : x.Tallies p) (hq : q ∈ x.children p) : 0 < x.numwait p := by
  rw [h.numwait]
  exact Int.natCast_pos.2 (Finset.card_pos.2 ⟨q, hq⟩)

theorem children_eq_empty (h : x.Tallies p) (h0 : x.numwait p = 0) : x.children p = ∅ := by
  rw [h.numwait] at h0
  exact Finset.card_eq_zero.1 (Int.natCast_eq_zero.1 h0)

theorem eq_false {b : Bool} (h : x.Tallies p) (hq : q ∈ x.children p)
    (hb : b = true → x.numwait p = 0) : b = false := by
  cases b with
  | false => rfl
  | true => exact absurd (hb rfl) (Int.ne_of_gt (h.pos hq))

theorem congr {x' : Accounts} (h : x.Tallies p) (hn : x'.numwait p = x.numwait p)
    (hv : x'.permits p = x.permits p) (hch : x'.children p = x.children p)
    (ht : (x'.stand p).took = (x.stand p).took) (hp : (x'.stand p).passed = (x.stand p).passed)
    (hf : (x'.stand p).first = true → x.numwait p = 0) : x'.Tallies p := by
  refine ⟨?_, ?_, hn ▸ hf, ?_, ?_⟩
  · rw [hn, hch]
    exact h.numwait
  · unfold due
    rw [hv, hn, ht, hp]
    exact h.permits
  · rw [hn, ht]
    exact h.took
  · rw [hn, hp]
    exact h.passed

end Tallies

/-! ### What a step does to the accounts -/

structure Touches (x x' : Accounts) (t : Tid) (st : Stand) (k : Tid) : Prop where
  next : x'.next = x.next
  parent : x'.parent = x.parent
  parentID : x'.parentID = x.parentID
  found : x'.found = x.found
  stand : x'.stand = update x.stand t st
  numwait : ∀ p, p ≠ k → x'.numwait p = x.numwait p
  permits : ∀ p, p ≠ k → x'.permits p = x.permits p

namespace Touches

variable {x' : Accounts} {k : Tid}

section

variable (hc : Touches x x' t st k)
include hc

theorem stand_self : x'.stand t = st := by
  rw [hc.stand, update_self]

theorem stand_of_ne (h : p ≠ t) : x'.stand p = x.stand p := by
  rw [hc.stand, update_of_ne h]

theorem field {α : Type} (part : Stand → α)
    (h : part st = part (x.stand t)) (p : Tid) : part (x'.stand p) = part (x.stand p) := by
  by_cases hp : p = t
  · rw [hp, hc.stand_self, h]
  · rw [hc.stand_of_ne hp]

theorem children_eq (h : ∀ q < x.next, x'.Counts p q ↔ x.Counts p q) :
    x'.children p = x.children p := by
  ext q
  rw [mem_children, mem_children, hc.next]
  exact and_congr_right (h q)

theorem children_same (hu : st.uncounted = (x.stand t).uncounted)
    (hs : st.settled = (x.stand t).settled) (p : Tid) : x'.children p = x.children p := by
  refine hc.children_eq fun q _ => ?_
  unfold Counts
  rw [hc.parent, hc.field Stand.uncounted hu, hc.field Stand.settled hs]

theorem tallies (h : x.Tallies p) (hp : p ≠ k) (hch : x'.children p = x.children p)
    (ht : p = t → st.took = (x.stand t).took ∧ st.passed = (x.stand t).passed ∧
      st.first = (x.stand t).first) : x'.Tallies p := by
  have hsame : (x'.stand p).took = (x.stand p).took ∧ (x'.stand p).passed = (x.stand p).passed ∧
      (x'.stand p).first = (x.stand p).first := by
    by_cases hpt : p = t
    · subst hpt
      rw [hc.stand_self]
      exact ht rfl
    · rw [hc.stand_of_ne hpt]
      exact ⟨rfl, rfl, rfl⟩
  obtain ⟨h1, h2, h3⟩ := hsame
  exact h.congr (hc.numwait p hp) (hc.permits p hp) hch h1 h2 (h3 ▸ h.first)

theorem balanced (h : x.Balanced) (hk : k < x.next → x'.Tallies k)
    (hch : ∀ p, p ≠ k → x'.children p = x.children p)
    (ht : t ≠ k → st.took = (x.stand t).took ∧ st.passed = (x.stand t).passed ∧
      st.first = (x.stand t).first)
    (hd : ∀ j, st.debits = some j → x.parent t = some j) : x'.Balanced := by
  refine ⟨fun p hp => ?_, fun u j hj => ?_, fun p hp => ?_⟩
  · rw [hc.next] at hp
    by_cases hpk : p = k
    · rw [hpk]
      exact hk (hpk ▸ hp)
    · exact hc.tallies (h.tallies p hp) hpk (hch p hpk) fun hpt => ht (hpt ▸ hpk)
  · rw [hc.parent]
    by_cases hut : u = t
    · subst hut
      rw [hc.stand_self] at hj
      exact hd j hj
    · rw [hc.stand_of_ne hut] at hj
      exact h.debits u j hj
  · rw [hc.next] at hp
    rw [hc.parent, hc.parentID]
    exact h.orphan p hp

end

theorem move (hc : Touches x x' t st t) (h : x.Balanced) (hn : x'.numwait t = x.numwait t)
    (hv : x'.permits t = x.permits t) (hu : st.uncounted = (x.stand t).uncounted)
    (hs : st.settled = (x.stand t).settled) (ht : st.took = (x.stand t).took)
    (hp : st.passed = (x.stand t).passed) (hf : st.first = true → x.numwait t = 0)
    (hd : ∀ j, st.debits = some j → x.parent t = some j) : x'.Balanced := by
  refine hc.balanced h (fun hlt => ?_) (fun p _ => hc.children_same hu hs p) (absurd rfl) hd
  refine (h.tallies t hlt).congr hn hv (hc.children_same hu hs t) ?_ ?_ ?_ <;> rw [hc.stand_self]
  · exact ht
  · exact hp
  · exact hf

theorem take (hc : Touches x x' t st t) (h : x.Balanced) (hlt : t < x.next)
    (hn : x'.numwait t = x.numwait t) (hv : x.permits t ≠ 0) (hv' : x'.permits t = x.permits t - 1)
    (hu : st.uncounted = (x.stand t).uncounted) (hs : st.settled = (x.stand t).settled)
    (htaken : st.took = true ∨ st.passed = true) (hd : st.debits = none) : x'.Balanced := by
  have h₀ := h.tallies t hlt
  rw [h₀.permits] at hv hv'
  obtain ⟨hone, h0, -⟩ := due_ne_zero hv
  refine hc.balanced h
    (fun _ => ⟨?_, ?_, fun _ => hn.trans h0, fun _ => hn.trans h0, fun _ => hn.trans h0⟩)
    (fun p _ => hc.children_same hu hs p) (absurd rfl) fun j hj => nomatch hd.symm.trans hj
  · rw [hn, hc.children_same hu hs]
    exact h₀.numwait
  · rw [hv', hone]
    rcases htaken with h1 | h1
    · exact (due_of_took (by rw [hc.stand_self, h1])).symm
    · exact (due_of_passed (by rw [hc.stand_self, h1])).symm

theorem count (hc : Touches x x' t st t) (h : x.Balanced) (hn : x'.numwait t = x.numwait t + 1)
    (hv : x'.permits t = x.permits t) (hq : q < x.next) (hpar : x.parent q = some t)
    (hun : (x.stand t).uncounted = some q) (hset : (x.stand q).settled = false)
    (hready : x.numwait t ≠ 0 ∨ (x.stand t).took = true) (hu : st.uncounted = none)
    (hs : st.settled = (x.stand t).settled) (hf : st.first = false) (ht : st.took = false)
    (hp : st.passed = false) (hd : st.debits = none) : x'.Balanced := by
  have hcounts : ∀ p r, x'.Counts p r ↔ x.Counts p r ∨ (p = t ∧ r = q) := by
    intro p r
    unfold Counts
    rw [hc.parent, hc.field Stand.settled hs]
    by_cases hpt : p = t
    · subst hpt
      rw [hc.stand_self, hu, hun]
      by_cases hr : r = q
      · subst hr
        simp [hpar, hset]
      · simp [hr, Ne.symm hr]
    · rw [hc.stand_of_ne hpt]
      simp [hpt]
  have hself : x'.children t = insert q (x.children t) := by
    ext r
    rw [mem_children, hcounts, Finset.mem_insert, mem_children, hc.next]
    constructor
    · rintro ⟨hr, hr' | ⟨-, rfl⟩⟩
      · exact .inr ⟨hr, hr'⟩
      · exact .inl rfl
    · rintro (rfl | ⟨hr, hr'⟩)
      · exact ⟨hq, .inr ⟨rfl, rfl⟩⟩
      · exact ⟨hr, .inl hr'⟩
  have hnot : q ∉ x.children t := fun hm => (mem_children.1 hm).2.2.1 hun
  refine hc.balanced h (fun hlt => ?_) (fun p hpt => ?_) (absurd rfl)
    fun j hj => nomatch hd.symm.trans hj
  · have h0 := h.tallies t hlt
    have hnonneg := h0.nonneg
    refine ⟨?_, ?_, fun h1 => ?_, fun h1 => ?_, fun h1 => ?_⟩
    · rw [hn, hself, Finset.card_insert_of_notMem hnot, h0.numwait, Nat.cast_add, Nat.cast_one]
    · -- the permit was taken when the first child was counted
      have hzero : x.due t = 0 := hready.elim due_of_ne due_of_took
      rw [hv, h0.permits, hzero, due_of_ne]
      omega
    · rw [hc.stand_self, hf] at h1
      cases h1
    · rw [hc.stand_self, ht] at h1
      cases h1
    · rw [hc.stand_self, hp] at h1
      cases h1
  · refine hc.children_eq fun r _ => ?_
    rw [hcounts]
    simp [hpt]

theorem settle (hc : Touches x x' t st k) (h : x.Balanced) (hlt : t < x.next) (hk : k < x.next)
    (hn : x'.numwait k = x.numwait k + -1)
    (hv : x'.permits k = if x.numwait k + -1 = 0 then x.permits k + 1 else x.permits k)
    (hdeb : (x.stand t).debits = some k) (hun : (x.stand k).uncounted ≠ some t)
    (hset : (x.stand t).settled = false) (hu : st.uncounted = (x.stand t).uncounted)
    (hs : st.settled = true) (ht : st.took = (x.stand t).took) (hp : st.passed = (x.stand t).passed)
    (hf : st.first = (x.stand t).first) (hd : st.debits = none) : x'.Balanced := by
  have hpar := h.debits t k hdeb
  have hmem : t ∈ x.children k := mem_children.2 ⟨hlt, hpar, hun, hset⟩
  have hcounts : ∀ p r, x'.Counts p r ↔ x.Counts p r ∧ r ≠ t := by
    intro p r
    unfold Counts
    rw [hc.parent, hc.field Stand.uncounted hu]
    by_cases hr : r = t
    · subst hr
      rw [hc.stand_self, hs]
      simp
    · rw [hc.stand_of_ne hr]
      simp [hr]
  have hself : x'.children k = (x.children k).erase t := by
    ext r
    rw [mem_children, hcounts, Finset.mem_erase, mem_children, hc.next]
    tauto
  have h0 := h.tallies k hk
  have hpos := h0.pos hmem
  have htook : (x'.stand k).took = false :=
    (hc.field Stand.took ht k).trans (h0.eq_false hmem h0.took)
  have hpassed : (x'.stand k).passed = false :=
    (hc.field Stand.passed hp k).trans (h0.eq_false hmem h0.passed)
  have hfirst : (x'.stand k).first = false :=
    (hc.field Stand.first hf k).trans (h0.eq_false hmem h0.first)
  refine hc.balanced h (fun _ => ⟨?_, ?_, fun h1 => ?_, fun h1 => ?_, fun h1 => ?_⟩) (fun p hpk => ?_)
    (fun _ => ⟨ht, hp, hf⟩) fun j hj => nomatch hd.symm.trans hj
  · have hcard := Finset.card_pos.2 ⟨t, hmem⟩
    rw [hn, hself, Finset.card_erase_of_mem hmem, h0.numwait]
    omega
  · have hzero : x.permits k = 0 := h0.permits.trans (due_of_ne (Int.ne_of_gt hpos))
    rw [hv, hzero, due, htook, hpassed, hn]
    simp
  · cases hfirst.symm.trans h1
  · cases htook.symm.trans h1
  · cases hpassed.symm.trans h1
  · refine hc.children_eq fun r _ => ?_
    rw [hcounts]
    refine and_iff_left_of_imp ?_
    rintro ⟨hr, -⟩ rfl
    exact hpk (Option.some.inj (hr.symm.trans hpar))

end Touches

def setStand (x : Accounts) (t : Tid) (st : Stand) : Accounts :=
  { x with stand := update x.stand t st }

theorem setStand_self (h : st = x.stand t) : x.setStand t st = x := by
  unfold setStand
  rw [h, update_eq_self]

def setPermits (x : Accounts) (p : Tid) (n : Nat) : Accounts :=
  { x with permits := update x.permits p n }

def addNumwait (x : Accounts) (p : Tid) (k : Int) : Accounts :=
  { x with numwait := update x.numwait p (x.numwait p + k) }

theorem touches_setStand {k : Tid} : Touches x (x.setStand t st) t st k :=
  ⟨rfl, rfl, rfl, rfl, rfl, fun _ _ => rfl, fun _ _ => rfl⟩

structure Creates (x x' : Accounts) (t : Tid) : Prop where
  next : x'.next = x.next + 1
  parent : x'.parent = update x.parent x.next (some t)
  parentID : ∀ p < x.next, x'.parentID p = x.parentID p
  numwait : x'.numwait = update x.numwait x.next (x.found x.next)
  permits : x'.permits = update x.permits x.next 1
  found : x'.found = x.found
  stand : x'.stand = update x.stand t (.owing (some x.next))
  creator : t < x.next
  older : ∀ q < x.next, x.parent q ≠ some x.next
  newborn : x.stand x.next = .owing none
  was : x.stand t = .owing none

namespace Creates

variable {x' : Accounts}

theorem stand_next (hc : Creates x x' t) : x'.stand x.next = .owing none := by
  rw [hc.stand, update_of_ne (Nat.ne_of_gt hc.creator), hc.newborn]

theorem part {α : Type} (hc : Creates x x' t) (part : Stand → α)
    (h : part (.owing (some x.next)) = part (.owing none)) (p : Tid) :
    part (x'.stand p) = part (x.stand p) := by
  rw [hc.stand]
  by_cases hp : p = t
  · rw [hp, update_self, hc.was, h]
  · rw [update_of_ne hp]

theorem children_next (hc : Creates x x' t) : x'.children x.next = ∅ := by
  refine Finset.eq_empty_of_forall_notMem fun q hq => ?_
  obtain ⟨hlt, hpar, -⟩ := mem_children.1 hq
  rw [hc.next] at hlt
  rw [hc.parent] at hpar
  by_cases hqn : q = x.next
  · rw [hqn, update_self] at hpar
    exact Nat.ne_of_lt hc.creator (Option.some.inj hpar)
  · rw [update_of_ne hqn] at hpar
    exact hc.older q (Nat.lt_of_le_of_ne (Nat.le_of_lt_succ hlt) hqn) hpar

theorem children_of_lt (hc : Creates x x' t) (hp : p < x.next) : x'.children p = x.children p := by
  ext q
  rw [mem_children, mem_children, hc.next]
  unfold Counts
  rw [hc.parent, hc.part Stand.settled rfl]
  by_cases hqn : q = x.next
  · subst hqn
    refine ⟨fun h => ?_, fun h => absurd h.1 (Nat.lt_irrefl _)⟩
    obtain ⟨-, hpar, hun, -⟩ := h
    rw [update_self] at hpar
    cases hpar
    rw [hc.stand, update_self] at hun
    exact absurd rfl hun
  · rw [update_of_ne hqn]
    have hun : (x'.stand p).uncounted ≠ some q ↔ (x.stand p).uncounted ≠ some q := by
      rw [hc.stand]
      by_cases hpt : p = t
      · rw [hpt, update_self, hc.was]
        simp [Ne.symm hqn, Stand.owing]
      · rw [update_of_ne hpt]
    have hlt : q < x.next + 1 ↔ q < x.next :=
      ⟨fun h => Nat.lt_of_le_of_ne (Nat.le_of_lt_succ h) hqn, Nat.lt_succ_of_lt⟩
    rw [hun, hlt]

theorem balanced (hc : Creates x x' t) (h : x.Balanced) (h0 : x.found x.next = 0) :
    x'.Balanced := by
  have hself : x'.numwait x.next = 0 := by rw [hc.numwait, update_self, h0]
  refine ⟨fun p hp => ?_, fun u k hk => ?_, fun p hp hpar => ?_⟩
  · rw [hc.next] at hp
    by_cases hpn : p = x.next
    · subst hpn
      refine ⟨?_, ?_, fun _ => hself, fun _ => hself, fun _ => hself⟩
      · rw [hself, hc.children_next]
        rfl
      · rw [hc.permits, update_self, due, hself, hc.stand_next]
        rfl
    · have hlt := Nat.lt_of_le_of_ne (Nat.le_of_lt_succ hp) hpn
      have hn : x'.numwait p = x.numwait p := by rw [hc.numwait, update_of_ne hpn]
      have hv : x'.permits p = x.permits p := by rw [hc.permits, update_of_ne hpn]
      refine (h.tallies p hlt).congr hn hv (hc.children_of_lt hlt) (hc.part Stand.took rfl p)
        (hc.part Stand.passed rfl p) ?_
      rw [hc.part Stand.first rfl]
      exact (h.tallies p hlt).first
  · rw [hc.part Stand.debits rfl] at hk
    have hun : u ≠ x.next := by
      rintro rfl
      rw [hc.newborn] at hk
      cases hk
    rw [hc.parent, update_of_ne hun]
    exact h.debits u k hk
  · rw [hc.next] at hp
    rw [hc.parent] at hpar
    by_cases hpn : p = x.next
    · rw [hpn, update_self] at hpar
      cases hpar
    · rw [update_of_ne hpn] at hpar
      have hlt := Nat.lt_of_le_of_ne (Nat.le_of_lt_succ hp) hpn
      rw [hc.parentID p hlt]
      exact h.orphan p hlt hpar

end Creates

structure Kept (x x' : Accounts) : Prop where
  next : x'.next = x.next
  found : x'.found = x.found
  balanced : x'.Balanced

theorem Kept.refl (h : x.Balanced) : x.Kept x := ⟨rfl, rfl, h⟩

theorem Kept.trans {x' x'' : Accounts} (h : x.Kept x') (h' : x'.Kept x'') : x.Kept x'' :=
  ⟨h'.next.trans h.next, h'.found.trans h.found, h'.balanced⟩

inductive Onto (x x' : Accounts) : Prop
  | kept : x.Kept x' → Onto x x'
  | made {t : Tid} : Creates x x' t → Onto x x'

theorem Touches.kept {x' : Accounts} {k : Tid} (hc : Touches x x' t st k) (h : x'.Balanced) :
    x.Kept x' := ⟨hc.next, hc.found, h⟩

end Accounts

/-! ## The accounts of a state -/

variable {t p q : Tid} {pl : Place} {s s' : State} {env : Env} {filename : Name}

theorem Place.stand_of_entered {sem : Sem} (h : pl.entered t = some sem)
    (hsem : ∀ q, sem ≠ .shouldExit q) : pl.stand false = pl.stand true := by
  cases pl with
  | exec filename argv pc =>
    cases pc with
    | firstChild q p i => exact absurd (Option.some.inj h).symm (hsem q)
    | _ => rfl
  | exit c pc =>
    cases pc with
    | exited => exact absurd (Option.some.inj h).symm (hsem t)
    | _ => rfl
  | _ => rfl

theorem Place.unforked_of_uncounted {q : Tid} (h : pl.uncounted = some q) :
    pl.unforked = some q := by
  cases pl with
  | exec filename argv pc =>
    cases pc with
    | created | incNumWait | firstChild => exact h
    | _ => cases h
  | _ => cases h

theorem Place.passed_of_gone {waiting : Bool} (h : pl.gone = true) : pl.passed waiting = true := by
  cases pl with
  | exit c pc =>
    cases pc with
    | removed => rfl
    | _ => cases h
  | finished => rfl
  | _ => cases h

theorem Place.taken_of_entered {q : Tid} (h : pl.entered t = some (.shouldExit q)) :
    ((pl.stand false).took = true ∨ (pl.stand false).passed = true) ∧
      (pl.stand false).debits = none := by
  cases pl with
  | exec filename argv pc =>
    cases pc with
    | firstChild => exact ⟨.inl rfl, rfl⟩
    | _ => cases h
  | exit c pc =>
    cases pc with
    | exited => exact ⟨.inr rfl, rfl⟩
    | _ => cases h
  | join pID child pc => cases pc <;> cases h
  | _ => cases h

namespace State

variable {s s' : State} {t p : Tid} {sem : Sem} {pl : Place}

open Accounts

theorem accounts_setThread (f : Thread → Thread) :
    (s.setThread t f).accounts = s.accounts.setStand t (f (s.threads t)).stand :=
  Accounts.ext rfl rfl rfl rfl rfl rfl (comp_update Thread.stand s.threads t _)

theorem accounts_goto : (s.goto t pl).accounts = s.accounts.setStand t (pl.stand false) :=
  accounts_setThread _

theorem accounts_enter : (s.enter t sem pl).accounts = s.accounts.setStand t (pl.stand true) :=
  accounts_setThread _

theorem accounts_writeResult (r : Int) : (s.writeResult t r).accounts = s.accounts := by
  rw [writeResult, accounts_setThread]
  exact setStand_self rfl

theorem accounts_setSem (x : Semaphore Nat)
    (h : ∀ p, sem = .shouldExit p → x.value = (s.sems sem).value) :
    (s.setSem sem x).accounts = s.accounts := by
  refine Accounts.ext rfl rfl rfl rfl (funext fun p => ?_) rfl rfl
  show (update s.sems sem x (.shouldExit p)).value = (s.sems (.shouldExit p)).value
  by_cases hp : .shouldExit p = sem
  · subst hp
    rw [update_self, h p rfl]
  · rw [update_of_ne hp]

theorem accounts_setSem_shouldExit (x : Semaphore Nat) :
    (s.setSem (.shouldExit p) x).accounts = s.accounts.setPermits p x.value := by
  refine Accounts.ext rfl rfl rfl rfl (funext fun q => ?_) rfl rfl
  show (update s.sems (.shouldExit p) x (.shouldExit q)).value =
    update s.accounts.permits p x.value q
  by_cases hq : q = p
  · subst hq
    rw [update_self, update_self]
  · rw [update_of_ne hq, update_of_ne fun h => hq (Sem.shouldExit.inj h)]
    rfl

theorem accounts_v (hsem : ∀ p, sem ≠ .shouldExit p) :
    (s.v t sem pl).accounts = s.accounts.setStand t (pl.stand false) := by
  rw [v, accounts_goto, accounts_setSem _ fun p hp => absurd hp (hsem p)]
  rfl

theorem accounts_v_shouldExit : (s.v t (.shouldExit p) pl).accounts =
    (s.accounts.setPermits p (s.accounts.permits p + 1)).setStand t (pl.stand false) := by
  rw [v, accounts_goto, accounts_setSem_shouldExit]
  rfl

theorem accounts_addNumwait (k : Int) :
    (s.addNumwait p k).accounts = s.accounts.addNumwait p k := by
  refine Accounts.ext rfl (funext (View.update_field PCB.parent rfl))
    (funext (View.update_field PCB.parentID rfl)) ?_ rfl rfl rfl
  exact comp_update PCB.numwait s.pcbs p _

theorem round_kept (h : s.accounts.Balanced) (hlt : t < s.next)
    (hw : (s.threads t).waiting = some sem) (hsem : (s.threads t).place.entered t = some sem)
    (hown : ∀ q, sem = .shouldExit q → q = t) : s.accounts.Kept (s.round t sem).accounts := by
  have hst : s.accounts.stand t = (s.threads t).place.stand true := by
    show (s.threads t).stand = _
    rw [Thread.stand, hw]
    rfl
  unfold round Semaphore.p
  by_cases hv : (s.sems sem).value = 0
  · rw [if_pos hv]
    dsimp only
    have hsame : ((s.use sem.owner).setSem sem
        ((s.sems sem).append t)).accounts = s.accounts :=
      accounts_setSem _ fun _ _ => rfl
    rw [hsame]
    exact .refl h
  · rw [if_neg hv]
    dsimp only
    rw [accounts_setThread]
    by_cases hs : ∃ q, sem = .shouldExit q
    · obtain ⟨q, rfl⟩ := hs
      obtain rfl := hown q rfl
      obtain ⟨htaken, hd⟩ := Place.taken_of_entered hsem
      rw [accounts_setSem_shouldExit]
      have hc : Touches s.accounts ((s.accounts.setPermits q (s.accounts.permits q - 1)).setStand q
          ((s.threads q).place.stand false)) q ((s.threads q).place.stand false) q :=
        ⟨rfl, rfl, rfl, rfl, rfl, fun _ _ => rfl, fun p hp => update_of_ne hp ..⟩
      refine hc.kept (hc.take h hlt rfl hv (update_self ..) ?_ ?_ htaken hd)
      · rw [hst]
        rfl
      · rw [hst]
        rfl
    · have hno : ∀ q, sem ≠ .shouldExit q := fun q hq => hs ⟨q, hq⟩
      rw [accounts_setSem _ fun p hp => absurd hp (hno p), setStand_self]
      · exact .refl h
      · exact (Place.stand_of_entered hsem hno).trans hst.symm

theorem stand_of_unborn (hpl : (s.threads t).place = .unborn) : (s.threads t).stand = .owing none := by
  rw [Thread.stand, hpl]
  rfl

theorem stand_eq (hpl : (s.threads t).place = pl) (hw : (s.threads t).waiting = none) :
    (s.threads t).stand = pl.stand false := by
  rw [Thread.stand, hpl, hw]
  rfl

theorem p_kept (he : s.accounts.Kept (s.enter t sem pl).accounts) (hlt : t < s.next)
    (hsem : pl.entered t = some sem) (hown : ∀ q, sem = .shouldExit q → q = t) :
    s.accounts.Kept (s.p t sem pl).accounts := by
  have hthread : (s.enter t sem pl).threads t = { s.threads t with place := pl, waiting := some sem } :=
    update_self ..
  refine he.trans (round_kept he.balanced hlt ?_ ?_ hown)
  · rw [hthread]
  · rw [hthread]
    exact hsem

section

variable (h : s.accounts.Balanced)

include h

theorem goto_kept (hst : pl.stand false = (s.threads t).stand) :
    s.accounts.Kept (s.goto t pl).accounts := by
  rw [accounts_goto, setStand_self hst]
  exact .refl h

theorem v_kept (hst : pl.stand false = (s.threads t).stand) (hsem : ∀ p, sem ≠ .shouldExit p) :
    s.accounts.Kept (s.v t sem pl).accounts := by
  rw [accounts_v hsem, setStand_self hst]
  exact .refl h

theorem enter_kept (hst : pl.stand true = (s.threads t).stand) :
    s.accounts.Kept (s.enter t sem pl).accounts := by
  rw [accounts_enter, setStand_self hst]
  exact .refl h

end

theorem countChild_kept {filename : Name} {argv : List Name} {pc : ExecPc} {q : Tid} {i : Nat}
    (h : s.accounts.Balanced) (hi : s.view.Inv) (hc : s.view.Child t q i)
    (hpl : (s.threads t).place = .exec filename argv pc) (hw : (s.threads t).waiting = none)
    (hun : pc.uncounted = some q) (hunf : pc.unforked = some q)
    (hready : s.accounts.numwait t ≠ 0 ∨ pc.first = true) :
    s.accounts.Kept
      ((s.addNumwait t 1).v t (.multex t) (.exec filename argv (.counted q i))).accounts := by
  have hub : (s.threads q).place = .unborn := by
    refine hi.unforked t q ?_
    rw [show s.view.place t = _ from hpl]
    exact hunf
  have hsem : ∀ p, Sem.multex t ≠ .shouldExit p := nofun
  have htouch : Touches s.accounts
      ((s.accounts.addNumwait t 1).setStand t (Place.stand (.exec filename argv (.counted q i)) false)) t
      (Place.stand (.exec filename argv (.counted q i)) false) t :=
    ⟨rfl, rfl, rfl, rfl, rfl, fun p hp => update_of_ne hp .., fun _ _ => rfl⟩
  have hstand : s.accounts.stand t = _ := stand_eq hpl hw
  rw [accounts_v hsem, accounts_addNumwait]
  refine htouch.kept (htouch.count h (update_self ..) rfl hc.1 hc.2.1 ?_ ?_ ?_ rfl ?_ rfl rfl
    rfl rfl)
  · rw [hstand]
    exact hun
  · show (s.threads q).place.settled = false
    rw [hub]
    rfl
  · refine hready.imp_right fun hf => ?_
    rw [hstand]
    show (pc.first && true) = true
    rw [hf]
    rfl
  · rw [hstand]
    rfl

theorem creates_newPCB {filename : Name} {argv : List Name} {i : Nat} (hi : s.view.Inv)
    (hub : (s.threads t).place ≠ .unborn) (hst : (s.threads t).stand = .owing none) :
    Creates s.accounts
      ((s.newPCB t i argv).v t .bmsem (.exec filename argv (.created s.next i))).accounts t := by
  have hlt : t < s.next := hi.lt_next hub
  have hsem : ∀ p, Sem.bmsem ≠ .shouldExit p := nofun
  rw [accounts_v hsem]
  refine ⟨rfl, ?_, fun p hp => ?_, ?_, ?_, rfl, rfl, hlt, fun q hq hpar => ?_, ?_, hst⟩
  · exact comp_update PCB.parent s.pcbs s.next _
  · exact congrArg PCB.parentID (update_of_ne (Nat.ne_of_lt hp) ..)
  · exact comp_update PCB.numwait s.pcbs s.next _
  · refine funext fun p => ?_
    show (if (Sem.shouldExit p).owner = some s.next then (Sem.shouldExit p).initial
      else s.sems (.shouldExit p)).value = update s.accounts.permits s.next 1 p
    by_cases hp : p = s.next
    · subst hp
      have howner : (Sem.shouldExit s.next).owner = some s.next := rfl
      rw [update_self, if_pos howner]
      rfl
    · have howner : (Sem.shouldExit p).owner ≠ some s.next := fun h => hp (Option.some.inj h)
      rw [update_of_ne hp, if_neg howner]
      rfl
  · exact Nat.lt_irrefl _ (hi.parent q hq s.next hpar).1
  · exact stand_of_unborn (hi.unused s.next (Nat.le_refl _))

/-! ## Leaving -/

theorem parent_of_entry {par : Tid} (h : s.accounts.Balanced) (hi : s.view.Inv) (hlt : t < s.next)
    (hset : (s.threads t).place.settled = false) (hub : (s.threads t).place ≠ .unborn)
    (hne : (s.pcbs t).parentID ≠ -1) (he : s.pcb (s.pcbs t).parentID.toNat = .obj par) :
    (s.pcbs t).parent = some par := by
  cases hpar : (s.pcbs t).parent with
  | none => exact absurd (h.orphan t hlt hpar).2 hne
  | some k =>
    obtain ⟨hk, hid⟩ := hi.parent t hlt k hpar
    have hmem : t ∈ s.accounts.children k := by
      refine mem_children.2 ⟨hlt, hpar, fun hun => hub ?_, hset⟩
      exact hi.unforked k t (Place.unforked_of_uncounted hun)
    have hnp : (s.accounts.stand k).passed = false :=
      (h.tallies k hk).eq_false hmem (h.tallies k hk).passed
    have hng : ¬ (s.view.place k).gone := fun hg =>
      Bool.noConfusion (hnp.symm.trans (Place.passed_of_gone hg))
    have hentry := hi.entry_of_not_gone hk hng
    rw [show (s.pcbs t).parentID = (s.pcbs k).pID from hid, Int.toNat_natCast] at he
    cases hentry.symm.trans he
    rfl

theorem accounts_setPCB {f : PCB → PCB} (h1 : (f (s.pcbs p)).parent = (s.pcbs p).parent)
    (h2 : (f (s.pcbs p)).parentID = (s.pcbs p).parentID)
    (h3 : (f (s.pcbs p)).numwait = (s.pcbs p).numwait) : (s.setPCB p f).accounts = s.accounts :=
  Accounts.ext rfl (funext (View.update_field PCB.parent h1)) (funext (View.update_field PCB.parentID h2))
    (funext (View.update_field PCB.numwait h3)) rfl rfl rfl

section

variable (h : s.accounts.Balanced) (hi : s.view.Inv)
include h hi

theorem id_of_root (hub : (s.threads t).place ≠ .unborn)
    (hid : (s.pcbs t).parentID = -1) : (s.threads t).id = 0 := by
  have hlt : t < s.next := hi.lt_next hub
  have hnone : (s.pcbs t).parent = none := by
    cases hpar : (s.pcbs t).parent with
    | none => rfl
    | some k =>
      have hk : (s.pcbs t).parentID = (s.pcbs k).pID := (hi.parent t hlt k hpar).2
      omega
  obtain ⟨rfl, -⟩ := h.orphan t hlt hnone
  exact (hi.id 0 hub).trans hi.root.2.2

theorem settle_kept {c : Int} {cur par : Tid} {pc : ExitPc}
    (hpl : (s.threads t).place = .exit c (.decNumWait cur par))
    (hw : (s.threads t).waiting = none) (hs : s.Settling cur par sem pc) :
    s.accounts.Kept ((s.addNumwait par (-1)).v t sem (.exit c pc)).accounts := by
  have hst : s.accounts.stand t = _ := stand_eq hpl hw
  have hub : (s.threads t).place ≠ .unborn := by
    rw [hpl]
    exact nofun
  have hlt : t < s.next := hi.lt_next hub
  have hdeb : (s.accounts.stand t).debits = some par := by
    rw [hst]
    rfl
  have hpar := h.debits t par hdeb
  have hk : par < s.next := (hi.parent t hlt par hpar).1
  have hun : (s.accounts.stand par).uncounted ≠ some t := fun hun =>
    hub (hi.unforked par t (Place.unforked_of_uncounted hun))
  have key : ∀ (pl : Place) (n : Nat), pl.stand false = ⟨none, false, false, none, true, false⟩ →
      n = (if s.accounts.numwait par + -1 = 0 then s.accounts.permits par + 1
        else s.accounts.permits par) →
      s.accounts.Kept
        (((s.accounts.addNumwait par (-1)).setPermits par n).setStand t (pl.stand false)) := by
    intro pl n hpl hn
    have hc : Touches s.accounts
        (((s.accounts.addNumwait par (-1)).setPermits par n).setStand t (pl.stand false)) t
        (pl.stand false) par :=
      ⟨rfl, rfl, rfl, rfl, rfl, fun p hp => update_of_ne hp ..,
        fun p hp => update_of_ne hp ..⟩
    rw [hpl] at hc ⊢
    refine hc.kept (hc.settle h hlt hk (update_self ..) ((update_self ..).trans hn)
      hdeb hun ?_ ?_ rfl ?_ ?_ ?_ rfl) <;>
    · rw [hst]
      rfl
  cases hs with
  | last h0 =>
    rw [accounts_v_shouldExit, accounts_addNumwait]
    exact key _ _ rfl (if_pos h0).symm
  | more h0 =>
    have hsem : ∀ p, Sem.multex par ≠ .shouldExit p := nofun
    rw [accounts_v hsem, accounts_addNumwait]
    have hself : (s.accounts.addNumwait par (-1)).setPermits par (s.accounts.permits par) =
        s.accounts.addNumwait par (-1) := by
      unfold setPermits
      exact Accounts.ext rfl rfl rfl rfl (update_eq_self ..) rfl rfl
    rw [← hself]
    exact key _ _ rfl (if_neg h0).symm

/-! ## Steps -/

theorem enters_kept {pl' : Place}
    (hpl : (s.threads t).place = pl) (hw : (s.threads t).waiting = none)
    (he : s.Enters t pl sem pl') : s.accounts.Kept (s.p t sem pl').accounts := by
  have hst : s.accounts.stand t = _ := stand_eq hpl hw
  have hub : (s.threads t).place ≠ .unborn := by
    rw [hpl]
    cases he <;> exact nofun
  have hlt : t < s.next := hi.lt_next hub
  have hk : s.view.Knows t _ (s.threads t).place := hi.knows t
  rw [hpl] at hk
  have hsem := enters_entered hi hpl he
  have hc : Touches s.accounts (s.accounts.setStand t (pl'.stand true)) t _ t := touches_setStand
  refine p_kept ?_ hlt hsem ?_
  · cases he with
    | incNumWait h0 =>
      obtain ⟨rfl, -⟩ := hk
      rw [accounts_enter]
      refine hc.kept (hc.move h rfl rfl ?_ ?_ ?_ ?_ (fun _ => h0) nofun) <;>
      · rw [hst]
        rfl
    | @lockParent _ _ cur _ hne hpar =>
      obtain ⟨rfl, rfl⟩ := hk
      have hset : (s.threads cur).place.settled = false := by
        rw [hpl]
        rfl
      rw [accounts_enter]
      refine hc.kept (hc.move h rfl rfl ?_ ?_ ?_ ?_ nofun ?_)
      · rw [hst]
        rfl
      · rw [hst]
        rfl
      · rw [hst]
        rfl
      · rw [hst]
        rfl
      · rintro _ ⟨⟩
        exact parent_of_entry h hi hlt hset hub hne hpar
    | leaveMain hid => exact absurd (id_of_root h hi hub hk.2.symm) hid
    | _ => exact enter_kept h hst.symm
  · rintro q rfl
    cases he with
    | incNumWait | leaveMain | leave => exact hk.1

theorem does_accounts (hpl : (s.threads t).place = pl)
    (hw : (s.threads t).waiting = none) (hd : s.Does t pl s') : s.accounts.Onto s'.accounts := by
  have hst := stand_eq hpl hw
  have hk : s.view.Knows t _ (s.threads t).place := hi.knows t
  rw [hpl] at hk
  cases hd with
  | stop => exact .kept (.refl h)
  | p he => exact .kept (enters_kept h hi hpl hw he)
  | v hr => cases hr <;> exact .kept (v_kept h hst.symm nofun)
  | loaded | removed => exact .kept (goto_kept h hst.symm)
  | @find _ _ _ bm => exact .kept (v_kept (s := { s with bm }) h hst.symm nofun)
  | refuse | forked =>
    rw [accounts_writeResult]
    exact .kept (v_kept h hst.symm nofun)
  | create => exact .made (creates_newPCB hi (fun hub => nomatch hpl.symm.trans hub) hst)
  | count hc =>
    cases hc with
    | more h0 =>
      obtain ⟨rfl, hchild⟩ := hk
      exact .kept (countChild_kept h hi hchild hpl hw rfl rfl (.inl h0))
    | first =>
      obtain ⟨rfl, hchild⟩ := hk
      exact .kept (countChild_kept h hi hchild hpl hw rfl rfl (.inr rfl))
  | @allocate _ _ _ _ _ _ _ gPhysPageBitMap =>
    exact .kept (v_kept (s := { s with gPhysPageBitMap }) h hst.symm nofun)
  | @fork _ _ p i space noffH =>
    have hborn : (s.threads p).place = .unborn := hi.unforked t p (congrArg Place.unforked hpl)
    have hfork : (s.fork p i space noffH).accounts = s.accounts := by
      rw [fork, accounts_setThread]
      exact setStand_self (stand_of_unborn hborn).symm
    rw [accounts_goto, hfork, setStand_self hst.symm]
    exact .kept (.refl h)
  | @joined _ _ q =>
    rw [accounts_writeResult]
    exact .kept (goto_kept (s := s.use (some q)) h hst.symm)
  | @release c cur =>
    have hsem : ∀ p, Sem.joinsem cur ≠ .shouldExit p := by simp
    have hcode : (s.setExitCode cur c).accounts = s.accounts := accounts_setPCB rfl rfl rfl
    rw [accounts_v hsem, hcode, setStand_self hst.symm]
    exact .kept (.refl h)
  | settle hs => exact .kept (settle_kept h hi hpl hw hs)
  | @remove c =>
    have hsem : ∀ p, Sem.bmsem ≠ .shouldExit p := by simp
    have hsame : s.accounts.setStand t (Place.stand (.exit c .removed) false) = s.accounts :=
      setStand_self hst.symm
    rw [accounts_v hsem, accounts_setPCB rfl rfl rfl]
    show s.accounts.Onto (s.accounts.setStand t _)
    rw [hsame]
    exact .kept (.refl h)

end

theorem own_shouldExit {q : Tid} {b : Bool} (hk : s.view.Knows t b pl)
    (h : pl.entered t = some (.shouldExit q)) : q = t := by
  cases pl with
  | exec filename argv pc =>
    cases pc with
    | firstChild =>
      cases h
      exact hk.1
    | _ => cases h
  | exit c pc =>
    cases pc with
    | exited =>
      cases h
      rfl
    | _ => cases h
  | join pID child pc => cases pc <;> cases h
  | _ => cases h

end State

open State Accounts

theorem step_accounts {choice : Choice} (h : s.accounts.Balanced) (hi : s.view.Inv) (hw : s.Waits)
    (hs : step s choice = some s') : s.accounts.Onto s'.accounts := by
  cases step_takes hs with
  | call hpl hb =>
    refine .kept (enter_kept h ?_)
    rw [Thread.stand, hpl]
    cases hb <;> rfl
  | @round t sem hwait =>
    have hsem := hw t sem hwait
    have hub : (s.threads t).place ≠ .unborn := by
      intro hub
      rw [hub] at hsem
      cases hsem
    refine .kept (round_kept h (hi.lt_next hub) hwait hsem fun q hq => ?_)
    exact own_shouldExit (hi.knows t) (hq ▸ hsem)
  | run hwait hd => exact does_accounts h hi rfl hwait hd
  | refuse | destroy | destroyFails | outside => exact .kept (.refl h)

/-! ## What the counters say -/

/-- The PCB whose `multex` is held at the place. -/
def Place.multex : Place → Option Tid
  | .exec _ _ (.incNumWait parent _ _) | .exec _ _ (.firstChild parent _ _) => some parent
  | .exec _ _ (.opening p _) | .exec _ _ (.allocating p ..) | .exec _ _ (.forking p ..)
  | .exec _ _ (.forked p _) => some p
  | .exit _ (.decNumWait _ parent) | .exit _ (.lastChild _ parent) => some parent
  | _ => none

namespace State

/-- Thread `t` is in a critical section of `p`'s `multex`. -/
def InMultex (s : State) (t p : Tid) : Prop :=
  (s.threads t).place.multex = some p ∧ (s.threads t).waiting ≠ some (.multex p)

/-- `q` is a child of `p` for which `p` has executed the `numwait++` of `IncNumWait`, and that has not
executed the `numwait--` of `DecNumWait`. -/
def Counts (s : State) (p q : Tid) : Prop :=
  (s.pcbs q).parent = some p ∧ (s.threads p).place.uncounted ≠ some q ∧
    (s.threads q).place.settled = false

instance : DecidablePred (s.Counts p) := fun _ => inferInstanceAs (Decidable (_ ∧ _ ∧ _))

def countedChildren (s : State) (p : Tid) : Finset Tid := (Finset.range s.next).filter (s.Counts p)

/-- The process is behind `PCB::Exit`. -/
def passedExit (s : State) (p : Tid) : Bool :=
  (s.threads p).place.passed (s.threads p).waiting.isSome

/-- `p` was made and has not been removed. -/
def Exists (s : State) (p : Tid) : Prop := p < s.next ∧ (s.pcbs p).deleted = false

end State

structure Accounted (s : State) : Prop where
  numwait : ∀ p, s.Exists p → (s.pcbs p).numwait = (s.countedChildren p).card
  nonneg : ∀ p, s.Exists p → 0 ≤ (s.pcbs p).numwait
  shouldExit : ∀ p, s.Exists p → s.passedExit p = false → (∀ t, ¬ s.InMultex t p) →
    (s.sems (.shouldExit p)).value = if (s.pcbs p).numwait = 0 then 1 else 0
  passed : ∀ p, s.Exists p → s.passedExit p = true → s.countedChildren p = ∅

theorem inMultex_of_took (hi : s.view.Inv) (h : (s.threads p).stand.took = true) : s.InMultex p p := by
  have hk : s.view.Knows p _ (s.threads p).place := hi.knows p
  have htook : ((s.threads p).place.first && !(s.threads p).waiting.isSome) = true := h
  rw [Bool.and_eq_true, Bool.not_eq_true', Option.isSome_eq_false_iff, Option.isNone_iff_eq_none] at htook
  obtain ⟨hfirst, hw⟩ := htook
  refine ⟨?_, by rw [hw]; exact nofun⟩
  revert hfirst hk
  cases (s.threads p).place with
  | exec filename argv pc =>
    cases pc with
    | firstChild q r i =>
      intro hk _
      exact congrArg some hk.1
    | _ => exact nofun
  | _ => exact nofun

theorem accounted_of_balanced (hi : s.view.Inv) (h : s.accounts.Balanced) : Accounted s := by
  refine ⟨fun p hp => (h.tallies p hp.1).numwait, fun p hp => (h.tallies p hp.1).nonneg,
    fun p hp hnp hout => ?_, fun p hp hpass => ?_⟩
  · have htook : (s.accounts.stand p).took = false := by
      by_contra hc
      exact hout p (inMultex_of_took hi (Bool.eq_true_of_not_eq_false hc))
    have hpassed : (s.accounts.stand p).passed = false := hnp
    have hdue : s.accounts.permits p = s.accounts.due p := (h.tallies p hp.1).permits
    unfold due at hdue
    simp only [htook, hpassed, and_true] at hdue
    exact hdue
  · exact (h.tallies p hp.1).children_eq_empty ((h.tallies p hp.1).passed hpass)

theorem found_of_creates (hc : Creates s.accounts s'.accounts t) (hi : s'.view.Inv)
    (h : Accounted s') : (s.uninit s.next).2 = 0 := by
  have hlt : s.next < s'.next := by
    rw [show s'.next = s.next + 1 from hc.next]
    exact Nat.lt_succ_self _
  have hpassed : (s'.accounts.stand s.next).passed = false := by
    rw [show s'.accounts.stand s.next = _ from hc.stand_next]
    rfl
  have hdel : (s'.pcbs s.next).deleted = false := by
    by_contra hd
    have hgone := hi.deleted s.next (Bool.eq_true_of_not_eq_false hd)
    exact Bool.noConfusion (hpassed.symm.trans (Place.passed_of_gone hgone))
  have hnone : s'.countedChildren s.next = ∅ := hc.children_next
  have hnumwait : (s'.pcbs s.next).numwait = (s.uninit s.next).2 :=
    (congrFun hc.numwait s.next).trans (update_self ..)
  have hcount := h.numwait s.next ⟨hlt, hdel⟩
  rw [hnone, hnumwait] at hcount
  exact hcount

def FoundZero (env : Env) (s : State) : Prop := ∀ p < s.next, (env.uninit p).2 = 0

structure Sound (env : Env) (s : State) : Prop where
  inv : s.view.Inv
  waits : s.Waits
  found : s.accounts.found = fun p => (env.uninit p).2

structure Clean (env : Env) (s : State) : Prop where
  balanced : s.accounts.Balanced
  zero : FoundZero env s

theorem step_clean {choice : Choice} (hsound : Sound env s) (hclean : Clean env s)
    (hs : step s choice = some s') :
    Sound env s' ∧ (Accounted s' ∨ FoundZero env s' → Clean env s') := by
  have hinv := step_inv hsound.inv hs
  have hwaits := step_waits hsound.waits hsound.inv hs
  cases step_accounts hclean.balanced hsound.inv hsound.waits hs with
  | kept hk =>
    refine ⟨⟨hinv, hwaits, hk.found.trans hsound.found⟩, fun _ => ⟨hk.balanced, fun p hp => ?_⟩⟩
    rw [show s'.next = s.next from hk.next] at hp
    exact hclean.zero p hp
  | made hc =>
    refine ⟨⟨hinv, hwaits, hc.found.trans hsound.found⟩, fun h => ?_⟩
    have hnext : s'.next = s.next + 1 := hc.next
    have hfound : (s.uninit s.next).2 = (env.uninit s.next).2 := congrFun hsound.found s.next
    have h0 : (s.uninit s.next).2 = 0 := by
      rcases h with hacc | hzero
      · exact found_of_creates hc hinv hacc
      · rw [hfound]
        exact hzero s.next (hnext ▸ Nat.lt_succ_self _)
    refine ⟨hc.balanced hclean.balanced h0, fun p hp => ?_⟩
    rw [hnext] at hp
    rcases Nat.lt_succ_iff_lt_or_eq.1 hp with hlt | rfl
    · exact hclean.zero p hlt
    · exact hfound.symm.trans h0

theorem start_sound (hs : startMainThread env filename = .ok s) : Sound env s := by
  refine ⟨start_inv hs, start_waits hs, ?_⟩
  obtain ⟨bm, frames, space, noffH, rfl, -⟩ := start_ok hs
  rfl

theorem start_accounts (hs : startMainThread env filename = .ok s) :
    s.next = 1 ∧ (s.pcbs 0).numwait = (env.uninit 0).2 ∧ (s.pcbs 0).deleted = false ∧
      (∀ p, (s.pcbs p).parent = none) ∧ (∀ p, (s.pcbs p).parentID = -1) ∧
      (∀ p, (s.sems (.shouldExit p)).value = 1) ∧ ∀ t, s.accounts.stand t = .owing none := by
  obtain ⟨bm, frames, space, noffH, rfl, -⟩ := start_ok hs
  refine ⟨rfl, rfl, rfl, fun _ => rfl, fun _ => rfl, fun _ => rfl, ?_⟩
  refine (forall_update_iff (initial env bm frames).threads
    fun _ thread => thread.stand = .owing none).2 ⟨rfl, fun _ _ => rfl⟩

theorem start_clean (hs : startMainThread env filename = .ok s)
    (h : Accounted s ∨ FoundZero env s) : Clean env s := by
  obtain ⟨hnext, hnumwait, hdel, hpar, hid, hval, hst⟩ := start_accounts hs
  have hone : ∀ p < s.next, p = 0 := fun p hp => Nat.lt_one_iff.1 (hnext ▸ hp)
  have hnone : s.accounts.children 0 = ∅ :=
    Finset.eq_empty_of_forall_notMem fun q hq =>
      nomatch (hpar q).symm.trans (mem_children.1 hq).2.1
  have h0 : (env.uninit 0).2 = 0 := by
    rcases h with hacc | hzero
    · have hcount := hacc.numwait 0 ⟨hnext ▸ Nat.one_pos, hdel⟩
      rw [show s.countedChildren 0 = ∅ from hnone, hnumwait] at hcount
      exact hcount
    · exact hzero 0 (hnext ▸ Nat.one_pos)
  have hzero : s.accounts.numwait 0 = 0 := hnumwait.trans h0
  refine ⟨⟨fun p hp => ?_, fun t k hk => ?_, fun p hp _ => ⟨hone p hp, hid p⟩⟩, fun p hp => ?_⟩
  · rw [hone p hp]
    refine ⟨?_, ?_, fun _ => hzero, fun _ => hzero, fun _ => hzero⟩
    · rw [hzero, hnone]
      rfl
    · rw [due, hst, hzero]
      exact hval 0
  · rw [hst] at hk
    cases hk
  · rw [hone p hp]
    exact h0

/-- **The counter of a process is the number of its children**: a run has this in all of its states
exactly when each PCB it makes finds 0 in the memory of its `numwait`. -/
theorem children_accounted_iff {filename : Name} {s0 : State}
    (h0 : startMainThread env filename = .ok s0) :
    (Runs step (fun s _ => Accounted s) s0 s ∧ Accounted s) ↔
      Runs step (fun _ _ => True) s0 s ∧ ∀ p < s.next, (env.uninit p).2 = 0 := by
  constructor
  · rintro ⟨hrun, hacc⟩
    have h : Sound env s ∧ (Accounted s → Clean env s) := by
      refine hrun.invariant (I := fun s => Sound env s ∧ (Accounted s → Clean env s))
        ⟨start_sound h0, fun h => start_clean h0 (.inl h)⟩ fun s _ s' hI hC hs => ?_
      obtain ⟨hsound, hclean⟩ := step_clean hI.1 (hI.2 hC) hs
      exact ⟨hsound, fun h => hclean (.inl h)⟩
    exact ⟨hrun.mono fun _ _ _ => trivial, (h.2 hacc).zero⟩
  · rintro ⟨hrun, hzero⟩
    have h : FoundZero env s →
        Sound env s ∧ Clean env s ∧ Runs step (fun s _ => Accounted s) s0 s := by
      refine hrun.invariant (I := fun s => FoundZero env s →
          Sound env s ∧ Clean env s ∧ Runs step (fun s _ => Accounted s) s0 s)
        (fun h => ⟨start_sound h0, start_clean h0 (.inr h), .start⟩) fun s _ s' hI _ hs hz => ?_
      have hle := (step_grows hs).next
      obtain ⟨hsound, hclean, hruns⟩ := hI fun p hp => hz p (Nat.lt_of_lt_of_le hp hle)
      obtain ⟨hsound', hclean'⟩ := step_clean hsound hclean hs
      exact ⟨hsound', hclean' (.inr hz),
        hruns.step (accounted_of_balanced hsound.inv hclean.balanced) hs⟩
    obtain ⟨hsound, hclean, hruns⟩ := h hzero
    exact ⟨hruns, accounted_of_balanced hsound.inv hclean.balanced⟩

/-- Main has executed a program: it counts one child. -/
theorem children_accounted_exec : ∃ s0 s, startMainThread zeroEnv [] = .ok s0 ∧
    (Runs step (fun s _ => Accounted s) s0 s ∧ Accounted s) ∧ (s.pcbs 0).numwait = 1 := by
  obtain ⟨s0, s, h0, hrun, h1⟩ := exists_runs_of_ok (startMainThread zeroEnv []) step
    (fun _ _ => True) (steps 0 1 ++ .call 0 (.exec []) :: steps 0 12)
    (fun s => (s.pcbs 0).numwait = 1) (by decide +kernel)
  exact ⟨s0, s, h0, (children_accounted_iff h0).2 ⟨hrun, fun _ _ => rfl⟩, h1⟩

/-- With 5 in the memory of its `numwait`, main counts children it does not have. -/
theorem children_not_accounted : ∃ s0,
    startMainThread { zeroEnv with uninit := fun _ => (0, 5) } [] = .ok s0 ∧ ¬ Accounted s0 := by
  obtain ⟨s0, h0⟩ := exists_ok
    (x := startMainThread { zeroEnv with uninit := fun _ => (0, 5) } []) (by decide +kernel)
  refine ⟨s0, h0, fun h => ?_⟩
  have h5 := (start_clean h0 (.inl h)).zero 0 ((start_accounts h0).1 ▸ Nat.one_pos)
  cases h5

end PTable

end Nachos
