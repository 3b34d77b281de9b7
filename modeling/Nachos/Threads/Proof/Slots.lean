import Nachos.Threads.Proof.Join

/-!
# The bitmap and the array of the process table agree

The table keeps one fact twice: a slot is taken when its bit in `bm` is set, and when its element of
`pcb` is not null. `Slots` is what matters to this: the array, the bits, and the slots that threads in
`ExecUpdate` have marked and not filled yet. A step of the system finds a slot, fills one, clears one, or
leaves them alone (`step_slots`).

The constructor of the table does not initialise the array, so the agreement depends on what is in its
memory (`table_represents_iff`).
-/

namespace Nachos.PTable

open Base Function

/-! ## Slots -/

@[ext]
structure Slots where
  size : Nat
  entry : Nat → Entry
  bit : Nat → Bool
  reserves : Tid → Option Nat

def State.slots (s : State) : Slots where
  size := s.bm.numBits
  entry := s.pcb
  bit := s.bm.bit
  reserves t := (s.threads t).place.reserves

namespace Slots

variable {x x' : Slots} {t p : Tid} {i : Nat}

def reserve (x : Slots) (t : Tid) (r : Option Nat) : Slots :=
  { x with reserves := update x.reserves t r }

theorem reserve_self {r : Option Nat} (h : x.reserves t = r) : x.reserve t r = x := by
  unfold reserve
  rw [← h, update_eq_self]

def find (x : Slots) (t : Tid) (i : Nat) : Slots :=
  { x.reserve t (some i) with bit := fun j => decide (j = i) || x.bit j }

def fill (x : Slots) (t : Tid) (i : Nat) (p : Tid) : Slots :=
  { x.reserve t none with entry := update x.entry i (.obj p) }

def clear (x : Slots) (i : Nat) : Slots :=
  { x with
    entry := update x.entry i .null
    bit := fun j => decide (j ≠ i) && x.bit j }

inductive Step : Slots → Slots → Prop
  | same {x : Slots} : Step x x
  | find {x : Slots} {t : Tid} {i : Nat} : i < x.size → x.reserves t = none → Step x (x.find t i)
  | fill {x : Slots} {t : Tid} {i : Nat} {p : Tid} : x.reserves t = some i → Step x (x.fill t i p)
  | clear {x : Slots} {i : Nat} : Step x (x.clear i)

structure Agree (x : Slots) : Prop where
  size : x.size = maxProcess
  taken : ∀ i < maxProcess, x.bit i = true →
    (∃ p, x.entry i = .obj p) ∨ ∃ t, x.reserves t = some i
  reserved : ∀ t i, x.reserves t = some i → i < maxProcess
  filled : ∀ i p, x.entry i = .obj p → i < maxProcess
  tame : ∀ i, i < maxProcess → x.entry i ≠ .wild

theorem Agree.find (h : x.Agree) (hi : i < x.size) (hr : x.reserves t = none) :
    (x.find t i).Agree := by
  refine ⟨h.size, fun j hj hb => ?_, ?_, h.filled, h.tame⟩
  · by_cases hji : j = i
    · exact .inr ⟨t, by rw [hji]; exact update_self ..⟩
    · rcases h.taken j hj (by simpa [Slots.find, hji] using hb) with hp | ⟨u, hu⟩
      · exact .inl hp
      · have hut : u ≠ t := by
          rintro rfl
          cases hr.symm.trans hu
        exact .inr ⟨u, (update_of_ne hut ..).trans hu⟩
  · refine (forall_update_iff x.reserves fun _ r => ∀ j, r = some j → j < maxProcess).2
      ⟨?_, fun u _ => h.reserved u⟩
    rintro _ ⟨⟩
    rw [← h.size]
    exact hi

theorem Agree.fill (h : x.Agree) (hr : x.reserves t = some i) : (x.fill t i p).Agree := by
  refine ⟨h.size, fun j hj hb => ?_, ?_, ?_, ?_⟩
  · by_cases hji : j = i
    · exact .inl ⟨p, by rw [hji]; exact update_self ..⟩
    · rcases h.taken j hj hb with ⟨q, hq⟩ | ⟨u, hu⟩
      · exact .inl ⟨q, (update_of_ne hji ..).trans hq⟩
      · have hut : u ≠ t := by
          rintro rfl
          exact hji (Option.some.inj (hu.symm.trans hr))
        exact .inr ⟨u, (update_of_ne hut ..).trans hu⟩
  · exact (forall_update_iff x.reserves fun _ r => ∀ j, r = some j → j < maxProcess).2
      ⟨nofun, fun u _ => h.reserved u⟩
  · exact (forall_update_iff x.entry fun j e => ∀ p, e = .obj p → j < maxProcess).2
      ⟨fun _ _ => h.reserved t i hr, fun j _ => h.filled j⟩
  · exact (forall_update_iff x.entry fun j e => j < maxProcess → e ≠ .wild).2
      ⟨fun _ => nofun, fun j _ => h.tame j⟩

theorem Agree.clear (h : x.Agree) : (x.clear i).Agree := by
  refine ⟨h.size, fun j hj hb => ?_, h.reserved, ?_, ?_⟩
  · obtain ⟨hji, hb⟩ : j ≠ i ∧ x.bit j = true := by simpa [Slots.clear] using hb
    rcases h.taken j hj hb with ⟨q, hq⟩ | hu
    · exact .inl ⟨q, (update_of_ne hji ..).trans hq⟩
    · exact .inr hu
  · exact (forall_update_iff x.entry fun j e => ∀ p, e = .obj p → j < maxProcess).2
      ⟨nofun, fun j _ => h.filled j⟩
  · exact (forall_update_iff x.entry fun j e => j < maxProcess → e ≠ .wild).2
      ⟨fun _ => nofun, fun j _ => h.tame j⟩

theorem Step.agree (hs : Step x x') (h : x.Agree) : x'.Agree := by
  cases hs with
  | same => exact h
  | find hi hr => exact h.find hi hr
  | fill hr => exact h.fill hr
  | clear => exact h.clear

end Slots

/-! ## The slots of a state -/

namespace State

variable {s s' : State} {t u p : Tid} {sem : Sem} {pl : Place}

theorem slots_setThread (f : Thread → Thread) :
    (s.setThread t f).slots = s.slots.reserve t (f (s.threads t)).place.reserves :=
  Slots.ext rfl rfl rfl (comp_update (fun thread : Thread => thread.place.reserves) s.threads t _)

theorem slots_goto : (s.goto t pl).slots = s.slots.reserve t pl.reserves := slots_setThread _

theorem slots_enter : (s.enter t sem pl).slots = s.slots.reserve t pl.reserves := slots_setThread _

theorem slots_writeResult (r : Int) : (s.writeResult t r).slots = s.slots := by
  rw [writeResult, slots_setThread]
  exact Slots.reserve_self rfl

theorem slots_round : (s.round t sem).slots = s.slots := by
  unfold round
  split
  · rw [slots_setThread]
    exact Slots.reserve_self rfl
  · rfl

theorem slots_p : (s.p t sem pl).slots = s.slots.reserve t pl.reserves := by
  rw [p, slots_round, slots_enter]

theorem slots_v : (s.v t sem pl).slots = s.slots.reserve t pl.reserves := slots_goto

theorem step_reserve {r : Option Nat} (h : s.slots.reserves t = r) :
    Slots.Step s.slots (s.slots.reserve t r) := by
  rw [Slots.reserve_self h]
  exact .same

theorem step_p (h : s.slots.reserves t = pl.reserves) : Slots.Step s.slots (s.p t sem pl).slots := by
  rw [slots_p]
  exact step_reserve h

theorem step_v (h : s.slots.reserves t = pl.reserves) : Slots.Step s.slots (s.v t sem pl).slots := by
  rw [slots_v]
  exact step_reserve h

theorem find_slots {filename : Name} {argv : List Name} {freeSlot : Int} {bm : Bitmap}
    (hr : s.slots.reserves t = none) (hf : s.bm.findAndSet = .ok (freeSlot, bm)) :
    Slots.Step s.slots (State.v { s with bm } t .bmsem (.exec filename argv (.found freeSlot))).slots := by
  rcases s.bm.findAndSet_cases with ⟨j, hj, -, -, hf'⟩ | ⟨-, hf'⟩
  · cases hf.symm.trans hf'
    have hfound : Place.reserves (.exec filename argv (.found j)) = some j := by
      have hne : (j : Int) ≠ -1 := by omega
      simp [Place.reserves, ExecPc.reserves, hne]
    have hslots : (State.v { s with bm := s.bm.set j } t .bmsem
        (.exec filename argv (.found j))).slots = s.slots.find t j := by
      rw [slots_v, hfound]
      exact Slots.ext rfl rfl (funext (Bitmap.bit_set hj)) rfl
    rw [hslots]
    exact .find hj hr
  · cases hf.symm.trans hf'
    exact step_v (s := s) hr

theorem remove_slots {c : Int} {cur : Tid} {bm : Bitmap} (hr : s.slots.reserves t = none)
    (hbm : s.bm.clear (s.threads t).id = .ok bm) :
    Slots.Step s.slots ((State.setPCB { s with
      bm, pcb := update s.pcb (s.threads t).id .null } cur fun pcb =>
        { pcb with deleted := true }).v t .bmsem (.exit c .removed)).slots := by
  obtain ⟨i, hid, hlt, rfl⟩ := Bitmap.clear_ok hbm
  obtain rfl : (s.threads t).id = i := Int.ofNat.inj hid
  have hslots : ((State.setPCB { s with
        bm := s.bm.unset (s.threads t).id
        pcb := update s.pcb (s.threads t).id .null } cur fun pcb =>
          { pcb with deleted := true }).v t .bmsem (.exit c .removed)).slots =
        s.slots.clear (s.threads t).id := by
    rw [slots_v]
    refine Slots.ext rfl rfl (funext (Bitmap.bit_unset hlt)) ?_
    show (s.slots.reserve t none).reserves = s.slots.reserves
    rw [Slots.reserve_self hr]
  rw [hslots]
  exact .clear

theorem fork_slots {i : Nat} {space : AddrSpace} {noffH : NoffHeader}
    (hub : (s.threads p).place = .unborn) : (s.fork p i space noffH).slots = s.slots := by
  have hp : s.slots.reserves p = none := congrArg Place.reserves hub
  rw [fork, slots_setThread]
  exact Slots.reserve_self hp

theorem does_slots (hi : s.view.Inv) (hpl : (s.threads t).place = pl) (hd : s.Does t pl s') :
    Slots.Step s.slots s'.slots := by
  have hr : s.slots.reserves t = pl.reserves := congrArg Place.reserves hpl
  cases hd with
  | stop => exact .same
  | p he =>
    refine step_p (hr.trans ?_)
    cases he <;> rfl
  | v hv =>
    refine step_v (hr.trans ?_)
    cases hv <;> rfl
  | loaded =>
    rw [slots_goto]
    exact step_reserve hr
  | find hf => exact find_slots hr hf
  | refuse | forked =>
    rw [slots_writeResult]
    exact step_v hr
  | @create filename argv i hne =>
    have hslots : ((s.newPCB t i.toNat argv).v t .bmsem
          (.exec filename argv (.created s.next i.toNat))).slots =
        s.slots.fill t i.toNat s.next := by
      rw [slots_v]
      rfl
    rw [hslots]
    refine .fill ?_
    rw [hr]
    exact if_neg hne
  | count hc =>
    refine step_v (s := s.addNumwait _ 1) (hr.trans ?_)
    cases hc <;> rfl
  | @allocate _ _ _ _ _ _ _ gPhysPageBitMap => exact step_v (s := { s with gPhysPageBitMap }) hr
  | @fork _ _ p =>
    have hub : (s.threads p).place = .unborn := hi.unforked t p (congrArg Place.unforked hpl)
    rw [slots_goto, fork_slots hub]
    exact step_reserve hr
  | @joined _ _ q =>
    rw [slots_writeResult, slots_goto]
    exact step_reserve (s := s.use (some q)) hr
  | release => exact step_v (s := s.setExitCode _ _) hr
  | settle => exact step_v (s := s.addNumwait _ _) hr
  | remove hbm => exact remove_slots hr hbm
  | @removed c =>
    show Slots.Step s.slots (s.goto t (.finished c)).slots
    rw [slots_goto]
    exact step_reserve hr

end State

open State

variable {s s' : State}

theorem step_slots {choice : Choice} (hi : s.view.Inv) (hs : step s choice = some s') :
    Slots.Step s.slots s'.slots := by
  cases step_takes hs with
  | call hpl hb =>
    rw [slots_enter]
    refine step_reserve ((congrArg Place.reserves hpl).trans ?_)
    cases hb <;> rfl
  | round =>
    rw [slots_round]
    exact .same
  | run _ hd => exact does_slots hi rfl hd
  | refuse | destroy | destroyFails | outside => exact .same

/-! ## What the table represents -/

/-- `p` was created with the number `i`, and has not been removed. -/
def State.Live (s : State) (p : Tid) (i : Nat) : Prop :=
  p < s.next ∧ (s.pcbs p).deleted = false ∧ (s.pcbs p).pID = i

/-- The table represents the processes. The bits and the array agree whenever no `Exec` is between
`GetFreeSlot` and its store into `pcb`. -/
structure Represents (s : State) : Prop where
  taken : (∀ t, (s.threads t).place.reserves = none) → ∀ i < maxProcess,
    (s.bm.bit i = true ↔ s.pcb i ≠ .null)
  live : ∀ i < maxProcess, (s.pcb i ≠ .null ↔ ∃ p, s.Live p i)
  pID : ∀ i < maxProcess, ∀ p, s.pcb i = .obj p → (s.pcbs p).pID = i
  isExist : ∀ pid, s.isExist pid = true ↔ ∃ p, ∃ i : Nat, (i : Int) = pid ∧ s.Live p i
  /-- a slot that is filled belongs to no process -/
  fresh : ∀ t i, (s.threads t).place.reserves = some i → ∀ p, ¬ s.Live p i
  /-- the number that `ExecUpdate` returns is that of its own process, and of no other -/
  returned : ∀ t filename argv p i, (s.threads t).place = .exec filename argv (.forked p i) →
    s.Live p i ∧ ∀ q, s.Live q i → q = p

theorem live_iff (hi : s.view.Inv) {p : Tid} {i : Nat} : s.Live p i ↔ s.pcb i = .obj p :=
  (hi.entry_iff i p).symm

theorem represents_of_agree (hi : s.view.Inv) (ha : s.slots.Agree) : Represents s := by
  have hnull : ∀ i < maxProcess, (s.pcb i ≠ .null ↔ ∃ p, s.Live p i) := by
    intro i hlt
    constructor
    · intro hne
      cases he : s.pcb i with
      | null => exact absurd he hne
      | wild => exact absurd he (ha.tame i hlt)
      | obj p => exact ⟨p, (live_iff hi).2 he⟩
    · rintro ⟨p, hp⟩
      rw [(live_iff hi).1 hp]
      exact nofun
  refine ⟨fun hfree i hlt => ⟨fun hb => ?_, fun hne => ?_⟩, hnull, fun i _ p hp => ?_, ?_, ?_, ?_⟩
  · rcases ha.taken i hlt hb with ⟨p, hp⟩ | ⟨t, ht⟩
    · rw [show s.pcb i = .obj p from hp]
      exact nofun
    · cases (hfree t).symm.trans ht
  · obtain ⟨p, hp⟩ := (hnull i hlt).1 hne
    exact hi.marked i p ((live_iff hi).1 hp)
  · exact ((hi.entry_iff i p).1 hp).2.2
  · intro pid
    unfold isExist entry
    split
    · rename_i hr
      have hlt : pid.toNat < maxProcess := by omega
      rw [decide_eq_true_iff]
      refine (hnull _ hlt).trans ⟨?_, ?_⟩
      · rintro ⟨p, hp⟩
        exact ⟨p, pid.toNat, by omega, hp⟩
      · rintro ⟨p, i, rfl, hp⟩
        exact ⟨p, hp⟩
    · rename_i hr
      refine ⟨fun h => by simp at h, ?_⟩
      rintro ⟨p, i, rfl, hp⟩
      have := ha.filled i p ((live_iff hi).1 hp)
      omega
  · intro t i ht p hp
    exact (hi.reserved t i ht).2 p ((live_iff hi).1 hp)
  · intro t filename argv p i hpl
    have hk := hi.knows t
    rw [show s.view.place t = _ from hpl] at hk
    obtain ⟨hlt, hpar, hid⟩ : s.view.Child t p i := hk
    have hrel : ¬ (s.view.place t).released := by
      rw [show s.view.place t = _ from hpl]
      exact nofun
    have he := hi.entry_of_not_gone hlt (View.not_gone_of_parent hi hpar hrel)
    rw [hid] at he
    refine ⟨(live_iff hi).2 he, fun q hq => ?_⟩
    exact Entry.obj.inj (((live_iff hi).1 hq).symm.trans he)

theorem start_agree {env : Env} {filename : Name} (hs : startMainThread env filename = .ok s)
    (hw : ∀ i, 0 < i → i < maxProcess → env.wild i = false) : s.slots.Agree := by
  obtain ⟨bm, frames, space, noffH, rfl, hsize, hmarked, -⟩ := start_ok hs
  have hslots : ((initial env bm frames).fork 0 0 space noffH).slots = (initial env bm frames).slots := by
    have h0 : (initial env bm frames).slots.reserves 0 = none := rfl
    rw [fork, slots_setThread]
    exact Slots.reserve_self h0
  rw [hslots]
  refine ⟨hsize, fun i hi hb => ?_, fun t i ht => ?_, fun i p hp => ?_, fun i hi => ?_⟩
  · have hmem : i ∈ bm.marked := Bitmap.mem_marked.2 ⟨by rw [hsize]; exact hi, hb⟩
    rw [hmarked, Finset.mem_singleton] at hmem
    exact .inl ⟨0, if_pos hmem⟩
  · cases ht
  · by_cases h0 : i = 0
    · rw [h0]
      decide
    · rw [show (initial env bm frames).slots.entry i = _ from if_neg h0] at hp
      split at hp <;> cases hp
  · by_cases h0 : i = 0
    · rw [show (initial env bm frames).slots.entry i = _ from if_pos h0]
      simp
    · rw [show (initial env bm frames).slots.entry i = _ from if_neg h0, hw i (by omega) hi]
      simp

theorem start_not_wild {env : Env} {filename : Name} (hs : startMainThread env filename = .ok s)
    (h : Represents s) {i : Nat} (h0 : 0 < i) (hi : i < maxProcess) : env.wild i = false := by
  obtain ⟨bm, frames, space, noffH, rfl, hsize, hmarked, -⟩ := start_ok hs
  have hbit : bm.bit i ≠ true := by
    intro hb
    have hmem : i ∈ bm.marked := Bitmap.mem_marked.2 ⟨by rw [hsize]; exact hi, hb⟩
    rw [hmarked, Finset.mem_singleton] at hmem
    omega
  have hfree : ∀ t, (((initial env bm frames).fork 0 0 space noffH).threads t).place.reserves = none :=
    (forall_update_iff (initial env bm frames).threads
      fun _ thread => thread.place.reserves = none).2 ⟨rfl, fun _ _ => rfl⟩
  by_contra hwild
  refine hbit ((h.taken hfree i hi).2 ?_)
  show (if i = 0 then Entry.obj 0 else if env.wild i then .wild else .null) ≠ .null
  rw [if_neg (by omega), if_pos (by simpa using hwild)]
  exact nofun

/-- **The process table represents the processes exactly when its memory was zero.** From the start of
the kernel, in every interleaving, until a deleted PCB is used: the bitmap, the array and the processes
agree, `IsExist` tells which processes there are, and the number a process gets is that of no other, if
and only if the elements of `pcb` behind the first are null when the table is constructed. -/
theorem table_represents_iff {env : Env} {filename : Name} {h₀ : Heap}
    (h0 : Heap.startMainThread env filename = .ok h₀) :
    (∀ h, Runs Heap.step (fun _ _ => True) h₀ h → h.state.freedUse = false → Represents h.state) ↔
      ∀ i, 0 < i → i < maxProcess → env.wild i = false := by
  obtain ⟨s0, hs0, h0⟩ := bind_ok h0
  cases h0
  constructor
  · intro h i hpos hi
    obtain ⟨_, _, _, _, rfl, -⟩ := start_ok hs0
    exact start_not_wild hs0 (h _ .start rfl) hpos hi
  · intro hw h hrun hf
    have hboth : h.state.view.Inv ∧ h.state.slots.Agree := by
      refine (Heap.runs hrun hf).invariant (I := fun s => s.view.Inv ∧ s.slots.Agree)
        ⟨start_inv hs0, start_agree hs0 hw⟩ fun s choice s' hs _ hstep => ?_
      exact ⟨step_inv hs.1 hstep, (step_slots hs.1 hstep).agree hs.2⟩
    exact represents_of_agree hboth.1 hboth.2

theorem table_represents_zero : ∃ h₀, Heap.startMainThread zeroEnv [] = .ok h₀ ∧
    ∀ h, Runs Heap.step (fun _ _ => True) h₀ h → h.state.freedUse = false → Represents h.state := by
  obtain ⟨h₀, h0⟩ := exists_ok (x := Heap.startMainThread zeroEnv []) (by decide +kernel)
  exact ⟨h₀, h0, (table_represents_iff h0).2 fun _ _ _ => rfl⟩

/-- Something in the memory of `pcb[3]` when the table is constructed: `IsExist(3)`, with the bit
clear. -/
theorem table_not_represented : ∃ s0,
    startMainThread { zeroEnv with wild := fun i => i == 3 } [] = .ok s0 ∧ ¬ Represents s0 := by
  obtain ⟨s0, h0⟩ := exists_ok
    (x := startMainThread { zeroEnv with wild := fun i => i == 3 } []) (by decide +kernel)
  refine ⟨s0, h0, fun h => ?_⟩
  cases start_not_wild h0 h (i := 3) (by decide) (by decide)

end Nachos.PTable
