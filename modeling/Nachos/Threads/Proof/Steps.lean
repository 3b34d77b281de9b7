import Nachos.Threads.Proof.Effects
import Nachos.Threads.Proof.Table

/-!
# Every step keeps the invariant of the process table

The rules for `P` and `V` (`p_inv`, `v_inv`, `round_inv`) reduce each step to the places it leads from
and to. `reachable_inv` is the result for all runs.
-/

namespace Nachos

open Base
open Function (comp_update update update_apply update_eq_self update_of_ne update_self)

namespace PTable

namespace State

variable {s s' : State} {t p q : Tid} {sem : Sem} {pl : Place}

/-! ## Views of changed states -/

theorem view_setThread (f : Thread → Thread) : (s.setThread t f).view =
    { s.view with
      place := update s.view.place t (f (s.threads t)).place
      waiting := update s.view.waiting t (f (s.threads t)).waiting
      id := update s.view.id t (f (s.threads t)).id } := by
  refine View.ext rfl rfl rfl rfl ?_ ?_ ?_ rfl rfl
  · exact comp_update Thread.place s.threads t _
  · exact comp_update Thread.waiting s.threads t _
  · exact comp_update Thread.id s.threads t _

theorem view_goto : (s.goto t pl).view = s.view.goto t pl none s.view.joins s.view.exits := by
  rw [goto, view_setThread]
  refine View.ext rfl rfl rfl rfl rfl rfl ?_ rfl rfl
  exact update_eq_self t _

theorem view_enter :
    (s.enter t sem pl).view = s.view.goto t pl (some sem) s.view.joins s.view.exits := by
  rw [enter, view_setThread]
  refine View.ext rfl rfl rfl rfl rfl rfl ?_ rfl rfl
  exact update_eq_self t _

theorem view_writeResult (r : Int) : (s.writeResult t r).view = s.view := by
  rw [writeResult, view_setThread]
  refine View.ext rfl rfl rfl rfl ?_ ?_ ?_ rfl rfl <;> exact update_eq_self t _

theorem view_setPCB (f : PCB → PCB) : (s.setPCB p f).view =
    { s.view with pcbs := update s.view.pcbs p { f (s.pcbs p) with numwait := 0 } } := by
  refine View.ext rfl rfl rfl ?_ rfl rfl rfl rfl rfl
  exact comp_update (fun pcb : PCB => { pcb with numwait := 0 }) s.pcbs p _

theorem view_addNumwait (k : Int) : (s.addNumwait p k).view = s.view := by
  rw [addNumwait, view_setPCB]
  refine View.ext rfl rfl rfl ?_ rfl rfl rfl rfl rfl
  exact update_eq_self p s.view.pcbs

theorem view_setExitCode (c : Int) : (s.setExitCode p c).view = s.view.setCode p c := by
  rw [setExitCode, view_setPCB]
  rfl

theorem joins_setSem (x : Semaphore Nat) (q : Tid) :
    (s.setSem sem x).view.joins q = if sem = .joinsem q then x.value else s.view.joins q := by
  show (update s.sems sem x (.joinsem q)).value = _
  by_cases h : sem = .joinsem q
  · rw [if_pos h, ← h, update_self]
  · rw [if_neg h, update_of_ne (Ne.symm h)]
    rfl

theorem exits_setSem (x : Semaphore Nat) (q : Tid) :
    (s.setSem sem x).view.exits q = if sem = .exitsem q then x.value else s.view.exits q := by
  show (update s.sems sem x (.exitsem q)).value = _
  by_cases h : sem = .exitsem q
  · rw [if_pos h, ← h, update_self]
  · rw [if_neg h, update_of_ne (Ne.symm h)]
    rfl

/-! ## `P` and `V` -/

theorem view_v (s : State) (t : Tid) (sem : Sem) (pl : Place) : ∃ joins exits,
    (s.v t sem pl).view = s.view.goto t pl none joins exits ∧
      (∀ q, joins q ≠ 0 → s.view.joins q ≠ 0 ∨ sem = .joinsem q) ∧
      ∀ q, exits q ≠ 0 → s.view.exits q ≠ 0 ∨ sem = .exitsem q := by
  refine ⟨_, _, view_goto, fun q hq => ?_, fun q hq => ?_⟩
  · rw [joins_setSem] at hq
    split at hq
    · rename_i hsem
      exact .inr hsem
    · exact .inl hq
  · rw [exits_setSem] at hq
    split at hq
    · rename_i hsem
      exact .inr hsem
    · exact .inl hq

theorem v_inv (h : s.view.Inv) (hm : s.view.Moves t pl) (hk : s.view.Knows t true pl)
    (hj : ∀ q, sem = .joinsem q → (s.view.place q).code.isSome ∨ q = t ∧ pl.code.isSome)
    (he : ∀ q, sem = .exitsem q → (s.view.place q).released ∨ q = t ∧ pl.released) :
    (s.v t sem pl).view.Inv := by
  obtain ⟨joins, exits, hv, hjoins, hexits⟩ := view_v s t sem pl
  rw [hv]
  refine h.goto hm (fun q hq => (hjoins q hq).imp_right fun hsem => ?_)
    (fun q hq => (hexits q hq).imp_right fun hsem => ?_) nofun hk
  · rcases hj q hsem with hc | ⟨rfl, hc⟩
    · exact hm.le.code q hc
    · rw [View.goto_place_self]
      exact hc
  · rcases he q hsem with hc | ⟨rfl, hc⟩
    · exact hm.le.released q hc
    · rw [View.goto_place_self]
      exact hc

theorem value_p_le (x : Semaphore Nat) (t : Tid) : (x.p t).1.value ≤ x.value := by
  unfold Semaphore.p
  split
  · exact Nat.le_refl _
  · exact Nat.sub_le ..

theorem round_inv (h : s.view.Inv) (hw : s.view.waiting t = some sem) : (s.round t sem).view.Inv := by
  have hj : ∀ q, (s.setSem sem ((s.sems sem).p t).1).view.joins q ≠ 0 → s.view.joins q ≠ 0 := by
    intro q hq h0
    rw [joins_setSem] at hq
    split at hq
    · rename_i hsem
      subst hsem
      exact hq (Nat.le_zero.1 (Nat.le_trans (value_p_le _ t) (Nat.le_of_eq h0)))
    · exact hq h0
  have he : ∀ q, (s.setSem sem ((s.sems sem).p t).1).view.exits q ≠ 0 → s.view.exits q ≠ 0 := by
    intro q hq h0
    rw [exits_setSem] at hq
    split at hq
    · rename_i hsem
      subst hsem
      exact hq (Nat.le_zero.1 (Nat.le_trans (value_p_le _ t) (Nat.le_of_eq h0)))
    · exact hq h0
  unfold round
  split
  · rename_i x hx
    rw [show x = ((s.sems sem).p t).1 by rw [hx]]
    have hne : (s.sems sem).value ≠ 0 := by
      intro h0
      rw [Semaphore.p, if_pos h0] at hx
      cases hx
    have hv : (((s.use sem.owner).setSem sem ((s.sems sem).p t).1).setThread t
          fun thread => { thread with waiting := none }).view =
        s.view.pass t (s.setSem sem ((s.sems sem).p t).1).view.joins
          (s.setSem sem ((s.sems sem).p t).1).view.exits := by
      rw [view_setThread]
      refine View.ext rfl rfl rfl rfl ?_ rfl ?_ rfl rfl <;> exact update_eq_self t _
    rw [hv]
    refine h.pass hw hj he ?_ ?_
    · rintro q rfl
      exact hne
    · rintro q rfl
      exact hne
  · rename_i x hx
    rw [show x = ((s.sems sem).p t).1 by rw [hx]]
    exact { h with
      joins := fun q hq => h.joins q (hj q hq)
      exits := fun q hq => h.exits q (he q hq)
      knows := h.knows }

theorem p_inv (h : s.view.Inv) (hm : s.view.Moves t pl) (hk : s.view.Knows t false pl)
    (hg : ∀ sem', pl.guarded = some sem' → sem = sem') : (s.p t sem pl).view.Inv := by
  have henter : (s.enter t sem pl).view.Inv := by
    rw [view_enter]
    refine h.goto hm (fun _ => .inl) (fun _ => .inl) ?_ hk
    rintro _ sem' ⟨⟩
    exact hg sem'
  refine round_inv henter ?_
  rw [view_enter]
  exact View.goto_waiting_self

theorem goto_inv (h : s.view.Inv) (hm : s.view.Moves t pl) (hk : s.view.Knows t true pl) :
    (s.goto t pl).view.Inv := by
  rw [view_goto]
  exact h.goto hm (fun _ => .inl) (fun _ => .inl) nofun hk

/-! ## The sections -/

theorem own_entry (h : s.view.Inv) (hpl : s.view.place t = pl) (hub : pl ≠ .unborn) (hg : ¬ pl.gone) :
    s.pcb (s.threads t).id = .obj t := by
  subst hpl
  have := h.entry_of_not_gone (h.lt_next hub) hg
  rwa [← h.id t hub] at this

theorem entry_obj {pid : Int} (h : s.entry pid = .obj p) : 0 ≤ pid ∧ s.pcb pid.toNat = .obj p := by
  unfold entry at h
  split at h
  · rename_i hr
    exact ⟨hr.1, h⟩
  · cases h

theorem byParent_of_entry (h : s.view.Inv) (ht : t < s.next) {parentID : Int}
    (hpid : parentID = (s.view.pcbs t).parentID) (hq : s.pcb parentID.toNat = .obj q) :
    s.view.ByParent t q := by
  intro k hk
  obtain ⟨hlt, hid⟩ := h.parent t ht k hk
  by_cases hg : (s.view.place k).gone
  · exact .inr (View.released_of_gone hg)
  · left
    have he := h.entry_of_not_gone hlt hg
    rw [hpid, hid, Int.toNat_natCast] at hq
    exact Entry.obj.inj (hq.symm.trans he)

section

variable {filename : Name} {argv : List Name} {pc : ExecPc} {c : Int}

theorem finding_inv {freeSlot : Int} {bm : Bitmap} (h : s.view.Inv)
    (hpl : s.view.place t = .exec filename argv .finding)
    (hf : s.bm.findAndSet = .ok (freeSlot, bm)) :
    (State.v { s with bm } t .bmsem (.exec filename argv (.found freeSlot))).view.Inv := by
  rcases s.bm.findAndSet_cases with ⟨j, hj, hb, -, hf'⟩ | ⟨-, hf'⟩
  · cases hf.symm.trans hf'
    have hm : State.view { s with bm := s.bm.set j } = s.view.mark j := by
      refine View.ext rfl ?_ rfl rfl rfl rfl rfl rfl rfl
      exact funext (Bitmap.bit_set hj)
    refine v_inv (hm ▸ h.mark j) ?_ trivial nofun nofun
    rw [hm]
    -- the bit was clear: nobody has the slot, neither with a PCB nor without
    have hfree : s.view.bit j ≠ true := fun hbit => nomatch hb.symm.trans hbit
    refine View.moves_exec (v := s.view.mark j) hpl (fun i hi => ?_) nofun
    have hij : i = j := by
      have hne : (j : Int) ≠ -1 := by omega
      simpa [ExecPc.reserves, hne] using hi.symm
    subst hij
    refine ⟨?_, fun p hp => hfree (h.marked i p hp), fun u _ hu => hfree (h.reserved u i hu).1⟩
    simp [View.mark]
  · cases hf.symm.trans hf'
    exact v_inv h (View.exec_moves h hpl _ (.inl rfl) (.inl rfl)) trivial nofun nofun

theorem view_newPCB (i : Nat) : (s.newPCB t i argv).view = s.view.create i
    { PCB.new i t (s.threads t).id (s.uninit s.next) argv with numwait := 0 } := by
  refine View.ext rfl rfl rfl ?_ rfl rfl rfl (funext fun q => ?_) (funext fun q => ?_)
  · exact comp_update (fun pcb : PCB => { pcb with numwait := 0 }) s.pcbs s.next _
  · show (if some q = some s.next then (Sem.joinsem q).initial else s.sems (.joinsem q)).value =
      update s.view.joins s.next 0 q
    simp only [update_apply, Option.some.injEq]
    split <;> rfl
  · show (if some q = some s.next then (Sem.exitsem q).initial else s.sems (.exitsem q)).value =
      update s.view.exits s.next 0 q
    simp only [update_apply, Option.some.injEq]
    split <;> rfl

theorem newPCB_inv {i : Nat} (h : s.view.Inv) (hpl : s.view.place t = .exec filename argv pc)
    (hr : pc.reserves = some i) :
    ((s.newPCB t i argv).v t .bmsem (.exec filename argv (.created s.next i))).view.Inv := by
  obtain ⟨joins, exits, hv, hjoins, hexits⟩ :=
    view_v (s.newPCB t i argv) t .bmsem (.exec filename argv (.created s.next i))
  rw [hv]
  rw [view_newPCB] at hjoins hexits ⊢
  exact h.createAt hpl hr rfl rfl rfl rfl (fun q hq => (hjoins q hq).resolve_right nofun)
    fun q hq => (hexits q hq).resolve_right nofun

theorem exec_user_inv (h : s.view.Inv) (hpl : s.view.place t = .exec filename argv pc) (r : Int)
    (hj : ∀ q, sem ≠ .joinsem q) (he : ∀ q, sem ≠ .exitsem q) :
    ((s.v t sem .user).writeResult t r).view.Inv := by
  rw [view_writeResult]
  exact v_inv h (View.user_moves h hpl nofun rfl nofun) trivial (fun q hq => absurd hq (hj q))
    fun q hq => absurd hq (he q)

theorem addNumwait_inv (h : s.view.Inv) (q : Tid) (k : Int) (hm : s.view.Moves t pl)
    (hk : s.view.Knows t true pl) (hj : ∀ q, sem ≠ .joinsem q) (he : ∀ q, sem ≠ .exitsem q) :
    ((s.addNumwait q k).v t sem pl).view.Inv := by
  have hv := view_addNumwait (s := s) (p := q) k
  refine v_inv (hv ▸ h) ?_ ?_ (fun q hq => absurd hq (hj q)) fun q hq => absurd hq (he q)
  · rw [hv]
    exact hm
  · rw [hv]
    exact hk

theorem fork_inv {i : Nat} (h : s.view.Inv) (hpl : s.view.place t = .exec filename argv pc)
    (hp : pc.unforked = some p) (hc : s.view.Child t p i) (space : AddrSpace) (noffH : NoffHeader) :
    ((s.fork p i space noffH).goto t (.exec filename argv (.forked p i))).view.Inv := by
  rw [view_goto, fork, view_setThread]
  exact h.bornAt hpl hp hc

theorem joinRelease_inv (h : s.view.Inv) {b : Bool} (hpl : s.view.place t = .exit c (.checked b)) :
    ((s.setExitCode t c).v t (.joinsem t) (.exit c (.joinReleased t (s.pcbs t).parentID))).view.Inv := by
  have hv := view_setExitCode (s := s) (p := t) c
  have hi : (s.setExitCode t c).view.Inv := by
    rw [hv]
    refine h.setCode ?_ c
    rw [hpl]
    rfl
  have hplace : (s.setExitCode t c).view.place t = .exit c (.checked b) := hpl
  refine v_inv hi ⟨?_, nofun, ?_, ?_, ?_, nofun, ?_, nofun, nofun⟩ ⟨rfl, ?_⟩ ?_ nofun
  · rw [hplace]
    exact nofun
  · rw [hplace]
    exact nofun
  · rw [hplace]
    exact nofun
  · rw [hplace]
    exact nofun
  · rintro _ ⟨⟩
    rw [hv, View.setCode_exitcode]
  · rw [hv, (View.samePCBs_setCode c).parentID]
    rfl
  · rintro q ⟨⟩
    exact .inr ⟨rfl, rfl⟩

theorem remove_inv {bm : Bitmap} (h : s.view.Inv) (hpl : s.view.place t = .exit c .removing)
    (hbm : s.bm.clear (s.threads t).id = .ok bm) (hown : s.pcb (s.threads t).id = .obj t) :
    ((State.setPCB { s with bm, pcb := update s.pcb (s.threads t).id .null } t fun pcb =>
      { pcb with deleted := true }).v t .bmsem (.exit c .removed)).view.Inv := by
  obtain ⟨i, hi, hlt, rfl⟩ := Bitmap.clear_ok hbm
  obtain rfl : (s.threads t).id = i := Int.ofNat.inj hi
  have hv : (State.setPCB { s with
        bm := s.bm.unset (s.threads t).id
        pcb := update s.pcb (s.threads t).id .null } t fun pcb =>
          { pcb with deleted := true }).view = s.view.delete t (s.threads t).id := by
    rw [view_setPCB]
    refine View.ext rfl ?_ rfl rfl rfl rfl rfl rfl rfl
    exact funext (Bitmap.bit_unset hlt)
  obtain ⟨joins, exits, hgoto, hjoins, hexits⟩ := view_v _ t .bmsem (.exit c .removed)
  rw [hgoto]
  rw [hv] at hjoins hexits ⊢
  exact h.deleteAt hpl hown (fun q hq => (hjoins q hq).resolve_right nofun)
    fun q hq => (hexits q hq).resolve_right nofun

end

/-! ## Steps -/

theorem loading_moves (h : s.view.Inv) {n : Nat}
    (hpl : s.view.place t = .loading n ∨ s.view.place t = .copying n) :
    s.view.Moves t .user ∧ ∀ k, s.view.Moves t (.loading k) ∧ s.view.Moves t (.copying k) := by
  have key : ∀ pl : Place, pl ≠ .unborn → pl.code = none → pl.leaves = false → pl.reserves = none →
      pl.unforked = none → s.view.Moves t pl := by
    intro pl h1 h2 h3 h4 h5
    refine h.moves ⟨?_, h1, ?_, ?_, ?_, .inl h4, .inl h5⟩ fun hl => nomatch h3.symm.trans hl
    all_goals rcases hpl with hpl | hpl
    all_goals rw [hpl]
    · exact nofun
    · exact nofun
    · exact nofun
    · exact nofun
    · exact h2
    · exact h2
    · exact nofun
    · exact nofun
  exact ⟨key _ nofun rfl rfl rfl rfl, fun k =>
    ⟨key _ nofun rfl rfl rfl rfl, key _ nofun rfl rfl rfl rfl⟩⟩

theorem enters_inv {pl pl' : Place} (h : s.view.Inv) (hpl : s.view.place t = pl)
    (he : s.Enters t pl sem pl') : (s.p t sem pl').view.Inv := by
  have hk := h.knows t
  have hub : pl ≠ .unborn → t < s.next := fun hub => h.lt_next (hpl ▸ hub)
  rw [hpl] at hk
  cases he with
  | loading => exact p_inv h ((loading_moves h (.inl hpl)).2 _).2 trivial nofun
  | found => exact p_inv h (View.exec_moves h hpl _ (.inr rfl) (.inl rfl)) trivial nofun
  | created hq =>
    -- the parent it finds is the thread itself
    have hown := own_entry h hpl nofun nofun
    refine p_inv h (View.exec_moves h hpl _ (.inl rfl) (.inr rfl)) ⟨?_, hk⟩ nofun
    exact (Entry.obj.inj (hown.symm.trans hq)).symm
  | incNumWait | counted | opening =>
    exact p_inv h (View.exec_moves h hpl _ (.inl rfl) (.inr rfl)) hk nofun
  | @joinWait pID _ q hq =>
    obtain ⟨hnn, hq⟩ := entry_obj hq
    refine p_inv h (View.join_moves h hpl _) ⟨hk.1, ((h.entry_iff _ q).1 hq).1, ?_, nofun⟩ ?_
    · -- the child of the call is still there
      intro p hp hpar
      obtain ⟨hlt, hid⟩ := hk.1 p hp
      have hrel : ¬ (s.view.place t).released := by
        rw [hpl]
        exact nofun
      have he := h.entry_of_not_gone hlt (View.not_gone_of_parent h hpar hrel)
      rw [show (s.view.pcbs p).pID = pID.toNat by omega] at he
      exact Entry.obj.inj (hq.symm.trans he)
    · rintro _ ⟨⟩
      rfl
  | lockParent hne hq =>
    refine p_inv h (View.exit_moves h hpl _ (fun _ => rfl) rfl nofun nofun) ⟨hk.1, ?_⟩ nofun
    exact byParent_of_entry h (hub nofun) hk.2 hq
  | exitWait =>
    refine p_inv h (View.exit_moves h hpl _ (fun _ => rfl) rfl nofun nofun) ⟨hk.1, hk.2, nofun⟩ ?_
    rintro _ ⟨⟩
    rfl
  | leaveMain hid =>
    refine p_inv h (View.exit_moves h hpl _ (fun _ => rfl) rfl nofun fun _ => hid) (fun k hkp => ?_) nofun
    have := (h.parent t (hub nofun) k hkp).2
    have := hk.2
    omega
  | leave hid =>
    exact p_inv h (View.exit_moves h hpl _ (fun _ => rfl) rfl nofun fun _ => hid) hk.2 nofun
  | exited =>
    have hl : s.view.id t ≠ 0 := h.leaves t (by rw [hpl]; rfl)
    exact p_inv h (View.exit_moves h hpl _ (fun _ => rfl) rfl nofun fun _ => hl) hk nofun

theorem releases_inv {pl pl' : Place} (h : s.view.Inv) (hpl : s.view.place t = pl)
    (hw : s.view.waiting t = none) (hr : s.Releases t pl sem pl') : (s.v t sem pl').view.Inv := by
  have hk := h.knows t
  rw [hpl, hw] at hk
  cases hr with
  | copying => exact v_inv h ((loading_moves h (.inr hpl)).2 _).1 trivial nofun nofun
  | joinChecking => exact v_inv h (View.join_moves h hpl _) ⟨hk.1, trivial⟩ nofun nofun
  | checking => exact v_inv h (View.exit_moves h hpl _ nofun rfl nofun nofun) trivial nofun nofun
  | joinReleased =>
    refine v_inv h (View.exit_moves h hpl _ nofun rfl nofun nofun) hk nofun ?_
    rintro q ⟨⟩
    exact .inr ⟨hk.1, rfl⟩
  | lastChild =>
    exact v_inv h (View.exit_moves h hpl _ (fun _ => rfl) rfl nofun nofun) hk nofun nofun
  | accepted =>
    obtain ⟨hcur, hby, hrel⟩ := hk
    refine v_inv h (View.exit_moves h hpl _ (fun _ => rfl) rfl nofun nofun) ⟨hcur, fun k hkp => ?_⟩
      nofun ?_
    · rcases hby k hkp with rfl | hr
      · exact hrel rfl
      · exact hr
    · rintro q ⟨⟩
      exact .inl (hrel rfl)

theorem does_inv {pl : Place} (h : s.view.Inv) (hpl : s.view.place t = pl)
    (hw : s.view.waiting t = none) (hd : s.Does t pl s') : s'.view.Inv := by
  have hk := h.knows t
  rw [hpl, hw] at hk
  cases hd with
  | stop => exact h
  | p he => exact enters_inv h hpl he
  | v hr => exact releases_inv h hpl hw hr
  | loaded => exact goto_inv h (loading_moves h (.inl hpl)).1 trivial
  | find hf => exact finding_inv h hpl hf
  | refuse => exact exec_user_inv h hpl (-1) nofun nofun
  | create hne => exact newPCB_inv h hpl (if_neg hne)
  | count hc =>
    cases hc with
    | more | first =>
      exact addNumwait_inv h _ 1 (View.exec_moves h hpl _ (.inl rfl) (.inr rfl)) hk.2 nofun nofun
  | @allocate _ _ _ _ _ _ _ gPhysPageBitMap =>
    exact v_inv (s := { s with gPhysPageBitMap }) h (View.exec_moves h hpl _ (.inl rfl) (.inr rfl)) hk
      nofun nofun
  | fork => exact fork_inv h hpl rfl hk ..
  | forked => exact exec_user_inv h hpl _ nofun nofun
  | @joined _ _ q =>
    rw [view_writeResult]
    exact goto_inv (s := s.use (some q)) h (View.user_moves h hpl nofun rfl nofun) trivial
  | release hcur =>
    have hown := own_entry h hpl nofun nofun
    cases hown.symm.trans hcur
    exact joinRelease_inv h hpl
  | settle hs =>
    cases hs with
    | last | more =>
      exact addNumwait_inv h _ (-1) (View.exit_moves h hpl _ (fun _ => rfl) rfl nofun nofun) hk nofun
        nofun
  | remove hbm hcur =>
    have hown := own_entry h hpl nofun nofun
    cases hown.symm.trans hcur
    exact remove_inv h hpl hbm hown
  | @removed c =>
    have hm : s.view.Moves t (.finished c) := by
      refine h.moves ?_ fun _ => h.leaves t (by rw [hpl]; rfl)
      rw [hpl]
      exact ⟨nofun, nofun, fun _ => rfl, rfl, fun _ => rfl, .inl rfl, .inl rfl⟩
    exact goto_inv h hm hk

theorem enter_inv (h : s.view.Inv) (hpl : s.view.place t = .user) (hb : pl ≠ .unborn)
    (hc : pl.code = none) (hl : pl.leaves = false) (hr : pl.reserves = none) (hu : pl.unforked = none)
    (hg : pl.guarded = none) (hk : s.view.Knows t false pl) : (s.enter t .bmsem pl).view.Inv := by
  rw [view_enter]
  refine h.goto (h.moves ?_ fun hl' => nomatch hl.symm.trans hl') (fun _ => .inl) (fun _ => .inl)
    (fun _ _ _ hg' => nomatch hg.symm.trans hg') hk
  rw [hpl]
  exact ⟨nofun, hb, nofun, hc, nofun, .inl hr, .inl hu⟩

end State

open State

variable {s s' : State} {env : Env} {filename : Name}

theorem step_inv {choice : Choice} (h : s.view.Inv) (hs : step s choice = some s') : s'.view.Inv := by
  cases step_takes hs with
  | call hpl hb =>
    cases hb with
    | exec | execV | exit => exact enter_inv h hpl nofun rfl rfl rfl rfl rfl trivial
    | join =>
      refine enter_inv h hpl nofun rfl rfl rfl rfl rfl ⟨fun p hp => ?_, trivial⟩
      obtain ⟨hnn, hp⟩ := entry_obj hp
      obtain ⟨hlt, -, hid⟩ := (h.entry_iff _ p).1 hp
      exact ⟨hlt, by omega⟩
  | round hw => exact round_inv h hw
  | run hw hd => exact does_inv h rfl hw hd
  | refuse | destroy | destroyFails | outside => exact h

theorem runs_inv {C : State → Choice → Prop} (h : s.view.Inv) (hrun : Runs step C s s') :
    s'.view.Inv := hrun.invariant h fun _ _ _ hi _ hs => step_inv hi hs

theorem start_ok (hs : startMainThread env filename = .ok s) :
    ∃ bm gPhysPageBitMap space noffH, s = (initial env bm gPhysPageBitMap).fork 0 0 space noffH ∧
      bm.numBits = maxProcess ∧ bm.marked = {0} ∧ gPhysPageBitMap.numBits = numPhysPages := by
  unfold startMainThread at hs
  obtain ⟨bm, hbm, hs⟩ := bind_ok hs
  obtain ⟨frames, hframes, hs⟩ := bind_ok hs
  obtain ⟨b, hb, hbits, hmarked⟩ := Bitmap.new_eq (n := maxProcess) (by decide)
  cases hbm.symm.trans hb
  obtain ⟨f, hf, hfbits, -⟩ := Bitmap.new_eq (n := numPhysPages) (by decide)
  cases hframes.symm.trans hf
  split at hs
  · cases hs
  · obtain ⟨noffH, -, hs⟩ := bind_ok hs
    obtain ⟨⟨pageTable, frames'⟩, halloc, hs⟩ := bind_ok hs
    obtain ⟨bm', hmark, hs⟩ := bind_ok hs
    cases hs
    have h0 : 0 < bm.numBits := by
      rw [hbits]
      decide
    have hset : bm' = bm.set 0 := Except.ok.inj (hmark.symm.trans (Bitmap.mark_eq h0))
    subst hset
    have hA := AddrSpace.allocPages_spec _ _ (by rw [hfbits]; decide) halloc
    refine ⟨_, frames', _, noffH, rfl, hbits, ?_, hA.numBits.trans hfbits⟩
    rw [Bitmap.marked_set h0, hmarked]
    rfl

theorem start_inv (hs : startMainThread env filename = .ok s) : s.view.Inv := by
  obtain ⟨bm, frames, space, noffH, rfl, -, hmarked, -⟩ := start_ok hs
  have hbit : bm.bit 0 = true := by
    have : 0 ∈ bm.marked := by
      rw [hmarked]
      exact Finset.mem_singleton_self 0
    exact (Bitmap.mem_marked.1 this).2
  have h₀ : (initial env bm frames).view.Inv := by
    have hentry : ∀ i p, (initial env bm frames).view.entry i = .obj p → i = 0 ∧ p = 0 := by
      intro i p hi
      by_cases h0 : i = 0
      · subst h0
        cases hi
        exact ⟨rfl, rfl⟩
      · rw [show (initial env bm frames).view.entry i = if env.wild i then .wild else .null from
          if_neg h0] at hi
        split at hi <;> cases hi
    refine ⟨fun i p => ⟨fun hi => ?_, ?_⟩, fun i p hi => ?_, nofun, nofun, fun _ _ => rfl, nofun, nofun,
      fun _ _ => rfl, ⟨Nat.one_pos, rfl, rfl⟩, nofun, nofun, fun p hp => absurd rfl hp,
      fun p hp => absurd rfl hp, nofun, nofun, fun _ => trivial⟩
    · obtain ⟨rfl, rfl⟩ := hentry i p hi
      exact ⟨Nat.one_pos, rfl, rfl⟩
    · rintro ⟨hp, -, rfl⟩
      rw [Nat.lt_one_iff.1 hp]
      rfl
    · obtain ⟨rfl, rfl⟩ := hentry i p hi
      exact hbit
  rw [fork, view_setThread]
  exact h₀.born (p := 0) (i := 0) Nat.one_pos rfl rfl nofun _

def Reachable (env : Env) (filename : Name) (s : State) : Prop :=
  ∃ s0, startMainThread env filename = .ok s0 ∧ Runs step (fun _ _ => True) s0 s

theorem reachable_inv (h : Reachable env filename s) : s.view.Inv := by
  obtain ⟨s0, h0, hrun⟩ := h
  exact runs_inv (start_inv h0) hrun

end PTable

end Nachos
