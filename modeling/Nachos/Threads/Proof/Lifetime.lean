import Nachos.Threads.Proof.Waiting

/-!
# The lifetime of a PCB

A PCB is used by its own thread, by the thread that made it and by the threads it made. A PCB is deleted
by its own thread, behind the `ExitRelease` of its parent, so that the parent does not use it any more
(`alive_child`). The thread that made a PCB may be behind `Remove` while that process still uses its
PCB: nothing in `ExitUpdate` makes it wait for the end of its children's `DecNumWait` and `ExitWait`
(`used_after_deletion`). In the runs in which it does, and in which `JoinUpdate` is only called for
children, no PCB is used after its deletion (`lifetime_of_orderly`).
-/

namespace Nachos

open Base Function

namespace PTable

def Entry.pcb : Entry → Option Tid
  | .obj p => some p
  | .null | .wild => none

/-- In `JoinUpdate`, about to call `JoinWait`. -/
def Place.joins : Place → Option Int
  | .join pID _ (.checked true) => some pID
  | _ => none

def Place.removes : Place → Bool
  | .exit _ .removing => true
  | _ => false

namespace State

variable {s s' : State} {t u p q : Tid} {sem : Sem} {pl : Place}

def Alive (s : State) (p : Tid) : Prop := (s.pcbs p).deleted = false

def Bound (s : State) (t : Tid) : Place → Prop
  | .join _ _ (.joined q) => (s.pcbs q).parent = some t
  | .exit _ (.decNumWait _ par) | .exit _ (.lastChild _ par) | .exit _ (.counted _ par)
  | .exit _ (.accepted _ par) => (s.pcbs t).parent = some par
  | _ => True

structure Lives (s : State) : Prop where
  heirs : ∀ p < s.next, ∀ k, (s.pcbs p).parent = some k → s.Alive p → s.Alive k
  root : ∀ p < s.next, (s.pcbs p).parent = none → (s.pcbs p).parentID = -1
  bound : ∀ t, s.Bound t (s.threads t).place
  safe : s.freedUse = false

/-! ## Who is alive -/

theorem alive_self (hi : s.view.Inv) (hg : (s.threads t).place.gone = false) : s.Alive t := by
  by_contra hd
  have hgone := hi.deleted t (Bool.eq_true_of_not_eq_false hd)
  exact Bool.noConfusion (hg.symm.trans hgone)

theorem accepted_of_gone (hi : s.view.Inv) (hg : (s.view.place p).gone = true) : s.view.Accepted p := by
  have hk := hi.knows p
  cases hpl : s.view.place p with
  | exit c pc =>
    rw [hpl] at hg hk
    cases pc with
    | removed => exact hk
    | _ => cases hg
  | finished c =>
    rw [hpl] at hk
    exact hk
  | _ =>
    rw [hpl] at hg
    cases hg

theorem alive_child (hi : s.view.Inv) (hpar : (s.pcbs q).parent = some t)
    (hr : (s.threads t).place.released = false) : s.Alive q := by
  by_contra hd
  have hgone := hi.deleted q (Bool.eq_true_of_not_eq_false hd)
  have hrel := accepted_of_gone hi hgone t hpar
  exact Bool.noConfusion (hr.symm.trans hrel)

theorem entered_alive (hi : s.view.Inv) (h : s.Lives) (he : (s.threads t).place.entered t = some sem)
    (ho : sem.owner = some q) : s.Alive q := by
  have hk := hi.knows t
  have hb := h.bound t
  have hlt : s.view.place t ≠ .unborn → t < s.next := fun hub => hi.lt_next hub
  cases hpl : (s.threads t).place with
  | unborn | user | loading | finished =>
    rw [hpl] at he
    cases he
  | copying =>
    rw [hpl] at he
    cases he
    cases ho
  | exec filename argv pc =>
    rw [show s.view.place t = _ from hpl] at hk
    rw [hpl] at he
    have hself : s.Alive t := alive_self hi (by rw [hpl]; rfl)
    cases pc with
    | finding | creating | allocating =>
      cases he
      cases ho
    | incNumWait par p i | firstChild par p i =>
      cases he
      cases ho
      rw [hk.1]
      exact hself
    | opening p i =>
      cases he
      cases ho
      exact alive_child hi hk.2.1 (by rw [hpl]; rfl)
    | _ => cases he
  | join pID child pc =>
    rw [hpl] at he hb
    cases pc with
    | checking =>
      cases he
      cases ho
    | checked => cases he
    | joined q =>
      cases he
      cases ho
      exact alive_child hi hb (by rw [hpl]; rfl)
  | exit c pc =>
    rw [hpl] at he hb
    have hlt : t < s.next := hlt fun hub => nomatch hpl.symm.trans hub
    cases pc with
    | checking | removing =>
      cases he
      cases ho
    | decNumWait cur par | accepted cur par =>
      cases he
      cases ho
      exact h.heirs t hlt q hb (alive_self hi (by rw [hpl]; rfl))
    | exited =>
      cases he
      cases ho
      exact alive_self hi (by rw [hpl]; rfl)
    | _ => cases he

/-! ## The operations -/

theorem lives_setThread {f : Thread → Thread} (h : s.Lives) (hb : s.Bound t (f (s.threads t)).place) :
    (s.setThread t f).Lives := by
  refine ⟨h.heirs, h.root, ?_, h.safe⟩
  exact (forall_update_iff s.threads fun u thread => s.Bound u thread.place).2
    ⟨hb, fun u _ => h.bound u⟩

theorem lives_goto (h : s.Lives) (hb : s.Bound t pl) : (s.goto t pl).Lives := lives_setThread h hb

theorem bound_user : s.Bound t .user := trivial

theorem lives_writeResult (h : s.Lives) (r : Int) : (s.writeResult t r).Lives :=
  lives_setThread h (h.bound t)

theorem lives_use {o : Option Tid} (h : s.Lives) (ha : ∀ q, o = some q → s.Alive q) :
    (s.use o).Lives := by
  refine ⟨h.heirs, h.root, h.bound, ?_⟩
  unfold use
  dsimp only
  rw [h.safe, Bool.false_or]
  cases o with
  | none => rfl
  | some q => exact ha q rfl

theorem lives_setSem (h : s.Lives) (x : Semaphore Nat) : (s.setSem sem x).Lives :=
  ⟨h.heirs, h.root, h.bound, h.safe⟩

theorem lives_round (h : s.Lives) (ha : ∀ q, sem.owner = some q → s.Alive q) :
    (s.round t sem).Lives := by
  unfold round
  split
  · exact lives_setThread (lives_setSem (lives_use h ha) _) (h.bound t)
  · exact lives_setSem (lives_use h ha) _

theorem lives_p (h : s.Lives) (hb : s.Bound t pl) (ha : ∀ q, sem.owner = some q → s.Alive q) :
    (s.p t sem pl).Lives :=
  lives_round (s := s.enter t sem pl) (lives_setThread h hb) ha

theorem lives_v (h : s.Lives) (hb : s.Bound t pl) (ha : ∀ q, sem.owner = some q → s.Alive q) :
    (s.v t sem pl).Lives :=
  lives_goto (s := (s.use sem.owner).setSem sem _) (lives_setSem (lives_use h ha) _) hb

theorem setPCB_fields {f : PCB → PCB} (hpar : ∀ x, (f x).parent = x.parent)
    (hid : ∀ x, (f x).parentID = x.parentID) (hdel : ∀ x, (f x).deleted = x.deleted) (q : Tid) :
    ((s.setPCB p f).pcbs q).parent = (s.pcbs q).parent ∧
      ((s.setPCB p f).pcbs q).parentID = (s.pcbs q).parentID ∧
      ((s.setPCB p f).pcbs q).deleted = (s.pcbs q).deleted := by
  by_cases hq : q = p
  · subst hq
    simp only [setPCB, update_self, hpar, hid, hdel, and_self]
  · simp only [setPCB, update_of_ne hq, and_self]

theorem bound_congr (hpar : ∀ q, (s'.pcbs q).parent = (s.pcbs q).parent) (h : s.Bound t pl) :
    s'.Bound t pl := by
  unfold Bound at *
  split at h <;> simp_all

theorem lives_setPCB {f : PCB → PCB} (h : s.Lives) (hpar : ∀ x, (f x).parent = x.parent)
    (hid : ∀ x, (f x).parentID = x.parentID) (hdel : ∀ x, (f x).deleted = x.deleted) :
    (s.setPCB p f).Lives := by
  have hf := setPCB_fields (s := s) (p := p) hpar hid hdel
  refine ⟨fun q hq k hk ha => ?_, fun q hq hnone => ?_, fun u => ?_, h.safe⟩
  · unfold Alive at *
    rw [(hf k).2.2]
    rw [(hf q).1] at hk
    rw [(hf q).2.2] at ha
    exact h.heirs q hq k hk ha
  · rw [(hf q).2.1]
    rw [(hf q).1] at hnone
    exact h.root q hq hnone
  · exact bound_congr (fun q => (hf q).1) (h.bound u)

theorem bound_lt (hi : s.view.Inv) (u : Tid) {s' : State}
    (hpar : ∀ q < s.next, (s'.pcbs q).parent = (s.pcbs q).parent)
    (hb : s.Bound u (s.threads u).place) : s'.Bound u (s.threads u).place := by
  have hk := hi.knows u
  have hlt : (s.threads u).place ≠ .unborn → u < s.next := fun hub => hi.lt_next hub
  cases hpl : (s.threads u).place with
  | join pID child pc =>
    rw [show s.view.place u = _ from hpl] at hk
    rw [hpl] at hb
    cases pc with
    | joined q => exact (hpar q hk.2.1).trans hb
    | _ => trivial
  | exit c pc =>
    rw [hpl] at hb
    have hlt : u < s.next := hlt (by rw [hpl]; exact nofun)
    cases pc with
    | decNumWait | lastChild | counted | accepted => exact (hpar u hlt).trans hb
    | _ => trivial
  | _ => trivial

theorem lives_newPCB {filename : Name} {argv : List Name} {pc : ExecPc} {i : Nat} (h : s.Lives)
    (hi : s.view.Inv) (hpl : (s.threads t).place = .exec filename argv pc) :
    (s.newPCB t i argv).Lives := by
  have hlt : t < s.next := hi.lt_next fun hub => nomatch hpl.symm.trans hub
  have hold : ∀ q < s.next, (s.newPCB t i argv).pcbs q = s.pcbs q := fun q hq =>
    update_of_ne (Nat.ne_of_lt hq) ..
  have hnew : (s.newPCB t i argv).pcbs s.next =
      .new i t (s.threads t).id (s.uninit s.next) argv := update_self ..
  refine ⟨fun q hq k hk ha => ?_, fun q hq hnone => ?_, fun u => ?_, h.safe⟩
  · unfold Alive at *
    rcases Nat.lt_succ_iff_lt_or_eq.1 hq with hq | rfl
    · rw [hold q hq] at hk ha
      rw [hold k (hi.parent q hq k hk).1]
      exact h.heirs q hq k hk ha
    · rw [hnew] at hk
      cases hk
      rw [hold t hlt]
      exact alive_self hi (by rw [hpl]; rfl)
  · rcases Nat.lt_succ_iff_lt_or_eq.1 hq with hq | rfl
    · rw [hold q hq] at hnone ⊢
      exact h.root q hq hnone
    · rw [hnew] at hnone
      cases hnone
  · exact bound_lt hi u (fun q hq => by rw [hold q hq]) (h.bound u)

/-! ## The sections -/

theorem lives_stop (h : s.Lives) (reason : StopReason) : (s.stop reason).Lives :=
  ⟨h.heirs, h.root, h.bound, h.safe⟩

theorem addNumwait_lives (k : Int) (h : s.Lives) (ha : s.Alive p) (ho : sem.owner = some p)
    (hb : s.Bound t pl) : ((s.addNumwait p k).v t sem pl).Lives := by
  have hf := setPCB_fields (s := s) (p := p) (f := fun pcb => { pcb with numwait := pcb.numwait + k })
    (fun _ => rfl) (fun _ => rfl) fun _ => rfl
  refine lives_v (s := s.addNumwait p k) (lives_setPCB h (fun _ => rfl) (fun _ => rfl) fun _ => rfl)
    (bound_congr (fun q => (hf q).1) hb) fun q hq => ?_
  cases ho.symm.trans hq
  exact (hf p).2.2.trans ha

theorem lives_fork {i : Nat} {space : AddrSpace} {noffH : NoffHeader} (h : s.Lives) :
    (s.fork p i space noffH).Lives := by
  rw [fork]
  refine lives_setThread h ?_
  exact trivial

/-- What the next step of a thread has to find: `JoinWait` is called for a child, and the children of a
process that is removed have been removed. -/
def Orderly (s : State) (t : Tid) (pl : Place) : Prop :=
  (∀ pID ∈ pl.joins, ∀ q ∈ (s.entry pID).pcb, (s.pcbs q).parent = some t) ∧
    (pl.removes = true → ∀ p < s.next, (s.pcbs p).parent = some t → (s.pcbs p).deleted = true)

instance (s : State) (t : Tid) (pl : Place) : Decidable (s.Orderly t pl) :=
  inferInstanceAs (Decidable (_ ∧ _))

theorem parent_of_alive {par : Tid} (h : s.Lives) (hi : s.view.Inv) (hlt : t < s.next)
    (ha : s.Alive t) (hne : (s.pcbs t).parentID ≠ -1)
    (he : s.pcb (s.pcbs t).parentID.toNat = .obj par) :
    (s.pcbs t).parent = some par := by
  cases hpar : (s.pcbs t).parent with
  | none => exact absurd (h.root t hlt hpar) hne
  | some k =>
    obtain ⟨hk, hid⟩ := hi.parent t hlt k hpar
    have hentry := (hi.entry_iff (s.pcbs k).pID k).2 ⟨hk, h.heirs t hlt k hpar ha, rfl⟩
    rw [show (s.pcbs t).parentID = (s.pcbs k).pID from hid, Int.toNat_natCast] at he
    cases hentry.symm.trans he
    rfl

theorem joinRelease_lives {c : Int} (h : s.Lives) (ha : s.Alive t) (hb : s.Bound t pl) :
    ((s.setExitCode t c).v t (.joinsem t) pl).Lives := by
  have hf := setPCB_fields (s := s) (p := t) (f := fun pcb => { pcb with exitcode := c })
    (fun _ => rfl) (fun _ => rfl) fun _ => rfl
  refine lives_v (s := s.setExitCode t c) (lives_setPCB h (fun _ => rfl) (fun _ => rfl) fun _ => rfl)
    (bound_congr (fun q => (hf q).1) hb) ?_
  rintro _ ⟨⟩
  exact (hf t).2.2.trans ha

theorem lives_delete (h : s.Lives)
    (ho : ∀ p < s.next, (s.pcbs p).parent = some t → (s.pcbs p).deleted = true) :
    (s.setPCB t fun pcb => { pcb with deleted := true }).Lives := by
  have hne : ∀ q, q ≠ t → (s.setPCB t fun pcb => { pcb with deleted := true }).pcbs q = s.pcbs q :=
    fun q hq => update_of_ne hq ..
  have hself : (s.setPCB t fun pcb => { pcb with deleted := true }).pcbs t =
      { s.pcbs t with deleted := true } := update_self ..
  have hpar : ∀ q, ((s.setPCB t fun pcb => { pcb with deleted := true }).pcbs q).parent =
      (s.pcbs q).parent := by
    intro q
    by_cases hq : q = t
    · rw [hq, hself]
    · rw [hne q hq]
  refine ⟨fun q hq k hk ha => ?_, fun q hq hnone => ?_, fun u => ?_, h.safe⟩
  · rw [hpar] at hk
    unfold Alive at *
    have hqt : q ≠ t := by
      rintro rfl
      rw [hself] at ha
      cases ha
    rw [hne q hqt] at ha
    have hkt : k ≠ t := by
      rintro rfl
      exact Bool.noConfusion (ha.symm.trans (ho q hq hk))
    rw [hne k hkt]
    exact h.heirs q hq k hk ha
  · rw [hpar] at hnone
    have hroot := h.root q hq hnone
    by_cases hqt : q = t
    · subst hqt
      rw [hself]
      exact hroot
    · rw [hne q hqt]
      exact hroot
  · exact bound_congr hpar (h.bound u)

/-! ## Steps -/

theorem bound_parent {par : Tid} (h : s.Lives) (hlt : t < s.next) (ha : s.Alive t)
    (hb : (s.pcbs t).parent = some par) (ho : sem.owner = some par) (hq : sem.owner = some q) :
    s.Alive q := by
  cases ho.symm.trans hq
  exact h.heirs t hlt q hb ha

section

variable (h : s.Lives) (hi : s.view.Inv) (hpl : (s.threads t).place = pl)
include h hi hpl

theorem enters_lives {pl' : Place} (ho : s.Orderly t pl) (he : s.Enters t pl sem pl') :
    s.Bound t pl' ∧ ∀ q, sem.owner = some q → s.Alive q := by
  have hk : s.view.Knows t _ (s.threads t).place := hi.knows t
  have hb := h.bound t
  have hself : pl.gone = false → s.Alive t := fun hg => alive_self hi (hpl ▸ hg)
  have hlt : pl ≠ .unborn → t < s.next := fun hub =>
    hi.lt_next (t := t) (show (s.threads t).place ≠ .unborn from hpl ▸ hub)
  have hown : pl ≠ .unborn → ¬ pl.gone → s.pcb (s.threads t).id = .obj t := own_entry hi hpl
  rw [hpl] at hk hb
  cases he with
  | loading | found | opening | exited => exact ⟨trivial, nofun⟩
  | created hq =>
    refine ⟨trivial, ?_⟩
    cases (hown nofun nofun).symm.trans hq
    rintro _ ⟨⟩
    exact hself rfl
  | incNumWait | leaveMain | leave =>
    refine ⟨trivial, ?_⟩
    rintro _ ⟨⟩
    rw [hk.1]
    exact hself rfl
  | counted =>
    refine ⟨trivial, ?_⟩
    rintro _ ⟨⟩
    exact alive_child hi hk.2.1 (by rw [hpl]; rfl)
  | @joinWait pID _ q hq =>
    refine ⟨ho.1 pID rfl q (by rw [hq]; rfl), ?_⟩
    rintro _ ⟨⟩
    exact ((hi.entry_iff _ q).1 (entry_obj hq).2).2.1
  | lockParent hne hpar =>
    obtain ⟨rfl, rfl⟩ := hk
    have hparent := parent_of_alive h hi (hlt nofun) (hself rfl) hne hpar
    exact ⟨hparent, fun q => bound_parent h (hlt nofun) (hself rfl) hparent rfl⟩
  | exitWait => exact ⟨hb, fun q => bound_parent h (hlt nofun) (hself rfl) hb rfl⟩

theorem releases_lives {pl' : Place}
    (hr : s.Releases t pl sem pl') : s.Bound t pl' ∧ ∀ q, sem.owner = some q → s.Alive q := by
  have hk : s.view.Knows t _ (s.threads t).place := hi.knows t
  have hb := h.bound t
  have hself : pl.gone = false → s.Alive t := fun hg => alive_self hi (hpl ▸ hg)
  have hlt : pl ≠ .unborn → t < s.next := fun hub =>
    hi.lt_next (t := t) (show (s.threads t).place ≠ .unborn from hpl ▸ hub)
  rw [hpl] at hk hb
  cases hr with
  | copying | joinChecking | checking => exact ⟨trivial, nofun⟩
  | joinReleased =>
    refine ⟨trivial, ?_⟩
    rintro _ ⟨⟩
    rw [hk.1]
    exact hself rfl
  | lastChild => exact ⟨hb, fun q => bound_parent h (hlt nofun) (hself rfl) hb rfl⟩
  | accepted => exact ⟨trivial, fun q => bound_parent h (hlt nofun) (hself rfl) hb rfl⟩

theorem does_lives (ho : s.Orderly t pl) (hd : s.Does t pl s') : s'.Lives := by
  have hk : s.view.Knows t _ (s.threads t).place := hi.knows t
  have hb := h.bound t
  have hself : pl.gone = false → s.Alive t := fun hg => alive_self hi (hpl ▸ hg)
  have hown : pl ≠ .unborn → ¬ pl.gone → s.pcb (s.threads t).id = .obj t := own_entry hi hpl
  rw [hpl] at hk hb
  cases hd with
  | stop => exact lives_stop h _
  | p he =>
    obtain ⟨hb', ha⟩ := enters_lives h hi hpl ho he
    exact lives_p h hb' ha
  | v hr =>
    obtain ⟨hb', ha⟩ := releases_lives h hi hpl hr
    exact lives_v h hb' ha
  | loaded => exact lives_goto h trivial
  | @find _ _ _ bm =>
    exact lives_v (s := { s with bm }) ⟨h.heirs, h.root, h.bound, h.safe⟩ trivial nofun
  | refuse =>
    refine lives_writeResult (lives_v h bound_user ?_) _
    exact nofun
  | create => exact lives_v (lives_newPCB h hi hpl) trivial nofun
  | count hc =>
    cases hc with
    | more | first =>
      obtain ⟨rfl, -⟩ := hk
      exact addNumwait_lives 1 h (hself rfl) rfl trivial
  | @allocate _ _ _ _ _ _ _ gPhysPageBitMap =>
    exact lives_v (s := { s with gPhysPageBitMap }) ⟨h.heirs, h.root, h.bound, h.safe⟩ trivial nofun
  | fork => exact lives_goto (lives_fork h) trivial
  | forked =>
    refine lives_writeResult (lives_v h bound_user ?_) _
    rintro _ ⟨⟩
    exact alive_child hi hk.2.1 (by rw [hpl]; rfl)
  | joined =>
    refine lives_writeResult (lives_goto (lives_use h ?_) bound_user) _
    rintro _ ⟨⟩
    exact alive_child hi hb (by rw [hpl]; rfl)
  | release hcur =>
    cases (hown nofun nofun).symm.trans hcur
    exact joinRelease_lives h (hself rfl) trivial
  | settle hs =>
    have hpar := h.heirs t (hi.lt_next fun hub => nomatch hpl.symm.trans hub) _ hb (hself rfl)
    cases hs with
    | last | more => exact addNumwait_lives (-1) h hpar rfl hb
  | @remove c _ bm _ hcur =>
    cases (hown nofun nofun).symm.trans hcur
    refine lives_v (s := setPCB _ _ _) ?_ trivial nofun
    exact lives_delete (s := { s with bm, pcb := update s.pcb (s.threads t).id .null })
      ⟨h.heirs, h.root, h.bound, h.safe⟩ (ho.2 rfl)
  | @removed c =>
    have hgoto : (s.goto t (.finished c)).Lives := lives_goto h trivial
    exact ⟨hgoto.heirs, hgoto.root, hgoto.bound, hgoto.safe⟩

end

end State

open State

variable {s s' : State}

def Ordered (s : State) : Choice → Prop
  | .go t => (s.threads t).waiting = none → s.Orderly t (s.threads t).place
  | .call .. | .destroy | .outside .. => True

instance (s : State) : (choice : Choice) → Decidable (Ordered s choice)
  | .go t => inferInstanceAs (Decidable (_ → s.Orderly t _))
  | .call .. | .destroy | .outside .. => inferInstanceAs (Decidable True)

theorem step_lives {choice : Choice} (h : s.Lives) (hi : s.view.Inv) (hw : s.Waits)
    (ho : Ordered s choice) (hs : step s choice = some s') : s'.Lives := by
  cases step_takes hs with
  | call _ hb =>
    refine lives_setThread h ?_
    cases hb <;> trivial
  | @round t sem hwait => exact lives_round h fun q hq => entered_alive hi h (hw t sem hwait) hq
  | run hwait hd => exact does_lives h hi rfl (ho hwait) hd
  | refuse | destroy | destroyFails | outside => exact ⟨h.heirs, h.root, h.bound, h.safe⟩

theorem start_lives {env : Env} {filename : Name} (hs : startMainThread env filename = .ok s) :
    s.Lives := by
  obtain ⟨bm, frames, space, noffH, rfl, -⟩ := start_ok hs
  refine lives_fork ⟨fun q _ k hk => ?_, fun _ _ _ => rfl, fun _ => trivial, rfl⟩
  cases hk

/-- **The lifetime of a PCB.** In a run in which `JoinUpdate` is only called for children, and no process
is removed before the processes it made, no thread uses a deleted PCB, and none is still in a `P` on a
semaphore of one. -/
theorem lifetime_of_orderly {env : Env} {filename : Name} {s0 : State}
    (h0 : startMainThread env filename = .ok s0) (hrun : Runs step Ordered s0 s) :
    s.freedUse = false ∧ ∀ t sem, (s.threads t).waiting = some sem →
      ∀ p, sem.owner = some p → (s.pcbs p).deleted = false := by
  obtain ⟨hi, hw, h⟩ : s.view.Inv ∧ s.Waits ∧ s.Lives := by
    refine hrun.invariant (I := fun s => s.view.Inv ∧ s.Waits ∧ s.Lives)
      ⟨start_inv h0, start_waits h0, start_lives h0⟩ ?_
    rintro s choice s' ⟨hi, hw, h⟩ ho hs
    exact ⟨step_inv hi hs, step_waits hw hi hs, step_lives h hi hw ho hs⟩
  exact ⟨h.safe, fun t sem hwait p hp => entered_alive hi h (hw t sem hwait) hp⟩

/-- Main executes a program, which executes another one; both call `Exit` when main is behind its
`ExitRelease`. The first waits for the second in `PCB::Exit`. -/
def threeExits : List Choice :=
  steps 0 1 ++ .call 0 (.exec []) :: steps 0 12 ++ steps 1 1 ++ .call 1 (.exec []) :: steps 1 12 ++
    steps 2 1 ++ .call 0 (.exit 0) :: steps 0 4 ++ .call 1 (.exit 0) :: steps 1 10 ++
    .call 2 (.exit 0) :: steps 2 6

/-- The second leaves the table before the first. -/
theorem lifetime_threeExits : ∃ s0 s, startMainThread zeroEnv [] = .ok s0 ∧ Runs step Ordered s0 s ∧
    (s.pcbs 2).deleted = true ∧ (s.pcbs 1).deleted = true ∧ s.freedUse = false := by
  obtain ⟨s0, s, h0, hrun, h2, h1⟩ := exists_runs_of_ok (startMainThread zeroEnv []) step Ordered
    (threeExits ++ steps 2 6 ++ steps 1 3)
    (fun s => (s.pcbs 2).deleted = true ∧ (s.pcbs 1).deleted = true) (by decide +kernel)
  exact ⟨s0, s, h0, hrun, h2, h1, (lifetime_of_orderly h0 hrun).1⟩

/-- The second has woken the first and not left `DecNumWait`; the first removes itself. -/
theorem used_after_deletion : ∃ s0 s, startMainThread zeroEnv [] = .ok s0 ∧
    Runs step (fun _ _ => True) s0 s ∧ s.freedUse = true :=
  exists_runs_of_ok (startMainThread zeroEnv []) step (fun _ _ => True)
    (threeExits ++ steps 1 3 ++ steps 2 1) (fun s => s.freedUse = true) (by decide +kernel)

end PTable
end Nachos
