import Nachos.Threads.Proof.Failures
import Nachos.Threads.Proof.Slots

/-!
# A loop of `Exec` and `Join`

A process executes a program, waits for it, and does so again, as the shell does. The child calls `Exit`
and then waits in `ExitWait` until its parent exits: it keeps its slot and its frames. So a process can
do no more rounds than there are slots and frames (`rounds_iff`).
-/

namespace Nachos.PTable

open Base

/-! ## Rounds -/

/-- The thread makes the call, and runs until it is back in user code, asleep or finished. -/
def CallRuns (t : Tid) (c : Call) (s s' : State) : Prop :=
  ∃ s1, step s (.call t c) = some s1 ∧ RunsOut step (.go t) s1 s'

/-- The thread of a new process runs until it is in user code, and then calls `Exit`. -/
def ChildRuns (p : Tid) (exitCode : Int) (s s' : State) : Prop :=
  ∃ s1, RunsOut step (.go p) s s1 ∧ CallRuns p (.exit exitCode) s1 s'

/-- A program, what it calls `Exit` with, and whether its parent is in `Join` before it runs. -/
structure Round where
  filename : Name
  exitCode : Int
  joinFirst : Bool

/-- `Exec` returns the number of a new process, and `Join` of this number returns when the process has
called `Exit`. -/
def Round.Succeeds (r : Round) (t : Tid) (s s' : State) : Prop :=
  ∃ s1, CallRuns t (.exec r.filename) s s1 ∧ At s1 t .user ∧
    s1.entry (s1.threads t).result = .obj s.next ∧ At s' t .user ∧
    if r.joinFirst then
      ∃ s2 s3, CallRuns t (.join (s1.threads t).result) s1 s2 ∧ ChildRuns s.next r.exitCode s2 s3 ∧
        RunsOut step (.go t) s3 s'
    else
      ∃ s2, ChildRuns s.next r.exitCode s1 s2 ∧ CallRuns t (.join (s1.threads t).result) s2 s'

def RoundsSucceed (t : Tid) : List Round → State → State → Prop
  | [], s, s' => s' = s
  | r :: rounds, s, s' => ∃ s1, r.Succeeds t s s1 ∧ RoundsSucceed t rounds s1 s'

variable {s s' s1 s2 : State} {t u p : Tid} {sem : Sem} {pl pl' : Place} {r : Round}

/-! ## What a thread finds on its way -/

structure Books where
  bm : Bitmap
  gPhysPageBitMap : Bitmap
  numwait : Int
  next : Tid
  files : Name → Option OpenFile
  junk : Memory
  joinQueue : List Tid

def State.books (s : State) (t p : Tid) : Books where
  bm := s.bm
  gPhysPageBitMap := s.gPhysPageBitMap
  numwait := (s.pcbs t).numwait
  next := s.next
  files := s.files
  junk := s.junk
  joinQueue := (s.sems (.joinsem p)).queue

theorem books_put {x : Semaphore Nat} (h : sem = .joinsem p → x.queue = (s.sems sem).queue) :
    (s.put u sem x pl).books t p = s.books t p := by
  have hq : ((s.put u sem x pl).sems (.joinsem p)).queue = (s.sems (.joinsem p)).queue := by
    by_cases hsem : sem = .joinsem p
    · rw [← hsem, State.put_sems_self]
      exact h hsem
    · rw [State.put_sems_of_ne (Ne.symm hsem)]
  unfold State.books
  rw [hq]
  rfl

theorem books_v (h : sem ≠ .joinsem p) : (s.v u sem pl).books t p = s.books t p :=
  books_put fun hsem => absurd hsem h

structure Calm (t p : Tid) (s : State) (free : List Sem) (b : Books) : Prop where
  inv : s.view.Inv
  stopped : s.stopped = none
  destroyed : s.toBeDestroyed = none
  free : ∀ sem ∈ free, (s.sems sem).value ≠ 0
  idle : (s.sems .bmsem).queue = []
  books : s.books t p = b

structure Stage (t p : Tid) (s : State) (u : Tid) (pl : Place) (free : List Sem) (b : Books) : Prop
    extends Calm t p s free b where
  place : (s.threads u).place = pl
  waiting : (s.threads u).waiting = none

section stage

variable {free free' : List Sem} {b b' : Books} {j : Nat} {filename : Name}

theorem Stage.here (h : Stage t p s u pl free b) : At s u pl :=
  ⟨h.stopped, h.destroyed, h.place, h.waiting⟩

theorem Stage.mono (h : Stage t p s u pl free b) (free' : List Sem) (hf : ∀ sem ∈ free', sem ∈ free) :
    Stage t p s u pl free' b :=
  { h with free := fun sem hm => h.free sem (hf sem hm) }

theorem stage_put {x : Semaphore Nat} (hinv : (s.put u sem x pl').view.Inv) (hstop : s.stopped = none)
    (hd : s.toBeDestroyed = none)
    (hfree : ∀ y ∈ free, y = sem ∧ x.value ≠ 0 ∨ y ≠ sem ∧ (s.sems y).value ≠ 0)
    (hidle : (s.sems .bmsem).queue = []) (hx : sem = .bmsem → x.queue = [])
    (hb : (s.put u sem x pl').books t p = b) : Stage t p (s.put u sem x pl') u pl' free b where
  inv := hinv
  stopped := hstop
  destroyed := hd
  free y hy := by
    rcases hfree y hy with ⟨rfl, hvalue⟩ | ⟨hne, hvalue⟩
    · rw [State.put_sems_self]
      exact hvalue
    · rw [State.put_sems_of_ne hne]
      exact hvalue
  idle := by
    by_cases hsem : sem = .bmsem
    · rw [← hsem, State.put_sems_self]
      exact hx hsem
    · rw [State.put_sems_of_ne (Ne.symm hsem)]
      exact hidle
  books := hb
  place := (at_put hstop hd sem x pl').place
  waiting := (at_put hstop hd sem x pl').waiting

theorem stage_v (hinv : (s.v u sem pl').view.Inv) (hstop : s.stopped = none)
    (hd : s.toBeDestroyed = none)
    (hfree : ∀ sem ∈ free, (s.sems sem).value ≠ 0) (hidle : (s.sems .bmsem).queue = [])
    (hb : (s.v u sem pl').books t p = b) : Stage t p (s.v u sem pl') u pl' (sem :: free) b := by
  refine stage_put hinv hstop hd (fun y hy => ?_) hidle (fun hsem => ?_) hb
  · by_cases hyx : y = sem
    · exact .inl ⟨hyx, Nat.succ_ne_zero _⟩
    · exact .inr ⟨hyx, hfree y ((List.mem_cons.1 hy).resolve_left hyx)⟩
  · simp [hsem, Semaphore.v, hidle]

theorem Stage.v (h : Stage t p s u pl free b) {s1 : State} (free' : List Sem)
    (hrun : s.run u pl = some (s1.v u sem pl')) (hstop : s1.stopped = none)
    (hd : s1.toBeDestroyed = none) (hfree : ∀ sem ∈ free', (s1.sems sem).value ≠ 0)
    (hidle : (s1.sems .bmsem).queue = []) (hb : s1.books t p = b') (hj : sem ≠ .joinsem p) :
    ∃ s', step s (.go u) = some s' ∧ Stage t p s' u pl' (sem :: free') b' :=
  have hs := h.here.step_eq.trans hrun
  ⟨_, hs, stage_v (step_inv h.inv hs) hstop hd hfree hidle ((books_v hj).trans hb)⟩

theorem Stage.writeResult (h : Stage t p s u pl free b) (r : Int) :
    Stage t p (s.writeResult u r) u pl free b := by
  have hat := h.here.writeResult r
  refine ⟨⟨?_, h.stopped, h.destroyed, h.free, h.idle, h.books⟩, hat.place, hat.waiting⟩
  rw [State.view_writeResult]
  exact h.inv

theorem stage_pass (hinv : (s.put u sem (s.sems sem).decrement pl').view.Inv)
    (hstop : s.stopped = none) (hd : s.toBeDestroyed = none)
    (hf : ∀ y ∈ free', y ≠ sem ∧ (s.sems y).value ≠ 0)
    (hidle : (s.sems .bmsem).queue = []) (hb : s.books t p = b) :
    Stage t p (s.put u sem (s.sems sem).decrement pl') u pl' free' b := by
  refine stage_put hinv hstop hd (fun y hy => .inr (hf y hy)) hidle (fun hsem => ?_) ?_
  · rw [hsem]
    exact hidle
  · exact (books_put (x := (s.sems sem).decrement) fun _ => rfl).trans hb

theorem Stage.pass (h : Stage t p s u pl free b) (free' : List Sem)
    (hrun : s.run u pl = some (s.p u sem pl')) (hm : sem ∈ free)
    (hf : ∀ y ∈ free', y ≠ sem ∧ y ∈ free) :
    ∃ s', step s (.go u) = some s' ∧ Stage t p s' u pl' free' b := by
  have hs := h.here.step_eq.trans hrun
  rw [State.p_eq_put (h.free sem hm)] at hs
  exact ⟨_, hs, stage_pass (step_inv h.inv hs) h.stopped h.destroyed
    (fun y hy => (hf y hy).imp_right (h.free y)) h.idle h.books⟩

theorem Stage.call (h : Stage t p s u .user free b) (free' : List Sem) {c : Call}
    (hcall : s.call u c = some (s.enter u .bmsem pl')) (hm : .bmsem ∈ free)
    (hf : ∀ y ∈ free', y ≠ .bmsem ∧ y ∈ free) :
    ∃ s1 s2, step s (.call u c) = some s1 ∧ step s1 (.go u) = some s2 ∧
      Stage t p s2 u pl' free' b := by
  have h1 := (h.here.call_eq c).trans hcall
  have hw : ((s.enter u .bmsem pl').threads u).waiting = some .bmsem := by
    rw [State.enter, State.setThread_self]
  have hq : u ∉ ((s.enter u .bmsem pl').sems .bmsem).queue := by
    rw [show (s.enter u .bmsem pl').sems = s.sems from rfl, h.idle]
    exact List.not_mem_nil
  have h2 : step (s.enter u .bmsem pl') (.go u) = some ((s.enter u .bmsem pl').round u .bmsem) := by
    rw [step_go_eq (by exact h.stopped) (by exact h.destroyed), State.go, hw]
    exact if_neg hq
  rw [State.round_enter_eq_put (h.free .bmsem hm)] at h2
  exact ⟨_, _, h1, h2, stage_pass (step_inv (step_inv h.inv h1) h2) h.stopped h.destroyed
    (fun y hy => (hf y hy).imp_right (h.free y)) h.idle h.books⟩

/-! ## `ExecUpdate` -/

theorem newPCB_sems (hn : s.next = p) (y : Sem) :
    (s.newPCB t j []).sems y = if y.owner = some p then y.initial else s.sems y := by
  rw [← hn]
  rfl

theorem newPCB_free (hn : s.next = p) (hf : ∀ y ∈ free, y.owner ≠ some p ∧ (s.sems y).value ≠ 0) :
    ∀ y ∈ .multex p :: free, ((s.newPCB t j []).sems y).value ≠ 0 := by
  intro y hy
  rw [newPCB_sems hn]
  split
  · rename_i howner
    cases y with
    | multex | shouldExit => exact Nat.one_ne_zero
    | bmsem | addrLock => cases howner
    | joinsem | exitsem =>
      rcases List.mem_cons.1 hy with hy | hy
      · cases hy
      · exact absurd howner (hf _ hy).1
  · rename_i howner
    rcases List.mem_cons.1 hy with rfl | hy
    · exact absurd rfl howner
    · exact (hf y hy).2

theorem newPCB_books (hn : s.next = p) (htp : t ≠ p) :
    (s.newPCB t j []).books t p = { s.books t p with next := p + 1, joinQueue := [] } := by
  have hpcb : (s.newPCB t j []).pcbs t = s.pcbs t := by
    rw [← hn] at htp
    exact Function.update_of_ne htp ..
  have hq : ((s.newPCB t j []).sems (.joinsem p)).queue = [] := by
    rw [newPCB_sems hn]
    simp [Sem.owner, Sem.initial, Semaphore.new]
  unfold State.books
  rw [hpcb, hq, ← hn]
  rfl

theorem exec_creates (h : Stage t p s t (.exec filename [] .finding) free b) (hn : b.next = p)
    (hj : b.bm.findAndSet = .ok ((j : Int), b.bm.set j))
    (hf : ∀ y ∈ free, y ≠ .bmsem ∧ y.owner ≠ some p) :
    ∃ s', Repeats step (.go t) s s' ∧
      Stage t p s' t (.exec filename [] (.created p j)) (.bmsem :: .multex p :: free)
        { b with bm := b.bm.set j, next := p + 1, joinQueue := [] } := by
  obtain rfl := h.books
  have htp : t ≠ p := by
    have hub : s.view.place t ≠ .unborn := by
      rw [show s.view.place t = _ from h.here.place]
      simp
    exact Nat.ne_of_lt (hn ▸ h.inv.lt_next hub)
  -- `GetFreeSlot`
  have hrun : s.run t (.exec filename [] .finding) =
      some ({ s with bm := s.bm.set j }.v t .bmsem (.exec filename [] (.found j))) := by
    rw [State.run, State.execStep, State.getFreeSlot, show s.bm.findAndSet = _ from hj]
    rfl
  obtain ⟨s1, hs1, h1⟩ := h.v free hrun h.stopped h.destroyed
    h.free h.idle rfl (by simp)
  obtain ⟨s2, hs2, h2⟩ := h1.pass free rfl List.mem_cons_self fun y hy =>
    ⟨(hf y hy).1, List.mem_cons_of_mem _ hy⟩
  -- the PCB
  have hb2 := h2.books
  have hn2 : s2.next = p := (congrArg Books.next hb2).trans hn
  have hrun2 : s2.run t (.exec filename [] (.creating j)) =
      some ((s2.newPCB t j []).v t .bmsem (.exec filename [] (.created p j))) := by
    rw [State.run, State.execStep, State.create, if_neg (by omega), if_neg (by decide), hn2]
    rfl
  have hfree := newPCB_free (t := t) (j := j) hn2 fun y hy => ⟨(hf y hy).2, h2.free y hy⟩
  have hb3 : (s2.newPCB t j []).books t p =
      { s.books t p with bm := s.bm.set j, next := p + 1, joinQueue := [] } := by
    rw [newPCB_books hn2 htp, hb2]
    rfl
  obtain ⟨s3, hs3, h3⟩ := h2.v (.multex p :: free) hrun2 h2.stopped h2.destroyed hfree h2.idle hb3 (by simp)
  exact ⟨s3, .tail (.tail (.tail .refl hs1) hs2) hs3, h3⟩

theorem addNumwait_books (k : Int) :
    (s.addNumwait t k).books t p = { s.books t p with numwait := (s.books t p).numwait + k } := by
  unfold State.books State.addNumwait State.setPCB
  dsimp only
  rw [Function.update_self]

theorem Stage.countChild (h : Stage t p s t pl free b)
    (hrun : s.run t pl = some (s.countChild t t pl')) :
    ∃ s', step s (.go t) = some s' ∧
      Stage t p s' t pl' (.multex t :: free) { b with numwait := b.numwait + 1 } := by
  have hb : (s.addNumwait t 1).books t p = { b with numwait := b.numwait + 1 } := by
    rw [addNumwait_books, h.books]
  exact h.v free hrun h.stopped h.destroyed h.free h.idle hb
    nofun

theorem exec_counts (free' : List Sem)
    (h : Stage t p s t (.exec filename [] (.created p j)) free b) (ht : .multex t ∈ free)
    (hs : b.numwait = 0 → .shouldExit t ∈ free)
    (hf : ∀ y ∈ free', y = .multex t ∨ y ∈ free ∧ y ≠ .multex t ∧ y ≠ .shouldExit t) :
    ∃ s', Repeats step (.go t) s s' ∧
      Stage t p s' t (.exec filename [] (.counted p j)) free' { b with numwait := b.numwait + 1 } := by
  have hown : s.pcb (s.threads t).id = .obj t := State.own_entry h.inv h.here.place nofun nofun
  have hrun : s.run t (.exec filename [] (.created p j)) =
      some (s.p t (.multex t) (.exec filename [] (.incNumWait t p j))) := by
    rw [State.run, State.execStep, hown]
    rfl
  obtain ⟨s1, hs1, h1⟩ := h.pass (free.filter (· ≠ .multex t)) hrun ht fun y hy => by
    simpa [and_comm] using hy
  have hb1 : (s1.pcbs t).numwait = b.numwait := congrArg Books.numwait h1.books
  by_cases hzero : b.numwait = 0
  · have hrun1 : s1.run t (.exec filename [] (.incNumWait t p j)) =
        some (s1.p t (.shouldExit t) (.exec filename [] (.firstChild t p j))) := by
      rw [State.run, State.execStep, if_pos (hb1.trans hzero)]
    obtain ⟨s2, hs2, h2⟩ := h1.pass (free.filter fun y => y ≠ .multex t ∧ y ≠ .shouldExit t) hrun1
      (by simpa using hs hzero) fun y hy => by
        simp only [List.mem_filter, decide_eq_true_eq] at hy ⊢
        exact ⟨hy.2.2, hy.1, hy.2.1⟩
    obtain ⟨s3, hs3, h3⟩ := h2.countChild rfl
    refine ⟨s3, .tail (.tail (.tail .refl hs1) hs2) hs3, h3.mono free' fun y hy => ?_⟩
    simpa using hf y hy
  · have hrun1 : s1.run t (.exec filename [] (.incNumWait t p j)) =
        some (s1.countChild t t (.exec filename [] (.counted p j))) := by
      rw [State.run, State.execStep, if_neg fun h0 => hzero (hb1.symm.trans h0)]
    obtain ⟨s2, hs2, h2⟩ := h1.countChild hrun1
    refine ⟨s2, .tail (.tail .refl hs1) hs2, h2.mono free' fun y hy => ?_⟩
    have := hf y hy
    simp only [List.mem_cons, List.mem_filter, decide_eq_true_eq]
    tauto

variable {executable : OpenFile} {noffH : NoffHeader} {pageTable : List TranslationEntry}
    {gPhysPageBitMap : Bitmap}

theorem exec_allocates (htp : t ≠ p)
    (h : Stage t p s t (.exec filename [] (.counted p j)) [.bmsem, .addrLock, .multex t, .multex p] b)
    (hfile : b.files filename = some executable)
    (hheader : readHeader buildLinux b.junk executable = .ok noffH)
    (halloc : AddrSpace.allocPages b.gPhysPageBitMap 0 (AddrSpace.pagesFor noffH) =
      .ok (pageTable, gPhysPageBitMap)) :
    ∃ s', Repeats step (.go t) s s' ∧
      Stage t p s' t (.exec filename [] (.forking p j ⟨executable, pageTable⟩ noffH))
        [.addrLock, .bmsem, .multex t] { b with gPhysPageBitMap } := by
  obtain ⟨s1, hs1, h1⟩ := h.pass [.bmsem, .addrLock, .multex t] rfl (by simp) (by simp [htp])
  have hfile1 : s1.files filename = some executable :=
    (congrFun (congrArg Books.files h1.books) filename).trans hfile
  have hheader1 : readHeader buildLinux s1.junk executable = .ok noffH := by
    rw [show s1.junk = b.junk from congrArg Books.junk h1.books]
    exact hheader
  have hrun1 : s1.run t (.exec filename [] (.opening p j)) =
      some (s1.p t .addrLock (.exec filename [] (.allocating p j executable noffH))) := by
    rw [State.run, State.execStep, State.openExecutable, hfile1]
    dsimp only
    rw [hheader1]
  obtain ⟨s2, hs2, h2⟩ := h1.pass [.bmsem, .multex t] hrun1 (by simp) (by simp)
  have halloc2 : AddrSpace.allocPages s2.gPhysPageBitMap 0 (AddrSpace.pagesFor noffH) =
      .ok (pageTable, gPhysPageBitMap) := by
    rw [show s2.gPhysPageBitMap = b.gPhysPageBitMap from congrArg Books.gPhysPageBitMap h2.books]
    exact halloc
  have hrun2 : s2.run t (.exec filename [] (.allocating p j executable noffH)) =
      some ({ s2 with gPhysPageBitMap }.v t .addrLock
        (.exec filename [] (.forking p j ⟨executable, pageTable⟩ noffH))) := by
    rw [State.run, State.execStep]
    unfold State.allocate
    rw [halloc2]
  have hb2 : State.books { s2 with gPhysPageBitMap } t p = { b with gPhysPageBitMap } := by
    rw [← h2.books]
    rfl
  obtain ⟨s3, hs3, h3⟩ := h2.v [.bmsem, .multex t] hrun2
    h2.stopped h2.destroyed h2.free h2.idle hb2 (by simp)
  exact ⟨s3, .tail (.tail (.tail .refl hs1) hs2) hs3, h3⟩

structure Forked (s : State) (t p : Tid) (j : Nat) : Prop where
  child : s.view.Child t p j
  place : ∃ segments, (s.threads p).place = .loading segments
  waiting : (s.threads p).waiting = none

theorem exec_forks {space : AddrSpace} (htp : t ≠ p)
    (h : Stage t p s t (.exec filename [] (.forking p j space noffH)) free b)
    (hname : filename.length < 32) :
    ∃ s', Repeats step (.go t) s s' ∧ Stage t p s' t .user free b ∧ (s'.threads t).result = j ∧
      Forked s' t p j := by
  have hs1 : step s (.go t) =
      some ((s.fork p j space noffH).goto t (.exec filename [] (.forked p j))) := by
    rw [h.here.step_eq, State.run, State.execStep, if_pos (Nat.succ_le_of_lt hname)]
  have hinv1 := step_inv h.inv hs1
  have hp1 : ((s.fork p j space noffH).goto t (.exec filename [] (.forked p j))).threads p =
      (s.fork p j space noffH).threads p := State.goto_of_ne htp.symm
  have hat1 : At ((s.fork p j space noffH).goto t (.exec filename [] (.forked p j))) t
      (.exec filename [] (.forked p j)) := by
    refine ⟨h.here.stopped, h.here.destroyed, ?_, ?_⟩ <;> rw [State.goto, State.setThread_self]
  have hp : ∃ segments,
      (s.fork p j space noffH).threads p = ⟨j, .loading segments, none, some space, 0⟩ := by
    rw [State.fork, State.setThread_self]
    exact ⟨_, rfl⟩
  have hfree1 : ∀ sem ∈ free,
      (((s.fork p j space noffH).goto t (.exec filename [] (.forked p j))).sems sem).value ≠ 0 := h.free
  have hidle1 : (((s.fork p j space noffH).goto t (.exec filename [] (.forked p j))).sems
      .bmsem).queue = [] := h.idle
  have hb1 : ((s.fork p j space noffH).goto t (.exec filename [] (.forked p j))).books t p = b := h.books
  generalize (s.fork p j space noffH).goto t (.exec filename [] (.forked p j)) = s1 at *
  have hs2 : step s1 (.go t) = some ((s1.v t (.multex p) .user).writeResult t j) := hat1.step_eq
  have hinv2 : (s1.v t (.multex p) .user).view.Inv := by
    rw [← State.view_writeResult j]
    exact step_inv hinv1 hs2
  have hne : Sem.multex p ≠ .joinsem p := by simp
  have h2 := (stage_v hinv2 hat1.stopped hat1.destroyed hfree1 hidle1 ((books_v hne).trans hb1)).writeResult j
  have hp2 : ((s1.v t (.multex p) .user).writeResult t j).threads p = s1.threads p :=
    (State.writeResult_of_ne htp.symm _).trans (State.v_of_ne htp.symm)
  refine ⟨_, .tail (.tail .refl hs1) hs2, h2.mono free fun y => List.mem_cons_of_mem _, ?_, ?_⟩
  · rw [State.writeResult, State.setThread_self]
  · obtain ⟨segments, hp⟩ := hp
    rw [hp1.trans hp] at hp2
    have hk := hinv1.knows t
    rw [show s1.view.place t = _ from hat1.place] at hk
    exact ⟨hk, ⟨segments, congrArg Thread.place hp2⟩, congrArg Thread.waiting hp2⟩

/-- Process `t` is in user code, and no process is in the middle of a call. -/
structure Quiet (s : State) (t : Tid) : Prop where
  here : At s t .user
  bmsem : (s.sems .bmsem).value ≠ 0 ∧ (s.sems .bmsem).queue = []
  addrLock : (s.sems .addrLock).value ≠ 0
  multex : (s.sems (.multex t)).value ≠ 0
  shouldExit : (s.pcbs t).numwait = 0 → (s.sems (.shouldExit t)).value ≠ 0

theorem At.user_none (h : At s t .user) : step s (.go t) = none := h.step_eq

theorem exec_runs (hi : s.view.Inv) (hq : Quiet s t)
    (hj : s.bm.findAndSet = .ok ((j : Int), s.bm.set j)) (hfile : s.files filename = some executable)
    (hheader : readHeader buildLinux s.junk executable = .ok noffH)
    (halloc : AddrSpace.allocPages s.gPhysPageBitMap 0 (AddrSpace.pagesFor noffH) =
      .ok (pageTable, gPhysPageBitMap))
    (hname : filename.length < 32) :
    ∃ s', CallRuns t (.exec filename) s s' ∧ (s'.threads t).result = j ∧ Forked s' t s.next j ∧
      Stage t s.next s' t .user [.addrLock, .bmsem, .multex t]
        { s.books t s.next with
          bm := s.bm.set j
          next := s.next + 1
          joinQueue := []
          numwait := (s.pcbs t).numwait + 1
          gPhysPageBitMap } := by
  have hlt : t < s.next := by
    refine hi.lt_next ?_
    rw [show s.view.place t = _ from hq.here.place]
    exact nofun
  have htp := Nat.ne_of_lt hlt
  let free := Sem.addrLock :: .multex t :: if (s.pcbs t).numwait = 0 then [.shouldExit t] else []
  have hfree : ∀ y ∈ free, y ≠ .bmsem ∧ y.owner ≠ some s.next ∧ (s.sems y).value ≠ 0 := by
    intro y hy
    simp only [free, List.mem_cons] at hy
    rcases hy with rfl | rfl | hy
    · exact ⟨nofun, nofun, hq.addrLock⟩
    · exact ⟨nofun, fun h => htp (Option.some.inj h), hq.multex⟩
    · split at hy
      · rename_i hzero
        cases List.mem_singleton.1 hy
        exact ⟨nofun, fun h => htp (Option.some.inj h), hq.shouldExit hzero⟩
      · cases hy
  have h : Stage t s.next s t .user (.bmsem :: free) (s.books t s.next) := by
    refine ⟨⟨hi, hq.here.stopped, hq.here.destroyed, fun y hy => ?_, hq.bmsem.2, rfl⟩, hq.here.place,
      hq.here.waiting⟩
    rcases List.mem_cons.1 hy with rfl | hy
    · exact hq.bmsem.1
    · exact (hfree y hy).2.2
  have hcall : s.call t (.exec filename) = some (s.enter t .bmsem (.exec filename [] .finding)) := by
    unfold State.call
    rw [hq.here.place]
  obtain ⟨s1, s2, hs1, hs2, h2⟩ := h.call free hcall List.mem_cons_self fun y hy =>
    ⟨(hfree y hy).1, List.mem_cons_of_mem _ hy⟩
  obtain ⟨s3, hs3, h3⟩ := exec_creates h2 rfl hj fun y hy => ⟨(hfree y hy).1, (hfree y hy).2.1⟩
  obtain ⟨s4, hs4, h4⟩ := exec_counts [.bmsem, .addrLock, .multex t, .multex s.next] h3
    (by simp [free]) (fun hzero => by simp [free, show (s.pcbs t).numwait = 0 from hzero])
    (by simp [free, htp, Ne.symm htp])
  obtain ⟨s5, hs5, h5⟩ := exec_allocates htp h4 hfile hheader halloc
  obtain ⟨s6, hs6, h6, hresult, hforked⟩ := exec_forks htp h5 hname
  refine ⟨s6, ⟨s1, hs1, ?_, h6.here.user_none⟩, hresult, hforked, h6⟩
  exact .head hs2 (hs3.trans (hs4.trans (hs5.trans hs6)))

/-! ## The child -/

theorem kept_of_step {choice : Choice} (hs : step s choice = some s') (hi : s.view.Inv)
    (hub : s.view.place t ≠ .unborn) (hactor : choice.actor = some u) (htu : t ≠ u) :
    s'.view.Inv ∧ s'.threads t = s.threads t ∧ s.Grows s' := by
  have hne : choice.actor ≠ some t := by
    rw [hactor]
    exact fun h => htu (Option.some.inj h).symm
  exact ⟨step_inv hi hs, threads_of_ne hi hub hne hs, step_grows hs⟩

theorem kept_of_repeats (hi : s.view.Inv) (hub : s.view.place t ≠ .unborn) (htu : t ≠ u)
    (hrun : Repeats step (.go u) s s') : s'.view.Inv ∧ s'.threads t = s.threads t ∧ s.Grows s' := by
  refine hrun.invariant (I := fun s' => s'.view.Inv ∧ s'.threads t = s.threads t ∧ s.Grows s')
    ⟨hi, rfl, .refl s⟩ fun s1 s2 ⟨hi, ht, hg⟩ hs => ?_
  have hub1 : s1.view.place t ≠ .unborn := by
    rw [show s1.view.place t = s.view.place t from congrArg Thread.place ht]
    exact hub
  obtain ⟨hi2, ht2, hg2⟩ := kept_of_step hs hi hub1 rfl htu
  exact ⟨hi2, ht2.trans ht, hg.trans hg2⟩

theorem child_loads (ha : .addrLock ∈ free) : ∀ (segments : Nat) {s : State},
    Stage t p s p (.loading segments) free b →
      ∃ s', Repeats step (.go p) s s' ∧ Stage t p s' p .user free b
  | 0, s, h => by
    have hs : step s (.go p) = some (s.goto p .user) := h.here.step_eq
    refine ⟨_, .tail .refl hs, ⟨step_inv h.inv hs, h.stopped, h.destroyed, h.free, h.idle, h.books⟩, ?_, ?_⟩
      <;> rw [State.goto, State.setThread_self]
  | segments + 1, s, h => by
    obtain ⟨s1, hs1, h1⟩ := h.pass (free.filter (· ≠ .addrLock)) rfl ha fun y hy => by
      simpa [and_comm] using hy
    obtain ⟨s2, hs2, h2⟩ := h1.v _ rfl h1.stopped h1.destroyed h1.free h1.idle h1.books (by simp)
    have h2 : Stage t p s2 p (.loading segments) free b := h2.mono free fun y hy => by
      by_cases hya : y = .addrLock <;> simp [hy, hya]
    obtain ⟨s3, hs3, h3⟩ := child_loads ha segments h2
    exact ⟨s3, .head hs1 (.head hs2 hs3), h3⟩

theorem child_of_grows (hc : s.view.Child t p j) (hg : s.Grows s') : s'.view.Child t p j := by
  obtain ⟨hlt, hpar, hid⟩ := hc
  have hfixed := hg.fixed p hlt
  simp only [PCB.fixed, Prod.mk.injEq] at hfixed
  exact ⟨Nat.lt_of_lt_of_le hlt hg.next, hfixed.2.1.trans hpar, hfixed.2.2.trans hid⟩

theorem pID_of_grows (ht : t < s.next) (hg : s.Grows s') : (s'.pcbs t).pID = (s.pcbs t).pID := by
  have hfixed := hg.fixed t ht
  simp only [PCB.fixed, Prod.mk.injEq] at hfixed
  exact hfixed.2.2

theorem isExist_of_entry (hj : j < maxProcess) (h : s.pcb j = .obj p) :
    s.entry j = .obj p ∧ s.isExist j = true := by
  have hentry : s.entry j = .obj p := by
    unfold State.entry
    rw [if_pos (by omega), Int.toNat_natCast]
    exact h
  refine ⟨hentry, ?_⟩
  unfold State.isExist
  rw [hentry]
  rfl

theorem child_entry (hi : s.view.Inv) (hc : s.view.Child t p j)
    (hub : s.view.place p ≠ .unborn) (hg : ¬ (s.view.place p).gone) (hj : j < maxProcess) :
    s.pcb (s.threads p).id = .obj p ∧ s.isExist (s.threads p).id = true ∧
      (s.pcbs p).parentID = (s.pcbs t).pID := by
  have hown := State.own_entry hi rfl hub hg
  have hid : (s.threads p).id = j := (hi.id p hub).trans hc.2.2
  exact ⟨hown, (isExist_of_entry (by omega) hown).2, (hi.parent p hc.1 t hc.2.1).2⟩

theorem setExitCode_books (htp : t ≠ p) (c : Int) : (s.setExitCode p c).books t p = s.books t p := by
  unfold State.books State.setExitCode State.setPCB
  dsimp only
  rw [Function.update_of_ne htp]

theorem joinRelease_books {c : Int} (htp : t ≠ p) :
    ((s.setExitCode p c).v p (.joinsem p) pl).books t p =
      { s.books t p with joinQueue := (s.books t p).joinQueue.tail } := by
  have hq : ((s.setExitCode p c).v p (.joinsem p) pl).sems (.joinsem p) = (s.sems (.joinsem p)).v.1 :=
    State.put_sems_self _
  have hb := setExitCode_books (s := s) htp c
  rw [← hb]
  unfold State.books
  rw [hq]
  rfl

theorem exit_releases (c : Int) (htp : t ≠ p) (h : Stage t p s p .user (.bmsem :: free) b)
    (hc : s.view.Child t p j) (hj : j < maxProcess) (hf : ∀ y ∈ free, y ≠ .bmsem) :
    ∃ s1 s', step s (.call p (.exit c)) = some s1 ∧ Repeats step (.go p) s1 s' ∧
      Stage t p s' p (.exit c (.exitReleased p (s.pcbs t).pID))
        (.exitsem p :: .joinsem p :: .bmsem :: free) { b with joinQueue := b.joinQueue.tail } := by
  have hcall : s.call p (.exit c) = some (s.enter p .bmsem (.exit c .checking)) := by
    unfold State.call
    rw [h.place]
  obtain ⟨s1, s2, hs1, hs2, h2⟩ := h.call free hcall List.mem_cons_self fun y hy =>
    ⟨hf y hy, List.mem_cons_of_mem _ hy⟩
  have hg2 := (step_grows hs1).trans (step_grows hs2)
  have hc2 := child_of_grows hc hg2
  -- `IsExist`
  have hexist : s2.isExist (s2.threads p).id = true := by
    refine (child_entry h2.inv hc2 ?_ ?_ hj).2.1 <;> rw [show s2.view.place p = _ from h2.place] <;>
      rintro ⟨⟩
  have hrun2 : s2.run p (.exit c .checking) = some (s2.v p .bmsem (.exit c (.checked true))) := by
    rw [State.run, State.exitStep, hexist]
  obtain ⟨s3, hs3, h3⟩ := h2.v free hrun2 h2.stopped h2.destroyed h2.free h2.idle h2.books (by simp)
  have hg3 := hg2.trans (step_grows hs3)
  -- `SetExitCode` and `JoinRelease`
  obtain ⟨hown, -, hpar⟩ : s3.pcb (s3.threads p).id = .obj p ∧ s3.isExist (s3.threads p).id = true ∧
      (s3.pcbs p).parentID = (s3.pcbs t).pID := by
    refine child_entry h3.inv (child_of_grows hc hg3) ?_ ?_ hj <;>
      rw [show s3.view.place p = _ from h3.place] <;> rintro ⟨⟩
  rw [pID_of_grows (h.inv.parent p hc.1 t hc.2.1).1 hg3] at hpar
  have hs4 : step s3 (.go p) = some ((s3.setExitCode p c).v p (.joinsem p)
      (.exit c (.joinReleased p (s.pcbs t).pID))) := by
    rw [h3.here.step_eq, State.run, State.exitStep, if_pos rfl, hown, State.joinRelease, hpar]
  have h4 : Stage t p ((s3.setExitCode p c).v p (.joinsem p)
      (.exit c (.joinReleased p (s.pcbs t).pID))) p (.exit c (.joinReleased p (s.pcbs t).pID))
      (.joinsem p :: .bmsem :: free) { b with joinQueue := b.joinQueue.tail } := by
    refine stage_v (step_inv h3.inv hs4) h3.stopped h3.destroyed h3.free h3.idle ?_
    rw [joinRelease_books htp, h3.books]
  -- `ExitRelease`
  obtain ⟨s5, hs5, h5⟩ := h4.v _ rfl h4.stopped h4.destroyed h4.free h4.idle h4.books (by simp)
  exact ⟨s1, s5, hs1, .head hs2 (.head hs3 (.head hs4 (.head hs5 .refl))), h5⟩

theorem exit_counts {c : Int} {i : Nat} (h : Stage t p s p (.exit c (.exitReleased p i)) free b)
    (hown : s.pcb i = .obj t) (hm : .multex t ∈ free) :
    ∃ s' free', Repeats step (.go p) s s' ∧
      Stage t p s' p (.exit c (.counted p t)) free' { b with numwait := b.numwait + -1 } ∧
      (∀ y ∈ free, y ∈ free') ∧ (b.numwait + -1 = 0 → .shouldExit t ∈ free') := by
  have hrun : s.run p (.exit c (.exitReleased p i)) =
      some (s.p p (.multex t) (.exit c (.decNumWait p t))) := by
    rw [State.run, State.exitStep, if_neg (by omega), Int.toNat_natCast, hown]
    rfl
  obtain ⟨s1, hs1, h1⟩ := h.pass (free.filter (· ≠ .multex t)) hrun hm fun y hy => by
    simpa [and_comm] using hy
  have hb1 : (s1.pcbs t).numwait = b.numwait := congrArg Books.numwait h1.books
  have hb2 : (s1.addNumwait t (-1)).books t p = { b with numwait := b.numwait + -1 } := by
    rw [addNumwait_books, h1.books]
  have hsub : ∀ y ∈ free, y = .multex t ∨ y ∈ free.filter (· ≠ .multex t) := fun y hy => by
    by_cases hyt : y = .multex t <;> simp [hy, hyt]
  by_cases hzero : b.numwait + -1 = 0
  · have hrun1 : s1.run p (.exit c (.decNumWait p t)) =
        some ((s1.addNumwait t (-1)).v p (.shouldExit t) (.exit c (.lastChild p t))) := by
      rw [State.run, State.exitStep, if_pos (by rw [hb1]; exact hzero)]
    obtain ⟨s2, hs2, h2⟩ := h1.v _ hrun1 h1.stopped h1.destroyed h1.free h1.idle hb2 (by simp)
    obtain ⟨s3, hs3, h3⟩ := h2.v _ rfl h2.stopped h2.destroyed h2.free h2.idle h2.books (by simp)
    refine ⟨s3, _, .head hs1 (.head hs2 (.head hs3 .refl)), h3, fun y hy => ?_, fun _ => by simp⟩
    exact List.mem_cons.2 ((hsub y hy).imp_right (List.mem_cons_of_mem _))
  · have hrun1 : s1.run p (.exit c (.decNumWait p t)) =
        some ((s1.addNumwait t (-1)).v p (.multex t) (.exit c (.counted p t))) := by
      rw [State.run, State.exitStep, if_neg (by rw [hb1]; exact hzero)]
    obtain ⟨s2, hs2, h2⟩ := h1.v _ hrun1 h1.stopped h1.destroyed h1.free h1.idle hb2 (by simp)
    exact ⟨s2, _, .head hs1 (.head hs2 .refl), h2, fun y hy => List.mem_cons.2 (hsub y hy),
      fun h0 => absurd h0 hzero⟩

theorem Stage.wait (h : Stage t p s u pl free b) (hrun : s.run u pl = some (s.p u sem pl'))
    (hzero : (s.sems sem).value = 0) (hsem : sem ≠ .bmsem) :
    step s (.go u) = some (s.wait u sem pl') ∧ step (s.wait u sem pl') (.go u) = none ∧
      Calm t p (s.wait u sem pl') free ((s.wait u sem pl').books t p) := by
  have hs := h.here.step_eq.trans hrun
  rw [State.p_eq_wait hzero] at hs
  refine ⟨hs, ?_, step_inv h.inv hs, h.stopped, h.destroyed, fun y hy => ?_, ?_, rfl⟩
  · rw [step_go_eq (by exact h.stopped) (by exact h.destroyed)]
    exact State.wait_go
  · rw [State.wait_value]
    exact h.free y hy
  · rw [State.wait_sems_of_ne (Ne.symm hsem)]
    exact h.idle

theorem wait_books (h : sem ≠ .joinsem p) : (s.wait u sem pl).books t p = s.books t p := by
  unfold State.books
  rw [State.wait_sems_of_ne h.symm]
  rfl

theorem child_slot (hi : s.view.Inv) (hc : s.view.Child t p j)
    (hg : ¬ (s.view.place p).gone) : s.pcb j = .obj p := by
  have := hi.entry_of_not_gone hc.1 hg
  rwa [hc.2.2] at this

theorem child_runs (c : Int) (h : Calm t p s [.bmsem, .addrLock, .multex t] b)
    (hf : Forked s t p j) (hj : j < maxProcess) (htp : t ≠ p) (hub : s.view.place t ≠ .unborn)
    (hr : ¬ (s.view.place t).released) :
    ∃ s' free', ChildRuns p c s s' ∧ s'.threads t = s.threads t ∧ s'.view.Child t p j ∧
      s'.view.place p = .exit c (.accepted p t) ∧
      Calm t p s' free' { b with numwait := b.numwait + -1, joinQueue := b.joinQueue.tail } ∧
      (∀ y ∈ [.joinsem p, .bmsem, .addrLock, .multex t], y ∈ free') ∧
      (b.numwait + -1 = 0 → .shouldExit t ∈ free') := by
  obtain ⟨segments, hpl⟩ := hf.place
  have hunborn : ∀ {s1 : State}, s1.threads t = s.threads t → s1.view.place t ≠ .unborn := by
    intro s1 ht
    rw [show s1.view.place t = s.view.place t from congrArg Thread.place ht]
    exact hub
  have hreleased : ∀ {s1 : State}, s1.threads t = s.threads t → ¬ (s1.view.place t).released := by
    intro s1 ht
    rw [show s1.view.place t = s.view.place t from congrArg Thread.place ht]
    exact hr
  -- `processCreator`
  obtain ⟨s1, hs1, h1⟩ := child_loads (by simp) segments ⟨h, hpl, hf.waiting⟩
  obtain ⟨-, ht1, hg1⟩ := kept_of_repeats h.inv hub htp hs1
  -- `ExitUpdate`
  obtain ⟨s2, s3, hs2, hs3, h3⟩ := exit_releases c htp h1 (child_of_grows hf.child hg1) hj (by simp)
  obtain ⟨hi2, ht2, hg2⟩ := kept_of_step hs2 h1.inv (hunborn ht1) rfl htp
  obtain ⟨-, ht3, hg3⟩ := kept_of_repeats hi2 (hunborn (ht2.trans ht1)) htp hs3
  have ht3 := ht3.trans (ht2.trans ht1)
  -- the parent is still in the table
  have hown : s3.pcb (s1.pcbs t).pID = .obj t := by
    rw [← pID_of_grows (h1.inv.lt_next (hunborn ht1)) (hg2.trans hg3)]
    exact h3.inv.entry_of_not_gone (h3.inv.lt_next (hunborn ht3)) fun hgone =>
      hreleased ht3 (View.released_of_gone hgone)
  obtain ⟨s4, free', hs4, h4, hsub, hshould⟩ := exit_counts h3 hown (by simp)
  obtain ⟨-, ht4, hg4⟩ := kept_of_repeats h3.inv (hunborn ht3) htp hs4
  have ht4 := ht4.trans ht3
  -- and has not released its children
  have hzero : (s4.sems (.exitsem t)).value = 0 := by
    by_contra hne
    exact hreleased ht4 (h4.inv.exits t hne)
  have hrun : s4.run p (.exit c (.counted p t)) =
      some (s4.p p (.exitsem t) (.exit c (.accepted p t))) := rfl
  obtain ⟨hs5, hend, h5⟩ := h4.wait hrun hzero nofun
  have hsem : Sem.exitsem t ≠ .joinsem p := nofun
  rw [wait_books hsem, h4.books] at h5
  obtain ⟨-, ht5, hg5⟩ := kept_of_step hs5 h4.inv (hunborn ht4) rfl htp
  have hc5 := child_of_grows hf.child (hg1.trans (hg2.trans (hg3.trans (hg4.trans hg5))))
  have hpl5 : (s4.wait p (.exitsem t) (.exit c (.accepted p t))).view.place p = .exit c (.accepted p t) :=
    congrArg Thread.place State.wait_threads
  exact ⟨_, free', ⟨s1, ⟨hs1, h1.here.user_none⟩, s2, hs2, (hs3.trans hs4).tail hs5, hend⟩, ht5.trans ht4,
    hc5, hpl5, h5, fun y hy => hsub y (by simp at hy ⊢; tauto), hshould⟩

/-! ## `JoinUpdate` -/

theorem join_checks (h : Stage t p s t .user (.bmsem :: free) b) (hc : s.view.Child t p j)
    (hj : j < maxProcess) (htp : t ≠ p) (hub : s.view.place p ≠ .unborn)
    (hgone : ¬ (s.view.place p).gone) (hf : ∀ y ∈ free, y ≠ .bmsem) :
    ∃ s1 s' child, step s (.call t (.join j)) = some s1 ∧ Repeats step (.go t) s1 s' ∧
      s'.threads p = s.threads p ∧ s.Grows s' ∧
      Stage t p s' t (.join j child (.checked true)) (.bmsem :: free) b ∧
      s'.run t (.join j child (.checked true)) =
        some (s'.p t (.joinsem p) (.join j child (.joined p))) := by
  have hcall : s.call t (.join j) = some (s.enter t .bmsem (.join j (s.entry j) .checking)) := by
    unfold State.call
    rw [h.place]
  have hplace : ∀ {s1 : State}, s1.threads p = s.threads p → s1.view.place p = s.view.place p :=
    fun hp => congrArg Thread.place hp
  obtain ⟨s1, s2, hs1, hs2, h2⟩ := h.call free hcall List.mem_cons_self fun y hy =>
    ⟨hf y hy, List.mem_cons_of_mem _ hy⟩
  obtain ⟨hi1, hp1, hg1⟩ := kept_of_step hs1 h.inv hub rfl htp.symm
  obtain ⟨-, hp2, hg2⟩ := kept_of_step hs2 hi1 (by rw [hplace hp1]; exact hub) rfl htp.symm
  have hp2 := hp2.trans hp1
  have hslot2 := child_slot h2.inv (child_of_grows hc (hg1.trans hg2)) (by rw [hplace hp2]; exact hgone)
  have hrun2 : s2.run t (.join j (s.entry j) .checking) =
      some (s2.v t .bmsem (.join j (s.entry j) (.checked true))) := by
    rw [State.run, State.joinStep, (isExist_of_entry hj hslot2).2]
  obtain ⟨s3, hs3, h3⟩ := h2.v free hrun2 h2.stopped h2.destroyed h2.free h2.idle h2.books (by simp)
  obtain ⟨-, hp3, hg3⟩ := kept_of_step hs3 h2.inv (by rw [hplace hp2]; exact hub) rfl htp.symm
  have hp3 := hp3.trans hp2
  have hg := hg1.trans (hg2.trans hg3)
  have hslot3 := child_slot h3.inv (child_of_grows hc hg) (by rw [hplace hp3]; exact hgone)
  refine ⟨s1, s3, s.entry j, hs1, .head hs2 (.head hs3 .refl), hp3, hg, h3, ?_⟩
  rw [State.run, State.joinStep, if_pos rfl, (isExist_of_entry hj hslot3).1]
  rfl

theorem join_ends {pID : Int} {child : Entry} (h : Stage t p s t (.join pID child (.joined p)) free b) :
    ∃ s', step s (.go t) = some s' ∧ Stage t p s' t .user free b := by
  have hs : step s (.go t) =
      some (((s.use (some p)).goto t .user).writeResult t (s.pcbs p).exitcode) := h.here.step_eq
  have hinv : ((s.use (some p)).goto t .user).view.Inv := by
    rw [← State.view_writeResult (s.pcbs p).exitcode]
    exact step_inv h.inv hs
  have h1 : Stage t p ((s.use (some p)).goto t .user) t .user free b := by
    refine ⟨⟨hinv, h.stopped, h.destroyed, h.free, h.idle, h.books⟩, ?_, ?_⟩ <;>
      rw [State.goto, State.setThread_self]
  exact ⟨_, hs, h1.writeResult _⟩

theorem join_runs (h : Stage t p s t .user (.bmsem :: .joinsem p :: free) b)
    (hc : s.view.Child t p j) (hj : j < maxProcess) (htp : t ≠ p) (hub : s.view.place p ≠ .unborn)
    (hgone : ¬ (s.view.place p).gone) (hf : ∀ y ∈ free, y ≠ .bmsem ∧ y ≠ .joinsem p) :
    ∃ s', CallRuns t (.join j) s s' ∧ Stage t p s' t .user (.bmsem :: free) b := by
  obtain ⟨s1, s2, child, hs1, hs2, -, -, h2, hrun⟩ := join_checks h hc hj htp hub hgone fun y hy => by
    rcases List.mem_cons.1 hy with rfl | hy
    · exact nofun
    · exact (hf y hy).1
  obtain ⟨s3, hs3, h3⟩ := h2.pass (.bmsem :: free) hrun (by simp) fun y hy => by
    rcases List.mem_cons.1 hy with rfl | hy
    · exact ⟨nofun, List.mem_cons_self⟩
    · exact ⟨(hf y hy).2, by simp [hy]⟩
  obtain ⟨s4, hs4, h4⟩ := join_ends h3
  exact ⟨s4, ⟨s1, hs1, (hs2.tail hs3).tail hs4, h4.here.user_none⟩, h4⟩

theorem join_waits (h : Stage t p s t .user (.bmsem :: free) b) (hforked : Forked s t p j)
    (hj : j < maxProcess) (htp : t ≠ p) (hq : b.joinQueue = []) (hf : ∀ y ∈ free, y ≠ .bmsem) :
    ∃ s' child, CallRuns t (.join j) s s' ∧ Forked s' t p j ∧
      Calm t p s' (.bmsem :: free) { b with joinQueue := [t] } ∧
      (s'.threads t).place = .join j child (.joined p) ∧
      (s'.threads t).waiting = some (.joinsem p) := by
  obtain ⟨segments, hpl⟩ := hforked.place
  have hplace : s.view.place p = .loading segments := hpl
  obtain ⟨s1, s2, child, hs1, hs2, hp2, hg, h2, hrun⟩ :=
    join_checks h hforked.child hj htp (by rw [hplace]; nofun) (by rw [hplace]; nofun) hf
  have hzero : (s2.sems (.joinsem p)).value = 0 := by
    by_contra hne
    have := h2.inv.joins p hne
    rw [show s2.view.place p = _ from (congrArg Thread.place hp2).trans hpl] at this
    cases this
  obtain ⟨hs3, hend, h3⟩ := h2.wait hrun hzero nofun
  have hb3 : (s2.wait t (.joinsem p) (.join j child (.joined p))).books t p =
      { b with joinQueue := [t] } := by
    have hq2 : (s2.sems (.joinsem p)).queue = [] := (congrArg Books.joinQueue h2.books).trans hq
    rw [← h2.books]
    unfold State.books
    rw [State.wait_sems_self, Semaphore.append, hq2]
    rfl
  rw [hb3] at h3
  have hub2 : s2.view.place p ≠ .unborn := by
    rw [show s2.view.place p = _ from (congrArg Thread.place hp2).trans hpl]
    exact nofun
  obtain ⟨-, hp3, hg3⟩ := kept_of_step hs3 h2.inv hub2 rfl htp.symm
  have hp := hp3.trans hp2
  refine ⟨_, child, ⟨s1, hs1, hs2.tail hs3, hend⟩, ?_, h3, ?_, ?_⟩
  · exact ⟨child_of_grows hforked.child (hg.trans hg3),
      ⟨segments, (congrArg Thread.place hp).trans hpl⟩,
      (congrArg Thread.waiting hp).trans hforked.waiting⟩
  · rw [State.wait_threads]
  · rw [State.wait_threads]

theorem join_resumes {pID : Int} {child : Entry} (free' : List Sem) (h : Calm t p s free b)
    (hq : b.joinQueue = []) (hm : .joinsem p ∈ free) (hpl : (s.threads t).place = .join pID child (.joined p))
    (hw : (s.threads t).waiting = some (.joinsem p)) (hf : ∀ y ∈ free', y ≠ .joinsem p ∧ y ∈ free) :
    ∃ s', RunsOut step (.go t) s s' ∧ Stage t p s' t .user free' b := by
  have hq1 : t ∉ (s.sems (.joinsem p)).queue := by
    rw [show (s.sems (.joinsem p)).queue = [] from (congrArg Books.joinQueue h.books).trans hq]
    exact List.not_mem_nil
  have hs1 : step s (.go t) = some (s.round t (.joinsem p)) := by
    rw [step_go_eq h.stopped h.destroyed, State.go, hw]
    exact if_neg hq1
  rw [State.round_eq_put (h.free _ hm), hpl] at hs1
  have h1 := stage_pass (step_inv h.inv hs1) h.stopped h.destroyed
    (fun y hy => (hf y hy).imp_right (h.free y)) h.idle h.books
  obtain ⟨s2, hs2, h2⟩ := join_ends h1
  exact ⟨s2, .head hs1 (.head hs2 (.start h2.here.user_none)), h2⟩

/-! ## Whole rounds -/

theorem Stage.quiet (h : Stage t p s t .user free b)
    (hm : ∀ y ∈ [.bmsem, .addrLock, .multex t], y ∈ free) (hs : b.numwait = 0 → .shouldExit t ∈ free) :
    Quiet s t where
  here := h.here
  bmsem := ⟨h.free _ (hm _ (by simp)), h.idle⟩
  addrLock := h.free _ (hm _ (by simp))
  multex := h.free _ (hm _ (by simp))
  shouldExit hzero := h.free _ (hs ((congrArg Books.numwait h.books).symm.trans hzero))

/-- **A round succeeds** with a free slot, enough frames and a short name; it takes the slot and the
frames, and leaves the rest as it was. -/
theorem round_runs {r : Round} (hi : s.view.Inv) (hq : Quiet s t)
    (hj : s.bm.findAndSet = .ok ((j : Int), s.bm.set j)) (hlt : j < maxProcess)
    (hfile : s.files r.filename = some executable)
    (hheader : readHeader buildLinux s.junk executable = .ok noffH)
    (halloc : AddrSpace.allocPages s.gPhysPageBitMap 0 (AddrSpace.pagesFor noffH) =
      .ok (pageTable, gPhysPageBitMap))
    (hname : r.filename.length < 32) :
    ∃ s', r.Succeeds t s s' ∧ s'.view.Inv ∧ Quiet s' t ∧ s'.bm = s.bm.set j ∧
      s'.gPhysPageBitMap = gPhysPageBitMap ∧ s'.files = s.files ∧ s'.junk = s.junk := by
  have htp : t ≠ s.next := by
    refine Nat.ne_of_lt (hi.lt_next ?_)
    rw [show s.view.place t = _ from hq.here.place]
    exact nofun
  obtain ⟨s1, hs1, hresult, hforked, h₁⟩ := exec_runs hi hq hj hfile hheader halloc hname
  have hentry : s1.entry (s1.threads t).result = .obj s.next := by
    obtain ⟨segments, hpl⟩ := hforked.place
    have hslot := child_slot h₁.inv hforked.child (by
      rw [show s1.view.place s.next = _ from hpl]
      exact nofun)
    rw [hresult]
    exact (isExist_of_entry hlt hslot).1
  have h₁ := h₁.mono [.bmsem, .addrLock, .multex t] (by simp)
  have hcalm : ∀ {s' : State} {free : List Sem} {b : Books}, Calm t s.next s' free b →
      b.bm = s.bm.set j → b.gPhysPageBitMap = gPhysPageBitMap → b.files = s.files → b.junk = s.junk →
      s'.bm = s.bm.set j ∧ s'.gPhysPageBitMap = gPhysPageBitMap ∧ s'.files = s.files ∧
        s'.junk = s.junk := by
    rintro s' free b h h1 h2 h3 h4
    cases h.books
    exact ⟨h1, h2, h3, h4⟩
  unfold Round.Succeeds
  cases hfirst : r.joinFirst with
  | true =>
    obtain ⟨s2, child, hs2, hforked2, h₂, hpl2, hw2⟩ := join_waits h₁ hforked hlt htp rfl (by simp)
    obtain ⟨s3, free', hs3, ht3, -, -, h₃, hsub, hshould⟩ := child_runs r.exitCode h₂ hforked2 hlt htp
      (by rw [show s2.view.place t = _ from hpl2]; nofun)
      (by rw [show s2.view.place t = _ from hpl2]; nofun)
    rw [← ht3] at hpl2 hw2
    obtain ⟨s4, hs4, h₄⟩ := join_resumes (free'.filter (· ≠ .joinsem s.next)) h₃ rfl
      (hsub _ (by simp)) hpl2 hw2 (by simp [and_comm])
    have hq4 : Quiet s4 t := by
      refine h₄.quiet (fun y hy => ?_) fun h0 => by simpa using hshould h0
      simp only [List.mem_filter, decide_eq_true_eq]
      refine ⟨hsub y (List.mem_cons_of_mem _ hy), ?_⟩
      rintro rfl
      simp at hy
    refine ⟨s4, ⟨s1, hs1, h₁.here, hentry, h₄.here, ?_⟩, h₄.inv, hq4, hcalm h₄.toCalm rfl rfl rfl rfl⟩
    rw [if_pos rfl, hresult]
    exact ⟨s2, s3, hs2, hs3, hs4⟩
  | false =>
    obtain ⟨s2, free', hs2, ht2, hc2, hpl2, h₂, hsub, hshould⟩ := child_runs r.exitCode h₁.toCalm hforked
      hlt htp (by rw [show s1.view.place t = _ from h₁.place]; nofun)
      (by rw [show s1.view.place t = _ from h₁.place]; nofun)
    have hstage : Stage t s.next s2 t .user free' _ :=
      ⟨h₂, (congrArg Thread.place ht2).trans h₁.place, (congrArg Thread.waiting ht2).trans h₁.waiting⟩
    let rest := free'.filter fun y => y ≠ .bmsem ∧ y ≠ .joinsem s.next
    obtain ⟨s3, hs3, h₃⟩ := join_runs (hstage.mono (.bmsem :: .joinsem s.next :: rest) fun y hy => by
        simp only [List.mem_cons, rest, List.mem_filter] at hy
        rcases hy with rfl | rfl | hy
        · exact hsub _ (by simp)
        · exact hsub _ (by simp)
        · exact hy.1) hc2 hlt htp (by rw [hpl2]; nofun) (by rw [hpl2]; nofun) (by simp [rest])
    have hq3 : Quiet s3 t := by
      refine h₃.quiet (fun y hy => ?_) fun h0 => by simpa [rest] using hshould h0
      have := hsub y (List.mem_cons_of_mem _ hy)
      simp only [List.mem_cons, rest, List.mem_filter, decide_eq_true_eq]
      simp only [List.mem_cons, List.not_mem_nil, or_false] at hy
      rcases hy with rfl | rfl | rfl
      · exact .inl rfl
      · exact .inr ⟨this, nofun, nofun⟩
      · exact .inr ⟨this, nofun, nofun⟩
    refine ⟨s3, ⟨s1, hs1, h₁.here, hentry, h₃.here, ?_⟩, h₃.inv, hq3, hcalm h₃.toCalm rfl rfl rfl rfl⟩
    rw [if_neg (by simp), hresult]
    exact ⟨s2, hs2, hs3⟩

end stage

/-! ## What a round needs -/

theorem CallRuns.unique {c : Call} (h1 : CallRuns t c s s1) (h2 : CallRuns t c s s2) : s1 = s2 := by
  obtain ⟨a, ha, hrun1⟩ := h1
  obtain ⟨b, hb, hrun2⟩ := h2
  cases ha.symm.trans hb
  exact hrun1.unique hrun2

theorem ChildRuns.unique {c : Int} (h1 : ChildRuns p c s s1) (h2 : ChildRuns p c s s2) :
    s1 = s2 := by
  obtain ⟨a, ha, hcall1⟩ := h1
  obtain ⟨b, hb, hcall2⟩ := h2
  cases ha.unique hb
  exact hcall1.unique hcall2

theorem Round.Succeeds.unique (h1 : r.Succeeds t s s1) (h2 : r.Succeeds t s s2) : s1 = s2 := by
  obtain ⟨a, ha, -, -, -, hrest1⟩ := h1
  obtain ⟨b, hb, -, -, -, hrest2⟩ := h2
  cases ha.unique hb
  split at hrest1
  · rename_i hfirst
    rw [if_pos hfirst] at hrest2
    obtain ⟨x, y, hx, hy, hend⟩ := hrest1
    obtain ⟨x', y', hx', hy', hend'⟩ := hrest2
    cases hx.unique hx'
    cases hy.unique hy'
    exact hend.unique hend'
  · rename_i hfirst
    rw [if_neg hfirst] at hrest2
    obtain ⟨x, hx, hend⟩ := hrest1
    obtain ⟨x', hx', hend'⟩ := hrest2
    cases hx.unique hx'
    exact hend.unique hend'

theorem call_exec (filename : Name) (h : At s t .user) : step s (.call t (.exec filename)) =
    some (s.enter t .bmsem (.exec filename [] .finding)) := by
  rw [h.call_eq]
  unfold State.call
  rw [h.place]

theorem full_fails (hi : s.view.Inv) (hq : Quiet s t) (hfull : s.TableFull) :
    ¬ r.Succeeds t s s' := by
  rintro ⟨s1, hs1, -, hentry, -⟩
  have h : Stage t 0 s t .user [.bmsem] (s.books t 0) := by
    refine ⟨⟨hi, hq.here.stopped, hq.here.destroyed, ?_, hq.bmsem.2, rfl⟩, hq.here.place,
      hq.here.waiting⟩
    simpa using hq.bmsem.1
  have hcall := (hq.here.call_eq _).symm.trans (call_exec r.filename hq.here)
  obtain ⟨s2, s3, hs2, hs3, h3⟩ := h.call [] hcall (by simp) (by simp)
  have hfull3 : s3.TableFull := by
    unfold State.TableFull at hfull ⊢
    rw [show s3.bm = s.bm from congrArg Books.bm h3.books]
    exact hfull
  obtain ⟨s4, s5, hs4, hs5, hat, hresult, -⟩ := full_atomic (c := .exec r.filename) h3.here rfl hfull3
  have hrun : CallRuns t (.exec r.filename) s s5 :=
    ⟨s2, hs2, .head hs3 (.head hs4 hs5), hat.user_none⟩
  rw [hs1.unique hrun, hresult] at hentry
  cases hentry

theorem noProgram_fails (hq : Quiet s t) (hfull : ¬ s.TableFull)
    (hno : s.NoProgram r.filename) : ¬ r.Succeeds t s s' := by
  rintro ⟨s1, ⟨s0, hs0, hrun, -⟩, hat, -⟩
  cases (call_exec _ hq.here).symm.trans hs0
  have hd : ExecDoomed (s.enter t .bmsem (.exec r.filename [] .finding)) t r.filename [] := by
    refine .inr ⟨noProgram_congr rfl hno, .finding, ?_, hfull⟩
    rw [State.enter, State.setThread_self]
  rcases hrun.invariant hd fun _ _ h hs => step_doomed h hs with hstop | ⟨-, _, hpl, -⟩
  · exact hstop hat.stopped
  · cases hpl.symm.trans hat.place

namespace State

def Openable (s : State) (filename : Name) : Prop :=
  ∃ executable noffH, s.files filename = some executable ∧
    readHeader buildLinux s.junk executable = .ok noffH

def pagesOf (s : State) (filename : Name) : Nat :=
  match s.files filename with
  | none => 0
  | some executable =>
    match readHeader buildLinux s.junk executable with
    | .error _ => 0
    | .ok noffH => AddrSpace.pagesFor noffH

def freeSlots (s : State) : Nat := s.bm.numBits - s.bm.marked.card

def freeFrames (s : State) : Nat := s.gPhysPageBitMap.numBits - s.gPhysPageBitMap.marked.card

end State

theorem pagesOf_eq {filename : Name} {executable : OpenFile} {noffH : NoffHeader}
    (hfile : s.files filename = some executable)
    (hheader : readHeader buildLinux s.junk executable = .ok noffH) :
    s.pagesOf filename = AddrSpace.pagesFor noffH := by
  unfold State.pagesOf
  rw [hfile]
  dsimp only
  rw [hheader]

theorem freeSlots_full (hfull : s.TableFull) : s.freeSlots = 0 := by
  have hmarked : s.bm.marked = Finset.range s.bm.numBits := by
    ext k
    simp only [Bitmap.mem_marked, Finset.mem_range, and_iff_left_iff_imp]
    exact hfull k
  unfold State.freeSlots
  rw [hmarked, Finset.card_range, Nat.sub_self]

theorem card_set {b : Bitmap} {j : Nat} (hj : j < b.numBits) (hbit : b.bit j = false) :
    (b.set j).marked.card = b.marked.card + 1 ∧ b.marked.card + 1 ≤ b.numBits := by
  have hjm : j ∉ b.marked := by simp [Bitmap.mem_marked, hbit]
  have hcard : (b.set j).marked.card = b.marked.card + 1 := by
    rw [Bitmap.marked_set hj, Finset.card_insert_of_notMem hjm]
  have := Bitmap.card_marked_add_clear (b.set j)
  rw [Bitmap.numBits_set] at this
  exact ⟨hcard, by omega⟩

structure After (s s' : State) (t : Tid) (filename : Name) : Prop where
  inv : s'.view.Inv
  size : s'.bm.numBits = maxProcess
  quiet : Quiet s' t
  files : s'.files = s.files
  junk : s'.junk = s.junk
  freeSlots : s'.freeSlots = s.freeSlots - 1
  freeFrames : s'.freeFrames = s.freeFrames - s.pagesOf filename

theorem round_iff (hi : s.view.Inv) (hsize : s.bm.numBits = maxProcess) (hq : Quiet s t)
    (hopen : s.Openable r.filename) :
    ((∃ s', r.Succeeds t s s') ↔
      1 ≤ s.freeSlots ∧ s.pagesOf r.filename ≤ s.freeFrames ∧ r.filename.length < 32) ∧
    ∀ s', r.Succeeds t s s' → After s s' t r.filename := by
  obtain ⟨executable, noffH, hfile, hheader⟩ := hopen
  have hpages := pagesOf_eq hfile hheader
  rcases s.bm.findAndSet_cases with ⟨j, hj, hbit, -, hf⟩ | ⟨hfull, -⟩
  · obtain ⟨hcard, hle⟩ := card_set hj hbit
    have hnot : ¬ s.TableFull := fun hfull => nomatch hbit.symm.trans (hfull j hj)
    have hslots : 1 ≤ s.freeSlots := by
      unfold State.freeSlots
      omega
    by_cases hfit : s.pagesOf r.filename ≤ s.freeFrames ∧ r.filename.length < 32
    · rw [hpages] at hfit
      obtain ⟨⟨pageTable, frames⟩, halloc⟩ := (AddrSpace.allocPages_isOk _ 0 _).1.2 hfit.1
      obtain ⟨s1, hs1, hi1, hq1, hbm, hframes, hfiles, hjunk⟩ :=
        round_runs hi hq hf (hsize ▸ hj) hfile hheader halloc hfit.2
      refine ⟨⟨fun _ => ⟨hslots, hpages ▸ hfit⟩, fun _ => ⟨s1, hs1⟩⟩, fun s' hs' => ?_⟩
      cases hs1.unique hs'
      obtain ⟨hbits, hcard'⟩ := AddrSpace.allocPages_card _ _ halloc
      refine ⟨hi1, by rw [hbm]; exact hsize, hq1, hfiles, hjunk, ?_, ?_⟩
      · unfold State.freeSlots
        rw [hbm, Bitmap.numBits_set, hcard]
        omega
      · unfold State.freeFrames
        rw [hframes, hbits, hcard', hpages]
        omega
    · have hno : s.NoProgram r.filename := by
        rw [not_and_or, Nat.not_le, Nat.not_lt, hpages] at hfit
        exact .inr (hfit.imp_left fun hlt => ⟨executable, noffH, hfile, hheader, hlt⟩)
      have hfails : ∀ s', ¬ r.Succeeds t s s' := fun s' => noProgram_fails hq hnot hno
      exact ⟨⟨fun ⟨s', hs'⟩ => absurd hs' (hfails s'), fun h => absurd h.2 hfit⟩,
        fun s' hs' => absurd hs' (hfails s')⟩
  · have hfails : ∀ s', ¬ r.Succeeds t s s' := fun s' => full_fails hi hq hfull
    refine ⟨⟨fun ⟨s', hs'⟩ => absurd hs' (hfails s'), fun h => ?_⟩, fun s' hs' => absurd hs' (hfails s')⟩
    have := freeSlots_full hfull
    omega

theorem roundsSucceed_iff (rounds : List Round) (hi : s.view.Inv) (hsize : s.bm.numBits = maxProcess)
    (hq : Quiet s t) (hopen : ∀ r ∈ rounds, s.Openable r.filename) :
    (∃ s', RoundsSucceed t rounds s s') ↔
      rounds.length ≤ s.freeSlots ∧ (rounds.map fun r => s.pagesOf r.filename).sum ≤ s.freeFrames ∧
        ∀ r ∈ rounds, r.filename.length < 32 := by
  induction rounds generalizing s with
  | nil => simp [RoundsSucceed]
  | cons r rounds ih =>
    obtain ⟨hiff, hafter⟩ := round_iff hi hsize hq (hopen r List.mem_cons_self)
    -- the other programs are the same after this round
    have hrest : ∀ s1, r.Succeeds t s s1 → ((∃ s', RoundsSucceed t rounds s1 s') ↔
        rounds.length ≤ s.freeSlots - 1 ∧ (rounds.map fun r => s.pagesOf r.filename).sum ≤
          s.freeFrames - s.pagesOf r.filename ∧ ∀ r ∈ rounds, r.filename.length < 32) := by
      intro s1 hs1
      have h := hafter s1 hs1
      have hpages : ∀ filename, s1.pagesOf filename = s.pagesOf filename := by
        intro filename
        unfold State.pagesOf
        rw [h.files, h.junk]
      have hopen1 : ∀ r ∈ rounds, s1.Openable r.filename := by
        intro r hr
        unfold State.Openable
        rw [h.files, h.junk]
        exact hopen r (List.mem_cons_of_mem _ hr)
      rw [ih h.inv h.size h.quiet hopen1, h.freeSlots, h.freeFrames]
      simp only [hpages]
    rw [List.length_cons, List.map_cons, List.sum_cons, List.forall_mem_cons]
    constructor
    · rintro ⟨s', s1, hs1, hs'⟩
      obtain ⟨hslots, hframes, hname⟩ := hiff.1 ⟨s1, hs1⟩
      obtain ⟨hlen, hsum, hnames⟩ := (hrest s1 hs1).1 ⟨s', hs'⟩
      exact ⟨by omega, by omega, hname, hnames⟩
    · rintro ⟨hlen, hsum, hname, hnames⟩
      obtain ⟨s1, hs1⟩ := hiff.2 ⟨by omega, by omega, hname⟩
      obtain ⟨s', hs'⟩ := (hrest s1 hs1).2 ⟨by omega, by omega, hnames⟩
      exact ⟨s', s1, hs1, hs'⟩

theorem Slots.Step.size {x x' : Slots} (h : Slots.Step x x') : x'.size = x.size := by
  cases h <;> rfl

theorem reachable_size {env : Env} {main : Name} (h : Reachable env main s) :
    s.bm.numBits = maxProcess := by
  obtain ⟨s0, h0, hrun⟩ := h
  have := hrun.invariant (I := fun s => s.view.Inv ∧ s.slots.size = maxProcess) ⟨start_inv h0, ?_⟩
    fun s choice s' ⟨hi, hsize⟩ _ hs => ⟨step_inv hi hs, (step_slots hi hs).size.trans hsize⟩
  · exact this.2
  · obtain ⟨bm, frames, space, noffH, rfl, hbits, -⟩ := start_ok h0
    exact hbits

theorem openable_of_pagesOf {filename : Name} (h : s.pagesOf filename ≠ 0) : s.Openable filename := by
  unfold State.pagesOf at h
  split at h
  · exact absurd rfl h
  · rename_i executable hfile
    split at h
    · exact absurd rfl h
    · rename_i noffH hheader
      exact ⟨executable, noffH, hfile, hheader⟩

theorem main_loaded : ∃ h, Heap.Reachable zeroEnv [] h ∧ h.state.freedUse = false ∧ Quiet h.state 0 ∧
    h.state.freeSlots = 9 ∧ h.state.pagesOf [] = 8 ∧ h.state.freeFrames = 120 := by
  obtain ⟨h₀, h, h0, hrun, hf, ⟨hstop, hd, hpl, hw⟩, ⟨hbmsem, haddr, hmultex, hshould⟩, hnumbers⟩ :=
    exists_runs_of_ok (Heap.startMainThread zeroEnv []) Heap.step (fun _ _ => True)
      ((steps 0 1).map (·, none)) (fun ⟨s, _⟩ => s.freedUse = false ∧
        (s.stopped = none ∧ s.toBeDestroyed = none ∧ (s.threads 0).place = .user ∧
          (s.threads 0).waiting = none) ∧
        (((s.sems .bmsem).value ≠ 0 ∧ (s.sems .bmsem).queue = []) ∧ (s.sems .addrLock).value ≠ 0 ∧
          (s.sems (.multex 0)).value ≠ 0 ∧ (s.sems (.shouldExit 0)).value ≠ 0) ∧
        s.freeSlots = 9 ∧ s.pagesOf [] = 8 ∧ s.freeFrames = 120) (by decide +kernel)
  exact ⟨h, ⟨h₀, h0, hrun⟩, hf,
    ⟨⟨hstop, hd, hpl, hw⟩, hbmsem, haddr, hmultex, fun _ => hshould⟩, hnumbers⟩

/-- **Exec and Join in a loop.** From a state in which no deleted PCB has been used and no process is in
the middle of a call, the rounds of a process all succeed exactly when there are as many free slots as
rounds, as many free frames as all the programs need together, and no name is too long. -/
theorem rounds_iff {env : Env} {main : Name} {h : Heap} (hr : Heap.Reachable env main h)
    (hf : h.state.freedUse = false) (hq : Quiet h.state t) (rounds : List Round)
    (hopen : ∀ r ∈ rounds, h.state.Openable r.filename) :
    (∃ s', RoundsSucceed t rounds h.state s') ↔ rounds.length ≤ h.state.freeSlots ∧
      (rounds.map fun r => h.state.pagesOf r.filename).sum ≤ h.state.freeFrames ∧
        ∀ r ∈ rounds, r.filename.length < 32 :=
  roundsSucceed_iff rounds (reachable_inv (hr.state hf)) (reachable_size (hr.state hf)) hq hopen

theorem rounds_nine : ∃ h s', Heap.Reachable zeroEnv [] h ∧ Quiet h.state 0 ∧
    RoundsSucceed 0 (List.replicate 9 ⟨[], 0, true⟩) h.state s' := by
  obtain ⟨h, hr, hf, hq, hslots, hpages, hframes⟩ := main_loaded
  have hopen : ∀ r ∈ List.replicate 9 (⟨[], 0, true⟩ : Round), h.state.Openable r.filename := by
    intro r hr
    cases List.eq_of_mem_replicate hr
    exact openable_of_pagesOf (by rw [hpages]; decide)
  obtain ⟨s', hs'⟩ := (rounds_iff hr hf hq _ hopen).2 (by simp [hslots, hpages, hframes])
  exact ⟨h, s', hr, hq, hs'⟩

/-- The tenth round of main does not succeed, though its program fits into memory beside main. -/
theorem tenth_round_fails : ∃ h, Heap.Reachable zeroEnv [] h ∧ h.state.freedUse = false ∧
    Quiet h.state 0 ∧ h.state.Openable [] ∧ h.state.pagesOf [] ≤ h.state.freeFrames ∧
    (∃ s', RoundsSucceed 0 (List.replicate 9 ⟨[], 0, true⟩) h.state s') ∧
    ¬ ∃ s', RoundsSucceed 0 (List.replicate 10 ⟨[], 0, true⟩) h.state s' := by
  obtain ⟨h, hr, hf, hq, hslots, hpages, hframes⟩ := main_loaded
  have hopen : h.state.Openable [] := openable_of_pagesOf (by rw [hpages]; decide)
  have hopens : ∀ k, ∀ r ∈ List.replicate k (⟨[], 0, true⟩ : Round), h.state.Openable r.filename := by
    intro k r hr
    cases List.eq_of_mem_replicate hr
    exact hopen
  have hiff : ∀ k, _ := fun k => roundsSucceed_iff _ (reachable_inv (hr.state hf))
    (reachable_size (hr.state hf)) hq (hopens k)
  refine ⟨h, hr, hf, hq, hopen, by omega, (hiff 9).2 (by simp [hslots, hpages, hframes]), fun h => ?_⟩
  have := ((hiff 10).1 h).1
  rw [List.length_replicate] at this
  omega

end Nachos.PTable
