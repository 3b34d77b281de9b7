import Nachos.Threads.Proof.Interrupts

/-!
# Context switches and the user state

The machine has one set of user registers and one page table pointer. `Run` saves the registers of a
thread with an address space and sets both again when it returns. In between the thread that runs next
may have to delete another one (`CheckToBeDestroyed`), whose address space is given back under
`addrLock`, so that a thread can be switched out again before its registers are restored.

When that happens it goes no further: the deletion stays pending, and every thread that is switched to
runs into the same semaphore (`Stuck`). Until then (`Orderly`) a thread that is not running has its
registers saved, and the running one has its own page table set, if it is in a user program.
-/

namespace Nachos.Threads

open Base Function

/-! ## What a move leaves alone -/

structure Keeps (s s' : State) (t : Tid) : Prop where
  stack : s'.stack t = s.stack t
  mode : s'.mode t = s.mode t
  space : s.queues.status t ≠ .justCreated → s'.space t = s.space t
  userRegisters : s'.userRegisters t = s.userRegisters t
  created : s'.queues.status t = .justCreated → s.queues.status t = .justCreated

variable {s s' s1 : State} {code : List Frame} {t : Tid} {f : Frame} {out : Cpu}

theorem keeps_of (hstack : s'.stack = s.stack) (hmode : s'.mode = s.mode)
    (hspace : s'.space = s.space) (hregs : s'.userRegisters = s.userRegisters)
    (hcreated : s'.queues.status t = .justCreated → s.queues.status t = .justCreated) :
    Keeps s s' t :=
  ⟨by rw [hstack], by rw [hmode], fun _ => by rw [hspace], by rw [hregs], hcreated⟩

theorem Keeps.goto (h : Keeps s s1 t) (ht : t ≠ s1.currentThread) : Keeps s (s1.goto code) t where
  stack := (State.stack_goto_of_ne ht).trans h.stack
  mode := h.mode
  space := h.space
  userRegisters := h.userRegisters
  created := h.created

theorem Keeps.setMode (h : Keeps s s1 t) (ht : t ≠ s1.currentThread) {mode : Mode} :
    Keeps s (s1.setMode mode) t where
  stack := h.stack
  mode := (update_of_ne ht _ _).trans h.mode
  space := h.space
  userRegisters := h.userRegisters
  created := h.created

theorem saveUserState_of_ne (ht : t ≠ s.currentThread) :
    s.saveUserState.userRegisters t = s.userRegisters t := by
  unfold State.saveUserState
  cases s.space s.currentThread with
  | none => rfl
  | some space => exact update_of_ne ht _ _

theorem Keeps.switchTo (h : Keeps s s1 t) (ht : t ≠ s1.currentThread) {nextThread : Tid} {f : Bool} :
    Keeps s (s1.switchTo nextThread f code) t where
  stack := (update_of_ne ht _ _).trans h.stack
  mode := h.mode
  space := h.space
  userRegisters := (saveUserState_of_ne ht).trans h.userRegisters
  created hc := h.created (Queues.created_of_setStatus _ (by simp) hc)

theorem Keeps.tested (h : Keeps s s1 t) (ht : t ≠ s1.currentThread) {k : SemId}
    {oldLevel : IntStatus} : Keeps s (s1.tested k oldLevel code) t := by
  have hc {q : Queues} (hq : (q.setStatus s1.currentThread .blocked).status t = .justCreated) :
      q.status t = .justCreated := Queues.created_of_setStatus _ (by simp) hq
  unfold State.tested
  split
  · apply Keeps.goto _ (by exact ht)
    exact ⟨h.stack, h.mode, h.space, h.userRegisters, fun hq => h.created (hc hq)⟩
  · apply Keeps.goto _ (by exact ht)
    exact ⟨h.stack, h.mode, h.space, h.userRegisters, h.created⟩

theorem Keeps.yieldTo (h : Keeps s s1 t) (ht : t ≠ s1.currentThread) :
    Keeps s (s1.yieldTo code) t := by
  unfold State.yieldTo
  split
  · apply Keeps.goto _ (by exact ht)
    exact ⟨h.stack, h.mode, h.space, h.userRegisters, h.created⟩
  · apply Keeps.switchTo _ (by exact ht)
    exact ⟨h.stack, h.mode, h.space, h.userRegisters, fun hq =>
      h.created (Queues.created_of_makeReady (q := s1.queues.removeFront) hq)⟩

theorem keeps_interrupted (due : Option (List State.Action)) : Keeps s (s.interrupted due) t := by
  cases due with
  | none => exact keeps_of rfl rfl rfl rfl id
  | some actions => exact keeps_of rfl rfl rfl rfl Queues.created_of_acts

theorem move_keeps (hm : Move s s') (ht : t ≠ s.currentThread) : Keeps s s' t := by
  have hid : Keeps s s t := keeps_of rfl rfl rfl rfl id
  cases hm with
  | returned h | switched h | resumed h | begin h | noneDestroyed h hd => exact hid.goto ht
  | setLevel h | yielded h | restore h | destroyed h hd hs | deleted h | ownLevel h hm
  | instruction h hm => exact Keeps.goto (keeps_of rfl rfl rfl rfl id) ht
  | @oneTick code due h hy =>
    have hk : Keeps s (s.interrupted due) t := keeps_interrupted due
    cases due <;> exact Keeps.goto ⟨hk.stack, hk.mode, hk.space, hk.userRegisters, hk.created⟩ ht
  | @tickYield code due h hy =>
    have hk : Keeps s (s.interrupted due) t := keeps_interrupted due
    cases due <;>
      exact Keeps.yieldTo ⟨hk.stack, hk.mode, hk.space, hk.userRegisters, hk.created⟩ ht
  | slept h | destroy h hd hs | p h hm =>
    exact Keeps.tested (by exact keeps_of rfl rfl rfl rfl id) (by exact ht)
  | idle h hr => exact keeps_of rfl rfl rfl rfl Queues.created_of_acts
  | switch h hr => exact Keeps.switchTo (by exact keeps_of rfl rfl rfl rfl id) (by exact ht)
  | clearSpace h | v h hm => exact Keeps.goto (keeps_of rfl rfl rfl rfl Queues.created_of_post) ht
  | fork h hm hs => exact Keeps.goto (keeps_of rfl rfl rfl rfl Queues.created_of_makeReady) ht
  | yield h hm => exact hid.yieldTo ht
  | finish h hm =>
    exact Keeps.goto (keeps_of rfl rfl rfl rfl (Queues.created_of_setStatus _ (by simp))) ht
  | @setSpace u space h hm hs =>
    refine ⟨rfl, rfl, fun hc => ?_, rfl, id⟩
    have htu : t ≠ u := by
      rintro rfl
      exact hc hs
    exact update_of_ne htu _ _
  | writeRegisters h hm => exact keeps_of rfl rfl rfl rfl id
  | execute h hm =>
    exact ⟨rfl, update_of_ne ht _ _, fun _ => update_of_ne ht _ _, rfl, id⟩
  | raise h hm => exact Keeps.setMode (by exact keeps_of rfl rfl rfl rfl id) (by exact ht)
  | handled h hm =>
    apply Keeps.goto _ (by exact ht)
    exact Keeps.setMode (by exact keeps_of rfl rfl rfl rfl id) (by exact ht)

/-! ## Where the user state is -/

def Installed (space : Option Space) (cpu : Cpu) : Prop :=
  ∃ sp, space = some sp ∧ cpu.pageTable = some sp.pageTable ∧ cpu.pageTableSize = sp.numPages

structure Saved (s : State) (t : Tid) (out : Cpu) : Prop where
  registers : s.space t ≠ none → s.userRegisters t = out.registers
  installed : s.mode t ≠ .kernel → Installed (s.space t) out

def Frame.isSlept : Frame → Bool
  | .slept _ _ => true
  | _ => false

def Frame.isPlain : Frame → Bool
  | .returned _ | .setLevel _ | .oneTick | .yielded _ | .slept _ _ | .sleeping _ => true
  | _ => false

structure Clean (code : List Frame) : Prop where
  plain : ∀ f ∈ code, f.isPlain = true
  once : code.countP Frame.isSlept ≤ 1

theorem Clean.nil : Clean [] := ⟨by simp, by simp⟩

theorem Clean.tail (h : Clean (f :: code)) : Clean code where
  plain g hg := h.plain g (List.mem_cons_of_mem _ hg)
  once := (List.Sublist.countP_le (List.sublist_cons_self f code)).trans h.once

theorem Clean.head (h : Clean (f :: code)) : f.isPlain = true :=
  h.plain f List.mem_cons_self

theorem Clean.cons (h : Clean code) (hp : f.isPlain = true)
    (hs : f.isSlept = false) : Clean (f :: code) where
  plain := by simpa [hp] using h.plain
  once := by simpa [hs] using h.once

inductive Away (s : State) (t : Tid) : List Frame → Prop
  | switched {out : Cpu} {code : List Frame} : Clean code → Saved s t out →
      s.queues.status t ≠ .justCreated → Away s t (.switched out :: code)
  | begin : s.mode t = .kernel → Away s t [.begin]

inductive Unrestored (s : State) : List Frame → Prop
  | restore {out : Cpu} {code : List Frame} : Clean code → Saved s s.currentThread out →
      Unrestored s (.restore out :: code)
  | begin : s.mode s.currentThread = .kernel → Unrestored s [.setLevel .intOn]

inductive Destroying (rest : List Frame) : List Frame → Prop
  | check : Destroying rest (.checkToBeDestroyed :: rest)
  | entered : Destroying rest (.setLevel .intOff :: .returned .intOff :: .clearSpace :: rest)
  | locked : Destroying rest (.returned .intOff :: .clearSpace :: rest)
  | clear : Destroying rest (.clearSpace :: rest)
  | posted : Destroying rest (.setLevel .intOff :: .returned .intOff :: .deleted :: rest)
  | unlocked : Destroying rest (.returned .intOff :: .deleted :: rest)
  | deleted : Destroying rest (.deleted :: rest)

structure Back (s : State) (out : Cpu) : Prop where
  registers : s.space s.currentThread ≠ none → s.cpu.registers = out.registers
  installed : s.space s.currentThread ≠ none → Installed (s.space s.currentThread) s.cpu
  pageTable : s.mode s.currentThread ≠ .kernel →
    s.cpu.pageTable = out.pageTable ∧ s.cpu.pageTableSize = out.pageTableSize

inductive Here (s : State) : List Frame → Prop
  | own {code : List Frame} : Clean code →
      (s.mode s.currentThread ≠ .kernel → Installed (s.space s.currentThread) s.cpu) → Here s code
  | away {code : List Frame} : Away s s.currentThread code → Here s code
  | destroying {code rest : List Frame} : Destroying rest code → Unrestored s rest → Here s code
  | unrestored {code : List Frame} : Unrestored s code → Here s code
  | resumed {out : Cpu} {code : List Frame} : Clean code →
      (s.mode s.currentThread ≠ .kernel → Installed (s.space s.currentThread) s.cpu) →
      Back s out → Here s (.resumed out :: code)

structure Orderly (s : State) : Prop where
  current : Here s s.code
  others : ∀ t, t ≠ s.currentThread → Away s t (s.stack t)

inductive Trapped : List Frame → Prop
  | switched (out : Cpu) (code : List Frame) : Trapped (.switched out :: code)
  | begin (code : List Frame) : Trapped (.begin :: code)
  | check (code : List Frame) : Trapped (.checkToBeDestroyed :: code)
  | sleeping (code : List Frame) : Trapped (.sleeping false :: code)

structure Stuck (s : State) : Prop where
  pending : ∃ t, s.toBeDestroyed = some t ∧ s.space t ≠ none
  locked : (s.queues.sems .addrLock).value = 0
  trapped : Trapped s.code

/-! ## When a deletion has to wait -/

theorem act_addrLock (q : Queues) (a : State.Action) :
    (q.act a).sems .addrLock = q.sems .addrLock := by
  cases a with
  | v n =>
    unfold Queues.act Queues.post
    dsimp only
    split <;> simp [Queues.setSem, Queues.makeReady, Queues.setStatus]
  | yieldOnReturn => rfl

theorem acts_addrLock (q : Queues) (actions : List State.Action) :
    (actions.foldl Queues.act q).sems .addrLock = q.sems .addrLock := by
  induction actions generalizing q with
  | nil => rfl
  | cons a actions ih => exact (ih (q.act a)).trans (act_addrLock q a)

theorem Parked.trapped {mode : Mode} (h : Parked mode code) : Trapped code := by
  cases h with
  | switched out hf => exact .switched out _
  | begin => exact .begin []

theorem move_stuck (hi : Inv s) (h : Stuck s) (hm : Move s s') : Stuck s' := by
  obtain ⟨d, hd, hspace⟩ := h.pending
  have ht := h.trapped
  cases hm with
  | switched hc | begin hc =>
    refine ⟨⟨d, hd, hspace⟩, h.locked, ?_⟩
    rw [State.code_goto]
    exact .check _
  | noneDestroyed hc hn =>
    rw [hd] at hn
    cases hn
  | destroyed hc hn hs =>
    rw [hd] at hn
    cases hn
    exact absurd hs hspace
  | destroy hc hn hs =>
    have hv : ({ s with level := .intOff }.queues.sems .addrLock).value = 0 := h.locked
    unfold State.entered State.tested
    rw [if_pos hv]
    refine ⟨⟨d, hd, hspace⟩, ?_, ?_⟩
    · simpa [State.goto, Queues.setStatus, Queues.setSem, Sem.append] using hv
    · rw [State.code_goto]
      exact .sleeping _
  | idle hc hr =>
    refine ⟨⟨d, hd, hspace⟩, ?_, ht⟩
    exact (congrArg (·.value) (acts_addrLock s.queues _)).trans h.locked
  | @switch f code nextThread rest hc hr =>
    have hf : f = false := by
      rw [hc] at ht
      cases ht
      rfl
    subst hf
    obtain ⟨-, hl, hs, hfits⟩ := hi.asleep hc
    refine ⟨⟨d, hd, hspace⟩, h.locked, ?_⟩
    by_cases hn : nextThread = s.currentThread
    · subst hn
      show Trapped (update s.stack s.currentThread _ s.currentThread)
      rw [update_self]
      exact .switched _ _
    · show Trapped (update s.stack s.currentThread _ nextThread)
      rw [update_of_ne hn]
      exact (hi.parked nextThread hn).trapped
  | _ =>
    rw [‹s.code = _›] at ht
    cases ht

/-! ## Until then -/

theorem Away.keeps (h : Away s t code) (hk : Keeps s s' t) : Away s' t code := by
  cases h with
  | switched hc hs hst =>
    refine .switched hc ⟨?_, ?_⟩ fun hst' => hst (hk.created hst')
    · rw [hk.space hst, hk.userRegisters]
      exact hs.registers
    · rw [hk.space hst, hk.mode]
      exact hs.installed
  | begin hm => exact .begin (hk.mode.trans hm)

theorem others_of_keeps (h : ∀ t, t ≠ s.currentThread → Away s t (s.stack t))
    (hk : ∀ t, t ≠ s.currentThread → Keeps s s' t)
    (hcur : s'.currentThread = s.currentThread) :
    ∀ t, t ≠ s'.currentThread → Away s' t (s'.stack t) := by
  intro t ht
  rw [hcur] at ht
  rw [(hk t ht).stack]
  exact (h t ht).keeps (hk t ht)

theorem Orderly.of_move (ho : Orderly s) (hm : Move s s') (hcur : s'.currentThread = s.currentThread)
    (hh : Here s' s'.code) : Orderly s' :=
  ⟨hh, others_of_keeps ho.others (fun _ ht => move_keeps hm ht) hcur⟩

def State.InPlace (s : State) : Prop :=
  s.mode s.currentThread ≠ .kernel → Installed (s.space s.currentThread) s.cpu

theorem Clean.ticked {c : Prop} [Decidable c] (h : Clean code) :
    Clean (if c then .oneTick :: code else code) := by
  split
  · exact h.cons rfl rfl
  · exact h

theorem here_goto (hc : Clean code) (hin : s.InPlace) : Here (s.goto code) (s.goto code).code := by
  rw [State.code_goto]
  exact .own hc hin

theorem here_own (hc : s.code = []) (hin : s.InPlace) : Here s s.code := by
  rw [hc]
  exact .own .nil hin

theorem here_tested {k : SemId} {oldLevel : IntStatus} (hc : Clean (.slept k oldLevel :: code))
    (hin : s.InPlace) : Here (s.tested k oldLevel code) (s.tested k oldLevel code).code := by
  unfold State.tested
  split
  · exact here_goto (hc.cons rfl rfl) hin
  · exact here_goto (hc.tail.cons rfl rfl) hin

theorem State.tested_currentThread {k : SemId} {oldLevel : IntStatus} :
    (s.tested k oldLevel code).currentThread = s.currentThread := by
  unfold State.tested
  split <;> rfl

theorem orderly_switchTo (ho : ∀ t, t ≠ s.currentThread → Away s t (s.stack t)) (hc : Clean code)
    (hin : s.InPlace) (hst : s.queues.status s.currentThread ≠ .justCreated) (nextThread : Tid)
    (f : Bool) : Orderly (s.switchTo nextThread f code) := by
  have haway (t : Tid) : Away (s.switchTo nextThread f code) t
      ((s.switchTo nextThread f code).stack t) := by
    by_cases ht : t = s.currentThread
    · subst ht
      rw [show (s.switchTo nextThread f code).stack s.currentThread = .switched s.cpu :: code from
        update_self ..]
      refine .switched hc ⟨fun hs => ?_, hin⟩ fun hst' =>
        hst (Queues.created_of_setStatus _ (by simp) hst')
      show s.saveUserState.userRegisters s.currentThread = s.cpu.registers
      unfold State.saveUserState
      cases hsp : s.space s.currentThread with
      | none => exact absurd hsp hs
      | some space => exact update_self ..
    · have hk : Keeps s (s.switchTo nextThread f code) t :=
        Keeps.switchTo (keeps_of rfl rfl rfl rfl id) ht
      rw [hk.stack]
      exact (ho t ht).keeps hk
  exact ⟨.away (haway nextThread), fun t _ => haway t⟩

theorem orderly_yieldTo (ho : ∀ t, t ≠ s.currentThread → Away s t (s.stack t)) (hc : Clean code)
    (hin : s.InPlace) : Orderly (s.yieldTo code) := by
  have hc' : Clean (.setLevel s.level :: .returned s.level :: code) :=
    (hc.cons (f := .returned s.level) rfl rfl).cons rfl rfl
  unfold State.yieldTo
  split
  · refine ⟨here_goto hc' hin, others_of_keeps ho (fun _ ht => ?_) rfl⟩
    exact Keeps.goto (keeps_of rfl rfl rfl rfl id) ht
  · apply orderly_switchTo
    · refine others_of_keeps ho (fun _ _ => keeps_of rfl rfl rfl rfl ?_) rfl
      exact Queues.created_of_makeReady (q := s.queues.removeFront)
    · exact hc'
    · exact hin
    · simp [Queues.makeReady, Queues.setStatus]

theorem Here.of_clean (h : Here s code) (hd : ∀ rest, ¬ Destroying rest code)
    (hu : ¬ Unrestored s code) (ha : ¬ Away s s.currentThread code)
    (hr : ∀ out rest, code ≠ .resumed out :: rest) :
    Clean code ∧ (s.mode s.currentThread ≠ .kernel → Installed (s.space s.currentThread) s.cpu) := by
  cases h with
  | own hc hin => exact ⟨hc, hin⟩
  | away h => exact absurd h ha
  | destroying h _ => exact absurd h (hd _)
  | unrestored h => exact absurd h hu
  | resumed _ _ _ => exact absurd rfl (hr _ _)

theorem Here.of_switched (h : Here s (.switched out :: code)) :
    Clean code ∧ Saved s s.currentThread out := by
  cases h with
  | own hc _ => cases hc.head
  | away h =>
    cases h with
    | switched hc hs _ => exact ⟨hc, hs⟩
  | destroying h _ => cases h
  | unrestored h => cases h

theorem Here.of_begin (h : Here s (.begin :: code)) :
    code = [] ∧ s.mode s.currentThread = .kernel := by
  cases h with
  | own hc _ => cases hc.head
  | away h =>
    cases h with
    | begin hm => exact ⟨rfl, hm⟩
  | destroying h _ => cases h
  | unrestored h => cases h

theorem Here.of_restore (h : Here s (.restore out :: code)) :
    Clean code ∧ Saved s s.currentThread out := by
  cases h with
  | own hc _ => cases hc.head
  | away h => cases h
  | destroying h _ => cases h
  | unrestored h =>
    cases h with
    | restore hc hs => exact ⟨hc, hs⟩

theorem Here.of_resumed (h : Here s (.resumed out :: code)) :
    Clean code ∧ (s.mode s.currentThread ≠ .kernel → Installed (s.space s.currentThread) s.cpu) ∧
      Back s out := by
  cases h with
  | own hc _ => cases hc.head
  | away h => cases h
  | destroying h _ => cases h
  | unrestored h => cases h
  | resumed hc hin hb => exact ⟨hc, hin, hb⟩

theorem Here.of_destroying (h : Here s (f :: code))
    (hf : f = .checkToBeDestroyed ∨ f = .clearSpace ∨ f = .deleted) : Unrestored s code := by
  cases h with
  | own hc _ => rcases hf with rfl | rfl | rfl <;> cases hc.head
  | away h | unrestored h => rcases hf with rfl | rfl | rfl <;> cases h
  | destroying h hu =>
    cases h with
    | check => exact hu
    | clear => exact hu
    | deleted => exact hu
    | entered | locked | posted | unlocked => simp at hf
  | resumed _ _ _ => simp at hf

theorem Unrestored.of_eq (h : Unrestored s code) (hcur : s'.currentThread = s.currentThread)
    (hspace : s'.space = s.space) (hmode : s'.mode = s.mode)
    (hregs : s'.userRegisters = s.userRegisters) : Unrestored s' code := by
  cases h with
  | restore hc hs =>
    refine .restore hc ⟨?_, ?_⟩
    · rw [hspace, hregs, hcur]
      exact hs.registers
    · rw [hspace, hmode, hcur]
      exact hs.installed
  | begin hm => exact .begin (by rw [hmode, hcur]; exact hm)

theorem here_destroying {rest : List Frame} (hd : Destroying rest code) (hu : Unrestored s rest) :
    Here (s.goto code) (s.goto code).code := by
  rw [State.code_goto]
  exact .destroying hd (hu.of_eq rfl rfl rfl rfl)

theorem here_unrestored (hu : Unrestored s code) : Here (s.goto code) (s.goto code).code := by
  rw [State.code_goto]
  exact .unrestored (hu.of_eq rfl rfl rfl rfl)

theorem here_restored (hc : Clean code) (hs : Saved s s.currentThread out) :
    Here (s.restoreUserState.goto (.resumed out :: code))
      (s.restoreUserState.goto (.resumed out :: code)).code := by
  have hcpu {sp : Space} (hsp : s.space s.currentThread = some sp) :
      s.restoreUserState.cpu =
        ⟨s.userRegisters s.currentThread, some sp.pageTable, sp.numPages⟩ := by
    simp [State.restoreUserState, hsp]
  have hin (hne : s.space s.currentThread ≠ none) :
      Installed (s.space s.currentThread) s.restoreUserState.cpu := by
    obtain ⟨sp, hsp⟩ := Option.ne_none_iff_exists'.1 hne
    exact ⟨sp, hsp, by rw [hcpu hsp], by rw [hcpu hsp]⟩
  rw [State.code_goto]
  refine .resumed hc (fun hk => hin ?_) ⟨fun hne => ?_, hin, fun hk => ?_⟩
  · obtain ⟨sp, hsp, -⟩ := hs.installed hk
    rw [hsp]
    simp
  · obtain ⟨sp, hsp⟩ := Option.ne_none_iff_exists'.1 hne
    exact (congrArg Cpu.registers (hcpu hsp)).trans (hs.registers hne)
  · obtain ⟨sp, hsp, hpt, hsize⟩ := hs.installed hk
    exact ⟨(congrArg Cpu.pageTable (hcpu hsp)).trans hpt.symm,
      (congrArg Cpu.pageTableSize (hcpu hsp)).trans hsize.symm⟩

theorem own_orderly (hi : Inv s) (ho : Orderly s) (hc : s.code = []) (hm : Move s s') :
    Orderly s' := by
  have hh := ho.current
  rw [hc] at hh
  obtain ⟨-, hin⟩ := hh.of_clean nofun nofun nofun nofun
  have hstay := ho.of_move hm
  cases hm with
  | fork h hm hs | v h hm =>
    refine hstay rfl (here_goto ?_ hin)
    exact (Clean.nil.cons (f := .returned _) rfl rfl).cons rfl rfl
  | yield h hm => exact orderly_yieldTo ho.others .nil hin
  | p h hm =>
    refine hstay State.tested_currentThread (here_tested ?_ hin)
    exact ⟨by simp [Frame.isPlain], by simp [List.countP_cons, Frame.isSlept]⟩
  | finish h hm | instruction h hm => exact hstay rfl (here_goto (Clean.nil.cons rfl rfl) hin)
  | ownLevel h hm => exact hstay rfl (here_goto Clean.nil.ticked hin)
  | @setSpace t space h hm hs =>
    have hrun : s.queues.status s.currentThread = .running :=
      Queues.status_of_running (((hi.own hc).1.running _).2 rfl)
    have ht : s.currentThread ≠ t := by
      rintro rfl
      rw [hrun] at hs
      cases hs
    refine hstay rfl (here_own hc fun hk => ?_)
    dsimp only
    rw [update_of_ne ht]
    exact hin hk
  | writeRegisters h hm => exact hstay rfl (here_own hc hin)
  | @execute space h hm =>
    exact hstay rfl (here_own hc fun _ => ⟨space, update_self .., rfl, rfl⟩)
  | raise h hm => exact hstay rfl (here_own hc fun _ => hin (by simp [hm]))
  | handled h hm =>
    exact hstay rfl (here_goto (Clean.nil.cons rfl rfl) fun _ => hin (by simp [hm]))
  | _ =>
    rw [‹s.code = _›] at hc
    cases hc

/-- The code at the top of the current thread's stack leads to an orderly state, or the deletion of a
thread has to wait. -/
theorem move_orderly (hi : Inv s) (ho : Orderly s) (hm : Move s s') : Orderly s' ∨ Stuck s' := by
  have hh := ho.current
  have hm' := hm
  have hstay := ho.of_move hm
  cases hm with
  | returned hc =>
    rw [hc] at hh
    refine .inl (hstay rfl ?_)
    cases hh with
    | own hcl hin => exact here_goto hcl.tail hin
    | away ha => cases ha
    | destroying hd hu =>
      cases hd with
      | locked => exact here_destroying .clear hu
      | unlocked => exact here_destroying .deleted hu
    | unrestored hu => cases hu
  | setLevel hc =>
    rw [hc] at hh
    refine .inl (hstay rfl ?_)
    cases hh with
    | own hcl hin => exact here_goto hcl.tail.ticked hin
    | away ha => cases ha
    | destroying hd hu =>
      cases hd with
      | entered => exact here_destroying .locked (hu.of_eq rfl rfl rfl rfl)
      | posted => exact here_destroying .unlocked (hu.of_eq rfl rfl rfl rfl)
    | unrestored hu =>
      cases hu with
      | begin hk => exact here_goto Clean.nil.ticked fun hne => absurd hk hne
  | @oneTick code due hc hy =>
    rw [hc] at hh
    obtain ⟨hcl, hin⟩ := hh.of_clean nofun nofun nofun nofun
    refine .inl (hstay (State.interrupted_currentThread due) (here_goto hcl.tail ?_))
    cases due <;> exact hin
  | @tickYield code due hc hy =>
    rw [hc] at hh
    obtain ⟨hcl, hin⟩ := hh.of_clean nofun nofun nofun nofun
    refine .inl (orderly_yieldTo (others_of_keeps ho.others (fun t _ => ?_) ?_)
      (hcl.tail.cons rfl rfl) ?_)
    · have hk : Keeps s (s.interrupted due) t := keeps_interrupted due
      exact ⟨hk.stack, hk.mode, hk.space, hk.userRegisters, hk.created⟩
    · exact State.interrupted_currentThread due
    · cases due <;> exact hin
  | yielded hc =>
    rw [hc] at hh
    obtain ⟨hcl, hin⟩ := hh.of_clean nofun nofun nofun nofun
    exact .inl (hstay rfl (here_goto hcl.tail hin))
  | slept hc =>
    rw [hc] at hh
    obtain ⟨hcl, hin⟩ := hh.of_clean nofun nofun nofun nofun
    exact .inl (hstay State.tested_currentThread (here_tested hcl hin))
  | idle hc hr =>
    refine .inl (hstay rfl ?_)
    show Here _ s.code
    rw [hc] at hh ⊢
    obtain ⟨hcl, hin⟩ := hh.of_clean nofun nofun nofun nofun
    exact .own hcl hin
  | switch hc hr =>
    rw [hc] at hh
    obtain ⟨hcl, hin⟩ := hh.of_clean nofun nofun nofun nofun
    left
    apply orderly_switchTo
    · exact others_of_keeps ho.others (fun _ _ => keeps_of rfl rfl rfl rfl id) rfl
    · exact hcl.tail
    · exact hin
    · exact hi.forked
  | switched hc =>
    rw [hc] at hh
    obtain ⟨hcl, hs⟩ := hh.of_switched
    exact .inl (hstay rfl (here_destroying .check (.restore hcl hs)))
  | restore hc =>
    rw [hc] at hh
    obtain ⟨hcl, hs⟩ := hh.of_restore
    exact .inl (hstay rfl (here_restored hcl hs))
  | resumed hc =>
    rw [hc] at hh
    obtain ⟨hcl, hin, -⟩ := hh.of_resumed
    exact .inl (hstay rfl (here_goto hcl hin))
  | begin hc =>
    rw [hc] at hh
    obtain ⟨rfl, hk⟩ := hh.of_begin
    exact .inl (hstay rfl (here_destroying .check (.begin hk)))
  | noneDestroyed hc hd =>
    rw [hc] at hh
    exact .inl (hstay rfl (here_unrestored (hh.of_destroying (.inl rfl))))
  | destroyed hc hd hs =>
    rw [hc] at hh
    have hu := hh.of_destroying (.inl rfl)
    exact .inl (hstay rfl (here_unrestored (hu.of_eq rfl rfl rfl rfl)))
  | @destroy code d hc hd hs =>
    obtain ⟨-, hl, -⟩ := hi.top hc (by simp)
    rw [hc] at hh
    have hu := hh.of_destroying (.inl rfl)
    unfold State.entered State.tested at hstay ⊢
    split
    · rename_i hv
      refine .inr ⟨⟨d, hd, hs⟩, ?_, ?_⟩
      · simpa [State.goto, Queues.setStatus, Queues.setSem, Sem.append] using hv
      · rw [State.code_goto]
        exact .sleeping _
    · rename_i hv
      rw [if_neg hv] at hstay
      refine .inl (hstay rfl ?_)
      rw [hl]
      exact here_destroying .entered (hu.of_eq rfl rfl rfl rfl)
  | clearSpace hc =>
    obtain ⟨-, hl, -⟩ := hi.top hc (by simp)
    rw [hc] at hh
    have hu := hh.of_destroying (.inr (.inl rfl))
    refine .inl (hstay rfl ?_)
    unfold State.posted
    rw [hl]
    exact here_destroying .posted (hu.of_eq rfl rfl rfl rfl)
  | deleted hc =>
    rw [hc] at hh
    have hu := hh.of_destroying (.inr (.inr rfl))
    exact .inl (hstay rfl (here_unrestored (hu.of_eq rfl rfl rfl rfl)))
  | _ => exact .inl (own_orderly hi ho (by assumption) hm')

/-! ## Runs -/

theorem start_orderly (initial : SemId → Word) (cpu : Cpu) : Orderly (start initial cpu) where
  current := .own .nil fun h => absurd rfl h
  others t ht := by
    have hstack : (start initial cpu).stack t = [.begin] := by
      simp [start, show t ≠ 0 from ht]
    rw [hstack]
    exact .begin rfl

structure Tidy (s : State) : Prop where
  running : s.stopped = none → Orderly s ∨ Stuck s
  stopped : ∃ s0 reason, (Orderly s0 ∨ Stuck s0) ∧ s = { s0 with stopped := reason }

theorem Tidy.of_orderly (h : Orderly s ∨ Stuck s) : Tidy s :=
  ⟨fun _ => h, s, s.stopped, h, rfl⟩

theorem not_stopped_of_step {choice : Choice} (hs : step s choice = some s') :
    s.stopped = none := by
  unfold step at hs
  split at hs
  · cases hs
  · rename_i hn
    simpa using hn

theorem step_tidy {choice : Choice} (hi : Inv s) (h : Tidy s) (hs : step s choice = some s') :
    Tidy s' := by
  have hn := not_stopped_of_step hs
  rcases step_cases hi hs with hm | ⟨reason, rfl⟩
  · rcases h.running hn with ho | ho
    · exact .of_orderly (move_orderly hi ho hm)
    · exact .of_orderly (.inr (move_stuck hi ho hm))
  · exact ⟨nofun, s, _, h.running hn, rfl⟩

theorem reachable_tidy {initial : SemId → Word} {cpu : Cpu} (h : Reachable initial cpu s) :
    Tidy s := by
  have hboth : Inv s ∧ Tidy s := by
    apply Runs.invariant (I := fun s => Inv s ∧ Tidy s) h
    · exact ⟨start_inv initial cpu, .of_orderly (.inl (start_orderly initial cpu))⟩
    · intro s choice s' hi _ hs
      exact ⟨step_inv hi.1 hs, step_tidy hi.1 hi.2 hs⟩
  exact hboth.2

theorem back_of_reachable {initial : SemId → Word} {cpu : Cpu} (h : Reachable initial cpu s)
    (hc : s.code = .resumed out :: code) : Back s out := by
  obtain ⟨s0, reason, ho, rfl⟩ := (reachable_tidy h).stopped
  have hc0 : s0.code = .resumed out :: code := hc
  rcases ho with ho | ho
  · have hh := ho.current
    rw [hc0] at hh
    obtain ⟨-, -, hb⟩ := hh.of_resumed
    exact ⟨hb.registers, hb.installed, hb.pageTable⟩
  · have ht := ho.trapped
    rw [hc0] at ht
    cases ht

/-- **Context switches keep the user state.** When `Run` returns to a thread with an address space that
was switched out with the user state `out`, the registers are those of `out`, and the page table is
that of its space; it is the one of `out` too when the thread is in its user program, that is, has
come to `Execute`. And a user instruction is executed with status `UserMode` only. -/
theorem context_switch_transparent {initial : SemId → Word} {cpu : Cpu} {s : State}
    (h : Reachable initial cpu s) :
    (∀ out code space, s.code = .resumed out :: code → s.space s.currentThread = some space →
      s.cpu.registers = out.registers ∧
      s.cpu.pageTable = some space.pageTable ∧ s.cpu.pageTableSize = space.numPages ∧
      (s.mode s.currentThread ≠ .kernel →
        s.cpu.pageTable = out.pageTable ∧ s.cpu.pageTableSize = out.pageTableSize)) ∧
    (s.code = [] → s.mode s.currentThread = .user → s.status = .userMode) := by
  refine ⟨?_, ?_⟩
  · intro out code space hc hspace
    have hb := back_of_reachable h hc
    have hne : s.space s.currentThread ≠ none := by simp [hspace]
    obtain ⟨sp, hsp, hpt, hsize⟩ := hb.installed hne
    rw [hspace] at hsp
    cases hsp
    exact ⟨hb.registers hne, hpt, hsize, hb.pageTable⟩
  · intro hc hm
    have hst := ((reachable_inv h).own hc).2
    rw [hm] at hst
    exact hst

def State.resumes (s : State) (p : Mode → Option Space → Option Nat → Bool) : Bool :=
  match s.code with
  | .resumed out :: _ =>
    p (s.mode s.currentThread) (s.space s.currentThread) out.pageTable
  | _ => false

theorem State.exists_of_resumes {p : Mode → Option Space → Option Nat → Bool}
    (h : s.resumes p = true) : ∃ out code, s.code = .resumed out :: code ∧
      p (s.mode s.currentThread) (s.space s.currentThread) out.pageTable = true := by
  unfold State.resumes at h
  split at h
  · exact ⟨_, _, by assumption, h⟩
  · cases h

def twoPrograms : List Choice :=
  [.call (.setLevel .intOn), .go none, .call (.fork 1), .go none, .go none, .go none,
    .call (.execute ⟨7, 3⟩), .call (.instruction fun _ => 5), .go (some [.yieldOnReturn]),
    .go none, .go none, .go none, .go none, .call (.execute ⟨100, 2⟩),
    .call (.instruction fun _ => 6), .go (some [.yieldOnReturn]), .go none, .go none, .go none]

theorem context_switch_twoPrograms : ∃ s out code, Reachable 0 ⟨0, none, 0⟩ s ∧
    s.code = .resumed out :: code ∧ s.mode s.currentThread = .user ∧
    s.cpu.registers = out.registers ∧ s.cpu.pageTable = out.pageTable ∧
    s.cpu.pageTableSize = out.pageTableSize := by
  obtain ⟨s, hrun, h⟩ := exists_runs step (fun _ _ => True) (start 0 ⟨0, none, 0⟩) twoPrograms
    (fun s => s.resumes fun mode space _ => mode = .user ∧ space = some ⟨7, 3⟩) (by decide +kernel)
  obtain ⟨out, code, hc, h⟩ := State.exists_of_resumes h
  obtain ⟨hm, hspace⟩ := of_decide_eq_true h
  obtain ⟨hregs, -, -, htable⟩ := (context_switch_transparent hrun).1 out code _ hc hspace
  exact ⟨s, out, code, hrun, hc, hm, hregs, htable (by simp [hm])⟩

def preemptedLoad : List Choice :=
  [.call (.setSpace 1 ⟨100, 2⟩), .call (.setLevel .intOn), .go none, .call (.fork 1), .go none,
    .go (some [.yieldOnReturn]), .go none, .go none, .go none, .go (some [.yieldOnReturn]),
    .go none, .go none, .go none, .go none, .go none, .go (some [.yieldOnReturn]),
    .go none, .go none, .go none]

/-- It was switched out with no page table, and resumes with that of its space. -/
theorem context_switch_preemptedLoad : ∃ s out code space, Reachable 0 ⟨0, none, 0⟩ s ∧
    s.code = .resumed out :: code ∧ s.space s.currentThread = some space ∧
    s.cpu.pageTable ≠ out.pageTable := by
  obtain ⟨s, hrun, h⟩ := exists_runs step (fun _ _ => True) (start 0 ⟨0, none, 0⟩) preemptedLoad
    (fun s => s.resumes fun _ space table => space = some ⟨100, 2⟩ ∧ table = none) (by decide +kernel)
  obtain ⟨out, code, hc, h⟩ := State.exists_of_resumes h
  obtain ⟨hspace, htable⟩ := of_decide_eq_true h
  obtain ⟨sp, hsp, hpt, -⟩ := (back_of_reachable hrun hc).installed (by simp [hspace])
  exact ⟨s, out, code, _, hrun, hc, hspace, by simp [hpt, htable]⟩

end Nachos.Threads
