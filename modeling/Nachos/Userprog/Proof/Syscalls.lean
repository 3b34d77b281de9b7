import Nachos.Machine.Proof.RegisterFile
import Nachos.Userprog.Exception

/-!
# System calls return to the next instruction

A handler reads its arguments at the trap, calls a routine of the kernel and makes the writes of its last
lines; everything between leaves the registers and the kernel alone (`Kept`). So what a handler that
returns has done is known: `handler_ok`. `Answers` is the result of a system call, the value of the
kernel's routine. `Completes` is what a system call should do, and `syscall_completes_iff` says when it
does.
-/

namespace Nachos

open Base Function

namespace Machine

def settled (m : Machine) (r : Fin 32) : Word :=
  if r = 0 then 0
  else if m.registers loadReg = BitVec.ofNat 32 r then m.registers loadValueReg
  else m.gp r

theorem trap_eq (badVAddr : Word) {m : Machine} (hl : (m.registers loadReg).toNat < numTotalRegs) :
    (trap badVAddr).run m = .ok () (((((m.setReg badVAddrReg badVAddr).setReg
      ⟨(m.registers loadReg).toNat, hl⟩ (m.registers loadValueReg)).setReg loadReg 0).setReg
      loadValueReg 0).setReg (gpr 0) 0) := by
  have hr : (m.setReg badVAddrReg badVAddr).registers loadReg = m.registers loadReg := by
    rw [registers_setReg, if_neg (by decide)]
  have hv : (m.setReg badVAddrReg badVAddr).registers loadValueReg = m.registers loadValueReg := by
    rw [registers_setReg, if_neg (by decide)]
  change (storeRegister ((m.setReg badVAddrReg badVAddr).registers loadReg)
    ((m.setReg badVAddrReg badVAddr).registers loadValueReg) >>= _).run _ = _
  rw [hr, hv, storeRegister, dif_pos hl]
  rfl

theorem trap_registers {badVAddr : Word} {m m' : Machine} {u : Unit} (hl : m.LoadsGeneral)
    (h : (trap badVAddr).run m = .ok u m') :
    (∀ r, m'.gp r = m.settled r) ∧ m'.registers pcReg = m.registers pcReg ∧
      m'.registers nextPCReg = m.registers nextPCReg := by
  unfold LoadsGeneral at hl
  rw [trap_eq badVAddr (Nat.lt_trans hl (by decide))] at h
  cases h
  have hload : ∀ r : Reg, 32 ≤ r.val → r ≠ ⟨(m.registers loadReg).toNat,
      Nat.lt_trans hl (by decide)⟩ := by
    rintro r hr rfl
    exact absurd hr (Nat.not_le.2 hl)
  simp only [gp, settled, registers_setReg]
  refine ⟨fun r => ?_, ?_, ?_⟩
  · have hb : gpr r ≠ badVAddrReg := gpr_ne (by decide)
    have hv : gpr r ≠ loadValueReg := gpr_ne (by decide)
    have hn : gpr r ≠ loadReg := gpr_ne (by decide)
    rw [if_neg hb, if_neg hv, if_neg hn]
    refine if_congr gpr_injective.eq_iff rfl (if_congr ?_ rfl rfl)
    rw [← BitVec.toNat_inj, BitVec.toNat_ofNat, Nat.mod_eq_of_lt (by omega), Fin.ext_iff, eq_comm]
    rfl
  · rw [if_neg (by decide), if_neg (by decide), if_neg (by decide), if_neg (hload _ (by decide)),
      if_neg (by decide)]
  · rw [if_neg (by decide), if_neg (by decide), if_neg (by decide), if_neg (hload _ (by decide)),
      if_neg (by decide)]

end Machine

section

variable {κ α : Type} {cfg : Build} {sys : Services κ} {t s s' : KernelState κ} {res : Word}

def Kept (t s : KernelState κ) : Prop :=
  s.machine.registers = t.machine.registers ∧ s.kernel = t.kernel

abbrev KeepsRegs (t : KernelState κ) (x : HandlerM κ α) : Prop :=
  Keeps (Kept t) (fun _ _ => True) x

theorem KeepsRegs.ok {x : HandlerM κ α} {a : α} (h : KeepsRegs s x) (hx : x.run s = .ok a s') :
    Kept s s' :=
  h.returns ⟨rfl, rfl⟩ hx

theorem onMachine_keepsRegs {x : MachineM α} (h : ∀ m, (final (x.run m)).registers = m.registers) :
    KeepsRegs t (onMachine x : HandlerM κ α) := by
  rintro ⟨m, k⟩ hs
  have hx := h m
  rw [EStateM.run] at hx ⊢
  unfold onMachine
  dsimp only
  cases hr : x m with
  | ok a m' =>
    rw [hr] at hx
    exact ⟨hx.trans hs.1, hs.2⟩
  | error e m' => cases e <;> trivial

theorem onMachine_ok {x : MachineM α} {a : α} (h : (onMachine x).run s = .ok a s') :
    ∃ m, x.run s.machine = .ok a m ∧ s' = { s with machine := m } := by
  dsimp only [EStateM.run, onMachine] at h ⊢
  cases hr : x s.machine with
  | ok b m =>
    rw [hr] at h
    cases h
    exact ⟨m, rfl, rfl⟩
  | error e m =>
    rw [hr] at h
    cases e <;> cases h

theorem readReg_run (s : KernelState κ) (r : Fin 32) :
    (readReg r : HandlerM κ Word).run s = .ok (s.machine.gp r) s := rfl

theorem readReg_bind {f : Word → HandlerM κ α} (r : Fin 32) :
    (readReg r >>= f).run s = (f (s.machine.gp r)).run s := run_step (readReg_run s r)

theorem assertK_ok {c : Prop} [Decidable c] {u : Unit} (h : (assertK c : HandlerM κ Unit).run s = .ok u s') :
    s' = s := by
  unfold assertK at h
  split at h <;> cases h
  rfl

theorem newArray_ok {n : Word} {width : Nat} {u : Unit} (h : (newArray sys n width).run s = .ok u s') :
    s' = s := by
  unfold newArray at h
  split at h <;> cases h
  rfl

theorem throw_keepsRegs (e : HandlerStop) : KeepsRegs t (throw e : HandlerM κ α) :=
  Keeps.throw fun _ _ => trivial

theorem newArray_keepsRegs (n : Word) (width : Nat) : KeepsRegs t (newArray sys n width) :=
  Keeps.ite (Keeps.pure _) (throw_keepsRegs _)

theorem readMem_keepsRegs (addr : Word) (size : Nat) :
    KeepsRegs t (onMachine (Machine.readMem cfg addr size) : HandlerM κ Word) :=
  onMachine_keepsRegs fun m => (Machine.readMem_contents cfg addr size m).registers

theorem writeMem_keepsRegs (addr : Word) (size : Nat) (value : Word) :
    KeepsRegs t (onMachine (Machine.writeMem cfg addr size value) : HandlerM κ Unit) :=
  onMachine_keepsRegs fun m => Machine.writeMem_registers cfg addr size value m

/-! ## Strings -/

theorem readChars_keepsRegs (addr : Word) (n : Nat) :
    KeepsRegs t (readChars cfg addr n : HandlerM κ (List Byte)) := by
  induction n generalizing addr with
  | zero => exact Keeps.pure _
  | succ n ih =>
    refine Keeps.bind (readMem_keepsRegs _ _) fun oneChar => ?_
    exact Keeps.ite (Keeps.pure _) (Keeps.bind (ih _) fun _ => Keeps.pure _)

theorem user2System_keepsRegs (virtAddr limit : Word) :
    KeepsRegs t (user2System cfg sys virtAddr limit) := by
  refine Keeps.bind (newArray_keepsRegs _ _) fun _ => Keeps.ite (throw_keepsRegs _) ?_
  exact Keeps.bind (readChars_keepsRegs _ _) fun _ => Keeps.pure _

theorem writeChars_keepsRegs (addr : Word) (buffer : List Byte) (n : Nat) :
    KeepsRegs t (writeChars cfg addr buffer n : HandlerM κ Nat) := by
  induction n generalizing addr buffer with
  | zero =>
    rw [writeChars]
    exact Keeps.pure _
  | succ n ih =>
    cases buffer with
    | nil => exact throw_keepsRegs _
    | cons c buffer =>
      refine Keeps.bind (writeMem_keepsRegs _ _ _) fun _ => Keeps.ite (Keeps.pure _) ?_
      exact Keeps.bind (ih _ _) fun _ => Keeps.pure _

theorem system2User_keepsRegs (virtAddr len : Word) (buffer : List Byte) :
    KeepsRegs t (system2User cfg virtAddr len buffer : HandlerM κ Word) := by
  refine Keeps.ite (Keeps.pure _) (Keeps.ite (Keeps.pure _) ?_)
  exact Keeps.bind (writeChars_keepsRegs _ _ _) fun _ => Keeps.pure _

theorem argLength_keepsRegs (fuel : Nat) (addr : Word) :
    KeepsRegs t (argLength cfg fuel addr : HandlerM κ Nat) := by
  induction fuel generalizing addr with
  | zero => exact throw_keepsRegs _
  | succ fuel ih =>
    refine Keeps.bind (readMem_keepsRegs _ _) fun _ => Keeps.ite (Keeps.pure _) ?_
    exact Keeps.bind (ih _) fun _ => Keeps.pure _

theorem readArgs_keepsRegs (virtAddr : Word) (n : Nat) :
    KeepsRegs t (readArgs cfg sys virtAddr n) := by
  induction n generalizing virtAddr with
  | zero => exact Keeps.pure _
  | succ n ih =>
    exact Keeps.bind (readMem_keepsRegs _ _) fun _ => Keeps.bind (argLength_keepsRegs _ _) fun _ =>
      Keeps.bind (user2System_keepsRegs _ _) fun _ => Keeps.bind (ih _) fun _ => Keeps.pure _

theorem writeArgs_keepsRegs (virtAddr : Word) (temp : Nat → Byte) (i n : Nat) :
    KeepsRegs t (writeArgs cfg virtAddr temp i n : HandlerM κ Unit) := by
  induction n generalizing i with
  | zero => exact Keeps.pure _
  | succ n ih => exact Keeps.bind (writeMem_keepsRegs _ _ _) fun _ => ih _

/-! ## The result of a system call -/

/-- The routine returns `a`, and takes the kernel from `k` to `k'`. -/
def Gives (service : Service κ α) (k k' : κ) (a : α) : Prop := ∃ m m', service k m = .ok (a, k', m')

/-- `User2System` finds these bytes in the user memory of `t`. -/
def Reads (cfg : Build) (sys : Services κ) (t : KernelState κ) (virtAddr limit : Word)
    (buffer : List Byte) : Prop :=
  ∃ s, (user2System cfg sys virtAddr limit).run t = .ok buffer s

/-- `Open` returns to the same instruction when the mode is wrong. -/
def WrongMode (mode : Word) : Prop := mode ≠ readOnlyMode ∧ mode ≠ readWriteMode

instance (mode : Word) : Decidable (WrongMode mode) := inferInstanceAs (Decidable (_ ∧ _))

/-- A call whose routine gets a string, at the address in `r4`, gives `res`. -/
def NameAnswers (cfg : Build) (sys : Services κ) (t : KernelState κ) (k' : κ) (res limit : Word)
    (service : List Byte → Service κ Word) : Prop :=
  ∃ name, Reads cfg sys t (t.machine.gp 4) limit name ∧ Gives (service name) t.kernel k' res

/-- `res` is the result of the system call that was made at `t`, and `k'` the kernel it leaves: what the
routine returns for the arguments in the registers. -/
def Answers (cfg : Build) (sys : Services κ) (t : KernelState κ) (k' : κ) (res : Word) : Syscall → Prop
  | .halt | .exit | .disconnect => False
  | .exec => NameAnswers cfg sys t k' res fileNameMaxLen sys.sysExec
  | .join => Gives (sys.sysJoin (t.machine.gp 4)) t.kernel k' res
  | .create => NameAnswers cfg sys t k' res fileNameMaxLen sys.sysCreate
  | .remove => NameAnswers cfg sys t k' res fileNameMaxLen sys.sysRemove
  | .openFile =>
    if WrongMode (t.machine.gp 5) then res = -1 ∧ k' = t.kernel
    else NameAnswers cfg sys t k' res fileNameMaxLen fun name => sys.sysOpen name (t.machine.gp 5)
  | .read => ∃ buffer, Gives (sys.sysRead (List.replicate (t.machine.gp 5 + 1).toNat 0)
      (t.machine.gp 5) (t.machine.gp 6)) t.kernel k' (res, buffer)
  | .write => ∃ buffer, Reads cfg sys t (t.machine.gp 4) (t.machine.gp 5) buffer ∧
      Gives (sys.sysWrite buffer (t.machine.gp 5) (t.machine.gp 6)) t.kernel k' res
  | .seek => Gives (sys.sysSeek (t.machine.gp 4) (t.machine.gp 5)) t.kernel k' res
  | .close => Gives (sys.sysClose (t.machine.gp 4)) t.kernel k' res
  | .execV => ∃ argv s, (readArgs cfg sys (t.machine.gp 5) (t.machine.gp 4).toNat).run t = .ok argv s ∧
      Gives (sys.execVUpdate (t.machine.gp 4) argv) t.kernel k' res
  | .getArgvs => ∃ argv, sys.getArgv t.kernel (sys.getId t.kernel) = some argv ∧
      res = BitVec.ofNat 32 (min (t.machine.gp 4).toNat argv.tail.length) ∧ k' = t.kernel
  | .add => res = t.machine.gp 4 + t.machine.gp 5 ∧ k' = t.kernel
  | .printStrn => ∃ strn, Reads cfg sys t (t.machine.gp 4) maxStringLen strn ∧
      res = BitVec.ofNat 32 (strnlen strn maxAllowedBufferSize) ∧
      Gives (sys.putString strn (strnlen strn maxAllowedBufferSize)) t.kernel k' ()
  | .socketTCP => Gives sys.sysSocketTCP t.kernel k' res
  | .connect => ∃ ip, Reads cfg sys t (t.machine.gp 5) fileNameMaxLen ip ∧
      Gives (sys.sysConnect (t.machine.gp 4) ip (t.machine.gp 6)) t.kernel k' res
  | .send => ∃ buffer, Reads cfg sys t (t.machine.gp 5) (t.machine.gp 6) buffer ∧
      Gives (sys.sysSend (t.machine.gp 4) buffer (t.machine.gp 6)) t.kernel k' res
  | .receive => ∃ buffer buffer', Reads cfg sys t (t.machine.gp 5) (t.machine.gp 6) buffer ∧
      Gives (sys.sysReceive (t.machine.gp 4) buffer (t.machine.gp 6)) t.kernel k' (res, buffer')
  | .serverCreate => Gives (sys.sysServerCreate (t.machine.gp 4)) t.kernel k' res
  | .serverListen => Gives (sys.sysServerListen (t.machine.gp 4)) t.kernel k' res
  | .createSem =>
    NameAnswers cfg sys t k' res semNameMaxLen fun name => sys.sysCreateSem name (t.machine.gp 5)
  | .waitSem => NameAnswers cfg sys t k' res semNameMaxLen sys.sysWait
  | .signalSem => NameAnswers cfg sys t k' res semNameMaxLen sys.sysSignal

/-! ## Handlers -/

def completed (ρ : Reg → Word) (res : Word) : Reg → Word :=
  let ρ := update ρ (gpr 2) res
  let ρ := update ρ prevPCReg (ρ pcReg)
  let ρ := update ρ pcReg (ρ pcReg + 4)
  update ρ nextPCReg (ρ pcReg + 4)

def Completed (t s' : KernelState κ) (res : Word) : Prop :=
  s'.machine.registers = completed t.machine.registers res

theorem call_ok {service : Service κ α} {a : α} (hk : Kept t s) (h : (call service).run s = .ok a s') :
    Gives service t.kernel s'.kernel a ∧ s'.machine.registers = t.machine.registers := by
  dsimp only [EStateM.run, call] at h
  cases hr : service s.kernel s.machine with
  | ok r =>
    rw [hr] at h
    cases h
    rw [hk.2] at hr
    exact ⟨⟨_, _, hr⟩, hk.1⟩
  | error e =>
    rw [hr] at h
    cases h

theorem finish_ok {v : Word} (hr : s.machine.registers = t.machine.registers)
    (h : (finish v : HandlerM κ Word).run s = .ok res s') :
    res = v ∧ s'.kernel = s.kernel ∧ Completed t s' v := by
  cases h
  rw [Completed, ← hr]
  exact ⟨rfl, rfl, rfl⟩

theorem finish_call_ok {service : Service κ Word} (hk : Kept t s)
    (h : (call service >>= finish).run s = .ok res s') :
    Gives service t.kernel s'.kernel res ∧ Completed t s' res := by
  obtain ⟨a, s1, hcall, h⟩ := run_bind_ok h
  obtain ⟨hgives, hregs⟩ := call_ok hk hcall
  obtain ⟨rfl, hkernel, hdone⟩ := finish_ok hregs h
  rw [hkernel]
  exact ⟨hgives, hdone⟩

theorem wordCall_ok {service : Word → Service κ Word} (h : (wordCall service).run t = .ok res s') :
    Gives (service (t.machine.gp 4)) t.kernel s'.kernel res ∧ Completed t s' res := by
  rw [wordCall, readReg_bind] at h
  exact finish_call_ok ⟨rfl, rfl⟩ h

theorem reads_call_ok {virtAddr limit : Word} {service : List Byte → Service κ Word}
    (h : (user2System cfg sys virtAddr limit >>= fun buffer => call (service buffer) >>= finish).run t =
      .ok res s') :
    (∃ buffer, Reads cfg sys t virtAddr limit buffer ∧ Gives (service buffer) t.kernel s'.kernel res) ∧
      Completed t s' res := by
  obtain ⟨buffer, s1, hread, h⟩ := run_bind_ok h
  obtain ⟨hgives, hdone⟩ := finish_call_ok ((user2System_keepsRegs _ _).ok hread) h
  exact ⟨⟨buffer, ⟨s1, hread⟩, hgives⟩, hdone⟩

theorem copyArgs_count {size len count n result : Nat} {args : List (List Byte)} {temp temp' : Nat → Byte}
    (hresult : result ≤ count) (h : copyArgs size len count args result temp = .ok (n, temp')) :
    n = min count (result + args.length) := by
  induction args generalizing result temp with
  | nil =>
    cases h
    simp [hresult]
  | cons arg args ih =>
    rw [copyArgs] at h
    by_cases hc : result = count
    · rw [if_pos hc] at h
      cases h
      simp [hc]
    · rw [if_neg hc] at h
      dsimp only at h
      split at h
      · cases h
      · rw [ih (by omega) h, List.length_cons]
        congr 1
        omega

theorem scGetArgvs_ok (h : (scGetArgvs cfg sys).run t = .ok res s') :
    Answers cfg sys t s'.kernel res .getArgvs ∧ Completed t s' res := by
  simp only [scGetArgvs, readReg_bind] at h
  obtain ⟨_, _, hassert, h⟩ := run_bind_ok h
  cases assertK_ok hassert
  rw [run_get_bind] at h
  obtain ⟨_, _, hassert, h⟩ := run_bind_ok h
  cases assertK_ok hassert
  cases hargv : sys.getArgv t.kernel (sys.getId t.kernel) with
  | none =>
    rw [hargv] at h
    cases h
  | some argv =>
    rw [hargv] at h
    obtain ⟨_, _, hnew, h⟩ := run_bind_ok h
    cases newArray_ok hnew
    split at h
    · cases h
    split at h
    · cases h
    · rename_i n temp hcopy
      obtain ⟨_, s1, hwrite, h⟩ := run_bind_ok h
      have hkept := (writeArgs_keepsRegs _ _ _ _).ok hwrite
      obtain ⟨rfl, hkernel, hdone⟩ := finish_ok hkept.1 h
      rw [copyArgs_count (Nat.zero_le _) hcopy, Nat.zero_add] at hdone ⊢
      exact ⟨⟨argv, hargv, rfl, hkernel.trans hkept.2⟩, hdone⟩

theorem scOpen_ok (h : (scOpen cfg sys).run t = .ok res s') :
    Answers cfg sys t s'.kernel res .openFile ∧ s'.machine.registers =
      if WrongMode (t.machine.gp 5) then update t.machine.registers (gpr 2) res
      else completed t.machine.registers res := by
  simp only [scOpen, readReg_bind] at h
  obtain ⟨filename, s1, hread, h⟩ := run_bind_ok h
  have hkept := (user2System_keepsRegs _ _).ok hread
  rw [Answers]
  by_cases hw : WrongMode (t.machine.gp 5)
  · rw [if_pos hw, if_pos hw]
    rw [if_pos (show _ ∧ _ from hw)] at h
    cases h
    rw [← hkept.1]
    exact ⟨⟨rfl, hkept.2⟩, rfl⟩
  · rw [if_neg hw, if_neg hw]
    rw [if_neg (show ¬ (_ ∧ _) from hw)] at h
    obtain ⟨hgives, hdone⟩ := finish_call_ok hkept h
    exact ⟨⟨filename, ⟨s1, hread⟩, hgives⟩, hdone⟩

theorem handler_completes (c : Syscall) (hc : c ≠ .openFile) (h : (c.handler cfg sys).run t = .ok res s') :
    Answers cfg sys t s'.kernel res c ∧ Completed t s' res := by
  cases c with
  | openFile => exact absurd rfl hc
  | halt => cases h
  | exit =>
    simp only [Syscall.handler, scExit, readReg_bind] at h
    obtain ⟨never, -, -, -⟩ := run_bind_ok h
    cases never
  | join | close | serverCreate | serverListen => exact wordCall_ok h
  | socketTCP | seek =>
    simp only [Syscall.handler, scSocketTCP, scSeek, readReg_bind] at h
    exact finish_call_ok ⟨rfl, rfl⟩ h
  | create | remove | exec | waitSem | signalSem =>
    simp only [Syscall.handler, scCreate, scRemove, scExec, scWaitSem, scSignalSem, nameCall,
      readReg_bind] at h
    exact reads_call_ok h
  | createSem | write | connect | send =>
    simp only [Syscall.handler, scCreateSem, scWrite, scConnect, scSend, readReg_bind] at h
    exact reads_call_ok h
  | add =>
    simp only [Syscall.handler, scAdd, readReg_bind] at h
    obtain ⟨rfl, hkernel, hdone⟩ := finish_ok (t := t) rfl h
    exact ⟨⟨rfl, hkernel⟩, hdone⟩
  | getArgvs => exact scGetArgvs_ok h
  | read =>
    simp only [Syscall.handler, scRead, readReg_bind] at h
    obtain ⟨_, _, hnew, h⟩ := run_bind_ok h
    cases newArray_ok hnew
    obtain ⟨⟨readCount, buffer⟩, s1, hcall, h⟩ := run_bind_ok h
    obtain ⟨hgives, hregs⟩ := call_ok ⟨rfl, rfl⟩ hcall
    obtain ⟨_, s2, hwrite, h⟩ := run_bind_ok h
    have hkept := (system2User_keepsRegs _ _ _).ok hwrite
    obtain ⟨rfl, hkernel, hdone⟩ := finish_ok (hkept.1.trans hregs) h
    rw [hkernel, hkept.2]
    exact ⟨⟨buffer, hgives⟩, hdone⟩
  | receive =>
    simp only [Syscall.handler, scReceive, readReg_bind] at h
    obtain ⟨buffer, s1, hread, h⟩ := run_bind_ok h
    obtain ⟨⟨size, buffer'⟩, s2, hcall, h⟩ := run_bind_ok h
    obtain ⟨hgives, hregs⟩ := call_ok ((user2System_keepsRegs _ _).ok hread) hcall
    obtain ⟨_, s3, hwrite, h⟩ := run_bind_ok h
    have hkept := (system2User_keepsRegs _ _ _).ok hwrite
    obtain ⟨rfl, hkernel, hdone⟩ := finish_ok (hkept.1.trans hregs) h
    rw [hkernel, hkept.2]
    exact ⟨⟨buffer, buffer', ⟨s1, hread⟩, hgives⟩, hdone⟩
  | disconnect =>
    simp only [Syscall.handler, scDisconnect, readReg_bind] at h
    obtain ⟨_, _, hprint, h⟩ := run_bind_ok h
    obtain ⟨_, _, -, hhalt⟩ := run_bind_ok hprint
    cases hhalt
  | printStrn =>
    simp only [Syscall.handler, scPrintStrn, readReg_bind] at h
    obtain ⟨strn, s1, hread, h⟩ := run_bind_ok h
    obtain ⟨size, s2, hprint, h⟩ := run_bind_ok h
    obtain ⟨_, s3, hcall, hsize⟩ := run_bind_ok hprint
    cases hsize
    obtain ⟨hgives, hregs⟩ := call_ok ((user2System_keepsRegs _ _).ok hread) hcall
    obtain ⟨rfl, hkernel, hdone⟩ := finish_ok hregs h
    rw [hkernel]
    exact ⟨⟨strn, ⟨s1, hread⟩, rfl, hgives⟩, hdone⟩
  | execV =>
    simp only [Syscall.handler, scExecV, readReg_bind] at h
    obtain ⟨_, _, hnew, h⟩ := run_bind_ok h
    cases newArray_ok hnew
    obtain ⟨argv, s1, hread, h⟩ := run_bind_ok h
    obtain ⟨a, s2, hexec, h⟩ := run_bind_ok h
    obtain ⟨_, _, hassert, hcall⟩ := run_bind_ok hexec
    cases assertK_ok hassert
    obtain ⟨hgives, hregs⟩ := call_ok ((readArgs_keepsRegs _ _).ok hread) hcall
    obtain ⟨rfl, hkernel, hdone⟩ := finish_ok hregs h
    rw [hkernel]
    exact ⟨⟨argv, s1, hread, hgives⟩, hdone⟩

theorem handler_ok (c : Syscall) (h : (c.handler cfg sys).run t = .ok res s') :
    Answers cfg sys t s'.kernel res c ∧ s'.machine.registers =
      if c = .openFile ∧ WrongMode (t.machine.gp 5) then update t.machine.registers (gpr 2) res
      else completed t.machine.registers res := by
  by_cases hc : c = .openFile
  · subst hc
    simp only [true_and]
    exact scOpen_ok h
  · simp only [hc, false_and, if_false]
    exact handler_completes c hc h

theorem exceptionHandler_ok {which : ExceptionType}
    (h : (exceptionHandler cfg sys which).run s = .ok res s') :
    ∃ c, Syscall.ofType (s.machine.gp 2) = some c ∧ (c.handler cfg sys).run s = .ok res s' := by
  obtain ⟨type, s1, htype, h⟩ := run_bind_ok h
  cases htype
  cases which with
  | syscallException =>
    dsimp only at h
    cases hc : Syscall.ofType (s.machine.registers (gpr 2)) with
    | none =>
      rw [hc] at h
      cases h
    | some c =>
      rw [hc] at h
      exact ⟨c, hc, h⟩
  | noException | pageFaultException | readOnlyException | busErrorException
  | addressErrorException | overflowException | illegalInstrException => cases h

/-! ## The whole system call -/

/-- `RaiseException` enters the handler in the state `t` for the instruction at `s`. -/
def Trapped (cfg : Build) (s t : KernelState κ) : Prop :=
  ∃ which badVAddr m, Machine.oneInstruction cfg s.machine = .error (.raise which badVAddr) m ∧
    (Machine.trap badVAddr).run m = .ok () t.machine ∧ t.kernel = s.kernel

/-- What a system call at `s` should do: the instruction that was due next is next, the result is in `r2`,
and the other registers are as they were. -/
structure Completes (cfg : Build) (sys : Services κ) (s s' : KernelState κ) : Prop where
  pc : s'.machine.registers pcReg = s.machine.registers nextPCReg
  nextPC : s'.machine.registers nextPCReg = s.machine.registers nextPCReg + 4
  result : ∃ t c, Trapped cfg s t ∧ Syscall.ofType (t.machine.gp 2) = some c ∧
    Answers cfg sys t s'.kernel (s'.machine.gp 2) c
  others : ∀ r, r ≠ 2 → s'.machine.gp r = s.machine.settled r

theorem completed_gp (ρ : Reg → Word) (res : Word) (r : Fin 32) :
    completed ρ res (gpr r) = if r = 2 then res else ρ (gpr r) := by
  have hp : gpr r ≠ prevPCReg := Machine.gpr_ne (by decide)
  have hc : gpr r ≠ pcReg := Machine.gpr_ne (by decide)
  have hn : gpr r ≠ nextPCReg := Machine.gpr_ne (by decide)
  simp only [completed, update_apply]
  rw [if_neg hn, if_neg hc, if_neg hp]
  exact if_congr Machine.gpr_injective.eq_iff rfl rfl

theorem handler_gp (c : Syscall) (h : (c.handler cfg sys).run t = .ok res s') : s'.machine.gp 2 = res := by
  rw [Machine.gp, (handler_ok c h).2]
  split
  · exact update_self ..
  · rw [completed_gp, if_pos rfl]

theorem completed_pc (ρ : Reg → Word) (res : Word) : completed ρ res pcReg = ρ pcReg + 4 := rfl

theorem completed_nextPC (ρ : Reg → Word) (res : Word) :
    completed ρ res nextPCReg = ρ pcReg + 4 + 4 := rfl

theorem userInstruction_ok (hl : s.machine.LoadsGeneral)
    (h : (userInstruction cfg sys).run s = .ok (some res) s') :
    ∃ t c, Trapped cfg s t ∧ Machine.RegisterFile t.machine.registers ∧
      (∀ r, t.machine.gp r = s.machine.settled r) ∧
      t.machine.registers pcReg = s.machine.registers pcReg ∧
      t.machine.registers nextPCReg = s.machine.registers nextPCReg ∧
      Syscall.ofType (t.machine.gp 2) = some c ∧ (c.handler cfg sys).run t = .ok res s' := by
  dsimp only [EStateM.run, userInstruction] at h
  cases hone : Machine.oneInstruction cfg s.machine with
  | ok u m1 =>
    rw [hone] at h
    cases h
  | error stop m1 =>
    rw [hone] at h
    cases stop with
    | fault f => cases h
    | raise which badVAddr =>
      have hsame := Machine.oneInstruction_precise hone
      obtain ⟨res', s2, hraise, h⟩ := run_bind_ok (x := raiseException cfg sys which badVAddr) h
      cases h
      obtain ⟨u, s1, htrap, hhandler⟩ := run_bind_ok hraise
      obtain ⟨m2, hm2, rfl⟩ := onMachine_ok htrap
      have hl1 : m1.LoadsGeneral := by
        rw [Machine.LoadsGeneral, hsame.registers]
        exact hl
      obtain ⟨hgp, hpc, hnext⟩ := Machine.trap_registers hl1 hm2
      obtain ⟨c, hc, hrun⟩ := exceptionHandler_ok hhandler
      have hsettled : m1.settled = s.machine.settled := by
        unfold Machine.settled Machine.gp
        rw [hsame.registers]
      rw [hsettled] at hgp
      rw [hsame.registers] at hpc hnext
      obtain ⟨m2', hm2', hfile⟩ := Machine.trap_registerFile badVAddr hl1
      obtain rfl : m2' = m2 := by
        rw [hm2] at hm2'
        cases hm2'
        rfl
      exact ⟨⟨m2', s.kernel⟩, c, ⟨which, badVAddr, m1, hone, hm2, rfl⟩, hfile, hgp, hpc, hnext, hc, hrun⟩

/-- **When a system call completes.** For every system call that returns, whatever the routines of
the kernel do: execution goes on at the instruction that was due next, with the result in `r2` and the
other registers as they were, if and only if the call is not in the delay slot of a taken branch and is
no `Open` with a wrong mode. -/
theorem syscall_completes_iff {s s' : KernelState κ} {res : Word} (hl : s.machine.LoadsGeneral)
    (h : (userInstruction cfg sys).run s = .ok (some res) s') :
    Completes cfg sys s s' ↔
      s.machine.registers nextPCReg = s.machine.registers pcReg + 4 ∧
        ¬ (Syscall.ofType (s.machine.settled 2) = some .openFile ∧
          WrongMode (s.machine.settled 5)) := by
  obtain ⟨t, c, htrapped, -, hgp, hpc, hnext, hc, hrun⟩ := userInstruction_ok hl h
  obtain ⟨hanswers, hregs⟩ := handler_ok c hrun
  rw [← hgp 2, ← hgp 5, hc, Option.some.injEq, ← hpc, ← hnext]
  by_cases hw : c = .openFile ∧ WrongMode (t.machine.gp 5)
  · -- the program counters stay, and no word is its own successor
    rw [if_pos hw] at hregs
    refine iff_of_false (fun hcomp => ?_) (fun h => h.2 hw)
    have hn := hcomp.nextPC
    rw [hregs, ← hnext] at hn
    have hne : ∀ v : Word, v ≠ v + 4 := fun v => by bv_omega
    exact hne _ hn
  · rw [if_neg hw] at hregs
    refine ⟨fun hcomp => ⟨?_, hw⟩, fun ⟨hpc4, _⟩ => ⟨?_, ?_, ⟨t, c, htrapped, hc, ?_⟩, fun r hr => ?_⟩⟩
    · have hp := hcomp.pc
      rw [hregs, completed_pc, ← hnext] at hp
      exact hp.symm
    · rw [hregs, completed_pc, ← hnext, hpc4]
    · rw [hregs, completed_nextPC, ← hnext, hpc4]
    · rw [Machine.gp, hregs, completed_gp, if_pos rfl]
      exact hanswers
    · rw [Machine.gp, hregs, completed_gp, if_neg hr]
      exact hgp r

end

/-! ## A kernel in which every routine returns zero -/

def Service.value {κ α : Type} (a : α) : Service κ α := fun k m => .ok (a, k, m)

def zeroServices : Services Unit where
  fits _ := true
  junk := 0
  getId _ := 0
  getArgv _ _ := some []
  putString _ _ := .value ()
  sysCreate _ := .value 0
  sysRemove _ := .value 0
  sysOpen _ _ := .value 0
  sysClose _ := .value 0
  sysRead buffer _ _ := .value (0, buffer)
  sysWrite _ _ _ := .value 0
  sysSeek _ _ := .value 0
  sysSocketTCP := .value 0
  sysConnect _ _ _ := .value 0
  sysSend _ _ _ := .value 0
  sysReceive _ buffer _ := .value (0, buffer)
  sysServerCreate _ := .value 0
  sysServerListen _ := .value 0
  sysExec _ := .value 0
  execVUpdate _ _ := .value 0
  sysJoin _ := .value 0
  sysExit _ _ _ := .error .finished
  sysCreateSem _ _ := .value 0
  sysWait _ := .value 0
  sysSignal _ := .value 0

/-- A `SYSCALL` at address 0 with these arguments, and `nextPC` due next. -/
def syscallAt (nextPC r2 r4 r5 : Word) : KernelState Unit where
  machine :=
    ((((Machine.mk 0 (writeBlock 0 0 (hostWordBytes buildLinux 0x0c)) none
      (some [⟨0, 0, true, false, false, false⟩]) 1).setReg nextPCReg nextPC).setReg (gpr 2) r2).setReg
      (gpr 4) r4).setReg (gpr 5) r5
  kernel := ()

def returned (p : KernelState Unit → Bool) :
    EStateM.Result HandlerStop (KernelState Unit) (Option Word) → Bool
  | .ok (some _) s => p s
  | _ => false

theorem exists_returned {p : KernelState Unit → Bool}
    {r : EStateM.Result HandlerStop (KernelState Unit) (Option Word)} (h : returned p r = true) :
    ∃ res s, r = .ok (some res) s ∧ p s = true := by
  unfold returned at h
  split at h
  · exact ⟨_, _, rfl, h⟩
  · cases h

/-- `Open` with mode 2 comes back to the `SYSCALL` itself, and a call in the delay slot of a branch to
0x40 goes on at 4 and not at the target. -/
theorem syscall_not_completed :
    (∃ res s', (userInstruction buildLinux zeroServices).run (syscallAt 4 6 4 2) =
        .ok (some res) s' ∧ ¬ Completes buildLinux zeroServices (syscallAt 4 6 4 2) s') ∧
      ∃ res s', (userInstruction buildLinux zeroServices).run (syscallAt 0x40 42 1 2) =
        .ok (some res) s' ∧ ¬ Completes buildLinux zeroServices (syscallAt 0x40 42 1 2) s' := by
  constructor
  · obtain ⟨res, s', hr, hp⟩ := exists_returned (p := fun s => s.machine.registers pcReg == 0)
      (r := (userInstruction buildLinux zeroServices).run (syscallAt 4 6 4 2)) (by decide +kernel)
    refine ⟨res, s', hr, fun h => ?_⟩
    have hpc := h.pc
    rw [beq_iff_eq.1 hp] at hpc
    exact absurd hpc (by decide)
  · obtain ⟨res, s', hr, hp⟩ := exists_returned (p := fun s => s.machine.registers pcReg == 4)
      (r := (userInstruction buildLinux zeroServices).run (syscallAt 0x40 42 1 2)) (by decide +kernel)
    refine ⟨res, s', hr, fun h => ?_⟩
    have hpc := h.pc
    rw [beq_iff_eq.1 hp] at hpc
    exact absurd hpc (by decide)

theorem syscall_completes_add :
    ∃ res s', (userInstruction buildLinux zeroServices).run (syscallAt 4 42 1 2) = .ok (some res) s' ∧
      Completes buildLinux zeroServices (syscallAt 4 42 1 2) s' ∧ s'.machine.gp 2 = 3 := by
  obtain ⟨res, s', hr, hp⟩ := exists_returned (p := fun s => s.machine.gp 2 == 3)
    (r := (userInstruction buildLinux zeroServices).run (syscallAt 4 42 1 2)) (by decide +kernel)
  exact ⟨res, s', hr, (syscall_completes_iff (by decide) hr).2 ⟨by decide, by decide⟩, beq_iff_eq.1 hp⟩

end Nachos
