import Nachos.Filesys.Proof.TableMap
import Nachos.Threads.Proof.Named
import Nachos.Userprog.Proof.GetArgvs

/-!
# Names on their way into the kernel

Eight system calls take a name from user memory. `User2System` clips it to a limit that does not count
the zero (`user2System_string`), and the arrays it goes to, and the constructor of `Thread`, do count
it. So a name is kept whole, and found again, exactly when it is shorter than the limit
(`names_kept_iff`).
-/

namespace Nachos

open Base Streams

/-! ## The calls -/

/-- The calls that take a name; `SC_ExecV` has other arguments behind it. -/
inductive NamedSyscall
  | openFile | remove | exec
  | execV (args : List CString)
  | createSem | waitSem | signalSem | connect

namespace NamedSyscall

section

variable {κ : Type}

def handler (cfg : Build) (sys : Services κ) : NamedSyscall → HandlerM κ Word
  | .openFile => scOpen cfg sys
  | .remove => scRemove cfg sys
  | .exec => scExec cfg sys
  | .execV _ => scExecV cfg sys
  | .createSem => scCreateSem cfg sys
  | .waitSem => scWaitSem cfg sys
  | .signalSem => scSignalSem cfg sys
  | .connect => scConnect cfg sys

/-- The end of a handler, from the name on; the other arguments are in the registers of `m`. -/
def routine (sys : Services κ) (m : Machine) (name : List Byte) : NamedSyscall → HandlerM κ Word
  | .openFile => do
    if m.gp 5 ≠ readOnlyMode ∧ m.gp 5 ≠ readWriteMode then
      onMachine (Machine.writeRegister (gpr 2) (-1))
      return -1
    finish (← call (sys.sysOpen name (m.gp 5)))
  | .remove => do finish (← call (sys.sysRemove name))
  | .exec => do finish (← call (sys.sysExec name))
  | .execV args => do finish (← sysExecV sys (m.gp 4) (name :: args.map (· ++ [0, 0])))
  | .createSem => do finish (← call (sys.sysCreateSem name (m.gp 5)))
  | .waitSem => do finish (← call (sys.sysWait name))
  | .signalSem => do finish (← call (sys.sysSignal name))
  | .connect => do finish (← call (sys.sysConnect (m.gp 4) name (m.gp 6)))

def UserString (cfg : Build) (m : Machine) (str : CString) : NamedSyscall → Prop
  | .connect => UserHolds m (m.gp 5) (str ++ [0])
  | .execV args => (m.gp 4).toInt = args.length + 1 ∧ (∀ a ∈ args, 0 ∉ a) ∧
      ArgsAt cfg m (m.gp 5) (str :: args)
  | _ => UserHolds m (m.gp 4) (str ++ [0])

/-- In every kernel with memory left, the handler goes on with a buffer that holds this name. -/
def Passes (cfg : Build) (s : KernelState κ) (call : NamedSyscall) (name : CString) : Prop :=
  ∀ sys : Services κ, (∀ n, sys.fits n = true) → ∃ buffer m, cString buffer = name ∧
    s.machine.Peeked m ∧
    (call.handler cfg sys).run s = (call.routine sys s.machine buffer).run { s with machine := m }

end

/-- The limit for `User2System`; `SC_ExecV` passes the length of the string. -/
def limit : NamedSyscall → Option Word
  | .openFile | .remove | .exec | .connect => some fileNameMaxLen
  | .createSem | .waitSem | .signalSem => some semNameMaxLen
  | .execV _ => none

def copied (call : NamedSyscall) (str : CString) : CString :=
  match call.limit with
  | some limit => str.take limit.toNat
  | none => str

end NamedSyscall

/-! ## The copies -/

def Holds (array : List Byte) (name : CString) : Prop := 0 ∈ array ∧ cString array = name

/-- `strcpy` into an array; `none` when it writes behind it. -/
def strcpy (array : List Byte) (src : CString) : Option (List Byte) :=
  if src.length < array.length then some (src ++ 0 :: array.drop (src.length + 1)) else none

/-- The name of a file is in `DyOpenFile::file_name` and in the buffer of `isOpen`, and `isOpen` finds a
file that was opened under it. -/
structure FileNameKept (name : CString) : Prop where
  stored : ∀ mode file, Holds (DyOpenFile.new name mode file).fileName name
  compared : ∀ mode file, Holds (Stream.file (.new name mode file)).getName name
  found : ∀ (s : Files) fd f mode file, fd ∈ descriptors → s.fdt fd = some (.file f) →
    f.fileName = (DyOpenFile.new name mode file).fileName → s.isOpen name = .ok true

/-- The name of a semaphore is in `Sem::name`, and `Wait` and `Signal` find a semaphore that was created
under it. -/
structure SemNameKept (name : CString) : Prop where
  stored : ∀ memory : List Byte, memory.length = STable.semNameMaxLen →
    ∃ array, strcpy memory name = some array ∧ Holds array name
  created : ∀ permits, ∃ sem, STable.Sem.new name permits = some sem ∧ sem.name = name
  found : ∀ s : STable.State, (∀ i < STable.maxSemaphore, s.semTab i ≠ .wild) → ∀ i, s.Named name i →
    ∃ j, s.findName name 0 STable.maxSemaphore = .ok (some j) ∧ s.Named name j

/-- An address is in `Socket::ip_address` after `connect`. -/
def AddressKept (name : CString) : Prop :=
  ∀ (socket : Socket) port s r s', (socket.connect name port).run s = .ok r s' →
    Holds r.2.ipAddress name

/-- The constructor of `Thread` takes the name. -/
def ThreadNameOk (name : CString) : Prop :=
  ∀ (s : PTable.State) t argv p i space noffH, s.stopped = none →
    (s.execStep t name argv (.forking p i space noffH)).stopped = none

namespace NamedSyscall

def Keeps (name : CString) : NamedSyscall → Prop
  | .openFile | .remove => FileNameKept name
  | .exec | .execV _ => ThreadNameOk name
  | .createSem | .waitSem | .signalSem => SemNameKept name
  | .connect => AddressKept name

def room : NamedSyscall → Nat
  | .createSem | .waitSem | .signalSem => 64
  | _ => 32

end NamedSyscall

/-! ## `User2System` on a string -/

section

variable {κ : Type} {sys : Services κ} {s : KernelState κ} {str : CString}

theorem readChars_string (cfg : Build) {addr : Word} (hm : s.machine.Mapped)
    (hstr : UserHolds s.machine addr (str ++ [0])) (hz : 0 ∉ str) (n : Nat) :
    ∃ m, (readChars cfg addr n : HandlerM κ _).run s = .ok ((str ++ [0]).take n) { s with machine := m } ∧
      s.machine.Peeked m := by
  induction str generalizing addr s n with
  | nil =>
    cases n with
    | zero => exact ⟨s.machine, rfl, .refl _⟩
    | succ n =>
      obtain ⟨m1, hrun1, hpeek1⟩ := Machine.readMem_byte cfg hm (holdsBlock_cons.1 hstr).1
      refine ⟨m1, ?_, hpeek1⟩
      rw [readChars, run_step (onMachine_run hrun1)]
      simp only [List.nil_append, List.take_succ_cons, List.take_nil]
      rfl
  | cons b str ih =>
    cases n with
    | zero => exact ⟨s.machine, rfl, .refl _⟩
    | succ n =>
      obtain ⟨hb, hrest⟩ := holdsBlock_cons.1 hstr
      obtain ⟨hb0, hz⟩ := not_or.1 (List.mem_cons.not.1 hz)
      obtain ⟨m1, hrun1, hpeek1⟩ := Machine.readMem_byte cfg hm hb
      have hnext := Machine.toNat_succ_of_user hm hb
      have hstr1 : UserHolds m1 (addr + 1) (str ++ [0]) := by
        rw [UserHolds, hpeek1.user, hnext]
        exact hrest
      obtain ⟨m2, hrun2, hpeek2⟩ := ih (s := { s with machine := m1 }) (hpeek1.mapped hm) hstr1 hz n
      refine ⟨m2, ?_, hpeek1.trans hpeek2⟩
      rw [readChars, run_step (onMachine_run hrun1),
        if_neg (fun h => hb0 (signExtend_eq_zero.1 h).symm), run_step hrun2, truncate_signExtend]
      rfl

theorem cString_user2System (hz : 0 ∉ str) (n : Nat) : cString ((str ++ [0]).take n ++
      List.replicate (n + 1 - ((str ++ [0]).take n).length) 0) = str.take n := by
  rcases Nat.lt_or_ge str.length n with hlt | hge
  · have htake : (str ++ [0]).take n = str ++ [0] :=
      List.take_of_length_le (by rw [List.length_append, List.length_singleton]; omega)
    rw [htake, List.append_assoc, List.singleton_append, cString_append_zero hz,
      List.take_of_length_le hlt.le]
  · have htake : (str ++ [0]).take n = str.take n := List.take_append_of_le_length hge
    have hlen : n + 1 - (str.take n).length = (n - (str.take n).length) + 1 := by
      have := List.length_take_le n str
      omega
    rw [htake, hlen, List.replicate_succ,
      cString_append_zero fun h => hz (List.mem_of_mem_take h)]

theorem user2System_string (cfg : Build) (hfits : ∀ n, sys.fits n = true) {virtAddr limit : Word}
    (hm : s.machine.Mapped) (hstr : UserHolds s.machine virtAddr (str ++ [0]))
    (hz : 0 ∉ str) (hlimit : limit.toNat < 2 ^ 31 - 1) :
    ∃ buffer m, (user2System cfg sys virtAddr limit).run s = .ok buffer { s with machine := m } ∧
      cString buffer = str.take limit.toNat ∧ s.machine.Peeked m := by
  have hadd : (limit + 1).toNat = limit.toNat + 1 := by
    rw [BitVec.toNat_add, show (1 : Word).toNat = 1 by rfl]
    omega
  have hpos : 0 ≤ (limit + 1).toInt := by
    rw [BitVec.toInt_eq_toNat_of_lt (by omega)]
    exact Int.natCast_nonneg _
  have hne : limit + 1 ≠ 0 := fun h => by
    rw [h] at hadd
    exact absurd hadd (by simp)
  obtain ⟨m, hrun, hpeek⟩ := readChars_string cfg hm hstr hz limit.toNat
  refine ⟨_, m, ?_, cString_user2System hz limit.toNat, hpeek⟩
  rw [user2System, run_step (newArray_run hpos (hfits _)), if_neg hne, run_step hrun]
  rfl

end

/-! ## The handlers -/

namespace NamedSyscall

section

variable {κ : Type} {s : KernelState κ} {str : CString}

theorem passes_of_run (cfg : Build) {call : NamedSyscall} {addr limit : Word}
    (hm : s.machine.Mapped) (hz : 0 ∉ str) (hlimit : limit.toNat < 2 ^ 31 - 1)
    (hstr : UserHolds s.machine addr (str ++ [0]))
    (hrun : ∀ sys : Services κ, (call.handler cfg sys).run s =
      (user2System cfg sys addr limit >>= fun name => call.routine sys s.machine name).run s) :
    call.Passes cfg s (str.take limit.toNat) := by
  intro sys hfits
  obtain ⟨buffer, m, hread, hname, hpeek⟩ := user2System_string cfg hfits hm hstr hz hlimit
  refine ⟨buffer, m, hname, hpeek, ?_⟩
  rw [hrun sys, run_step hread]

theorem passes_execV (cfg : Build) {args : List CString} (hm : s.machine.Mapped)
    (hz : 0 ∉ str) (hstr : (execV args).UserString cfg s.machine str) :
    (execV args).Passes cfg s str := by
  obtain ⟨hargc, hargs, hat⟩ := hstr
  intro sys hfits
  have hcount : (s.machine.gp 4).toNat = (str :: args).length := by
    rw [BitVec.toInt_eq_toNat_cond] at hargc
    rw [List.length_cons]
    split at hargc <;> omega
  obtain ⟨m, hread, hpeek⟩ := readArgs_spec cfg (s := s) hm hfits
    (List.forall_mem_cons.2 ⟨hz, hargs⟩) hat
  refine ⟨str ++ [0, 0], m, cString_append_zero hz [0], hpeek, ?_⟩
  change (scExecV cfg sys).run s = _
  rw [scExecV_run, run_step (newArray_run (by omega) (hfits _)), hcount, run_step hread]
  rfl

theorem nameCall_run (cfg : Build) (sys : Services κ) (s : KernelState κ) (limit : Word)
    (service : List Byte → Service κ Word) : (nameCall cfg sys limit service).run s =
      (user2System cfg sys (s.machine.gp 4) limit >>= fun name => do
        finish (← call (service name))).run s := by
  rw [nameCall, run_step (readReg_run ..)]

theorem scOpen_run (cfg : Build) (sys : Services κ) (s : KernelState κ) : (scOpen cfg sys).run s =
    (user2System cfg sys (s.machine.gp 4) fileNameMaxLen >>= fun name =>
      openFile.routine sys s.machine name).run s := by
  rw [scOpen, run_step (readReg_run ..), run_step (readReg_run ..)]
  rfl

theorem scCreateSem_run (cfg : Build) (sys : Services κ) (s : KernelState κ) :
    (scCreateSem cfg sys).run s =
      (user2System cfg sys (s.machine.gp 4) semNameMaxLen >>= fun name =>
        createSem.routine sys s.machine name).run s := by
  rw [scCreateSem, run_step (readReg_run ..), run_step (readReg_run ..)]
  rfl

theorem scConnect_run (cfg : Build) (sys : Services κ) (s : KernelState κ) :
    (scConnect cfg sys).run s =
      (user2System cfg sys (s.machine.gp 5) fileNameMaxLen >>= fun name =>
        connect.routine sys s.machine name).run s := by
  rw [scConnect, run_step (readReg_run ..), run_step (readReg_run ..), run_step (readReg_run ..)]
  rfl

theorem passes_copied (cfg : Build) (call : NamedSyscall) (hm : s.machine.Mapped)
    (hz : 0 ∉ str) (hstr : call.UserString cfg s.machine str) : call.Passes cfg s (call.copied str) := by
  have hfile : fileNameMaxLen.toNat < 2 ^ 31 - 1 := by decide
  have hsem : semNameMaxLen.toNat < 2 ^ 31 - 1 := by decide
  cases call with
  | openFile => exact passes_of_run cfg hm hz hfile hstr fun sys => scOpen_run cfg sys s
  | remove | exec => exact passes_of_run cfg hm hz hfile hstr fun sys => nameCall_run cfg sys s _ _
  | execV args => exact passes_execV cfg hm hz hstr
  | createSem => exact passes_of_run cfg hm hz hsem hstr fun sys => scCreateSem_run cfg sys s
  | waitSem | signalSem =>
    exact passes_of_run cfg hm hz hsem hstr fun sys => nameCall_run cfg sys s _ _
  | connect => exact passes_of_run cfg hm hz hfile hstr fun sys => scConnect_run cfg sys s

end

end NamedSyscall

/-! ## What is kept -/

section Kept

variable {name : CString}

theorem zero_mem_strncpy {n : Nat} (hz : 0 ∉ name) : 0 ∈ strncpy name n ↔ name.length < n := by
  rw [strncpy, List.mem_append, List.mem_replicate]
  constructor
  · rintro (h | h)
    · exact absurd (List.mem_of_mem_take h) hz
    · omega
  · exact fun h => .inr ⟨by omega, rfl⟩

theorem holds_strncpy {n : Nat} (hz : 0 ∉ name) : Holds (strncpy name n) name ↔ name.length < n := by
  constructor
  · exact fun h => (zero_mem_strncpy hz).1 h.1
  · intro h
    refine ⟨(zero_mem_strncpy hz).2 h, ?_⟩
    rw [cString_strncpy hz, List.take_of_length_le h.le]

theorem holds_strcpy {memory : List Byte} (hz : 0 ∉ name) :
    (∃ array, strcpy memory name = some array ∧ Holds array name) ↔ name.length < memory.length := by
  unfold strcpy
  split
  case isTrue h => exact iff_of_true ⟨_, rfl, by simp, cString_append_zero hz _⟩ h
  case isFalse h => exact iff_of_false (by simp) h

theorem fileNameKept_iff (hz : 0 ∉ name) : FileNameKept name ↔ name.length < 32 := by
  constructor
  · exact fun h => (holds_strncpy hz).1 (h.stored 0 0)
  · intro h
    have htitle : cString (strncpy name maxFileNameLength) = name := ((holds_strncpy hz).2 h).2
    refine ⟨fun mode file => (holds_strncpy hz).2 h, fun mode file => ?_,
      fun s fd f mode file hfd hs hf => ?_⟩
    · change Holds (strncpy (cString (strncpy name maxFileNameLength)) maxFileNameLength) name
      rw [htitle]
      exact (holds_strncpy hz).2 h
    · obtain ⟨b, hb, hiff⟩ := isOpenIn_short s descriptors h
      rw [Files.isOpen, hb, hiff.2 ⟨fd, hfd, _, hs, ?_⟩]
      change cString f.fileName = name
      rw [hf]
      exact htitle

theorem semNameKept_iff (hz : 0 ∉ name) : SemNameKept name ↔ name.length < 64 := by
  constructor
  · intro h
    have := (holds_strcpy hz).1 (h.stored (List.replicate STable.semNameMaxLen 0)
      List.length_replicate)
    rw [List.length_replicate] at this
    exact this
  · intro h
    refine ⟨fun memory hlen => (holds_strcpy hz).2 (hlen ▸ h), fun permits => ?_,
      fun s htame i hi => ?_⟩
    · exact ⟨⟨name, permits, []⟩, if_pos h, rfl⟩
    · rcases STable.State.findName_spec htame name STable.maxSemaphore 0 (Nat.zero_add _) with
        hfound | ⟨-, hnone⟩
      · exact hfound
      · exact absurd hi (hnone i (Nat.zero_le i))

theorem connect_ipAddress {socket : Socket} {ip : CString} {port : Int} {s s' : Files}
    {r : Int × Socket} (h : (socket.connect ip port).run s = .ok r s') :
    r.2.ipAddress = strncpy ip maxFileNameLength := by
  have hreturns : Returns (socket.connect ip port) fun r =>
      r.2.ipAddress = strncpy ip maxFileNameLength := by
    refine Returns.bind answer_leaves fun a _ => Returns.ite (fun _ => Returns.pure rfl) fun _ => ?_
    refine Returns.bind answer_leaves fun _ _ => Returns.ite (fun _ => Returns.pure rfl) fun _ => ?_
    exact Returns.bind answer_leaves fun _ _ =>
      Returns.ite (fun _ => Returns.pure rfl) fun _ => Returns.pure rfl
  exact ((hreturns s.fdt).returns rfl h).2

theorem addressKept_iff (hz : 0 ∉ name) : AddressKept name ↔ name.length < 32 := by
  constructor
  · intro h
    -- the host has no socket
    have hrun : ∃ r s', ((⟨none, []⟩ : Socket).connect name 80).run
        (Files.initial oneFileHost [⟨-1, [], fun _ => false⟩] [] []) = .ok r s' := ⟨_, _, rfl⟩
    obtain ⟨r, s', hrun⟩ := hrun
    have := h _ _ _ _ _ hrun
    rw [connect_ipAddress hrun] at this
    exact (holds_strncpy hz).1 this
  · intro h socket port s r s' hrun
    rw [connect_ipAddress hrun]
    exact (holds_strncpy hz).2 h

theorem stopped_forking (s : PTable.State) (t : Tid) (argv : List PTable.Name) (p : Tid) (i : Nat)
    (space : AddrSpace) (noffH : NoffHeader) :
    (s.execStep t name argv (.forking p i space noffH)).stopped =
      if name.length < 32 then s.stopped else some (.fault .assertion) := by
  rw [PTable.State.execStep]
  by_cases h : name.length < 32
  · have hfits : name.length + 1 ≤ 32 := h
    rw [if_pos h, if_pos hfits]
    rfl
  · have hlong : ¬ name.length + 1 ≤ 32 := h
    rw [if_neg h, if_neg hlong]
    rfl

theorem threadNameOk_iff : ThreadNameOk name ↔ name.length < 32 := by
  constructor
  · intro h
    by_contra hlen
    have := h (PTable.initial PTable.zeroEnv ⟨0, [], rfl⟩ ⟨0, [], rfl⟩) 0 [] 0 0 ⟨⟨[]⟩, []⟩
      ⟨0, ⟨0, 0, 0⟩, ⟨0, 0, 0⟩, ⟨0, 0, 0⟩, ⟨0, 0, 0⟩⟩ rfl
    rw [stopped_forking, if_neg hlen] at this
    cases this
  · intro h s t argv p i space noffH hs
    rw [stopped_forking, if_pos h, hs]

end Kept

namespace NamedSyscall

theorem keeps_iff (call : NamedSyscall) {name : CString} (hz : 0 ∉ name) :
    call.Keeps name ↔ name.length < call.room := by
  cases call with
  | openFile | remove => exact fileNameKept_iff hz
  | exec | execV args => exact threadNameOk_iff
  | createSem | waitSem | signalSem => exact semNameKept_iff hz
  | connect => exact addressKept_iff hz

theorem length_copied (call : NamedSyscall) (str : CString) :
    (call.copied str).length < call.room ↔ str.length < call.room := by
  have hclip : ∀ n, (str.take n).length < n ↔ str.length < n := by
    intro n
    rw [List.length_take]
    omega
  cases call with
  | openFile | remove | exec | connect => exact hclip 32
  | execV args => exact Iff.rfl
  | createSem | waitSem | signalSem => exact hclip 64

theorem zero_notMem_copied (call : NamedSyscall) {str : CString} (hz : 0 ∉ str) :
    0 ∉ call.copied str := by
  unfold copied
  split
  · exact fun h => hz (List.mem_of_mem_take h)
  · exact hz

/-- **Names survive the trip into the kernel** exactly when they are shorter than the limit. -/
theorem names_kept_iff {κ : Type} (cfg : Build) (s : KernelState κ) (call : NamedSyscall)
    {str : CString} (hm : s.machine.Mapped) (hz : 0 ∉ str)
    (hstr : call.UserString cfg s.machine str) :
    call.Passes cfg s (call.copied str) ∧
      (call.Keeps (call.copied str) ↔ str.length < call.room) :=
  ⟨call.passes_copied cfg hm hz hstr,
    (call.keeps_iff (call.zero_notMem_copied hz)).trans (call.length_copied str)⟩

/-- A string of 31 characters, which the kernel keeps. -/
theorem names_kept_remove : remove.Keeps (remove.copied (List.replicate 31 97)) :=
  (names_kept_iff buildLinux (⟨onePage (List.replicate 31 97 ++ [0]) 0 0 0, ()⟩ : KernelState Unit)
    remove (mapped_onePage _ _ _ _) (by decide)
    (userHolds_onePage 0 0 0 (by decide))).2.2 (by decide)

/-- A string of 32 characters for `SC_Open`: the handler passes all of it, and `file_name` has no zero. -/
theorem long_name_not_kept :
    openFile.Passes buildLinux
      (⟨onePage (List.replicate 32 97 ++ [0]) 0 0 0, ()⟩ : KernelState Unit) (List.replicate 32 97) ∧
    (∀ mode file, 0 ∉ (DyOpenFile.new (List.replicate 32 97) mode file).fileName) ∧
      ¬ openFile.Keeps (List.replicate 32 97) := by
  have hz : (0 : Byte) ∉ List.replicate 32 (97 : Byte) := by decide
  refine ⟨?_, fun mode file => ?_, ?_⟩
  · exact openFile.passes_copied buildLinux (mapped_onePage _ _ _ _) hz
      (userHolds_onePage 0 0 0 (by decide))
  · exact (zero_mem_strncpy hz).not.2 (by decide)
  · exact (keeps_iff openFile hz).not.2 (by decide)

end NamedSyscall

end Nachos
