import Nachos.Machine.Proof.UserMemory
import Nachos.Userprog.Proof.Frames
import Nachos.Userprog.Proof.Syscalls

/-!
# Copies between user memory and the kernel

`User2System` reads up to a zero and pads with zeroes (`user2System_spec`); `System2User` writes up to
a zero (`system2User_spec`). Both stop behind the first zero: `upToZero`.
-/

namespace Nachos

open Base

def upToZero : List Byte → List Byte
  | [] => []
  | c :: cs => if c = 0 then [0] else c :: upToZero cs

theorem length_upToZero_le (cs : List Byte) : (upToZero cs).length ≤ cs.length := by
  induction cs with
  | nil => exact Nat.le_refl _
  | cons c cs ih =>
    unfold upToZero
    split
    · exact Nat.succ_le_succ (Nat.zero_le _)
    · exact Nat.succ_le_succ ih

theorem upToZero_append (cs ds : List Byte) :
    upToZero (cs ++ ds) = if 0 ∈ cs then upToZero cs else cs ++ upToZero ds := by
  induction cs with
  | nil => rfl
  | cons c cs ih =>
    rw [List.cons_append, upToZero, upToZero, ih]
    by_cases hc : c = 0
    · rw [if_pos hc, if_pos hc, if_pos (by simp [hc])]
    · rw [if_neg hc, if_neg hc]
      have hmem : (0 ∈ c :: cs) ↔ 0 ∈ cs := by
        rw [List.mem_cons]
        exact or_iff_right fun h => hc h.symm
      rw [if_congr hmem rfl rfl]
      split <;> rfl

theorem upToZero_of_not_mem {cs : List Byte} (h : 0 ∉ cs) : upToZero cs = cs := by
  have := upToZero_append cs []
  rwa [List.append_nil, if_neg h, upToZero, List.append_nil] at this

def clipped (cs : List Byte) : List Byte :=
  upToZero cs ++ List.replicate (cs.length - (upToZero cs).length) 0

theorem signExtend_eq_zero {b : Byte} : b.signExtend 32 = 0 ↔ b = 0 := by
  revert b
  decide

theorem truncate_signExtend (b : Byte) : (b.signExtend 32).truncate 8 = b := by
  revert b
  decide

section

variable {κ α : Type} {sys : Services κ} {s : KernelState κ} {m : Machine} {addr virtAddr : Word}
    {bs buffer : List Byte}

theorem onMachine_run {x : MachineM α} {a : α} (h : x.run s.machine = .ok a m) :
    (onMachine x : HandlerM κ α).run s = .ok a { s with machine := m } := by
  dsimp only [EStateM.run, onMachine] at h ⊢
  rw [h]

theorem finish_run (s : KernelState κ) (res : Word) :
    ∃ m, (finish res : HandlerM κ Word).run s = .ok res { s with machine := m } ∧
      m.user = s.machine.user := ⟨_, rfl, rfl⟩

abbrev UserHolds (m : Machine) (addr : Word) (bs : List Byte) : Prop :=
  HoldsBlock m.user addr.toNat (bs.map some)

theorem readChars_spec (cfg : Build) (hm : s.machine.Mapped) (hbs : UserHolds s.machine addr bs) :
    ∃ m, (readChars cfg addr bs.length : HandlerM κ _).run s = .ok (upToZero bs) { s with machine := m } ∧
      s.machine.Peeked m := by
  induction bs generalizing addr s with
  | nil => exact ⟨s.machine, rfl, .refl _⟩
  | cons b bs ih =>
    obtain ⟨hb, hrest⟩ := holdsBlock_cons.1 hbs
    obtain ⟨m1, hrun1, hpeek1⟩ := Machine.readMem_byte cfg hm hb
    have hnext := Machine.toNat_succ_of_user hm hb
    rw [List.length_cons, readChars, run_step (onMachine_run hrun1)]
    by_cases hz : b = 0
    · rw [if_pos (signExtend_eq_zero.2 hz), upToZero, if_pos hz]
      exact ⟨m1, rfl, hpeek1⟩
    · rw [if_neg (fun h => hz (signExtend_eq_zero.1 h)), upToZero, if_neg hz]
      have hbs1 : UserHolds m1 (addr + 1) bs := by
        rw [UserHolds, hpeek1.user, hnext]
        exact hrest
      obtain ⟨m2, hrun2, hpeek2⟩ := ih (s := { s with machine := m1 }) (hpeek1.mapped hm) hbs1
      refine ⟨m2, ?_, hpeek1.trans hpeek2⟩
      rw [run_step hrun2, truncate_signExtend]
      rfl

theorem writeChars_spec (cfg : Build) (hm : s.machine.Mapped)
    (hbs : UserHolds s.machine addr bs) (hlen : bs.length ≤ buffer.length) :
    ∃ m, (writeChars cfg addr buffer bs.length : HandlerM κ _).run s =
        .ok (upToZero (buffer.take bs.length)).length { s with machine := m } ∧
      s.machine.Touched m ∧
      m.user = writeBlock s.machine.user addr.toNat ((upToZero (buffer.take bs.length)).map some) := by
  induction bs generalizing addr s buffer with
  | nil =>
    rw [List.length_nil, writeChars, List.take_zero, upToZero]
    exact ⟨s.machine, rfl, .refl _, by simp⟩
  | cons b bs ih =>
    cases buffer with
    | nil => exact absurd hlen (by simp)
    | cons c buffer =>
      obtain ⟨hb, hrest⟩ := holdsBlock_cons.1 hbs
      have hnext := Machine.toNat_succ_of_user hm hb
      obtain ⟨m1, hrun1, htouch1, huser1⟩ := Machine.writeMem_byte cfg addr (c.signExtend 32)
        hm (by rw [hb]; rfl)
      rw [truncate_signExtend] at huser1
      rw [List.length_cons, writeChars, run_step (onMachine_run hrun1), List.take_succ_cons, upToZero]
      by_cases hz : c = 0
      · rw [if_pos hz, if_pos hz]
        refine ⟨m1, rfl, htouch1, ?_⟩
        rw [huser1, hz, List.map_singleton, writeBlock_cons, writeBlock_nil]
      · rw [if_neg hz, if_neg hz]
        have hbs1 : UserHolds m1 (addr + 1) bs := by
          rw [UserHolds, huser1, hnext]
          intro i hi
          rw [Function.update_of_ne (by omega)]
          exact hrest i hi
        obtain ⟨m2, hrun2, htouch2, huser2⟩ := ih (s := { s with machine := m1 })
          (htouch1.mapped hm) hbs1 (Nat.le_of_succ_le_succ hlen)
        refine ⟨m2, ?_, htouch1.trans htouch2, ?_⟩
        · rw [run_step hrun2]
          rfl
        · rw [huser2, huser1, hnext, List.map_cons, writeBlock_cons]

theorem length_le_of_userHolds (hm : m.Mapped)
    (hbs : UserHolds m addr bs) : bs.length ≤ memorySize := by
  rcases Nat.eq_zero_or_pos bs.length with h0 | hpos
  · omega
  · have hi : bs.length - 1 < bs.length := by omega
    have hb := hbs (bs.length - 1) (by rwa [List.length_map])
    rw [List.getElem?_map, List.getElem?_eq_getElem hi, Option.map_some, Option.some_inj] at hb
    obtain ⟨p, hp, -⟩ := Option.map_eq_some_iff.1 hb.symm
    have := Machine.lt_of_physical hm hp
    omega

theorem toInt_of_le {w : Word} (h : w.toNat ≤ memorySize) : w.toInt = w.toNat := by
  have : memorySize = 16384 := rfl
  rw [BitVec.toInt_eq_toNat_of_lt (by omega)]

theorem toNat_succ_of_length {n : Word} (hm : m.Mapped)
    (hbs : UserHolds m addr bs) (hn : n.toNat = bs.length) :
    (n + 1).toNat = bs.length + 1 ∧ 0 ≤ (n + 1).toInt := by
  have hle := length_le_of_userHolds hm hbs
  have hmem : memorySize = 16384 := rfl
  have hadd : (n + 1).toNat = bs.length + 1 := by
    rw [BitVec.toNat_add, show (1 : Word).toNat = 1 by rfl]
    omega
  refine ⟨hadd, ?_⟩
  rw [BitVec.toInt_eq_toNat_of_lt (by omega)]
  exact Int.natCast_nonneg _

theorem newArray_run {n : Word} {width : Nat} (h : 0 ≤ n.toInt)
    (hfits : sys.fits (n.toNat * width) = true) : (newArray sys n width).run s = .ok () s := by
  rw [newArray, if_pos ⟨h, hfits⟩]
  rfl

theorem user2System_spec (cfg : Build) (sys : Services κ) {limit : Word} (hm : s.machine.Mapped)
    (hbs : UserHolds s.machine virtAddr bs) (hlimit : limit.toNat = bs.length)
    (hfits : sys.fits (bs.length + 1) = true) :
    ∃ m, (user2System cfg sys virtAddr limit).run s = .ok (clipped bs ++ [0]) { s with machine := m } ∧
      s.machine.Peeked m := by
  obtain ⟨hadd, hpos⟩ := toNat_succ_of_length hm hbs hlimit
  have hne : limit + 1 ≠ 0 := fun h => by
    rw [h] at hadd
    exact absurd hadd (by simp)
  obtain ⟨m, hrun, hpeek⟩ := readChars_spec cfg hm hbs
  refine ⟨m, ?_, hpeek⟩
  rw [user2System, run_step (newArray_run hpos (by rw [hadd, Nat.mul_one]; exact hfits)),
    if_neg hne, hlimit, run_step hrun]
  have hlen := length_upToZero_le bs
  rw [clipped, show bs.length + 1 - (upToZero bs).length = bs.length - (upToZero bs).length + 1 by
    omega, List.replicate_succ', List.append_assoc]
  rfl

theorem system2User_neg (cfg : Build) {len : Word} (h : len.toInt < 0) :
    (system2User cfg virtAddr len buffer : HandlerM κ Word).run s = .ok (-1) s := by
  rw [system2User, if_pos h]
  rfl

theorem system2User_spec (cfg : Build) {len : Word} (hm : s.machine.Mapped)
    (hbs : UserHolds s.machine virtAddr bs) (hlen : len.toNat = bs.length)
    (hbuf : bs.length ≤ buffer.length) :
    ∃ r m, (system2User cfg virtAddr len buffer : HandlerM κ Word).run s =
        .ok r { s with machine := m } ∧ s.machine.Touched m ∧
      m.user = writeBlock s.machine.user virtAddr.toNat
        ((upToZero (buffer.take bs.length)).map some) := by
  have hle := length_le_of_userHolds hm hbs
  rw [system2User, if_neg (by rw [toInt_of_le (by omega)]; omega)]
  by_cases h0 : len = 0
  · have hnil : bs.length = 0 := by rw [← hlen, h0]; rfl
    rw [if_pos h0, hnil, List.take_zero]
    exact ⟨len, s.machine, rfl, .refl _, by simp [upToZero]⟩
  · obtain ⟨m, hrun, htouch, huser⟩ := writeChars_spec cfg hm hbs hbuf
    refine ⟨BitVec.ofNat 32 (upToZero (buffer.take bs.length)).length, m, ?_, htouch, huser⟩
    rw [if_neg h0, hlen, run_step hrun]
    rfl

end

/-- A machine with one page, these bytes at address 0 and these arguments. -/
def onePage (bytes : List Byte) (r4 r5 r6 : Word) : Machine :=
  (((Machine.mk 0 (writeBlock 0 0 bytes) none (some [⟨0, 0, true, false, false, false⟩]) 1).setReg
    (gpr 4) r4).setReg (gpr 5) r5).setReg (gpr 6) r6

theorem mapped_onePage (bytes : List Byte) (r4 r5 r6 : Word) : (onePage bytes r4 r5 r6).Mapped := by
  refine ⟨rfl, nofun, rfl, ?_, List.nodup_singleton 0⟩
  intro e he
  rw [List.mem_singleton.1 he]
  decide

theorem userHolds_onePage {bytes : List Byte} (r4 r5 r6 : Word) (h : bytes.length ≤ pageSize) :
    UserHolds (onePage bytes r4 r5 r6) 0 bytes := by
  intro i hi
  rw [List.length_map] at hi
  have hlt : i < pageSize := Nat.lt_of_lt_of_le hi h
  have hbyte : (onePage bytes r4 r5 r6).mainMemory i = writeBlock 0 0 bytes i := rfl
  have hphysical : (onePage bytes r4 r5 r6).physical i = some i := by
    rw [Machine.physical, Nat.div_eq_of_lt hlt, Nat.mod_eq_of_lt hlt]
    change some (0 * pageSize + i) = some i
    rw [Nat.zero_mul, Nat.zero_add]
  have hblock : bytes[i - 0]? = some (writeBlock 0 0 bytes i) :=
    writeBlock_of_mem ⟨Nat.zero_le i, by omega⟩
  rw [show (0 : Word).toNat + i = i by simp, Machine.user, hphysical, Option.map_some, hbyte,
    List.getElem?_map, ← Nat.sub_zero i, hblock, Nat.sub_zero, Option.map_some]

/-- A kernel with memory for every `new`, none of whose routines returns. -/
def stoppedServices (κ : Type) : Services κ where
  fits _ := true
  junk := 0
  getId _ := 0
  getArgv _ _ := none
  putString _ _ _ _ := .error .finished
  sysCreate _ _ _ := .error .finished
  sysRemove _ _ _ := .error .finished
  sysOpen _ _ _ _ := .error .finished
  sysClose _ _ _ := .error .finished
  sysRead _ _ _ _ _ := .error .finished
  sysWrite _ _ _ _ _ := .error .finished
  sysSeek _ _ _ _ := .error .finished
  sysSocketTCP _ _ := .error .finished
  sysConnect _ _ _ _ _ := .error .finished
  sysSend _ _ _ _ _ := .error .finished
  sysReceive _ _ _ _ _ := .error .finished
  sysServerCreate _ _ _ := .error .finished
  sysServerListen _ _ _ := .error .finished
  sysExec _ _ _ := .error .finished
  execVUpdate _ _ _ _ := .error .finished
  sysJoin _ _ _ := .error .finished
  sysExit _ _ _ := .error .finished
  sysCreateSem _ _ _ _ := .error .finished
  sysWait _ _ _ := .error .finished
  sysSignal _ _ _ := .error .finished

end Nachos
