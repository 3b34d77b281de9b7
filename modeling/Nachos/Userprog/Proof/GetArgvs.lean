import Nachos.Filesys.Streams
import Nachos.Threads.Proof.Arguments
import Nachos.Userprog.Proof.Buffers

/-!
# The arguments of a program (`SC_ExecV`, `SC_GetArgvs`)

`SC_ExecV` reads the strings of the caller (`readArgs_spec`), `ExecVUpdate` keeps them in the PCB of the
child (`PTable.execV_args`), and `SC_GetArgvs` copies them to slots of a buffer (`copyArgs_eq`). The
handler clears the first slot of its buffer only, and lets a string fill its slot to the last byte: what
the child gets is right exactly when it asks for one argument that is shorter than the slot
(`argument_round_trip_iff`).
-/

namespace Nachos

open Base

/-! ## The caller's strings -/

section

variable {κ : Type} {sys : Services κ} {s s' : KernelState κ} {a old : List Byte} {addr w : Word}
    {argv args : List (List Byte)} {size : Nat}

theorem clipped_cString (hz : 0 ∉ a) : clipped (a ++ [0]) = a ++ [0] := by
  have hup : upToZero (a ++ [0]) = a ++ [0] := by
    rw [upToZero_append, if_neg hz]
    rfl
  rw [clipped, hup, Nat.sub_self, List.replicate_zero, List.append_nil]

theorem argLength_spec (cfg : Build) {fuel : Nat} (hm : s.machine.Mapped)
    (ha : UserHolds s.machine addr (a ++ [0])) (hz : 0 ∉ a) (hfuel : a.length < fuel) :
    ∃ m, (argLength cfg fuel addr : HandlerM κ Nat).run s =
      .ok (a.length + 1) { s with machine := m } ∧ s.machine.Peeked m := by
  induction a generalizing addr s fuel with
  | nil =>
    obtain ⟨fuel, rfl⟩ := Nat.exists_eq_add_of_lt hfuel
    obtain ⟨m1, hrun1, hpeek1⟩ := Machine.readMem_byte cfg hm (holdsBlock_cons.1 ha).1
    refine ⟨m1, ?_, hpeek1⟩
    rw [argLength, run_step (onMachine_run hrun1)]
    rfl
  | cons b a ih =>
    obtain ⟨fuel, rfl⟩ := Nat.exists_eq_add_of_lt hfuel
    obtain ⟨hb, hrest⟩ := holdsBlock_cons.1 ha
    obtain ⟨hb0, hz⟩ := not_or.1 (List.mem_cons.not.1 hz)
    obtain ⟨m1, hrun1, hpeek1⟩ := Machine.readMem_byte cfg hm hb
    have hnext := Machine.toNat_succ_of_user hm hb
    have ha1 : UserHolds m1 (addr + 1) (a ++ [0]) := by
      rw [UserHolds, hpeek1.user, hnext]
      exact hrest
    obtain ⟨m2, hrun2, hpeek2⟩ := ih (s := { s with machine := m1 }) (hpeek1.mapped hm) ha1 hz
      (show a.length < (b :: a).length + fuel by rw [List.length_cons]; omega)
    refine ⟨m2, ?_, hpeek1.trans hpeek2⟩
    rw [argLength, run_step (onMachine_run hrun1), truncate_signExtend, if_neg (Ne.symm hb0),
      run_step hrun2]
    rfl

/-- The argument vector of a program: the addresses of these strings, in aligned words. -/
def ArgsAt (cfg : Build) (m : Machine) : Word → List (List Byte) → Prop
  | _, [] => True
  | addr, a :: argv => addr &&& 0x3#32 = 0 ∧
      (∃ argAddr, m.userWord cfg addr.toNat = some argAddr ∧ UserHolds m argAddr (a ++ [0])) ∧
      ArgsAt cfg m (addr + 4) argv

theorem ArgsAt.of_peeked {cfg : Build} {m m' : Machine}
    (h : ArgsAt cfg m addr argv) (hp : m.Peeked m') : ArgsAt cfg m' addr argv := by
  induction argv generalizing addr with
  | nil => trivial
  | cons a argv ih =>
    obtain ⟨hal, ⟨argAddr, hw, ha⟩, hrest⟩ := h
    refine ⟨hal, ⟨argAddr, ?_, ?_⟩, ih hrest⟩
    · rw [hp.userWord, hw]
    · rw [UserHolds, hp.user]
      exact ha

theorem readArgs_spec (cfg : Build) (hm : s.machine.Mapped)
    (hfits : ∀ n, sys.fits n = true) (hz : ∀ a ∈ argv, 0 ∉ a)
    (hargs : ArgsAt cfg s.machine addr argv) :
    ∃ m, (readArgs cfg sys addr argv.length).run s =
      .ok (argv.map (· ++ [0, 0])) { s with machine := m } ∧ s.machine.Peeked m := by
  induction argv generalizing addr s with
  | nil => exact ⟨s.machine, rfl, .refl _⟩
  | cons a argv ih =>
    obtain ⟨hal, ⟨argAddr, hw, ha⟩, hrest⟩ := hargs
    obtain ⟨hza, hz⟩ := List.forall_mem_cons.1 hz
    obtain ⟨m1, hrun1, hpeek1⟩ := Machine.readMem_word cfg hm hal hw
    have hm1 := hpeek1.mapped hm
    have ha1 : UserHolds m1 argAddr (a ++ [0]) := by
      rw [UserHolds, hpeek1.user]
      exact ha
    have hlen := length_le_of_userHolds hm ha
    rw [List.length_append, List.length_singleton] at hlen
    have hmem : memorySize < addressCount := by decide
    obtain ⟨m2, hrun2, hpeek2⟩ := argLength_spec cfg (s := { s with machine := m1 }) hm1 ha1 hza
      (show a.length < addressCount by omega)
    have hm2 := hpeek2.mapped hm1
    have ha2 : UserHolds m2 argAddr (a ++ [0]) := by
      rw [UserHolds, hpeek2.user]
      exact ha1
    have hlimit : (BitVec.ofNat 32 (a.length + 1)).toNat = (a ++ [0]).length := by
      have : memorySize = 16384 := rfl
      rw [BitVec.toNat_ofNat, List.length_append, List.length_singleton]
      omega
    obtain ⟨m3, hrun3, hpeek3⟩ := user2System_spec cfg sys (s := { s with machine := m2 }) hm2 ha2
      hlimit (hfits _)
    rw [clipped_cString hza] at hrun3
    have hpeek : s.machine.Peeked m3 := (hpeek1.trans hpeek2).trans hpeek3
    obtain ⟨m4, hrun4, hpeek4⟩ := ih (s := { s with machine := m3 }) (hpeek.mapped hm) hz
      (hrest.of_peeked hpeek)
    refine ⟨m4, ?_, hpeek.trans hpeek4⟩
    rw [List.length_cons, readArgs, run_step (onMachine_run hrun1), run_step hrun2, run_step hrun3,
      run_step hrun4, List.map_cons, List.append_assoc]
    rfl

theorem scExecV_run (cfg : Build) (sys : Services κ) (s : KernelState κ) :
    (scExecV cfg sys).run s = (newArray sys (s.machine.gp 4) 4 >>= fun _ => do
      let argv ← readArgs cfg sys (s.machine.gp 5) (s.machine.gp 4).toNat
      finish (← sysExecV sys (s.machine.gp 4) argv)).run s := by
  rw [scExecV, run_step (readReg_run ..), run_step (readReg_run ..)]

theorem assertK_run {c : Prop} [Decidable c] (h : c) :
    (assertK c : HandlerM κ Unit).run s = .ok () s := by
  rw [assertK, if_pos h]
  rfl

theorem newArray_state {n : Word} {width : Nat}
    (h : (newArray sys n width).run s = .ok () s') : s' = s := by
  unfold newArray at h
  split at h
  · cases h
    rfl
  · cases h

theorem finish_kernel {res : Word}
    (h : (finish res : HandlerM κ Word).run s = .ok w s') : w = res ∧ s'.kernel = s.kernel := by
  obtain ⟨m, hrun, -⟩ := finish_run s res
  cases hrun.symm.trans h
  exact ⟨rfl, rfl⟩

theorem sysExecV_ok {argc : Word} (h : (sysExecV sys argc argv).run s = .ok w s') :
    ∃ m, sys.execVUpdate argc argv s.kernel s.machine = .ok (w, s'.kernel, m) := by
  unfold sysExecV at h
  obtain ⟨_, s1, hassert, hcall⟩ := run_bind_ok h
  have hs1 : s1 = s := by
    unfold assertK at hassert
    split at hassert
    · cases hassert
      rfl
    · cases hassert
  subst hs1
  dsimp only [EStateM.run, call] at hcall
  split at hcall
  · rename_i hupdate
    cases hcall
    exact ⟨_, hupdate⟩
  · cases hcall

theorem scExecV_ok (cfg : Build) (hm : s.machine.Mapped) (hfits : ∀ n, sys.fits n = true)
    (hargc : (s.machine.gp 4).toNat = argv.length) (hz : ∀ a ∈ argv, 0 ∉ a)
    (hargs : ArgsAt cfg s.machine (s.machine.gp 5) argv) (h : (scExecV cfg sys).run s = .ok w s') :
    ∃ m m', sys.execVUpdate (s.machine.gp 4) (argv.map (· ++ [0, 0])) s.kernel m =
      .ok (w, s'.kernel, m') := by
  rw [scExecV_run] at h
  obtain ⟨_, s1, hnew, h⟩ := run_bind_ok h
  cases newArray_state hnew
  obtain ⟨m, hread, -⟩ := readArgs_spec cfg hm hfits hz hargs
  rw [hargc, run_step hread] at h
  obtain ⟨r, s2, hexec, h⟩ := run_bind_ok h
  obtain ⟨m', hupdate⟩ := sysExecV_ok hexec
  obtain ⟨rfl, hkernel⟩ := finish_kernel h
  rw [hkernel]
  exact ⟨m, m', hupdate⟩

theorem scExecV_returns (cfg : Build) {r : Word} {k : κ}
    (hm : s.machine.Mapped) (hfits : ∀ n, sys.fits n = true)
    (hargc : (s.machine.gp 4).toNat = argv.length) (hpos : 0 < (s.machine.gp 4).toInt)
    (hz : ∀ a ∈ argv, 0 ∉ a) (hargs : ArgsAt cfg s.machine (s.machine.gp 5) argv)
    (hupdate : ∀ m, sys.execVUpdate (s.machine.gp 4) (argv.map (· ++ [0, 0])) s.kernel m =
      .ok (r, k, m)) :
    ∃ m, (scExecV cfg sys).run s = .ok r ⟨m, k⟩ := by
  obtain ⟨m1, hread, -⟩ := readArgs_spec cfg hm hfits hz hargs
  obtain ⟨m2, hfinish, -⟩ := finish_run (⟨m1.restored m1, k⟩ : KernelState κ) r
  refine ⟨m2, ?_⟩
  rw [scExecV_run, run_step (newArray_run (by omega) (hfits _)), hargc, run_step hread,
    EStateM.run_bind, sysExecV, run_step (assertK_run hpos)]
  dsimp only [EStateM.run, call] at hfinish ⊢
  rw [hupdate]
  exact hfinish

/-! ## The slots -/

/-- What the buffer should have at byte `i`: each argument cut to `size - 1` characters, and zeroes to
the end of its slot. -/
def slotByte (args : List (List Byte)) (size i : Nat) : Byte :=
  ((args[i / size]?.getD []).take (size - 1))[i % size]?.getD 0

def copiedByte (args : List (List Byte)) (size : Nat) (temp : Nat → Byte) (i : Nat) : Byte :=
  (args[i / size]?.getD [])[i % size]?.getD (temp i)

theorem strnlen_cString (hz : 0 ∉ a) (size : Nat) :
    (a ++ [0]).take (strnlen (a ++ [0]) size) = a.take size := by
  have hnone : ∀ b : List Byte, (∀ c ∈ b, c ∈ a) → b.findIdx (· == 0) = b.length := by
    intro b hb
    rw [List.findIdx_eq_length]
    intro c hc
    exact beq_false_of_ne fun h => hz (h ▸ hb c hc)
  rcases Nat.lt_or_ge a.length size with h | h
  · have htake : (a ++ [0]).take size = a ++ [0] := by
      rw [List.take_of_length_le]
      rw [List.length_append, List.length_singleton]
      exact h
    rw [strnlen, htake, List.findIdx_append, hnone a fun _ hc => hc, if_neg (Nat.lt_irrefl _)]
    rw [show List.findIdx (· == 0) [(0 : Byte)] = 0 from rfl, Nat.zero_add, List.take_left,
      List.take_of_length_le (Nat.le_of_lt h)]
  · have htake : (a ++ [0]).take size = a.take size := List.take_append_of_le_length h
    rw [strnlen, htake, hnone (a.take size) fun _ hc => List.mem_of_mem_take hc,
      List.length_take_of_le h, htake]

theorem copyArgs_eq {count result : Nat} (hsize : 0 < size)
    (hz : ∀ a ∈ args, 0 ∉ a) (hresult : result ≤ count) (temp : Nat → Byte) :
    copyArgs size (size * count) count (args.map (· ++ [0])) result temp =
      .ok (min count (result + args.length), fun i =>
        if result ≤ i / size then
          ((args.take (count - result))[i / size - result]?.getD [])[i % size]?.getD (temp i)
        else temp i) := by
  induction args generalizing result temp with
  | nil =>
    rw [List.map_nil, copyArgs, List.length_nil, Nat.add_zero, Nat.min_eq_right hresult]
    simp
  | cons a args ih =>
    obtain ⟨hza, hz⟩ := List.forall_mem_cons.1 hz
    rw [List.map_cons, copyArgs]
    by_cases hc : result = count
    · rw [if_pos hc, hc, Nat.sub_self, Nat.min_eq_left (Nat.le_add_right _ _)]
      simp
    · have hlt : result + 1 ≤ count := by omega
      have hroom : result * size + size ≤ size * count := by
        rw [← Nat.succ_mul, Nat.mul_comm size]
        exact Nat.mul_le_mul_right size hlt
      have hchars : (a.take size).length ≤ size := List.length_take_le _ _
      rw [if_neg hc, strnlen_cString hza]
      dsimp only
      rw [if_neg (by omega), ih hz hlt, List.length_cons]
      congr 2
      · omega
      · funext i
        have hdiv : ∀ k, k ≤ i / size ↔ k * size ≤ i := fun k => Nat.le_div_iff_mul_le hsize
        rcases Nat.lt_trichotomy (i / size) result with h | h | h
        · -- a slot before
          have hi : ¬ result * size ≤ i := fun hi => by
            have := (hdiv result).2 hi
            omega
          rw [if_neg (by omega), if_neg (by omega), writeBlock_of_not fun hin => hi hin.1]
        · -- the slot of this argument
          subst h
          have hslot : i - i / size * size = i % size := by
            have := Nat.div_add_mod' i size
            omega
          rw [if_neg (by omega), if_pos (Nat.le_refl _), Nat.sub_self,
            show count - i / size = count - (i / size + 1) + 1 by omega, List.take_succ_cons,
            List.getElem?_cons_zero, Option.getD_some, writeBlock, if_pos ((hdiv _).1 (Nat.le_refl _)),
            hslot, List.getElem?_take_of_lt (Nat.mod_lt i hsize)]
        · -- a slot behind
          have hi : result * size + size ≤ i := by
            rw [← Nat.succ_mul]
            exact (hdiv _).1 h
          rw [if_pos (Nat.succ_le_of_lt h), if_pos (Nat.le_of_lt h),
            show count - result = count - (result + 1) + 1 by omega,
            show i / size - result = i / size - (result + 1) + 1 by omega, List.take_succ_cons,
            List.getElem?_cons_succ, writeBlock_of_not fun hin => ?_]
          obtain ⟨-, hin⟩ := hin
          omega

theorem copyArgs_start {n : Nat} (hsize : 0 < size) (hz : ∀ a ∈ args, 0 ∉ a) (temp : Nat → Byte) :
    copyArgs size (size * n) n (args.map (· ++ [0])) 0 temp =
      .ok (min n args.length, copiedByte (args.take n) size temp) := by
  rw [copyArgs_eq hsize hz (Nat.zero_le n), Nat.zero_add]
  congr 2

theorem writeArgs_spec (cfg : Build) {virtAddr : Word} {i : Nat} {bs : List Byte}
    (temp : Nat → Byte) (hm : s.machine.Mapped)
    (hbs : HoldsBlock s.machine.user (virtAddr.toNat + i) (bs.map some)) :
    ∃ m, (writeArgs cfg virtAddr temp i bs.length : HandlerM κ Unit).run s =
        .ok () { s with machine := m } ∧ s.machine.Touched m ∧
      m.user = writeBlock s.machine.user (virtAddr.toNat + i)
        ((List.range' i bs.length).map fun j => some (temp j)) := by
  induction bs generalizing i s with
  | nil => exact ⟨s.machine, rfl, .refl _, by simp⟩
  | cons b bs ih =>
    obtain ⟨hb, hrest⟩ := holdsBlock_cons.1 hbs
    obtain ⟨p, hp, -⟩ := Option.map_eq_some_iff.1 hb
    have haddr : (virtAddr + BitVec.ofNat 32 i).toNat = virtAddr.toNat + i := by
      have hlt : virtAddr.toNat + i < 16384 := Machine.lt_of_physical hm hp
      rw [BitVec.toNat_add, BitVec.toNat_ofNat]
      omega
    obtain ⟨m1, hrun1, htouch1, huser1⟩ := Machine.writeMem_byte cfg (virtAddr + BitVec.ofNat 32 i)
      ((temp i).signExtend 32) hm (by rw [haddr, hb]; rfl)
    rw [truncate_signExtend, haddr] at huser1
    have hrest1 : HoldsBlock m1.user (virtAddr.toNat + (i + 1)) (bs.map some) := by
      rw [huser1]
      intro j hj
      rw [Function.update_of_ne (by omega)]
      exact hrest j hj
    obtain ⟨m2, hrun2, htouch2, huser2⟩ := ih (s := { s with machine := m1 }) (htouch1.mapped hm) hrest1
    refine ⟨m2, ?_, htouch1.trans htouch2, ?_⟩
    · rw [List.length_cons, writeArgs, run_step (onMachine_run hrun1)]
      exact hrun2
    · rw [huser2, huser1, List.length_cons, List.range'_succ, List.map_cons, writeBlock_cons]
      rfl

theorem toNat_pos_of_toInt (h : 0 < w.toInt) : 0 < w.toNat := by
  by_contra h0
  rw [BitVec.toInt_eq_toNat_of_lt (by omega)] at h
  omega

/-- The kernel with these bytes in what `new` returns. -/
def Services.withJunk (sys : Services κ) (junk : Nat → Byte) : Services κ := { sys with junk }

/-- The buffer is right: the number of arguments, each in its slot, and zeroes everywhere else. -/
def GetsArgs (cfg : Build) (sys : Services κ) (s : KernelState κ) (argv : List (List Byte)) : Prop :=
  ∃ s', (scGetArgvs cfg sys).run s =
      .ok (BitVec.ofNat 32 (min (s.machine.gp 4).toNat (argv.length - 1))) s' ∧
    s'.machine.gp 2 = BitVec.ofNat 32 (min (s.machine.gp 4).toNat (argv.length - 1)) ∧
    s'.machine.user = writeBlock s.machine.user (s.machine.gp 5).toNat
      ((List.range ((s.machine.gp 6).toNat * (s.machine.gp 4).toNat)).map fun i =>
        some (slotByte argv.tail (s.machine.gp 6).toNat i))

theorem getElem?_ne_zero (hz : 0 ∉ a) (j : Nat) : a[j]?.getD 1 ≠ 0 := by
  cases h : a[j]? with
  | none => exact by decide
  | some b =>
    intro hb
    exact hz (hb ▸ List.mem_of_getElem? h)

theorem last_div_mod (hsize : 0 < size) (k : Nat) :
    (size - 1 + k * size) / size = k ∧ (size - 1 + k * size) % size = size - 1 := by
  have hlt : size - 1 < size := by omega
  rw [Nat.add_mul_div_right _ _ hsize, Nat.add_mul_mod_self_right, Nat.div_eq_of_lt hlt,
    Nat.mod_eq_of_lt hlt, Nat.zero_add]
  exact ⟨rfl, rfl⟩

theorem copiedByte_last_ne {args' : List (List Byte)} {k : Nat} (hsize : 0 < size)
    (hz : ∀ a ∈ args, 0 ∉ a) {temp : Nat → Byte}
    (h : temp (size - 1 + k * size) = 1 ∨ ∃ a, args[k]? = some a ∧ size ≤ a.length) :
    copiedByte args size temp (size - 1 + k * size) ≠ slotByte args' size (size - 1 + k * size) := by
  obtain ⟨hdiv, hmod⟩ := last_div_mod hsize k
  have hslot : slotByte args' size (size - 1 + k * size) = 0 := by
    rw [slotByte, hdiv, hmod, List.getElem?_eq_none (List.length_take_le _ _)]
    rfl
  rw [hslot, copiedByte, hdiv, hmod]
  rcases h with htemp | ⟨a, ha, hlen⟩
  · rw [htemp]
    apply getElem?_ne_zero
    cases ha : args[k]? with
    | none => exact List.not_mem_nil
    | some a => exact hz a (List.mem_of_getElem? ha)
  · rw [ha, Option.getD_some, List.getElem?_eq_getElem (by omega), Option.getD_some]
    intro h0
    exact hz a (List.mem_of_getElem? ha) (h0 ▸ List.getElem_mem _)

theorem copied_eq_slots_iff {count : Nat} (hsize : 0 < size)
    (hcount : 0 < count) (hz : ∀ a ∈ args, 0 ∉ a) :
    (∀ junk : Nat → Byte, ∀ i < size * count, copiedByte (args.take count) size
        (writeBlock junk 0 (List.replicate size 0)) i = slotByte args size i) ↔
      count = 1 ∧ ∀ a, args[0]? = some a → a.length < size := by
  have hztake : ∀ a ∈ args.take count, 0 ∉ a := fun a ha => hz a (List.mem_of_mem_take ha)
  have hin : ∀ k < count, size - 1 + k * size < size * count := by
    intro k hk
    have := Nat.mul_le_mul_right size (Nat.succ_le_of_lt hk)
    rw [Nat.succ_mul, Nat.mul_comm count] at this
    omega
  constructor
  · intro h
    specialize h fun _ => 1
    constructor
    · by_contra hne
      refine copiedByte_last_ne hsize hztake (.inl ?_) (h _ (hin 1 (by omega)))
      rw [writeBlock_of_not]
      rintro ⟨-, hlt⟩
      rw [List.length_replicate] at hlt
      omega
    · intro a ha
      by_contra hge
      refine copiedByte_last_ne (k := 0) hsize hztake (.inr ⟨a, ?_, by omega⟩) (h _ (hin 0 hcount))
      rw [List.getElem?_take_of_lt hcount, ha]
  · rintro ⟨rfl, hshort⟩ junk i hi
    rw [Nat.mul_one] at hi
    have hzero : writeBlock junk 0 (List.replicate size 0) i = 0 := by
      rw [writeBlock, if_pos (Nat.zero_le i), Nat.sub_zero, List.getElem?_replicate_of_lt hi]
      rfl
    rw [copiedByte, slotByte, Nat.div_eq_of_lt hi, Nat.mod_eq_of_lt hi, hzero,
      List.getElem?_take_of_lt Nat.one_pos]
    cases ha : args[0]? with
    | none => rw [Option.getD_none, List.take_nil]
    | some a =>
      have := hshort a ha
      rw [Option.getD_some, List.take_of_length_le (by omega)]

section

variable (cfg : Build) (hm : s.machine.Mapped) (hid : sys.getId s.kernel > -1)
    (hargv : sys.getArgv s.kernel (sys.getId s.kernel) = some (argv.map (· ++ [0])))
    (hz : ∀ a ∈ argv, 0 ∉ a) (hcount : 0 < (s.machine.gp 4).toInt)
    (hsize : 0 < (s.machine.gp 6).toInt) (hold : UserHolds s.machine (s.machine.gp 5) old)
    (hlen : old.length = (s.machine.gp 6).toNat * (s.machine.gp 4).toNat)
    (hfits : ∀ n, sys.fits n = true)
include cfg hm hid hargv hz hcount hsize hold hlen hfits

theorem scGetArgvs_spec :
    ∃ m, (scGetArgvs cfg sys).run s =
        .ok (BitVec.ofNat 32 (min (s.machine.gp 4).toNat argv.tail.length)) { s with machine := m } ∧
      m.user = writeBlock s.machine.user (s.machine.gp 5).toNat ((List.range old.length).map fun i =>
        some (copiedByte (argv.tail.take (s.machine.gp 4).toNat) (s.machine.gp 6).toNat
          (writeBlock sys.junk 0 (List.replicate (s.machine.gp 6).toNat 0)) i)) := by
  have hposSize : 0 < (s.machine.gp 6).toNat := toNat_pos_of_toInt hsize
  have hle := length_le_of_userHolds hm hold
  have hmul : (s.machine.gp 6 * s.machine.gp 4).toNat = old.length := by
    have : memorySize = 16384 := rfl
    rw [BitVec.toNat_mul, ← hlen, Nat.mod_eq_of_lt (by omega)]
  have hnew : 0 ≤ (s.machine.gp 6 * s.machine.gp 4).toInt := by
    rw [toInt_of_le (by omega)]
    exact Int.natCast_nonneg _
  have hcopy := copyArgs_start hposSize (fun a ha => hz a (List.mem_of_mem_tail ha))
    (writeBlock sys.junk 0 (List.replicate (s.machine.gp 6).toNat 0)) (n := (s.machine.gp 4).toNat)
  obtain ⟨m1, hrun1, -, huser1⟩ := writeArgs_spec cfg (i := 0) (copiedByte
    (argv.tail.take (s.machine.gp 4).toNat) (s.machine.gp 6).toNat
    (writeBlock sys.junk 0 (List.replicate (s.machine.gp 6).toNat 0))) hm hold
  obtain ⟨m2, hrun2, huser2⟩ := finish_run { s with machine := m1 }
    (BitVec.ofNat 32 (min (s.machine.gp 4).toNat argv.tail.length))
  have hlong : (s.machine.gp 6).toNat ≤ old.length := by
    rw [hlen]
    exact Nat.le_mul_of_pos_right _ (toNat_pos_of_toInt hcount)
  refine ⟨m2, ?_, huser2.trans (by rw [huser1, List.range_eq_range', Nat.add_zero])⟩
  rw [scGetArgvs, run_step (readReg_run ..), run_step (readReg_run ..), run_step (readReg_run ..),
    run_step (assertK_run hcount), run_get_bind, run_step (assertK_run hid), hargv]
  dsimp only
  rw [run_step (newArray_run hnew (hfits _)), if_neg (by omega), hmul, hlen, ← List.map_tail, hcopy]
  dsimp only
  rw [← hlen, Nat.max_eq_left (by omega), run_step hrun1]
  exact hrun2

theorem getsArgs_iff_bytes :
    GetsArgs cfg sys s argv ↔ ∀ i < (s.machine.gp 6).toNat * (s.machine.gp 4).toNat,
      copiedByte (argv.tail.take (s.machine.gp 4).toNat) (s.machine.gp 6).toNat
        (writeBlock sys.junk 0 (List.replicate (s.machine.gp 6).toNat 0)) i =
      slotByte argv.tail (s.machine.gp 6).toNat i := by
  obtain ⟨m, hrun, huser⟩ := scGetArgvs_spec cfg hm hid hargv hz hcount hsize hold hlen hfits
  rw [List.length_tail] at hrun
  rw [hlen] at huser
  constructor
  · rintro ⟨s', hrun', -, huser'⟩ i hi
    cases hrun.symm.trans hrun'
    exact Option.some.inj (writeBlock_range_eq_iff.1 (huser.symm.trans huser') i hi)
  · intro h
    refine ⟨_, hrun, handler_gp .getArgvs hrun, huser.trans ?_⟩
    rw [writeBlock_range_eq_iff]
    exact fun i hi => congrArg some (h i hi)

theorem getsArgs_iff : (∀ junk, GetsArgs cfg (sys.withJunk junk) s argv) ↔
      (s.machine.gp 4).toNat = 1 ∧ ∀ a, argv[1]? = some a → a.length < (s.machine.gp 6).toNat := by
  rw [← List.getElem?_tail, ← copied_eq_slots_iff (toNat_pos_of_toInt hsize)
    (toNat_pos_of_toInt hcount) fun a ha => hz a (List.mem_of_mem_tail ha)]
  exact forall_congr' fun junk =>
    getsArgs_iff_bytes cfg hm hid hargv hz hcount hsize hold hlen hfits

end

end

/-! ## From `ExecV` to `GetArgvs` -/

/-- The process system, and the process whose call the kernel is in. -/
structure Processes where
  state : PTable.State
  current : Tid

/-- `ExecVUpdate(argv)` of the current process: from its call to its return, with steps of any
processes in between. -/
def Processes.ExecV (k : Processes) (argv : List PTable.Name) (result : Int) (k' : Processes) : Prop :=
  k'.current = k.current ∧ ∃ s, PTable.step k.state (.call k.current (.execV argv)) = some s ∧
    Runs PTable.step (fun _ choice => ∀ c, choice ≠ .call k.current c) s k'.state ∧
    (k'.state.threads k.current).place = .user ∧ (k'.state.threads k.current).result = result

/-- `GetPcb(id)` with its arguments. -/
def Processes.getArgv (k : Processes) (id : Int) : Option (List (List Byte)) :=
  match k.state.entry id with
  | .obj p => some ((k.state.pcbs p).userArgs.map (· ++ [0]))
  | .null | .wild => none

structure Services.OfProcesses (sys : Services Processes) : Prop where
  getId : ∀ k, sys.getId k = (k.state.threads k.current).id
  getArgv : ∀ k id, sys.getArgv k id = k.getArgv id
  execVUpdate : ∀ {argc argv k m r k' m'}, sys.execVUpdate argc argv k m = .ok (r, k', m') →
    k.ExecV (argv.map cString) r.toInt k'

theorem cString_zeroes {a : List Byte} (hz : 0 ∉ a) : cString (a ++ [0, 0]) = a := by
  have hall : ∀ b ∈ a, decide (b ≠ 0) = true := by
    intro b hb
    apply decide_eq_true
    rintro rfl
    exact hz hb
  rw [cString, List.takeWhile_append_of_pos hall]
  exact List.append_nil a

theorem entry_of_runs {s s' : PTable.State} {id : Int} {p : Tid} {C : PTable.State → PTable.Choice → Prop}
    (hi : s.view.Inv) (hp : s.entry id = .obj p) (hrun : Runs PTable.step C s s')
    (hu : (s'.threads p).place = .user) : s'.entry (s'.threads p).id = .obj p := by
  have hrange : 0 ≤ id ∧ id < PTable.maxProcess := by
    by_contra hout
    rw [PTable.State.entry, if_neg hout] at hp
    cases hp
  obtain ⟨-, hpcb⟩ := PTable.State.entry_obj hp
  obtain ⟨hlt, -, hid⟩ := (hi.entry_iff _ p).1 hpcb
  have hi' := PTable.runs_inv hi hrun
  have hub : s'.view.place p ≠ .unborn := fun h => nomatch hu.symm.trans h
  have hsame : (s'.pcbs p).pID = (s.pcbs p).pID :=
    congrArg (·.2.2) ((PTable.runs_grows hrun).fixed p hlt)
  have hnum : (s'.threads p).id = id.toNat := (hi'.id p hub).trans (hsame.trans hid)
  have hown := PTable.State.own_entry hi' hu nofun nofun
  rw [hnum] at hown ⊢
  rw [PTable.State.entry, if_pos (by omega), Int.toNat_natCast]
  exact hown

/-- **Arguments from `ExecV` to `GetArgvs`.** For every program and argument vector that `ExecV` accepts,
in a system in which no deleted PCB has been used: what the new process gets does not depend on what was
in the kernel's memory and is what it should be if and only if it asks for one argument, and this is
shorter than the slot. -/
theorem argument_round_trip_iff (cfg : Build) {sys : Services Processes} (hsys : sys.OfProcesses)
    (hfits : ∀ n, sys.fits n = true) {env : PTable.Env} {main : PTable.Name}
    {s0 s1 : KernelState Processes} {argv : List (List Byte)} {w : Word} {p : Tid}
    {block : Tid → Tid} (hr : PTable.Heap.Reachable env main ⟨s0.kernel.state, block⟩)
    (hf : s0.kernel.state.freedUse = false) (hm0 : s0.machine.Mapped)
    (hargc : (s0.machine.gp 4).toNat = argv.length) (hargv : argv ≠ []) (hz : ∀ a ∈ argv, 0 ∉ a)
    (hargs : ArgsAt cfg s0.machine (s0.machine.gp 5) argv)
    (hexec : (scExecV cfg sys).run s0 = .ok w s1) (hp : s1.kernel.state.entry w.toInt = .obj p)
    {s2 : PTable.State} {m : Machine} {old : List Byte}
    (hrun : Runs PTable.step (fun _ _ => True) s1.kernel.state s2) (hu : (s2.threads p).place = .user)
    (hm : m.Mapped) (hcount : 0 < (m.gp 4).toInt) (hsize : 0 < (m.gp 6).toInt)
    (hbuf : UserHolds m (m.gp 5) old) (hlen : old.length = (m.gp 6).toNat * (m.gp 4).toNat) :
    (∀ junk, GetsArgs cfg (sys.withJunk junk) ⟨m, s2, p⟩ argv) ↔
      (m.gp 4).toNat = 1 ∧ ∀ a, argv[1]? = some a → a.length < (m.gp 6).toNat := by
  obtain ⟨m1, m2, hupdate⟩ := scExecV_ok cfg hm0 hfits hargc hz hargs hexec
  obtain ⟨hcurrent, s, hcall, hinside, hback, hresult⟩ := hsys.execVUpdate hupdate
  have hstrings : (argv.map (· ++ [0, 0])).map cString = argv := by
    rw [List.map_map]
    conv_rhs => rw [← List.map_id argv]
    exact List.map_congr_left fun a ha => cString_zeroes (hz a ha)
  rw [hstrings] at hcall
  have hkept : (s2.pcbs p).userArgs = argv :=
    PTable.execV_args (hr.state hf) hargv hcall hinside hback (hresult ▸ hp) hrun
  have hi1 := PTable.runs_inv (PTable.step_inv (PTable.reachable_inv (hr.state hf)) hcall) hinside
  have hentry := entry_of_runs hi1 hp hrun hu
  refine getsArgs_iff cfg (s := ⟨m, s2, p⟩) hm ?_ ?_ hz hcount hsize hbuf hlen hfits
  · rw [hsys.getId]
    exact Int.lt_of_lt_of_le (by decide) (Int.natCast_nonneg _)
  · rw [hsys.getId, hsys.getArgv, Processes.getArgv, hentry]
    rw [← hkept]

/-! ## A program with one argument -/

def soloExecV (s : PTable.State) (t : Tid) (argv : List PTable.Name) : Option PTable.State :=
  (PTable.step s (.call t (.execV argv))).bind fun s =>
    (runChecked PTable.step (fun _ choice => choice matches .go _) s (PTable.steps t 12)).filter fun s =>
      decide ((s.threads t).place = .user ∧ (BitVec.ofInt 32 (s.threads t).result).toInt =
        (s.threads t).result)

theorem soloExecV_spec {s s' : PTable.State} {t : Tid} {argv : List PTable.Name}
    (h : soloExecV s t argv = some s') :
    Processes.ExecV ⟨s, t⟩ argv (BitVec.ofInt 32 (s'.threads t).result).toInt ⟨s', t⟩ := by
  obtain ⟨s1, hcall, h⟩ := Option.bind_eq_some_iff.1 h
  obtain ⟨hrun, hback⟩ := Option.filter_eq_some_iff.1 h
  obtain ⟨hplace, hresult⟩ := of_decide_eq_true hback
  refine ⟨rfl, s1, hcall, runs_of_runChecked ?_ hrun, hplace, hresult.symm⟩
  intro s choice hgo c hc
  rw [hc] at hgo
  cases hgo

def soloServices : Services Processes :=
  { stoppedServices Processes with
    getId := fun k => (k.state.threads k.current).id
    getArgv := Processes.getArgv
    execVUpdate := fun _ argv k m =>
      match soloExecV k.state k.current (argv.map cString) with
      | some s => .ok (BitVec.ofInt 32 (s.threads k.current).result, ⟨s, k.current⟩, m)
      | none => .error .hangs }

theorem soloServices_fits (n : Nat) : soloServices.fits n = true := rfl

theorem soloServices_ofProcesses : soloServices.OfProcesses where
  getId _ := rfl
  getArgv _ _ := rfl
  execVUpdate := by
    intro argc argv k m r k' m' h
    dsimp only [soloServices] at h
    split at h
    · rename_i s hs
      cases h
      exact soloExecV_spec hs
    · cases h

/-- The addresses of `p` and `x`, and these strings. -/
def argBytes : List Byte := [8, 0, 0, 0, 10, 0, 0, 0, 112, 0, 120, 0]

theorem argsAt_argBytes : ArgsAt buildLinux (onePage argBytes 2 0 0) 0 [[112], [120]] := by
  refine ⟨by decide, ⟨8, by decide, by decide⟩, by decide, ⟨10, by decide, by decide⟩, trivial⟩

theorem solo_run : ∃ s0 s1 s2 block, PTable.Heap.Reachable PTable.zeroEnv [] ⟨s0, block⟩ ∧
    s0.freedUse = false ∧ soloExecV s0 0 [[112], [120]] = some s1 ∧
    ((s1.threads 0).result = 1 ∧ s1.entry 1 = .obj 1) ∧
    Runs PTable.step (fun _ _ => True) s1 s2 ∧ (s2.threads 1).place = .user ∧
      (s2.threads 1).id = 1 ∧ s2.entry 1 = .obj 1 ∧ (s2.pcbs 1).userArgs = [[112], [120]] := by
  obtain ⟨h, ⟨s0, block⟩, hstart, hrun, hf, h⟩ := exists_runs_of_ok
    (PTable.Heap.startMainThread PTable.zeroEnv []) PTable.Heap.step (fun _ _ => True)
    ((PTable.steps 0 1).map (·, none))
    (fun ⟨s0, _⟩ => s0.freedUse = false ∧ (soloExecV s0 0 [[112], [120]]).any fun s1 =>
      decide ((s1.threads 0).result = 1 ∧ s1.entry 1 = .obj 1) &&
      (runChecked PTable.step (fun _ _ => decide True) s1 (PTable.steps 1 1)).any fun s2 =>
        decide ((s2.threads 1).place = .user ∧ (s2.threads 1).id = 1 ∧ s2.entry 1 = .obj 1 ∧
          (s2.pcbs 1).userArgs = [[112], [120]])) (by decide +kernel)
  obtain ⟨s1, hs1, h⟩ := (Option.any_eq_true _ _).1 h
  obtain ⟨h1, h⟩ := Bool.and_eq_true_iff.1 h
  obtain ⟨s2, hrun2, h2⟩ := exists_runs _ _ _ _ _ h
  exact ⟨s0, s1, s2, block, ⟨_, hstart, hrun⟩, hf, hs1, of_decide_eq_true h1, hrun2, h2⟩

theorem scExecV_solo {s0 s1 : PTable.State} (hs : soloExecV s0 0 [[112], [120]] = some s1)
    (hresult : (s1.threads 0).result = 1) :
    ∃ m, (scExecV buildLinux soloServices).run ⟨onePage argBytes 2 0 0, s0, 0⟩ =
      .ok 1 ⟨m, s1, 0⟩ := by
  refine scExecV_returns buildLinux
    (s := (⟨onePage argBytes 2 0 0, s0, 0⟩ : KernelState Processes)) (mapped_onePage ..)
    soloServices_fits rfl (show 0 < (2 : Word).toInt by decide)
    (by decide : ∀ a ∈ [[112], [120]], (0 : Byte) ∉ a) argsAt_argBytes fun m => ?_
  dsimp only [soloServices]
  rw [show ([[112], [120]].map (· ++ [0, 0])).map cString = [[112], [120]] from rfl, hs]
  dsimp only
  rw [hresult]
  rfl

/-- With room for two arguments, what the child gets depends on the kernel's memory. -/
theorem argument_round_trip_leaks : ∃ s0 s1 s2, PTable.Reachable PTable.zeroEnv [] s0 ∧
    s0.freedUse = false ∧ ArgsAt buildLinux (onePage argBytes 2 0 0) 0 [[112], [120]] ∧
    (∃ m, (scExecV buildLinux soloServices).run ⟨onePage argBytes 2 0 0, s0, 0⟩ =
      .ok 1 ⟨m, s1, 0⟩) ∧ s1.entry 1 = .obj 1 ∧ Runs PTable.step (fun _ _ => True) s1 s2 ∧
    (s2.threads 1).place = .user ∧
      ¬ ∀ junk, GetsArgs buildLinux (soloServices.withJunk junk)
        ⟨onePage [9, 9, 9, 9] 2 0 2, s2, 1⟩ [[112], [120]] := by
  obtain ⟨s0, s1, s2, _, hr, hf, hs, ⟨hresult, hentry⟩, hrun, hu, hid, hown, hargs⟩ := solo_run
  refine ⟨s0, s1, s2, hr.state hf, hf, argsAt_argBytes, scExecV_solo hs hresult, hentry, hrun, hu, ?_⟩
  have hgetId : soloServices.getId ⟨s2, 1⟩ = 1 := congrArg Int.ofNat hid
  have hpos : soloServices.getId ⟨s2, 1⟩ > -1 := by
    rw [hgetId]
    decide
  have hgetArgv : soloServices.getArgv ⟨s2, 1⟩ (soloServices.getId ⟨s2, 1⟩) =
      some ([[112], [120]].map (· ++ [0])) := by
    rw [hgetId]
    dsimp only [soloServices, Processes.getArgv]
    rw [hown]
    dsimp only
    rw [hargs]
  have hiff := getsArgs_iff buildLinux
    (s := (⟨onePage [9, 9, 9, 9] 2 0 2, s2, 1⟩ : KernelState Processes)) (mapped_onePage ..)
    hpos hgetArgv (by decide) (show 0 < (2 : Word).toInt by decide)
    (show 0 < (2 : Word).toInt by decide) (userHolds_onePage 2 0 2 (by decide)) rfl soloServices_fits
  intro h
  exact absurd (hiff.1 h).1 (show (2 : Word).toNat ≠ 1 by decide)

theorem argument_round_trip_one : ∃ s2, (s2.threads 1).place = .user ∧
    ∀ junk, GetsArgs buildLinux (soloServices.withJunk junk) ⟨onePage [9, 9] 1 0 2, s2, 1⟩
      [[112], [120]] := by
  obtain ⟨s0, s1, s2, _, hr, hf, hs, ⟨hresult, hentry⟩, hrun, hu, -⟩ := solo_run
  obtain ⟨m, hexec⟩ := scExecV_solo hs hresult
  refine ⟨s2, hu, ?_⟩
  have hiff := argument_round_trip_iff buildLinux soloServices_ofProcesses soloServices_fits
    hr hf (mapped_onePage argBytes 2 0 0) rfl (by decide) (by decide) argsAt_argBytes hexec hentry hrun hu
    (mapped_onePage [9, 9] 1 0 2)
    (show 0 < (1 : Word).toInt by decide) (show 0 < (2 : Word).toInt by decide)
    (userHolds_onePage 1 0 2 (by decide)) rfl
  refine hiff.2 ⟨rfl, fun a ha => ?_⟩
  cases ha
  exact show 1 < (2 : Word).toNat by decide

end Nachos
