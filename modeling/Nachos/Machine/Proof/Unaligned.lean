import Nachos.Machine.Proof.LittleEndian

/-!
# Unaligned words

`SWR` and `SWL` store the two parts of a word at any address, and `LWR` and `LWL` load them: each works on
the aligned word that holds its part. What the four masked merges do is one of two things, byte by byte
(`byte_shiftedUp`, `byte_shiftedDown`); the rest is where the two aligned words are.
-/

namespace Nachos.Machine

open Base Base.LittleEndian

/-! ## The merges -/

def shiftedUp (n : Nat) (x y : Word) : Word := (x &&& lowMask (8 * n) 32) ||| (y <<< (8 * n))

def shiftedDown (n : Nat) (x y : Word) : Word :=
  (x &&& ~~~lowMask (8 * (4 - n)) 32) ||| ((y.sshiftRight (8 * n)) &&& lowMask (8 * (4 - n)) 32)

variable {j b : Nat}

theorem byte_shiftedUp {n : Nat} (hj : j < 4) (x y : Word) :
    byte (shiftedUp n x y) j = if j < n then byte x j else byte y (j - n) := by
  refine BitVec.eq_of_getLsbD_eq fun i hi => ?_
  have hlt : 8 * j + i < 32 := by omega
  unfold shiftedUp
  rw [getLsbD_byte hi, BitVec.getLsbD_or, BitVec.getLsbD_and, getLsbD_lowMask hlt,
    BitVec.getLsbD_shiftLeft]
  by_cases hn : j < n
  · rw [if_pos hn, getLsbD_byte hi]
    simp [show 8 * j + i < 8 * n by omega]
  · rw [if_neg hn, getLsbD_byte hi, show 8 * (j - n) + i = 8 * j + i - 8 * n by omega]
    simp [show ¬ 8 * j + i < 8 * n by omega, hlt]

theorem byte_shiftedDown {n : Nat} (hn : n < 4) (hj : j < 4) (x y : Word) :
    byte (shiftedDown n x y) j = if j + n < 4 then byte y (j + n) else byte x j := by
  refine BitVec.eq_of_getLsbD_eq fun i hi => ?_
  have hlt : 8 * j + i < 32 := by omega
  unfold shiftedDown
  rw [getLsbD_byte hi, BitVec.getLsbD_or, BitVec.getLsbD_and, BitVec.getLsbD_and, BitVec.getLsbD_not,
    getLsbD_lowMask hlt, BitVec.getLsbD_sshiftRight]
  by_cases hjn : j + n < 4
  · rw [if_pos hjn, getLsbD_byte hi, show 8 * (j + n) + i = 8 * n + (8 * j + i) by omega]
    simp [show 8 * j + i < 8 * (4 - n) by omega, show 8 * n + (8 * j + i) < 32 by omega, hlt]
  · rw [if_neg hjn, getLsbD_byte hi]
    simp [show ¬ 8 * j + i < 8 * (4 - n) by omega, hlt]

theorem shiftedUp_zero (x y : Word) : shiftedUp 0 x y = y := by
  refine eq_of_byte_eq (n := 4) fun j hj => ?_
  rw [byte_shiftedUp hj, if_neg (Nat.not_lt_zero j), Nat.sub_zero]

theorem shiftedDown_zero (x y : Word) : shiftedDown 0 x y = y := by
  refine eq_of_byte_eq (n := 4) fun j hj => ?_
  rw [byte_shiftedDown (by decide) hj, Nat.add_zero, if_pos hj]

theorem storeRight_eq (hb : b < 4) (value rt : Word) :
    storeRight (3 - BitVec.ofNat 32 b) value rt = shiftedUp b value rt := by
  interval_cases b
  · exact (shiftedUp_zero value rt).symm
  · rfl
  · rfl
  · rfl

theorem storeLeft_eq (hb : b < 4) (value rt : Word) :
    storeLeft (3 - BitVec.ofNat 32 b) value rt = shiftedDown (3 - b) value rt := by
  interval_cases b
  · rfl
  · rfl
  · rfl
  · exact (shiftedDown_zero value rt).symm

theorem mergeRight_eq (hb : b < 4) (old value : Word) :
    mergeRight (3 - BitVec.ofNat 32 b) old value = shiftedDown b old value := by
  interval_cases b
  · exact (shiftedDown_zero old value).symm
  · rfl
  · rfl
  · rfl

theorem mergeLeft_eq (hb : b < 4) (old value : Word) :
    mergeLeft (3 - BitVec.ofNat 32 b) old value = shiftedUp (3 - b) old value := by
  interval_cases b
  · rfl
  · rfl
  · rfl
  · exact (shiftedUp_zero old value).symm

/-! ## The aligned word -/

variable {cfg : Build} {m m' m1 : Machine} {table : List TranslationEntry} {writing : Bool}
  {instr : Instruction} {a tmp pcAfter : Word} {p q : Nat}

theorem and_three (tmp : Word) : tmp &&& 0x3#32 = BitVec.ofNat 32 (tmp.toNat % 4) := by
  refine BitVec.eq_of_toNat_eq ?_
  rw [BitVec.toNat_and, show (0x3#32).toNat = 2 ^ 2 - 1 from rfl, Nat.and_two_pow_sub_one_eq_mod,
    BitVec.toNat_ofNat]
  omega

theorem toNat_sub_and_three (tmp : Word) :
    (tmp - (tmp &&& 0x3#32)).toNat = tmp.toNat - tmp.toNat % 4 := by
  have htmp := tmp.isLt
  rw [and_three, BitVec.toNat_sub, BitVec.toNat_ofNat]
  omega

theorem aligned_sub_and_three (tmp : Word) : Aligned (tmp - (tmp &&& 0x3#32)) 4 := by
  have hzero : (tmp - (tmp &&& 0x3#32)) &&& 0x3#32 = 0 := by
    rw [and_three, toNat_sub_and_three]
    refine BitVec.eq_of_toNat_eq ?_
    rw [BitVec.toNat_ofNat]
    change _ = 0
    omega
  simp [Aligned, hzero]

theorem accessed_word (h : accessed writing table tmp = .ok p) :
    ∃ q, accessed writing table (tmp - (tmp &&& 0x3#32)) = .ok q ∧ p = q + tmp.toNat % 4 := by
  obtain ⟨e, he, hc⟩ := accessed_ok h
  obtain ⟨hframe, hp, hro⟩ := checked_ok hc
  have hdiv : (tmp.toNat - tmp.toNat % 4) / pageSize = tmp.toNat / pageSize := by
    rw [show pageSize = 128 from rfl]
    omega
  have hmod : (tmp.toNat - tmp.toNat % 4) % pageSize + tmp.toNat % 4 = tmp.toNat % pageSize := by
    rw [show pageSize = 128 from rfl]
    omega
  refine ⟨e.physicalPage.toNat * pageSize + (tmp.toNat - tmp.toNat % 4) % pageSize, ?_, ?_⟩
  · unfold accessed
    rw [toNat_sub_and_three, hdiv, he]
    change checked writing _ e = _
    unfold checked
    rw [hro, if_neg (by decide), if_neg (Nat.not_le.2 hframe)]
  · rw [hp, Nat.add_assoc, hmod]

def wordAt (mem : Memory) (q : Nat) : Word := readValue ((List.range 4).map fun k => mem (q + k))

theorem byte_wordAt {mem : Memory} {q : Nat} (hj : j < 4) : byte (wordAt mem q) j = mem (q + j) := by
  have hword : wordAt mem q = joined ((List.range 4).map fun k => mem (q + k)) := by
    rw [wordAt, readValue, if_neg (by simp), zeroExtended]
    exact BitVec.setWidth_eq _
  rw [hword]
  refine byte_joined ?_
  rw [List.getElem?_map, List.getElem?_range hj]
  rfl

theorem alignedWord_run (hfix : cfg.simFix = true) (hm : m.HasTable table)
    (h : accessed false table (tmp - (tmp &&& 0x3#32)) = .ok q) :
    ∃ table', Remarked table table' ∧ (alignedWord cfg tmp).run m =
      .ok (tmp - (tmp &&& 0x3#32), wordAt m.mainMemory q, 3 - BitVec.ofNat 32 (tmp.toNat % 4))
        { m with pageTable := some table' } := by
  obtain ⟨table', hmark, hrun⟩ :=
    readMem_accessed cfg hm (aligned_sub_and_three tmp) (.inr (.inr rfl)) h
  refine ⟨table', hmark, ?_⟩
  unfold alignedWord
  rw [if_pos hfix]
  dsimp only
  rw [run_step hrun, ← and_three]
  rfl

/-! ## The four instructions -/

/-- The machine has this page table, but for use and dirty bits. -/
def Has (table : List TranslationEntry) (m : Machine) : Prop :=
  ∃ table', Remarked table table' ∧ m.HasTable table'

theorem writeBlock_range_four (mem : Memory) (q : Nat) (f : Nat → Byte) (x : Nat) :
    writeBlock mem q ((List.range 4).map f) x = if q ≤ x ∧ x < q + 4 then f (x - q) else mem x := by
  by_cases hin : q ≤ x ∧ x < q + 4
  · have hblock : InBlock q ((List.range 4).map f) x := by
      refine ⟨hin.1, ?_⟩
      rw [List.length_map, List.length_range]
      exact hin.2
    have hbyte : _ = some (writeBlock mem q ((List.range 4).map f) x) := writeBlock_of_mem hblock
    rw [List.getElem?_map, List.getElem?_range (by omega)] at hbyte
    rw [if_pos hin]
    exact (Option.some.inj hbyte).symm
  · rw [if_neg hin]
    refine writeBlock_of_not fun hblock => hin ?_
    unfold InBlock at hblock
    rw [List.length_map, List.length_range] at hblock
    exact hblock

/-- Instructions with this opcode, at this address, store: so is memory after them, with the value of the
register and memory before. -/
def Stores (cfg : Build) (table : List TranslationEntry) (opCode : OpCode) (tmp : Word)
    (after : Word → Memory → Memory) : Prop :=
  ∀ (m : Machine) (instr : Instruction) (pcAfter : Word), Has table m → instr.opCode = opCode →
    m.gp instr.rs + instr.extra = tmp → ∃ m', (execute cfg instr pcAfter).run m = .ok ⟨pcAfter, 0, 0⟩ m' ∧
      Has table m' ∧ m'.mainMemory = after (m.gp instr.rt) m.mainMemory

def Loads (cfg : Build) (table : List TranslationEntry) (opCode : OpCode) (tmp : Word)
    (brings : Word → Memory → Nat → Byte) : Prop :=
  ∀ (m : Machine) (instr : Instruction) (pcAfter : Word), Has table m → instr.opCode = opCode →
    m.gp instr.rs + instr.extra = tmp → ∃ m' value,
      (execute cfg instr pcAfter).run m = .ok ⟨pcAfter, BitVec.ofNat 32 instr.rt, value⟩ m' ∧
      Has table m' ∧ m'.mainMemory = m.mainMemory ∧
      ∀ i < 4, byte value i = brings (m.mergeTarget instr.rt) m.mainMemory i

section

variable (hfix : cfg.simFix = true) {opCode : OpCode} (merge : Word → Word → Word → Word)
include hfix

theorem stores_of_merge {after : Word → Memory → Memory} (hp : accessed true table tmp = .ok p)
    (hexec : ∀ (instr : Instruction) (m : Machine) (pcAfter : Word), instr.opCode = opCode →
      (execute cfg instr pcAfter).run m = (do
        let (addr, value, which) ← alignedWord cfg (m.gp instr.rs + instr.extra)
        writeMem cfg addr 4 (merge which value (m.gp instr.rt))
        done pcAfter : MachineM Pending).run m)
    (hafter : ∀ q v mem, p = q + tmp.toNat % 4 → writeBlock mem q ((List.range 4).map
      (byte (merge (3 - BitVec.ofNat 32 (tmp.toNat % 4)) (wordAt mem q) v))) = after v mem) :
    Stores cfg table opCode tmp after := by
  rintro m instr pcAfter ⟨table1, hmark1, hm⟩ hop rfl
  rw [← hmark1.accessed] at hp
  obtain ⟨q, hq, hplace⟩ := accessed_word hp
  obtain ⟨table2, hmark2, hread⟩ := alignedWord_run hfix hm (accessed_read hq)
  have hm2 : HasTable { m with pageTable := some table2 } table2 := hmark2.hasTable hm hm.noTLB rfl rfl
  rw [← hmark2.accessed] at hq
  obtain ⟨table3, hmark3, hwrite⟩ := writeMem_accessed cfg _ hm2 (aligned_sub_and_three _)
    (.inr (.inr rfl)) hq
  refine ⟨{ m with pageTable := some table3, mainMemory := _ }, ?_, ?_, hafter q _ _ hplace⟩
  · rw [hexec instr m pcAfter hop, run_step hread, run_step hwrite]
    rfl
  · exact ⟨table3, hmark3.trans (hmark2.trans hmark1), hmark3.hasTable hm2 hm.noTLB rfl rfl⟩

theorem loads_of_merge {brings : Word → Memory → Nat → Byte} (hp : accessed false table tmp = .ok p)
    (hexec : ∀ (instr : Instruction) (m : Machine) (pcAfter : Word), instr.opCode = opCode →
      (execute cfg instr pcAfter).run m = (do
        let (_, value, which) ← alignedWord cfg (m.gp instr.rs + instr.extra)
        return ⟨pcAfter, BitVec.ofNat 32 instr.rt, merge which ((← get).mergeTarget instr.rt) value⟩ :
          MachineM Pending).run m)
    (hbrings : ∀ q old mem i, p = q + tmp.toNat % 4 → i < 4 →
      byte (merge (3 - BitVec.ofNat 32 (tmp.toNat % 4)) old (wordAt mem q)) i = brings old mem i) :
    Loads cfg table opCode tmp brings := by
  rintro m instr pcAfter ⟨table1, hmark1, hm⟩ hop rfl
  rw [← hmark1.accessed] at hp
  obtain ⟨q, hq, hplace⟩ := accessed_word hp
  obtain ⟨table2, hmark2, hread⟩ := alignedWord_run hfix hm hq
  refine ⟨{ m with pageTable := some table2 }, _, ?_, ?_, rfl, fun i => hbrings q _ _ i hplace⟩
  · rw [hexec instr m pcAfter hop, run_step hread]
    rfl
  · exact ⟨table2, hmark2.trans hmark1, hmark2.hasTable hm hm.noTLB rfl rfl⟩

theorem stores_swr (hp : accessed true table tmp = .ok p) :
    Stores cfg table .swr tmp fun v mem x =>
      if p ≤ x ∧ x + tmp.toNat % 4 < p + 4 then byte v (x - p) else mem x := by
  refine stores_of_merge hfix storeRight hp (fun instr m pcAfter hop => ?_) ?_
  · unfold execute
    rw [run_get_bind]
    simp only [hop]
  · rintro q v mem rfl
    have hb : tmp.toNat % 4 < 4 := Nat.mod_lt _ (by decide)
    funext x
    rw [writeBlock_range_four]
    by_cases hin : q ≤ x ∧ x < q + 4
    · rw [if_pos hin, storeRight_eq hb, byte_shiftedUp (by omega), byte_wordAt (by omega)]
      by_cases hlow : x - q < tmp.toNat % 4
      · rw [if_pos hlow, if_neg (by omega), Nat.add_sub_of_le hin.1]
      · rw [if_neg hlow, if_pos (by omega), Nat.sub_add_eq]
    · rw [if_neg hin, if_neg (by omega)]

theorem stores_swl (hp : accessed true table tmp = .ok p) :
    Stores cfg table .swl tmp fun v mem x =>
      if p ≤ x + tmp.toNat % 4 ∧ x ≤ p then byte v (3 + x - p) else mem x := by
  refine stores_of_merge hfix storeLeft hp (fun instr m pcAfter hop => ?_) ?_
  · unfold execute
    rw [run_get_bind]
    simp only [hop]
  · rintro q v mem rfl
    have hb : tmp.toNat % 4 < 4 := Nat.mod_lt _ (by decide)
    funext x
    rw [writeBlock_range_four]
    by_cases hin : q ≤ x ∧ x < q + 4
    · rw [if_pos hin, storeLeft_eq hb, byte_shiftedDown (by omega) (by omega), byte_wordAt (by omega)]
      by_cases hlow : x - q + (3 - tmp.toNat % 4) < 4
      · rw [if_pos hlow, if_pos (by omega)]
        congr 1
        omega
      · rw [if_neg hlow, if_neg (by omega), Nat.add_sub_of_le hin.1]
    · rw [if_neg hin, if_neg (by omega)]

theorem loads_lwr (hp : accessed false table tmp = .ok p) :
    Loads cfg table .lwr tmp fun old mem i =>
      if i + tmp.toNat % 4 < 4 then mem (p + i) else byte old i := by
  refine loads_of_merge hfix mergeRight hp (fun instr m pcAfter hop => ?_) ?_
  · unfold execute
    rw [run_get_bind]
    simp only [hop]
  · rintro q old mem i rfl hi
    have hb : tmp.toNat % 4 < 4 := Nat.mod_lt _ (by decide)
    rw [mergeRight_eq hb, byte_shiftedDown hb hi]
    by_cases hin : i + tmp.toNat % 4 < 4
    · rw [if_pos hin, if_pos hin, byte_wordAt hin]
      congr 1
      omega
    · rw [if_neg hin, if_neg hin]

theorem loads_lwl (hp : accessed false table tmp = .ok p) :
    Loads cfg table .lwl tmp fun old mem i =>
      if i + tmp.toNat % 4 < 3 then byte old i else mem (p + i - 3) := by
  refine loads_of_merge hfix mergeLeft hp (fun instr m pcAfter hop => ?_) ?_
  · unfold execute
    rw [run_get_bind]
    simp only [hop]
  · rintro q old mem i rfl hi
    have hb : tmp.toNat % 4 < 4 := Nat.mod_lt _ (by decide)
    rw [mergeLeft_eq hb, byte_shiftedUp hi]
    by_cases hin : i < 3 - tmp.toNat % 4
    · rw [if_pos hin, if_pos (by omega)]
    · rw [if_neg hin, if_neg (by omega), byte_wordAt (by omega)]
      congr 1
      omega

end

/-! ## Executing them -/

/-- The machine executes an instruction with this opcode, register and address. -/
def Executes (cfg : Build) (opCode : OpCode) (rt : Fin 32) (addr : Word) (m m' : Machine) : Prop :=
  ∃ instr m1, Fetches cfg m instr m1 ∧ instr.opCode = opCode ∧ instr.rt = rt ∧
    m.gp instr.rs + instr.extra = addr ∧ (oneInstruction cfg).run m = .ok () m'

variable {rt : Fin 32} {v : Word}

theorem Fetches.has (hf : Fetches cfg m instr m1) (h : Has table m) : Has table m1 := by
  obtain ⟨table', hmark, hm⟩ := h
  obtain ⟨table'', hmark', hm', -⟩ := hf.sees hm.sees
  exact ⟨table'', hmark'.trans hmark, hm'⟩

theorem Has.congr (h : Has table m) (htlb : m'.tlb = m.tlb) (htable : m'.pageTable = m.pageTable)
    (hsize : m'.pageTableSize = m.pageTableSize) : Has table m' := by
  obtain ⟨table', hmark, hm⟩ := h
  exact ⟨table', hmark, htlb.trans hm.noTLB, htable.trans hm.installed, hsize.trans hm.size⟩

theorem Executes.stored {opCode : OpCode} {after : Word → Memory → Memory}
    (he : Executes cfg opCode rt a m m') (hs : Stores cfg table opCode a after) (h : Has table m) :
    Has table m' ∧ ∀ x, m'.mainMemory x = after (m.gp rt) m.mainMemory x := by
  obtain ⟨instr, m1, hf, hop, rfl, haddr, hrun⟩ := he
  rw [← hf.gp] at haddr
  obtain ⟨_, m2, hexec, hmem', htlb, htable, hsize⟩ := hf.returned hrun
  obtain ⟨_, hexec', hhas, hmem⟩ := hs m1 instr _ (hf.has h) hop haddr
  rw [hexec] at hexec'
  cases hexec'
  refine ⟨hhas.congr htlb htable hsize, fun x => ?_⟩
  rw [hmem', hmem, hf.gp, hf.contents.mem]

theorem Fetches.mergeTarget (hf : Fetches cfg m instr m1) (rt : Fin 32) :
    m1.mergeTarget rt = m.mergeTarget rt := by
  unfold Machine.mergeTarget
  rw [hf.contents.registers, hf.gp]

theorem Executes.loaded {opCode : OpCode} {brings : Word → Memory → Nat → Byte}
    (he : Executes cfg opCode rt a m m') (hs : Loads cfg table opCode a brings) (hl : m.LoadsGeneral)
    (h : Has table m) :
    Has table m' ∧ m'.mainMemory = m.mainMemory ∧ m'.registers loadReg = BitVec.ofNat 32 rt ∧
      ∀ i < 4, byte (m'.registers loadValueReg) i = brings (m.mergeTarget rt) m.mainMemory i := by
  obtain ⟨instr, m1, hf, hop, rfl, haddr, hrun⟩ := he
  rw [← hf.gp] at haddr
  obtain ⟨m2, value, hexec, hhas, hmem, hbytes⟩ := hs m1 instr _ (hf.has h) hop haddr
  rw [oneInstruction_fetched hl hf, hexec] at hrun
  cases hrun
  refine ⟨hhas.congr rfl rfl rfl, ?_, loadReg_finished, fun i hi => ?_⟩
  · rw [mainMemory_finished, hmem, hf.contents.mem]
  · rw [loadValueReg_finished, hbytes i hi, hf.mergeTarget, hf.contents.mem]

theorem Executes.loadsGeneral {opCode : OpCode} (he : Executes cfg opCode rt a m m')
    (hl : m.LoadsGeneral) : m'.LoadsGeneral := by
  obtain ⟨_, _, -, -, -, -, hrun⟩ := he
  exact (oneInstruction_registerFile hl hrun).load

/-- The instructions for unaligned words, with the address each is used at. -/
def unalignedAddr (a : Word) : OpCode → Option Word
  | .swr | .lwr => some a
  | .swl | .lwl => some (a + 3#32)
  | _ => none

theorem executes_unaligned (hfix : cfg.simFix = true) (h : Has table m) (hl : m.LoadsGeneral)
    (hf : Fetches cfg m instr m1) (haddr : unalignedAddr a instr.opCode = some (m.gp instr.rs + instr.extra))
    (hp : ∃ p, accessed true table (m.gp instr.rs + instr.extra) = .ok p) :
    ∃ m', Executes cfg instr.opCode instr.rt (m.gp instr.rs + instr.extra) m m' ∧ Has table m' := by
  obtain ⟨p, hp⟩ := hp
  have haddr' : m1.gp instr.rs + instr.extra = m.gp instr.rs + instr.extra := by rw [hf.gp]
  have hrun : ∃ p' m2, (execute cfg instr (m1.registers nextPCReg + 4)).run m1 = .ok p' m2 ∧
      Has table m2 := by
    cases hop : instr.opCode with
    | swr =>
      obtain ⟨m2, hexec, hhas, -⟩ := stores_swr hfix hp m1 instr _ (hf.has h) hop haddr'
      exact ⟨_, m2, hexec, hhas⟩
    | swl =>
      obtain ⟨m2, hexec, hhas, -⟩ := stores_swl hfix hp m1 instr _ (hf.has h) hop haddr'
      exact ⟨_, m2, hexec, hhas⟩
    | lwr =>
      obtain ⟨m2, _, hexec, hhas, -⟩ :=
        loads_lwr hfix (accessed_read hp) m1 instr _ (hf.has h) hop haddr'
      exact ⟨_, m2, hexec, hhas⟩
    | lwl =>
      obtain ⟨m2, _, hexec, hhas, -⟩ :=
        loads_lwl hfix (accessed_read hp) m1 instr _ (hf.has h) hop haddr'
      exact ⟨_, m2, hexec, hhas⟩
    | _ =>
      rw [hop] at haddr
      cases haddr
  obtain ⟨p', m2, hexec, hhas⟩ := hrun
  exact ⟨m2.finished p', ⟨instr, m1, hf, rfl, rfl, rfl, by rw [oneInstruction_fetched hl hf, hexec]⟩,
    hhas.congr rfl rfl rfl⟩

/-! ## The round trip -/

theorem accessed_mod (h : accessed writing table a = .ok p) : p % pageSize = a.toNat % pageSize := by
  obtain ⟨e, -, hc⟩ := accessed_ok h
  obtain ⟨-, rfl, -⟩ := checked_ok hc
  rw [show pageSize = 128 from rfl]
  omega

theorem toNat_add_three (a : Word) : (a + 3#32).toNat = (a.toNat + 3) % 2 ^ 32 := by
  rw [BitVec.toNat_add]
  rfl

section
variable {place : Nat → Nat} (hp : ∀ k < 4, accessed true table (a + BitVec.ofNat 32 k) = .ok (place k))
include hp

theorem accessed_zero : accessed true table a = .ok (place 0) := by
  have h := hp 0 (by decide)
  rwa [show a + BitVec.ofNat 32 0 = a from BitVec.add_zero a] at h

theorem accessed_unalignedAddr {opCode : OpCode} {addr : Word}
    (h : unalignedAddr a opCode = some addr) : ∃ p, accessed true table addr = .ok p := by
  cases opCode with
  | swr | lwr =>
    cases h
    exact ⟨_, accessed_zero hp⟩
  | swl | lwl =>
    cases h
    exact ⟨_, hp 3 (by decide)⟩
  | _ => cases h

theorem place_low {k : Nat} (hk : k + a.toNat % 4 < 4) : place k = place 0 + k := by
  have hfit : a.toNat % pageSize + k < pageSize := by
    rw [show pageSize = 128 from rfl]
    omega
  have h := accessed_next (accessed_zero hp) hfit
  rw [hp k (by omega)] at h
  exact Except.ok.inj h

theorem place_high {k : Nat} (hk : k < 4) (hk' : 3 ≤ k + (a + 3#32).toNat % 4) :
    place k + 3 = place 3 + k := by
  have ha := a.isLt
  rw [toNat_add_three] at hk'
  have hfit : (a + BitVec.ofNat 32 k).toNat % pageSize + (3 - k) < pageSize := by
    rw [BitVec.toNat_add, BitVec.toNat_ofNat, show pageSize = 128 from rfl]
    omega
  have haddr : a + BitVec.ofNat 32 k + BitVec.ofNat 32 (3 - k) = a + BitVec.ofNat 32 3 := by
    rw [add_assoc, ← BitVec.ofNat_add, show k + (3 - k) = 3 by omega]
  have h := accessed_next (hp k hk) hfit
  rw [haddr, hp 3 (by decide)] at h
  have := Except.ok.inj h
  omega

theorem parts_apart {x : Nat} (hb : a.toNat % 4 ≠ 0)
    (hlow : place 0 ≤ x ∧ x + a.toNat % 4 < place 0 + 4) :
    ¬ (place 3 ≤ x + (a + 3#32).toNat % 4 ∧ x ≤ place 3) := by
  have ha := a.isLt
  have h0 := accessed_mod (accessed_zero hp)
  have h3 := accessed_mod (hp 3 (by decide))
  rw [show a + BitVec.ofNat 32 3 = a + 3#32 from rfl, toNat_add_three,
    show pageSize = 128 from rfl] at h3
  rw [show pageSize = 128 from rfl] at h0
  rw [toNat_add_three]
  omega

theorem stored_unaligned (hfix : cfg.simFix = true) (h : Has table m) {m1 m2 : Machine}
    (he : Executes cfg .swr rt a m m1) (hv : m.gp rt = v) (he' : Executes cfg .swl rt (a + 3#32) m1 m2)
    (hv' : m1.gp rt = v) :
    Has table m2 ∧ (∀ k < 4, m2.mainMemory (place k) = byte v k) ∧
      ∀ x, (∀ k < 4, x ≠ place k) → m2.mainMemory x = m.mainMemory x := by
  obtain ⟨h1, hmem1⟩ := he.stored (stores_swr hfix (accessed_zero hp)) h
  obtain ⟨h2, hmem2⟩ := he'.stored (stores_swl hfix (hp 3 (by decide))) h1
  rw [hv] at hmem1
  rw [hv'] at hmem2
  have hb : (a + 3#32).toNat % 4 = (a.toNat + 3) % 4 := by
    rw [toNat_add_three]
    omega
  refine ⟨h2, fun k hk => ?_, fun x hx => ?_⟩
  · rw [hmem2]
    by_cases hhigh : 3 ≤ k + (a + 3#32).toNat % 4
    · have hplace := place_high hp hk hhigh
      rw [if_pos (by omega), show 3 + place k - place 3 = k by omega]
    · have hplace := place_low hp (k := k) (by omega)
      have hlow : place 0 ≤ place k ∧ place k + a.toNat % 4 < place 0 + 4 := by omega
      rw [if_neg (parts_apart hp (by omega) hlow), hmem1, if_pos hlow,
        show place k - place 0 = k by omega]
  · rw [hmem2, if_neg, hmem1, if_neg]
    · intro hin
      have hplace := place_low hp (k := x - place 0) (by omega)
      exact hx (x - place 0) (by omega) (by omega)
    · intro hin
      have hplace := place_high hp (k := x + 3 - place 3) (by omega) (by omega)
      exact hx (x + 3 - place 3) (by omega) (by omega)

theorem loaded_unaligned (hfix : cfg.simFix = true) (h : Has table m) (hl : m.LoadsGeneral)
    {m1 m2 : Machine} (hbytes : ∀ k < 4, m.mainMemory (place k) = byte v k)
    (he : Executes cfg .lwr rt a m m1) (he' : Executes cfg .lwl rt (a + 3#32) m1 m2) :
    Pends (BitVec.ofNat 32 rt) v m2 := by
  obtain ⟨h1, hmem1, hreg1, hval1⟩ :=
    he.loaded (loads_lwr hfix (accessed_read (accessed_zero hp))) hl h
  obtain ⟨-, -, hreg2, hval2⟩ :=
    he'.loaded (loads_lwl hfix (accessed_read (hp 3 (by decide)))) (he.loadsGeneral hl) h1
  have htarget : m1.mergeTarget rt = m1.registers loadValueReg := if_pos hreg1
  have hb : (a + 3#32).toNat % 4 = (a.toNat + 3) % 4 := by
    rw [toNat_add_three]
    omega
  refine ⟨hreg2, eq_of_byte_eq (n := 4) fun i hi => ?_⟩
  rw [hval2 i hi, htarget]
  by_cases hhigh : i + (a + 3#32).toNat % 4 < 3
  · have hplace := place_low hp (k := i) (by omega)
    rw [if_pos hhigh, hval1 i hi, if_pos (by omega), ← hplace, hbytes i hi]
  · have hplace := place_high hp hi (by omega)
    rw [if_neg hhigh, hmem1, show place 3 + i - 3 = place i by omega, hbytes i hi]

end

/-- **Unaligned words**: what is stored is loaded again. -/
theorem unaligned_round_trip (hfix : cfg.simFix = true) (hm : m.HasTable table) (hl : m.LoadsGeneral)
    {place : Nat → Nat} (hp : ∀ k < 4, accessed true table (a + BitVec.ofNat 32 k) = .ok (place k))
    (v : Word) (rt : Fin 32) {rd : Fin 32} (hrd : rd ≠ 0) :
    (∀ m' instr m1, Has table m' → m'.LoadsGeneral → Fetches cfg m' instr m1 →
      unalignedAddr a instr.opCode = some (m'.gp instr.rs + instr.extra) →
      ∃ m'', Executes cfg instr.opCode instr.rt (m'.gp instr.rs + instr.extra) m' m'' ∧
        Has table m'' ∧ m''.LoadsGeneral) ∧
    ∀ m1 m2, Executes cfg .swr rt a m m1 → m.gp rt = v →
      Executes cfg .swl rt (a + 3#32) m1 m2 → m1.gp rt = v →
      (∀ k < 4, m2.mainMemory (place k) = byte v k) ∧
      (∀ x, (∀ k < 4, x ≠ place k) → m2.mainMemory x = m.mainMemory x) ∧
      ∀ m3 m4, Executes cfg .lwr rd a m2 m3 → Executes cfg .lwl rd (a + 3#32) m3 m4 →
        ∀ r w, ∃ m5, (delayedLoad r w).run m4 = .ok () m5 ∧ m5.gp rd = v := by
  have h : Has table m := ⟨table, rfl, hm⟩
  refine ⟨fun m' instr m1 h' hl' hf haddr => ?_, fun m1 m2 he hv he' hv' => ?_⟩
  · obtain ⟨m'', he, hhas⟩ :=
      executes_unaligned hfix h' hl' hf haddr (accessed_unalignedAddr hp haddr)
    exact ⟨m'', he, hhas, he.loadsGeneral hl'⟩
  · obtain ⟨h2, hbytes, hother⟩ := stored_unaligned hp hfix h he hv he' hv'
    refine ⟨hbytes, hother, fun m3 m4 hr hl2 r w => ?_⟩
    have hpends := loaded_unaligned hp hfix h2 (he'.loadsGeneral (he.loadsGeneral hl)) hbytes hr hl2
    refine ⟨_, delayedLoad_pends hpends r w, ?_⟩
    have hzero : gpr rd ≠ gpr 0 := gpr_injective.ne hrd
    have hvalue : gpr rd ≠ loadValueReg := gpr_ne (by decide)
    have hload : gpr rd ≠ loadReg := gpr_ne (by decide)
    rw [gp, registers_loaded, if_neg hzero, if_neg hvalue, if_neg hload, if_pos rfl, hpends.2]

/-- `SWR r1, 126(r0)`, `SWL r1, 129(r0)`, `LWR r2, 126(r0)`, `LWL r2, 129(r0)` in memory; the second page is
on the frame 5. -/
def straddlePage : Machine :=
  { programPage [0xb801007e, 0xa8010081, 0x9802007e, 0x88020081] fun r =>
      if r = gpr 1 then 0x11223344 else if r = nextPCReg then 4 else 0 with
    pageTable := some [⟨0, 0, true, false, false, false⟩, ⟨1, 5, true, false, false, false⟩]
    pageTableSize := 2 }

def straddle : Nat → Machine
  | 0 => straddlePage
  | n + 1 => final ((oneInstruction buildLinux).run (straddle n))

theorem unaligned_round_trip_straddle :
    (straddle 2).mainMemory 641 = 0x11 ∧ ∃ m5, (delayedLoad 0 0).run (straddle 4) = .ok () m5 ∧
      m5.gp 2 = 0x11223344 := by
  have hm : straddlePage.HasTable [⟨0, 0, true, false, false, false⟩, ⟨1, 5, true, false, false, false⟩] :=
    ⟨rfl, rfl, rfl⟩
  have hl : straddlePage.LoadsGeneral := by
    unfold LoadsGeneral
    decide
  have hp : ∀ k < 4, accessed true [⟨0, 0, true, false, false, false⟩, ⟨1, 5, true, false, false, false⟩]
      (126 + BitVec.ofNat 32 k) = .ok (if k < 2 then 126 + k else 638 + k) := by
    decide
  have hfix : buildLinux.simFix = true := rfl
  have hrd : (2 : Fin 32) ≠ 0 := by decide
  have h := (unaligned_round_trip hfix hm hl hp 0x11223344 1 hrd).2 (straddle 1) (straddle 2)
    ⟨⟨.swr, 0, 1, 0, 126⟩, _, ⟨0xb801007e, rfl, by decide⟩, rfl, rfl, by decide, rfl⟩ (by decide)
    ⟨⟨.swl, 0, 1, 0, 129⟩, _, ⟨0xa8010081, rfl, by decide⟩, rfl, rfl, by decide, rfl⟩ (by decide)
  refine ⟨h.1 3 (by decide), h.2.2 (straddle 3) (straddle 4) ?_ ?_ 0 0⟩
  · exact ⟨⟨.lwr, 0, 2, 0, 126⟩, _, ⟨0x9802007e, rfl, by decide⟩, rfl, rfl, by decide, rfl⟩
  · exact ⟨⟨.lwl, 0, 2, 0, 129⟩, _, ⟨0x88020081, rfl, by decide⟩, rfl, rfl, by decide, rfl⟩

end Nachos.Machine
