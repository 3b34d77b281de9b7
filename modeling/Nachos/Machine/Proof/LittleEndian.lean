import Nachos.Base.LittleEndian
import Nachos.Machine.Proof.Fetch
import Nachos.Machine.Proof.Lookup

/-!
# The memory of a user program is little-endian

`byteAt` is the memory a program sees through its page table. `WriteMem` stores the little-endian bytes of
a value in it and changes no other byte (`writeMem_stored`), and `ReadMem` returns the number the bytes
stand for (`readMem_bytes`), on a host of either byte order. A load after any stores therefore brings the
bytes stored last.
-/

namespace Nachos

open Base Base.LittleEndian

/-! ## The bytes of the host -/

theorem wordToHost_swap {cfg : Build} (h : cfg.hostIsBigEndian = true) (a b c d : Byte) :
    wordToHost cfg (a ++ b ++ c ++ d) = d ++ c ++ b ++ a := by
  unfold wordToHost
  rw [if_pos h]
  refine BitVec.eq_of_getLsbD_eq fun i hi => ?_
  simp only [BitVec.getLsbD_or, BitVec.getLsbD_and, BitVec.getLsbD_ushiftRight,
    BitVec.getLsbD_shiftLeft, BitVec.getLsbD_append]
  interval_cases i <;> simp

theorem shortToHost_swap {cfg : Build} (h : cfg.hostIsBigEndian = true) (a b : Byte) :
    shortToHost cfg (a ++ b) = b ++ a := by
  unfold shortToHost
  rw [if_pos h]
  refine BitVec.eq_of_getLsbD_eq fun i hi => ?_
  simp only [BitVec.getLsbD_or, BitVec.getLsbD_and, BitVec.getLsbD_ushiftRight,
    BitVec.getLsbD_shiftLeft, BitVec.getLsbD_append]
  interval_cases i <;> simp

namespace Machine

def readValue (bytes : List Byte) : Word :=
  if bytes.length = 1 then signExtended 32 bytes else zeroExtended 32 bytes

theorem readPhys_eq (cfg : Build) (mem : Memory) (p : Nat) {size : Nat}
    (hsize : size = 1 ∨ size = 2 ∨ size = 4) :
    readPhys cfg mem p size = .ok (readValue ((List.range size).map fun k => mem (p + k))) := by
  rcases hsize with rfl | rfl | rfl
  · have hbytes : (List.range 1).map (fun k => mem (p + k)) = [mem p] := rfl
    rw [hbytes, readValue, if_pos (by rfl), signExtended, joined_one]
    rfl
  · have hbytes : (List.range 2).map (fun k => mem (p + k)) = [mem p, mem (p + 1)] := rfl
    have hhost : shortToHost cfg (hostShort cfg mem p) = mem (p + 1) ++ mem p := by
      unfold hostShort
      by_cases hb : cfg.hostIsBigEndian = true
      · rw [if_pos hb, shortToHost_swap hb]
      · rw [if_neg hb, shortToHost, if_neg hb]
    rw [hbytes, readValue, if_neg (by simp), zeroExtended, joined_two, readPhys, hhost]
  · have hbytes : (List.range 4).map (fun k => mem (p + k)) =
        [mem p, mem (p + 1), mem (p + 2), mem (p + 3)] := rfl
    have hhost : wordToHost cfg (hostWord cfg mem p) =
        mem (p + 3) ++ mem (p + 2) ++ mem (p + 1) ++ mem p := by
      unfold hostWord
      by_cases hb : cfg.hostIsBigEndian = true
      · rw [if_pos hb, wordToHost_swap hb]
      · rw [if_neg hb, wordToHost, if_neg hb]
    rw [hbytes, readValue, if_neg (by simp), zeroExtended, joined_four, readPhys, hhost]
    exact congrArg Except.ok (BitVec.setWidth_eq _).symm

theorem hostShortBytes_eq (cfg : Build) (v : BitVec 16) :
    hostShortBytes cfg (shortToHost cfg v) = [byte v 0, byte v 1] := by
  unfold hostShortBytes
  by_cases hb : cfg.hostIsBigEndian = true
  · have hswap : shortToHost cfg v = joined [byte v 1, byte v 0] := by
      rw [joined_two, ← shortToHost_swap hb, ← joined_two, joined_byte_two]
    rw [if_pos hb, hswap]
    change [byte (joined _) 1, byte (joined _) 0] = _
    rw [byte_joined (b := byte v 0) rfl, byte_joined (b := byte v 1) rfl]
  · rw [if_neg hb, shortToHost, if_neg hb]
    rfl

theorem hostWordBytes_eq (cfg : Build) (v : Word) :
    hostWordBytes cfg (wordToHost cfg v) = [byte v 0, byte v 1, byte v 2, byte v 3] := by
  unfold hostWordBytes
  by_cases hb : cfg.hostIsBigEndian = true
  · have hswap : wordToHost cfg v = joined [byte v 3, byte v 2, byte v 1, byte v 0] := by
      rw [joined_four, ← wordToHost_swap hb, ← joined_four, joined_byte_four]
    rw [if_pos hb, hswap]
    change [byte (joined _) 3, byte (joined _) 2, byte (joined _) 1, byte (joined _) 0] = _
    rw [byte_joined (b := byte v 0) rfl, byte_joined (b := byte v 1) rfl,
      byte_joined (b := byte v 2) rfl, byte_joined (b := byte v 3) rfl]
  · rw [if_neg hb, wordToHost, if_neg hb]
    rfl

variable {k : Nat}

theorem byte_truncate {w n : Nat} (v : BitVec w) (hk : 8 * k + 8 ≤ n) :
    byte (v.setWidth n) k = byte v k := by
  refine BitVec.eq_of_getLsbD_eq fun i hi => ?_
  rw [getLsbD_byte hi, getLsbD_byte hi, BitVec.getLsbD_setWidth]
  simp [show 8 * k + i < n by omega]

theorem byte_and_lowMask {n : Nat} (v : Word) (hk : 8 * k + 8 ≤ n) (hn : n ≤ 32) :
    byte (v &&& lowMask n 32) k = byte v k := by
  rw [and_lowMask, byte_truncate _ (by omega), byte_truncate _ hk]

theorem writtenBytes_eq (cfg : Build) (v : Word) {size : Nat}
    (hsize : size = 1 ∨ size = 2 ∨ size = 4) :
    writtenBytes cfg size v = .ok ((List.range size).map (byte v)) := by
  unfold writtenBytes
  rcases hsize with rfl | rfl | rfl
  · have hbyte : (v &&& 0xff#32).truncate 8 = byte v 0 := by
      refine BitVec.eq_of_getLsbD_eq fun i hi => ?_
      rw [getLsbD_byte hi, BitVec.truncate_eq_setWidth, BitVec.getLsbD_setWidth, BitVec.getLsbD_and,
        show (0xff#32) = lowMask 8 32 from rfl, getLsbD_lowMask (by omega)]
      simp [hi]
    rw [hbyte]
    rfl
  · rw [hostShortBytes_eq, byte_truncate _ (by decide), byte_truncate _ (by decide),
      show (0xffff#32) = lowMask 16 32 from rfl, byte_and_lowMask v (by decide) (by decide),
      byte_and_lowMask v (by decide) (by decide)]
    rfl
  · rw [hostWordBytes_eq]
    rfl

/-! ## The memory behind a page table -/

variable {cfg : Build} {m m' : Machine} {table table' : List TranslationEntry} {writing : Bool}
    {v a : Word} {size p : Nat} {e' : TranslationEntry}

def accessed (writing : Bool) (table : List TranslationEntry) (v : Word) : Except ExceptionType Nat :=
  (tableEntry table (v.toNat / pageSize)).bind (checked writing (v.toNat % pageSize))

def byteAt (m : Machine) (v : Word) : Option Byte :=
  (accessed false (m.pageTable.getD []) v).toOption.map m.mainMemory

def InjectiveTable (table : List TranslationEntry) : Prop :=
  ∀ i j e e', tableEntry table i = .ok e → tableEntry table j = .ok e' →
    e.physicalPage = e'.physicalPage → i = j

def Remarked (table table' : List TranslationEntry) : Prop := table'.map mapping = table.map mapping

theorem valid_of_mapping {e : TranslationEntry} (h : mapping e' = mapping e) : e'.valid = e.valid := by
  have hvalid := congrArg TranslationEntry.valid h
  exact hvalid

theorem physicalPage_of_mapping {e : TranslationEntry} (h : mapping e' = mapping e) :
    e'.physicalPage = e.physicalPage := by
  have hframe := congrArg TranslationEntry.physicalPage h
  exact hframe

theorem Remarked.tableEntry (h : Remarked table table') (i : Nat) :
    (tableEntry table' i).map mapping = (tableEntry table i).map mapping := by
  have hentry : table'[i]?.map mapping = table[i]?.map mapping := by
    rw [← List.getElem?_map, h, List.getElem?_map]
  unfold Machine.tableEntry
  cases he : table[i]? with
  | none =>
    rw [he, Option.map_none, Option.map_eq_none_iff] at hentry
    rw [hentry]
  | some e =>
    rw [he, Option.map_some, Option.map_eq_some_iff] at hentry
    obtain ⟨e', he', hmap⟩ := hentry
    rw [he']
    dsimp only
    rw [valid_of_mapping hmap]
    split
    · exact congrArg Except.ok hmap
    · rfl

theorem Remarked.tableEntry_ok (h : Remarked table table') {i : Nat}
    (he : Machine.tableEntry table' i = .ok e') :
    ∃ e, Machine.tableEntry table i = .ok e ∧ mapping e' = mapping e := by
  have hmap := h.tableEntry i
  rw [he] at hmap
  cases hentry : Machine.tableEntry table i with
  | error exception =>
    rw [hentry] at hmap
    cases hmap
  | ok e =>
    rw [hentry] at hmap
    exact ⟨e, rfl, Except.ok.inj hmap⟩

theorem Remarked.accessed (h : Remarked table table') (writing : Bool) (v : Word) :
    accessed writing table' v = accessed writing table v := by
  have hmap := h.tableEntry (v.toNat / pageSize)
  unfold Machine.accessed
  cases he : Machine.tableEntry table' (v.toNat / pageSize) with
  | error exception =>
    cases hentry : Machine.tableEntry table (v.toNat / pageSize) with
    | error exception' =>
      rw [he, hentry] at hmap
      cases hmap
      rfl
    | ok e =>
      rw [he, hentry] at hmap
      cases hmap
  | ok e' =>
    obtain ⟨e, hentry, hm⟩ := h.tableEntry_ok he
    rw [hentry]
    exact checked_congr hm writing _

theorem Remarked.injective (h : Remarked table table') (hinj : InjectiveTable table) :
    InjectiveTable table' := by
  intro i j e e' he he' hframe
  obtain ⟨d, hd, hmap⟩ := h.tableEntry_ok he
  obtain ⟨d', hd', hmap'⟩ := h.tableEntry_ok he'
  refine hinj i j d d' hd hd' ?_
  rw [← physicalPage_of_mapping hmap, ← physicalPage_of_mapping hmap', hframe]

theorem Remarked.hasTable (h : Remarked table table') (hm : m.HasTable table) (htlb : m'.tlb = none)
    (htable : m'.pageTable = some table') (hsize : m'.pageTableSize = m.pageTableSize) :
    m'.HasTable table' := by
  have hlength := congrArg List.length h
  rw [List.length_map, List.length_map] at hlength
  exact ⟨htlb, htable, hsize.trans (hm.size.trans hlength.symm)⟩

theorem accessed_ok (h : accessed writing table v = .ok p) :
    ∃ e, tableEntry table (v.toNat / pageSize) = .ok e ∧
      checked writing (v.toNat % pageSize) e = .ok p := by
  unfold accessed at h
  cases he : tableEntry table (v.toNat / pageSize) with
  | error exception =>
    rw [he] at h
    cases h
  | ok e =>
    rw [he] at h
    exact ⟨e, rfl, h⟩

theorem accessed_read (h : accessed true table v = .ok p) : accessed false table v = .ok p := by
  obtain ⟨e, he, hc⟩ := accessed_ok h
  obtain ⟨hframe, rfl, -⟩ := checked_ok hc
  unfold accessed checked
  rw [he]
  change (if (e.readOnly && false) = true then _ else _) = _
  rw [Bool.and_false, if_neg (by decide), if_neg (Nat.not_le.2 hframe)]

theorem toNat_add_of_page (hk : v.toNat % pageSize + k < pageSize) :
    (v + BitVec.ofNat 32 k).toNat = v.toNat + k := by
  have hv := v.isLt
  rw [show pageSize = 128 from rfl] at hk
  rw [BitVec.toNat_add, BitVec.toNat_ofNat]
  omega

theorem accessed_next (h : accessed writing table v = .ok p)
    (hk : v.toNat % pageSize + k < pageSize) :
    accessed writing table (v + BitVec.ofNat 32 k) = .ok (p + k) := by
  obtain ⟨e, he, hc⟩ := accessed_ok h
  obtain ⟨hframe, rfl, hro⟩ := checked_ok hc
  have hdiv : (v.toNat + k) / pageSize = v.toNat / pageSize := by
    rw [show pageSize = 128 from rfl] at hk ⊢
    omega
  have hmod : (v.toNat + k) % pageSize = v.toNat % pageSize + k := by
    rw [show pageSize = 128 from rfl] at hk ⊢
    omega
  unfold accessed
  rw [toNat_add_of_page hk, hdiv, hmod, he]
  change checked writing _ e = _
  unfold checked
  rw [hro, if_neg (by decide), if_neg (Nat.not_le.2 hframe), Nat.add_assoc]

theorem accessed_injective {w : Word} {writing' : Bool} (hinj : InjectiveTable table)
    (h : accessed writing table v = .ok p) (h' : accessed writing' table w = .ok p) : v = w := by
  obtain ⟨e, he, hc⟩ := accessed_ok h
  obtain ⟨e', he', hc'⟩ := accessed_ok h'
  obtain ⟨-, hp, -⟩ := checked_ok hc
  obtain ⟨-, hp', -⟩ := checked_ok hc'
  rw [hp, show pageSize = 128 from rfl] at hp'
  have hframe : e.physicalPage = e'.physicalPage := BitVec.eq_of_toNat_eq (by omega)
  have hpage := hinj _ _ e e' he he' hframe
  rw [show pageSize = 128 from rfl] at hpage
  refine BitVec.eq_of_toNat_eq ?_
  rw [hframe] at hp'
  omega

/-! ## What `ReadMem` and `WriteMem` do -/

theorem translate_accessed (hm : m.HasTable table) (ha : Aligned v size)
    (hsize : size = 1 ∨ size = 2 ∨ size = 4) (h : accessed writing table v = .ok p) :
    ∃ table', Remarked table table' ∧
      (translate v size writing).run m = .ok (.ok p) { m with pageTable := some table' } := by
  obtain ⟨e, he, hc⟩ := accessed_ok h
  refine ⟨table.set (v.toNat / pageSize) (marked writing e), ?_, ?_⟩
  · unfold tableEntry at he
    cases hentry : table[v.toNat / pageSize]? with
    | none =>
      rw [hentry] at he
      cases he
    | some d =>
      rw [hentry] at he
      dsimp only at he
      split at he
      · cases he
        exact map_mapping_set hentry rfl
      · cases he
  · rw [translate_table hm ha hsize, he, Except.bind, hc]
    rfl

theorem translate_refused {exception : ExceptionType} (hm : m.HasTable table) (ha : Aligned v size)
    (hsize : size = 1 ∨ size = 2 ∨ size = 4) (h : accessed writing table v = .error exception) :
    (translate v size writing).run m = .ok (.error exception) m := by
  rw [translate_table hm ha hsize]
  unfold accessed at h
  cases he : tableEntry table (v.toNat / pageSize) with
  | error exception' =>
    rw [he] at h
    cases h
    rfl
  | ok e =>
    rw [he] at h
    rw [Except.bind, show checked writing (v.toNat % pageSize) e = _ from h]
    rfl

theorem readMem_accessed (cfg : Build) (hm : m.HasTable table) (ha : Aligned v size)
    (hsize : size = 1 ∨ size = 2 ∨ size = 4) (h : accessed false table v = .ok p) :
    ∃ table', Remarked table table' ∧
      (readMem cfg v size).run m =
        .ok (readValue ((List.range size).map fun k => m.mainMemory (p + k)))
          { m with pageTable := some table' } := by
  obtain ⟨table', hmark, hrun⟩ := translate_accessed hm ha hsize h
  refine ⟨table', hmark, ?_⟩
  unfold readMem
  rw [run_step hrun, run_get_bind, readPhys_eq cfg _ p hsize]
  rfl

theorem writeMem_accessed (cfg : Build) (value : Word) (hm : m.HasTable table) (ha : Aligned v size)
    (hsize : size = 1 ∨ size = 2 ∨ size = 4) (h : accessed true table v = .ok p) :
    ∃ table', Remarked table table' ∧
      (writeMem cfg v size value).run m =
        .ok () { m with
          pageTable := some table'
          mainMemory := writeBlock m.mainMemory p ((List.range size).map (byte value)) } := by
  obtain ⟨table', hmark, hrun⟩ := translate_accessed hm ha hsize h
  refine ⟨table', hmark, ?_⟩
  unfold writeMem
  rw [run_step hrun, writtenBytes_eq cfg value hsize]
  rfl

theorem writeMem_returns {value : Word} (hm : m.HasTable table)
    (hsize : size = 1 ∨ size = 2 ∨ size = 4) (h : (writeMem cfg v size value).run m = .ok () m') :
    Aligned v size ∧ ∃ p, accessed true table v = .ok p := by
  unfold writeMem at h
  rw [EStateM.run_bind] at h
  by_cases ha : Aligned v size
  · refine ⟨ha, ?_⟩
    cases hc : accessed true table v with
    | ok p => exact ⟨p, rfl⟩
    | error exception =>
      rw [translate_refused hm ha hsize hc] at h
      cases h
  · rw [translate_unaligned ha] at h
    cases h

/-! ## The memory a program sees -/

variable {mem : Word → Option Byte} {bytes : List Byte}

def stored (mem : Word → Option Byte) (a : Word) (size : Nat) (value : Word) : Word → Option Byte :=
  fun w => if (w - a).toNat < size then some (byte value (w - a).toNat) else mem w

def Holds (mem : Word → Option Byte) (a : Word) (bytes : List Byte) : Prop :=
  ∀ k b, bytes[k]? = some b → mem (a + BitVec.ofNat 32 k) = some b

def Sees (table : List TranslationEntry) (mem : Word → Option Byte) (m : Machine) : Prop :=
  ∃ table', Remarked table table' ∧ m.HasTable table' ∧ m.byteAt = mem

theorem HasTable.sees (hm : m.HasTable table) : Sees table m.byteAt m := ⟨table, rfl, hm, rfl⟩

theorem HasTable.byteAt (hm : m.HasTable table) (v : Word) :
    m.byteAt v = (accessed false table v).toOption.map m.mainMemory := by
  rw [Machine.byteAt, hm.installed]
  rfl

theorem Sees.congr (h : Sees table mem m) (hmem : m'.mainMemory = m.mainMemory) (htlb : m'.tlb = m.tlb)
    (htable : m'.pageTable = m.pageTable) (hsize : m'.pageTableSize = m.pageTableSize) :
    Sees table mem m' := by
  obtain ⟨table', hmark, hm, rfl⟩ := h
  refine ⟨table', hmark, ⟨htlb.trans hm.noTLB, htable.trans hm.installed, hsize.trans hm.size⟩, ?_⟩
  unfold byteAt
  rw [hmem, htable]

theorem Sees.remark (h : Sees table mem m) (hmem : m'.mainMemory = m.mainMemory)
    (hs : SameMappings m m') : Sees table mem m' := by
  obtain ⟨table', hmark, hm, rfl⟩ := h
  have htable := hs.pageTable
  rw [hm.installed, Option.map_some, Option.map_eq_some_iff] at htable
  obtain ⟨table'', htable'', hmark'⟩ := htable
  have htlb := hs.tlb
  rw [hm.noTLB, Option.map_none, Option.map_eq_none_iff] at htlb
  have hm' : m'.HasTable table'' := Remarked.hasTable hmark' hm htlb htable'' hs.size
  refine ⟨table'', hmark'.trans hmark, hm', funext fun v => ?_⟩
  rw [hm'.byteAt, hm.byteAt, hmem, Remarked.accessed hmark']

theorem HasTable.sameMappings (hm : m.HasTable table) (hmark : Remarked table table') :
    SameMappings m { m with pageTable := some table' } := by
  refine ⟨?_, rfl, rfl⟩
  rw [hm.installed]
  exact congrArg some hmark

theorem HasTable.holds (hm : m.HasTable table) (hpos : 0 < bytes.length)
    (hfit : v.toNat % pageSize + bytes.length ≤ pageSize) (h : Holds m.byteAt v bytes) :
    ∃ p, accessed false table v = .ok p ∧
      bytes = (List.range bytes.length).map fun k => m.mainMemory (p + k) := by
  have hfirst := h 0 bytes[0] (List.getElem?_eq_getElem hpos)
  rw [show v + BitVec.ofNat 32 0 = v from BitVec.add_zero v, hm.byteAt] at hfirst
  cases hp : accessed false table v with
  | error exception =>
    rw [hp] at hfirst
    cases hfirst
  | ok p =>
    refine ⟨p, rfl, List.ext_getElem? fun k => ?_⟩
    by_cases hk : k < bytes.length
    · have hbyte := h k bytes[k] (List.getElem?_eq_getElem hk)
      rw [hm.byteAt, accessed_next hp (by omega)] at hbyte
      rw [List.getElem?_map, List.getElem?_range hk, List.getElem?_eq_getElem hk]
      exact hbyte.symm
    · rw [List.getElem?_eq_none (by omega), List.getElem?_eq_none (by simp; omega)]

theorem readMem_sees (cfg : Build) (h : Sees table mem m)
    (hlen : bytes.length = 1 ∨ bytes.length = 2 ∨ bytes.length = 4) (ha : Aligned v bytes.length)
    (hbytes : Holds mem v bytes) :
    ∃ m', (readMem cfg v bytes.length).run m = .ok (readValue bytes) m' ∧ Sees table mem m' ∧
      m'.registers = m.registers ∧ m'.mainMemory = m.mainMemory := by
  have hsees := h
  obtain ⟨table', -, hm, rfl⟩ := h
  obtain ⟨p, hp, hread⟩ := hm.holds (by omega) (ha.offset_le hlen) hbytes
  obtain ⟨table'', hmark, hrun⟩ := readMem_accessed cfg hm ha hlen hp
  rw [← hread] at hrun
  exact ⟨_, hrun, hsees.remark rfl (hm.sameMappings hmark), rfl, rfl⟩

theorem byteAt_writeBlock (hm : m.HasTable table) (hinj : InjectiveTable table)
    (hfit : a.toNat % pageSize + size ≤ pageSize) (hp : accessed true table a = .ok p) (value w : Word) :
    (accessed false table w).toOption.map
        (writeBlock m.mainMemory p ((List.range size).map (byte value))) =
      stored m.byteAt a size value w := by
  have hread := accessed_read hp
  unfold stored
  by_cases hw : (w - a).toNat < size
  · have haddr : w = a + BitVec.ofNat 32 (w - a).toNat := by
      rw [BitVec.ofNat_toNat, BitVec.setWidth_eq, add_sub_cancel]
    have hplace := accessed_next hread (k := (w - a).toNat) (by omega)
    rw [← haddr] at hplace
    have hin : InBlock p ((List.range size).map (byte value)) (p + (w - a).toNat) := by
      refine ⟨Nat.le_add_right _ _, ?_⟩
      simpa using hw
    have hbyte : _ = some (writeBlock m.mainMemory p _ _) := writeBlock_of_mem hin
    rw [Nat.add_sub_cancel_left, List.getElem?_map, List.getElem?_range hw] at hbyte
    rw [if_pos hw, hplace]
    exact hbyte.symm
  · rw [if_neg hw, hm.byteAt]
    cases hq : accessed false table w with
    | error exception => rfl
    | ok q =>
      refine congrArg some (writeBlock_of_not ?_)
      rintro ⟨hle, hlt⟩
      rw [List.length_map, List.length_range] at hlt
      have hplace := accessed_next hread (k := q - p) (by omega)
      rw [Nat.add_sub_of_le hle] at hplace
      have heq := accessed_injective hinj hq hplace
      refine hw ?_
      rw [heq, add_sub_cancel_left, BitVec.toNat_ofNat]
      exact (Nat.mod_le _ _).trans_lt (by omega)

theorem writeMem_sees (cfg : Build) (value : Word) (hinj : InjectiveTable table) (h : Sees table mem m)
    (hsize : size = 1 ∨ size = 2 ∨ size = 4) (ha : Aligned a size)
    (hp : accessed true table a = .ok p) :
    ∃ m', (writeMem cfg a size value).run m = .ok () m' ∧ Sees table (stored mem a size value) m' ∧
      m'.registers = m.registers := by
  obtain ⟨table', hmark, hm, rfl⟩ := h
  have hp' : accessed true table' a = .ok p := by rw [hmark.accessed, hp]
  obtain ⟨table'', hmark', hrun⟩ := writeMem_accessed cfg value hm ha hsize hp'
  refine ⟨_, hrun, ⟨table'', hmark'.trans hmark, hmark'.hasTable hm hm.noTLB rfl rfl,
    funext fun w => ?_⟩, rfl⟩
  rw [← byteAt_writeBlock hm (hmark.injective hinj) (ha.offset_le hsize) hp', ← hmark'.accessed]
  rfl

/-! ## Loads and stores -/

/-- The loads of whole bytes, half words and words: how many bytes, and whether they are signed. -/
def loads : OpCode → Option (Nat × Bool)
  | .lb => some (1, true)
  | .lbu => some (1, false)
  | .lh => some (2, true)
  | .lhu => some (2, false)
  | .lw => some (4, false)
  | _ => none

def stores : OpCode → Option Nat
  | .sb => some 1
  | .sh => some 2
  | .sw => some 4
  | _ => none

def loadedValue (signed : Bool) (bytes : List Byte) : Word :=
  if signed then signExtended 32 bytes else zeroExtended 32 bytes

variable {instr : Instruction} {signed : Bool}

def extension (opCode : OpCode) (value : Word) : Word :=
  match opCode with
  | .lb => if value &&& 0x80#32 ≠ 0 then value ||| 0xffffff00#32 else value &&& 0xff#32
  | .lbu => value &&& 0xff#32
  | .lh => if value &&& 0x8000#32 ≠ 0 then value ||| 0xffff0000#32 else value &&& 0xffff#32
  | .lhu => value &&& 0xffff#32
  | _ => value

theorem setWidth_short (s : BitVec 16) : (s.setWidth 32).setWidth 16 = s := by
  rw [BitVec.setWidth_setWidth_of_le _ (by decide), BitVec.setWidth_eq]

theorem readValue_one (b : Byte) : readValue [b] = b.signExtend 32 := by
  simp [readValue, signExtended, joined_one]

theorem readValue_two (b b' : Byte) : readValue [b, b'] = (joined [b, b']).setWidth 32 := by
  simp [readValue, zeroExtended]

/-- `LB` extends a byte again, `LBU` takes the extension back, and `LH` makes up for the one that
`ReadMem` has not made. -/
theorem extension_readValue {opCode : OpCode} (hop : loads opCode = some (bytes.length, signed)) :
    extension opCode (readValue bytes) = loadedValue signed bytes := by
  cases opCode with
  | lb =>
    simp only [loads, Option.some.injEq, Prod.mk.injEq] at hop
    obtain ⟨hlen, rfl⟩ := hop
    obtain ⟨b, rfl⟩ := List.length_eq_one_iff.1 hlen.symm
    have hmasks := signExtend_by_masks (n := 8) (by decide) (by decide) (b.signExtend 32)
    rw [setWidth_signExtend (by decide)] at hmasks
    rw [readValue_one, loadedValue, if_pos rfl, signExtended, joined_one]
    exact hmasks
  | lbu =>
    simp only [loads, Option.some.injEq, Prod.mk.injEq] at hop
    obtain ⟨hlen, rfl⟩ := hop
    obtain ⟨b, rfl⟩ := List.length_eq_one_iff.1 hlen.symm
    rw [readValue_one, loadedValue, if_neg (by decide), zeroExtended, joined_one, extension,
      show (0xff#32) = lowMask 8 32 from rfl, and_lowMask, setWidth_signExtend (by decide)]
  | lh =>
    simp only [loads, Option.some.injEq, Prod.mk.injEq] at hop
    obtain ⟨hlen, rfl⟩ := hop
    obtain ⟨b, b', rfl⟩ := List.length_eq_two.1 hlen.symm
    have hmasks := signExtend_by_masks (n := 16) (by decide) (by decide)
      ((joined [b, b']).setWidth 32)
    rw [setWidth_short] at hmasks
    rw [readValue_two, loadedValue, if_pos rfl]
    exact hmasks
  | lhu =>
    simp only [loads, Option.some.injEq, Prod.mk.injEq] at hop
    obtain ⟨hlen, rfl⟩ := hop
    obtain ⟨b, b', rfl⟩ := List.length_eq_two.1 hlen.symm
    rw [readValue_two, loadedValue, if_neg (by decide), extension,
      show (0xffff#32) = lowMask 16 32 from rfl, and_lowMask, setWidth_short]
    rfl
  | lw =>
    simp only [loads, Option.some.injEq, Prod.mk.injEq] at hop
    obtain ⟨hlen, rfl⟩ := hop
    change readValue bytes = _
    rw [loadedValue, if_neg (by decide), readValue, if_neg (by omega)]
  | _ => cases hop

theorem execute_loads_run (cfg : Build) (pcAfter : Word)
    (hop : loads instr.opCode = some (size, signed)) (ha : Aligned (m.gp instr.rs + instr.extra) size) :
    (execute cfg instr pcAfter).run m =
      match (readMem cfg (m.gp instr.rs + instr.extra) size).run m with
      | .error e m' => .error e m'
      | .ok value m' =>
        .ok ⟨pcAfter, BitVec.ofNat 32 instr.rt, extension instr.opCode value⟩ m' := by
  unfold execute
  rw [run_get_bind]
  cases hopc : instr.opCode with
  | lb | lbu =>
    rw [hopc] at hop
    cases hop
    dsimp only
    rw [EStateM.run_bind]
    cases (readMem cfg (m.gp instr.rs + instr.extra) 1).run m <;> rfl
  | lh | lhu =>
    rw [hopc] at hop
    cases hop
    dsimp only
    rw [if_neg fun h => ha (.inr ⟨rfl, h⟩)]
    change EStateM.run (readMem cfg _ 2 >>= _) m = _
    rw [EStateM.run_bind]
    cases (readMem cfg (m.gp instr.rs + instr.extra) 2).run m <;> rfl
  | lw =>
    rw [hopc] at hop
    cases hop
    dsimp only
    rw [if_neg fun h => ha (.inl ⟨rfl, h⟩)]
    change EStateM.run (readMem cfg _ 4 >>= _) m = _
    rw [EStateM.run_bind]
    cases (readMem cfg (m.gp instr.rs + instr.extra) 4).run m <;> rfl
  | _ =>
    rw [hopc] at hop
    cases hop

theorem execute_loads (cfg : Build) (pcAfter : Word) (h : Sees table mem m)
    (hop : loads instr.opCode = some (bytes.length, signed))
    (ha : Aligned (m.gp instr.rs + instr.extra) bytes.length)
    (hbytes : Holds mem (m.gp instr.rs + instr.extra) bytes) :
    ∃ m', (execute cfg instr pcAfter).run m =
        .ok ⟨pcAfter, BitVec.ofNat 32 instr.rt, loadedValue signed bytes⟩ m' ∧ Sees table mem m' := by
  have hlen : bytes.length = 1 ∨ bytes.length = 2 ∨ bytes.length = 4 := by
    cases hopc : instr.opCode <;> rw [hopc] at hop <;> simp [loads] at hop <;> omega
  obtain ⟨m', hrun, hsees, -⟩ := readMem_sees cfg h hlen ha hbytes
  refine ⟨m', ?_, hsees⟩
  rw [execute_loads_run cfg pcAfter hop ha, hrun]
  dsimp only
  rw [extension_readValue hop]

theorem execute_stores (cfg : Build) (pcAfter : Word) (hop : stores instr.opCode = some size) :
    (execute cfg instr pcAfter).run m =
      match (writeMem cfg (m.gp instr.rs + instr.extra) size (m.gp instr.rt)).run m with
      | .error e m' => .error e m'
      | .ok _ m' => .ok ⟨pcAfter, 0, 0⟩ m' := by
  unfold execute
  rw [run_get_bind]
  cases hopc : instr.opCode with
  | sb | sh | sw =>
    rw [hopc] at hop
    cases hop
    dsimp only
    rw [EStateM.run_bind]
    cases (writeMem cfg (m.gp instr.rs + instr.extra) _ (m.gp instr.rt)).run m <;> rfl
  | _ =>
    rw [hopc] at hop
    cases hop

/-! ## Runs of stores -/

structure Store where
  addr : Word
  size : Nat
  value : Word

def afterStores (mem : Word → Option Byte) (done : List Store) : Word → Option Byte :=
  done.foldl (fun mem s => stored mem s.addr s.size s.value) mem

/-- The machine has executed these stores. What comes between them changes no memory, and of the page table
at most use and dirty bits. -/
inductive StoreRun (cfg : Build) (m : Machine) : List Store → Machine → Prop
  | start : StoreRun cfg m [] m
  | store {done : List Store} {m1 m2 m3 : Machine} {instr : Instruction} {size : Nat} :
      StoreRun cfg m done m1 → Fetches cfg m1 instr m2 → stores instr.opCode = some size →
      (oneInstruction cfg).run m1 = .ok () m3 →
      StoreRun cfg m (done ++ [⟨m1.gp instr.rs + instr.extra, size, m1.gp instr.rt⟩]) m3
  | between {done : List Store} {m1 m2 : Machine} :
      StoreRun cfg m done m1 → m2.mainMemory = m1.mainMemory → SameMappings m1 m2 →
      StoreRun cfg m done m2

theorem readMem_mappings (cfg : Build) (addr : Word) (size : Nat) (m : Machine) :
    SameMappings m (final ((readMem cfg addr size).run m)) := by
  rw [readMem_final]
  exact translate_mappings addr size false m

theorem Fetches.sees {m1 : Machine} (hf : Fetches cfg m instr m1) (h : Sees table mem m) :
    Sees table mem m1 := by
  have hmem := hf.contents.mem
  obtain ⟨raw, hraw, -⟩ := hf
  have hs := readMem_mappings cfg (m.registers pcReg) 4 m
  rw [hraw] at hs
  exact h.remark hmem hs

theorem stores_size (h : stores instr.opCode = some size) : size = 1 ∨ size = 2 ∨ size = 4 := by
  cases hopc : instr.opCode <;> rw [hopc] at h <;> simp [stores] at h <;> omega

theorem sees_store {m1 : Machine} (hinj : InjectiveTable table) (h : Sees table mem m)
    (hf : Fetches cfg m instr m1) (hop : stores instr.opCode = some size)
    (hrun : (oneInstruction cfg).run m = .ok () m') :
    Sees table (stored mem (m.gp instr.rs + instr.extra) size (m.gp instr.rt)) m' := by
  have hsize := stores_size hop
  have h1 := hf.sees h
  obtain ⟨p, m2, hexec, hmem, htlb, htable, hpages⟩ := hf.returned hrun
  rw [execute_stores cfg _ hop, hf.gp, hf.gp] at hexec
  cases hw : (writeMem cfg (m.gp instr.rs + instr.extra) size (m.gp instr.rt)).run m1 with
  | error e m3 =>
    rw [hw] at hexec
    cases hexec
  | ok u m3 =>
    rw [hw] at hexec
    cases hexec
    obtain ⟨table', hmark, hm, -⟩ := h1
    obtain ⟨ha, q, hq⟩ := writeMem_returns hm hsize hw
    rw [hmark.accessed] at hq
    obtain ⟨m4, hw', hsees, -⟩ := writeMem_sees cfg (m.gp instr.rt) hinj (hf.sees h) hsize ha hq
    rw [hw] at hw'
    cases hw'
    exact hsees.congr hmem htlb htable hpages

theorem StoreRun.sees {done : List Store} (hinj : InjectiveTable table) (h : Sees table mem m)
    (hrun : StoreRun cfg m done m') : Sees table (afterStores mem done) m' := by
  induction hrun with
  | start => exact h
  | store _ hf hop hstep ih =>
    rw [afterStores, List.foldl_append]
    exact sees_store hinj ih hf hop hstep
  | between _ hmem hs ih => exact ih.remark hmem hs

/-! ## The theorem -/

theorem holds_stored (hk : k < size) (hsize : size ≤ 4) (value : Word) :
    stored mem a size value (a + BitVec.ofNat 32 k) = some (byte value k) := by
  unfold stored
  have hsub : (a + BitVec.ofNat 32 k - a).toNat = k := by
    rw [add_sub_cancel_left, BitVec.toNat_ofNat, Nat.mod_eq_of_lt (by omega)]
  rw [hsub, if_pos hk]

theorem holds_singleton {b : Byte} (h : mem v = some b) : Holds mem v [b] := by
  intro k b' hk
  obtain ⟨hlt, rfl⟩ := List.getElem?_eq_some_iff.1 hk
  obtain rfl : k = 0 := by simpa using hlt
  rw [show v + BitVec.ofNat 32 0 = v from BitVec.add_zero v, h]
  rfl

/-- **Little-endian memory**, through an injective page table. -/
theorem little_endian (cfg : Build) (hm : m.HasTable table) (hinj : InjectiveTable table) :
    (∀ (a : Word) (size : Nat) (value : Word), size = 1 ∨ size = 2 ∨ size = 4 → Aligned a size →
      (∃ p, accessed true table a = .ok p) →
      ∃ m', (writeMem cfg a size value).run m = .ok () m' ∧
        (∀ k < size, m'.byteAt (a + BitVec.ofNat 32 k) = some (byte value k) ∧
          ∃ m'', (readMem cfg (a + BitVec.ofNat 32 k) 1).run m' =
            .ok ((byte value k).signExtend 32) m'') ∧
        ∀ w, (∀ k < size, w ≠ a + BitVec.ofNat 32 k) → m'.byteAt w = m.byteAt w) ∧
    (∀ (b : Word) (bytes : List Byte), bytes.length = 1 ∨ bytes.length = 2 ∨ bytes.length = 4 →
      Aligned b bytes.length → Holds m.byteAt b bytes →
      ∃ m', (readMem cfg b bytes.length).run m =
        .ok (if bytes.length = 1 then signExtended 32 bytes else zeroExtended 32 bytes) m') ∧
    ∀ (done : List Store) (m1 m2 : Machine) (instr : Instruction) (bytes : List Byte) (signed : Bool),
      StoreRun cfg m done m1 → m1.LoadsGeneral → Fetches cfg m1 instr m2 →
      loads instr.opCode = some (bytes.length, signed) →
      Aligned (m1.gp instr.rs + instr.extra) bytes.length →
      Holds (afterStores m.byteAt done) (m1.gp instr.rs + instr.extra) bytes →
      ∃ m', (oneInstruction cfg).run m1 = .ok () m' ∧
        m'.registers loadReg = BitVec.ofNat 32 instr.rt ∧
        m'.registers loadValueReg = loadedValue signed bytes := by
  refine ⟨fun a size value hsize ha hp => ?_, fun b bytes hlen ha hbytes => ?_,
    fun done m1 m2 instr bytes signed hrun hl hf hop ha hbytes => ?_⟩
  · obtain ⟨p, hp⟩ := hp
    obtain ⟨m', hwrite, hsees, -⟩ := writeMem_sees cfg value hinj hm.sees hsize ha hp
    have hbyte (k : Nat) (hk : k < size) :
        stored m.byteAt a size value (a + BitVec.ofNat 32 k) = some (byte value k) :=
      holds_stored hk (by omega) value
    have hat : m'.byteAt = stored m.byteAt a size value := by
      obtain ⟨-, -, -, hat⟩ := hsees
      exact hat
    refine ⟨m', hwrite, fun k hk => ⟨by rw [hat, hbyte k hk], ?_⟩, fun w hw => ?_⟩
    · have ha' : Aligned (a + BitVec.ofNat 32 k) [byte value k].length := by simp [Aligned]
      obtain ⟨m'', hread, -⟩ :=
        readMem_sees cfg hsees (.inl rfl) ha' (holds_singleton (hbyte k hk))
      rw [readValue_one] at hread
      exact ⟨m'', hread⟩
    · rw [hat, stored, if_neg]
      intro hlt
      refine hw _ hlt ?_
      rw [BitVec.ofNat_toNat, BitVec.setWidth_eq, add_sub_cancel]
  · obtain ⟨m', hread, -⟩ := readMem_sees cfg hm.sees hlen ha hbytes
    exact ⟨m', hread⟩
  · have hsees := hf.sees (hrun.sees hinj hm.sees)
    rw [← hf.gp] at ha hbytes
    obtain ⟨m3, hexec, -⟩ := execute_loads cfg (m2.registers nextPCReg + 4) hsees hop ha hbytes
    refine ⟨_, by rw [oneInstruction_fetched hl hf, hexec], ?_, ?_⟩
    · rw [loadReg_finished]
    · rw [loadValueReg_finished]

theorem injectiveTable_singleton (e : TranslationEntry) : InjectiveTable [e] := by
  have hzero {i : Nat} {d : TranslationEntry} (h : tableEntry [e] i = .ok d) : i = 0 := by
    cases i with
    | zero => rfl
    | succ i => cases h
  intro i j d d' hd hd' _
  rw [hzero hd, hzero hd']

/-- `SW r1, 64(r0)` and `LB r2, 65(r0)` in memory. -/
def storeLoadPage : Machine :=
  programPage [0xac010040, 0x80020041] fun r =>
    if r = gpr 1 then 0x1122e344 else if r = nextPCReg then 4 else 0

/-- The second byte of the word comes back, with its sign. -/
theorem little_endian_storeLoad : ∃ m1 m', StoreRun buildLinux storeLoadPage [⟨64, 4, 0x1122e344⟩] m1 ∧
    (oneInstruction buildLinux).run m1 = .ok () m' ∧ m'.registers loadValueReg = 0xffffffe3 := by
  have hm : storeLoadPage.HasTable [⟨0, 0, true, false, false, false⟩] := ⟨rfl, rfl, rfl⟩
  have hf : ∃ m1, Fetches buildLinux storeLoadPage ⟨.sw, 0, 1, 0, 64⟩ m1 :=
    ⟨_, 0xac010040, rfl, by decide⟩
  obtain ⟨_, hf⟩ := hf
  have hrun : StoreRun buildLinux storeLoadPage [⟨64, 4, 0x1122e344⟩]
      (final ((oneInstruction buildLinux).run storeLoadPage)) := .store .start hf rfl rfl
  obtain ⟨m', hload, -, hvalue⟩ :=
    (little_endian buildLinux hm (injectiveTable_singleton _)).2.2 _ _ _ ⟨.lb, 0, 2, 0, 65⟩ [0xe3] true hrun
      (by unfold LoadsGeneral; decide) ⟨0x80020041, rfl, by decide⟩ rfl (by decide)
      (holds_singleton (by decide))
  exact ⟨_, m', hrun, hload, hvalue⟩

end Machine

end Nachos
