import Nachos.Filesys.FileSystem
import Nachos.Filesys.Proof.Contents
import Nachos.Lib.Proof.Bitmap

/-!
# The parts of the file system

What the functions on the free map, the directory and the headers do: reading back what was written
(`mapOf_bytes`, `ofFile_eq`, `fetchFrom_eq`), the entries of a table after a change of one of them, and
the sectors that `Allocate` takes from the free map (`allocate_cases`) and `Deallocate` gives back
(`deallocate_eq`).
-/

namespace Nachos.FileSystem

open Base Interrupt

variable {cfg : Build} {disk disk' : Disk} {hdr : FileHeader} {n : Nat} {xs : List Nat} {b : Bitmap}
    {d : Directory}

/-! ## The free map in its file -/

def mapOf (cfg : Build) (bs : List Byte) : Bitmap :=
  ⟨numSectors, PersistentBitmap.words cfg 32 bs, by
    rw [PersistentBitmap.words, List.length_map, List.length_range]
    decide⟩

theorem length_bytes (map : List (BitVec bitsInWord)) :
    (PersistentBitmap.bytes cfg map).length = 4 * map.length := by
  rw [PersistentBitmap.bytes, length_flatMap_const fun v _ => length_hostWordBytes cfg _, Nat.mul_comm]

theorem words_bytes (map : List (BitVec bitsInWord)) :
    PersistentBitmap.words cfg map.length (PersistentBitmap.bytes cfg map) = map := by
  apply List.ext_getElem?
  intro i
  unfold PersistentBitmap.words
  rw [List.getElem?_map]
  by_cases hi : i < map.length
  · rw [List.getElem?_range hi, List.getElem?_eq_getElem hi, Option.map_some]
    refine congrArg (some ∘ PersistentBitmap.ofWord)
      (wordAt_eq (v := PersistentBitmap.toWord map[i]) fun j hj => ?_)
    rw [PersistentBitmap.bytes, getElem?_flatMap_const (by decide) fun v _ => length_hostWordBytes cfg _,
      show (4 * i + j) / 4 = i by omega, show (4 * i + j) % 4 = j by omega, List.getElem?_eq_getElem hi]
    rfl
  · rw [List.getElem?_eq_none (by rw [List.length_range]; omega), List.getElem?_eq_none (by omega)]
    rfl

theorem bitmap_ext {b' : Bitmap} (hn : b.numBits = b'.numBits) (hm : b.map = b'.map) : b = b' := by
  cases b
  cases b'
  subst hn hm
  rfl

theorem length_map (h : b.numBits = numSectors) : b.map.length = 32 := by
  rw [b.numWords, h]
  decide

theorem mapOf_bytes (h : b.numBits = numSectors) :
    mapOf cfg (PersistentBitmap.bytes cfg b.map) = b := by
  refine bitmap_ext h.symm ?_
  have hw : PersistentBitmap.words cfg b.map.length _ = b.map := words_bytes b.map
  rwa [length_map h] at hw

theorem ofFile_eq (h : Describes cfg hdr freeMapFileSize xs) :
    PersistentBitmap.ofFile cfg disk hdr numSectors =
      .ok (mapOf cfg (fileBytes disk freeMapFileSize xs)) := by
  obtain ⟨b, hb, hn, -⟩ := Bitmap.new_eq (n := numSectors) (by decide)
  have hl := length_map hn
  have hlen := h.length_fileBytes disk
  unfold PersistentBitmap.ofFile PersistentBitmap.fetchFrom
  have hread : readAt cfg disk hdr (b.map.length * 4) 0 =
      .ok (((fileBytes disk freeMapFileSize xs).drop 0).take 128) := by
    rw [hl]
    exact readAt_eq disk h (m := 128) (p := 0) (by decide) (by decide) (by decide)
  rw [hb, ok_bind, hread, ok_bind, pure_eq_ok]
  refine congrArg Except.ok (bitmap_ext hn ?_)
  have htake : ((fileBytes disk freeMapFileSize xs).drop 0).take 128 =
      fileBytes disk freeMapFileSize xs := by
    rw [List.drop_zero, List.take_of_length_le (by rw [hlen]; decide)]
  have hpatch : patch (PersistentBitmap.bytes cfg b.map) 0 (fileBytes disk freeMapFileSize xs) =
      fileBytes disk freeMapFileSize xs := patch_all (by rw [hlen, length_bytes, hl]; decide)
  change PersistentBitmap.words cfg b.map.length _ = PersistentBitmap.words cfg 32 _
  rw [htake, hpatch, hl]

theorem writeAll_eq (disk : Disk) (h : Describes cfg hdr n xs) (hx : xs.Nodup) {data : List Byte} (hn : 0 < n)
    (hd : data.length = n) (memory : Nat → Byte) :
    ∃ disk', writeAt cfg disk hdr data n 0 memory = .ok ((n : Int), disk') ∧
      (∀ x, x ∉ xs → disk' x = disk x) ∧ fileBytes disk' n xs = data := by
  have hle : n ≤ 3840 := h.le_max
  obtain ⟨disk', hw, hf, hb⟩ := writeAt_eq disk h hx data (m := n) (p := 0) hn hn
    (by omega) (by omega) memory
  rw [Nat.sub_zero, Nat.min_self] at hw hb
  refine ⟨disk', hw, hf, ?_⟩
  rw [hb, List.take_of_length_le (by omega), patch_all (by rw [h.length_fileBytes, hd])]

theorem writeBackMap_eq (disk : Disk) (h : Describes cfg hdr freeMapFileSize xs) (hx : xs.Nodup)
    (hb : b.numBits = numSectors) (memory : Nat → Byte) :
    ∃ disk', PersistentBitmap.writeBack cfg disk hdr b memory = .ok disk' ∧
      (∀ x, x ∉ xs → disk' x = disk x) ∧
      fileBytes disk' freeMapFileSize xs = PersistentBitmap.bytes cfg b.map := by
  have hlen : (PersistentBitmap.bytes cfg b.map).length = freeMapFileSize := by
    rw [length_bytes, length_map hb]
    decide
  obtain ⟨disk', hw, hf, hc⟩ := writeAll_eq disk h hx (by decide) hlen memory
  refine ⟨disk', ?_, hf, hc⟩
  unfold PersistentBitmap.writeBack
  rw [length_map hb]
  change (do return (← writeAt cfg disk hdr _ freeMapFileSize 0 memory).2) = _
  rw [hw]
  rfl

/-! ## The directory in its file -/

namespace Directory

variable {d : Directory} {name : List Byte}

theorem eq_of {d' : Directory} (hs : d.tableSize = d'.tableSize) (ht : d.table = d'.table) : d = d' := by
  cases d
  cases d'
  subst hs ht
  rfl

@[simp] theorem tableSize_store (d : Directory) (i offset : Nat) (bs : List Byte) :
    (d.store i offset bs).tableSize = d.tableSize := rfl

section
variable {d : Directory} {i k offset o : Nat} {bs : List Byte}

theorem getElem?_store_of_not (h : k ≠ i ∨ o < offset ∨ offset + bs.length ≤ o)
    (hb : offset + bs.length ≤ entrySize) (ho : o < entrySize) :
    (d.store i offset bs).table[k * entrySize + o]? = d.table[k * entrySize + o]? := by
  refine getElem?_patch_of_not ?_
  unfold entrySize at *
  omega

theorem getElem?_store (hi : i < d.tableSize) (hb : offset + bs.length ≤ entrySize) (ho : offset ≤ o)
    (ho' : o < offset + bs.length) :
    (d.store i offset bs).table[i * entrySize + o]? = bs[o - offset]? := by
  have hroom : i * entrySize + offset + bs.length ≤ d.table.length := by
    have := Nat.mul_le_mul_right entrySize hi
    rw [Nat.succ_mul] at this
    rw [d.size]
    omega
  unfold store
  rw [getElem?_patch_of_mem hroom (by omega) (by omega)]
  congr 1
  omega

theorem inUse_eq (d : Directory) (i : Nat) : d.inUse i = decide ((d.table[i * entrySize]?).getD 0 ≠ 0) := by
  rw [inUse, List.getD_eq_getElem?_getD]

theorem inUse_store_of_not (h : k ≠ i ∨ 0 < offset) (hb : offset + bs.length ≤ entrySize) :
    (d.store i offset bs).inUse k = d.inUse k := by
  have := getElem?_store_of_not (d := d) (o := 0) (k := k) (h.imp id .inl) hb (by decide)
  rw [inUse_eq, inUse_eq, ← Nat.add_zero (k * entrySize), this]

theorem inUse_store_zero : (d.store i 0 [0]).inUse k = (d.inUse k && decide (k ≠ i)) := by
  by_cases hk : k = i
  · subst hk
    have h0 : ((d.store k 0 [0]).table[k * entrySize]?).getD 0 = 0 := by
      unfold store
      by_cases hl : k * entrySize + 0 + 1 ≤ d.table.length
      · rw [getElem?_patch_of_mem hl (by omega) (by simp)]
        simp
      · rw [List.getElem?_eq_none (by simp; omega)]
        rfl
    rw [inUse_eq, h0]
    simp
  · rw [inUse_store_of_not (.inl hk) (by decide)]
    simp [hk]

theorem inUse_store_one (hi : i < d.tableSize) :
    (d.store i 0 [1]).inUse k = (d.inUse k || decide (k = i)) := by
  by_cases hk : k = i
  · subst hk
    have h1 : (d.store k 0 [1]).table[k * entrySize + 0]? = ([1] : List Byte)[0 - 0]? :=
      getElem?_store hi (by decide) (Nat.le_refl _) (by simp)
    rw [inUse_eq, ← Nat.add_zero (k * entrySize), h1]
    simp
  · rw [inUse_store_of_not (.inl hk) (by decide)]
    simp [hk]

theorem sector_store_of_not (h : k ≠ i ∨ offset + bs.length ≤ 4 ∨ 8 ≤ offset)
    (hb : offset + bs.length ≤ entrySize) : (d.store i offset bs).sector cfg k = d.sector cfg k := by
  refine congrArg BitVec.toInt (wordAt_congr fun j hj => ?_)
  rw [Nat.add_assoc]
  exact getElem?_store_of_not (by omega) hb (by unfold entrySize; omega)

theorem sector_store (hi : i < d.tableSize) {v : Word} :
    (d.store i 4 (hostWordBytes cfg v)).sector cfg i = v.toInt := by
  refine congrArg BitVec.toInt (wordAt_eq fun j hj => ?_)
  rw [Nat.add_assoc, getElem?_store hi (by rw [length_hostWordBytes]; decide) (by omega)
    (by rw [length_hostWordBytes]; omega), Nat.add_sub_cancel_left]

theorem name_store_of_not (h : k ≠ i ∨ offset + bs.length ≤ 8) (hb : offset + bs.length ≤ entrySize) :
    (d.store i offset bs).name k = d.name k := by
  apply List.ext_getElem?
  intro j
  unfold name
  by_cases hj : j < fileNameMaxLen + 1
  · rw [List.getElem?_take_of_lt hj, List.getElem?_take_of_lt hj, List.getElem?_drop,
      List.getElem?_drop, Nat.add_assoc]
    unfold fileNameMaxLen at hj
    exact getElem?_store_of_not (by omega) hb (by unfold entrySize; omega)
  · rw [List.getElem?_eq_none (by rw [List.length_take]; omega),
      List.getElem?_eq_none (by rw [List.length_take]; omega)]

end

theorem firstChars_ne_zero {k : Nat} {s : List Byte} : ∀ c ∈ firstChars k s, c ≠ 0 := by
  intro c hc
  have := List.all_takeWhile (p := fun c : Byte => decide (c ≠ 0)) (l := s.take k)
  simpa using List.all_eq_true.1 this c hc

theorem length_strncpy (s : List Byte) (k : Nat) : (strncpy s k).length = k := by
  have : (firstChars k s).length ≤ k := by
    refine (List.takeWhile_sublist _).length_le.trans ?_
    rw [List.length_take]
    exact Nat.min_le_left ..
  rw [strncpy, List.length_append, List.length_replicate]
  omega

theorem firstChars_strncpy (s : List Byte) (k : Nat) (rest : List Byte) :
    firstChars k (strncpy s k ++ rest) = firstChars k s := by
  conv_lhs => rw [firstChars, List.take_left' (length_strncpy s k), strncpy]
  rw [List.takeWhile_append_of_pos fun c hc => by simpa using firstChars_ne_zero c hc,
    List.takeWhile_replicate, if_neg (by simp), List.append_nil]

def withEntry (cfg : Build) (d : Directory) (i : Nat) (name : List Byte) (newSector : Int) : Directory :=
  ((d.store i 0 [1]).store i 8 (strncpy name fileNameMaxLen)).store i 4
    (hostWordBytes cfg (BitVec.ofInt 32 newSector))

section
variable {d : Directory} {i k : Nat} {name : List Byte} {newSector : Int}

theorem inUse_withEntry (hi : i < d.tableSize) :
    (d.withEntry cfg i name newSector).inUse k = (d.inUse k || decide (k = i)) := by
  unfold withEntry
  rw [inUse_store_of_not (.inr (by decide)) (by rw [length_hostWordBytes]; decide),
    inUse_store_of_not (.inr (by decide)) (by rw [length_strncpy]; decide), inUse_store_one hi]

theorem sector_withEntry_self (hi : i < d.tableSize) {v : Nat} (hv : v < numSectors) :
    (d.withEntry cfg i name v).sector cfg i = v := by
  have hv' : v < 1024 := hv
  unfold withEntry
  rw [sector_store (by exact hi), BitVec.toInt_ofInt]
  exact Int.bmod_eq_of_le (by omega) (by omega)

theorem sector_withEntry_of_ne (hk : k ≠ i) :
    (d.withEntry cfg i name newSector).sector cfg k = d.sector cfg k := by
  unfold withEntry
  rw [sector_store_of_not (.inl hk) (by rw [length_hostWordBytes]; decide),
    sector_store_of_not (.inl hk) (by rw [length_strncpy]; decide),
    sector_store_of_not (.inl hk) (by decide)]

theorem name_withEntry_of_ne (hk : k ≠ i) :
    (d.withEntry cfg i name newSector).name k = d.name k := by
  unfold withEntry
  rw [name_store_of_not (.inl hk) (by rw [length_hostWordBytes]; decide),
    name_store_of_not (.inl hk) (by rw [length_strncpy]; decide),
    name_store_of_not (.inl hk) (by decide)]

theorem name_withEntry_self (hi : i < d.tableSize) :
    firstChars fileNameMaxLen ((d.withEntry cfg i name newSector).name i) =
      firstChars fileNameMaxLen name := by
  unfold withEntry
  rw [name_store_of_not (.inr (by rw [length_hostWordBytes])) (by rw [length_hostWordBytes]; decide)]
  have hn : ((d.store i 0 [1]).store i 8 (strncpy name fileNameMaxLen)).name i =
      strncpy name fileNameMaxLen ++
        (((d.store i 0 [1]).store i 8 (strncpy name fileNameMaxLen)).name i).drop fileNameMaxLen := by
    conv_lhs => rw [← List.take_append_drop fileNameMaxLen (Directory.name _ i)]
    congr 1
    apply List.ext_getElem?
    intro j
    by_cases hj : j < fileNameMaxLen
    · rw [List.getElem?_take_of_lt hj, Directory.name, List.getElem?_take_of_lt (by omega),
        List.getElem?_drop, Nat.add_assoc, getElem?_store (by exact hi)
        (by rw [length_strncpy]; decide) (by omega) (by rw [length_strncpy]; omega),
        Nat.add_sub_cancel_left]
    · rw [List.getElem?_eq_none (by rw [List.length_take]; omega),
        List.getElem?_eq_none (by rw [length_strncpy]; omega)]
  rw [hn, firstChars_strncpy]

end

theorem findIndex_some {i : Nat} (h : d.findIndex name = some i) :
    i < d.tableSize ∧ d.inUse i = true := by
  have hp := List.find?_some h
  simp only [Bool.and_eq_true] at hp
  exact ⟨List.mem_range.1 (List.mem_of_find?_eq_some h), hp.1⟩

theorem findIndex_withEntry {newSector : Int} {i : Nat}
    (hi : i < d.tableSize) (h : d.findIndex name = none) :
    (d.withEntry cfg i name newSector).findIndex name = some i := by
  unfold findIndex at h ⊢
  rw [List.find?_range_eq_some]
  refine ⟨?_, List.mem_range.2 hi, fun j hj => ?_⟩
  · rw [inUse_withEntry hi, name_withEntry_self hi]
    simp
  · rw [List.find?_range_eq_none] at h
    have hne : j ≠ i := by omega
    rw [inUse_withEntry hi, name_withEntry_of_ne hne, decide_eq_false hne, Bool.or_false]
    exact h j (by omega)

theorem add_cases (cfg : Build) (newSector : Int) (h : d.findIndex name = none) :
    (∃ i, i < d.tableSize ∧ d.inUse i = false ∧
      d.add cfg name newSector = (true, d.withEntry cfg i name newSector)) ∨
    ((∀ i < d.tableSize, d.inUse i = true) ∧ d.add cfg name newSector = (false, d)) := by
  unfold add
  rw [h, if_neg (by simp)]
  cases hf : (List.range d.tableSize).find? (!d.inUse ·) with
  | some i =>
    refine .inl ⟨i, List.mem_range.1 (List.mem_of_find?_eq_some hf), ?_, rfl⟩
    simpa using List.find?_some hf
  | none =>
    refine .inr ⟨fun i hi => ?_, rfl⟩
    rw [List.find?_range_eq_none] at hf
    simpa using hf i hi

theorem inUse_new {size k : Nat} (memory : Nat → Byte) (hk : k < size) :
    (Directory.new size memory).inUse k = false := by
  have key : ∀ (l : List Nat) (d : Directory),
      (l.foldl (fun d i => d.store i 0 [0]) d).inUse k = (d.inUse k && decide (k ∉ l)) := by
    intro l
    induction l with
    | nil => simp
    | cons i l ih =>
      intro d
      rw [List.foldl_cons, ih, inUse_store_zero, Bool.and_assoc]
      congr 1
      simp
  unfold Directory.new
  rw [key]
  simp [hk]

theorem tableSize_new (size : Nat) (memory : Nat → Byte) : (Directory.new size memory).tableSize = size := by
  have key : ∀ (l : List Nat) (d : Directory),
      (l.foldl (fun d i => d.store i 0 [0]) d).tableSize = d.tableSize := by
    intro l
    induction l with
    | nil => exact fun d => rfl
    | cons i l ih => exact fun d => ih _
  exact key _ _

end Directory

def tableOf (bs : List Byte) : Directory :=
  ⟨numDirEntries, patch (List.replicate (numDirEntries * entrySize) 0) 0 bs, by
    rw [length_patch, List.length_replicate]⟩

theorem length_table (h : d.tableSize = numDirEntries) : d.table.length = directoryFileSize := by
  rw [d.size, h]
  exact Nat.mul_comm ..

theorem table_tableOf {bs : List Byte} (h : bs.length = directoryFileSize) : (tableOf bs).table = bs := by
  simp only [tableOf]
  exact patch_all (by rw [h, List.length_replicate]; exact Nat.mul_comm ..)

theorem tableSize_tableOf (bs : List Byte) : (tableOf bs).tableSize = numDirEntries := rfl

theorem tableOf_table (h : d.tableSize = numDirEntries) : tableOf d.table = d :=
  Directory.eq_of h.symm (table_tableOf (length_table h))

theorem fetchFrom_eq (h : Describes cfg hdr directoryFileSize xs) (memory : Nat → Byte) :
    (Directory.new numDirEntries memory).fetchFrom cfg disk hdr =
      .ok (tableOf (fileBytes disk directoryFileSize xs)) := by
  have hs := Directory.tableSize_new numDirEntries memory
  have hlen := h.length_fileBytes disk
  have hread : readAt cfg disk hdr ((Directory.new numDirEntries memory).tableSize * entrySize) 0 =
      .ok (fileBytes disk directoryFileSize xs) := by
    rw [hs]
    have := readAt_eq disk h (m := 200) (p := 0) (by decide) (by decide) (by decide)
    rw [List.drop_zero, List.take_of_length_le (by rw [hlen]; decide)] at this
    exact this
  unfold Directory.fetchFrom
  rw [hread, ok_bind, pure_eq_ok]
  refine congrArg Except.ok (Directory.eq_of ?_ ?_)
  · rw [Directory.tableSize_store, hs, tableSize_tableOf]
  rw [table_tableOf hlen, Directory.store]
  simp only [Nat.zero_mul, Nat.zero_add]
  exact patch_all (by rw [hlen, length_table hs])

theorem writeBackTable_eq (disk : Disk) (h : Describes cfg hdr directoryFileSize xs) (hx : xs.Nodup)
    
    (hd : d.tableSize = numDirEntries) (memory : Nat → Byte) :
    ∃ disk', d.writeBack cfg disk hdr memory = .ok disk' ∧ (∀ x, x ∉ xs → disk' x = disk x) ∧
      fileBytes disk' directoryFileSize xs = d.table := by
  obtain ⟨disk', hw, hf, hc⟩ := writeAll_eq disk h hx (by decide) (length_table hd) memory
  refine ⟨disk', ?_, hf, hc⟩
  unfold Directory.writeBack
  rw [hd]
  change (do return (← writeAt cfg disk hdr _ directoryFileSize 0 memory).2) = _
  rw [hw]
  rfl

/-! ## Headers -/

namespace FileHeader

theorem field_setField {o : Nat} {v : Int} (ho : o + 4 ≤ sectorSize) (hv : -2 ^ 31 ≤ v)
    (hv' : v < 2 ^ 31) : field cfg (setField cfg hdr o v) o = v := by
  unfold field setField
  rw [wordAt_patch (by rw [hdr.2]; exact ho), BitVec.toInt_ofInt]
  exact Int.bmod_eq_of_le (by omega) (by omega)

theorem field_setField_of_not {o o' : Nat} {v : Int} (h : o' + 4 ≤ o ∨ o + 4 ≤ o') :
    field cfg (setField cfg hdr o v) o' = field cfg hdr o' := by
  unfold field setField
  rw [wordAt_patch_of_not (by rw [length_hostWordBytes]; exact h)]

theorem sectorsFor_natCast (n : Nat) : sectorsFor n = divRoundUp n sectorSize := by
  unfold sectorsFor divRoundUp
  rw [← Int.ofNat_tdiv, ← Int.ofNat_tmod]
  split <;> split <;> omega

theorem setDataSectors_eq {i : Nat} {x : Int} (hi : i < numDirect) :
    setDataSectors cfg hdr i x = .ok (setField cfg hdr (8 + 4 * i) x) := by
  unfold setDataSectors place
  rw [if_pos (by omega), ok_bind, show (8 + 4 * (i : Int)).toNat = 8 + 4 * i by omega]
  rfl

structure Allocated (cfg : Build) (hdr : FileHeader) (freeMap : Bitmap) (xs : List Nat)
    (hdr' : FileHeader) (freeMap' : Bitmap) : Prop where
  nodup : xs.Nodup
  free : ∀ x ∈ xs, x < FileSystem.numSectors ∧ x ∉ freeMap.marked
  numBits : freeMap'.numBits = freeMap.numBits
  marked : freeMap'.marked = freeMap.marked ∪ xs.toFinset
  data : ∀ i x : Nat, xs[i]? = some x → field cfg hdr' (8 + 4 * i) = x
  rest : ∀ o < 8, o + 4 ≤ 8 → field cfg hdr' o = field cfg hdr o

theorem Allocated.nil (hdr : FileHeader) (freeMap : Bitmap) : Allocated cfg hdr freeMap [] hdr freeMap where
  nodup := List.nodup_nil
  free := by simp
  numBits := rfl
  marked := by simp
  data := by simp
  rest := fun _ _ _ => rfl

variable {freeMap : Bitmap}

theorem Allocated.round {freeMap' : Bitmap} {hdr' : FileHeader}
    (h : Allocated cfg hdr freeMap xs hdr' freeMap') (hb : freeMap.numBits = FileSystem.numSectors)
    (hle : xs.length < numDirect)
    (hc : freeMap.marked.card + xs.length < FileSystem.numSectors) :
    ∃ x st, allocateSector cfg (hdr', freeMap') xs.length = .ok st ∧
      Allocated cfg hdr freeMap (xs ++ [x]) st.1 st.2 := by
  have hb' : freeMap'.numBits = FileSystem.numSectors := h.numBits.trans hb
  have hdis : Disjoint freeMap.marked xs.toFinset := by
    rw [Finset.disjoint_left]
    intro a ha hx
    exact (h.free a (List.mem_toFinset.1 hx)).2 ha
  have hcard : freeMap'.marked.card < freeMap'.numBits := by
    rw [h.marked, Finset.card_union_of_disjoint hdis, List.toFinset_card_of_nodup h.nodup, hb']
    exact hc
  obtain ⟨j, hj, hbit, -, hfind⟩ | ⟨hall, -⟩ := freeMap'.findAndSet_cases
  · have hj' : j < 1024 := by rw [hb'] at hj; exact hj
    have hnm : j ∉ freeMap'.marked := by
      rw [Bitmap.mem_marked, hbit]
      simp
    rw [h.marked, Finset.mem_union, List.mem_toFinset, not_or] at hnm
    have hfield : field cfg (setField cfg hdr' (8 + 4 * xs.length) j) (8 + 4 * xs.length) = j :=
      field_setField (by have : xs.length < 30 := hle; unfold sectorSize; omega) (by omega) (by omega)
    refine ⟨j, (setField cfg hdr' (8 + 4 * xs.length) j, freeMap'.set j), ?_, ?_⟩
    · unfold allocateSector
      simp only [hfind, ok_bind]
      rw [setDataSectors_eq hle, ok_bind, dataSectors_eq hle, ok_bind, hfield, assert_of (by omega)]
      rfl
    · constructor
      · exact h.nodup.append (List.nodup_singleton _) (by simpa using hnm.2)
      · intro x hx
        rcases List.mem_append.1 hx with hx | hx
        · exact h.free x hx
        · rw [List.mem_singleton.1 hx]
          exact ⟨hj', hnm.1⟩
      · exact h.numBits
      · rw [Bitmap.marked_set hj, h.marked]
        ext a
        simp
      · intro i x hx
        by_cases hi : i < xs.length
        · rw [List.getElem?_append_left hi] at hx
          rw [field_setField_of_not (.inl (by omega)), h.data i x hx]
        · have hie : i = xs.length := by
            have := (List.getElem?_eq_some_iff.1 hx).1
            simp at this
            omega
          subst hie
          rw [List.getElem?_append_right (Nat.le_refl _), Nat.sub_self] at hx
          cases hx
          exact hfield
      · intro o ho ho'
        rw [field_setField_of_not (.inl (by omega)), h.rest o ho ho']
  · obtain ⟨i, hi, hclear⟩ := Bitmap.exists_clear hcard
    rw [hall i hi] at hclear
    cases hclear

theorem allocate_loop (cfg : Build) (hdr : FileHeader)
    (hb : freeMap.numBits = FileSystem.numSectors) :
    ∀ k, k ≤ numDirect → freeMap.marked.card + k ≤ FileSystem.numSectors →
      ∃ xs st, (List.range k).foldlM (allocateSector cfg) (hdr, freeMap) = .ok st ∧ xs.length = k ∧
        Allocated cfg hdr freeMap xs st.1 st.2
  | 0, _, _ => ⟨[], (hdr, freeMap), rfl, rfl, .nil hdr freeMap⟩
  | k + 1, hk, hc => by
    obtain ⟨xs, st, hrun, rfl, hst⟩ := allocate_loop cfg hdr hb k (by omega) (by omega)
    obtain ⟨x, st', hround, hst'⟩ := hst.round hb (by omega) (by omega)
    refine ⟨xs ++ [x], st', ?_, by simp, hst'⟩
    rw [List.range_succ, List.foldlM_append, hrun, ok_bind, List.foldlM_cons, hround]
    rfl

theorem allocate_eq (cfg : Build) (hdr : FileHeader) (size : Int)
    (hb : freeMap.numBits = FileSystem.numSectors) :
    allocate cfg hdr freeMap size =
      if (FileSystem.numSectors - freeMap.marked.card : Int) < sectorsFor size then
        .ok (false, setField cfg (setField cfg hdr 0 size) 4 (sectorsFor size), freeMap)
      else do
        return (true, ← (List.range (sectorsFor size).toNat).foldlM (allocateSector cfg)
          (setField cfg (setField cfg hdr 0 size) 4 (sectorsFor size), freeMap)) := by
  have hle : freeMap.marked.card ≤ FileSystem.numSectors := by
    have := freeMap.card_marked_add_clear
    omega
  unfold allocate
  rw [freeMap.numClear_eq, ok_bind, hb, Int.natCast_sub hle]
  rfl

theorem allocate_ok (cfg : Build) (hdr : FileHeader) (hb : freeMap.numBits = FileSystem.numSectors)
    (hn : n ≤ maxFileSize)
    (hc : freeMap.marked.card + divRoundUp n sectorSize ≤ FileSystem.numSectors) :
    ∃ xs hdr' freeMap', allocate cfg hdr freeMap n = .ok (true, hdr', freeMap') ∧
      Describes cfg hdr' n xs ∧ xs.Nodup ∧ (∀ x ∈ xs, x ∉ freeMap.marked) ∧
      freeMap'.numBits = FileSystem.numSectors ∧ freeMap'.marked = freeMap.marked ∪ xs.toFinset := by
  have hn' : n ≤ 3840 := hn
  have hs : divRoundUp n sectorSize ≤ 30 := by
    unfold divRoundUp sectorSize
    split <;> omega
  obtain ⟨xs, st, hrun, hlen, hst⟩ := allocate_loop cfg
    (setField cfg (setField cfg hdr 0 n) 4 (sectorsFor n)) hb (divRoundUp n sectorSize) hs hc
  refine ⟨xs, st.1, st.2, ?_, ?_, hst.nodup, fun x hx => (hst.free x hx).2, hst.numBits.trans hb,
    hst.marked⟩
  · rw [allocate_eq cfg hdr _ hb, sectorsFor_natCast, if_neg (by omega), Int.toNat_natCast, ← sectorsFor_natCast,
      hrun]
    rfl
  · refine ⟨?_, ?_, hlen, by rw [hlen]; exact hs, hst.data, fun x hx => (hst.free x hx).1⟩
    · unfold FileHeader.numBytes
      rw [hst.rest 0 (by decide) (by decide), field_setField_of_not (.inl (by decide)),
        field_setField (by decide) (by omega) (by omega)]
    · unfold FileHeader.numSectors
      rw [hst.rest 4 (by decide) (by decide), sectorsFor_natCast,
        field_setField (by decide) (by omega) (by omega), hlen]

theorem deallocate_eq (h : Describes cfg hdr n xs) (hx : xs.Nodup)
    (hm : ∀ x ∈ xs, x ∈ freeMap.marked) :
    ∃ freeMap', deallocate cfg hdr freeMap = .ok freeMap' ∧ freeMap'.numBits = freeMap.numBits ∧
      freeMap'.marked = freeMap.marked \ xs.toFinset := by
  -- the sectors that were cleared so far are the first `k`
  have key : ∀ k ≤ xs.length, ∃ freeMap', (List.range k).foldlM (fun freeMap (i : Nat) => do
      let sector ← dataSectors cfg hdr i
      assert ((← freeMap.test sector) = true)
      freeMap.clear sector) freeMap = .ok freeMap' ∧ freeMap'.numBits = freeMap.numBits ∧
      freeMap'.marked = freeMap.marked \ (xs.take k).toFinset := by
    intro k
    induction k with
    | zero => exact fun _ => ⟨freeMap, rfl, rfl, by simp⟩
    | succ k ih =>
      intro hk
      obtain ⟨freeMap', hrun, hn, hmk⟩ := ih (by omega)
      have hsome : xs[k]? = some xs[k] := List.getElem?_eq_getElem (by omega)
      have hin : xs[k] ∈ freeMap'.marked := by
        rw [hmk, Finset.mem_sdiff, List.mem_toFinset]
        refine ⟨hm _ (List.getElem_mem _), fun ht => ?_⟩
        obtain ⟨i, hi, he⟩ := List.mem_take_iff_getElem.1 ht
        have := (hx.getElem_inj_iff).1 he
        omega
      obtain ⟨hlt, hbit⟩ := Bitmap.mem_marked.1 hin
      refine ⟨freeMap'.unset xs[k], ?_, hn, ?_⟩
      · rw [List.range_succ, List.foldlM_append, hrun, ok_bind, List.foldlM_cons, h.data_eq hsome,
          ok_bind, Bitmap.test_eq hlt, ok_bind, assert_of hbit, ok_bind, Bitmap.clear_eq hlt]
        rfl
      · rw [Bitmap.marked_unset hlt, hmk, List.take_add_one, hsome]
        ext a
        simp only [Finset.mem_erase, Finset.mem_sdiff, List.mem_toFinset, Option.toList_some,
          List.mem_append, List.mem_singleton]
        tauto
  obtain ⟨freeMap', hrun, hn, hmk⟩ := key xs.length (Nat.le_refl _)
  refine ⟨freeMap', ?_, hn, by rwa [List.take_length] at hmk⟩
  unfold deallocate
  rw [h.numSectors, Int.toNat_natCast]
  exact hrun

end FileHeader

end Nachos.FileSystem
