import Nachos.Filesys.Proof.Layout

/-!
# The operations on a layout

`Create` puts a file into a free entry of the layout, `Remove` empties an entry, and both leave a disk
that holds the new layout (`create_ok`, `remove_ok`). `Create` returns false exactly when the name is
there, the directory or the disk is full, or the data does not fit (`create_refused`).
-/

namespace Nachos.FileSystem

open Base Function

structure Mounted (cfg : Build) (s : State) (L : Layout) (map : Bitmap) (table : Directory) : Prop where
  holds : Holds cfg s.disk L map table
  freeMapFile : Describes cfg s.freeMapFile.hdr freeMapFileSize L.mapData
  directoryFile : Describes cfg s.directoryFile.hdr directoryFileSize L.tableData

def Refused (map : Bitmap) (table : Directory) (name : List Byte) (initialSize : Int) : Prop :=
  (table.findIndex name).isSome ∨ (∀ i < numDirEntries, table.inUse i = true) ∨
    map.marked.card = numSectors ∨
    (numSectors - (map.marked.card + 1) : Int) < FileHeader.sectorsFor initialSize

/-! ## Failed operations -/

section
variable {cfg : Build} {s : State} {name : List Byte} {memory : Nat → Nat → Byte} {disk' : Disk}

theorem create_unchanged {initialSize : Int}
    (h : s.create cfg name initialSize memory = .ok (false, disk')) : disk' = s.disk := by
  unfold State.create at h
  obtain ⟨directory, -, h⟩ := bind_ok h
  split at h
  · cases h
    rfl
  obtain ⟨freeMap, -, h⟩ := bind_ok h
  obtain ⟨⟨sector, freeMap⟩, -, h⟩ := bind_ok h
  simp only at h
  split at h
  · cases h
    rfl
  split at h
  · cases h
    rfl
  obtain ⟨⟨done, hdr, freeMap⟩, -, h⟩ := bind_ok h
  simp only at h
  split at h
  · cases h
    rfl
  -- past the last check, the result is true
  obtain ⟨_, -, h⟩ := bind_ok h
  obtain ⟨_, -, h⟩ := bind_ok h
  obtain ⟨_, -, h⟩ := bind_ok h
  cases h

theorem remove_unchanged (h : s.remove cfg name memory = .ok (false, disk')) : disk' = s.disk := by
  unfold State.remove at h
  obtain ⟨directory, -, h⟩ := bind_ok h
  simp only at h
  split at h
  · cases h
    rfl
  obtain ⟨_, -, h⟩ := bind_ok h
  obtain ⟨_, -, h⟩ := bind_ok h
  obtain ⟨_, -, h⟩ := bind_ok h
  obtain ⟨_, -, h⟩ := bind_ok h
  obtain ⟨_, -, h⟩ := bind_ok h
  obtain ⟨_, -, h⟩ := bind_ok h
  cases h

end

namespace Mounted

variable {cfg : Build} {s : State} {L : Layout} {map : Bitmap} {table : Directory}
    (h : Mounted cfg s L map table) {name : List Byte} {i : Nat}
include h

theorem directory_eq (memory : Nat → Byte) : s.directory cfg memory = .ok table := by
  unfold State.directory
  rw [fetchFrom_eq h.directoryFile, h.holds.tableBytes]

theorem freeMap_eq : s.freeMap cfg = .ok map := by
  unfold State.freeMap
  rw [ofFile_eq h.freeMapFile, h.holds.mapBytes]

theorem file_of_findIndex (hi : table.findIndex name = some i) :
    ∃ f, L.files i = some f ∧ table.find cfg name = f.header := by
  obtain ⟨hlt, hu⟩ := Directory.findIndex_some hi
  rw [h.holds.tableSize] at hlt
  rw [h.holds.inUse i hlt] at hu
  obtain ⟨f, hf⟩ := Option.isSome_iff_exists.1 hu
  refine ⟨f, hf, ?_⟩
  unfold Directory.find
  rw [hi]
  exact h.holds.sector i f hf

omit h in
theorem find_of_none (hn : table.findIndex name = none) : table.find cfg name = -1 := by
  unfold Directory.find
  rw [hn]

/-! ## Create -/

def flush (cfg : Build) (s : State) (sector : Nat) (directory : Directory)
    (memory : Nat → Nat → Byte) (hdr : FileHeader) (freeMap : Bitmap) : Except Fault (Bool × Disk) := do
  let disk ← writeSector s.disk sector hdr
  let disk ← directory.writeBack cfg disk s.directoryFile.hdr (memory 2)
  let disk ← PersistentBitmap.writeBack cfg disk s.freeMapFile.hdr freeMap (memory 3)
  return (true, disk)

theorem create_cases (name : List Byte) (initialSize : Int) (memory : Nat → Nat → Byte) :
    (((table.findIndex name).isSome ∨ (∀ i < numDirEntries, table.inUse i = true) ∨
        map.marked.card = numSectors) ∧
      s.create cfg name initialSize memory = .ok (false, s.disk)) ∨
    ∃ j i, j < numSectors ∧ j ∉ map.marked ∧ i < numDirEntries ∧ table.inUse i = false ∧
      table.findIndex name = none ∧
      s.create cfg name initialSize memory = (do
        let r ← FileHeader.allocate cfg (newHeader (memory 1)) (map.set j) initialSize
        if ¬ r.1 then return (false, s.disk)
        flush cfg s j (table.withEntry cfg i name j) memory r.2.1 r.2.2) := by
  have hsize := h.holds.tableSize
  have hbits := h.holds.mapBits
  unfold State.create
  rw [h.directory_eq, ok_bind]
  cases hi : table.findIndex name with
  | some i =>
    obtain ⟨f, -, hf⟩ := h.file_of_findIndex hi
    rw [if_pos (by omega)]
    exact .inl ⟨.inl rfl, rfl⟩
  | none =>
    rw [if_neg (by rw [find_of_none hi]; simp), h.freeMap_eq, ok_bind]
    obtain ⟨j, hj, hbit, -, hfind⟩ | ⟨hall, hfind⟩ := map.findAndSet_cases
    · rw [hfind, ok_bind]
      simp only
      rw [if_neg (by omega)]
      obtain ⟨i, hi', hu, hadd⟩ | ⟨hfull, hadd⟩ := Directory.add_cases cfg j hi
      · refine .inr ⟨j, i, by omega, ?_, by omega, hu, trivial, ?_⟩
        · rw [Bitmap.mem_marked, hbit]
          simp
        · rw [hadd]
          rfl
      · rw [hadd]
        exact .inl ⟨.inr (.inl fun i hi => hfull i (by omega)), rfl⟩
    · rw [hfind, ok_bind]
      simp only
      refine .inl ⟨.inr (.inr ?_), rfl⟩
      have : map.marked = Finset.range map.numBits := by
        ext i
        rw [Bitmap.mem_marked, Finset.mem_range]
        exact ⟨fun hm => hm.1, fun hm => ⟨hm, hall i hm⟩⟩
      rw [this, Finset.card_range, hbits]

omit h in
theorem card_set (map : Bitmap) {j : Nat} (hj : j < map.numBits) (hn : j ∉ map.marked) :
    (map.set j).marked.card = map.marked.card + 1 := by
  rw [Bitmap.marked_set hj, Finset.card_insert_of_notMem hn]

omit h in
theorem flush_true {sector : Nat} {directory : Directory} {memory : Nat → Nat → Byte} {hdr : FileHeader}
    {freeMap : Bitmap} {r : Bool × Disk}
    (hr : flush cfg s sector directory memory hdr freeMap = .ok r) : r.1 = true := by
  obtain ⟨_, -, hr⟩ := bind_ok hr
  obtain ⟨_, -, hr⟩ := bind_ok hr
  obtain ⟨_, -, hr⟩ := bind_ok hr
  cases hr
  rfl

theorem create_refused (name : List Byte) (initialSize : Int) (memory : Nat → Nat → Byte) :
    (∃ disk, s.create cfg name initialSize memory = .ok (false, disk)) ↔
      Refused map table name initialSize := by
  obtain ⟨hr, hc⟩ | ⟨j, i, hj, hfree, hi, hu, hnone, hc⟩ := h.create_cases name initialSize memory
  · refine ⟨fun _ => ?_, fun _ => ⟨s.disk, hc⟩⟩
    rcases hr with hr | hr | hr
    · exact .inl hr
    · exact .inr (.inl hr)
    · exact .inr (.inr (.inl hr))
  · have hbits := h.holds.mapBits
    have hcard := card_set map (by omega) hfree
    have halloc := FileHeader.allocate_eq cfg (newHeader (memory 1)) initialSize
      (show (map.set j).numBits = numSectors by rw [Bitmap.numBits_set, hbits])
    rw [hcard] at halloc
    rw [hc]
    by_cases hsize : (numSectors - ((map.marked.card + 1 : Nat) : Int)) <
        FileHeader.sectorsFor initialSize
    · refine ⟨fun _ => .inr (.inr (.inr hsize)), fun _ => ⟨s.disk, ?_⟩⟩
      rw [halloc, if_pos hsize]
      rfl
    · constructor
      · rintro ⟨disk, hd⟩
        obtain ⟨r, hr, hd⟩ := bind_ok hd
        have ht : r.1 = true := by
          rw [halloc, if_neg hsize] at hr
          obtain ⟨st, -, hr⟩ := bind_ok hr
          cases hr
          rfl
        rw [ht] at hd
        cases flush_true (r := (false, disk)) hd
      · rintro (hr | hr | hr | hr)
        · rw [hnone] at hr
          cases hr
        · rw [hr i hi] at hu
          cases hu
        · have := (map.set j).card_marked_add_clear
          rw [hcard, Bitmap.numBits_set, hbits] at this
          omega
        · exact absurd hr hsize

/-- **`Create`** of a size that a header can hold, when nothing is in the way: a free entry of the layout
has the new file. -/
theorem create_ok (name : List Byte) {n : Nat} (hn : n ≤ maxFileSize) (hR : ¬ Refused map table name n)
    (memory : Nat → Nat → Byte) :
    ∃ disk' i f map', s.create cfg name n memory = .ok (true, disk') ∧ i < numDirEntries ∧
      (L.files i = none ∧ ∀ k g, L.files k = some g → ∀ x ∈ g.sectors, disk' x = s.disk x) ∧
      table.findIndex name = none ∧ f.length = n ∧
      Holds cfg disk' (L.set i (some f)) map' (table.withEntry cfg i name f.header) := by
  obtain ⟨hr, hc⟩ | ⟨j, i, hj, hfree, hi, hu, hnone, hc⟩ := h.create_cases name n memory
  · refine absurd ?_ hR
    rcases hr with hr | hr | hr
    · exact .inl hr
    · exact .inr (.inl hr)
    · exact .inr (.inr (.inl hr))
  have hbits := h.holds.mapBits
  have hcard := card_set map (by omega) hfree
  have hroom : (map.set j).marked.card + divRoundUp n sectorSize ≤ numSectors := by
    have hsize : ¬ (numSectors - (map.marked.card + 1) : Int) < FileHeader.sectorsFor n :=
      fun hs => hR (.inr (.inr (.inr hs)))
    rw [FileHeader.sectorsFor_natCast] at hsize
    omega
  obtain ⟨xs, hdr, map', halloc, hdesc, hxs, hxfree, hbits', hmarked⟩ := FileHeader.allocate_ok cfg
    (newHeader (memory 1)) (show (map.set j).numBits = numSectors by rw [Bitmap.numBits_set, hbits]) hn hroom
  obtain ⟨hmnd, htnd, hdis, -, -⟩ := h.holds.system_nodup
  have hts : (table.withEntry cfg i name j).tableSize = numDirEntries := h.holds.tableSize
  obtain ⟨disk2, hw2, hf2, hb2⟩ := writeBackTable_eq (update s.disk j hdr)
    h.directoryFile htnd hts (memory 2)
  obtain ⟨disk3, hw3, hf3, hb3⟩ := writeBackMap_eq disk2 h.freeMapFile hmnd hbits' (memory 3)
  have hfile : L.files i = none := by
    have := h.holds.inUse i hi
    rw [hu] at this
    simpa using this.symm
  have hframe : ∀ x, x ∉ L.mapData → x ∉ L.tableData → ¬ x = j → disk3 x = s.disk x := fun x hm ht hx => by
    rw [hf3 x hm, hf2 x ht, update_of_ne hx]
  have hjm : j ∉ L.mapData := fun hx => hfree (h.holds.marked_of_held (Layout.mem_held_map hx))
  have hjt : j ∉ L.tableData := fun hx => hfree (h.holds.marked_of_held (Layout.mem_held_table hx))
  have hset := Bitmap.marked_set (b := map) (i := j) (by omega)
  have hP : ∀ x, x = j → x ∉ map.marked := fun x hx => hx ▸ hfree
  refine ⟨disk3, i, ⟨j, n, xs⟩, map', ?_, hi,
    ⟨hfile, fun _ _ hg _ hx => h.holds.frame hP hframe hg hx⟩, hnone, rfl, ?_⟩
  · rw [hc, halloc, ok_bind]
    simp only [not_true_eq_false, if_false]
    unfold flush writeSector
    rw [assert_of (by omega), ok_bind, Int.toNat_natCast, pure_eq_ok, ok_bind, hw2, ok_bind, hw3]
    rfl
  · refine h.holds.insert hi hfile (h.holds.kept hP hframe) ?_ ?_ ?_
      hj ?_ ?_ ?_
    · rw [hb3, mapOf_bytes hbits']
    · rw [fileBytes_congr fun x hx => hf3 x fun hm => hdis hm hx, hb2, tableOf_table hts]
    · rw [hf3 j hjm, hf2 j hjt, update_self]
      exact hdesc
    · refine List.nodup_cons.2 ⟨fun hx => hxfree j hx ?_, hxs⟩
      rw [hset]
      exact Finset.mem_insert_self ..
    · intro x hx
      rcases List.mem_cons.1 hx with rfl | hx
      · exact hfree
      · have := hxfree x hx
        rw [hset, Finset.mem_insert, not_or] at this
        exact this.2
    · rw [hmarked, hset]
      ext a
      simp [File.sectors]

/-! ## Remove and Open -/

theorem remove_absent (hn : table.findIndex name = none) (memory : Nat → Nat → Byte) :
    s.remove cfg name memory = .ok (false, s.disk) := by
  unfold State.remove
  rw [h.directory_eq, ok_bind, find_of_none hn]
  rfl

theorem remove_ok (hi : table.findIndex name = some i) (memory : Nat → Nat → Byte) :
    ∃ disk' f map', L.files i = some f ∧ table.find cfg name = f.header ∧
      s.remove cfg name memory = .ok (true, disk') ∧
      (∀ k g, L.files k = some g → ∀ x ∈ g.sectors, disk' x = s.disk x) ∧
      Holds cfg disk' (L.set i none) map' (table.store i 0 [0]) := by
  obtain ⟨f, hf, hfind⟩ := h.file_of_findIndex hi
  have hbits := h.holds.mapBits
  have hlt := h.holds.header_lt hf
  obtain ⟨hnot, hnd⟩ := h.holds.file_nodup hf
  have hmarked : ∀ x ∈ f.sectors, x ∈ map.marked := by
    rw [← Layout.held_succ hf]
    exact fun x hx => h.holds.marked_of_held hx
  obtain ⟨map1, hde, hbits1, hmarked1⟩ := FileHeader.deallocate_eq (h.holds.file i f hf) hnd
    fun x hx => hmarked x (List.mem_cons_of_mem _ hx)
  have hlt1 : f.header < map1.numBits := by omega
  have hbits2 : (map1.unset f.header).numBits = numSectors := by rw [Bitmap.numBits_unset]; omega
  obtain ⟨hmnd, htnd, hdis, -, -⟩ := h.holds.system_nodup
  have hts : (table.store i 0 [0]).tableSize = numDirEntries := h.holds.tableSize
  obtain ⟨disk2, hw2, hf2, hb2⟩ := writeBackMap_eq s.disk h.freeMapFile hmnd hbits2 (memory 1)
  obtain ⟨disk3, hw3, hf3, hb3⟩ := writeBackTable_eq disk2 h.directoryFile htnd hts (memory 2)
  have hframe : ∀ x, x ∉ L.mapData → x ∉ L.tableData → ¬ False → disk3 x = s.disk x := fun x hm ht _ => by
    rw [hf3 x ht, hf2 x hm]
  have hP : ∀ x, False → x ∉ map.marked := fun _ hx => hx.elim
  refine ⟨disk3, f, map1.unset f.header, hf, hfind, ?_,
    fun _ _ hg _ hx => h.holds.frame hP hframe hg hx, ?_⟩
  · unfold State.remove
    rw [h.directory_eq, ok_bind, hfind, if_neg (by omega), readSector_eq hlt, ok_bind, h.freeMap_eq,
      ok_bind, hde, ok_bind, Bitmap.clear_eq hlt1, ok_bind, hw2, ok_bind]
    have hremove : (table.remove name).2 = table.store i 0 [0] := by
      unfold Directory.remove
      rw [hi]
    rw [hremove, hw3]
    rfl
  · refine h.holds.erase hf (h.holds.kept hP hframe) ?_ ?_ ?_
    · rw [fileBytes_congr fun x hx => hf3 x fun ht => hdis hx ht, hb2, mapOf_bytes hbits2]
    · rw [hb3, tableOf_table hts]
    · rw [Bitmap.marked_unset hlt1, hmarked1]
      ext a
      simp only [File.sectors, Finset.mem_erase, Finset.mem_sdiff, List.mem_toFinset, List.mem_cons]
      tauto

theorem open_absent (hn : table.findIndex name = none) (memory : Nat → Nat → Byte) :
    s.openNamed cfg name memory = .ok none := by
  unfold State.openNamed
  rw [h.directory_eq, ok_bind, find_of_none hn]
  rfl

theorem open_ok (hi : table.findIndex name = some i) (memory : Nat → Nat → Byte) :
    ∃ f, L.files i = some f ∧
      s.openNamed cfg name memory = .ok (some ⟨f.header, s.disk f.header⟩) := by
  obtain ⟨f, hf, hfind⟩ := h.file_of_findIndex hi
  refine ⟨f, hf, ?_⟩
  unfold State.openNamed OpenFile.new
  rw [h.directory_eq, ok_bind, hfind, if_pos (by omega), readSector_eq (h.holds.header_lt hf)]
  rfl

end Mounted

/-! ## WriteAt -/

theorem writeAt_frame {cfg : Build} (disk : Disk) {hdr : FileHeader} {n : Nat} {xs : List Nat}
    (hd : Describes cfg hdr n xs) (hx : xs.Nodup) {data : List Byte} {numBytes position : Int}
    (hp : 0 ≤ position) (hr : position + numBytes < 2 ^ 31) (hlen : numBytes ≤ data.length)
    (memory : Nat → Byte) :
    ∃ r disk', writeAt cfg disk hdr data numBytes position memory = .ok (r, disk') ∧
      ∀ x, x ∉ xs → disk' x = disk x := by
  by_cases hc : numBytes ≤ 0 ∨ position ≥ n
  · refine ⟨0, disk, ?_, fun _ _ => rfl⟩
    have hs : span cfg hdr numBytes position = .ok none := by
      unfold span
      simp only [hd.numBytes]
      rw [if_pos hc]
    unfold writeAt
    rw [hs]
    rfl
  · obtain ⟨p, rfl⟩ := Int.eq_ofNat_of_zero_le hp
    obtain ⟨m, rfl⟩ := Int.eq_ofNat_of_zero_le (show 0 ≤ numBytes by omega)
    obtain ⟨disk', hw, hf, -⟩ := writeAt_eq disk hd hx data (m := m) (p := p)
      (by omega) (by omega) (by omega) (by omega) memory
    exact ⟨_, disk', hw, hf⟩

/-! ## Formatting -/

theorem writeSector_eq {disk : Disk} {x : Nat} {data : Sector} (hx : x < numSectors) :
    writeSector disk x data = .ok (update disk x data) := by
  unfold writeSector
  rw [assert_of (by omega), Int.toNat_natCast]
  rfl

theorem openFile_eq {disk : Disk} {x : Nat} (hx : x < numSectors) :
    OpenFile.new disk x = .ok ⟨x, disk x⟩ := by
  unfold OpenFile.new
  rw [readSector_eq hx]
  rfl

theorem format_ok (cfg : Build) (disk : Disk) (memory : Nat → Nat → Byte) :
    ∃ s L map table, format cfg disk memory = .ok s ∧ Mounted cfg s L map table ∧
      (∀ i, L.files i = none) ∧ s.openFiles = [] ∧ s.stopped = none ∧
      s.freeMapFile.hdr = s.disk freeMapSector ∧ s.directoryFile.hdr = s.disk directorySector := by
  obtain ⟨b0, hb0, hn0, hm0⟩ := Bitmap.new_eq (n := numSectors) (by decide)
  have h0 : freeMapSector < b0.numBits := by rw [hn0]; decide
  have h1 : directorySector < (b0.set freeMapSector).numBits := by rw [Bitmap.numBits_set, hn0]; decide
  generalize hb2 : (b0.set freeMapSector).set directorySector = b2
  have hn2 : b2.numBits = numSectors := by rw [← hb2, Bitmap.numBits_set, Bitmap.numBits_set, hn0]
  have hm2 : b2.marked = {directorySector, freeMapSector} := by
    rw [← hb2, Bitmap.marked_set h1, Bitmap.marked_set h0, hm0]
    rfl
  have hc2 : b2.marked.card = 2 := by rw [hm2]; decide
  obtain ⟨xs, mapHdr, b3, ha3, hd3, hx, hxfree, hn3, hm3⟩ := FileHeader.allocate_ok cfg
    (newHeader (memory 1)) (n := freeMapFileSize) hn2 (by decide) (by rw [hc2]; decide)
  have hc3 : b3.marked.card ≤ 3 := by
    rw [hm3]
    refine (Finset.card_union_le _ _).trans ?_
    have := List.toFinset_card_le xs
    have hl : xs.length = 1 := hd3.length
    omega
  obtain ⟨ys, dirHdr, b4, ha4, hd4, hy, hyfree, hn4, hm4⟩ := FileHeader.allocate_ok cfg
    (newHeader (memory 2)) (n := directoryFileSize) hn3 (by decide)
    (by have : divRoundUp directoryFileSize sectorSize = 2 := by decide
        have : numSectors = 1024 := rfl
        omega)
  have hxm : ∀ x ∈ xs, x ≠ freeMapSector ∧ x ≠ directorySector := fun x hx => by
    have := hxfree x hx
    rw [hm2, Finset.mem_insert, Finset.mem_singleton, not_or] at this
    exact this.symm
  have hym : ∀ y ∈ ys, y ∉ xs ∧ y ≠ freeMapSector ∧ y ≠ directorySector := fun y hy => by
    have := hyfree y hy
    rw [hm3, hm2, Finset.mem_union, Finset.mem_insert, Finset.mem_singleton, not_or, not_or,
      List.mem_toFinset] at this
    exact ⟨this.2, this.1.symm⟩
  generalize hdisk2 : update (update disk freeMapSector mapHdr) directorySector dirHdr =
    disk2
  have he0 : disk2 freeMapSector = mapHdr := by
    rw [← hdisk2, update_of_ne (by decide), update_self]
  have he1 : disk2 directorySector = dirHdr := by rw [← hdisk2, update_self]
  obtain ⟨disk3, hw3, hf3, hbytes3⟩ := writeBackMap_eq disk2 hd3 hx hn4 (memory 3)
  have hts := Directory.tableSize_new numDirEntries (memory 0)
  obtain ⟨disk4, hw4, hf4, hbytes4⟩ := writeBackTable_eq disk3 hd4 hy hts (memory 4)
  have hkept : ∀ x, x = freeMapSector ∨ x = directorySector → disk4 x = disk2 x := fun x he => by
    rw [hf4 x fun hm => ?_, hf3 x fun hm => ?_]
    · rcases he with rfl | rfl
      · exact (hxm _ hm).1 rfl
      · exact (hxm _ hm).2 rfl
    · rcases he with rfl | rfl
      · exact (hym _ hm).2.1 rfl
      · exact (hym _ hm).2.2 rfl
  refine ⟨⟨disk4, ⟨freeMapSector, mapHdr⟩, ⟨directorySector, dirHdr⟩, [], none⟩,
    ⟨xs, ys, fun _ => none⟩, b4, Directory.new numDirEntries (memory 0), ?_, ⟨?_, hd3, hd4⟩,
    fun _ => rfl, rfl, rfl, ?_, ?_⟩
  · unfold format
    rw [hb0, ok_bind, Bitmap.mark_eq h0, ok_bind, Bitmap.mark_eq h1, ok_bind, hb2, ha3, ok_bind]
    dsimp only
    rw [assert_of rfl, ok_bind, ha4, ok_bind]
    dsimp only
    rw [assert_of rfl, ok_bind, writeSector_eq (by decide), ok_bind, writeSector_eq (by decide), ok_bind,
      hdisk2, openFile_eq (by decide), ok_bind, openFile_eq (by decide), ok_bind, he0, he1, hw3, ok_bind,
      hw4]
    rfl
  · refine ⟨?_, ?_, ?_, ?_, fun i hi => Directory.inUse_new _ hi, fun _ _ => rfl, nofun, nofun, ?_⟩
    · change Describes cfg (disk4 freeMapSector) _ xs
      rw [hkept _ (.inl rfl), he0]
      exact hd3
    · change Describes cfg (disk4 directorySector) _ ys
      rw [hkept _ (.inr rfl), he1]
      exact hd4
    · change mapOf cfg (fileBytes disk4 _ xs) = _
      rw [fileBytes_congr fun x hx => hf4 x fun hm => (hym x hm).1 hx, hbytes3, mapOf_bytes hn4]
    · change tableOf (fileBytes disk4 _ ys) = _
      rw [hbytes4, tableOf_table hts]
    · have hnd : (freeMapSector :: directorySector :: (xs ++ ys)).Nodup := by
        refine List.nodup_cons.2 ⟨fun hm => ?_, List.nodup_cons.2 ⟨fun hm => ?_, ?_⟩⟩
        · rcases List.mem_cons.1 hm with he | hm
          · cases he
          · rcases List.mem_append.1 hm with hm | hm
            · exact (hxm _ hm).1 rfl
            · exact (hym _ hm).2.1 rfl
        · rcases List.mem_append.1 hm with hm | hm
          · exact (hxm _ hm).2 rfl
          · exact (hym _ hm).2.2 rfl
        · exact List.nodup_append'.2 ⟨hx, hy, fun a ha hb => (hym a hb).1 ha⟩
      have hs := (Shares.empty (ι := Nat)).take (i := 0) rfl hnd (by simp)
      have hheld : (Layout.mk xs ys fun _ => none).held =
          update (fun _ => []) 0 (freeMapSector :: directorySector :: (xs ++ ys)) := by
        funext i
        cases i with
        | zero => rfl
        | succ i => rfl
      have hmarked : b4.marked = ∅ ∪ (freeMapSector :: directorySector :: (xs ++ ys)).toFinset := by
        rw [hm4, hm3, hm2]
        ext a
        simp only [Finset.mem_union, List.mem_toFinset, List.mem_cons, List.mem_append,
          Finset.mem_insert, Finset.mem_singleton, Finset.notMem_empty, false_or,
          or_assoc, or_left_comm]
      rw [hheld, hmarked]
      exact hs
  · exact ((hkept _ (.inl rfl)).trans he0).symm
  · exact ((hkept _ (.inr rfl)).trans he1).symm

end Nachos.FileSystem
