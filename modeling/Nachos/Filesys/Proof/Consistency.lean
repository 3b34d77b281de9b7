import Nachos.Filesys.Proof.Operations

/-!
# The file system over whole runs

From a formatted disk on, the disk is consistent after every sequence of operations whose requests are
ranges of `int`s (`consistent_of_runs`). `WriteAt` does not look at the sign of its position: a request
that starts in front of the file takes the field in front of `dataSectors` for a sector number
(`writeAt_before`), and overwrites the header of the directory (`directory_overwritten`).

`Create` checks a size against the free sectors only, not against what a header can hold
(`create_storable_iff`). An operation that returns false has not written to the disk
(`failed_unchanged`).
-/

namespace Nachos.FileSystem

open Base Interrupt Function

variable {cfg : Build} {disk : Disk}

/-! ## Runs -/

/-- The calls: `Create` with a size that a header can hold, `Remove` of a file that is not open, and
`WriteAt` from a buffer that has the bytes. -/
def Legal (cfg : Build) (s : State) : Event → Prop
  | .create _ initialSize _ => 0 ≤ initialSize ∧ initialSize ≤ maxFileSize
  | .remove name _ => ∀ file ∈ s.openFiles, file.sector ≠ (storedTable cfg s.disk).find cfg name
  | .openNamed _ _ => True
  | .close _ => True
  | .writeAt _ data numBytes _ _ => numBytes ≤ data.length

def InRange : Event → Prop
  | .writeAt _ _ numBytes position _ => 0 ≤ position ∧ position + numBytes < 2 ^ 31
  | _ => True

/-! ### Steps that return -/

section
variable {s : State} (hr : s.stopped = none) {name : List Byte} {memory : Nat → Nat → Byte}
include hr

theorem step_create {initialSize : Int} {r : Bool × Disk}
    (h : s.create cfg name initialSize memory = .ok r) :
    s.step cfg (.create name initialSize memory) = some { s with disk := r.2 } := by
  unfold State.step
  rw [if_neg (by simp [hr])]
  change some (s.after (s.create cfg name initialSize memory) _) = _
  rw [h]
  rfl

theorem step_remove {r : Bool × Disk} (h : s.remove cfg name memory = .ok r) :
    s.step cfg (.remove name memory) = some { s with disk := r.2 } := by
  unfold State.step
  rw [if_neg (by simp [hr])]
  change some (s.after (s.remove cfg name memory) _) = _
  rw [h]
  rfl

theorem step_open {r : Option OpenFile} (h : s.openNamed cfg name memory = .ok r) :
    s.step cfg (.openNamed name memory) = some { s with openFiles := s.openFiles ++ r.toList } := by
  unfold State.step
  rw [if_neg (by simp [hr])]
  change some (s.after (s.openNamed cfg name memory) _) = _
  rw [h]
  rfl

theorem step_close (k : Nat) :
    s.step cfg (.close k) = some { s with openFiles := s.openFiles.eraseIdx k } := by
  unfold State.step
  rw [if_neg (by simp [hr])]

theorem step_writeAt {k : Nat} {file : OpenFile} {data : List Byte} {numBytes position : Int}
    {memory : Nat → Byte} {r : Int × Disk} (hk : s.openFiles[k]? = some file)
    (h : writeAt cfg s.disk file.hdr data numBytes position memory = .ok r) :
    s.step cfg (.writeAt k data numBytes position memory) = some { s with disk := r.2 } := by
  unfold State.step
  rw [if_neg (by simp [hr])]
  simp only
  rw [hk, Option.map_some, h]
  rfl

theorem step_writeAt_none {k : Nat} {data : List Byte} {numBytes position : Int} {memory : Nat → Byte}
    (hk : s.openFiles[k]? = none) : s.step cfg (.writeAt k data numBytes position memory) = none := by
  unfold State.step
  rw [if_neg (by simp [hr])]
  simp only
  rw [hk, Option.map_none]

end

structure Inv (cfg : Build) (s : State) (L : Layout) (map : Bitmap) (table : Directory) : Prop where
  mounted : Mounted cfg s L map table
  openFiles : ∀ file ∈ s.openFiles, ∃ i f, L.files i = some f ∧ file.sector = f.header ∧
    Describes cfg file.hdr f.length f.data
  running : s.stopped = none

namespace Inv

variable {s : State} {L : Layout} {map : Bitmap} {table : Directory} (h : Inv cfg s L map table)
include h

theorem storedTable_eq : storedTable cfg s.disk = table := h.mounted.holds.storedTable_eq

theorem withDisk {disk' : Disk} {L' : Layout} {map' : Bitmap} {table' : Directory}
    (hd : Holds cfg disk' L' map' table') (hm : L'.mapData = L.mapData) (ht : L'.tableData = L.tableData)
    (hfiles : ∀ file ∈ s.openFiles, ∀ i f, L.files i = some f → file.sector = f.header →
      L'.files i = some f) : Inv cfg { s with disk := disk' } L' map' table' := by
  refine ⟨⟨hd, hm ▸ h.mounted.freeMapFile, ht ▸ h.mounted.directoryFile⟩, fun file hfile => ?_, h.running⟩
  obtain ⟨i, f, hf, hs, hdesc⟩ := h.openFiles file hfile
  exact ⟨i, f, hfiles file hfile i f hf hs, hs, hdesc⟩

theorem create_inv (name : List Byte) {initialSize : Int} (memory : Nat → Nat → Byte)
    (h0 : 0 ≤ initialSize) (hmax : initialSize ≤ maxFileSize) :
    ∃ r L' map' table', s.create cfg name initialSize memory = .ok r ∧
      Inv cfg { s with disk := r.2 } L' map' table' := by
  obtain ⟨n, rfl⟩ := Int.eq_ofNat_of_zero_le h0
  by_cases hR : Refused map table name n
  · obtain ⟨disk', hc⟩ := (h.mounted.create_refused name n memory).2 hR
    have hd := create_unchanged hc
    subst hd
    exact ⟨_, L, map, table, hc, h⟩
  · obtain ⟨disk', i, f, map', hc, -, ⟨hfile, -⟩, -, -, hd⟩ := h.mounted.create_ok name (by omega) hR memory
    refine ⟨(true, disk'), L.set i (some f), map', _, hc, h.withDisk hd rfl rfl ?_⟩
    intro file _ k g hg _
    have : k ≠ i := fun he => by rw [he, hfile] at hg; cases hg
    simpa [Layout.set, this] using hg

theorem remove_inv {name : List Byte} (memory : Nat → Nat → Byte)
    (hopen : ∀ file ∈ s.openFiles, file.sector ≠ table.find cfg name) :
    ∃ r L' map' table', s.remove cfg name memory = .ok r ∧
      Inv cfg { s with disk := r.2 } L' map' table' := by
  cases hi : table.findIndex name with
  | none => exact ⟨_, L, map, table, h.mounted.remove_absent hi memory, h⟩
  | some i =>
    obtain ⟨disk', f, map', hf, hfind, hr, -, hd⟩ := h.mounted.remove_ok hi memory
    refine ⟨(true, disk'), L.set i none, map', _, hr, h.withDisk hd rfl rfl ?_⟩
    intro file hfile k g hg hs
    -- the file that was removed is not open
    have : k ≠ i := by
      rintro rfl
      cases hf.symm.trans hg
      exact hopen file hfile (hs.trans hfind.symm)
    simpa [Layout.set, this] using hg

theorem open_inv (name : List Byte) (memory : Nat → Nat → Byte) :
    ∃ r, s.openNamed cfg name memory = .ok r ∧
      Inv cfg { s with openFiles := s.openFiles ++ r.toList } L map table := by
  have hm : ∀ files, Mounted cfg { s with openFiles := files } L map table := fun _ =>
    ⟨h.mounted.holds, h.mounted.freeMapFile, h.mounted.directoryFile⟩
  cases hi : table.findIndex name with
  | none =>
    refine ⟨none, h.mounted.open_absent hi memory, hm _, ?_, h.running⟩
    rw [Option.toList_none, List.append_nil]
    exact h.openFiles
  | some i =>
    obtain ⟨f, hf, ho⟩ := h.mounted.open_ok hi memory
    refine ⟨_, ho, hm _, fun file hfile => ?_, h.running⟩
    rcases List.mem_append.1 hfile with hfile | hfile
    · exact h.openFiles file hfile
    · rw [Option.toList_some, List.mem_singleton] at hfile
      rw [hfile]
      exact ⟨i, f, hf, rfl, h.mounted.holds.file i f hf⟩

theorem write_inv {file : OpenFile} (hfile : file ∈ s.openFiles) {data : List Byte}
    {numBytes position : Int} (hp : 0 ≤ position) (hr : position + numBytes < 2 ^ 31)
    (hlen : numBytes ≤ data.length) (memory : Nat → Byte) :
    ∃ r, writeAt cfg s.disk file.hdr data numBytes position memory = .ok r ∧
      Inv cfg { s with disk := r.2 } L map table := by
  obtain ⟨i, f, hf, -, hdesc⟩ := h.openFiles file hfile
  obtain ⟨r, disk', hw, hframe⟩ := writeAt_frame s.disk hdesc (h.mounted.holds.file_nodup hf).2
    hp hr hlen memory
  exact ⟨(r, disk'), hw, h.withDisk (h.mounted.holds.write hf hframe) rfl rfl fun _ _ _ _ hg _ => hg⟩

theorem step_inv {event : Event} {s' : State} (hl : Legal cfg s event) (hr : InRange event)
    (hs : s.step cfg event = some s') : ∃ L' map' table', Inv cfg s' L' map' table' := by
  cases event with
  | create name initialSize memory =>
    obtain ⟨r, L', map', table', hc, hinv⟩ := h.create_inv name memory hl.1 hl.2
    rw [step_create h.running hc] at hs
    cases hs
    exact ⟨L', map', table', hinv⟩
  | remove name memory =>
    have hl' : ∀ file ∈ s.openFiles, file.sector ≠ table.find cfg name := by
      rw [← h.storedTable_eq]
      exact hl
    obtain ⟨r, L', map', table', hc, hinv⟩ := h.remove_inv memory hl'
    rw [step_remove h.running hc] at hs
    cases hs
    exact ⟨L', map', table', hinv⟩
  | openNamed name memory =>
    obtain ⟨r, hc, hinv⟩ := h.open_inv name memory
    rw [step_open h.running hc] at hs
    cases hs
    exact ⟨L, map, table, hinv⟩
  | close k =>
    rw [step_close h.running] at hs
    cases hs
    exact ⟨L, map, table, ⟨h.mounted.holds, h.mounted.freeMapFile, h.mounted.directoryFile⟩,
      fun file hfile => h.openFiles file (List.mem_of_mem_eraseIdx hfile), h.running⟩
  | writeAt k data numBytes position memory =>
    cases hk : s.openFiles[k]? with
    | none =>
      rw [step_writeAt_none h.running hk] at hs
      cases hs
    | some file =>
      obtain ⟨r, hw, hinv⟩ := h.write_inv (List.mem_of_getElem? hk) hr.1 hr.2 hl memory
      rw [step_writeAt h.running hk hw] at hs
      cases hs
      exact ⟨L, map, table, hinv⟩

end Inv

theorem format_inv (cfg : Build) (disk : Disk) (memory : Nat → Nat → Byte) :
    ∃ s L map table, format cfg disk memory = .ok s ∧ Inv cfg s L map table ∧
      (∀ i, L.files i = none) ∧ s.freeMapFile.hdr = s.disk freeMapSector ∧
      s.directoryFile.hdr = s.disk directorySector := by
  obtain ⟨s, L, map, table, hs, hm, hfiles, ho, hr, h0, h1⟩ := format_ok cfg disk memory
  refine ⟨s, L, map, table, hs, ⟨hm, ?_, hr⟩, hfiles, h0, h1⟩
  rw [ho]
  exact fun _ hf => by cases hf

theorem runs_inv {memory : Nat → Nat → Byte} {s0 s : State} (h0 : format cfg disk memory = .ok s0)
    (h : Runs (State.step cfg) (fun s e => Legal cfg s e ∧ InRange e) s0 s) :
    ∃ L map table, Inv cfg s L map table := by
  refine h.invariant (I := fun s => ∃ L map table, Inv cfg s L map table) ?_
    fun s e s' ⟨L, map, table, hs⟩ hc hstep => hs.step_inv hc.1 hc.2 hstep
  obtain ⟨s, L, map, table, hs, hinv, -⟩ := format_inv cfg disk memory
  cases h0.symm.trans hs
  exact ⟨L, map, table, hinv⟩

/-- **Consistency.** From a formatted disk on, after every sequence of operations whose requests are ranges
of `int`s, the disk is consistent, and no assertion has failed. -/
theorem consistent_of_runs (cfg : Build) (disk : Disk) (memory : Nat → Nat → Byte) (s0 s : State)
    (h0 : format cfg disk memory = .ok s0)
    (h : Runs (State.step cfg) (fun s e => Legal cfg s e ∧ InRange e) s0 s) :
    s.stopped = none ∧ Consistent cfg s.disk := by
  obtain ⟨L, map, table, hinv⟩ := runs_inv h0 h
  exact ⟨hinv.running, hinv.mounted.holds.consistent⟩

/-! ## A formatted disk -/

section
variable {s : State} {L : Layout} {map : Bitmap} {table : Directory} (h : Mounted cfg s L map table)
  (hfiles : ∀ i, L.files i = none)
include h hfiles

theorem findIndex_formatted (name : List Byte) : table.findIndex name = none := by
  cases hi : table.findIndex name with
  | none => rfl
  | some i =>
    obtain ⟨f, hf, -⟩ := h.file_of_findIndex hi
    rw [hfiles i] at hf
    cases hf

theorem card_formatted : map.marked.card ≤ 5 := by
  have hsub : map.marked ⊆ (L.held 0).toFinset := by
    intro x hx
    obtain ⟨i, hi⟩ := (h.holds.shares.mem_used x).1 hx
    cases i with
    | zero => exact List.mem_toFinset.2 hi
    | succ i => simp [Layout.held, hfiles i] at hi
  have hlen : (L.held 0).length = 5 := by
    have h1 : L.mapData.length = 1 := h.freeMapFile.length
    have h2 : L.tableData.length = 2 := h.directoryFile.length
    simp [Layout.held, h1, h2]
  calc map.marked.card ≤ (L.held 0).toFinset.card := Finset.card_le_card hsub
    _ ≤ (L.held 0).length := List.toFinset_card_le _
    _ = 5 := hlen

theorem not_refused_formatted (name : List Byte) {size : Int} (hs : FileHeader.sectorsFor size ≤ 1000) :
    ¬ Refused map table name size := by
  have hc := card_formatted h hfiles
  have hn : numSectors = 1024 := rfl
  rintro (hr | hr | hr | hr)
  · rw [findIndex_formatted h hfiles name] at hr
    cases hr
  · have := hr 0 (by decide)
    rw [h.holds.inUse 0 (by decide), hfiles 0] at this
    cases this
  · omega
  · omega

end

theorem exists_opened {n : Nat} (hn : n ≤ maxFileSize) (hsec : FileHeader.sectorsFor n ≤ 1000) :
    ∃ s0 s1 s2 L map table i f, format buildLinux (fun _ => newHeader 0) 0 = .ok s0 ∧
    s0.step buildLinux (.create [97] n 0) = some s1 ∧
    s1.step buildLinux (.openNamed [97] 0) = some s2 ∧ Inv buildLinux s2 L map table ∧
    L.files i = some f ∧ f.length = n ∧ table.findIndex [97] = some i ∧
    s2.openFiles = [⟨f.header, s2.disk f.header⟩] := by
  obtain ⟨s0, L, map, table, h0, hm, hfiles, ho, hr, -⟩ :=
    format_ok buildLinux (fun _ => newHeader 0) 0
  obtain ⟨disk', i, f, map', hc, hi, -, hnone, hlen, hd⟩ := hm.create_ok [97] hn
    (not_refused_formatted hm hfiles _ hsec) 0
  have hm1 : Mounted buildLinux { s0 with disk := disk' } (L.set i (some f)) map'
      (table.withEntry buildLinux i [97] f.header) := ⟨hd, hm.freeMapFile, hm.directoryFile⟩
  have hf : (L.set i (some f)).files i = some f := by simp [Layout.set]
  have hindex : (table.withEntry buildLinux i [97] f.header).findIndex [97] = some i :=
    Directory.findIndex_withEntry (by rw [hm.holds.tableSize]; exact hi) hnone
  have hinv : Inv buildLinux { s0 with disk := disk' } (L.set i (some f)) map'
      (table.withEntry buildLinux i [97] f.header) := by
    refine ⟨hm1, ?_, hr⟩
    rw [ho]
    exact fun _ hfile => absurd hfile List.not_mem_nil
  obtain ⟨g, hg, hopen⟩ := hm1.open_ok hindex 0
  cases hf.symm.trans hg
  obtain ⟨r, hopen', hinv2⟩ := hinv.open_inv [97] 0
  cases hopen.symm.trans hopen'
  refine ⟨s0, _, _, _, _, _, i, f, h0, step_create hr hc, step_open hinv.running hopen, hinv2, hf, hlen,
    hindex, ?_⟩
  rw [ho]
  rfl

/-- The file is written, closed and removed. -/
theorem consistent_after_remove : ∃ s0 s1 s2 s3 s4 s5 : State,
    format buildLinux (fun _ => newHeader 0) 0 = .ok s0 ∧
    s0.step buildLinux (.create [97] 200 0) = some s1 ∧
    s1.step buildLinux (.openNamed [97] 0) = some s2 ∧
    s2.step buildLinux (.writeAt 0 [1, 2] 2 100 0) = some s3 ∧
    s3.step buildLinux (.close 0) = some s4 ∧ s4.step buildLinux (.remove [97] 0) = some s5 ∧
    s4.remove buildLinux [97] 0 = .ok (true, s5.disk) ∧
    s5.stopped = none ∧ Consistent buildLinux s5.disk := by
  obtain ⟨s0, s1, s2, L, map, table, i, f, h0, h1, h2, hinv, hf, -, hindex, ho⟩ :=
    exists_opened (n := 200) (by decide) (by decide)
  have hfile : s2.openFiles[0]? = some ⟨f.header, s2.disk f.header⟩ := by rw [ho]; rfl
  obtain ⟨r, hw, hinv3⟩ := hinv.write_inv (List.mem_of_getElem? hfile) (show (0 : Int) ≤ 100 by decide)
    (show (100 : Int) + 2 < 2 ^ 31 by decide) (show (2 : Int) ≤ [(1 : Byte), 2].length by decide) 0
  have h3 := step_writeAt hinv.running hfile hw
  have h4 := @step_close buildLinux _ hinv3.running 0
  have hm4 : Mounted buildLinux { s2 with disk := r.2, openFiles := s2.openFiles.eraseIdx 0 } L map table :=
    ⟨hinv3.mounted.holds, hinv3.mounted.freeMapFile, hinv3.mounted.directoryFile⟩
  obtain ⟨disk', -, -, -, -, hremove, -⟩ := hm4.remove_ok hindex 0
  have h5 := step_remove (s := { s2 with disk := r.2, openFiles := s2.openFiles.eraseIdx 0 })
    hinv3.running hremove
  refine ⟨s0, s1, s2, _, _, _, h0, h1, h2, h3, h4, h5, hremove, ?_⟩
  refine consistent_of_runs buildLinux _ _ s0 _ h0 (.step (.step (.step (.step (.step .start ?_ h1) ?_ h2)
    ?_ h3) ?_ h4) ?_ h5)
  · exact ⟨⟨by decide, by decide⟩, trivial⟩
  · exact ⟨trivial, trivial⟩
  · exact ⟨show (2 : Int) ≤ [(1 : Byte), 2].length by decide, by decide, by decide⟩
  · exact ⟨trivial, trivial⟩
  · refine ⟨fun file hfile => ?_, trivial⟩
    rw [ho] at hfile
    cases hfile

/-! ## A position in front of the file -/

def zeroSector : Sector := ⟨List.replicate sectorSize 0, List.length_replicate⟩

/-- **128 bytes at position -128** of a file of one sector: the first of the two sectors that are written
is the one whose number is `numSectors`. -/
theorem writeAt_before (disk : Disk) {hdr : FileHeader} {x : Nat} (h : Describes cfg hdr sectorSize [x])
    (memory : Nat → Byte) :
    ∃ disk', writeAt cfg disk hdr zeroSector.1 sectorSize (-sectorSize) memory =
        .ok ((sectorSize : Int), disk') ∧ (x ≠ 1 → disk' 1 = zeroSector) ∧
      ∀ y, y ≠ 1 → y ≠ x → disk' y = disk y := by
  have hspan : span cfg hdr sectorSize (-sectorSize) = .ok (some ⟨sectorSize, -1, 0, 2 * sectorSize⟩) := by
    unfold span
    simp only [h.numBytes]
    rfl
  generalize hbuf : patch (patch ((List.range (2 * sectorSize)).map memory) sectorSize
    (block (fileBytes disk sectorSize [x]) 0)) 0 (zeroSector.1.take sectorSize) = buf
  have hlen : buf.length = 2 * sectorSize := by
    rw [← hbuf, length_patch, length_patch, List.length_map, List.length_range]
  have hfill : fillBuffer cfg disk hdr zeroSector.1 (-sectorSize) ⟨sectorSize, -1, 0, 2 * sectorSize⟩ memory =
      .ok buf := by
    have hfirst : readPart cfg disk hdr (¬ -(sectorSize : Int) = int (-1 * sectorSize))
        ((List.range (2 * sectorSize)).map memory) 0 (-1) = .ok ((List.range (2 * sectorSize)).map memory) :=
      if_neg (by decide)
    have hlast := readPart_eq disk ((List.range (2 * sectorSize)).map memory)
      (¬ int (-(sectorSize : Int) + sectorSize) = int ((0 + 1) * sectorSize) ∧
        ((-1 : Int) ≠ 0 ∨ -(sectorSize : Int) = int (-1 * sectorSize))) h (b := 0) (o := sectorSize)
      (by decide) (by rw [List.length_map, List.length_range]; decide)
    rw [if_pos (by decide)] at hlast
    unfold fillBuffer
    simp only
    rw [hfirst, ok_bind]
    change (do let buf ← readPart cfg disk hdr _ _ (sectorSize : Nat) (0 : Nat); _) = _
    rw [hlast, ok_bind]
    change copyTo zeroSector.1 _ (0 : Nat) (sectorSize : Nat) = _
    rw [copyTo_eq (by rw [zeroSector.2]) (by
      rw [length_patch, List.length_map, List.length_range]; decide), hbuf]
  have hs0 : Span.sectorAt cfg hdr ⟨sectorSize, -1, 0, 2 * sectorSize⟩ 0 = .ok ((1 : Nat) : Int) := by
    change FileHeader.dataSectors cfg hdr (-1) = _
    unfold FileHeader.dataSectors FileHeader.place
    rw [if_pos (by decide), ok_bind]
    exact congrArg Except.ok h.numSectors
  have hs1 : Span.sectorAt cfg hdr ⟨sectorSize, -1, 0, 2 * sectorSize⟩ 1 = .ok (x : Int) :=
    h.byteToSector_eq (p := 0) rfl
  have hzero : blockSector buf 0 = zeroSector := by
    refine Subtype.ext ?_
    rw [blockSector_val (by rw [hlen]; decide), block, ← hbuf, patch_eq (by
      rw [length_patch, List.length_map, List.length_range, List.length_take, zeroSector.2]; decide)]
    simp [zeroSector]
  refine ⟨update (update disk 1 (blockSector buf 0)) x (blockSector buf 1), ?_,
    fun hx => ?_, fun y hy hyx => ?_⟩
  · unfold writeAt
    rw [hspan, ok_bind]
    simp only
    rw [hfill, ok_bind, show Span.rounds ⟨sectorSize, -1, 0, 2 * sectorSize⟩ = 2 from rfl,
      show List.range 2 = [0, 1] from rfl, List.foldlM_cons, hs0, ok_bind,
      writeSlice_eq (by decide) (by rw [hlen]; decide), ok_bind, List.foldlM_cons, hs1, ok_bind,
      writeSlice_eq (h.lt x List.mem_cons_self) (by rw [hlen]), ok_bind, List.foldlM_nil]
    rfl
  · rw [update_of_ne hx.symm, update_self, hzero]
  · rw [update_of_ne hyx, update_of_ne hy]

theorem owned_of_zero (h : disk directorySector = zeroSector) : owned buildLinux disk =
      freeMapSector :: directorySector :: sectorsOf buildLinux (disk freeMapSector) := by
  have hnum : FileHeader.numBytes buildLinux zeroSector = 0 := by decide
  have hsec : sectorsOf buildLinux zeroSector = [] := by
    unfold sectorsOf
    rw [show FileHeader.numSectors buildLinux zeroSector = 0 by decide]
    rfl
  have htable : storedTable buildLinux disk = tableOf [] := by
    unfold storedTable fileAt
    rw [h, hsec, hnum]
    rfl
  have hfree : ∀ i < numDirEntries, (tableOf []).inUse i = false := by decide +kernel
  have hentries : (List.range numDirEntries).flatMap (entrySectors buildLinux disk) = [] := by
    rw [List.flatMap_eq_nil_iff]
    intro i hi
    unfold entrySectors
    rw [htable, hfree i (List.mem_range.1 hi)]
    rfl
  unfold owned
  rw [hentries, h, hsec]
  simp

/-- A disk with zeros in the place of the directory's header: the free map marks the directory's data
sectors, which belong to nothing. -/
theorem Holds.unowned_of_zero {disk' : Disk} {L : Layout} {map : Bitmap} {table : Directory}
    (h : Holds buildLinux disk L map table) (hzero : disk' directorySector = zeroSector)
    (hkept : ∀ y ∈ L.held 0, y ≠ directorySector → disk' y = disk y) :
    ∃ n, n ∈ (storedMap buildLinux disk').marked ∧ n ∉ owned buildLinux disk' := by
  obtain ⟨-, -, hdis, hmap, htable⟩ := h.system_nodup
  have hmap' : disk' freeMapSector = disk freeMapSector := hkept _ (by simp [Layout.held]) (by decide)
  have hstored : storedMap buildLinux disk' = map := by
    rw [← h.storedMap_eq]
    unfold storedMap fileAt
    rw [hmap', h.sectorsOf_map,
      fileBytes_congr fun z hz => hkept z (Layout.mem_held_map hz) (hmap z hz).2]
  obtain ⟨y, hy⟩ : ∃ y, y ∈ L.tableData := by
    have : L.tableData.length = 2 := h.tableHeader.length
    exact List.exists_mem_of_length_pos (by omega)
  refine ⟨y, ?_, ?_⟩
  · rw [hstored]
    exact h.marked_of_held (i := 0) (Layout.mem_held_table hy)
  · rw [owned_of_zero hzero, hmap', h.sectorsOf_map]
    intro hm
    rcases List.mem_cons.1 hm with he | hm
    · exact (htable y hy).1 he
    · rcases List.mem_cons.1 hm with he | hm
      · exact (htable y hy).2 he
      · exact hdis hm hy

/-- **The directory is overwritten**: create a file of one sector, open it, and write 128 bytes at position
-128. The free map then marks sectors that belong to nothing. -/
theorem directory_overwritten : ∃ s0 s, format buildLinux (fun _ => newHeader 0) 0 = .ok s0 ∧
    Runs (State.step buildLinux) (Legal buildLinux) s0 s ∧ s.stopped = none ∧
    ∃ n, n ∈ (storedMap buildLinux s.disk).marked ∧ n ∉ owned buildLinux s.disk := by
  obtain ⟨s0, s1, s2, L, map, table, i, f, h0, h1, h2, hinv, hf, hlen, -, ho⟩ :=
    exists_opened (n := sectorSize) (by decide) (by decide)
  have hd := hinv.mounted.holds
  have hdesc := hd.file i f hf
  rw [hlen] at hdesc
  obtain ⟨x, hx⟩ := List.length_eq_one_iff.1 (show f.data.length = 1 from hdesc.length)
  rw [hx] at hdesc
  obtain ⟨disk', hw, hzero, hframe⟩ := writeAt_before s2.disk hdesc 0
  -- the sector of the file is none of the file system's own
  have hxs : x ∈ f.sectors := by simp [File.sectors, hx]
  have hown : ∀ y ∈ L.held 0, y ≠ 1 → disk' y = s2.disk y := fun y hy hy1 =>
    hframe y hy1 fun he => hd.not_mem_file hf (he ▸ hy) hxs
  have hx1 : x ≠ 1 := fun he => hd.not_mem_file hf (x := 1) (by simp [Layout.held, directorySector])
    (he ▸ hxs)
  have hfile : s2.openFiles[0]? = some ⟨f.header, s2.disk f.header⟩ := by rw [ho]; rfl
  have h3 := step_writeAt hinv.running hfile hw
  refine ⟨s0, _, h0, .step (.step (.step .start ?_ h1) ?_ h2) ?_ h3, hinv.running,
    hd.unowned_of_zero (hzero hx1) hown⟩
  · exact ⟨by decide, by decide⟩
  · exact trivial
  · change (sectorSize : Int) ≤ (zeroSector.1.length : Nat)
    rw [zeroSector.2]

/-! ## What a created file is -/

/-- The name opens a file of this length. Each of its bytes is in a sector whose number is in the header,
which is marked and belongs to nothing else. -/
def Stored (cfg : Build) (s : State) (name : List Byte) (size : Int) (memory : Nat → Nat → Byte) : Prop :=
  0 ≤ size ∧ ∃ i file, (storedTable cfg s.disk).findIndex name = some i ∧
    s.openNamed cfg name memory = .ok (some file) ∧ FileHeader.numBytes cfg file.hdr = size ∧
    ∀ offset : Int, 0 ≤ offset → offset < size →
      (0 ≤ offset.tdiv sectorSize ∧ offset.tdiv sectorSize < numDirect) ∧
      ∃ x : Nat, FileHeader.byteToSector cfg file.hdr offset = .ok (x : Int) ∧
        x ∈ (storedMap cfg s.disk).marked ∧
        x ∉ freeMapSector :: directorySector ::
          (sectorsOf cfg (s.disk freeMapSector) ++ sectorsOf cfg (s.disk directorySector)) ∧
        ∀ k < numDirEntries, k ≠ i → x ∉ entrySectors cfg s.disk k

def Representable (size : Int) : Prop := 0 ≤ size ∧ size ≤ maxFileSize

/-- A file that `Create` reports is stored, and a size that a header cannot hold is refused. -/
def Storable (cfg : Build) (s : State) (name : List Byte) (initialSize : Int)
    (memory memory' : Nat → Nat → Byte) : Prop :=
  (∀ disk', s.create cfg name initialSize memory = .ok (true, disk') →
    Stored cfg { s with disk := disk' } name initialSize memory') ∧
  (¬ Representable initialSize → ∃ disk', s.create cfg name initialSize memory = .ok (false, disk'))

theorem Mounted.stored {s : State} {L : Layout} {map : Bitmap} {table : Directory}
    (h : Mounted cfg s L map table) {name : List Byte} {i : Nat} {f : File}
    (hi : table.findIndex name = some i) (hf : L.files i = some f) (memory : Nat → Nat → Byte) :
    Stored cfg s name f.length memory := by
  obtain ⟨g, hg, ho⟩ := h.open_ok hi memory
  cases hf.symm.trans hg
  have hdesc := h.holds.file i f hf
  refine ⟨by omega, i, _, by rw [h.holds.storedTable_eq, hi], ho, hdesc.numBytes, fun offset h0 hlt => ?_⟩
  obtain ⟨p, rfl⟩ := Int.eq_ofNat_of_zero_le h0
  obtain ⟨x, hx⟩ := hdesc.exists_sector (p := p) (by omega)
  have hxs : x ∈ L.held (i + 1) := by
    rw [Layout.held_succ hf]
    exact List.mem_cons_of_mem _ (List.mem_of_getElem? hx)
  refine ⟨?_, x, hdesc.byteToSector_eq hx, ?_, ?_, fun k hk hki => ?_⟩
  · have hlt := Nat.lt_of_lt_of_le (List.getElem?_eq_some_iff.1 hx).1 hdesc.le
    rw [← Int.ofNat_tdiv]
    exact ⟨Int.natCast_nonneg _, Int.ofNat_lt.2 hlt⟩
  · rw [h.holds.storedMap_eq]
    exact h.holds.marked_of_held hxs
  · rw [h.holds.sectorsOf_map, h.holds.sectorsOf_table]
    exact fun hm => h.holds.shares.disjoint 0 (i + 1) (by omega) hm hxs
  · rw [h.holds.entrySectors_eq hk]
    exact fun hm => h.holds.shares.disjoint (k + 1) (i + 1) (by omega) hm hxs

/-- **Created files**: on a consistent disk, every size is dealt with as it should be exactly when a header
can hold it, or the call is refused for another reason. -/
theorem create_storable_iff (cfg : Build) (s : State) (name : List Byte) (initialSize : Int)
    (memory memory' : Nat → Nat → Byte) (hc : Consistent cfg s.disk)
    (hm : s.freeMapFile.hdr = s.disk freeMapSector)
    (hd : s.directoryFile.hdr = s.disk directorySector) :
    Storable cfg s name initialSize memory memory' ↔
      Representable initialSize ∨
        Refused (storedMap cfg s.disk) (storedTable cfg s.disk) name initialSize := by
  obtain ⟨L, hL⟩ := hc.holds
  have hmount : Mounted cfg s L _ _ := ⟨hL, hm ▸ hL.mapHeader, hd ▸ hL.tableHeader⟩
  have hrefused := hmount.create_refused name initialSize memory
  constructor
  · intro hs
    by_cases hr : Representable initialSize
    · exact .inl hr
    · exact .inr (hrefused.1 (hs.2 hr))
  · intro h
    by_cases hR : Refused (storedMap cfg s.disk) (storedTable cfg s.disk) name initialSize
    · obtain ⟨disk1, h1⟩ := hrefused.2 hR
      refine ⟨fun disk' h' => ?_, fun _ => ⟨disk1, h1⟩⟩
      cases h1.symm.trans h'
    · have hr := h.resolve_right hR
      obtain ⟨n, rfl⟩ := Int.eq_ofNat_of_zero_le hr.1
      obtain ⟨disk1, i, f, map', h1, hi, -, hnone, hlen, hd1⟩ :=
        hmount.create_ok name (by have := hr.2; omega) hR memory
      refine ⟨fun disk' h' => ?_, fun hn => absurd hr hn⟩
      cases h1.symm.trans h'
      have hm1 : Mounted cfg { s with disk := disk1 } (L.set i (some f)) map' _ :=
        ⟨hd1, hmount.freeMapFile, hmount.directoryFile⟩
      rw [← hlen]
      exact hm1.stored (Directory.findIndex_withEntry (by rw [hL.tableSize]; exact hi) hnone)
        (by simp [Layout.set]) memory'

theorem create_storable_one : ∃ s, format buildLinux (fun _ => newHeader 0) 0 = .ok s ∧
    Storable buildLinux s [97] 1 0 0 := by
  obtain ⟨s, L, map, table, hs, hinv, -, h0, h1⟩ := format_inv buildLinux (fun _ => newHeader 0) 0
  exact ⟨s, hs, (create_storable_iff buildLinux s [97] 1 0 0 hinv.mounted.holds.consistent h0 h1).2
    (.inl ⟨by decide, by decide⟩)⟩

/-- **Sizes that a header cannot hold** are not refused on a formatted disk. -/
theorem create_not_storable : ∃ s, format buildLinux (fun _ => newHeader 0) 0 = .ok s ∧
    ¬ Storable buildLinux s [97] (-1) 0 0 ∧ ¬ Storable buildLinux s [97] (maxFileSize + 1) 0 0 := by
  obtain ⟨s, L, map, table, hs, hinv, hfiles, -⟩ := format_inv buildLinux (fun _ => newHeader 0) 0
  have hno : ∀ size : Int, FileHeader.sectorsFor size ≤ 1000 → ¬ Representable size →
      ¬ Storable buildLinux s [97] size 0 0 := fun size hle hr h =>
    not_refused_formatted hinv.mounted hfiles [97] hle
      ((hinv.mounted.create_refused [97] size 0).1 (h.2 hr))
  refine ⟨s, hs, hno _ (by decide) fun h => ?_, hno _ (by decide) fun h => ?_⟩
  · exact absurd h.1 (by decide)
  · exact absurd h.2 (by decide)

/-! ## Failed operations -/

/-- **Failed operations change nothing**: on every disk, after a `Create` or a `Remove` that returned false
every sector is what it was. -/
theorem failed_unchanged (cfg : Build) (s : State) (name : List Byte) (initialSize : Int)
    (memory : Nat → Nat → Byte) (disk' : Disk)
    (h : s.create cfg name initialSize memory = .ok (false, disk') ∨
      s.remove cfg name memory = .ok (false, disk')) : ∀ n, disk' n = s.disk n := by
  intro n
  rcases h with h | h
  · rw [create_unchanged h]
  · rw [remove_unchanged h]

theorem failed_unchanged_large : ∃ s disk', format buildLinux (fun _ => newHeader 0) 0 = .ok s ∧
    s.create buildLinux [97] 256000 0 = .ok (false, disk') ∧ ∀ n, disk' n = s.disk n := by
  obtain ⟨s, L, map, table, hs, hinv, hfiles, -⟩ := format_inv buildLinux (fun _ => newHeader 0) 0
  have hc := card_formatted hinv.mounted hfiles
  obtain ⟨disk', h⟩ := (hinv.mounted.create_refused [97] 256000 0).2 (.inr (.inr (.inr (by
    have h1 : FileHeader.sectorsFor 256000 = 2000 := by decide
    have h2 : numSectors = 1024 := rfl
    omega))))
  exact ⟨s, disk', hs, h, failed_unchanged buildLinux s [97] 256000 0 disk' (.inl h)⟩

end Nachos.FileSystem
