import Nachos.Base.Pool
import Nachos.Filesys.Proof.Parts

/-!
# The layout of the disk

`Consistent cfg disk` reads the free map, the directory and the headers off the disk and says that they
fit together. The same is said by an abstract `Layout`, which names the sectors of every file: `Holds`
relates it to a disk, a free map and a directory, with the sectors shared out among the files
(`Base.Shares`). A disk is consistent exactly when it holds some layout (`Holds.consistent`,
`Consistent.holds`). The layout is what `Create`, `Remove` and `WriteAt` are about.
-/

namespace Nachos.FileSystem

open Base Function

variable {cfg : Build} {disk disk' : Disk} {hdr : FileHeader} {n : Nat} {xs : List Nat}

/-! ## Consistent disks -/

def sectorsOf (cfg : Build) (hdr : FileHeader) : List Nat :=
  (List.range (FileHeader.numSectors cfg hdr).toNat).map fun i =>
    (FileHeader.field cfg hdr (8 + 4 * i)).toNat

/-- What the file with its header in sector `n` holds. -/
def fileAt (cfg : Build) (disk : Disk) (n : Nat) : List Byte :=
  fileBytes disk (FileHeader.numBytes cfg (disk n)).toNat (sectorsOf cfg (disk n))

def storedMap (cfg : Build) (disk : Disk) : Bitmap := mapOf cfg (fileAt cfg disk freeMapSector)

def storedTable (cfg : Build) (disk : Disk) : Directory := tableOf (fileAt cfg disk directorySector)

/-- The sectors of the file in an entry of the directory: its header and its data. -/
def entrySectors (cfg : Build) (disk : Disk) (i : Nat) : List Nat :=
  if (storedTable cfg disk).inUse i then
    let n := ((storedTable cfg disk).sector cfg i).toNat
    n :: sectorsOf cfg (disk n)
  else []

def owned (cfg : Build) (disk : Disk) : List Nat :=
  freeMapSector :: directorySector ::
    (sectorsOf cfg (disk freeMapSector) ++ sectorsOf cfg (disk directorySector)) ++
      (List.range numDirEntries).flatMap (entrySectors cfg disk)

/-- A header with as many data sectors as its length needs, all of them on the disk. -/
structure WellFormed (cfg : Build) (hdr : FileHeader) : Prop where
  numBytes : 0 ≤ FileHeader.numBytes cfg hdr
  numSectors : FileHeader.numSectors cfg hdr =
    divRoundUp (FileHeader.numBytes cfg hdr).toNat sectorSize
  le : FileHeader.numSectors cfg hdr ≤ numDirect
  data : ∀ i : Nat, i < FileHeader.numSectors cfg hdr →
    0 ≤ FileHeader.field cfg hdr (8 + 4 * i) ∧
      FileHeader.field cfg hdr (8 + 4 * i) < FileSystem.numSectors

/-- The free map marks exactly the sectors that belong to something, these are pairwise distinct, and the
headers are well formed. -/
structure Consistent (cfg : Build) (disk : Disk) : Prop where
  mapSize : FileHeader.numBytes cfg (disk freeMapSector) = freeMapFileSize
  tableSize : FileHeader.numBytes cfg (disk directorySector) = directoryFileSize
  mapHeader : WellFormed cfg (disk freeMapSector)
  tableHeader : WellFormed cfg (disk directorySector)
  file : ∀ i < numDirEntries, (storedTable cfg disk).inUse i = true →
    0 ≤ (storedTable cfg disk).sector cfg i ∧ (storedTable cfg disk).sector cfg i < numSectors ∧
      WellFormed cfg (disk ((storedTable cfg disk).sector cfg i).toNat)
  marks : ∀ n, n ∈ (storedMap cfg disk).marked ↔ n ∈ owned cfg disk
  nodup : (owned cfg disk).Nodup

theorem Describes.sectorsOf_eq (h : Describes cfg hdr n xs) : sectorsOf cfg hdr = xs := by
  unfold sectorsOf
  rw [h.numSectors, Int.toNat_natCast]
  apply List.ext_getElem?
  intro i
  rw [List.getElem?_map]
  by_cases hi : i < xs.length
  · have hx : xs[i]? = some xs[i] := List.getElem?_eq_getElem hi
    rw [List.getElem?_range hi, Option.map_some, h.data i _ hx, hx]
    rfl
  · rw [List.getElem?_eq_none (by rw [List.length_range]; omega), List.getElem?_eq_none (by omega)]
    rfl

theorem Describes.wellFormed (h : Describes cfg hdr n xs) : WellFormed cfg hdr where
  numBytes := by
    rw [h.numBytes]
    omega
  numSectors := by rw [h.numSectors, h.numBytes, h.length, Int.toNat_natCast]
  le := by
    rw [h.numSectors]
    exact_mod_cast h.le
  data i hi := by
    rw [h.numSectors] at hi
    have hx : xs[i]? = some xs[i] := List.getElem?_eq_getElem (by omega)
    have := h.lt _ (List.mem_of_getElem? hx)
    rw [h.data i _ hx]
    omega

theorem WellFormed.describes (h : WellFormed cfg hdr) :
    Describes cfg hdr (FileHeader.numBytes cfg hdr).toNat (sectorsOf cfg hdr) := by
  have hn := h.numBytes
  have hs := h.numSectors
  have hle := h.le
  have hlen : (sectorsOf cfg hdr).length = (FileHeader.numSectors cfg hdr).toNat := by
    rw [sectorsOf, List.length_map, List.length_range]
  -- entry `i` of the list is the word in the header
  have hget : ∀ i x : Nat, (sectorsOf cfg hdr)[i]? = some x →
      i < FileHeader.numSectors cfg hdr ∧ (x : Int) = FileHeader.field cfg hdr (8 + 4 * i) := by
    intro i x hx
    have hi := (List.getElem?_eq_some_iff.1 hx).1
    have hi' : i < (FileHeader.numSectors cfg hdr).toNat := by rw [← hlen]; exact hi
    unfold sectorsOf at hx
    rw [List.getElem?_map, List.getElem?_range hi', Option.map_some, Option.some.injEq] at hx
    have hlt : i < FileHeader.numSectors cfg hdr := by omega
    have := h.data i hlt
    exact ⟨hlt, by omega⟩
  refine ⟨by omega, by omega, by rw [hlen, hs, Int.toNat_natCast], by omega, ?_, ?_⟩
  · exact fun i x hx => (hget i x hx).2.symm
  · intro x hx
    obtain ⟨i, hi⟩ := List.mem_iff_getElem?.1 hx
    obtain ⟨hlt, he⟩ := hget i x hi
    have := h.data i hlt
    omega

/-! ## Layouts -/

structure File where
  header : Nat
  length : Nat
  data : List Nat

def File.sectors (f : File) : List Nat := f.header :: f.data

structure Layout where
  mapData : List Nat
  tableData : List Nat
  files : Nat → Option File

namespace Layout

def held (L : Layout) : Nat → List Nat
  | 0 => freeMapSector :: directorySector :: (L.mapData ++ L.tableData)
  | i + 1 => (L.files i).elim [] File.sectors

def set (L : Layout) (i : Nat) (file : Option File) : Layout :=
  { L with files := update L.files i file }

theorem held_set (L : Layout) (i : Nat) (file : Option File) :
    (L.set i file).held = update L.held (i + 1) (file.elim [] File.sectors) := by
  funext k
  cases k with
  | zero => rfl
  | succ k =>
    by_cases hk : k = i
    · subst hk
      rw [update_self]
      simp [held, set]
    · rw [update_of_ne (by omega)]
      simp [held, set, hk]

variable {L : Layout}

theorem held_succ {i : Nat} {f : File} (hf : L.files i = some f) : L.held (i + 1) = f.sectors := by
  simp [held, hf]

theorem mem_held_map {x : Nat} (hx : x ∈ L.mapData) : x ∈ L.held 0 := by
  simp [held, hx]

theorem mem_held_table {x : Nat} (hx : x ∈ L.tableData) : x ∈ L.held 0 := by
  simp [held, hx]

theorem held_outside {k : Nat} (h : ∀ i, k ≤ i → L.files i = none) : ∀ i, k + 1 ≤ i → L.held i = [] := by
  intro i hi
  obtain ⟨j, rfl⟩ : ∃ j, i = j + 1 := ⟨i - 1, by omega⟩
  simp [held, h j (by omega)]

theorem owned_eq (hm : sectorsOf cfg (disk freeMapSector) = L.mapData)
    (ht : sectorsOf cfg (disk directorySector) = L.tableData)
    (he : ∀ i < numDirEntries, entrySectors cfg disk i = L.held (i + 1)) :
    owned cfg disk = (List.range (numDirEntries + 1)).flatMap L.held := by
  have hentries : (List.range numDirEntries).flatMap (entrySectors cfg disk) =
      (List.range numDirEntries).flatMap fun i => L.held (i + 1) :=
    List.flatMap_congr fun i hi => he i (List.mem_range.1 hi)
  unfold owned
  rw [List.range_succ_eq_map, List.flatMap_cons, List.flatMap_map, hm, ht, hentries]
  rfl

end Layout

structure Holds (cfg : Build) (disk : Disk) (L : Layout) (map : Bitmap) (table : Directory) : Prop where
  mapHeader : Describes cfg (disk freeMapSector) freeMapFileSize L.mapData
  tableHeader : Describes cfg (disk directorySector) directoryFileSize L.tableData
  mapBytes : mapOf cfg (fileBytes disk freeMapFileSize L.mapData) = map
  tableBytes : tableOf (fileBytes disk directoryFileSize L.tableData) = table
  inUse : ∀ i < numDirEntries, table.inUse i = (L.files i).isSome
  outside : ∀ i, numDirEntries ≤ i → L.files i = none
  sector : ∀ i f, L.files i = some f → table.sector cfg i = f.header
  file : ∀ i f, L.files i = some f → Describes cfg (disk f.header) f.length f.data
  shares : Shares map.marked L.held

namespace Holds

variable {L : Layout} {map : Bitmap} {table : Directory}

section
variable (h : Holds cfg disk L map table) {i x : Nat} {f : File}
include h

theorem mapBits : map.numBits = numSectors := h.mapBytes ▸ rfl

theorem tableSize : table.tableSize = numDirEntries := h.tableBytes ▸ rfl

theorem index_lt (hf : L.files i = some f) : i < numDirEntries := by
  by_contra hi
  rw [h.outside i (by omega)] at hf
  cases hf

theorem marked_of_held (hx : x ∈ L.held i) : x ∈ map.marked := (h.shares.mem_used x).2 ⟨i, hx⟩

theorem lt_of_held (hx : x ∈ L.held i) : x < numSectors := by
  rw [← h.mapBits]
  exact Bitmap.marked_lt (h.marked_of_held hx)

theorem file_nodup (hf : L.files i = some f) : f.header ∉ f.data ∧ f.data.Nodup := by
  have := h.shares.nodup (i + 1)
  rw [Layout.held_succ hf, File.sectors, List.nodup_cons] at this
  exact this

theorem header_lt (hf : L.files i = some f) : f.header < numSectors :=
  h.lt_of_held (i := i + 1) (by rw [Layout.held_succ hf]; exact List.mem_cons_self)

theorem not_mem_file (hf : L.files i = some f) (hx : x ∈ L.held 0) : x ∉ f.sectors := by
  rw [← Layout.held_succ hf]
  exact fun hm => h.shares.disjoint 0 (i + 1) (by omega) hx hm

theorem files_disjoint {k : Nat} {g : File} (hf : L.files i = some f) (hg : L.files k = some g)
    (hik : i ≠ k) : f.sectors.Disjoint g.sectors := by
  rw [← Layout.held_succ hf, ← Layout.held_succ hg]
  exact h.shares.disjoint (i + 1) (k + 1) (by omega)

theorem system_nodup : L.mapData.Nodup ∧ L.tableData.Nodup ∧ L.mapData.Disjoint L.tableData ∧
    (∀ x ∈ L.mapData, x ≠ freeMapSector ∧ x ≠ directorySector) ∧
    ∀ x ∈ L.tableData, x ≠ freeMapSector ∧ x ≠ directorySector := by
  have := h.shares.nodup 0
  simp only [Layout.held, List.nodup_cons, List.mem_cons, List.mem_append, not_or] at this
  obtain ⟨⟨-, hm0, ht0⟩, ⟨hm1, ht1⟩, hnd⟩ := this
  obtain ⟨hm, ht, hd⟩ := List.nodup_append'.1 hnd
  refine ⟨hm, ht, hd, fun x hx => ⟨?_, ?_⟩, fun x hx => ⟨?_, ?_⟩⟩ <;> rintro rfl
  · exact hm0 hx
  · exact hm1 hx
  · exact ht0 hx
  · exact ht1 hx

theorem write (hf : L.files i = some f) (hd : ∀ x, x ∉ f.data → disk' x = disk x) :
    Holds cfg disk' L map table := by
  have hsys : ∀ x ∈ L.held 0, disk' x = disk x := fun x hx =>
    hd x fun hm => h.not_mem_file hf hx (List.mem_cons_of_mem _ hm)
  refine ⟨?_, ?_, ?_, ?_, h.inUse, h.outside, h.sector, fun k g hg => ?_, h.shares⟩
  · rw [hsys _ (by simp [Layout.held])]
    exact h.mapHeader
  · rw [hsys _ (by simp [Layout.held])]
    exact h.tableHeader
  · rw [fileBytes_congr fun x hx => hsys x (Layout.mem_held_map hx)]
    exact h.mapBytes
  · rw [fileBytes_congr fun x hx => hsys x (Layout.mem_held_table hx)]
    exact h.tableBytes
  · have hne : g.header ∉ f.data := by
      by_cases hk : k = i
      · subst hk
        cases hf.symm.trans hg
        exact (h.file_nodup hf).1
      · exact fun hm => h.files_disjoint hg hf hk List.mem_cons_self (List.mem_cons_of_mem _ hm)
    rw [hd _ hne]
    exact h.file k g hg

structure Kept (disk disk' : Disk) (L : Layout) : Prop where
  mapHeader : disk' freeMapSector = disk freeMapSector
  tableHeader : disk' directorySector = disk directorySector
  file : ∀ i f, L.files i = some f → disk' f.header = disk f.header

section
variable {P : Nat → Prop} (hP : ∀ x, P x → x ∉ map.marked)
  (hd : ∀ x, x ∉ L.mapData → x ∉ L.tableData → ¬ P x → disk' x = disk x)
include hP hd

theorem frame (hf : L.files i = some f) (hx : x ∈ f.sectors) : disk' x = disk x := by
  refine hd x (fun hm => ?_) (fun ht => ?_) fun hp => hP x hp (h.marked_of_held (i := i + 1) ?_)
  · exact h.not_mem_file hf (Layout.mem_held_map hm) hx
  · exact h.not_mem_file hf (Layout.mem_held_table ht) hx
  · rw [Layout.held_succ hf]
    exact hx

theorem kept : Kept disk disk' L := by
  obtain ⟨-, -, -, hm, ht⟩ := h.system_nodup
  have hmarked : ∀ {x}, x ∈ L.held 0 → ¬ P x := fun hx hp => hP _ hp (h.marked_of_held hx)
  refine ⟨hd _ (fun hx => (hm _ hx).1 rfl) (fun hx => (ht _ hx).1 rfl) ?_,
    hd _ (fun hx => (hm _ hx).2 rfl) (fun hx => (ht _ hx).2 rfl) ?_,
    fun i f hf => h.frame hP hd hf List.mem_cons_self⟩
  · exact hmarked (by simp [Layout.held])
  · exact hmarked (by simp [Layout.held])

end

theorem insert {name : List Byte} {map' : Bitmap} (hi : i < numDirEntries)
    (hfile : L.files i = none) (hk : Kept disk disk' L)
    (hmap : mapOf cfg (fileBytes disk' freeMapFileSize L.mapData) = map')
    (htable : tableOf (fileBytes disk' directoryFileSize L.tableData) =
      table.withEntry cfg i name f.header)
    (hdesc : Describes cfg (disk' f.header) f.length f.data) (hlt : f.header < numSectors)
    (hnew : f.sectors.Nodup) (hfree : ∀ x ∈ f.sectors, x ∉ map.marked)
    (hmarked : map'.marked = map.marked ∪ f.sectors.toFinset) :
    Holds cfg disk' (L.set i (some f)) map' (table.withEntry cfg i name f.header) := by
  have hsize : i < table.tableSize := by rw [h.tableSize]; exact hi
  refine ⟨hk.mapHeader ▸ h.mapHeader, hk.tableHeader ▸ h.tableHeader, hmap, htable, fun k hk => ?_,
    fun k hk => ?_, fun k g hg => ?_, fun k g hg => ?_, ?_⟩
  · rw [Directory.inUse_withEntry hsize, h.inUse k hk]
    by_cases hki : k = i
    · simp [Layout.set, hki]
    · simp [Layout.set, hki]
  · simp only [Layout.set]
    rw [update_of_ne (by omega)]
    exact h.outside k hk
  · by_cases hki : k = i
    · subst hki
      simp only [Layout.set, update_self, Option.some.injEq] at hg
      rw [← hg]
      exact Directory.sector_withEntry_self hsize hlt
    · simp only [Layout.set, update_of_ne hki] at hg
      rw [Directory.sector_withEntry_of_ne hki]
      exact h.sector k g hg
  · by_cases hki : k = i
    · subst hki
      simp only [Layout.set, update_self, Option.some.injEq] at hg
      rw [← hg]
      exact hdesc
    · simp only [Layout.set, update_of_ne hki] at hg
      rw [hk.file k g hg]
      exact h.file k g hg
  · rw [Layout.held_set, hmarked]
    exact h.shares.take (by simp [Layout.held, hfile]) hnew hfree

theorem erase {map' : Bitmap} (hf : L.files i = some f) (hk : Kept disk disk' L)
    (hmap : mapOf cfg (fileBytes disk' freeMapFileSize L.mapData) = map')
    (htable : tableOf (fileBytes disk' directoryFileSize L.tableData) = table.store i 0 [0])
    (hmarked : map'.marked = map.marked \ f.sectors.toFinset) :
    Holds cfg disk' (L.set i none) map' (table.store i 0 [0]) := by
  have hset : ∀ k g, (L.set i none).files k = some g → k ≠ i ∧ L.files k = some g := by
    intro k g hg
    by_cases hki : k = i
    · rw [hki, Layout.set] at hg
      simp at hg
    · exact ⟨hki, by simpa [Layout.set, hki] using hg⟩
  refine ⟨hk.mapHeader ▸ h.mapHeader, hk.tableHeader ▸ h.tableHeader, hmap, htable, fun k hk => ?_,
    fun k hk => ?_, fun k g hg => ?_, fun k g hg => ?_, ?_⟩
  · rw [Directory.inUse_store_zero, h.inUse k hk]
    by_cases hki : k = i
    · simp [Layout.set, hki]
    · simp [Layout.set, hki]
  · have := h.index_lt hf
    simp only [Layout.set]
    rw [update_of_ne (by omega)]
    exact h.outside k hk
  · obtain ⟨hki, hg⟩ := hset k g hg
    rw [Directory.sector_store_of_not (.inl hki) (by decide)]
    exact h.sector k g hg
  · obtain ⟨-, hg⟩ := hset k g hg
    rw [hk.file k g hg]
    exact h.file k g hg
  · have := h.shares.give (i + 1)
    rw [Layout.held_succ hf] at this
    rw [Layout.held_set, hmarked]
    exact this

/-! ### Holding a layout is being consistent -/

theorem sectorsOf_map : sectorsOf cfg (disk freeMapSector) = L.mapData := h.mapHeader.sectorsOf_eq

theorem sectorsOf_table : sectorsOf cfg (disk directorySector) = L.tableData := h.tableHeader.sectorsOf_eq

theorem storedMap_eq : storedMap cfg disk = map := by
  unfold storedMap fileAt
  rw [h.mapHeader.numBytes, h.sectorsOf_map, Int.toNat_natCast, h.mapBytes]

theorem storedTable_eq : storedTable cfg disk = table := by
  unfold storedTable fileAt
  rw [h.tableHeader.numBytes, h.sectorsOf_table, Int.toNat_natCast, h.tableBytes]

theorem entrySectors_eq (hi : i < numDirEntries) : entrySectors cfg disk i = L.held (i + 1) := by
  unfold entrySectors
  rw [h.storedTable_eq, h.inUse i hi]
  cases hf : L.files i with
  | none => simp [Layout.held, hf]
  | some f =>
    simp only [Option.isSome_some, if_true]
    rw [h.sector i f hf, Int.toNat_natCast, (h.file i f hf).sectorsOf_eq, Layout.held_succ hf]
    rfl

theorem owned_eq : owned cfg disk = (List.range (numDirEntries + 1)).flatMap L.held :=
  Layout.owned_eq h.sectorsOf_map h.sectorsOf_table fun _ hi => h.entrySectors_eq hi

theorem consistent : Consistent cfg disk := by
  have hs := (Shares.iff_flatMap (Layout.held_outside h.outside)).1 h.shares
  rw [← h.owned_eq] at hs
  refine ⟨h.mapHeader.numBytes, h.tableHeader.numBytes, h.mapHeader.wellFormed, h.tableHeader.wellFormed,
    fun i hi hu => ?_, ?_, hs.1⟩
  · rw [h.storedTable_eq] at hu ⊢
    rw [h.inUse i hi] at hu
    obtain ⟨f, hf⟩ := Option.isSome_iff_exists.1 hu
    have := h.header_lt hf
    rw [h.sector i f hf]
    exact ⟨by omega, by omega, (h.file i f hf).wellFormed⟩
  · rw [h.storedMap_eq]
    exact hs.2

end

end Holds

namespace Consistent

variable (h : Consistent cfg disk)
include h

theorem holds : ∃ L, Holds cfg disk L (storedMap cfg disk) (storedTable cfg disk) := by
  have hm := h.mapHeader.describes
  rw [h.mapSize, Int.toNat_natCast] at hm
  have ht := h.tableHeader.describes
  rw [h.tableSize, Int.toNat_natCast] at ht
  let file (i : Nat) : File :=
    let n := ((storedTable cfg disk).sector cfg i).toNat
    ⟨n, (FileHeader.numBytes cfg (disk n)).toNat, sectorsOf cfg (disk n)⟩
  let L : Layout := ⟨sectorsOf cfg (disk freeMapSector), sectorsOf cfg (disk directorySector),
    fun i => if i < numDirEntries ∧ (storedTable cfg disk).inUse i = true then some (file i) else none⟩
  have hfile : ∀ i f, L.files i = some f →
      (i < numDirEntries ∧ (storedTable cfg disk).inUse i = true) ∧ file i = f := by
    intro i f hf
    simpa [L] using hf
  have hheld : ∀ i < numDirEntries, entrySectors cfg disk i = L.held (i + 1) := by
    intro i hi
    unfold entrySectors
    by_cases hu : (storedTable cfg disk).inUse i = true
    · rw [if_pos hu, Layout.held_succ (f := file i) (if_pos ⟨hi, hu⟩)]
      rfl
    · rw [if_neg hu]
      simp [Layout.held, L, hu]
  have hout : ∀ i, numDirEntries ≤ i → L.files i = none := fun i hi => if_neg (by omega)
  refine ⟨L, hm, ht, ?_, ?_, fun i hi => ?_, hout, fun i f hf => ?_, fun i f hf => ?_, ?_⟩
  · unfold storedMap fileAt
    rw [h.mapSize, Int.toNat_natCast]
  · unfold storedTable fileAt
    rw [h.tableSize, Int.toNat_natCast]
  · simp only [L, hi, true_and]
    cases (storedTable cfg disk).inUse i <;> rfl
  · obtain ⟨⟨hi, hu⟩, rfl⟩ := hfile i f hf
    have := (h.file i hi hu).1
    simp only [file]
    omega
  · obtain ⟨⟨hi, hu⟩, rfl⟩ := hfile i f hf
    exact (h.file i hi hu).2.2.describes
  · refine (Shares.iff_flatMap (Layout.held_outside hout)).2 ?_
    rw [← Layout.owned_eq rfl rfl hheld]
    exact ⟨h.nodup, h.marks⟩

end Consistent

end Nachos.FileSystem
