import Nachos.Filesys.Proof.Consistency
import Nachos.Filesys.Proof.DirectoryMap

/-!
# Named files

`contentsOf`: the bytes of the file with a name, read off the disk. Over whole runs, an operation changes
them only if it is about that name (`files_isolated`), `Remove` undoes `Create` (`remove_create`), and the
requests of an open file read and write them as an array of bytes (`openFile_named`).
-/

namespace Nachos.FileSystem

open Base

def contentsOf (cfg : Build) (disk : Disk) (name : List Byte) : Option (List Byte) :=
  let sector := (storedTable cfg disk).find cfg name
  if sector < 0 then none else some (fileAt cfg disk sector.toNat)

def Names (cfg : Build) (s : State) (name : List Byte) : Event → Prop
  | .create name' _ _ => nameKey name' = nameKey name
  | .remove name' _ => nameKey name' = nameKey name
  | .openNamed _ _ => False
  | .close _ => False
  | .writeAt k _ _ _ _ =>
    ∃ file, s.openFiles[k]? = some file ∧ file.sector = (storedTable cfg s.disk).find cfg name

variable {cfg : Build} {s s' : State} {L L' : Layout} {map map' : Bitmap} {table table' : Directory}
  {name : List Byte}

/-! ## Directories that agree on a name -/

theorem Directory.findIndex_congr (hs : table'.tableSize = table.tableSize)
    (h : ∀ k, table'.inUse k = true ∧ nameKey (table'.name k) = nameKey name ↔
      table.inUse k = true ∧ nameKey (table.name k) = nameKey name) :
    table'.findIndex name = table.findIndex name := by
  unfold findIndex
  rw [hs]
  congr 1
  funext k
  rw [Bool.eq_iff_iff]
  simpa [nameKey] using h k

theorem Directory.findIndex_withEntry_of_ne {i : Nat} {name' : List Byte} {newSector : Int}
    (hi : i < table.tableSize) (hfree : table.inUse i = false) (hne : nameKey name' ≠ nameKey name) :
    (table.withEntry cfg i name' newSector).findIndex name = table.findIndex name := by
  refine findIndex_congr rfl fun k => ?_
  rw [inUse_withEntry hi]
  by_cases hk : k = i
  · subst hk
    have hkey : nameKey ((table.withEntry cfg k name' newSector).name k) = nameKey name' :=
      name_withEntry_self hi
    simp [hkey, hne, hfree]
  · simp [name_withEntry_of_ne hk, hk]

theorem Directory.findIndex_clear_of_ne {i : Nat} (hne : nameKey (table.name i) ≠ nameKey name) :
    (table.store i 0 [0]).findIndex name = table.findIndex name := by
  refine findIndex_congr rfl fun k => ?_
  rw [inUse_store_zero, name_store_of_not (.inr (by decide)) (by decide)]
  by_cases hk : k = i
  · simp [hk, hne]
  · simp [hk]

/-! ## What the name stands for -/

theorem Mounted.contentsOf_eq (h : Mounted cfg s L map table) (name : List Byte) :
    contentsOf cfg s.disk name = (table.findIndex name).bind fun i =>
      (L.files i).map fun f => fileBytes s.disk f.length f.data := by
  unfold contentsOf
  rw [h.holds.storedTable_eq]
  cases hi : table.findIndex name with
  | none => simp [find_of_none hi]
  | some i =>
    obtain ⟨f, hf, hfind⟩ := h.file_of_findIndex hi
    have hdesc := h.holds.file i f hf
    simp [hfind, hf, fileAt, hdesc.numBytes, hdesc.sectorsOf_eq]

theorem Mounted.contentsOf_congr (h : Mounted cfg s L map table) (h' : Mounted cfg s' L' map' table')
    (hi : table'.findIndex name = table.findIndex name)
    (hf : ∀ k g, table.findIndex name = some k → L.files k = some g →
      L'.files k = some g ∧ ∀ x ∈ g.data, s'.disk x = s.disk x) :
    contentsOf cfg s'.disk name = contentsOf cfg s.disk name := by
  rw [h'.contentsOf_eq, h.contentsOf_eq, hi]
  cases hk : table.findIndex name with
  | none => rfl
  | some k =>
    obtain ⟨g, hg, -⟩ := h.file_of_findIndex hk
    obtain ⟨hg', hx⟩ := hf k g hk hg
    simp [hg, hg', fileBytes_congr hx]

theorem Layout.files_set_of_none (L : Layout) {i k : Nat} {g : File} (hi : L.files i = none)
    (hg : L.files k = some g) (file : Option File) : (L.set i file).files k = some g := by
  have hki : k ≠ i := fun he => by rw [he, hi] at hg; cases hg
  simpa [Layout.set, hki] using hg

theorem Holds.index_unique (h : Holds cfg s.disk L map table) {i k : Nat} {f g : File}
    (hf : L.files i = some f) (hg : L.files k = some g) (heq : f.header = g.header) : i = k := by
  by_contra hne
  exact h.files_disjoint hf hg hne List.mem_cons_self (heq ▸ List.mem_cons_self)

namespace Inv

variable (h : Inv cfg s L map table)
include h

theorem step_contentsOf {event : Event} (hl : Legal cfg s event) (hr : InRange event)
    (hn : ¬ Names cfg s name event) (hs : s.step cfg event = some s') :
    contentsOf cfg s'.disk name = contentsOf cfg s.disk name := by
  cases event with
  | create name' initialSize memory =>
    obtain ⟨n, rfl⟩ := Int.eq_ofNat_of_zero_le hl.1
    by_cases hR : Refused map table name' n
    · obtain ⟨disk', hc⟩ := (h.mounted.create_refused name' n memory).2 hR
      rw [step_create h.running hc] at hs
      cases hs
      rw [create_unchanged hc]
    · obtain ⟨disk', i, f, map', hc, hi, ⟨hfree, hframe⟩, -, -, hd⟩ :=
        h.mounted.create_ok name' (by have := hl.2; omega) hR memory
      rw [step_create h.running hc] at hs
      cases hs
      refine h.mounted.contentsOf_congr ⟨hd, h.mounted.freeMapFile, h.mounted.directoryFile⟩
        (Directory.findIndex_withEntry_of_ne (by rw [h.mounted.holds.tableSize]; exact hi) ?_ hn)
        fun k g _ hg =>
          ⟨L.files_set_of_none hfree hg _, fun x hx => hframe k g hg x (List.mem_cons_of_mem _ hx)⟩
      rw [h.mounted.holds.inUse i hi, hfree]
      rfl
  | remove name' memory =>
    cases hi : table.findIndex name' with
    | none =>
      rw [step_remove h.running (h.mounted.remove_absent hi memory)] at hs
      cases hs
      rfl
    | some i =>
      obtain ⟨disk', f, map', -, -, hc, hframe, hd⟩ := h.mounted.remove_ok hi memory
      rw [step_remove h.running hc] at hs
      cases hs
      have hkey := Directory.nameKey_of_findIndex hi
      refine h.mounted.contentsOf_congr ⟨hd, h.mounted.freeMapFile, h.mounted.directoryFile⟩
        (Directory.findIndex_clear_of_ne (hkey ▸ hn))
        fun k g hk hg => ⟨?_, fun x hx => hframe k g hg x (List.mem_cons_of_mem _ hx)⟩
      have hki : k ≠ i := fun he => hn (hkey.symm.trans (he ▸ Directory.nameKey_of_findIndex hk))
      simpa [Layout.set, hki] using hg
  | openNamed name' memory =>
    obtain ⟨r, hc, -⟩ := h.open_inv name' memory
    rw [step_open h.running hc] at hs
    cases hs
    rfl
  | close k =>
    rw [step_close h.running] at hs
    cases hs
    rfl
  | writeAt k data numBytes position memory =>
    cases hk : s.openFiles[k]? with
    | none =>
      rw [step_writeAt_none h.running hk] at hs
      cases hs
    | some file =>
      obtain ⟨i, f, hf, hsector, hdesc⟩ := h.openFiles file (List.mem_of_getElem? hk)
      obtain ⟨r, disk', hw, hframe⟩ := writeAt_frame s.disk hdesc (h.mounted.holds.file_nodup hf).2
        hr.1 hr.2 hl memory
      rw [step_writeAt h.running hk hw] at hs
      cases hs
      refine h.mounted.contentsOf_congr ⟨h.mounted.holds.write hf hframe, h.mounted.freeMapFile,
        h.mounted.directoryFile⟩ rfl fun j g hj hg => ⟨hg, fun x hx => hframe x fun hxf => ?_⟩
      -- the sector would belong to two files
      have hij : i ≠ j := by
        rintro rfl
        obtain ⟨g', hg', hfind⟩ := h.mounted.file_of_findIndex hj
        cases hf.symm.trans hg'
        exact hn ⟨file, hk, by rw [h.storedTable_eq, hfind, hsector]⟩
      exact h.mounted.holds.files_disjoint hf hg hij (List.mem_cons_of_mem _ hxf)
        (List.mem_cons_of_mem _ hx)

end Inv

/-! ## Runs from a formatted disk -/

/-- What operations lead to from a formatted disk, and the kernel that is started again on the disk. -/
inductive Reachable (cfg : Build) : State → Prop
  | format {disk memory s} (h : format cfg disk memory = .ok s) : Reachable cfg s
  | step {s s' : State} {e : Event} (h : Reachable cfg s) (hl : Legal cfg s e ∧ InRange e)
    (hs : s.step cfg e = some s') : Reachable cfg s'
  | mount {s s' : State} (h : Reachable cfg s) (hm : mount s.disk = .ok s') : Reachable cfg s'

theorem Reachable.inv (h : Reachable cfg s) : ∃ L map table, Inv cfg s L map table := by
  induction h with
  | format h => exact runs_inv h .start
  | step _ hl hs ih =>
    obtain ⟨L, map, table, hi⟩ := ih
    exact hi.step_inv hl.1 hl.2 hs
  | mount _ hm ih =>
    obtain ⟨L, map, table, hi⟩ := ih
    have hd := hi.mounted.holds
    unfold FileSystem.mount at hm
    rw [openFile_eq (by decide), ok_bind, openFile_eq (by decide), ok_bind] at hm
    cases hm
    exact ⟨L, map, table, ⟨hd, hd.mapHeader, hd.tableHeader⟩, by simp, rfl⟩

/-- **Files are isolated.** From any state of a run on a formatted disk, operations that are not about a
name leave the bytes of its file, however many there are. -/
theorem files_isolated (h : Reachable cfg s)
    (h' : Runs (State.step cfg) (fun s e => (Legal cfg s e ∧ InRange e) ∧ ¬ Names cfg s name e) s s') :
    contentsOf cfg s'.disk name = contentsOf cfg s.disk name := by
  refine (h'.invariant (I := fun t => Reachable cfg t ∧
    contentsOf cfg t.disk name = contentsOf cfg s.disk name) ⟨h, rfl⟩ fun t e t' ht hc hs => ?_).2
  obtain ⟨L, map, table, hinv⟩ := ht.1.inv
  exact ⟨ht.1.step hc.1 hs, (hinv.step_contentsOf hc.1.1 hc.1.2 hc.2 hs).trans ht.2⟩

theorem exists_named : ∃ s file, Reachable buildLinux s ∧
    file ∈ s.openFiles ∧ file.sector = (storedTable buildLinux s.disk).find buildLinux [97] := by
  obtain ⟨s0, s1, s2, L, map, table, i, f, h0, h1, h2, hinv, hf, -, hindex, ho⟩ :=
    exists_opened (n := 200) (by decide) (by decide)
  obtain ⟨g, hg, hfind⟩ := hinv.mounted.file_of_findIndex hindex
  cases hf.symm.trans hg
  have hr : Reachable buildLinux s0 := .format h0
  have hr1 := hr.step (e := .create [97] 200 0) ⟨⟨by decide, by decide⟩, trivial⟩ h1
  refine ⟨s2, ⟨f.header, s2.disk f.header⟩, hr1.step (e := .openNamed [97] 0) ⟨trivial, trivial⟩ h2, ?_, ?_⟩
  · rw [ho]
    exact List.mem_singleton.2 rfl
  · rw [hinv.storedTable_eq, hfind]

theorem files_isolated_create : ∃ s s' : State,
    s.step buildLinux (.create [98] 100 0) = some s' ∧
    contentsOf buildLinux s'.disk [97] = contentsOf buildLinux s.disk [97] := by
  obtain ⟨s, file, h, -⟩ := exists_named
  obtain ⟨L, map, table, hinv⟩ := h.inv
  obtain ⟨r, -, -, -, hc, -⟩ := hinv.create_inv [98] 0 (show (0 : Int) ≤ 100 by decide) (by decide)
  have hs := step_create hinv.running hc
  exact ⟨s, _, hs, files_isolated h
    (.step (i := .create [98] 100 0) .start
      ⟨⟨⟨by decide, by decide⟩, trivial⟩, show nameKey [98] ≠ nameKey [97] by decide⟩ hs)⟩

/-- **`Remove` undoes `Create`**: in any state of a run, a file that is created and removed again leaves the
sectors that were free, and what every name stands for. -/
theorem remove_create {disk' : Disk} {initialSize : Int} {memory : Nat → Nat → Byte}
    (memory' : Nat → Nat → Byte) (h : Reachable cfg s)
    (hsize : Legal cfg s (.create name initialSize memory))
    (hc : s.create cfg name initialSize memory = .ok (true, disk')) :
    ∃ disk'', State.remove cfg { s with disk := disk' } name memory' = .ok (true, disk'') ∧
      (storedMap cfg disk'').marked = (storedMap cfg s.disk).marked ∧
      ∀ other, contentsOf cfg disk'' other = contentsOf cfg s.disk other := by
  obtain ⟨L, map, table, hinv⟩ := h.inv
  have hm := hinv.mounted
  obtain ⟨n, rfl⟩ := Int.eq_ofNat_of_zero_le hsize.1
  have hR : ¬ Refused map table name n := by
    intro hR
    obtain ⟨disk1, h1⟩ := (hm.create_refused name n memory).2 hR
    cases h1.symm.trans hc
  obtain ⟨disk1, i, f, map1, h1, hi, ⟨hfree, hframe⟩, hnone, -, hd1⟩ :=
    hm.create_ok name (by have := hsize.2; omega) hR memory
  cases h1.symm.trans hc
  have hunused := hm.holds.inUse i hi
  rw [hfree, Option.isSome_none] at hunused
  rw [← hm.holds.tableSize] at hi
  have hm1 : Mounted cfg { s with disk := disk' } _ _ _ := ⟨hd1, hm.freeMapFile, hm.directoryFile⟩
  obtain ⟨disk'', g, map'', -, -, hr, hframe', hd⟩ :=
    hm1.remove_ok (Directory.findIndex_withEntry hi hnone) memory'
  have hL : (L.set i (some f)).set i none = L := by simp [Layout.set, ← hfree]
  rw [hL] at hd
  refine ⟨disk'', hr, ?_, fun other => ?_⟩
  · ext x
    rw [hd.storedMap_eq, hm.holds.storedMap_eq, hd.shares.mem_used, hm.holds.shares.mem_used]
  · have hm2 : Mounted cfg { s with disk := disk'' } _ _ _ := ⟨hd, hm.freeMapFile, hm.directoryFile⟩
    change contentsOf cfg ({ s with disk := disk'' } : State).disk other = _
    refine hm.contentsOf_congr hm2 (Directory.findIndex_congr rfl fun k => ?_)
      fun k g' _ hg' => ⟨hg', fun x hx => ?_⟩
    · rw [Directory.inUse_store_zero, Directory.inUse_withEntry hi,
        Directory.name_store_of_not (.inr (by decide)) (by decide)]
      by_cases hk : k = i
      · simp [hk, hunused]
      · simp [Directory.name_withEntry_of_ne hk, hk]
    · have hxs : x ∈ g'.sectors := List.mem_cons_of_mem _ hx
      rw [← hframe k g' hg' x hxs]
      exact hframe' k g' (L.files_set_of_none hfree hg' _) x hxs

theorem remove_create_formatted : ∃ s disk' disk'', State.create buildLinux s [97] 200 0 = .ok (true, disk') ∧
    State.remove buildLinux { s with disk := disk' } [97] 0 = .ok (true, disk'') := by
  obtain ⟨s, L, map, table, h0, hinv, hfiles, -⟩ := format_inv buildLinux (fun _ => newHeader 0) 0
  obtain ⟨disk', -, -, -, hc, -⟩ := hinv.mounted.create_ok [97] (n := 200) (by decide)
    (not_refused_formatted hinv.mounted hfiles _ (by decide)) 0
  obtain ⟨disk'', hr, -⟩ := remove_create 0 (.format h0) ⟨by decide, by decide⟩ hc
  exact ⟨s, disk', disk'', hc, hr⟩

/-- **An open file is the file with its name**: at any time, its requests read and write the bytes that the
name stands for. -/
theorem openFile_named {file : OpenFile} {data : List Byte} {numBytes position : Int}
    (buffer : Nat → Byte) (h : Reachable cfg s) (hfile : file ∈ s.openFiles)
    (hname : file.sector = (storedTable cfg s.disk).find cfg name) (hpos : 0 ≤ position)
    (hr : position + numBytes < 2 ^ 31) (hd : numBytes ≤ data.length) :
    ∃ old disk', contentsOf cfg s.disk name = some old ∧
      readAt cfg s.disk file.hdr numBytes position = .ok ((ByteFile.mk old 0).readAt numBytes position) ∧
      writeAt cfg s.disk file.hdr data numBytes position buffer =
        .ok (ByteFile.count old.length numBytes position, disk') ∧
      contentsOf cfg disk' name = some ((ByteFile.mk old 0).writeAt data numBytes position).bytes := by
  obtain ⟨L, map, table, hinv⟩ := h.inv
  obtain ⟨i, f, hf, hsector, hdesc⟩ := hinv.openFiles file hfile
  obtain ⟨disk', hw, hframe, hbytes⟩ := writeAt_refines s.disk hdesc
    (hinv.mounted.holds.file_nodup hf).2 hpos hr hd buffer 0
  have hindex : table.findIndex name = some i := by
    rw [hinv.storedTable_eq, hsector] at hname
    cases hj : table.findIndex name with
    | none =>
      rw [Mounted.find_of_none hj] at hname
      omega
    | some j =>
      obtain ⟨g, hg, hfind⟩ := hinv.mounted.file_of_findIndex hj
      rw [hinv.mounted.holds.index_unique hf hg (by omega)]
  have hm : Mounted cfg { s with disk := disk' } L map table := ⟨hinv.mounted.holds.write hf hframe,
    hinv.mounted.freeMapFile, hinv.mounted.directoryFile⟩
  refine ⟨fileBytes s.disk f.length f.data, disk', ?_, readAt_refines s.disk hdesc hpos hr 0, ?_, ?_⟩
  · simp [hinv.mounted.contentsOf_eq, hindex, hf]
  · rw [hw, hdesc.length_fileBytes]
  · rw [hm.contentsOf_eq, hindex, ← hbytes]
    simp [hf]

theorem openFile_named_two : ∃ (s : State) (old : List Byte),
    contentsOf buildLinux s.disk [97] = some old ∧ ∃ file ∈ s.openFiles,
      readAt buildLinux s.disk file.hdr 2 3 = .ok ((ByteFile.mk old 0).readAt 2 3) := by
  obtain ⟨s, file, h, hfile, hname⟩ := exists_named
  obtain ⟨old, -, hold, hread, -⟩ := openFile_named 0 h hfile hname (show (0 : Int) ≤ 3 by decide)
    (show (3 : Int) + 2 < 2 ^ 31 by decide) (show (2 : Int) ≤ [(1 : Byte), 2].length by decide)
  exact ⟨s, old, hold, file, hfile, hread⟩

end Nachos.FileSystem
