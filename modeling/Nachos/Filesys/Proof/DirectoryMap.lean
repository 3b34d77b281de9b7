import Mathlib.Data.List.AList
import Nachos.Base.Lists
import Nachos.Filesys.Proof.ByteFile
import Nachos.Filesys.Proof.Parts

/-!
# A directory is a finite map

`NameMap` is a directory as the file system uses it: a map with a bounded number of names, of which only
the first `FileNameMaxLen` characters count. A directory *is* such a map (`Directory.Is`) when the entries
in use are the pairs of the map in some order. `Add`, `Remove`, `Find` and the way to the disk and back
keep that (`call_refines`), so any calls one after the other answer as the map does
(`directory_refines`).
-/

namespace Nachos.FileSystem

open Base Interrupt

/-! ## The map -/

/-- A map from names to sectors with at most `capacity` names. -/
structure NameMap where
  capacity : Nat
  sectors : AList fun _ : List Byte => Int

def nameKey (name : List Byte) : List Byte := firstChars fileNameMaxLen name

namespace NameMap

def empty (capacity : Nat) : NameMap := ⟨capacity, ∅⟩

def find (m : NameMap) (name : List Byte) : Int := (m.sectors.lookup (nameKey name)).getD (-1)

def add (m : NameMap) (name : List Byte) (newSector : Int) : Bool × NameMap :=
  if nameKey name ∈ m.sectors ∨ m.capacity ≤ m.sectors.entries.length then (false, m)
  else (true, { m with sectors := m.sectors.insert (nameKey name) newSector })

def remove (m : NameMap) (name : List Byte) : Bool × NameMap :=
  if nameKey name ∈ m.sectors then (true, { m with sectors := m.sectors.erase (nameKey name) })
  else (false, m)

def call (m : NameMap) : DirCall → DirAnswer × NameMap
  | .add name newSector => (.done (m.add name newSector.toInt).1, (m.add name newSector.toInt).2)
  | .remove name => (.done (m.remove name).1, (m.remove name).2)
  | .find name => (.sector (m.find name), m)
  | .reload .. => (.nothing, m)

def calls (m : NameMap) : List DirCall → List DirAnswer × NameMap
  | [] => ([], m)
  | c :: cs => ((m.call c).1 :: ((m.call c).2.calls cs).1, ((m.call c).2.calls cs).2)

end NameMap

/-- The file of a `WriteBack` is well formed and has room for the table. -/
def DirCall.Stored (cfg : Build) (tableSize : Nat) : DirCall → Prop
  | .reload file _ _ => ∃ n xs, Describes cfg file n xs ∧ xs.Nodup ∧ tableSize * entrySize ≤ n
  | _ => True

namespace Directory

variable {cfg : Build} {d : Directory} {m : NameMap} {name : List Byte} {i k : Nat}

/-! ## The entries in use -/

def pair (cfg : Build) (d : Directory) (i : Nat) : Option (Sigma fun _ : List Byte => Int) :=
  if d.inUse i then some ⟨nameKey (d.name i), d.sector cfg i⟩ else none

def pairs (cfg : Build) (d : Directory) : List (Sigma fun _ : List Byte => Int) :=
  (List.range d.tableSize).filterMap (d.pair cfg)

structure Is (cfg : Build) (d : Directory) (m : NameMap) : Prop where
  capacity : d.tableSize = m.capacity
  perm : m.sectors.entries.Perm (d.pairs cfg)

theorem pair_eq_some {a : List Byte} {s : Int} :
    d.pair cfg i = some ⟨a, s⟩ ↔ d.inUse i = true ∧ nameKey (d.name i) = a ∧ d.sector cfg i = s := by
  unfold pair
  split
  · next h => simp [h]
  · next h => simp [h]

theorem mem_pairs {a : List Byte} {s : Int} :
    ⟨a, s⟩ ∈ d.pairs cfg ↔
      ∃ i < d.tableSize, d.inUse i = true ∧ nameKey (d.name i) = a ∧ d.sector cfg i = s := by
  simp only [pairs, List.mem_filterMap, List.mem_range, pair_eq_some]

theorem length_pairs : (d.pairs cfg).length = (List.range d.tableSize).countP d.inUse := by
  rw [pairs, List.length_filterMap_eq_countP]
  refine List.countP_congr fun i _ => ?_
  unfold pair
  split <;> simp [*]

theorem nameKey_of_findIndex (h : d.findIndex name = some i) : nameKey (d.name i) = nameKey name := by
  have hp := List.find?_some h
  simp only [Bool.and_eq_true, decide_eq_true_eq] at hp
  exact hp.2

theorem nameKey_ne_of_findIndex (h : d.findIndex name = none) (hi : i < d.tableSize)
    (hu : d.inUse i = true) : nameKey (d.name i) ≠ nameKey name := by
  unfold findIndex at h
  rw [List.find?_range_eq_none] at h
  unfold nameKey
  simpa [hu] using h i hi

namespace Is

theorem lookup (h : d.Is cfg m) (name : List Byte) :
    m.sectors.lookup (nameKey name) = (d.findIndex name).map (d.sector cfg) := by
  cases hf : d.findIndex name with
  | some i =>
    obtain ⟨hi, hu⟩ := findIndex_some hf
    have hmem : ⟨nameKey name, d.sector cfg i⟩ ∈ m.sectors.entries :=
      h.perm.mem_iff.2 (mem_pairs.2 ⟨i, hi, hu, nameKey_of_findIndex hf, rfl⟩)
    exact AList.mem_lookup_iff.2 hmem
  | none =>
    refine Option.eq_none_iff_forall_not_mem.2 fun s hs => ?_
    have hmem := h.perm.mem_iff.1 (AList.mem_lookup_iff.1 hs)
    obtain ⟨i, hi, hu, hkey, -⟩ := mem_pairs.1 hmem
    exact nameKey_ne_of_findIndex hf hi hu hkey

theorem mem_iff (h : d.Is cfg m) (name : List Byte) :
    nameKey name ∈ m.sectors ↔ (d.findIndex name).isSome = true := by
  rw [← AList.lookup_isSome, h.lookup, Option.isSome_map]

theorem find (h : d.Is cfg m) (name : List Byte) : d.find cfg name = m.find name := by
  unfold Directory.find NameMap.find
  rw [h.lookup]
  cases d.findIndex name <;> rfl

theorem full_iff (h : d.Is cfg m) :
    m.capacity ≤ m.sectors.entries.length ↔ ∀ i < d.tableSize, d.inUse i = true := by
  have hle : (List.range d.tableSize).countP d.inUse ≤ (List.range d.tableSize).length :=
    List.countP_le_length
  rw [h.perm.length_eq, length_pairs, ← h.capacity]
  constructor
  · intro hfull i hi
    rw [List.length_range] at hle
    have heq : (List.range d.tableSize).countP d.inUse = (List.range d.tableSize).length := by
      rw [List.length_range]
      omega
    exact List.countP_eq_length.1 heq i (List.mem_range.2 hi)
  · intro hall
    have heq := List.countP_eq_length.2 fun i hi => hall i (List.mem_range.1 hi)
    rw [heq, List.length_range]

theorem unique (h : d.Is cfg m) (hi : i < d.tableSize) (hk : k < d.tableSize) (hui : d.inUse i = true)
    (huk : d.inUse k = true) (hkey : nameKey (d.name i) = nameKey (d.name k)) : i = k := by
  have hnodup : (d.pairs cfg).NodupKeys := (List.perm_nodupKeys h.perm).1 m.sectors.nodupKeys
  have hpair := List.pairwise_filterMap.1 (List.nodupKeys_iff_pairwise.1 hnodup)
  have hne : ∀ i k, i < k → k < d.tableSize → d.inUse i = true → d.inUse k = true →
      nameKey (d.name i) ≠ nameKey (d.name k) := by
    intro i k hlt hk hui huk
    have := List.pairwise_iff_getElem.1 hpair i k (by rw [List.length_range]; omega)
      (by rw [List.length_range]; exact hk) hlt
    rw [List.getElem_range, List.getElem_range] at this
    exact this _ (pair_eq_some.2 ⟨hui, rfl, rfl⟩) _ (pair_eq_some.2 ⟨huk, rfl, rfl⟩)
  rcases Nat.lt_trichotomy i k with hlt | rfl | hlt
  · exact absurd hkey (hne i k hlt hk hui huk)
  · rfl
  · exact absurd hkey.symm (hne k i hlt hi huk hui)

end Is

/-! ## The operations -/

theorem is_new (cfg : Build) (size : Nat) (memory : Nat → Byte) :
    (Directory.new size memory).Is cfg (NameMap.empty size) where
  capacity := tableSize_new size memory
  perm := by
    have hnil : (Directory.new size memory).pairs cfg = [] := by
      refine List.filterMap_eq_nil_iff.2 fun i hi => ?_
      rw [tableSize_new, List.mem_range] at hi
      unfold pair
      rw [inUse_new memory hi]
      rfl
    rw [hnil]
    exact .nil

theorem sector_withEntry (hi : i < d.tableSize) {v : Word} :
    (d.withEntry cfg i name v.toInt).sector cfg i = v.toInt := by
  unfold withEntry
  rw [sector_store (by exact hi), BitVec.ofInt_toInt]

theorem pairs_withEntry (hi : i < d.tableSize) (hfree : d.inUse i = false) (name : List Byte) (v : Word) :
    ((d.withEntry cfg i name v.toInt).pairs cfg).Perm (⟨nameKey name, v.toInt⟩ :: d.pairs cfg) := by
  refine filterMap_perm_cons List.nodup_range (List.mem_range.2 hi) ?_ ?_ fun k _ hk => ?_
  · unfold pair
    rw [hfree]
    rfl
  · refine pair_eq_some.2 ⟨?_, name_withEntry_self hi, sector_withEntry hi⟩
    rw [inUse_withEntry hi]
    simp
  · unfold pair
    rw [inUse_withEntry hi, name_withEntry_of_ne hk, sector_withEntry_of_ne hk, decide_eq_false hk,
      Bool.or_false]

theorem Is.withEntry (h : d.Is cfg m) (hi : i < d.tableSize) (hfree : d.inUse i = false)
    (hnew : nameKey name ∉ m.sectors) (v : Word) :
    (d.withEntry cfg i name v.toInt).Is cfg
      { m with sectors := m.sectors.insert (nameKey name) v.toInt } where
  capacity := h.capacity
  perm := by
    rw [AList.entries_insert_of_notMem hnew]
    exact (h.perm.cons _).trans (pairs_withEntry hi hfree name v).symm

theorem Is.add (h : d.Is cfg m) (name : List Byte) (v : Word) :
    (d.add cfg name v.toInt).1 = (m.add name v.toInt).1 ∧
      (d.add cfg name v.toInt).2.Is cfg (m.add name v.toInt).2 := by
  have hmem := h.mem_iff name
  unfold NameMap.add
  cases hf : d.findIndex name with
  | some i =>
    have hadd : d.add cfg name v.toInt = (false, d) := by
      unfold Directory.add
      rw [hf]
      rfl
    rw [hf] at hmem
    rw [if_pos (.inl (hmem.2 rfl)), hadd]
    exact ⟨rfl, h⟩
  | none =>
    have hnew : nameKey name ∉ m.sectors := by simp [hmem, hf]
    rcases add_cases cfg v.toInt hf with ⟨i, hi, hfree, hadd⟩ | ⟨hall, hadd⟩
    · have hroom : ¬ m.capacity ≤ m.sectors.entries.length := by
        rw [h.full_iff]
        intro hall
        rw [hall i hi] at hfree
        cases hfree
      rw [if_neg (by simp [hnew, hroom]), hadd]
      exact ⟨rfl, h.withEntry hi hfree hnew v⟩
    · rw [if_pos (.inr (h.full_iff.2 hall)), hadd]
      exact ⟨rfl, h⟩

theorem pairs_clear (hi : i < d.tableSize) (hu : d.inUse i = true) :
    (d.pairs cfg).Perm (⟨nameKey (d.name i), d.sector cfg i⟩ :: (d.store i 0 [0]).pairs cfg) := by
  refine filterMap_perm_cons List.nodup_range (List.mem_range.2 hi) ?_ (pair_eq_some.2 ⟨hu, rfl, rfl⟩)
    fun k _ hk => ?_
  · unfold pair
    rw [inUse_store_zero]
    simp
  · unfold pair
    rw [inUse_store_zero, name_store_of_not (.inl hk) (by decide),
      sector_store_of_not (.inl hk) (by decide), decide_eq_true hk, Bool.and_true]

theorem Is.remove (h : d.Is cfg m) (name : List Byte) :
    (d.remove name).1 = (m.remove name).1 ∧ (d.remove name).2.Is cfg (m.remove name).2 := by
  have hmem := h.mem_iff name
  unfold NameMap.remove Directory.remove
  cases hf : d.findIndex name with
  | some i =>
    obtain ⟨hi, hu⟩ := findIndex_some hf
    rw [hf] at hmem
    rw [if_pos (hmem.2 rfl)]
    refine ⟨rfl, h.capacity, ?_⟩
    have hperm := (h.perm.trans (pairs_clear hi hu)).kerase (a := nameKey name) m.sectors.nodupKeys
    rwa [List.kerase_cons_eq (nameKey_of_findIndex hf).symm] at hperm
  | none =>
    rw [if_neg (by simp [hmem, hf])]
    exact ⟨rfl, h⟩

theorem reload_eq (disk : Disk) {file : FileHeader} {n : Nat} {xs : List Nat}
    (h : Describes cfg file n xs) (hx : xs.Nodup) (hn : d.tableSize * entrySize ≤ n)
    (buffer fresh : Nat → Byte) :
    ∃ disk', d.writeBack cfg disk file buffer = .ok disk' ∧ (∀ x, x ∉ xs → disk' x = disk x) ∧
      (Directory.new d.tableSize fresh).fetchFrom cfg disk' file = .ok d := by
  have hmax : n ≤ 3840 := h.le_max
  have hcount : (ByteFile.count n (d.tableSize * entrySize : Nat) 0).toNat = d.table.length := by
    unfold ByteFile.count
    rw [d.size]
    omega
  have hfits : (0 : Int) + (d.tableSize * entrySize : Nat) < 2 ^ 31 := by omega
  have hdata : ((d.tableSize * entrySize : Nat) : Int) ≤ d.table.length := by rw [d.size]
  obtain ⟨disk', hw, hother, hbytes⟩ :=
    writeAt_refines disk h hx (Int.le_refl 0) hfits hdata buffer 0
  have hbytes := congrArg ByteFile.bytes hbytes
  unfold ByteFile.writeAt at hbytes
  dsimp only at hbytes
  rw [h.length_fileBytes, hcount, List.take_length, Int.toNat_zero] at hbytes
  refine ⟨disk', ?_, hother, ?_⟩
  · unfold writeBack
    rw [← Nat.cast_mul, hw]
    rfl
  unfold fetchFrom
  rw [tableSize_new, ← Nat.cast_mul, readAt_refines disk' h (Int.le_refl 0) hfits 0, ok_bind,
    pure_eq_ok]
  refine congrArg Except.ok (eq_of (tableSize_new _ _) ?_)
  have hread : ((ByteFile.mk (fileBytes disk' n xs) 0).readAt (d.tableSize * entrySize : Nat) 0) =
      d.table := by
    unfold ByteFile.readAt
    dsimp only
    rw [h.length_fileBytes, hcount, hbytes]
    exact slice_patch (by rw [h.length_fileBytes, d.size]; omega)
  rw [hread]
  unfold store
  simp only [Nat.zero_mul, Nat.zero_add]
  exact patch_all (by rw [d.size, Directory.size, tableSize_new])

/-! ## Runs -/

theorem call_refines (disk : Disk) (h : d.Is cfg m) {c : DirCall} (hc : c.Stored cfg m.capacity) :
    ∃ disk' d', d.call cfg disk c = .ok ((m.call c).1, disk', d') ∧ d'.Is cfg (m.call c).2 ∧
      (m.call c).2.capacity = m.capacity := by
  cases c with
  | add name newSector =>
    obtain ⟨hanswer, hnext⟩ := h.add name newSector
    refine ⟨disk, _, ?_, hnext, ?_⟩
    · rw [NameMap.call, ← hanswer]
      rfl
    · change (m.add name newSector.toInt).2.capacity = _
      unfold NameMap.add
      split <;> rfl
  | remove name =>
    obtain ⟨hanswer, hnext⟩ := h.remove name
    refine ⟨disk, _, ?_, hnext, ?_⟩
    · rw [NameMap.call, ← hanswer]
      rfl
    · change (m.remove name).2.capacity = _
      unfold NameMap.remove
      split <;> rfl
  | find name =>
    refine ⟨disk, d, ?_, h, rfl⟩
    rw [NameMap.call, ← h.find]
    rfl
  | reload file buffer fresh =>
    obtain ⟨n, xs, hdesc, hx, hn⟩ := hc
    rw [← h.capacity] at hn
    obtain ⟨disk', hw, -, hfetch⟩ := reload_eq disk hdesc hx hn buffer fresh
    refine ⟨disk', d, ?_, h, rfl⟩
    rw [Directory.call, hw, ok_bind, hfetch]
    rfl

theorem calls_refines (disk : Disk) (h : d.Is cfg m) {cs : List DirCall}
    (hc : ∀ c ∈ cs, c.Stored cfg m.capacity) :
    ∃ disk' d', d.calls cfg disk cs = .ok ((m.calls cs).1, disk', d') ∧ d'.Is cfg (m.calls cs).2 ∧
      (m.calls cs).2.capacity = m.capacity := by
  induction cs generalizing disk d m with
  | nil => exact ⟨disk, d, rfl, h, rfl⟩
  | cons c cs ih =>
    obtain ⟨disk1, d1, hcall, h1, hcap1⟩ := call_refines disk h (hc c (.head _))
    obtain ⟨disk2, d2, hcalls, h2, hcap2⟩ := ih disk1 h1 fun c' hc' => by
      rw [hcap1]
      exact hc c' (.tail _ hc')
    refine ⟨disk2, d2, ?_, h2, hcap2.trans hcap1⟩
    rw [Directory.calls, hcall, ok_bind]
    dsimp only
    rw [hcalls]
    rfl

theorem eq_of_add_false {newSector : Int} (h : (d.add cfg name newSector).1 = false) :
    (d.add cfg name newSector).2 = d := by
  unfold add at h ⊢
  split at h
  · next hf => rw [if_pos hf]
  · next hf =>
    rw [if_neg hf]
    split at h
    · cases h
    · rfl

end Directory

/-- **A directory is a finite map.** After any calls on a new directory the answers were those of the
map, and the table and the map agree: on the names in use, on what `Find` returns, on when `Add` and
`Remove` refuse; and the file gives back the table that was stored. -/
theorem directory_refines (cfg : Build) (size : Nat) (memory : Nat → Byte) (disk : Disk)
    (cs : List DirCall) (hc : ∀ c ∈ cs, c.Stored cfg size) :
    ∃ (answers : List DirAnswer) (disk' : Disk) (d : Directory) (m : NameMap),
      (Directory.new size memory).calls cfg disk cs = .ok (answers, disk', d) ∧
      (NameMap.empty size).calls cs = (answers, m) ∧
      d.tableSize = size ∧ m.capacity = size ∧
      (∀ i < size, ∀ k < size, d.inUse i = true → d.inUse k = true →
        nameKey (d.name i) = nameKey (d.name k) → i = k) ∧
      (∀ name, d.find cfg name = (m.sectors.lookup (nameKey name)).getD (-1)) ∧
      (∀ name (newSector : Word),
        ((d.add cfg name newSector.toInt).1 = false ↔
          nameKey name ∈ m.sectors ∨ ∀ i < size, d.inUse i = true) ∧
        ((d.add cfg name newSector.toInt).1 = false → (d.add cfg name newSector.toInt).2 = d)) ∧
      (∀ name, ((d.remove name).1 = false ↔ nameKey name ∉ m.sectors) ∧
        ∀ other, nameKey other ≠ nameKey name →
          (d.remove name).2.find cfg other = d.find cfg other) ∧
      ∀ file buffer fresh, (DirCall.reload file buffer fresh).Stored cfg size →
        ∃ disk'', d.writeBack cfg disk' file buffer = .ok disk'' ∧
          (Directory.new size fresh).fetchFrom cfg disk'' file = .ok d := by
  obtain ⟨disk', d, hrun, h, hcap⟩ :=
    Directory.calls_refines disk (Directory.is_new cfg size memory) hc
  have hsize : d.tableSize = size := h.capacity.trans hcap
  refine ⟨_, disk', d, _, hrun, rfl, hsize, hcap, ?_, h.find, ?_, ?_, ?_⟩
  · intro i hi k hk hui huk hkey
    exact h.unique (by omega) (by omega) hui huk hkey
  · intro name newSector
    refine ⟨?_, Directory.eq_of_add_false⟩
    have hfull := h.full_iff
    rw [hsize] at hfull
    rw [(h.add name newSector).1, ← hfull]
    unfold NameMap.add
    split
    · next hno => simp [hno]
    · next hyes => simp [hyes]
  · intro name
    obtain ⟨hanswer, hnext⟩ := h.remove name
    constructor
    · rw [hanswer]
      unfold NameMap.remove
      split <;> simp [*]
    · intro other hne
      rw [hnext.find, h.find]
      unfold NameMap.remove NameMap.find
      split
      · rw [AList.lookup_erase_ne hne]
      · rfl
  · intro file buffer fresh hstored
    obtain ⟨n, xs, hdesc, hx, hn⟩ := hstored
    rw [← hsize] at hn
    obtain ⟨disk'', hw, -, hfetch⟩ := Directory.reload_eq disk' hdesc hx hn buffer fresh
    rw [hsize] at hfetch
    exact ⟨disk'', hw, hfetch⟩

/-- Two names with the same first nine characters, added, stored, fetched and looked up. -/
theorem directory_refines_reload : ∃ disk' d,
    (Directory.new 10 fun _ => 0).calls buildLinux (fun _ => smallHeader)
      [.add [1, 2, 3, 4, 5, 6, 7, 8, 9, 10, 0] 12, .reload smallHeader (fun _ => 0) (fun _ => 1),
        .add [1, 2, 3, 4, 5, 6, 7, 8, 9, 11, 0] 13, .find [1, 2, 3, 4, 5, 6, 7, 8, 9, 0]] =
      .ok ([.done true, .nothing, .done false, .sector 12], disk', d) := by
  obtain ⟨answers, disk', d, m, hrun, hmap, -⟩ := directory_refines buildLinux 10 (fun _ => 0)
    (fun _ => smallHeader)
    [.add [1, 2, 3, 4, 5, 6, 7, 8, 9, 10, 0] 12, .reload smallHeader (fun _ => 0) (fun _ => 1),
      .add [1, 2, 3, 4, 5, 6, 7, 8, 9, 11, 0] 13, .find [1, 2, 3, 4, 5, 6, 7, 8, 9, 0]]
    (by
      intro c hc
      simp only [List.mem_cons, List.not_mem_nil, or_false] at hc
      rcases hc with rfl | rfl | rfl | rfl
      · trivial
      · exact ⟨200, [5, 7], describes_smallHeader, by decide, by decide⟩
      · trivial
      · trivial)
  have hanswers : [.done true, .nothing, .done false, .sector 12] = answers := congrArg Prod.fst hmap
  refine ⟨disk', d, ?_⟩
  rw [hrun, ← hanswers]

end Nachos.FileSystem
