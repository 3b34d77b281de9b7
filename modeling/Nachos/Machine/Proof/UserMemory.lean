import Nachos.Machine.Proof.Isolation

/-!
# User memory

With the page table of an address space installed (`Mapped`), the virtual addresses of the space are
a store of their own: `user m v` is the byte a user program sees at `v`. `ReadMem` returns what the
store has and keeps it (`readMem_byte`, `readMem_word`), and `WriteMem` changes one byte of it
(`writeMem_byte`).
-/

namespace Nachos.Machine

open Base Function

/-- The installed table is that of an address space: its pages are valid, can be written and have frames
of their own. -/
structure Mapped (m : Machine) : Prop where
  tlb : m.tlb = none
  table : m.pageTable ≠ none
  size : m.pageTableSize = (m.pageTable.getD []).length
  pages : ∀ e ∈ m.pageTable.getD [], e.valid = true ∧ e.readOnly = false ∧
    e.physicalPage.toNat < numPhysPages
  frames : m.tableFrames.Nodup

def physical (m : Machine) (v : Nat) : Option Nat :=
  m.tableFrames[v / pageSize]?.map fun frame => frame * pageSize + v % pageSize

def user (m : Machine) (v : Nat) : Option Byte := (m.physical v).map m.mainMemory

def userWord (cfg : Build) (m : Machine) (v : Nat) : Option Word :=
  (m.physical v).map fun p => wordToHost cfg (hostWord cfg m.mainMemory p)

variable {m : Machine} {p : Nat} {v : Word}

theorem physical_injective (h : m.Mapped) {v v' : Nat} (hv : m.physical v = some p)
    (hv' : m.physical v' = some p) : v = v' := by
  obtain ⟨f, hf, rfl⟩ := Option.map_eq_some_iff.1 hv
  obtain ⟨f', hf', hp⟩ := Option.map_eq_some_iff.1 hv'
  have hv1 : v % pageSize < pageSize := Nat.mod_lt _ (by decide)
  have hv2 : v' % pageSize < pageSize := Nat.mod_lt _ (by decide)
  have hff : f' = f := by
    have := congrArg (· / pageSize) hp
    simpa [Nat.add_div_of_dvd_right (Nat.dvd_mul_left pageSize _), Nat.div_eq_of_lt hv1,
      Nat.div_eq_of_lt hv2, show 0 < pageSize by decide] using this
  subst hff
  have hmod : v' % pageSize = v % pageSize := by omega
  obtain ⟨hi, hfi⟩ := List.getElem?_eq_some_iff.1 hf
  obtain ⟨hi', hfi'⟩ := List.getElem?_eq_some_iff.1 hf'
  have hdiv : v / pageSize = v' / pageSize := (h.frames.getElem_inj_iff).1 (hfi.trans hfi'.symm)
  rw [← Nat.div_add_mod v pageSize, ← Nat.div_add_mod v' pageSize, hdiv, hmod]

theorem lt_of_physical (h : m.Mapped) {v : Nat} (hv : m.physical v = some p) : v < memorySize := by
  obtain ⟨f, hf, -⟩ := Option.map_eq_some_iff.1 hv
  have hsub : m.tableFrames ⊆ List.range numPhysPages := by
    intro f hf
    obtain ⟨e, he, rfl⟩ := List.mem_map.1 hf
    exact List.mem_range.2 (h.pages e he).2.2
  have hlen := (h.frames.subperm hsub).length_le
  rw [List.length_range] at hlen
  have hlt := Nat.lt_of_lt_of_le (List.getElem?_eq_some_iff.1 hf).1 hlen
  exact (Nat.div_lt_iff_lt_mul (by decide)).1 hlt

theorem toNat_succ_of_user (h : m.Mapped) {b : Byte}
    (hb : m.user v.toNat = some b) : (v + 1).toNat = v.toNat + 1 := by
  obtain ⟨p, hp, -⟩ := Option.map_eq_some_iff.1 hb
  have hlt : v.toNat < 16384 := lt_of_physical h hp
  rw [BitVec.toNat_add, show (1 : Word).toNat = 1 by rfl]
  omega

structure Touched (m m' : Machine) : Prop where
  registers : m'.registers = m.registers
  physical : m'.physical = m.physical
  mapped : m.Mapped → m'.Mapped

structure Peeked (m m' : Machine) : Prop extends Touched m m' where
  mem : m'.mainMemory = m.mainMemory

theorem Peeked.user {m' : Machine} (h : Peeked m m') : m'.user = m.user := by
  funext v
  rw [Machine.user, Machine.user, h.physical, h.mem]

theorem Peeked.userWord {m' : Machine} (h : Peeked m m') (cfg : Build) :
    m'.userWord cfg = m.userWord cfg := by
  funext v
  rw [Machine.userWord, Machine.userWord, h.physical, h.mem]

theorem Touched.refl (m : Machine) : Touched m m := ⟨rfl, rfl, id⟩

theorem Touched.trans {m1 m2 m3 : Machine} (h : Touched m1 m2) (h' : Touched m2 m3) : Touched m1 m3 :=
  ⟨h'.registers.trans h.registers, h'.physical.trans h.physical, h'.mapped ∘ h.mapped⟩

theorem Peeked.refl (m : Machine) : Peeked m m := ⟨.refl m, rfl⟩

theorem Peeked.trans {m1 m2 m3 : Machine} (h : Peeked m1 m2) (h' : Peeked m2 m3) : Peeked m1 m3 :=
  ⟨h.toTouched.trans h'.toTouched, h'.mem.trans h.mem⟩

theorem peeked_setEntry {i : Nat} {e : TranslationEntry} (use dirty : Bool)
    (he : (m.pageTable.getD [])[i]? = some e) :
    Peeked m { m with pageTable := m.pageTable.map (·.set i { e with use, dirty }) } := by
  cases hp : m.pageTable with
  | none => exact absurd he (by simp [hp])
  | some pt =>
    rw [hp] at he
    simp only [Option.getD_some, Option.map_some] at he ⊢
    have hframes : (pt.set i { e with use, dirty }).map (·.physicalPage.toNat) =
        pt.map (·.physicalPage.toNat) := by
      obtain ⟨hi, rfl⟩ := List.getElem?_eq_some_iff.1 he
      rw [List.map_set, ← List.map_set (a := pt[i]), List.set_getElem_self]
    refine ⟨⟨rfl, ?_, fun h => ?_⟩, rfl⟩
    · funext v
      simp only [physical, tableFrames, hp, Option.getD_some, hframes]
    · refine ⟨h.tlb, by simp, ?_, fun e' he' => ?_, ?_⟩
      · have := h.size
        simpa [hp] using this
      · have hpages := h.pages
        rw [hp] at hpages
        rcases List.mem_or_eq_of_mem_set he' with hmem | rfl
        · exact hpages e' hmem
        · exact hpages e (List.mem_of_getElem? he)
      · have := h.frames
        simpa only [tableFrames, hp, Option.getD_some, hframes] using this

theorem useEntry_mapped {e : TranslationEntry} {i offset size : Nat} (writing : Bool)
    (he : (m.pageTable.getD [])[i]? = some e) (hm : m.Mapped) (hsize : offset + size ≤ pageSize) :
    ∃ m', (useEntry e (fun entry m => { m with pageTable := m.pageTable.map (·.set i entry) })
      offset size writing).run m = .ok (.ok (e.physicalPage.toNat * pageSize + offset)) m' ∧
      Peeked m m' := by
  obtain ⟨-, hro, hframe⟩ := hm.pages e (List.mem_of_getElem? he)
  refine ⟨_, ?_, peeked_setEntry true (e.dirty || writing) he⟩
  have hfit : e.physicalPage.toNat * pageSize + offset + size ≤ memorySize :=
    calc e.physicalPage.toNat * pageSize + offset + size
        ≤ e.physicalPage.toNat * pageSize + pageSize := by omega
      _ = (e.physicalPage.toNat + 1) * pageSize := (Nat.succ_mul _ _).symm
      _ ≤ memorySize := Nat.mul_le_mul_right _ hframe
  unfold useEntry
  rw [hro, Bool.false_and, if_neg Bool.false_ne_true, if_neg (Nat.not_le.2 hframe), EStateM.run_bind]
  dsimp only
  change (assertM _ >>= _).run _ = _
  rw [run_assertM_bind, if_pos hfit]
  rfl

theorem translate_mapped {size : Nat} (writing : Bool) (hm : m.Mapped)
    (hv : m.physical v.toNat = some p) (h4 : size = 4 → v &&& 0x3#32 = 0)
    (h2 : size = 2 → v &&& 0x1#32 = 0) (hsize : v.toNat % pageSize + size ≤ pageSize) :
    ∃ m', (translate v size writing).run m = .ok (.ok p) m' ∧ Peeked m m' := by
  obtain ⟨f, hf, rfl⟩ := Option.map_eq_some_iff.1 hv
  rw [tableFrames, List.getElem?_map] at hf
  obtain ⟨e, he, rfl⟩ := Option.map_eq_some_iff.1 hf
  obtain ⟨m', hrun, hpeek⟩ := useEntry_mapped writing he hm hsize
  refine ⟨m', ?_, hpeek⟩
  have hlt : v.toNat / pageSize < m.pageTableSize := by
    rw [hm.size]
    exact (List.getElem?_eq_some_iff.1 he).1
  unfold translate
  rw [if_neg (by tauto), run_get_bind, run_assertM_bind, if_pos (.inl hm.tlb), run_assertM_bind,
    if_pos (.inr hm.table), hm.tlb]
  dsimp only
  rw [if_neg (Nat.not_le.2 hlt), he]
  dsimp only
  rw [(hm.pages e (List.mem_of_getElem? he)).1]
  exact hrun

theorem readMem_byte (cfg : Build) {b : Byte} (hm : m.Mapped) (hb : m.user v.toNat = some b) :
    ∃ m', (readMem cfg v 1).run m = .ok (b.signExtend 32) m' ∧ Peeked m m' := by
  obtain ⟨p, hp, rfl⟩ := Option.map_eq_some_iff.1 hb
  have hlt : v.toNat % pageSize < pageSize := Nat.mod_lt _ (by decide)
  obtain ⟨m', hrun, hpeek⟩ := translate_mapped false hm hp (by omega : 1 = 4 → _) (by omega) hlt
  refine ⟨m', ?_, hpeek⟩
  rw [readMem, run_step hrun]
  change EStateM.Result.ok ((m'.mainMemory p).signExtend 32) m' = _
  rw [hpeek.mem]

theorem readMem_word (cfg : Build) {w : Word} (hm : m.Mapped) (hal : v &&& 0x3#32 = 0)
    (hw : m.userWord cfg v.toNat = some w) :
    ∃ m', (readMem cfg v 4).run m = .ok w m' ∧ Peeked m m' := by
  obtain ⟨p, hp, rfl⟩ := Option.map_eq_some_iff.1 hw
  have hfit : v.toNat % pageSize + 4 ≤ pageSize := by
    have := mod_four_of_and hal
    rw [show pageSize = 128 from rfl]
    omega
  obtain ⟨m', hrun, hpeek⟩ := translate_mapped false hm hp (fun _ => hal) (by omega) hfit
  refine ⟨m', ?_, hpeek⟩
  rw [readMem, run_step hrun]
  change EStateM.Result.ok (wordToHost cfg (hostWord cfg m'.mainMemory p)) m' = _
  rw [hpeek.mem]

theorem writeMem_byte (cfg : Build) (v value : Word) (hm : m.Mapped)
    (hv : (m.user v.toNat).isSome) :
    ∃ m', (writeMem cfg v 1 value).run m = .ok () m' ∧ Touched m m' ∧
      m'.user = update m.user v.toNat (some (value.truncate 8)) := by
  rw [Machine.user, Option.isSome_map] at hv
  obtain ⟨p, hp⟩ := Option.isSome_iff_exists.1 hv
  have hlt : v.toNat % pageSize < pageSize := Nat.mod_lt _ (by decide)
  obtain ⟨m1, hrun, hpeek⟩ := translate_mapped true hm hp (by omega : 1 = 4 → _) (by omega) hlt
  have hbyte : ((value &&& 0xff#32).truncate 8 : Byte) = value.truncate 8 := by
    rw [BitVec.truncate, BitVec.setWidth_and]
    exact BitVec.and_allOnes
  refine ⟨{ m1 with mainMemory := writeBlock m1.mainMemory p [value.truncate 8] }, ?_,
    ⟨hpeek.registers, hpeek.physical, fun h => ?_⟩, ?_⟩
  · rw [writeMem, run_step hrun]
    rw [← hbyte]
    rfl
  · have h1 := hpeek.mapped h
    exact ⟨h1.tlb, h1.table, h1.size, h1.pages, h1.frames⟩
  · funext w
    change (m1.physical w).map (writeBlock m1.mainMemory p [value.truncate 8]) = _
    rw [hpeek.physical, hpeek.mem]
    rw [writeBlock_cons, writeBlock_nil]
    by_cases hw : w = v.toNat
    · subst hw
      rw [update_self, hp, Option.map_some, update_self]
    · rw [update_of_ne hw, Machine.user]
      cases hq : m.physical w with
      | none => rfl
      | some q =>
        have hne : q ≠ p := fun h => hw (physical_injective hm (h ▸ hq) hp)
        rw [Option.map_some, Option.map_some, update_of_ne hne]

end Nachos.Machine
