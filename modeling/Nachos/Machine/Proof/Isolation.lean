import Nachos.Machine.Proof.Execute

/-!
# A user program writes only in the frames of its page table

`Isolated m m'`: with a page table and no TLB, the machine `m'` has the frames of `m`'s table in its
table, and `m`'s memory in all other frames. A translation ends in a frame of the table
(`translate_ok`), so the two accesses keep it (`readMem_isolated`, `writeMem_isolated`), and with them
every instruction (`runInstruction_isolated`).

`runInstruction_undefined` says when the simulator itself does something undefined: when `LoadReg`
holds no register number, or on the division of the smallest `int` by minus one.
-/

namespace Nachos.Machine

open Base

/-! ## Translations -/

def tableFrames (m : Machine) : List Nat := (m.pageTable.getD []).map (·.physicalPage.toNat)

structure Isolated (m m' : Machine) : Prop where
  tlb : m.tlb = none → m'.tlb = none
  frames : m.tlb = none → m'.tableFrames = m.tableFrames
  size : m'.pageTableSize = m.pageTableSize
  mem : m.tlb = none → ∀ a, a / pageSize ∉ m.tableFrames → m'.mainMemory a = m.mainMemory a

instance : IsPreorder Machine Isolated where
  refl m := ⟨id, fun _ => rfl, rfl, fun _ _ _ => rfl⟩
  trans m1 m2 m3 h h' := by
    refine ⟨h'.tlb ∘ h.tlb, fun ht => ?_, h'.size.trans h.size, fun ht a ha => ?_⟩
    · rw [h'.frames (h.tlb ht), h.frames ht]
    · rw [h'.mem (h.tlb ht) a (by rw [h.frames ht]; exact ha), h.mem ht a ha]

theorem isolated_setReg (m : Machine) (r : Reg) (v : Word) : Isolated m (m.setReg r v) :=
  ⟨id, fun _ => rfl, rfl, fun _ _ _ => rfl⟩

variable {m m' : Machine} {e : TranslationEntry} {update : TranslationEntry → Machine → Machine}
    {size p : Nat} {writing : Bool} {virtAddr : Word}

theorem isolated_setEntry {i : Nat} {e' : TranslationEntry}
    (he : (m.pageTable.getD [])[i]? = some e) (hf : e'.physicalPage = e.physicalPage) :
    Isolated m { m with pageTable := m.pageTable.map (·.set i e') } where
  tlb := id
  frames _ := by
    unfold tableFrames
    cases hp : m.pageTable with
    | none => rfl
    | some pt =>
      rw [hp] at he
      simp only [Option.getD_some, Option.map_some] at he ⊢
      obtain ⟨hi, rfl⟩ := List.getElem?_eq_some_iff.1 he
      rw [List.map_set, hf, ← List.map_set (a := pt[i]), List.set_getElem_self]
  size := rfl
  mem _ _ _ := rfl

theorem useEntry_keeps {R : Machine → Machine → Prop} [IsPreorder Machine R] (offset size : Nat)
    (writing : Bool) (h : ∀ use dirty, R m (update { e with use, dirty } m)) :
    R m (final ((useEntry e update offset size writing).run m)) := by
  have hrefl := refl_of R m
  unfold useEntry
  split
  · exact hrefl
  · dsimp only
    split
    · exact hrefl
    · rw [EStateM.run_bind]
      have hup := h true (e.dirty || writing)
      have hassert := assertM_keeps (P := R m) (E := fun _ => R m) (fun _ hm => hm)
      exact Keeps.final_of (I := R m) (Keeps.bind (hassert _) fun _ => Keeps.pure _) hup

theorem run_assertM_bind {α : Type} (c : Prop) [Decidable c] (f : Unit → MachineM α) (m : Machine) :
    (assertM c >>= f).run m = if c then (f ()).run m else .error (.fault .assertion) m := by
  unfold assertM
  split <;> rfl

theorem translate_rel {R : Machine → Machine → Prop} [IsPreorder Machine R]
    (htable : ∀ m i e use dirty, (m.pageTable.getD [])[i]? = some e →
      R m { m with pageTable := m.pageTable.map (·.set i { e with use, dirty }) })
    (htlb : ∀ m tlb i e use dirty, m.tlb = some tlb → tlb[i]? = some e →
      R m { m with tlb := m.tlb.map (·.set i { e with use, dirty }) })
    (virtAddr : Word) (size : Nat) (writing : Bool) (m : Machine) :
    R m (final ((translate virtAddr size writing).run m)) := by
  have hrefl := refl_of R m
  unfold translate
  split
  · exact hrefl
  · rw [run_get_bind, run_assertM_bind, run_assertM_bind]
    split
    · split
      · cases ht : m.tlb with
        | none =>
          dsimp only
          split
          · exact hrefl
          · cases he : (m.pageTable.getD [])[virtAddr.toNat / pageSize]? with
            | none => exact hrefl
            | some e =>
              dsimp only
              split
              · exact hrefl
              · exact useEntry_keeps _ _ _ fun use dirty => htable m _ e use dirty he
        | some tlb =>
          dsimp only
          split
          · exact hrefl
          · split
            · exact hrefl
            · rename_i i _ _ e he
              exact useEntry_keeps _ _ _ fun use dirty => htlb m tlb i e use dirty ht he
      · exact hrefl
    · exact hrefl

theorem translate_isolated (virtAddr : Word) (size : Nat) (writing : Bool) (m : Machine) :
    Isolated m (final ((translate virtAddr size writing).run m)) := by
  refine translate_rel (fun m i e use dirty he => isolated_setEntry he rfl) ?_ _ _ _ _
  -- with a TLB there is nothing to keep but the size of the table
  intro m tlb i e use dirty ht _
  exact ⟨fun h => by simp [ht] at h, fun h => by simp [ht] at h, rfl, fun h => by simp [ht] at h⟩

structure SameContents (m m' : Machine) : Prop where
  registers : m'.registers = m.registers
  mem : m'.mainMemory = m.mainMemory

instance : IsPreorder Machine SameContents where
  refl _ := ⟨rfl, rfl⟩
  trans _ _ _ h h' := ⟨h'.1.trans h.1, h'.2.trans h.2⟩

theorem translate_contents (virtAddr : Word) (size : Nat) (writing : Bool) (m : Machine) :
    SameContents m (final ((translate virtAddr size writing).run m)) :=
  translate_rel (fun _ _ _ _ _ _ => ⟨rfl, rfl⟩) (fun _ _ _ _ _ _ _ _ => ⟨rfl, rfl⟩) _ _ _ _

theorem useEntry_ok {offset : Nat}
    (h : (useEntry e update offset size writing).run m = .ok (.ok p) m') :
    p = e.physicalPage.toNat * pageSize + offset := by
  unfold useEntry at h
  split at h
  · cases h
  · dsimp only at h
    split at h
    · cases h
    · obtain ⟨_, m1, -, h⟩ := run_bind_ok h
      obtain ⟨_, m2, -, h⟩ := run_bind_ok h
      cases h
      rfl

theorem translate_ok
    (ht : m.tlb = none) (h : (translate virtAddr size writing).run m = .ok (.ok p) m') :
    p / pageSize ∈ m.tableFrames ∧ p % pageSize = virtAddr.toNat % pageSize ∧
      (size = 4 → virtAddr &&& 0x3#32 = 0) ∧ (size = 2 → virtAddr &&& 0x1#32 = 0) := by
  unfold translate at h
  split at h
  · cases h
  · rename_i halign
    rw [run_get_bind, run_assertM_bind, run_assertM_bind] at h
    split at h
    · split at h
      · rw [ht] at h
        dsimp only at h
        split at h
        · cases h
        · cases he : (m.pageTable.getD [])[virtAddr.toNat / pageSize]? with
          | none =>
            rw [he] at h
            cases h
          | some e =>
            rw [he] at h
            dsimp only at h
            split at h
            · cases h
            · have hp := useEntry_ok h
              have hoff : virtAddr.toNat % pageSize < pageSize := Nat.mod_lt _ (by decide)
              refine ⟨?_, ?_, by tauto, by tauto⟩
              · refine List.mem_map.2 ⟨e, List.mem_of_getElem? he, ?_⟩
                rw [hp, Nat.mul_comm, Nat.mul_add_div (by decide), Nat.div_eq_of_lt hoff,
                  Nat.add_zero]
              · rw [hp, Nat.mul_comm, Nat.mul_add_mod, Nat.mod_mod]
      · cases h
    · cases h

/-! ## Accesses -/

theorem mod_four_of_and {v : Word} (h : v &&& 0x3#32 = 0) : v.toNat % 4 = 0 := by
  have := congrArg BitVec.toNat h
  rwa [BitVec.toNat_and, show (0x3#32 : Word).toNat = 2 ^ 2 - 1 by rfl,
    Nat.and_two_pow_sub_one_eq_mod] at this

theorem mod_two_of_and {v : Word} (h : v &&& 0x1#32 = 0) : v.toNat % 2 = 0 := by
  have := congrArg BitVec.toNat h
  rwa [BitVec.toNat_and, show (0x1#32 : Word).toNat = 2 ^ 1 - 1 by rfl,
    Nat.and_two_pow_sub_one_eq_mod] at this

theorem length_writtenBytes {cfg : Build} {value : Word} {bytes : List Byte}
    (h : writtenBytes cfg size value = .ok bytes) :
    bytes.length = size ∧ (size = 1 ∨ size = 2 ∨ size = 4) := by
  unfold writtenBytes at h
  split at h
  · cases h
    exact ⟨rfl, .inl rfl⟩
  · cases h
    unfold hostShortBytes
    dsimp only
    split <;> exact ⟨rfl, .inr (.inl rfl)⟩
  · cases h
    unfold hostWordBytes
    dsimp only
    split <;> exact ⟨rfl, .inr (.inr rfl)⟩
  · cases h

theorem frame_of_access
    (ht : m.tlb = none) (h : (translate virtAddr size writing).run m = .ok (.ok p) m')
    (hsize : size = 1 ∨ size = 2 ∨ size = 4) {a : Nat} (h1 : p ≤ a) (h₂ : a < p + size) :
    a / pageSize ∈ m.tableFrames := by
  obtain ⟨hf, hoff, h4, h2⟩ := translate_ok ht h
  have hm4 := fun hs => mod_four_of_and (h4 hs)
  have hm2 := fun hs => mod_two_of_and (h2 hs)
  have hpage : a / pageSize = p / pageSize := by
    simp only [pageSize] at *
    rcases hsize with hs | hs | hs
    · omega
    · have := hm2 hs
      omega
    · have := hm4 hs
      omega
  rw [hpage]
  exact hf

theorem readMem_final (cfg : Build) (addr : Word) (size : Nat) (m : Machine) :
    final ((readMem cfg addr size).run m) = final ((translate addr size false).run m) := by
  unfold readMem
  rw [EStateM.run_bind]
  cases (translate addr size false).run m with
  | error e m1 => rfl
  | ok r m1 =>
    cases r with
    | error e => rfl
    | ok p =>
      dsimp only
      rw [run_get_bind]
      cases readPhys cfg m1.mainMemory p size <;> rfl

theorem readMem_isolated (cfg : Build) (addr : Word) (size : Nat) (m : Machine) :
    Isolated m (final ((readMem cfg addr size).run m)) := by
  rw [readMem_final]
  exact translate_isolated addr size false m

theorem writeMem_isolated (cfg : Build) (addr : Word) (size : Nat) (value : Word) (m : Machine) :
    Isolated m (final ((writeMem cfg addr size value).run m)) := by
  unfold writeMem
  rw [EStateM.run_bind]
  have hiso := translate_isolated addr size true m
  cases htr : (translate addr size true).run m with
  | error e m1 =>
    rw [htr] at hiso
    exact hiso
  | ok r m1 =>
    rw [htr] at hiso
    cases r with
    | error e => exact hiso
    | ok p =>
      dsimp only
      rw [EStateM.run_bind]
      cases hb : writtenBytes cfg size value with
      | error f => exact hiso
      | ok bytes =>
        refine ⟨hiso.tlb, hiso.frames, hiso.size, fun ht a ha => ?_⟩
        change writeBlock m1.mainMemory p bytes a = m.mainMemory a
        obtain ⟨hlen, hsize⟩ := length_writtenBytes hb
        have hout : ¬ InBlock p bytes a := fun hin =>
          ha (frame_of_access ht htr hsize hin.1 (hlen ▸ hin.2))
        rw [writeBlock_of_not hout]
        exact hiso.mem ht a ha

theorem writeMem_registers (cfg : Build) (addr : Word) (size : Nat) (value : Word) (m : Machine) :
    (final ((writeMem cfg addr size value).run m)).registers = m.registers := by
  unfold writeMem
  rw [EStateM.run_bind]
  have hc := (translate_contents addr size true m).registers
  cases htr : (translate addr size true).run m with
  | error e m1 =>
    rw [htr] at hc
    exact hc
  | ok r m1 =>
    rw [htr] at hc
    cases r with
    | error e => exact hc
    | ok p =>
      dsimp only
      rw [EStateM.run_bind]
      cases writtenBytes cfg size value <;> exact hc

theorem routines_isolated (cfg : Build) (m0 : Machine) :
    Routines cfg (Isolated m0) (Isolated m0) (fun _ => Isolated m0) where
  weaken _ h := h
  reg r v _ := Keeps.modify fun m hm => trans_of Isolated hm (isolated_setReg m r v)
  read addr size := Keeps.of_rel (readMem_isolated cfg addr size) m0
  write addr size value := Keeps.of_rel (writeMem_isolated cfg addr size value) m0
  raise _ _ _ h := h
  assertion _ h := h

theorem runInstruction_isolated (cfg : Build) (m : Machine) :
    Isolated m (final ((runInstruction cfg).run m)) := by
  have hreg : ∀ r v, Keeps (Isolated m) (fun _ => Isolated m) (writeRegister r v) := fun r v =>
    Keeps.modify fun m' hm => trans_of Isolated hm (isolated_setReg m' r v)
  have hone := oneInstruction_triple (routines_isolated cfg m) hreg fun _ h => h
  refine Keeps.final_of (I := Isolated m) ?_ (refl_of Isolated m)
  refine runInstruction_triple hone (fun _ _ h => h) fun which badVAddr => ?_
  exact Keeps.bind (trap_keeps hreg (fun _ h _ => h) _) fun _ => Keeps.throw fun _ h => h

/-! ## What the host can do -/

/-- The machine's pointers are good: `LoadReg` holds a register number, and the page table has the
entries its size promises. -/
structure Sound (m : Machine) : Prop where
  load : (m.registers loadReg).toNat < numTotalRegs
  tlb : m.tlb = none
  table : m.pageTableSize ≤ (m.pageTable.getD []).length

theorem Sound.of_isolated (h : Sound m) (hi : Isolated m m')
    (hr : m'.registers = m.registers) : Sound m' where
  load := by rw [hr]; exact h.load
  tlb := hi.tlb h.tlb
  table := by
    have := congrArg List.length (hi.frames h.tlb)
    simp only [tableFrames, List.length_map] at this
    rw [hi.size, this]
    exact h.table

def Defined (e : Stop) (m : Machine) : Prop :=
  e = .fault .undefined → ∃ instr, DivOverflow instr m

theorem useEntry_defined {offset : Nat} :
    (useEntry e update offset size writing).run m ≠ .error (.fault .undefined) m' := by
  intro h
  unfold useEntry at h
  split at h
  · cases h
  · dsimp only at h
    split at h
    · cases h
    · rw [EStateM.run_bind] at h
      change (assertM _ >>= _).run _ = _ at h
      rw [run_assertM_bind] at h
      split at h <;> cases h

theorem translate_defined
    (hm : Sound m) : (translate virtAddr size writing).run m ≠ .error (.fault .undefined) m' := by
  intro h
  unfold translate at h
  split at h
  · cases h
  · rw [run_get_bind, run_assertM_bind, run_assertM_bind] at h
    split at h
    · split at h
      · rw [hm.tlb] at h
        dsimp only at h
        split at h
        · cases h
        · rename_i hlt
          have hlt' : virtAddr.toNat / pageSize < (m.pageTable.getD []).length :=
            Nat.lt_of_lt_of_le (Nat.lt_of_not_le hlt) hm.table
          rw [List.getElem?_eq_getElem hlt'] at h
          dsimp only at h
          split at h
          · cases h
          · exact useEntry_defined h
      · cases h
    · cases h

theorem translate_keeps_sound (virtAddr : Word) (size : Nat) (writing : Bool) :
    Keeps Sound (fun e m => Sound m ∧ Defined e m) (translate virtAddr size writing) := by
  intro m hm
  have hs := hm.of_isolated (translate_isolated virtAddr size writing m)
    (translate_contents virtAddr size writing m).registers
  cases hr : (translate virtAddr size writing).run m with
  | ok r m' =>
    rw [hr] at hs
    exact hs
  | error e m' =>
    rw [hr] at hs
    refine ⟨hs, ?_⟩
    rintro rfl
    exact absurd hr (translate_defined hm)

theorem liftFault_keeps_sound {α : Type} {x : Except Fault α} (h : x ≠ .error .undefined) :
    Keeps Sound (fun e m => Sound m ∧ Defined e m) (liftFault x) := by
  cases x with
  | ok a => exact Keeps.pure a
  | error f =>
    refine Keeps.throw fun m hm => ⟨hm, ?_⟩
    rintro ⟨⟩
    exact absurd rfl h

theorem readPhys_defined (cfg : Build) (mem : Memory) (p size : Nat) :
    readPhys cfg mem p size ≠ .error .undefined := by
  unfold readPhys
  split <;> simp

theorem writtenBytes_defined (cfg : Build) (size : Nat) (value : Word) :
    writtenBytes cfg size value ≠ .error .undefined := by
  unfold writtenBytes
  split <;> simp

theorem routines_defined (cfg : Build) :
    Routines cfg Sound Sound (fun e m => Sound m ∧ Defined e m) where
  weaken _ h := h
  reg r v hr := by
    refine Keeps.modify fun m hm => ⟨?_, hm.tlb, hm.table⟩
    rw [registers_setReg, if_neg]
    · exact hm.load
    · rintro rfl
      exact absurd hr (by decide)
  read addr size := by
    refine Keeps.bind (translate_keeps_sound _ _ _) fun r => ?_
    cases r with
    | error e => exact Keeps.throw fun m hm => ⟨hm, nofun⟩
    | ok p => exact Keeps.get_bind' fun m => liftFault_keeps_sound (readPhys_defined _ _ _ _)
  write addr size value := by
    refine Keeps.bind (translate_keeps_sound _ _ _) fun r => ?_
    cases r with
    | error e => exact Keeps.throw fun m hm => ⟨hm, nofun⟩
    | ok p =>
      refine Keeps.bind (liftFault_keeps_sound (writtenBytes_defined _ _ _)) fun bytes => ?_
      exact Keeps.modify fun m hm => ⟨hm.load, hm.tlb, hm.table⟩
  raise _ _ _ h := ⟨h, nofun⟩
  assertion _ h := ⟨h, nofun⟩

theorem writeRegister_any {E : Stop → Machine → Prop} (r : Reg) (v : Word) :
    Triple (fun _ => True) (writeRegister r v) (fun _ _ => True) E :=
  Triple.modify fun _ _ => trivial

theorem delayedLoad_defined {E : Stop → Machine → Prop} (r v : Word) :
    Triple Sound (delayedLoad r v) (fun _ _ => True) E := by
  refine Triple.get_bind fun m hm => Triple.bind (Q := fun _ _ => True) ?_ fun _ =>
    Triple.bind (writeRegister_any _ _) fun _ => Triple.bind (writeRegister_any _ _) fun _ =>
    writeRegister_any _ _
  rw [storeRegister, dif_pos hm.load]
  exact Triple.modify fun _ _ => trivial

theorem oneInstruction_defined (cfg : Build) :
    Triple Sound (oneInstruction cfg) (fun _ _ => True) (fun e m => Sound m ∧ Defined e m) := by
  have h := routines_defined cfg
  refine Triple.get_bind fun m hm => Triple.bind ((h.read _ _).at_state hm) fun raw => ?_
  refine Triple.get_bind fun m hm => Triple.bind (Keeps.at_state ?_ hm) fun p => ?_
  · exact execute_triple h _ _ fun m hm hdiv => ⟨hm, fun _ => ⟨_, hdiv⟩⟩
  · exact Triple.bind (delayedLoad_defined _ _) fun _ => Triple.get_bind' fun _ =>
      Triple.bind (writeRegister_any _ _) fun _ => Triple.get_bind' fun _ =>
      Triple.bind (writeRegister_any _ _) fun _ => writeRegister_any _ _

/-- **What the simulator cannot do**: from a sound machine an instruction does nothing undefined, but
for the division without a result. -/
theorem runInstruction_undefined {cfg : Build} (hm : Sound m)
    (h : (runInstruction cfg).run m = .error (.fault .undefined) m') :
    ∃ instr, DivOverflow instr m' := by
  have ht : Triple Sound (runInstruction cfg) (fun _ _ => True) Defined := by
    refine runInstruction_triple (oneInstruction_defined cfg) (fun f m h => h.2) ?_
    intro which badVAddr
    refine Triple.bind (Triple.bind (Q := fun _ => Sound) ?_ fun _ => delayedLoad_defined _ _)
      fun _ => Triple.throw fun _ _ => nofun
    refine Triple.modify fun m hm => ⟨?_, hm.1.tlb, hm.1.table⟩
    rw [registers_setReg, if_neg (by decide)]
    exact hm.1.load
  exact ht.stops hm h rfl

end Nachos.Machine
