import Nachos.Userprog.Proof.Frames
import Nachos.Userprog.Proof.Noff

/-!
# What the loader copies

`Load` is a list of block copies (`loadBlocks`): for each segment, in its order, one block of
`PageSize` bytes of the file for each page the segment's length fills, to the address its first byte
translates to.

* `physAddr`: the address a virtual address has under a page table; `translate_none` and
  `translate_some` say that `Translate` computes it on the tables the constructor makes (`Mapped`).
* `Loaded`: the loader after a list of blocks. `loadPage_spec` is one step of it, `loadSegment_spec` a
  segment and `load_spec` the whole of `Load`, which aborts at the first block with a negative file
  position.
-/

namespace Nachos.AddrSpace

open Base

/-! ## Translation -/

structure Mapped (s : AddrSpace) : Prop where
  frame : ∀ e ∈ s.pageTable, e.physicalPage.toNat < numPhysPages
  writable : ∀ e ∈ s.pageTable, e.readOnly = false

def physAddr (frames : List Nat) (v : Nat) : Option Nat :=
  frames[v / pageSize]?.map (· * pageSize + v % pageSize)

variable {v p : Nat} {s : AddrSpace}

theorem physAddr_eq_some {frames : List Nat} : physAddr frames v = some p ↔
      ∃ fr, frames[v / pageSize]? = some fr ∧ p = fr * pageSize + v % pageSize := by
  simp only [physAddr, Option.map_eq_some_iff]
  exact ⟨fun ⟨fr, h, e⟩ => ⟨fr, h, e.symm⟩, fun ⟨fr, h, e⟩ => ⟨fr, h, e.symm⟩⟩

theorem physAddr_isSome (h : v < s.numPages * pageSize) : ∃ p, physAddr s.frames v = some p := by
  have hv : v / pageSize < s.frames.length := by
    rw [length_frames]
    exact Nat.div_lt_of_lt_mul (by rw [Nat.mul_comm]; exact h)
  exact ⟨_, physAddr_eq_some.2 ⟨_, List.getElem?_eq_getElem hv, rfl⟩⟩

theorem lt_of_physAddr (h : physAddr s.frames v = some p) : v < s.numPages * pageSize := by
  obtain ⟨fr, hfr, -⟩ := physAddr_eq_some.1 h
  have hl := (List.getElem?_eq_some_iff.1 hfr).1
  rw [length_frames] at hl
  exact (Nat.div_lt_iff_lt_mul (by decide)).1 hl

theorem div_of_physAddr {frames : List Nat} (h : physAddr frames v = some p) :
    frames[v / pageSize]? = some (p / pageSize) ∧ p % pageSize = v % pageSize := by
  obtain ⟨fr, hfr, rfl⟩ := physAddr_eq_some.1 h
  have hm : v % pageSize < pageSize := Nat.mod_lt _ (by decide)
  have hd : (fr * pageSize + v % pageSize) / pageSize = fr := by
    rw [Nat.add_comm, Nat.add_mul_div_right _ _ (by decide), Nat.div_eq_of_lt hm, Nat.zero_add]
  have hr : (fr * pageSize + v % pageSize) % pageSize = v % pageSize := by
    rw [Nat.add_comm, Nat.add_mul_mod_self_right, Nat.mod_mod]
  exact ⟨by rw [hd]; exact hfr, hr⟩

theorem Mapped.frame_lt (h : s.Mapped) {i fr : Nat} (hfr : s.frames[i]? = some fr) :
    fr < numPhysPages := by
  obtain ⟨e, he, rfl⟩ := List.mem_map.1 (List.mem_of_getElem? hfr)
  exact h.frame e he

theorem translate_none {v : Word} {isReadWrite : Bool} (h : physAddr s.frames v.toNat = none) :
    s.translate v isReadWrite = .ok (.error .addressErrorException) := by
  have hn : s.pageTable[v.toNat / pageSize]? = none := by
    simpa [physAddr, frames] using h
  simp only [translate, hn, pure_eq_ok]

theorem translate_some {v : Word} (hs : s.Mapped)
    (h : physAddr s.frames v.toNat = some p) (isReadWrite : Bool) :
    ∃ s', s.translate v isReadWrite = .ok (.ok (BitVec.ofNat 32 p, s')) ∧ s'.Mapped ∧
      s'.frames = s.frames ∧ p < memorySize := by
  obtain ⟨fr, hfr, rfl⟩ := physAddr_eq_some.1 h
  have hlt := hs.frame_lt hfr
  simp only [frames, List.getElem?_map, Option.map_eq_some_iff] at hfr
  obtain ⟨e, he, rfl⟩ := hfr
  have hem := List.mem_of_getElem? he
  have hint : ¬ (numPhysPages : Int) ≤ e.physicalPage.toInt := by
    rw [BitVec.toInt_eq_toNat_of_lt (by simp only [numPhysPages] at hlt; omega)]
    omega
  have hm : v.toNat % pageSize < pageSize := Nat.mod_lt _ (by decide)
  have hmem : e.physicalPage.toNat * pageSize + v.toNat % pageSize < memorySize := by
    simp only [numPhysPages, pageSize, memorySize] at *; omega
  have hp : (e.physicalPage * BitVec.ofNat 32 pageSize + BitVec.ofNat 32 (v.toNat % pageSize)) =
      BitVec.ofNat 32 (e.physicalPage.toNat * pageSize + v.toNat % pageSize) := by
    rw [BitVec.ofNat_add, BitVec.ofNat_mul, BitVec.ofNat_toNat, BitVec.setWidth_eq]
  have hpn : (BitVec.ofNat 32 (e.physicalPage.toNat * pageSize + v.toNat % pageSize)).toNat =
      e.physicalPage.toNat * pageSize + v.toNat % pageSize := by
    rw [BitVec.toNat_ofNat]
    exact Nat.mod_eq_of_lt (Nat.lt_trans hmem (by decide))
  simp only [translate, he, hs.writable e hem, Bool.and_false, Bool.false_eq_true, if_false, hint, hp, hpn,
    assert_of hmem, ok_bind, pure_eq_ok]
  refine ⟨_, rfl, ⟨fun e' h' => ?_, fun e' h' => ?_⟩, ?_, hmem⟩
  · rcases List.mem_or_eq_of_mem_set h' with h' | rfl
    · exact hs.frame e' h'
    · exact hs.frame e hem
  · rcases List.mem_or_eq_of_mem_set h' with h' | rfl
    · exact hs.writable e' h'
    · rfl
  · obtain ⟨hi, rfl⟩ := List.getElem?_eq_some_iff.1 he
    simp only [frames, List.map_set]
    rw [← List.map_set (a := s.pageTable[v.toNat / pageSize]), List.set_getElem_self]

/-! ## The blocks of a program -/

/-- One copy of the loader: the virtual address and the file position of a block. -/
structure Block where
  vaddr : Word
  inFile : Word
  deriving DecidableEq

def segmentBlocks (seg : Segment) : List Block :=
  if 0 < seg.size.toInt then
    (List.range (divRoundUp seg.size.toNat pageSize)).map fun i =>
      ⟨seg.virtualAddr + BitVec.ofNat 32 (i * pageSize),
        seg.inFileAddr + BitVec.ofNat 32 (i * pageSize)⟩
  else []

/-- The blocks of a program, in the order `Load` copies them. -/
def loadBlocks (noffH : NoffHeader) : List Block := (loadedSegments noffH).flatMap segmentBlocks

/-- `Lseek` takes the block's file position; else it aborts. -/
def Block.hasPosition (b : Block) : Bool := decide (0 ≤ b.inFile.toInt)

/-- The blocks `Load` copies until it returns or aborts. -/
def copiedBlocks (noffH : NoffHeader) : List Block := (loadBlocks noffH).takeWhile Block.hasPosition

def Block.bytes (f : OpenFile) (b : Block) : List Byte := (f.bytes.drop b.inFile.toNat).take pageSize

structure CopyOf (s : AddrSpace) (f : OpenFile) (b : Block) (c : Copy) : Prop where
  bytes : c.bytes = b.bytes f
  dest : ∀ p, physAddr s.frames b.vaddr.toNat = some p → c.translation = .noException ∧ c.dest.toNat = p
  invalid : physAddr s.frames b.vaddr.toNat = none → c.translation = .addressErrorException

structure Loaded (s : AddrSpace) (f : OpenFile) (mem : Memory) (done : List Block) (l : Loading) :
    Prop where
  mapped : l.space.Mapped
  frames : l.space.frames = s.frames
  mem : l.mem = writeBlocks mem (l.copies.map fun c => (c.dest.toNat, c.bytes))
  copies : List.Forall₂ (CopyOf s f) done l.copies

section
variable {s : AddrSpace} {f : OpenFile} {mem : Memory} {done : List Block} {l l' : Loading}

theorem readAt_eq (f : OpenFile) (n : Nat) {position : Word} (h : 0 ≤ position.toInt) :
    f.readAt n position = .ok ((f.bytes.drop position.toNat).take n) := by
  rw [OpenFile.readAt, assert_of h]
  rfl

theorem Loaded.translate (h : Loaded s f mem done l) (b : Block) :
    ∃ t l', l.translate b.vaddr = .ok (t, l') ∧ Loaded s f mem done l' ∧
      CopyOf s f b ⟨t, l'.translatedAddr, b.bytes f⟩ := by
  unfold Loading.translate
  cases hp : physAddr s.frames b.vaddr.toNat with
  | none =>
    rw [translate_none (by rw [h.frames, hp])]
    exact ⟨_, _, rfl, h, rfl, fun p hp' => by simp [hp] at hp', fun _ => rfl⟩
  | some p =>
    obtain ⟨s', ht, hm, hf, hlt⟩ := translate_some h.mapped
      (by rw [h.frames, hp]) true
    rw [ht]
    refine ⟨_, _, rfl, ⟨hm, hf.trans h.frames, h.mem, h.copies⟩, rfl, fun p' hp' => ⟨rfl, ?_⟩,
      fun hp' => by simp [hp] at hp'⟩
    rw [hp, Option.some.injEq] at hp'
    rw [← hp', BitVec.toNat_ofNat]
    exact Nat.mod_eq_of_lt (Nat.lt_trans hlt (by decide))

theorem Loaded.snoc {b : Block} {t : ExceptionType} (h : Loaded s f mem done l)
    (hc : CopyOf s f b ⟨t, l.translatedAddr, b.bytes f⟩) :
    Loaded s f mem (done ++ [b]) { l with
      mem := writeBlock l.mem l.translatedAddr.toNat (b.bytes f)
      copies := l.copies ++ [⟨t, l.translatedAddr, b.bytes f⟩] } where
  mapped := h.mapped
  frames := h.frames
  mem := by simp only [List.map_append, List.map_singleton, writeBlocks_append,
    writeBlocks_singleton, ← h.mem]
  copies := List.rel_append h.copies (.cons hc .nil)

theorem loadPage_spec (start va : Word) (i : Nat) (h : Loaded s f mem done l) :
    Until (Loaded s f mem) Block.hasPosition done
      [⟨va + BitVec.ofNat 32 (i * pageSize), start + BitVec.ofNat 32 (i * pageSize)⟩]
      (loadPage f start va l i) := by
  obtain ⟨t, l1, ht, h1, hc⟩ := h.translate
    ⟨va + BitVec.ofNat 32 (i * pageSize), start + BitVec.ofNat 32 (i * pageSize)⟩
  unfold loadPage
  rw [ht]
  by_cases hq : 0 ≤ (start + BitVec.ofNat 32 (i * pageSize)).toInt
  · have hread := readAt_eq f pageSize hq
    simp only [Except.mapError, hread, ok_bind, pure_eq_ok]
    exact .single_ok (decide_eq_true hq) (h1.snoc hc)
  · simp only [Except.mapError, OpenFile.readAt, assert_not hq, ok_bind, error_bind]
    exact .single_error (decide_eq_false hq) h1

theorem loadSegment_spec (seg : Segment × Word) (h : Loaded s f mem done l) :
    Until (Loaded s f mem) Block.hasPosition done (segmentBlocks seg.1) (loadSegment f l seg) := by
  unfold loadSegment segmentBlocks
  split
  · rw [List.map_eq_flatMap]
    exact foldlM_until _ (fun pre b i hb => loadPage_spec _ _ i hb) _ done
      { l with translatedAddr := seg.2 } ⟨h.mapped, h.frames, h.mem, h.copies⟩
  · exact ⟨by simpa [reached, pure_eq_ok] using h, by simp [pure_eq_ok]⟩

/-- **`Load` as a list of copies**: it returns exactly when every block has a file position, and the
copies it has made are the blocks of the program, up to the first without one. -/
theorem load_spec {cfg : Build} {noffH : NoffHeader} {junk : Memory}
    (hh : readHeader cfg junk f = .ok noffH) (hs : s.Mapped) (hn : s.numPages ≤ numPhysPages)
    (stale : Nat → Word) (mem : Memory) :
    Until (Loaded s f mem) Block.hasPosition [] (loadBlocks noffH) (s.load cfg junk stale f mem) := by
  have hz : ((loadedSegments noffH).zip [stale 0, stale 1, stale 2]).flatMap
      (segmentBlocks ·.1) = loadBlocks noffH := by
    simp [loadBlocks, loadedSegments]
  unfold load
  rw [assert_of hn, hh, ← hz]
  exact foldlM_until _ (fun pre l seg hl => loadSegment_spec seg hl) _ [] _ ⟨hs, rfl, rfl, .nil⟩

theorem load_reached {cfg : Build} {noffH : NoffHeader} {junk : Memory}
    (hh : readHeader cfg junk f = .ok noffH) (hs : s.Mapped) (hn : s.numPages ≤ numPhysPages)
    (stale : Nat → Word) (mem : Memory) :
    Loaded s f mem (copiedBlocks noffH) (reached (s.load cfg junk stale f mem)) :=
  (load_spec hh hs hn stale mem).upTo

end

end Nachos.AddrSpace
