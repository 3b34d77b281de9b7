import Nachos.Userprog.Proof.Confinement

/-!
# The image of a loaded program

What a program finds in its memory after `Load`. A block of the loader is a whole page of the file:
the part of it behind the end of its segment is copied too, and the part behind the end of its frame
lands in the next frame of memory instead of the next page. A block that comes later overwrites one
that came before.

* `WellFormed`: the programs the loader is meant for; `wanted`: the byte a virtual address of such a
  program should hold.
* `Lands`: the address that a byte of the file gets, from the header and the frames of the space. The
  image is right exactly when the byte that lands last on an address is the wanted one (`PlacedAt`,
  `loadsImage_iff`).
* `placedAt_iff_zeroPadded`: when segments start on pages, that is when the file has zeroes behind
  each segment up to the end of its last page.
* `load_image_iff` puts the two together, and `load_uninitData_not_zero` is a program whose
  uninitialised data does not start as zero.
-/

namespace Nachos

open Base

def Segment.Contains (seg : Segment) (v : Nat) : Prop :=
  seg.virtualAddr.toNat ≤ v ∧ v < seg.virtualAddr.toNat + seg.size.toNat

instance (seg : Segment) (v : Nat) : Decidable (seg.Contains v) :=
  inferInstanceAs (Decidable (_ ∧ _))

def Segment.Apart (a b : Segment) : Prop := ∀ v, ¬ (a.Contains v ∧ b.Contains v)

instance : Std.Symm Segment.Apart := ⟨fun _ _ h v hv => h v hv.symm⟩

def NoffHeader.segments (noffH : NoffHeader) : List Segment :=
  AddrSpace.loadedSegments noffH ++ [noffH.uninitData]

/-- A program for an address space of `numPages` pages: segments with a length, apart from each
other and inside the space, and the loaded ones inside the file. -/
structure NoffHeader.WellFormed (noffH : NoffHeader) (f : OpenFile) (numPages : Nat) : Prop where
  size : ∀ seg ∈ noffH.segments, 0 ≤ seg.size.toInt
  disjoint : noffH.segments.Pairwise Segment.Apart
  inside : ∀ seg ∈ noffH.segments, 0 < seg.size.toNat →
    seg.virtualAddr.toNat + seg.size.toNat ≤ numPages * pageSize
  inFile : ∀ seg ∈ AddrSpace.loadedSegments noffH, 0 < seg.size.toNat →
    seg.inFileAddr.toNat + seg.size.toNat ≤ f.bytes.length
  length : f.bytes.length < 2 ^ 31

namespace AddrSpace

/-- The byte virtual address `v` should hold: the file's in a loaded segment, zero elsewhere. -/
def wanted (noffH : NoffHeader) (f : OpenFile) (v : Nat) : Option Byte :=
  match (loadedSegments noffH).find? (decide <| ·.Contains v) with
  | some seg => f.bytes[seg.inFileAddr.toNat + (v - seg.virtualAddr.toNat)]?
  | none => some 0

def readVirtual (s : AddrSpace) (mem : Memory) (v : Word) : Option Byte :=
  match s.translate v false with
  | .ok (.ok (paddr, _)) => some (mem paddr.toNat)
  | _ => none

theorem readVirtual_eq {s : AddrSpace} (h : s.Mapped) (mem : Memory) {v : Word} {p : Nat}
    (hp : physAddr s.frames v.toNat = some p) : s.readVirtual mem v = some (mem p) := by
  obtain ⟨s', ht, -, -, hlt⟩ := translate_some h hp false
  have : (BitVec.ofNat 32 p).toNat = p :=
    (BitVec.toNat_ofNat ..).trans (Nat.mod_eq_of_lt (Nat.lt_trans hlt (by decide)))
  rw [readVirtual, ht]
  dsimp only
  rw [this]

/-! ## The blocks of a well-formed program -/

structure BlockAt (seg : Segment) (i : Nat) (b : Block) : Prop where
  lt : i * pageSize < seg.size.toNat
  vaddr : b.vaddr.toNat = seg.virtualAddr.toNat + i * pageSize
  inFile : b.inFile.toNat = seg.inFileAddr.toNat + i * pageSize
  nonneg : 0 ≤ b.inFile.toInt

theorem getElem?_bytes (f : OpenFile) (b : Block) {j : Nat} (h : j < pageSize) :
    (b.bytes f)[j]? = f.bytes[b.inFile.toNat + j]? := by
  rw [Block.bytes, List.getElem?_take_of_lt h, List.getElem?_drop]

section
variable {noffH : NoffHeader} {f : OpenFile} {s : AddrSpace} {seg : Segment} {v i p : Nat}
    {b : Block}

theorem mem_segments (h : seg ∈ loadedSegments noffH) : seg ∈ noffH.segments :=
  List.mem_append_left _ h

theorem eq_of_contains (hw : noffH.WellFormed f s.numPages) {seg' : Segment}
    (h : seg ∈ loadedSegments noffH) (h' : seg' ∈ loadedSegments noffH)
    (hv : seg.Contains v) (hv' : seg'.Contains v) : seg = seg' := by
  by_contra hne
  exact hw.disjoint.forall (mem_segments h) (mem_segments h') hne v ⟨hv, hv'⟩

theorem wanted_of_contains (hw : noffH.WellFormed f s.numPages)
    (h : seg ∈ loadedSegments noffH) (hv : seg.Contains v) :
    wanted noffH f v = f.bytes[seg.inFileAddr.toNat + (v - seg.virtualAddr.toNat)]? := by
  unfold wanted
  cases hf : (loadedSegments noffH).find? (decide <| ·.Contains v) with
  | none => simpa [hv] using List.find?_eq_none.1 hf seg h
  | some seg' =>
    have hv' : seg'.Contains v := by simpa using List.find?_some hf
    rw [eq_of_contains hw h (List.mem_of_find?_eq_some hf) hv hv']

theorem wanted_of_not (h : ∀ seg ∈ loadedSegments noffH, ¬ seg.Contains v) :
    wanted noffH f v = some 0 := by
  unfold wanted
  rw [List.find?_eq_none.2 (by simpa using h)]

section

variable (hs : Built noffH f s) (hw : noffH.WellFormed f s.numPages)
    (h : seg ∈ loadedSegments noffH)
include hs hw h

theorem blockAt (hi : i * pageSize < seg.size.toNat) :
    BlockAt seg i ⟨seg.virtualAddr + BitVec.ofNat 32 (i * pageSize),
      seg.inFileAddr + BitVec.ofNat 32 (i * pageSize)⟩ := by
  have hin := hw.inside seg (mem_segments h) (by omega)
  have hfile := hw.inFile seg h (by omega)
  have hlen := hw.length
  have hn := Nat.mul_le_mul_right pageSize hs.numPages_le
  have hmem : numPhysPages * pageSize < 2 ^ 31 := by decide
  have hv : (BitVec.ofNat 32 (i * pageSize)).toNat = i * pageSize := by
    rw [BitVec.toNat_ofNat]; exact Nat.mod_eq_of_lt (by omega)
  have hq : (seg.inFileAddr + BitVec.ofNat 32 (i * pageSize)).toNat =
      seg.inFileAddr.toNat + i * pageSize := by
    rw [BitVec.toNat_add, hv]; exact Nat.mod_eq_of_lt (by omega)
  refine ⟨hi, ?_, hq, ?_⟩
  · rw [BitVec.toNat_add, hv]; exact Nat.mod_eq_of_lt (by omega)
  · rw [BitVec.toInt_eq_toNat_of_lt (by dsimp only; omega)]; omega

theorem exists_blockAt (hb : b ∈ segmentBlocks seg) :
    ∃ i < divRoundUp seg.size.toNat pageSize, BlockAt seg i b := by
  unfold segmentBlocks at hb
  split at hb
  · obtain ⟨i, hi, rfl⟩ := List.mem_map.1 hb
    have hi := List.mem_range.1 hi
    exact ⟨i, hi, blockAt hs hw h (mul_lt_of_lt_divRoundUp (by decide) hi)⟩
  · exact absurd hb List.not_mem_nil

end

theorem mem_segmentBlocks (hw : noffH.WellFormed f s.numPages) (h : seg ∈ loadedSegments noffH)
    (hi : i < divRoundUp seg.size.toNat pageSize) :
    ⟨seg.virtualAddr + BitVec.ofNat 32 (i * pageSize),
      seg.inFileAddr + BitVec.ofNat 32 (i * pageSize)⟩ ∈ segmentBlocks seg := by
  have hlt := mul_lt_of_lt_divRoundUp (by decide) hi
  have hsize := hw.size seg (mem_segments h)
  have hcond := BitVec.toInt_eq_toNat_cond seg.size
  rw [segmentBlocks, if_pos (by split at hcond <;> omega)]
  exact List.mem_map.2 ⟨i, List.mem_range.2 hi, rfl⟩

theorem BlockAt.exists_physAddr (hw : noffH.WellFormed f s.numPages) (h : seg ∈ loadedSegments noffH)
    (hb : BlockAt seg i b) : ∃ p, physAddr s.frames b.vaddr.toNat = some p := by
  have hin := hw.inside seg (mem_segments h) (by have := hb.lt; omega)
  refine physAddr_isSome ?_
  have := hb.vaddr
  have := hb.lt
  omega

theorem mem_loadBlocks :
    b ∈ loadBlocks noffH ↔ ∃ seg ∈ loadedSegments noffH, b ∈ segmentBlocks seg :=
  List.mem_flatMap

theorem load_wellFormed (hs : Built noffH f s) (hw : noffH.WellFormed f s.numPages) {cfg : Build}
    {junk : Memory} (hh : readHeader cfg junk f = .ok noffH) (stale : Nat → Word) (mem : Memory) :
    ∃ r, s.load cfg junk stale f mem = .ok r ∧ r.space.Mapped ∧ r.space.frames = s.frames ∧
      r.mem = writeBlocks mem ((loadBlocks noffH).map (Block.write s.frames f)) := by
  obtain ⟨r, hr, hl⟩ := (load_spec hh hs.mapped hs.numPages_le stale mem).ok fun b hb => by
    obtain ⟨seg, hseg, hbs⟩ := mem_loadBlocks.1 hb
    obtain ⟨i, -, hi⟩ := exists_blockAt hs hw hseg hbs
    exact decide_eq_true hi.nonneg
  rw [List.nil_append] at hl
  refine ⟨r, hr, hl.mapped, hl.frames, hl.mem_eq fun b hb _ => ?_⟩
  obtain ⟨seg, hseg, hbs⟩ := mem_loadBlocks.1 hb
  obtain ⟨i, -, hi⟩ := exists_blockAt hs hw hseg hbs
  obtain ⟨p, hp⟩ := hi.exists_physAddr hw hseg
  simp [hp]

/-! ## Where the bytes of the file land -/

/-- Byte `q` of the pages that the length of a segment fills lands on address `v`, if the file has the
byte. That is its own address up to the end of the page in which its block starts; from there on it is
the address in the page that has the next frame of memory. -/
structure Lands (frames : List Nat) (f : OpenFile) (seg : Segment) (q v : Nat) : Prop where
  page : q < divRoundUp seg.size.toNat pageSize * pageSize
  inFile : seg.inFileAddr.toNat + q < f.bytes.length
  address : if seg.virtualAddr.toNat % pageSize + q % pageSize < pageSize then
      v = seg.virtualAddr.toNat + q
    else v % pageSize = (seg.virtualAddr.toNat + q) % pageSize ∧
      ∃ fr, frames[(seg.virtualAddr.toNat + q) / pageSize - 1]? = some fr ∧
        frames[v / pageSize]? = some (fr + 1)

/-- Address `v` gets its byte: what lands there last, or the zero of the constructor. -/
structure PlacedAt (frames : List Nat) (f : OpenFile) (noffH : NoffHeader) (v : Nat) : Prop where
  last : ∀ pre seg post q, loadedSegments noffH = pre ++ seg :: post → Lands frames f seg q v →
    (∀ seg' ∈ post, ∀ q', ¬ Lands frames f seg' q' v) →
    f.bytes[seg.inFileAddr.toNat + q]? = wanted noffH f v
  zero : (∀ seg ∈ loadedSegments noffH, ∀ q, ¬ Lands frames f seg q v) → wanted noffH f v = some 0

theorem Built.page_eq (hs : Built noffH f s) {i j fr : Nat} (hi : s.frames[i]? = some fr)
    (hj : s.frames[j]? = some fr) : i = j := by
  obtain ⟨h1, e1⟩ := List.getElem?_eq_some_iff.1 hi
  obtain ⟨h2, e2⟩ := List.getElem?_eq_some_iff.1 hj
  exact hs.nodup.getElem_inj_iff.1 (e1.trans e2.symm)

theorem address_iff (hs : Built noffH f s) {va q d : Nat} (hp : physAddr s.frames v = some p)
    (hd : physAddr s.frames (va + q / pageSize * pageSize) = some d) :
    (if va % pageSize + q % pageSize < pageSize then v = va + q
      else v % pageSize = (va + q) % pageSize ∧
        ∃ fr, s.frames[(va + q) / pageSize - 1]? = some fr ∧ s.frames[v / pageSize]? = some (fr + 1)) ↔
      p = d + q % pageSize := by
  obtain ⟨fr, hfr, rfl⟩ := physAddr_eq_some.1 hp
  obtain ⟨fr', hfr', rfl⟩ := physAddr_eq_some.1 hd
  -- frames belong to one page each
  have hsame : fr = fr' ↔ v / pageSize = (va + q / pageSize * pageSize) / pageSize := by
    refine ⟨fun he => hs.page_eq (he ▸ hfr) hfr', fun he => ?_⟩
    rw [he, hfr'] at hfr
    exact (Option.some.inj hfr).symm
  split
  · simp only [pageSize] at *
    constructor
    · intro hv
      have := hsame.2 (by omega)
      omega
    · intro hv
      have := hsame.1 (by omega)
      omega
  · have hpage : (va + q) / pageSize - 1 = (va + q / pageSize * pageSize) / pageSize := by
      simp only [pageSize] at *
      omega
    simp only [hpage, hfr, hfr', Option.some.injEq, exists_eq_left']
    simp only [pageSize] at *
    omega

section

variable {q : Nat} (hs : Built noffH f s) (hw : noffH.WellFormed f s.numPages)
    (h : seg ∈ loadedSegments noffH) (hp : physAddr s.frames v = some p)
include hs hw h hp

theorem Lands.block (hl : Lands s.frames f seg q v) : ∃ b ∈ segmentBlocks seg,
    InBlock (b.write s.frames f).1 (b.write s.frames f).2 p ∧
      p = (b.write s.frames f).1 + q % pageSize ∧
      b.vaddr.toNat = seg.virtualAddr.toNat + q / pageSize * pageSize := by
  have hi := (Nat.div_lt_iff_lt_mul (by decide)).2 hl.page
  have hb := blockAt hs hw h (mul_lt_of_lt_divRoundUp (by decide) hi)
  obtain ⟨d, hd⟩ := hb.exists_physAddr hw h
  refine ⟨_, mem_segmentBlocks hw h hi, ?_⟩
  have hpd := (address_iff hs hp (hb.vaddr ▸ hd)).1 hl.address
  have hin := hb.inFile
  have hfile := hl.inFile
  have hmod := Nat.mod_lt q (show 0 < pageSize by decide)
  have hdm := Nat.div_add_mod q pageSize
  dsimp only at hin
  simp only [Block.write, hd, Option.getD_some, InBlock, Block.bytes, List.length_take, List.length_drop]
  rw [Nat.mul_comm] at hdm
  exact ⟨by omega, hpd, hb.vaddr⟩

theorem lands_of_block (hb : b ∈ segmentBlocks seg)
    (hin : InBlock (b.write s.frames f).1 (b.write s.frames f).2 p) :
    ∃ q, Lands s.frames f seg q v ∧
      (b.bytes f)[p - (b.write s.frames f).1]? = f.bytes[seg.inFileAddr.toNat + q]? := by
  obtain ⟨i, hi, hb⟩ := exists_blockAt hs hw h hb
  obtain ⟨d, hd⟩ := hb.exists_physAddr hw h
  have hfile := hb.inFile
  simp only [Block.write, hd, Option.getD_some, InBlock] at hin ⊢
  have hlen : p - d < pageSize ∧ b.inFile.toNat + (p - d) < f.bytes.length := by
    simp only [Block.bytes, List.length_take, List.length_drop] at hin
    omega
  have hdiv : (i * pageSize + (p - d)) / pageSize = i := by
    rw [Nat.add_comm, Nat.add_mul_div_right _ _ (by decide), Nat.div_eq_of_lt hlen.1, Nat.zero_add]
  have hmod : (i * pageSize + (p - d)) % pageSize = p - d := by
    rw [Nat.add_comm, Nat.add_mul_mod_self_right, Nat.mod_eq_of_lt hlen.1]
  refine ⟨i * pageSize + (p - d), ⟨?_, by omega, ?_⟩, ?_⟩
  · rw [← Nat.div_lt_iff_lt_mul (by decide), hdiv]
    exact hi
  · refine (address_iff hs hp (d := d) (by rw [hdiv, ← hb.vaddr, hd])).2 ?_
    rw [hmod]
    omega
  · rw [getElem?_bytes f b hlen.1, hfile, Nat.add_assoc]

theorem Lands.unique {q' : Nat} (hl : Lands s.frames f seg q v) (hl' : Lands s.frames f seg q' v) :
    q = q' := by
  obtain ⟨b, hb, hin, hq, hv⟩ := hl.block hs hw h hp
  obtain ⟨b', hb', hin', hq', hv'⟩ := hl'.block hs hw h hp
  obtain ⟨i, -, hbi⟩ := exists_blockAt hs hw h hb
  obtain ⟨i', -, hbi'⟩ := exists_blockAt hs hw h hb'
  obtain ⟨d, hd⟩ := hbi.exists_physAddr hw h
  obtain ⟨d', hd'⟩ := hbi'.exists_physAddr hw h
  simp only [Block.write, hd, hd', Option.getD_some] at hq hq'
  obtain ⟨fr, hfr, rfl⟩ := physAddr_eq_some.1 hd
  obtain ⟨fr', hfr', rfl⟩ := physAddr_eq_some.1 hd'
  simp only [pageSize] at *
  obtain rfl : fr = fr' := by omega
  have := hs.page_eq hfr hfr'
  omega

theorem writeSegment_of_lands (hl : Lands s.frames f seg q v) (mem : Memory) :
    some (writeBlocks mem ((segmentBlocks seg).map (Block.write s.frames f)) p) =
      f.bytes[seg.inFileAddr.toNat + q]? := by
  rw [some_writeBlocks]
  cases hlast : lastBlock ((segmentBlocks seg).map (Block.write s.frames f)) p with
  | none =>
    obtain ⟨b, hb, hin, -⟩ := hl.block hs hw h hp
    exact absurd hin (lastBlock_eq_none.1 hlast _ (List.mem_map.2 ⟨b, hb, rfl⟩))
  | some w =>
    obtain ⟨hmem, hin⟩ := inBlock_of_lastBlock hlast
    obtain ⟨b, hb, rfl⟩ := List.mem_map.1 hmem
    obtain ⟨q', hl', hbyte⟩ := lands_of_block hs hw h hp hb hin
    rw [hl.unique hs hw h hp hl']
    exact hbyte

end

section

variable (hs : Built noffH f s) (hw : noffH.WellFormed f s.numPages)
    (hp : physAddr s.frames v = some p)
include hs hw hp

theorem writeSegments_of_not {segs : List Segment} (hsub : segs ⊆ loadedSegments noffH)
    (hno : ∀ seg ∈ segs, ∀ q, ¬ Lands s.frames f seg q v) (mem : Memory) :
    writeBlocks mem ((segs.flatMap segmentBlocks).map (Block.write s.frames f)) p = mem p := by
  refine writeBlocks_of_not fun w hmem hin => ?_
  obtain ⟨b, hb, rfl⟩ := List.mem_map.1 hmem
  obtain ⟨seg, hseg, hb⟩ := List.mem_flatMap.1 hb
  obtain ⟨q, hl, -⟩ := lands_of_block hs hw (hsub hseg) hp hb hin
  exact hno seg hseg q hl

theorem read_eq_wanted_iff (mem : Memory) :
    some (writeBlocks (zeroPages s.pageTable mem) ((loadBlocks noffH).map (Block.write s.frames f)) p) =
        wanted noffH f v ↔ PlacedAt s.frames f noffH v := by
  have hz : zeroPages s.pageTable mem p = 0 :=
    zeroPages_of_mem (List.mem_of_getElem? (div_of_physAddr hp).1)
  have hlast : ∀ pre seg post q, loadedSegments noffH = pre ++ seg :: post →
      Lands s.frames f seg q v → (∀ seg' ∈ post, ∀ q', ¬ Lands s.frames f seg' q' v) →
      some (writeBlocks (zeroPages s.pageTable mem)
        ((loadBlocks noffH).map (Block.write s.frames f)) p) = f.bytes[seg.inFileAddr.toNat + q]? := by
    intro pre seg post q hsplit hl hpost
    rw [loadBlocks, hsplit, List.flatMap_append, List.flatMap_cons, List.map_append, List.map_append,
      writeBlocks_append, writeBlocks_append,
      writeSegments_of_not hs hw hp (fun x hx => by simp [hsplit, hx]) hpost]
    exact writeSegment_of_lands hs hw (by simp [hsplit]) hp hl _
  by_cases hno : ∀ seg ∈ loadedSegments noffH, ∀ q, ¬ Lands s.frames f seg q v
  · rw [loadBlocks, writeSegments_of_not hs hw hp (List.Subset.refl _) hno, hz, eq_comm]
    refine ⟨fun h => ⟨fun pre seg post q hsplit hl _ => ?_, fun _ => h⟩, fun h => h.zero hno⟩
    exact absurd hl (hno seg (by simp [hsplit]) q)
  · -- the last of the segments with a byte for `v`
    push Not at hno
    obtain ⟨pre, seg, post, hsplit, ⟨q, hl⟩, hpost⟩ := exists_last hno
    push Not at hpost
    rw [hlast pre seg post q hsplit hl hpost]
    refine ⟨fun h => ⟨fun pre' seg' post' q' hsplit' hl' hpost' => ?_, fun hno => ?_⟩,
      fun h => h.last pre seg post q hsplit hl hpost⟩
    · rw [← hlast pre' seg' post' q' hsplit' hl' hpost', hlast pre seg post q hsplit hl hpost, h]
    · exact absurd hl (hno seg (by simp [hsplit]) q)

end

/-- The constructor and `Load` return, and then every address of the space holds its byte: whatever
memory held before, and whatever the uninitialised variables of the two functions hold. -/
def LoadsImage (cfg : Build) (f : OpenFile) (noffH : NoffHeader) (bitmap : Bitmap) : Prop :=
  ∀ m junk, ∃ s k, new cfg junk f ⟨m, bitmap⟩ = .ok (s, k) ∧ ∀ junk' stale,
    ∃ r, s.load cfg junk' stale f k.mainMemory = .ok r ∧
      ∀ v : Word, v.toNat < s.numPages * pageSize →
        r.space.readVirtual r.mem v = wanted noffH f v.toNat

theorem physAddr_word (hs : Built noffH f s) (hp : physAddr s.frames v = some p) :
    (BitVec.ofNat 32 v).toNat = v := by
  have hv := lt_of_physAddr hp
  have hn := Nat.mul_le_mul_right pageSize hs.numPages_le
  rw [BitVec.toNat_ofNat]
  exact Nat.mod_eq_of_lt (Nat.lt_of_lt_of_le hv (Nat.le_trans hn (by decide)))

theorem loadsImage_iff {cfg : Build} {bitmap : Bitmap} {k : Kernel} {junk : Memory} {m : Machine}
    (hh : ∀ junk, readHeader cfg junk f = .ok noffH) (hb : bitmap.numBits = numPhysPages)
    (hn : new cfg junk f ⟨m, bitmap⟩ = .ok (s, k)) (hw : noffH.WellFormed f s.numPages) :
    LoadsImage cfg f noffH bitmap ↔
      ∀ v < s.numPages * pageSize, PlacedAt s.frames f noffH v := by
  constructor
  · intro h v hv
    obtain ⟨p, hp⟩ := physAddr_isSome hv
    obtain ⟨hs, hmem⟩ := new_built (hh junk) hb hn
    obtain ⟨s', k', hn', hload⟩ := h m junk
    cases hn.symm.trans hn'
    obtain ⟨r, hr, hread⟩ := hload junk 0
    obtain ⟨r', hr', hm, hf, hrm⟩ := load_wellFormed hs hw (hh junk) 0 k.mainMemory
    rw [hr, Except.ok.injEq] at hr'
    subst hr'
    have hword := physAddr_word hs hp
    have := hread (BitVec.ofNat 32 v) (by rw [hword]; exact hv)
    rw [readVirtual_eq hm r.mem (by rw [hf, hword, hp]), hword, hrm, hmem] at this
    exact (read_eq_wanted_iff hs hw hp _).1 this
  · intro h m' junk'
    obtain ⟨k', hk'⟩ := new_of_new hh hn junk' m'
    obtain ⟨hs, hmem⟩ := new_built (hh junk') hb hk'
    refine ⟨s, k', hk', fun junk'' stale => ?_⟩
    obtain ⟨r, hr, hm, hf, hrm⟩ := load_wellFormed hs hw (hh junk'') stale k'.mainMemory
    refine ⟨r, hr, fun v hv => ?_⟩
    obtain ⟨p, hp⟩ := physAddr_isSome hv
    rw [readVirtual_eq hm r.mem (by rw [hf, hp]), hrm, hmem]
    exact (read_eq_wanted_iff hs hw hp _).2 (h v.toNat hv)

/-! ## Programs whose segments start on pages -/

def Aligned (noffH : NoffHeader) : Prop :=
  ∀ seg ∈ loadedSegments noffH, 0 < seg.size.toNat → seg.virtualAddr.toNat % pageSize = 0

instance (noffH : NoffHeader) : Decidable (Aligned noffH) :=
  inferInstanceAs (Decidable (∀ seg ∈ _, _))

/-- The file has zeroes, or nothing, behind each segment up to the end of its last page. -/
def ZeroPadded (noffH : NoffHeader) (f : OpenFile) : Prop :=
  ∀ seg ∈ loadedSegments noffH, ∀ q, seg.size.toNat ≤ q →
    q < divRoundUp seg.size.toNat pageSize * pageSize →
    f.bytes.getD (seg.inFileAddr.toNat + q) 0 = 0

section

variable {q : Nat} (hal : Aligned noffH) (h : seg ∈ loadedSegments noffH)
include hal h

theorem contains_pageStart (hq : q < divRoundUp seg.size.toNat pageSize * pageSize) :
    seg.Contains ((seg.virtualAddr.toNat + q) / pageSize * pageSize) := by
  have hlt := mul_lt_of_lt_divRoundUp (by decide) ((Nat.div_lt_iff_lt_mul (by decide)).2 hq)
  have ha := hal seg h (by omega)
  simp only [Segment.Contains, pageSize] at *
  omega

theorem Lands.eq_of_aligned (hl : Lands s.frames f seg q v) : v = seg.virtualAddr.toNat + q := by
  have hlt := mul_lt_of_lt_divRoundUp (by decide) ((Nat.div_lt_iff_lt_mul (by decide)).2 hl.page)
  have haddr := hl.address
  rwa [hal seg h (by omega), Nat.zero_add, if_pos (Nat.mod_lt _ (by decide))] at haddr

theorem lands_of_aligned (hq : q < divRoundUp seg.size.toNat pageSize * pageSize)
    (hfile : seg.inFileAddr.toNat + q < f.bytes.length) :
    Lands s.frames f seg q (seg.virtualAddr.toNat + q) := by
  have hlt := mul_lt_of_lt_divRoundUp (by decide) ((Nat.div_lt_iff_lt_mul (by decide)).2 hq)
  refine ⟨hq, hfile, ?_⟩
  rw [hal seg h (by omega), Nat.zero_add, if_pos (Nat.mod_lt _ (by decide))]

variable (hw : noffH.WellFormed f s.numPages)
include hw

theorem eq_of_page {seg' : Segment} (h' : seg' ∈ loadedSegments noffH)
    (hq : q < divRoundUp seg.size.toNat pageSize * pageSize)
    (hc : seg'.Contains (seg.virtualAddr.toNat + q)) : seg = seg' := by
  refine eq_of_contains hw h h' (contains_pageStart hal h hq) ?_
  have hoff : seg.virtualAddr.toNat + q - seg'.virtualAddr.toNat <
      divRoundUp seg'.size.toNat pageSize * pageSize := by
    have := le_divRoundUp_mul seg'.size.toNat (s := pageSize) (by decide)
    have := hc.1
    have := hc.2
    omega
  have hpage := contains_pageStart hal h' hoff
  rwa [Nat.add_sub_cancel' hc.1] at hpage

theorem wanted_behind (hq : q < divRoundUp seg.size.toNat pageSize * pageSize)
    (hsize : seg.size.toNat ≤ q) : wanted noffH f (seg.virtualAddr.toNat + q) = some 0 := by
  refine wanted_of_not fun seg' h' hc => ?_
  cases eq_of_page hal h hw h' hq hc
  have := hc.2
  omega

end

section

variable (hw : noffH.WellFormed f s.numPages) (hal : Aligned noffH)
include hw hal

theorem placedAt_of_aligned (hz : (∃ seg ∈ loadedSegments noffH, seg.Contains v) ∨ ZeroPadded noffH f) :
    PlacedAt s.frames f noffH v where
  last := by
    intro pre seg post q hsplit hl _
    have h : seg ∈ loadedSegments noffH := by simp [hsplit]
    have hv := hl.eq_of_aligned hal h
    subst hv
    by_cases hsize : q < seg.size.toNat
    · rw [wanted_of_contains hw h ⟨Nat.le_add_right .., by omega⟩, Nat.add_sub_cancel_left]
    · rw [wanted_behind hal h hw hl.page (by omega)]
      rcases hz with ⟨seg', h', hc⟩ | hz
      · cases eq_of_page hal h hw h' hl.page hc
        have := hc.2
        omega
      · have hbyte := hz seg h q (by omega) hl.page
        rwa [List.getD_eq_getElem?_getD, List.getElem?_eq_getElem hl.inFile, Option.getD_some,
          ← Option.some.injEq, ← List.getElem?_eq_getElem hl.inFile] at hbyte
  zero := by
    refine fun hno => wanted_of_not fun seg h hc => ?_
    obtain ⟨hle, hlt⟩ := hc
    have hfile := hw.inFile seg h (by omega)
    have hmul := le_divRoundUp_mul seg.size.toNat (s := pageSize) (by decide)
    have hl : Lands s.frames f seg (v - seg.virtualAddr.toNat) _ :=
      lands_of_aligned hal h (by omega) (by omega)
    rw [Nat.add_sub_cancel' hle] at hl
    exact hno seg h _ hl

theorem zeroPadded_of_placedAt (hall : ∀ v < s.numPages * pageSize, PlacedAt s.frames f noffH v) :
    ZeroPadded noffH f := by
  intro seg h q hsize hq
  rw [List.getD_eq_getElem?_getD]
  by_cases hfile : seg.inFileAddr.toNat + q < f.bytes.length
  · obtain ⟨pre, post, hsplit⟩ := List.append_of_mem h
    have hstart := contains_pageStart hal h hq
    -- the address behind the segment is in its last page, so in the space
    have hv : seg.virtualAddr.toNat + q < s.numPages * pageSize := by
      have hin := hw.inside seg (mem_segments h) (by have := hstart.1; have := hstart.2; omega)
      have := hstart.2
      simp only [pageSize] at *
      omega
    have hlast := (hall _ hv).last pre seg post q hsplit (lands_of_aligned hal h hq hfile) ?_
    · rw [hlast, wanted_behind hal h hw hq hsize]
      rfl
    · intro seg' h' q' hl'
      have hmem : seg' ∈ loadedSegments noffH := by simp [hsplit, h']
      have hpage := contains_pageStart hal hmem hl'.page
      rw [← hl'.eq_of_aligned hal hmem] at hpage
      have hapart := hw.disjoint.sublist (List.sublist_append_left ..)
      rw [hsplit, List.pairwise_append, List.pairwise_cons] at hapart
      exact hapart.2.1.1 seg' h' _ ⟨hstart, hpage⟩
  · rw [List.getElem?_eq_none (by omega)]
    rfl

theorem placedAt_iff_zeroPadded :
    (∀ v < s.numPages * pageSize, PlacedAt s.frames f noffH v) ↔ ZeroPadded noffH f :=
  ⟨zeroPadded_of_placedAt hw hal, fun hz _ _ => placedAt_of_aligned hw hal (.inr hz)⟩

end

end

section
variable {noffH : NoffHeader} {f : OpenFile}

/-- **When the loader builds the image.** For a well-formed program, with a bitmap of enough free
frames: exactly when on every address of the space the byte of the file that lands last is the byte it
should have, and it should have a zero where none lands. When the loaded segments start on pages, this
is when the file is padded with zeroes behind each of them. -/
theorem load_image_iff {cfg : Build} {bitmap : Bitmap}
    (hh : ∀ junk, readHeader cfg junk f = .ok noffH) (hfit : Fits bitmap noffH)
    (hw : noffH.WellFormed f (pagesFor noffH)) :
    (LoadsImage cfg f noffH bitmap ↔ ∀ v < pagesFor noffH * pageSize,
      PlacedAt (bitmap.firstClear (pagesFor noffH)) f noffH v) ∧
    (Aligned noffH → (LoadsImage cfg f noffH bitmap ↔ ZeroPadded noffH f)) := by
  obtain ⟨s, k, hn⟩ := new_of_fits hh hfit 0 ⟨0, 0, none, none, 0⟩
  obtain ⟨hs, -⟩ := new_built (hh 0) hfit.1 hn
  rw [← hs.numPages] at hw
  rw [← new_frames (hh 0) hfit.1 hn, ← hs.numPages]
  have hiff := loadsImage_iff hh hfit.1 hn hw
  exact ⟨hiff, fun hal => hiff.trans (placedAt_iff_zeroPadded hw hal)⟩

end

/-! ## Two programs -/

/-- Code, and data on the next page, which follows it in the file; uninitialised data behind the
code. -/
def dataHeader : NoffHeader :=
  ⟨noffMagicNumber, ⟨0, 52, 4⟩, ⟨128, 56, 4⟩, ⟨0, 0, 0⟩, ⟨4, 0, 4⟩⟩

def dataProgram : OpenFile := ⟨dataHeader.toBytes buildLinux ++ List.replicate 8 0xff⟩

theorem wellFormed_dataProgram {n : Nat} (h : 2 ≤ n) : dataHeader.WellFormed dataProgram n where
  size := by decide
  disjoint := by
    simp [NoffHeader.segments, loadedSegments, dataHeader, Segment.Apart, Segment.Contains]
    exact ⟨⟨by omega, by omega⟩, by omega⟩
  inside := by
    have hin : ∀ seg ∈ dataHeader.segments,
        seg.virtualAddr.toNat + seg.size.toNat ≤ 2 * pageSize := by
      decide
    exact fun seg hseg _ => Nat.le_trans (hin seg hseg) (Nat.mul_le_mul_right _ h)
  inFile := by decide
  length := by decide

/-- The first byte of the uninitialised data holds the first byte of the data. -/
theorem load_uninitData_not_zero :
    ∃ bitmap s k r, Bitmap.new numPhysPages = .ok bitmap ∧
      new buildLinux 0 dataProgram ⟨⟨0, 0, none, none, 0⟩, bitmap⟩ = .ok (s, k) ∧
      dataHeader.WellFormed dataProgram s.numPages ∧
      s.load buildLinux 0 0 dataProgram k.mainMemory = .ok r ∧
      r.space.readVirtual r.mem 4 = some 0xff ∧ wanted dataHeader dataProgram 4 = some 0 := by
  have h : (do
      let bitmap ← Bitmap.new numPhysPages
      let p ← new buildLinux 0 dataProgram ⟨⟨0, 0, none, none, 0⟩, bitmap⟩
      let r ← (p.1.load buildLinux 0 0 dataProgram p.2.mainMemory).mapError Prod.fst
      return decide (2 ≤ p.1.numPages ∧ r.space.readVirtual r.mem 4 = some 0xff ∧
        wanted dataHeader dataProgram 4 = some 0) : Except Fault Bool) = .ok true := by
    decide +kernel
  obtain ⟨bitmap, hb, h⟩ := bind_ok h
  obtain ⟨⟨s, k⟩, hn, h⟩ := bind_ok h
  obtain ⟨r, hr, h⟩ := bind_ok h
  obtain ⟨h2, h⟩ := of_decide_eq_true (Except.ok.inj h)
  exact ⟨bitmap, s, k, r, hb, hn, wellFormed_dataProgram h2, mapError_ok hr, h⟩

theorem load_image_pageProgram :
    ∃ bitmap, Bitmap.new numPhysPages = .ok bitmap ∧
      LoadsImage buildLinux pageProgram pageHeader bitmap := by
  have h : (do
      let bitmap ← Bitmap.new numPhysPages
      let clear ← bitmap.numClear
      return decide (bitmap.numBits = numPhysPages ∧ pagesFor pageHeader ≤ clear) :
        Except Fault Bool) = .ok true := by decide +kernel
  obtain ⟨bitmap, hb, h⟩ := bind_ok h
  obtain ⟨clear, hc, h⟩ := bind_ok h
  obtain ⟨hbits, hle⟩ := of_decide_eq_true (Except.ok.inj h)
  have hw : pageHeader.WellFormed pageProgram (pagesFor pageHeader) := by
    refine ⟨by decide, ?_, by decide, by decide +kernel, by decide +kernel⟩
    simp [NoffHeader.segments, loadedSegments, pageHeader, Segment.Apart, Segment.Contains]
  have hz : ZeroPadded pageHeader pageProgram := by
    simp [ZeroPadded, loadedSegments, pageHeader, divRoundUp, pageSize]
    omega
  exact ⟨bitmap, hb, ((load_image_iff readHeader_pageProgram ⟨hbits, clear, hc, hle⟩ hw).2
    (by decide)).2 hz⟩

end AddrSpace

end Nachos
