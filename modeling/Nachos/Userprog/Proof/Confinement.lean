import Nachos.Base.Lists
import Nachos.Userprog.Proof.Loader

/-!
# What the loader can reach

A block of the loader is a whole page of the file. Where its first byte has no translation the copy
goes to whatever address `translatedAddr` still holds, and where its first byte is not the first of
its page the end of the block lands in the next frame of memory, whoever has it.

`load_confined_iff` says exactly when `Load` stays in the frames of its own space, until it returns or
aborts: each block it copies that brings a byte starts on a page of the space and ends in its frame, or
the next frame is the space's own too. `load_into_next_frame` is a program with a header in order whose
loading writes in the frame of another process.
-/

namespace Nachos.AddrSpace

open Base

/-! ## The space a construction returns -/

structure Built (noffH : NoffHeader) (f : OpenFile) (s : AddrSpace) : Prop where
  executable : s.executable = f
  numPages : s.numPages = pagesFor noffH
  mapped : s.Mapped
  nodup : s.frames.Nodup

/-- The bitmap of the machine's frames has a free one for each page of the program. -/
def Fits (bitmap : Bitmap) (noffH : NoffHeader) : Prop :=
  bitmap.numBits = numPhysPages ∧ ∃ clear, bitmap.numClear = .ok clear ∧ pagesFor noffH ≤ clear

variable {noffH : NoffHeader} {f : OpenFile} {s : AddrSpace} {cfg : Build} {junk mem : Memory}
    {k' : Kernel} {a : Nat}

theorem Built.frame_lt (h : Built noffH f s)
    {fr : Nat} (hfr : fr ∈ s.frames) : fr < numPhysPages := by
  obtain ⟨i, hi⟩ := List.mem_iff_getElem?.1 hfr
  exact h.mapped.frame_lt hi

theorem Built.numPages_le (h : Built noffH f s) : s.numPages ≤ numPhysPages := by
  have hsub : s.frames.toFinset ⊆ Finset.range numPhysPages := fun fr hfr =>
    Finset.mem_range.2 (h.frame_lt (List.mem_toFinset.1 hfr))
  have := Finset.card_le_card hsub
  rwa [List.toFinset_card_of_nodup h.nodup, length_frames, Finset.card_range] at this

theorem new_built {k : Kernel} (hh : readHeader cfg junk f = .ok noffH)
    (hb : k.gPhysPageBitMap.numBits = numPhysPages) (h : new cfg junk f k = .ok (s, k')) :
    Built noffH f s ∧ k'.mainMemory = zeroPages s.pageTable k.mainMemory := by
  obtain ⟨noffH', hh', ha, hf, hm⟩ := new_ok h
  rw [hh, Except.ok.injEq] at hh'
  subst hh'
  have hA := allocPages_spec _ _ (by rw [hb]; decide) ha
  refine ⟨⟨hf, hA.length, ⟨fun e he => ?_, fun e he => (hA.frame e he).2.2.2⟩, hA.nodup⟩, hm⟩
  rw [← hb]
  exact (hA.frame e he).1

theorem new_of_fits {bitmap : Bitmap}
    (hh : ∀ junk, readHeader cfg junk f = .ok noffH) (hfit : Fits bitmap noffH) (junk : Memory)
    (m : Machine) : ∃ s k, new cfg junk f ⟨m, bitmap⟩ = .ok (s, k) := by
  obtain ⟨-, clear, hc, hle⟩ := hfit
  rw [Bitmap.numClear_eq, Except.ok.injEq] at hc
  refine new_isOk (hh junk) ?_
  rw [hc]
  exact hle

theorem new_frames {m : Machine} {bitmap : Bitmap} (hh : readHeader cfg junk f = .ok noffH)
    (hb : bitmap.numBits = numPhysPages) (h : new cfg junk f ⟨m, bitmap⟩ = .ok (s, k')) :
    s.frames = bitmap.firstClear (pagesFor noffH) := by
  obtain ⟨noffH', hh', ha, -, -⟩ := new_ok h
  rw [hh, Except.ok.injEq] at hh'
  subst hh'
  exact (allocPages_spec _ _ (by dsimp only; rw [hb]; decide) ha).first

theorem new_of_new {m : Machine} {b : Bitmap} (hh : ∀ junk, readHeader cfg junk f = .ok noffH)
    (h : new cfg junk f ⟨m, b⟩ = .ok (s, k')) (junk' : Memory) (m' : Machine) :
    ∃ k'', new cfg junk' f ⟨m', b⟩ = .ok (s, k'') := by
  obtain ⟨noffH', hh', ha, hf, -⟩ := new_ok h
  rw [hh, Except.ok.injEq] at hh'
  subst hh'
  obtain ⟨f', pt⟩ := s
  cases hf
  exact ⟨_, by unfold new; rw [hh, ok_bind, ha]; rfl⟩

/-! ## Zeroed pages -/

theorem zeroPages_eq (pt : List TranslationEntry) (mem : Memory) :
    zeroPages pt mem = writeBlocks mem
      (pt.map fun e => (e.physicalPage.toNat * pageSize, List.replicate pageSize 0)) := by
  simp [zeroPages, writeBlocks, List.foldl_map]

theorem inBlock_frame {fr : Nat} :
    InBlock (fr * pageSize) (List.replicate pageSize (0 : Byte)) a ↔ a / pageSize = fr := by
  rw [InBlock, List.length_replicate, Nat.div_eq_iff (by decide)]
  have : 0 < pageSize := by decide
  omega

theorem zeroPages_of_not (h : a / pageSize ∉ s.frames) : zeroPages s.pageTable mem a = mem a := by
  rw [zeroPages_eq]
  refine writeBlocks_of_not fun w hw => ?_
  obtain ⟨e, he, rfl⟩ := List.mem_map.1 hw
  rw [inBlock_frame]
  intro ha
  exact h (List.mem_map.2 ⟨e, he, ha.symm⟩)

theorem zeroPages_of_mem (h : a / pageSize ∈ s.frames) : zeroPages s.pageTable mem a = 0 := by
  rw [zeroPages_eq]
  obtain ⟨e, he, hea⟩ := List.mem_map.1 h
  apply Option.some.inj
  rw [some_writeBlocks]
  cases hl : lastBlock (s.pageTable.map fun e =>
      (e.physicalPage.toNat * pageSize, List.replicate pageSize (0 : Byte))) a with
  | none =>
    exact absurd (inBlock_frame.2 hea.symm) (lastBlock_eq_none.1 hl _ (List.mem_map.2 ⟨e, he, rfl⟩))
  | some w =>
    obtain ⟨hw, hin⟩ := inBlock_of_lastBlock hl
    obtain ⟨e', -, rfl⟩ := List.mem_map.1 hw
    obtain ⟨h1, h2⟩ := hin
    simp only [List.length_replicate] at h2
    dsimp only at h1 ⊢
    rw [List.getElem?_replicate, if_pos (by omega)]

/-! ## Where a block goes -/

def Block.write (frames : List Nat) (f : OpenFile) (b : Block) : Nat × List Byte :=
  ((physAddr frames b.vaddr.toNat).getD 0, b.bytes f)

theorem Block.length_bytes (f : OpenFile) (b : Block) : (b.bytes f).length ≤ pageSize :=
  List.length_take_le ..

theorem Loaded.mem_eq {done : List Block} {l : Loading} (h : Loaded s f mem done l)
    (ht : ∀ b ∈ done, b.bytes f ≠ [] → physAddr s.frames b.vaddr.toNat ≠ none) :
    l.mem = writeBlocks mem (done.map (Block.write s.frames f)) := by
  rw [h.mem]
  refine writeBlocks_congr ?_
  rw [List.forall₂_map_left_iff, List.forall₂_map_right_iff]
  have hmem := (List.forall₂_and_left _ _).2 ⟨ht, h.copies⟩
  refine hmem.flip.imp fun c b hcb => ⟨hcb.2.bytes, fun hne => ?_⟩
  have hne' : b.bytes f ≠ [] := hcb.2.bytes ▸ hne
  obtain ⟨p, hp⟩ := Option.ne_none_iff_exists'.1 (hcb.1 hne')
  rw [Block.write, hp]
  exact (hcb.2.dest p hp).2

theorem Block.frame_of_reach {b : Block} {p : Nat}
    (hp : physAddr s.frames b.vaddr.toNat = some p) (ha : InBlock p (b.bytes f) a) :
    a / pageSize = p / pageSize ∨ a / pageSize = p / pageSize + 1 ∧
      pageSize < b.vaddr.toNat % pageSize + (b.bytes f).length := by
  have hl := b.length_bytes f
  have hm := (div_of_physAddr hp).2
  obtain ⟨h1, h2⟩ := ha
  simp only [pageSize] at *
  omega

/-- The block stays in the frames of the space: it brings nothing, or its first byte has an address
and its last one is in the same frame, or the next frame is the space's too. -/
def Block.StaysIn (frames : List Nat) (f : OpenFile) (b : Block) : Prop :=
  b.bytes f ≠ [] → ∃ fr, frames[b.vaddr.toNat / pageSize]? = some fr ∧
    (b.vaddr.toNat % pageSize + (b.bytes f).length ≤ pageSize ∨ fr + 1 ∈ frames)

instance (frames : List Nat) (f : OpenFile) (b : Block) : Decidable (b.StaysIn frames f) :=
  match h : frames[b.vaddr.toNat / pageSize]? with
  | none => decidable_of_iff (b.bytes f = []) (by simp [Block.StaysIn, h])
  | some fr => decidable_of_iff (b.bytes f ≠ [] →
      b.vaddr.toNat % pageSize + (b.bytes f).length ≤ pageSize ∨ fr + 1 ∈ frames)
      (by simp [Block.StaysIn, h])

theorem Loaded.mem_of_staysIn {done : List Block}
    {l : Loading} (h : Loaded s f mem done l) (hst : ∀ b ∈ done, b.StaysIn s.frames f)
    (ha : a / pageSize ∉ s.frames) : l.mem a = mem a := by
  have haddr : ∀ b ∈ done, b.bytes f ≠ [] → ∃ p, physAddr s.frames b.vaddr.toNat = some p := by
    intro b hb hne
    obtain ⟨fr, hfr, -⟩ := hst b hb hne
    exact ⟨_, physAddr_eq_some.2 ⟨fr, hfr, rfl⟩⟩
  rw [h.mem_eq fun b hb hne => by obtain ⟨p, hp⟩ := haddr b hb hne; simp [hp]]
  refine writeBlocks_of_not fun w hw hin => ?_
  obtain ⟨b, hb, rfl⟩ := List.mem_map.1 hw
  have hne : b.bytes f ≠ [] := by
    rintro he
    simp only [Block.write, he, InBlock, List.length_nil] at hin
    omega
  obtain ⟨p, hp⟩ := haddr b hb hne
  simp only [Block.write, hp, Option.getD_some] at hin
  obtain ⟨fr, hfr, hend⟩ := hst b hb hne
  have hfp : fr = p / pageSize := Option.some.inj (hfr.symm.trans (div_of_physAddr hp).1)
  rcases Block.frame_of_reach hp hin with hf | ⟨hf, hlen⟩
  · exact ha (hf ▸ hfp ▸ List.mem_of_getElem? hfr)
  · rcases hend with hend | hend
    · omega
    · exact ha (hf ▸ hfp ▸ hend)

theorem Block.reaches_next {b : Block} {p : Nat} (hp : physAddr s.frames b.vaddr.toNat = some p)
    (hlen : pageSize < b.vaddr.toNat % pageSize + (b.bytes f).length) :
    InBlock (b.write s.frames f).1 (b.write s.frames f).2 ((p / pageSize + 1) * pageSize) := by
  have hm := (div_of_physAddr hp).2
  simp only [Block.write, hp, Option.getD_some, InBlock]
  simp only [pageSize] at *
  omega

/-! ## Confinement -/

/-- `Load` on a space the constructor built from the file, with this bitmap, keeps every byte
outside the frames of the space, and writes no byte at an address of a failed translation, until it
returns or aborts: whatever memory held before, and whatever the uninitialised variables of the two
functions hold. -/
def LoadConfined (cfg : Build) (f : OpenFile) (bitmap : Bitmap) : Prop :=
  ∀ m junk s k, new cfg junk f ⟨m, bitmap⟩ = .ok (s, k) →
    ∀ junk' stale r, reached (s.load cfg junk' stale f k.mainMemory) = r →
      (∀ a, a / pageSize ∉ s.frames → r.mem a = k.mainMemory a) ∧
        ∀ c ∈ r.copies, c.bytes ≠ [] → c.translation = .noException

section
variable {cfg : Build} {f : OpenFile} {noffH : NoffHeader} {bitmap : Bitmap} {s : AddrSpace}

theorem LoadConfined.physAddr_ne_none {k : Kernel} {junk : Memory} {m : Machine}
    (h : LoadConfined cfg f bitmap) (hh : ∀ junk, readHeader cfg junk f = .ok noffH)
    (hb : bitmap.numBits = numPhysPages) (hn : new cfg junk f ⟨m, bitmap⟩ = .ok (s, k))
    {b : Block} (hbl : b ∈ copiedBlocks noffH) (hne : b.bytes f ≠ []) :
    physAddr s.frames b.vaddr.toNat ≠ none := by
  intro hnone
  obtain ⟨hs, -⟩ := new_built (hh junk) hb hn
  have hl := load_reached (hh junk) hs.mapped hs.numPages_le 0 k.mainMemory
  obtain ⟨-, hexc⟩ := h m junk s k hn junk 0 _ rfl
  obtain ⟨c, hc, hcb⟩ := exists_right_of_mem hl.copies hbl
  have := hexc c hc (hcb.bytes ▸ hne)
  rw [hcb.invalid hnone] at this
  cases this

/-- **When loading is confined.** For a file with a header, with a bitmap of enough free frames: every
block that brings a byte, up to the first with a negative file position, starts on a page of the space
and ends in the frame of that page or the next frame is the space's own. -/
theorem load_confined_iff (hh : ∀ junk, readHeader cfg junk f = .ok noffH)
    (hfit : Fits bitmap noffH) :
    LoadConfined cfg f bitmap ↔
      ∀ b ∈ copiedBlocks noffH, b.StaysIn (bitmap.firstClear (pagesFor noffH)) f := by
  have hb := hfit.1
  obtain ⟨s, k, hn⟩ := new_of_fits hh hfit 0 ⟨0, 0, none, none, 0⟩
  rw [← new_frames (hh 0) hb hn]
  constructor
  · intro h b hbl hne
    have haddr : ∀ b ∈ copiedBlocks noffH, b.bytes f ≠ [] → physAddr s.frames b.vaddr.toNat ≠ none :=
      fun b => h.physAddr_ne_none hh hb hn
    obtain ⟨p, hp⟩ := Option.ne_none_iff_exists'.1 (haddr b hbl hne)
    refine ⟨_, (div_of_physAddr hp).1, ?_⟩
    by_contra hst
    push Not at hst
    obtain ⟨hlen, hnext⟩ := hst
    set a := (p / pageSize + 1) * pageSize
    have had : a / pageSize = p / pageSize + 1 := Nat.mul_div_cancel _ (by decide)
    -- the byte after the frame holds what the loader wrote there, whatever it held before
    have key : ∀ v : Byte, writeBlocks 0 ((copiedBlocks noffH).map (Block.write s.frames f)) a = v := by
      intro v
      obtain ⟨k', hk'⟩ := new_of_new hh hn 0 ⟨0, fun _ => v, none, none, 0⟩
      obtain ⟨hs, hmem⟩ := new_built (hh 0) hb hk'
      have hl := load_reached (hh 0) hs.mapped hs.numPages_le 0 k'.mainMemory
      have hkeep := (h _ 0 s k' hk' 0 0 _ rfl).1 a (had ▸ hnext)
      rw [hl.mem_eq haddr, hmem, zeroPages_of_not (had ▸ hnext)] at hkeep
      rw [← writeBlocks_reached 0 _ ⟨_, List.mem_map.2 ⟨b, hbl, rfl⟩, b.reaches_next hp hlen⟩]
        at hkeep
      exact hkeep
    exact absurd ((key 0).symm.trans (key 1)) (by decide)
  · rintro hst m' junk' s' k' hn' junk'' stale _ rfl
    obtain ⟨k'', hk''⟩ := new_of_new hh hn junk' m'
    rw [hk''] at hn'
    cases hn'
    obtain ⟨hs, -⟩ := new_built (hh junk') hb hk''
    have hl := load_reached (hh junk'') hs.mapped hs.numPages_le stale k'.mainMemory
    refine ⟨fun a ha => hl.mem_of_staysIn hst ha, fun c hc hne => ?_⟩
    obtain ⟨b, hbl, hcb⟩ := exists_left_of_mem hl.copies hc
    obtain ⟨fr, hfr, -⟩ := hst b hbl (hcb.bytes ▸ hne)
    exact (hcb.dest _ (physAddr_eq_some.2 ⟨fr, hfr, rfl⟩)).1

end

/-- A program whose code is the last 64 bytes of its nine pages, in a file that goes on after it. -/
def topHeader : NoffHeader :=
  ⟨noffMagicNumber, ⟨1088, 52, 64⟩, ⟨0, 0, 0⟩, ⟨0, 0, 0⟩, ⟨0, 0, 0⟩⟩

def topProgram : OpenFile := ⟨topHeader.toBytes buildLinux ++ List.replicate 128 0xff⟩

/-- On an empty bitmap the program gets the frames 0 to 8; loading it writes in frame 9. -/
theorem load_into_next_frame :
    ∃ bitmap s k r, Bitmap.new numPhysPages = .ok bitmap ∧
      new buildLinux 0 topProgram ⟨⟨0, 0, none, none, 0⟩, bitmap⟩ = .ok (s, k) ∧
      s.load buildLinux 0 0 topProgram k.mainMemory = .ok r ∧
      9 ∉ s.frames ∧ r.mem (9 * pageSize) ≠ k.mainMemory (9 * pageSize) := by
  have h : (do
      let bitmap ← Bitmap.new numPhysPages
      let p ← new buildLinux 0 topProgram ⟨⟨0, 0, none, none, 0⟩, bitmap⟩
      let r ← (p.1.load buildLinux 0 0 topProgram p.2.mainMemory).mapError Prod.fst
      return decide (9 ∉ p.1.frames ∧ r.mem (9 * pageSize) ≠ p.2.mainMemory (9 * pageSize)) :
        Except Fault Bool) = .ok true := by decide +kernel
  obtain ⟨bitmap, hb, h⟩ := bind_ok h
  obtain ⟨⟨s, k⟩, hn, h⟩ := bind_ok h
  obtain ⟨r, hr, h⟩ := bind_ok h
  exact ⟨bitmap, s, k, r, hb, hn, mapError_ok hr, of_decide_eq_true (Except.ok.inj h)⟩

def pageHeader : NoffHeader :=
  ⟨noffMagicNumber, ⟨0, 52, 128⟩, ⟨0, 0, 0⟩, ⟨0, 0, 0⟩, ⟨0, 0, 0⟩⟩

def pageProgram : OpenFile := ⟨pageHeader.toBytes buildLinux ++ List.replicate 128 0xff⟩

theorem readHeader_pageProgram (junk : Memory) :
    readHeader buildLinux junk pageProgram = .ok pageHeader := readHeader_toBytes _ _ _ _ rfl

theorem load_confined_pageProgram :
    ∃ bitmap, Bitmap.new numPhysPages = .ok bitmap ∧
      LoadConfined buildLinux pageProgram bitmap := by
  have h : (do
      let bitmap ← Bitmap.new numPhysPages
      let clear ← bitmap.numClear
      return decide (bitmap.numBits = numPhysPages ∧ pagesFor pageHeader ≤ clear ∧
        ∀ b ∈ copiedBlocks pageHeader,
          b.StaysIn (bitmap.firstClear (pagesFor pageHeader)) pageProgram) :
        Except Fault Bool) = .ok true := by decide +kernel
  obtain ⟨bitmap, hb, h⟩ := bind_ok h
  obtain ⟨clear, hc, h⟩ := bind_ok h
  obtain ⟨hbits, hle, hst⟩ := of_decide_eq_true (Except.ok.inj h)
  exact ⟨bitmap, hb,
    (load_confined_iff readHeader_pageProgram ⟨hbits, clear, hc, hle⟩).2 hst⟩

end Nachos.AddrSpace
