import Nachos.Filesys.FileHdr
import Nachos.Machine.Proof.Delivery
import Nachos.Userprog.Proof.Noff

/-!
# What a file holds

`Describes cfg hdr n xs`: the header is that of a file of `n` bytes in the sectors `xs`. The file then
holds the first `n` bytes of these sectors (`fileBytes`). `ReadAt` of a part of the file returns that
part (`readAt_eq`); `WriteAt` changes the sectors of the file only, and the file holds the new bytes in
the place of the old ones (`writeAt_eq`).
-/

namespace Nachos.FileSystem

open Base Interrupt

variable {cfg : Build} {disk disk' : Disk} {hdr : FileHeader} {n o i k x p q b : Nat}
    {xs : List Nat} {l buf bytes : List Byte}

/-! ## Words in a buffer -/

theorem wordAt_congr {l' : List Byte} {o' : Nat} (h : ∀ i < 4, l[o + i]? = l'[o' + i]?) :
    wordAt cfg l o = wordAt cfg l' o' := by
  have h0 := h 0 (by decide)
  have h1 := h 1 (by decide)
  have h2 := h 2 (by decide)
  have h3 := h 3 (by decide)
  rw [Nat.add_zero, Nat.add_zero] at h0
  simp only [wordAt, hostWord, List.getD_eq_getElem?_getD, h0, h1, h2, h3]

theorem wordAt_eq {v : Word}
    (h : ∀ i < 4, l[o + i]? = (hostWordBytes cfg v)[i]?) : wordAt cfg l o = v := by
  refine hostWord_hostWordBytes fun i hi => ?_
  have hlen : i < (hostWordBytes cfg v).length := by rwa [length_hostWordBytes]
  rw [List.getD_eq_getElem?_getD, h i hi, List.getElem?_eq_getElem hlen, Option.getD_some]

theorem wordAt_patch {v : Word} (h : o + 4 ≤ l.length) :
    wordAt cfg (patch l o (hostWordBytes cfg v)) o = v := by
  refine wordAt_eq fun i hi => ?_
  rw [getElem?_patch_of_mem (by rwa [length_hostWordBytes]) (by omega)
    (by rw [length_hostWordBytes]; omega), Nat.add_sub_cancel_left]

theorem wordAt_patch_of_not {bs : List Byte} (h : o + 4 ≤ i ∨ i + bs.length ≤ o) :
    wordAt cfg (patch l i bs) o = wordAt cfg l o :=
  wordAt_congr fun j hj => getElem?_patch_of_not (by omega)

/-! ## Headers -/

/-- The header of a file of `n` bytes in the sectors `xs`. -/
structure Describes (cfg : Build) (hdr : FileHeader) (n : Nat) (xs : List Nat) : Prop where
  numBytes : FileHeader.numBytes cfg hdr = n
  numSectors : FileHeader.numSectors cfg hdr = xs.length
  length : xs.length = divRoundUp n sectorSize
  le : xs.length ≤ numDirect
  data : ∀ i x : Nat, xs[i]? = some x → FileHeader.field cfg hdr (8 + 4 * i) = x
  lt : ∀ x ∈ xs, x < FileSystem.numSectors

theorem dataSectors_eq (h : i < numDirect) :
    FileHeader.dataSectors cfg hdr i = .ok (FileHeader.field cfg hdr (8 + 4 * i)) := by
  unfold FileHeader.dataSectors FileHeader.place
  rw [if_pos (by omega), ok_bind, show (8 + 4 * (i : Int)).toNat = 8 + 4 * i by omega]
  rfl

namespace Describes

variable (h : Describes cfg hdr n xs)
include h

theorem data_eq {i x : Nat} (hx : xs[i]? = some x) : FileHeader.dataSectors cfg hdr i = .ok (x : Int) := by
  have hi := (List.getElem?_eq_some_iff.1 hx).1
  have hle := h.le
  rw [dataSectors_eq (by omega), h.data i x hx]

theorem le_mul : n ≤ xs.length * sectorSize := by
  rw [h.length]
  exact le_divRoundUp_mul n (by decide)

theorem le_max : n ≤ maxFileSize :=
  h.le_mul.trans (Nat.mul_le_mul_right _ h.le)

theorem exists_sector {p : Nat} (hp : p < n) : ∃ x, xs[p / sectorSize]? = some x :=
  ⟨_, List.getElem?_eq_getElem (by rw [h.length]; exact lt_divRoundUp (by decide) hp)⟩

theorem byteToSector_eq {p x : Nat} (hx : xs[p / sectorSize]? = some x) :
    FileHeader.byteToSector cfg hdr p = .ok (x : Int) := by
  unfold FileHeader.byteToSector
  rw [← Int.ofNat_tdiv]
  exact h.data_eq hx

end Describes

/-! ## Contents -/

def contents (disk : Disk) (xs : List Nat) : List Byte := xs.flatMap fun x => (disk x).1

def fileBytes (disk : Disk) (n : Nat) (xs : List Nat) : List Byte := (contents disk xs).take n

@[simp] theorem length_contents : (contents disk xs).length = xs.length * sectorSize :=
  length_flatMap_const fun x _ => (disk x).2

theorem Describes.length_fileBytes (h : Describes cfg hdr n xs) (disk : Disk) :
    (fileBytes disk n xs).length = n := by
  rw [fileBytes, List.length_take, length_contents, Nat.min_eq_left h.le_mul]

theorem contents_congr (h : ∀ x ∈ xs, disk' x = disk x) : contents disk' xs = contents disk xs :=
  List.flatMap_congr fun x hx => by rw [h x hx]

theorem fileBytes_congr (h : ∀ x ∈ xs, disk' x = disk x) :
    fileBytes disk' n xs = fileBytes disk n xs := by
  rw [fileBytes, contents_congr h, fileBytes]

theorem getElem?_contents (j : Nat) :
    (contents disk xs)[j]? = (xs[j / sectorSize]?).bind fun x => (disk x).1[j % sectorSize]? :=
  getElem?_flatMap_const (by decide) (fun x _ => (disk x).2) j

/-! ## Requests -/

def spanOf (p q : Nat) : Span :=
  ⟨q, (p / sectorSize : Nat), ((p + q - 1) / sectorSize : Nat),
    ((p + q - 1) / sectorSize + 1 - p / sectorSize) * sectorSize⟩

theorem rounds_spanOf (p q : Nat) :
    (spanOf p q).rounds = (p + q - 1) / sectorSize + 1 - p / sectorSize := by
  simp only [spanOf, Span.rounds]
  omega

theorem size_spanOf (p q : Nat) : (spanOf p q).size = (spanOf p q).rounds * sectorSize := by
  rw [rounds_spanOf]
  rfl

theorem bufferSize_eq {f l : Nat} (hle : f ≤ l) (hlt : l ≤ numDirect) :
    int (int (int (1 + (l : Int)) - f) * sectorSize) = ((l + 1 - f) * sectorSize : Nat) := by
  have hl : l ≤ 30 := hlt
  rw [int_eq (x := 1 + (l : Int)) (by omega) (by omega), int_eq (x := 1 + (l : Int) - f) (by omega)
    (by omega), show 1 + (l : Int) - f = (l + 1 - f : Nat) by omega]
  have hs : (l + 1 - f) * sectorSize ≤ 31 * 128 := Nat.mul_le_mul (by omega) (by decide)
  rw [← Int.natCast_mul]
  exact int_eq (by omega) (by omega)

section
variable (h : Describes cfg hdr n xs) {m p q : Nat} (hm : 0 < m) (hp : p < n) (hr : p + m < 2 ^ 31)
  (hq : q = min m (n - p))
include h hm hp hr hq

theorem span_eq : span cfg hdr m p = .ok (some (spanOf p q)) := by
  have hn : n ≤ 3840 := h.le_max
  have hN : (if int ((p : Int) + m) > n then int ((n : Int) - p) else (m : Int)) = q := by
    rw [int_eq (by omega) (by omega), int_eq (by omega) (by omega)]
    split <;> omega
  have hl : int (int ((p : Int) + q) - 1) = ((p + q - 1 : Nat) : Int) := by
    rw [int_eq (x := (p : Int) + q) (by omega) (by omega), int_eq (by omega) (by omega)]
    omega
  have hle : p / sectorSize ≤ (p + q - 1) / sectorSize := Nat.div_le_div_right (by omega)
  have hlt : (p + q - 1) / sectorSize ≤ numDirect := by
    change (p + q - 1) / 128 ≤ 30
    omega
  unfold span
  simp only [h.numBytes]
  rw [if_neg (by omega), hN, hl, ← Int.ofNat_tdiv, ← Int.ofNat_tdiv, bufferSize_eq hle hlt,
    if_pos (Int.natCast_nonneg _)]
  rfl

omit hr hm in
theorem sectorAt_eq {k : Nat} (hk : k < (spanOf p q).rounds) :
    ∃ x, xs[p / sectorSize + k]? = some x ∧ (spanOf p q).sectorAt cfg hdr k = .ok (x : Int) := by
  rw [rounds_spanOf] at hk
  have hi : p / sectorSize + k ≤ (p + q - 1) / sectorSize := by omega
  have hlt : (p + q - 1) / sectorSize < xs.length := by
    rw [h.length]
    exact lt_divRoundUp (by decide) (by omega)
  have hx : xs[p / sectorSize + k]? = some xs[p / sectorSize + k] := List.getElem?_eq_getElem (by omega)
  refine ⟨_, hx, ?_⟩
  have hle : (p / sectorSize + k) * sectorSize ≤ 30 * 128 :=
    Nat.mul_le_mul (by have : xs.length ≤ 30 := h.le; omega) (by decide)
  have ho : int (((p / sectorSize : Nat) + (k : Int)) * sectorSize) =
      ((p / sectorSize + k) * sectorSize : Nat) := by
    rw [← Int.natCast_add, ← Int.natCast_mul]
    exact int_eq (by omega) (by omega)
  unfold Span.sectorAt
  simp only [spanOf]
  rw [ho]
  exact h.byteToSector_eq (by rw [Nat.mul_div_cancel _ (by decide), hx])

end

theorem slice_eq (h : o + k ≤ buf.length) : slice buf o k = .ok ((buf.drop o).take k) := by
  unfold slice
  rw [if_pos (by omega)]
  rfl

theorem readSector_eq (hx : x < numSectors) : readSector disk x = .ok (disk x) := by
  unfold readSector
  rw [assert_of (by omega)]
  rfl

theorem offset_eq (p : Nat) : (p : Int) - (p / sectorSize : Nat) * sectorSize = (p % sectorSize : Nat) := by
  have := Nat.div_add_mod p sectorSize
  rw [Nat.mul_comm] at this
  omega

theorem mod_add_le (hq : 0 < q) : p % sectorSize + q ≤ (spanOf p q).rounds * sectorSize := by
  rw [rounds_spanOf]
  unfold sectorSize
  omega

theorem rounds_le (h : Describes cfg hdr n xs) (hq : 0 < q) (hp : p + q ≤ n) :
    p / sectorSize + (spanOf p q).rounds ≤ xs.length := by
  have hlt : (p + q - 1) / sectorSize < xs.length := by
    rw [h.length]
    exact lt_divRoundUp (by decide) (by omega)
  have hle : p / sectorSize ≤ (p + q - 1) / sectorSize := Nat.div_le_div_right (by omega)
  rw [rounds_spanOf]
  omega

theorem readAt_eq (disk : Disk) (h : Describes cfg hdr n xs) {m : Nat} (hm : 0 < m) (hp : p < n)
    (hr : p + m < 2 ^ 31) : readAt cfg disk hdr m p = .ok (((fileBytes disk n xs).drop p).take m) := by
  obtain ⟨q, hq⟩ : ∃ q, q = min m (n - p) := ⟨_, rfl⟩
  have hq0 : 0 < q := by omega
  have hle := rounds_le h hq0 (by omega : p + q ≤ n)
  -- the rounds read the sectors from the first one of the request on
  have hsec : (List.range (spanOf p q).rounds).mapM (fun k => do
      readSector disk (← (spanOf p q).sectorAt cfg hdr k)) =
      .ok ((List.range (spanOf p q).rounds).map fun k => disk (xs.getD (p / sectorSize + k) 0)) := by
    refine mapM_ok fun k hk => ?_
    obtain ⟨x, hx, hs⟩ := sectorAt_eq h hp hq (List.mem_range.1 hk)
    rw [hs, ok_bind, readSector_eq (h.lt x (List.mem_of_getElem? hx)), List.getD_eq_getElem?_getD, hx]
    rfl
  have hbuf : ((List.range (spanOf p q).rounds).map fun k =>
      disk (xs.getD (p / sectorSize + k) 0)).flatMap (·.1) =
      contents disk ((xs.drop (p / sectorSize)).take (spanOf p q).rounds) := by
    rw [← map_getD_range hle 0, contents, List.flatMap_map, List.flatMap_map]
  have hlen : (contents disk ((xs.drop (p / sectorSize)).take (spanOf p q).rounds)).length =
      (spanOf p q).rounds * sectorSize := by
    rw [length_contents, List.length_take, List.length_drop, Nat.min_eq_left (by omega)]
  -- the part of the buffer that is copied out
  have hpart : ((contents disk ((xs.drop (p / sectorSize)).take (spanOf p q).rounds)).drop
      (p % sectorSize)).take q = ((fileBytes disk n xs).drop p).take m := by
    have hd : (contents disk xs).drop p =
        ((contents disk xs).drop (p / sectorSize * sectorSize)).drop (p % sectorSize) := by
      rw [List.drop_drop, Nat.mul_comm, Nat.div_add_mod]
    unfold fileBytes
    rw [List.drop_take, List.take_take, hd, ← hq]
    unfold contents
    rw [← take_flatMap_const fun x _ => (disk x).2, ← drop_flatMap_const fun x _ => (disk x).2,
      List.drop_take, List.take_take, Nat.min_eq_left (by have := mod_add_le (p := p) hq0; omega)]
  unfold readAt
  rw [span_eq h hm hp hr hq, ok_bind]
  simp only [hsec, ok_bind, hbuf]
  rw [if_pos (by rw [hlen, size_spanOf])]
  simp only [spanOf, offset_eq]
  rw [slice_eq (by rw [← spanOf.eq_def, hlen]; exact mod_add_le hq0), ← hpart]
  rfl

/-! ## Writing -/

def block (bytes : List Byte) (b : Nat) : List Byte := (bytes.drop (b * sectorSize)).take sectorSize

theorem getElem?_block (hi : i < sectorSize) :
    (block bytes b)[i]? = bytes[b * sectorSize + i]? := by
  rw [block, List.getElem?_take_of_lt hi, List.getElem?_drop]

theorem length_block_le (bytes : List Byte) (b : Nat) : (block bytes b).length ≤ sectorSize := by
  rw [block, List.length_take]
  exact Nat.min_le_left ..

theorem copyTo_eq {src : List Byte} (hk : k ≤ src.length) (ho : o + k ≤ buf.length) :
    copyTo src buf o k = .ok (patch buf o (src.take k)) := by
  have hlen : (src.take k).length = k := by rw [List.length_take, Nat.min_eq_left hk]
  unfold copyTo bcopy
  rw [if_pos (by omega), Int.toNat_natCast, Int.toNat_natCast, if_pos ⟨hk, ho⟩,
    patch_eq (by omega), hlen]

theorem readPart_eq (disk : Disk) (buf : List Byte) (c : Prop) [Decidable c]
    (h : Describes cfg hdr n xs) (hb : b * sectorSize < n) (ho : o + sectorSize ≤ buf.length) :
    readPart cfg disk hdr c buf o b =
      .ok (if c then patch buf o (block (fileBytes disk n xs) b) else buf) := by
  have hn : n ≤ 3840 := h.le_max
  have hle := length_block_le (fileBytes disk n xs) b
  unfold readPart
  split
  · rw [← Int.natCast_mul, int_eq (by omega) (by omega),
      readAt_eq disk h (by decide) hb (by unfold sectorSize at *; omega), ok_bind]
    change copyTo (block (fileBytes disk n xs) b) buf o (block (fileBytes disk n xs) b).length = _
    rw [copyTo_eq (Nat.le_refl _) (by omega), List.take_length]
  · rfl

def oldBuffer (buf bytes : List Byte) (p q : Nat) : List Byte :=
  let f := p / sectorSize
  let l := (p + q - 1) / sectorSize
  let buf := if p % sectorSize ≠ 0 then patch buf 0 (block bytes f) else buf
  if p + q ≠ (l + 1) * sectorSize ∧ (f ≠ l ∨ p % sectorSize = 0) then
    patch buf ((l - f) * sectorSize) (block bytes l)
  else buf

theorem fillBuffer_eq (h : Describes cfg hdr n xs) {data : List Byte} (hq : 0 < q)
    (hp : p + q ≤ n) (hd : q ≤ data.length) (memory : Nat → Byte) :
    fillBuffer cfg disk hdr data p (spanOf p q) memory =
      .ok (patch (oldBuffer ((List.range (spanOf p q).size).map memory) (fileBytes disk n xs) p q)
        (p % sectorSize) (data.take q)) := by
  have hn : n ≤ 3840 := h.le_max
  have hfl : p / sectorSize ≤ (p + q - 1) / sectorSize := Nat.div_le_div_right (by omega)
  have hf : p / sectorSize * sectorSize ≤ p := Nat.div_mul_le_self ..
  have hl : (p + q - 1) / sectorSize * sectorSize ≤ p + q - 1 := Nat.div_mul_le_self ..
  have hfn : p / sectorSize * sectorSize < n := by omega
  have hln : (p + q - 1) / sectorSize * sectorSize < n := by omega
  have hl1 : ((p + q - 1) / sectorSize + 1) * sectorSize ≤ 31 * 128 :=
    Nat.mul_le_mul (by unfold sectorSize; omega) (by decide)
  have hsize : (spanOf p q).size = ((p + q - 1) / sectorSize + 1 - p / sectorSize) * sectorSize := rfl
  have hfirst : ((p : Int) = int ((spanOf p q).firstSector * sectorSize)) ↔ p % sectorSize = 0 := by
    change (p : Int) = int ((p / sectorSize : Nat) * (sectorSize : Int)) ↔ _
    rw [← Int.natCast_mul, int_eq (by omega) (by omega)]
    have := Nat.div_add_mod p sectorSize
    rw [Nat.mul_comm] at this
    omega
  have hlast : (int ((p : Int) + (spanOf p q).numBytes) =
      int (((spanOf p q).lastSector + 1) * sectorSize)) ↔
      p + q = ((p + q - 1) / sectorSize + 1) * sectorSize := by
    change int ((p : Int) + q) = int (((p + q - 1) / sectorSize + 1 : Nat) * (sectorSize : Int)) ↔ _
    rw [int_eq (by omega) (by omega), ← Int.natCast_mul, int_eq (by omega) (by omega)]
    omega
  have hne : (spanOf p q).firstSector = (spanOf p q).lastSector ↔
      p / sectorSize = (p + q - 1) / sectorSize := by
    change ((p / sectorSize : Nat) : Int) = ((p + q - 1) / sectorSize : Nat) ↔ _
    omega
  have hrounds : 0 + sectorSize ≤ (spanOf p q).size ∧
      ((p + q - 1) / sectorSize - p / sectorSize) * sectorSize + sectorSize ≤ (spanOf p q).size := by
    rw [hsize]
    unfold sectorSize at *
    omega
  have hgap : ((spanOf p q).lastSector - (spanOf p q).firstSector) * sectorSize =
      (((p + q - 1) / sectorSize - p / sectorSize) * sectorSize : Nat) := by
    change (((p + q - 1) / sectorSize : Nat) - ((p / sectorSize : Nat) : Int)) * (sectorSize : Int) = _
    rw [← Int.natCast_sub hfl, ← Int.natCast_mul]
  have hmod := mod_add_le (p := p) hq
  rw [← size_spanOf] at hmod
  unfold fillBuffer oldBuffer
  simp only [hfirst, hlast, hgap, ne_eq, hne]
  generalize hbuf : (List.range (spanOf p q).size).map memory = buf
  have hlen : buf.length = (spanOf p q).size := by rw [← hbuf, List.length_map, List.length_range]
  have hlen1 : ∀ (c : Prop) [Decidable c] (l bs : List Byte) (o : Nat),
      (if c then patch l o bs else l).length = l.length := by
    intro c _ l bs o
    split
    · exact length_patch ..
    · rfl
  rw [show (spanOf p q).firstSector = (p / sectorSize : Nat) from rfl,
    show (spanOf p q).lastSector = ((p + q - 1) / sectorSize : Nat) from rfl,
    show (spanOf p q).numBytes = q from rfl, offset_eq, ← Int.natCast_zero,
    readPart_eq disk _ _ h hfn (by rw [hlen]; exact hrounds.1), ok_bind,
    readPart_eq disk _ _ h hln (by rw [hlen1, hlen]; exact hrounds.2), ok_bind,
    copyTo_eq hd (by rw [hlen1, hlen1, hlen]; exact hmod)]

theorem getElem?_patch_block {j : Nat}
    (ho : o + sectorSize ≤ buf.length) (hj : b * sectorSize ≤ j) (hj' : j < (b + 1) * sectorSize)
    (hn : j < bytes.length) (hk : k = o + (j - b * sectorSize)) :
    (patch buf o (block bytes b))[k]? = bytes[j]? := by
  have hle := length_block_le bytes b
  rw [Nat.add_mul, Nat.one_mul] at hj'
  have hlt : j - b * sectorSize < (block bytes b).length := by
    rw [block, List.length_take, List.length_drop]
    omega
  rw [getElem?_patch_of_mem (by omega) (by omega) (by omega), hk, Nat.add_sub_cancel_left,
    getElem?_block (by omega), Nat.add_sub_cancel' hj]

@[simp] theorem length_oldBuffer (buf bytes : List Byte) (p q : Nat) :
    (oldBuffer buf bytes p q).length = buf.length := by
  unfold oldBuffer
  simp only
  split <;> split <;> simp

theorem getElem?_oldBuffer {j : Nat} (hq : 0 < q)
    (hbuf : buf.length = (spanOf p q).size) (hj : p / sectorSize * sectorSize ≤ j)
    (hj' : j < ((p + q - 1) / sectorSize + 1) * sectorSize) (hn : j < bytes.length)
    (ho : j < p ∨ p + q ≤ j) :
    (oldBuffer buf bytes p q)[j - p / sectorSize * sectorSize]? = bytes[j]? := by
  have hfl : p / sectorSize ≤ (p + q - 1) / sectorSize := Nat.div_le_div_right (by omega)
  have hpd := Nat.div_add_mod p sectorSize
  have hpm := Nat.mod_lt p (show 0 < sectorSize by decide)
  have hld := Nat.div_add_mod (p + q - 1) sectorSize
  have hlm := Nat.mod_lt (p + q - 1) (show 0 < sectorSize by decide)
  have hsize : buf.length = ((p + q - 1) / sectorSize + 1 - p / sectorSize) * sectorSize := hbuf
  have hS : sectorSize = 128 := rfl
  unfold oldBuffer
  generalize p / sectorSize = f at *
  generalize (p + q - 1) / sectorSize = l at *
  generalize p % sectorSize = r at *
  generalize (p + q - 1) % sectorSize = t at *
  simp only
  have hfirst : j < (f + 1) * sectorSize →
      (patch buf 0 (block bytes f))[j - f * sectorSize]? = bytes[j]? :=
    fun h => getElem?_patch_block (by rw [hS] at *; omega) hj h hn (by omega)
  rcases ho with ho | ho
  · -- a byte in front of the request is in its first sector
    have hr : r ≠ 0 := by rw [hS] at *; omega
    have h := hfirst (by rw [hS] at *; omega)
    rw [if_pos hr]
    split
    · rename_i hc
      rw [getElem?_patch_of_not (.inl (by rw [hS] at *; omega))]
      exact h
    · exact h
  · -- a byte behind the request is in its last sector
    by_cases hc : f ≠ l ∨ r = 0
    · rw [if_pos ⟨by rw [hS] at *; omega, hc⟩]
      refine getElem?_patch_block ?_ (by rw [hS] at *; omega) hj' hn (by rw [hS] at *; omega)
      split
      · rw [length_patch, hsize, hS]
        omega
      · rw [hsize, hS]
        omega
    · rw [if_neg fun h => hc h.2, if_pos (by omega)]
      exact hfirst (by rw [hS] at *; omega)

def blockSector (buf : List Byte) (k : Nat) : Sector :=
  ⟨(List.range sectorSize).map fun i => buf.getD (k * sectorSize + i) 0, by
    rw [List.length_map, List.length_range]⟩

theorem blockSector_val (h : (k + 1) * sectorSize ≤ buf.length) :
    (blockSector buf k).1 = block buf k := by
  rw [Nat.add_mul, Nat.one_mul] at h
  exact map_getD_range h 0

theorem writeSlice_eq (hx : x < numSectors) (h : (k + 1) * sectorSize ≤ buf.length) :
    writeSlice disk x buf (k * sectorSize) = .ok (Function.update disk x (blockSector buf k)) := by
  have hb := blockSector_val h
  have hlen := hb ▸ (blockSector buf k).2
  rw [Nat.add_mul, Nat.one_mul] at h
  unfold writeSlice writeSector
  rw [slice_eq h, ok_bind, dif_pos (by exact hlen), assert_of (by omega), ok_bind,
    Int.toNat_natCast, pure_eq_ok]
  congr 2
  exact Subtype.ext hb.symm

def writeBlocks (disk : Disk) (buf : List Byte) (ys : List Nat) : Disk :=
  (List.range ys.length).foldl (fun disk k => Function.update disk (ys.getD k 0) (blockSector buf k)) disk

theorem writeBlocks_of_not {ys : List Nat} (hx : x ∉ ys) : writeBlocks disk buf ys x = disk x := by
  refine foldl_update_of_not fun k hk he => hx ?_
  have hk := List.mem_range.1 hk
  rw [← he, List.getD_eq_getElem?_getD, List.getElem?_eq_getElem hk]
  exact List.getElem_mem hk

theorem writeBlocks_of_mem {ys : List Nat} (hy : ys.Nodup) {y : Nat}
    (hk : ys[k]? = some y) : writeBlocks disk buf ys y = blockSector buf k := by
  have hlt := (List.getElem?_eq_some_iff.1 hk).1
  have hy' : ys.getD k 0 = y := by rw [List.getD_eq_getElem?_getD, hk]; rfl
  have hmap : (List.range ys.length).map (fun k => ys.getD k 0) = ys := by
    have := map_getD_range (l := ys) (i := 0) (n := ys.length) (by omega) 0
    simpa using this
  rw [← hy']
  refine foldl_update_of_mem ?_ (List.mem_range.2 hlt)
  rw [hmap]
  exact hy

theorem fileBytes_writeBlocks {f r : Nat} (hx : xs.Nodup)
    (hf : f + r ≤ xs.length) (hbuf : buf.length = r * sectorSize)
    (hn : n ≤ xs.length * sectorSize) (hlen : bytes.length = n)
    (hin : ∀ j, f * sectorSize ≤ j → j < (f + r) * sectorSize → j < n →
      buf[j - f * sectorSize]? = bytes[j]?)
    (hout : ∀ j < n, j < f * sectorSize ∨ (f + r) * sectorSize ≤ j →
      (fileBytes disk n xs)[j]? = bytes[j]?) :
    fileBytes (writeBlocks disk buf ((xs.drop f).take r)) n xs = bytes := by
  apply List.ext_getElem?
  intro j
  by_cases hj : j < n
  · have hjd := Nat.div_add_mod j sectorSize
    have hjm := Nat.mod_lt j (show 0 < sectorSize by decide)
    have hlt : j / sectorSize < xs.length := Nat.div_lt_of_lt_mul (by rw [Nat.mul_comm]; omega)
    have hsome : xs[j / sectorSize]? = some xs[j / sectorSize] := List.getElem?_eq_getElem hlt
    rw [fileBytes, List.getElem?_take_of_lt hj, getElem?_contents, hsome]
    change (writeBlocks disk buf ((xs.drop f).take r) xs[j / sectorSize]).1[j % sectorSize]? = _
    by_cases hc : f ≤ j / sectorSize ∧ j / sectorSize < f + r
    · -- the sector was written
      have hk : ((xs.drop f).take r)[j / sectorSize - f]? = some xs[j / sectorSize] := by
        rw [List.getElem?_take_of_lt (by omega), List.getElem?_drop, Nat.add_sub_cancel' hc.1, hsome]
      have hblk : (j / sectorSize - f + 1) * sectorSize ≤ buf.length := by
        rw [hbuf]
        exact Nat.mul_le_mul_right _ (by omega)
      have hidx : (j / sectorSize - f) * sectorSize + j % sectorSize = j - f * sectorSize := by
        have := Nat.mul_le_mul_right sectorSize hc.1
        rw [Nat.sub_mul]
        rw [Nat.mul_comm] at hjd
        omega
      rw [writeBlocks_of_mem (hx.sublist ((List.take_sublist ..).trans (List.drop_sublist ..))) hk,
        blockSector_val hblk, getElem?_block hjm, hidx]
      have h1 := Nat.mul_le_mul_right sectorSize hc.1
      have h2 := Nat.mul_le_mul_right sectorSize (show j / sectorSize + 1 ≤ f + r by omega)
      rw [Nat.add_mul, Nat.one_mul] at h2
      rw [Nat.mul_comm] at hjd
      exact hin j (by omega) (by omega) hj
    · -- no other sector of the file is this one
      have hnot : xs[j / sectorSize] ∉ (xs.drop f).take r := by
        intro hm
        obtain ⟨k, hk⟩ := List.mem_iff_getElem?.1 hm
        have hkr : k < r := by
          have := (List.getElem?_eq_some_iff.1 hk).1
          rw [List.length_take] at this
          omega
        rw [List.getElem?_take_of_lt hkr, List.getElem?_drop, ← hsome] at hk
        have := (List.getElem?_inj (by omega) hx).1 hk
        omega
      rw [writeBlocks_of_not hnot, ← hout j hj ?_, fileBytes, List.getElem?_take_of_lt hj,
        getElem?_contents, hsome]
      · rfl
      · rw [← Nat.div_lt_iff_lt_mul (by decide), ← Nat.le_div_iff_mul_le (by decide)]
        omega
  · rw [List.getElem?_eq_none (by rw [fileBytes, List.length_take]; omega),
      List.getElem?_eq_none (by omega)]

/-- **`WriteAt`** of a part of a file: no other sector changes, and the file holds the new bytes in the
place of the old ones. -/
theorem writeAt_eq (disk : Disk) (h : Describes cfg hdr n xs) (hx : xs.Nodup) (data : List Byte)
    {m : Nat} (hm : 0 < m) (hp : p < n) (hr : p + m < 2 ^ 31) (hd : m ≤ data.length) (memory : Nat → Byte) :
    ∃ disk', writeAt cfg disk hdr data m p memory = .ok ((min m (n - p) : Nat), disk') ∧
      (∀ x, x ∉ xs → disk' x = disk x) ∧
      fileBytes disk' n xs = patch (fileBytes disk n xs) p (data.take (min m (n - p))) := by
  obtain ⟨q, hq⟩ : ∃ q, q = min m (n - p) := ⟨_, rfl⟩
  have hq0 : 0 < q := by omega
  have hpq : p + q ≤ n := by omega
  have hle := rounds_le h hq0 hpq
  have hlen := h.length_fileBytes disk
  have hmod := mod_add_le (p := p) hq0
  generalize hbuf : patch (oldBuffer ((List.range (spanOf p q).size).map memory) (fileBytes disk n xs)
    p q) (p % sectorSize) (data.take q) = buf
  have hblen : buf.length = (spanOf p q).rounds * sectorSize := by
    rw [← hbuf, length_patch, length_oldBuffer, List.length_map, List.length_range, size_spanOf]
  have hys : ((xs.drop (p / sectorSize)).take (spanOf p q).rounds).length = (spanOf p q).rounds := by
    rw [List.length_take, List.length_drop]
    omega
  -- the rounds write the sectors of the request
  have hloop : (List.range (spanOf p q).rounds).foldlM (fun disk k => do
      writeSlice disk (← (spanOf p q).sectorAt cfg hdr k) buf (k * sectorSize)) disk =
      .ok (writeBlocks disk buf ((xs.drop (p / sectorSize)).take (spanOf p q).rounds)) := by
    rw [writeBlocks, hys]
    refine foldlM_ok (fun k hk disk => ?_) disk
    have hk := List.mem_range.1 hk
    obtain ⟨x, hx, hs⟩ := sectorAt_eq h hp hq hk
    rw [hs, ok_bind, writeSlice_eq (h.lt x (List.mem_of_getElem? hx)) (by
      rw [hblen]; exact Nat.mul_le_mul_right _ hk), List.getD_eq_getElem?_getD,
      List.getElem?_take_of_lt hk, List.getElem?_drop, hx]
    rfl
  refine ⟨writeBlocks disk buf ((xs.drop (p / sectorSize)).take (spanOf p q).rounds), ?_,
    fun x hx => writeBlocks_of_not fun hm => hx (List.mem_of_mem_drop (List.mem_of_mem_take hm)), ?_⟩
  · unfold writeAt
    rw [span_eq h hm hp hr hq, ok_bind]
    simp only
    rw [fillBuffer_eq h hq0 hpq (by omega), ok_bind, hbuf, hloop, ok_bind, ← hq]
    rfl
  · have hdata : (data.take q).length = q := by rw [List.length_take]; omega
    have hpd := Nat.div_add_mod p sectorSize
    rw [Nat.mul_comm] at hpd
    have hend : (p / sectorSize + (spanOf p q).rounds) * sectorSize =
        ((p + q - 1) / sectorSize + 1) * sectorSize := by
      have : p / sectorSize ≤ (p + q - 1) / sectorSize := Nat.div_le_div_right (by omega)
      rw [rounds_spanOf, show p / sectorSize + ((p + q - 1) / sectorSize + 1 - p / sectorSize) =
        (p + q - 1) / sectorSize + 1 by omega]
    have hover : p + q ≤ ((p + q - 1) / sectorSize + 1) * sectorSize := by
      have := Nat.lt_div_mul_add (a := p + q - 1) (show 0 < sectorSize by decide)
      rw [Nat.add_mul, Nat.one_mul]
      omega
    rw [← hq]
    refine fileBytes_writeBlocks hx hle hblen h.le_mul (by rw [length_patch, hlen]) ?_ ?_
    · intro j hj hj' hjn
      rw [← hbuf]
      by_cases hc : p ≤ j ∧ j < p + q
      · have hroom : p % sectorSize + (data.take q).length ≤
            (oldBuffer ((List.range (spanOf p q).size).map memory) (fileBytes disk n xs) p q).length := by
          rw [length_oldBuffer, List.length_map, List.length_range, size_spanOf, hdata]
          exact hmod
        rw [getElem?_patch_of_mem hroom (by omega) (by omega),
          getElem?_patch_of_mem (by omega) (by omega) (by omega)]
        congr 1
        omega
      · rw [getElem?_patch_of_not (by omega), getElem?_patch_of_not (by omega)]
        exact getElem?_oldBuffer hq0 (by rw [List.length_map, List.length_range]) hj (hend ▸ hj')
          (by omega) (by omega)
    · intro j hj ho
      rw [getElem?_patch_of_not (by omega)]

end Nachos.FileSystem
