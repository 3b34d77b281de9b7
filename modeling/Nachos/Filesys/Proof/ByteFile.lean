import Nachos.Filesys.Proof.Contents

/-!
# An open file is an array of bytes

`ByteFile` is a file as its users see it: bytes, and a seek position. `ReadAt` and `WriteAt` on a disk do
what `ByteFile.readAt` and `ByteFile.writeAt` do to the bytes of the file (`openFile_refines`), and so do
any operations one after the other (`seekFile_refines`).
-/

namespace Nachos.FileSystem

open Base Interrupt

/-! ## The array of bytes -/

structure ByteFile where
  bytes : List Byte
  seekPosition : Int

namespace ByteFile

/-- How many bytes a request is for, within a file of this length. -/
def count (length numBytes position : Int) : Int := max 0 (min numBytes (length - position))

def readAt (f : ByteFile) (numBytes position : Int) : List Byte :=
  (f.bytes.drop position.toNat).take (count f.bytes.length numBytes position).toNat

def writeAt (f : ByteFile) (data : List Byte) (numBytes position : Int) : ByteFile :=
  let written := data.take (count f.bytes.length numBytes position).toNat
  { f with bytes := patch f.bytes position.toNat written }

def seek (f : ByteFile) (position : Int) : ByteFile := { f with seekPosition := position }

def call (f : ByteFile) : FileCall → Answer × ByteFile
  | .readAt numBytes position => (.bytes (f.readAt numBytes position), f)
  | .writeAt data numBytes position _ =>
    (.count (count f.bytes.length numBytes position), f.writeAt data numBytes position)
  | .seek position => (.nothing, f.seek position)
  | .read numBytes =>
    (.bytes (f.readAt numBytes f.seekPosition),
      f.seek (f.seekPosition + count f.bytes.length numBytes f.seekPosition))
  | .write data numBytes _ =>
    (.count (count f.bytes.length numBytes f.seekPosition),
      (f.writeAt data numBytes f.seekPosition).seek
        (f.seekPosition + count f.bytes.length numBytes f.seekPosition))

def calls (f : ByteFile) : List FileCall → List Answer × ByteFile
  | [] => ([], f)
  | c :: cs => ((f.call c).1 :: ((f.call c).2.calls cs).1, ((f.call c).2.calls cs).2)

/-- The request is one of `int`s that start in front of the greatest `int`, and the caller's buffer is
large enough. -/
def Fits (f : ByteFile) : FileCall → Prop
  | .readAt numBytes position => 0 ≤ position ∧ position + numBytes < 2 ^ 31
  | .writeAt data numBytes position _ =>
    0 ≤ position ∧ position + numBytes < 2 ^ 31 ∧ numBytes ≤ data.length
  | .seek position => 0 ≤ position ∧ position < 2 ^ 31
  | .read numBytes => f.seekPosition + numBytes < 2 ^ 31
  | .write data numBytes _ => f.seekPosition + numBytes < 2 ^ 31 ∧ numBytes ≤ data.length

def AllFit (f : ByteFile) : List FileCall → Prop
  | [] => True
  | c :: cs => f.Fits c ∧ (f.call c).2.AllFit cs

end ByteFile

variable {cfg : Build} {hdr : FileHeader} {n : Nat} {xs : List Nat} {numBytes position : Int}
    {data : List Byte} {disk : Disk} {f : SeekFile} {b : ByteFile}

theorem count_pos (hpos : 0 ≤ position) (h : ¬ (numBytes ≤ 0 ∨ position ≥ n)) :
    ∃ m p : Nat, numBytes = m ∧ position = p ∧ 0 < m ∧ p < n ∧
      (ByteFile.count n numBytes position).toNat = min m (n - p) := by
  unfold ByteFile.count
  exact ⟨numBytes.toNat, position.toNat, by omega, by omega, by omega, by omega, by omega⟩

theorem count_nonneg (length numBytes position : Int) : 0 ≤ ByteFile.count length numBytes position :=
  le_max_left _ _

theorem count_refused (h : numBytes ≤ 0 ∨ position ≥ n) : ByteFile.count n numBytes position = 0 := by
  unfold ByteFile.count
  omega

theorem span_refused (h : Describes cfg hdr n xs) (hno : numBytes ≤ 0 ∨ position ≥ n) :
    span cfg hdr numBytes position = .ok none := by
  unfold span
  dsimp only
  rw [h.numBytes, if_pos hno]

theorem readAt_refines (disk : Disk) (h : Describes cfg hdr n xs) (hpos : 0 ≤ position)
    (hr : position + numBytes < 2 ^ 31) (seek : Int) :
    readAt cfg disk hdr numBytes position =
      .ok ((ByteFile.mk (fileBytes disk n xs) seek).readAt numBytes position) := by
  have hlen := h.length_fileBytes disk
  unfold ByteFile.readAt
  dsimp only
  rw [hlen]
  by_cases hno : numBytes ≤ 0 ∨ position ≥ n
  · rw [count_refused hno]
    unfold readAt
    rw [span_refused h hno]
    rfl
  · obtain ⟨m, p, rfl, rfl, hm, hp, hcount⟩ := count_pos hpos hno
    rw [readAt_eq disk h hm hp (by omega), hcount, Int.toNat_natCast]
    refine congrArg Except.ok (List.take_eq_take_iff.2 ?_)
    rw [List.length_drop, hlen]
    omega

theorem writeAt_refines (disk : Disk) (h : Describes cfg hdr n xs) (hx : xs.Nodup) (hpos : 0 ≤ position)
    (hr : position + numBytes < 2 ^ 31) (hd : numBytes ≤ data.length)
    (memory : Nat → Byte) (seek : Int) :
    ∃ disk', writeAt cfg disk hdr data numBytes position memory =
        .ok (ByteFile.count n numBytes position, disk') ∧
      (∀ x, x ∉ xs → disk' x = disk x) ∧
      ByteFile.mk (fileBytes disk' n xs) seek =
        (ByteFile.mk (fileBytes disk n xs) seek).writeAt data numBytes position := by
  have hlen := h.length_fileBytes disk
  unfold ByteFile.writeAt
  dsimp only
  rw [hlen]
  by_cases hno : numBytes ≤ 0 ∨ position ≥ n
  · refine ⟨disk, ?_, fun _ _ => rfl, ?_⟩
    · unfold writeAt
      rw [span_refused h hno, count_refused hno]
      rfl
    · rw [count_refused hno, Int.toNat_zero, List.take_zero, patch_nil]
  · obtain ⟨m, p, rfl, rfl, hm, hp, hcount⟩ := count_pos hpos hno
    obtain ⟨disk', hw, hother, hbytes⟩ := writeAt_eq disk h hx data hm hp (by omega) (by omega) memory
    refine ⟨disk', ?_, hother, ?_⟩
    · rw [hw, ← hcount, Int.toNat_of_nonneg (count_nonneg _ _ _)]
    · rw [hbytes, hcount, Int.toNat_natCast]

/-! ## Seek positions -/

theorem int_add_count (hpos : 0 ≤ position) (hint : position < 2 ^ 31)
    (hr : position + numBytes < 2 ^ 31) :
    int (position + ByteFile.count n numBytes position) =
      position + ByteFile.count n numBytes position := by
  have hle : ByteFile.count n numBytes position ≤ max 0 numBytes := by
    unfold ByteFile.count
    omega
  have hnonneg := count_nonneg n numBytes position
  unfold int
  exact Int.bmod_eq_of_le (by omega) (by omega)

theorem length_readAt (f : ByteFile) (numBytes : Int) (hpos : 0 ≤ position) :
    ((f.readAt numBytes position).length : Int) = ByteFile.count f.bytes.length numBytes position := by
  unfold ByteFile.readAt ByteFile.count
  rw [List.length_take, List.length_drop]
  omega

theorem read_refines (disk : Disk) (h : Describes cfg hdr n xs) (hpos : 0 ≤ position)
    (hint : position < 2 ^ 31) (hr : position + numBytes < 2 ^ 31) :
    SeekFile.read cfg disk ⟨hdr, position⟩ numBytes =
      .ok ((ByteFile.mk (fileBytes disk n xs) position).readAt numBytes position,
        ⟨hdr, position + ByteFile.count n numBytes position⟩) := by
  unfold SeekFile.read
  rw [readAt_refines disk h hpos hr position, ok_bind, length_readAt _ _ hpos]
  dsimp only
  rw [h.length_fileBytes, int_add_count hpos hint hr]
  rfl

theorem write_refines {disk' : Disk} {memory : Nat → Byte} (hpos : 0 ≤ position)
    (hint : position < 2 ^ 31) (hr : position + numBytes < 2 ^ 31)
    (hw : writeAt cfg disk hdr data numBytes position memory =
      .ok (ByteFile.count n numBytes position, disk')) :
    SeekFile.write cfg disk ⟨hdr, position⟩ data numBytes memory =
      .ok (ByteFile.count n numBytes position, disk',
        ⟨hdr, position + ByteFile.count n numBytes position⟩) := by
  unfold SeekFile.write
  rw [hw, ok_bind]
  dsimp only
  rw [int_add_count hpos hint hr]
  rfl

/-! ## Requests -/

/-- **An open file is an array of bytes.** -/
theorem openFile_refines (disk : Disk) (h : Describes cfg hdr n xs) (hx : xs.Nodup)
    (hpos : 0 ≤ position) (hint : position < 2 ^ 31) (hr : position + numBytes < 2 ^ 31) :
    (∃ bytes, readAt cfg disk hdr numBytes position = .ok bytes ∧
      (bytes.length : Int) = max 0 (min numBytes (n - position)) ∧
      (∀ i < bytes.length, bytes[i]? = (fileBytes disk n xs)[position.toNat + i]?) ∧
      SeekFile.read cfg disk ⟨hdr, position⟩ numBytes =
        .ok (bytes, ⟨hdr, position + bytes.length⟩)) ∧
    ∀ (data : List Byte) (memory : Nat → Byte), numBytes ≤ data.length →
      ∃ result disk', writeAt cfg disk hdr data numBytes position memory = .ok (result, disk') ∧
        result = max 0 (min numBytes (n - position)) ∧
        (∀ j < n, (fileBytes disk' n xs)[j]? =
          if position ≤ j ∧ j < position + result then data[j - position.toNat]?
          else (fileBytes disk n xs)[j]?) ∧
        (∀ x, x ∉ xs → disk' x = disk x) ∧
        SeekFile.write cfg disk ⟨hdr, position⟩ data numBytes memory =
          .ok (result, disk', ⟨hdr, position + result⟩) := by
  have hlen := h.length_fileBytes disk
  refine ⟨?_, fun data memory hd => ?_⟩
  · have hcount := length_readAt ⟨fileBytes disk n xs, position⟩ numBytes hpos
    rw [hlen] at hcount
    refine ⟨_, readAt_refines disk h hpos hr position, hcount, fun i hi => ?_, ?_⟩
    · unfold ByteFile.readAt at hi ⊢
      rw [List.length_take] at hi
      rw [List.getElem?_take_of_lt (by omega), List.getElem?_drop]
    · rw [read_refines disk h hpos hint hr, hcount]
  · obtain ⟨disk', hw, hother, hbytes⟩ := writeAt_refines disk h hx hpos hr hd memory position
    refine ⟨_, disk', hw, rfl, fun j hj => ?_, hother, write_refines hpos hint hr hw⟩
    have hbytes := congrArg ByteFile.bytes hbytes
    change fileBytes disk' n xs = patch (fileBytes disk n xs) position.toNat (data.take _) at hbytes
    rw [hlen] at hbytes
    have hnonneg := count_nonneg n numBytes position
    have hle : ByteFile.count n numBytes position ≤ max 0 numBytes := by
      unfold ByteFile.count
      omega
    have hdata : (data.take (ByteFile.count n numBytes position).toNat).length =
        (ByteFile.count n numBytes position).toNat := by
      rw [List.length_take]
      omega
    rw [hbytes]
    by_cases hin : position ≤ j ∧ j < position + ByteFile.count n numBytes position
    · have hfit : position + ByteFile.count n numBytes position ≤ n := by
        unfold ByteFile.count at hin ⊢
        omega
      rw [if_pos hin, getElem?_patch_of_mem (by omega) (by omega) (by omega),
        List.getElem?_take_of_lt (by omega)]
    · rw [if_neg hin, getElem?_patch_of_not (by omega)]

def smallHeader : FileHeader :=
  ⟨[200, 0, 0, 0, 2, 0, 0, 0, 5, 0, 0, 0, 7, 0, 0, 0] ++ List.replicate 112 0, rfl⟩

theorem describes_smallHeader : Describes buildLinux smallHeader 200 [5, 7] where
  numBytes := by decide
  numSectors := by decide
  length := by decide
  le := by decide
  data i x hi := by
    match i, hi with
    | 0, hi => cases hi; decide
    | 1, hi => cases hi; decide
  lt := by decide

/-- A request that reaches behind the end of the file. -/
theorem openFile_refines_smallHeader : ∃ bytes,
    readAt buildLinux (fun _ => smallHeader) smallHeader 100 150 = .ok bytes ∧ bytes.length = 50 := by
  obtain ⟨bytes, hread, hlen, -⟩ := (openFile_refines (fun _ => smallHeader) describes_smallHeader
    (by decide) (show (0 : Int) ≤ 150 by decide) (by decide)
    (show (150 : Int) + 100 < 2 ^ 31 by decide)).1
  refine ⟨bytes, hread, ?_⟩
  omega

/-! ## Runs -/

/-- What a call keeps: the bytes that the file holds, and a seek position that is an `int`. -/
structure Represents (cfg : Build) (n : Nat) (xs : List Nat) (disk : Disk) (f : SeekFile)
    (b : ByteFile) : Prop where
  describes : Describes cfg f.hdr n xs
  bytes : b.bytes = fileBytes disk n xs
  seekPosition : b.seekPosition = f.seekPosition
  nonneg : 0 ≤ f.seekPosition
  int : f.seekPosition < 2 ^ 31

theorem add_count_lt (hpos : 0 ≤ position) (hint : position < 2 ^ 31) (hr : position + numBytes < 2 ^ 31) :
    position + ByteFile.count n numBytes position < 2 ^ 31 := by
  unfold ByteFile.count
  omega

theorem Represents.count_length (h : Represents cfg n xs disk f b) : b.bytes.length = n := by
  rw [h.bytes, h.describes.length_fileBytes]

theorem Represents.seek (h : Represents cfg n xs disk f b)
    (hpos : 0 ≤ position) (hint : position < 2 ^ 31) :
    Represents cfg n xs disk (f.seek position) (b.seek position) :=
  ⟨h.describes, h.bytes, rfl, hpos, hint⟩

theorem Represents.write (hx : xs.Nodup)
    (h : Represents cfg n xs disk f b) (hpos : 0 ≤ position) (hr : position + numBytes < 2 ^ 31)
    (hd : numBytes ≤ data.length) (memory : Nat → Byte) :
    ∃ disk', writeAt cfg disk f.hdr data numBytes position memory =
        .ok (ByteFile.count n numBytes position, disk') ∧
      Represents cfg n xs disk' f (b.writeAt data numBytes position) ∧
      ∀ x, x ∉ xs → disk' x = disk x := by
  obtain ⟨disk', hw, hother, hbytes⟩ :=
    writeAt_refines disk h.describes hx hpos hr hd memory b.seekPosition
  refine ⟨disk', hw, ⟨h.describes, ?_, h.seekPosition, h.nonneg, h.int⟩, hother⟩
  have hb : b = ⟨fileBytes disk n xs, b.seekPosition⟩ := by
    rw [← h.bytes]
  rw [hb, ← hbytes]

theorem call_refines (hx : xs.Nodup)
    (h : Represents cfg n xs disk f b) {c : FileCall} (hc : b.Fits c) :
    ∃ disk' f', f.call cfg disk c = .ok ((b.call c).1, disk', f') ∧
      Represents cfg n xs disk' f' (b.call c).2 ∧ ∀ x, x ∉ xs → disk' x = disk x := by
  have hseek := h.seekPosition
  have hb : b = ⟨fileBytes disk n xs, b.seekPosition⟩ := by
    rw [← h.bytes]
  cases c with
  | readAt numBytes position =>
    refine ⟨disk, f, ?_, h, fun _ _ => rfl⟩
    rw [SeekFile.call, readAt_refines disk h.describes hc.1 hc.2 b.seekPosition, ← hb]
    rfl
  | writeAt data numBytes position memory =>
    obtain ⟨disk', hw, h', hother⟩ := h.write hx hc.1 hc.2.1 hc.2.2 memory
    refine ⟨disk', f, ?_, h', hother⟩
    rw [SeekFile.call, hw, ByteFile.call, h.count_length]
    rfl
  | seek position => exact ⟨disk, f.seek position, rfl, h.seek hc.1 hc.2, fun _ _ => rfl⟩
  | read numBytes =>
    have hr : f.seekPosition + numBytes < 2 ^ 31 := hseek ▸ hc
    have hread := read_refines disk h.describes h.nonneg h.int hr
    refine ⟨disk, f.seek (f.seekPosition + ByteFile.count n numBytes f.seekPosition), ?_, ?_,
      fun _ _ => rfl⟩
    · rw [SeekFile.call, hread, ByteFile.call, ← h.bytes, hseek]
      rfl
    · rw [ByteFile.call, h.count_length, hseek]
      exact h.seek (Int.add_nonneg h.nonneg (count_nonneg _ _ _)) (add_count_lt h.nonneg h.int hr)
  | write data numBytes memory =>
    have hr : f.seekPosition + numBytes < 2 ^ 31 := hseek ▸ hc.1
    obtain ⟨disk', hw, h', hother⟩ := h.write hx h.nonneg hr hc.2 memory
    refine ⟨disk', f.seek (f.seekPosition + ByteFile.count n numBytes f.seekPosition), ?_, ?_, hother⟩
    · rw [SeekFile.call, write_refines h.nonneg h.int hr hw, ByteFile.call, h.count_length, hseek]
      rfl
    · rw [ByteFile.call, h.count_length, hseek]
      exact h'.seek (Int.add_nonneg h.nonneg (count_nonneg _ _ _)) (add_count_lt h.nonneg h.int hr)

/-- **Any calls one after the other** do to the file what they do to the array. -/
theorem seekFile_refines (hx : xs.Nodup) (h : Represents cfg n xs disk f b) {cs : List FileCall}
    (hc : b.AllFit cs) :
    ∃ disk' f', f.calls cfg disk cs = .ok ((b.calls cs).1, disk', f') ∧
      Represents cfg n xs disk' f' (b.calls cs).2 ∧ ∀ x, x ∉ xs → disk' x = disk x := by
  induction cs generalizing disk f b with
  | nil => exact ⟨disk, f, rfl, h, fun _ _ => rfl⟩
  | cons c cs ih =>
    obtain ⟨disk1, f1, hcall, h1, hother1⟩ := call_refines hx h hc.1
    obtain ⟨disk2, f2, hcalls, h2, hother2⟩ := ih h1 hc.2
    refine ⟨disk2, f2, ?_, h2, fun x hx => (hother2 x hx).trans (hother1 x hx)⟩
    rw [SeekFile.calls, hcall, ok_bind]
    dsimp only
    rw [hcalls]
    rfl

theorem seekFile_refines_smallHeader : ∃ disk' f',
    SeekFile.calls buildLinux (fun _ => smallHeader) ⟨smallHeader, 0⟩ [.seek 198, .write [1, 2, 3] 3 0] =
      .ok ([.nothing, .count 2], disk', f') := by
  have h : Represents buildLinux 200 [5, 7] (fun _ => smallHeader) ⟨smallHeader, 0⟩
      ⟨fileBytes (fun _ => smallHeader) 200 [5, 7], 0⟩ :=
    ⟨describes_smallHeader, rfl, rfl, by decide, by decide⟩
  obtain ⟨disk', f', hcalls, -⟩ := seekFile_refines (by decide) h
    (show ByteFile.AllFit _ [.seek 198, .write [1, 2, 3] 3 0] from
      ⟨⟨by decide, by decide⟩, ⟨show (198 : Int) + 3 < 2 ^ 31 by decide, by decide⟩, trivial⟩)
  refine ⟨disk', f', hcalls.trans ?_⟩
  simp [ByteFile.calls, ByteFile.call, ByteFile.seek, ByteFile.count,
    describes_smallHeader.length_fileBytes]

end Nachos.FileSystem
