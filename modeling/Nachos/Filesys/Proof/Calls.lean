import Nachos.Filesys.Proof.Table

/-!
# The calls on an open file

What `SysRead`, `SysWrite` and `SysSeek` do on the descriptor of a file: one equation for each.
-/

namespace Nachos

open Base Streams

variable {s : Files} {fd : Int} {stream : Stream}

theorem getStream_range (h : s.getStream fd = some stream) : fd ≠ 0 ∧ fd ≠ 1 := by
  have := (Files.getStream_eq_some.1 h).1
  omega

theorem getStream_setStream {stream' : Stream} (h : s.getStream fd = some stream) :
    (s.setStream fd.toNat (some stream')).getStream fd = some stream' := by
  refine Files.getStream_eq_some.2 ⟨(Files.getStream_eq_some.1 h).1, ?_⟩
  rw [Files.fdt_setStream, Function.update_self]

theorem setStream_self (h : s.getStream fd = some stream) :
    s.setStream fd.toNat (some stream) = s := by
  have := (Files.getStream_eq_some.1 h).2
  unfold Files.setStream
  rw [← this, Function.update_eq_self]

namespace Files

def bytesOf (s : Files) (f : DyOpenFile) : List Byte := s.host.contents f.openfile.file

def nextBytes (s : Files) (f : DyOpenFile) (n : Nat) : List Byte :=
  ((s.bytesOf f).drop f.readPos.toNat).take n

/-- The host after these bytes have been written from the write position on. -/
def written (s : Files) (f : DyOpenFile) (data : List Byte) : Files :=
  let contents := overwrite 0 (s.bytesOf f) f.writePos.toNat data
  { s with host.contents := Function.update s.host.contents f.openfile.file contents }

end Files

section

variable {s : Files} {fd : Int} {f : DyOpenFile} {buffer : List Byte} {n : Nat}

theorem fillBuffer_run {data : List Byte} (h : data.length ≤ buffer.length) :
    (fillBuffer buffer data).run s = .ok (data ++ buffer.drop data.length) s := by
  rw [fillBuffer, if_neg (Nat.not_lt.2 h)]
  rfl

theorem read_file (hpos : 0 ≤ f.readPos) (hbuf : n ≤ buffer.length) :
    ((Stream.file f).read buffer n).run s =
      .ok ((s.nextBytes f n).length, s.nextBytes f n ++ buffer.drop (s.nextBytes f n).length,
        .file { f with readPos := f.readPos + (s.nextBytes f n).length }) s := by
  have hread : (f.openfile.readAt n f.readPos).run s = .ok (s.nextBytes f n) s := by
    rw [Streams.OpenFile.readAt, assertF, if_pos hpos, if_neg (by omega)]
    rfl
  have hlen : (s.nextBytes f n).length ≤ buffer.length :=
    Nat.le_trans (List.length_take_le _ _) hbuf
  rw [Stream.read, DyOpenFile.read, EStateM.run_bind, EStateM.run_bind, hread]
  dsimp only
  rw [run_step (fillBuffer_run hlen)]
  rfl

theorem sysRead_file (hs : s.getStream fd = some (.file f)) (hpos : 0 ≤ f.readPos)
    (hn : n ≤ maxAllowedBufferSize) (hbuf : n ≤ buffer.length) :
    (sysRead buffer n fd).run s =
      .ok ((s.nextBytes f n).length, s.nextBytes f n ++ buffer.drop (s.nextBytes f n).length)
        (s.setStream fd.toNat
          (some (.file { f with readPos := f.readPos + (s.nextBytes f n).length }))) := by
  have hle : (s.nextBytes f n).length ≤ n := List.length_take_le _ _
  rw [sysRead, if_neg (by omega), if_neg (getStream_range hs).1, run_get_bind, hs]
  dsimp only
  rw [run_step (read_file hpos hbuf), EStateM.run_bind, if_neg (by omega)]
  rfl

theorem sysWrite_file (hs : s.getStream fd = some (.file f)) (hmode : f.openMode = 1)
    (hpos : 0 ≤ f.writePos) (hn : n ≤ maxAllowedBufferSize)
    (hbuf : n < buffer.length) :
    (sysWrite buffer n fd).run s = .ok n ((s.written f (buffer.take n)).setStream fd.toNat
      (some (.file { f with writePos := f.writePos + n }))) := by
  have hlen : (buffer.take n).length = n := List.length_take_of_le (Nat.le_of_lt hbuf)
  have hwrite : (f.openfile.writeAt (buffer.take n) f.writePos).run s =
      .ok n (s.written f (buffer.take n)) := by
    rw [Streams.OpenFile.writeAt, assertF, if_pos hpos]
    change EStateM.Result.ok ((buffer.take n).length : Int) (s.written f (buffer.take n)) = _
    rw [hlen]
  have hcan : (Stream.file f).canWrite = true := decide_eq_true hmode
  rw [sysWrite, if_neg (by omega), if_neg (getStream_range hs).2, run_get_bind, hs]
  dsimp only
  rw [hcan, Bool.not_true, if_neg Bool.false_ne_true, if_neg (by omega), Int.toNat_natCast,
    Stream.write, DyOpenFile.write, if_neg (by omega), EStateM.run_bind, EStateM.run_bind,
    EStateM.run_bind, hwrite]
  rfl

end

/-! ## A file of three bytes -/

def oneFileHost : Host where
  dir name := if name = [97] then some 0 else none
  contents _ := [1, 2, 3]
  next := 1
  permits _ := true

/-- The file `a`, opened for reading and writing. -/
def openedFile : DyOpenFile := .new [97] 1 0

def openedFiles : Files := (Files.initial oneFileHost [] [] []).setStream 2 (some (.file openedFile))

theorem openedFiles_reachable : openedFiles.Reachable :=
  ⟨oneFileHost, [], [], [], .step (i := .openFile [97] 1) .start trivial rfl⟩

end Nachos
