import Nachos.Filesys.Proof.Calls

/-!
# `Seek` moves the read position only

`SeekMeets` is what `Seek` promises: a position in the file is returned and is where the next read and
the next write start, and any other position is an error. `DyOpenFile::seek` does not move
`write_pos`, and `SysSeek` does not look at what it returns. So the promise is kept exactly when the
write position happens to be the new one (`seek_coherent_iff`).
-/

namespace Nachos

open Base Streams

/-- The next `SysRead` on the descriptor starts at byte `p` of its file. -/
def ReadsFrom (s : Files) (fd : Int) (p : Nat) : Prop :=
  ∀ f, s.getStream fd = some (.file f) →
    ∀ (buffer : List Byte) (n : Nat), n ≤ maxAllowedBufferSize → n ≤ buffer.length →
      let data := ((s.bytesOf f).drop p).take n
      ∃ s', (sysRead buffer n fd).run s = .ok (data.length, data ++ buffer.drop data.length) s'

/-- The next `SysWrite` on the descriptor starts at byte `p` of its file. -/
def WritesFrom (s : Files) (fd : Int) (p : Nat) : Prop :=
  ∀ f, s.getStream fd = some (.file f) →
    ∀ (buffer : List Byte) (n : Nat), n ≤ maxAllowedBufferSize → n < buffer.length →
      ∃ s', (sysWrite buffer n fd).run s = .ok n s' ∧
        s'.bytesOf f = overwrite 0 (s.bytesOf f) p (buffer.take n)

/-- Where a seek should go: -1 stands for the end of the file, and only files have positions. -/
def Files.seekGoal (s : Files) (stream : Stream) (pos : Int) : Option Nat :=
  match stream with
  | .file f =>
    if pos = -1 then some (s.bytesOf f).length
    else if 0 ≤ pos ∧ pos ≤ (s.bytesOf f).length then some pos.toNat
    else none
  | .socket _ | .serverSocket _ => none

/-- What `SysSeek` should do on a descriptor with this stream. -/
def SeekMeets (s : Files) (fd : Int) (stream : Stream) (pos : Int) : Prop :=
  ∃ res s', (sysSeek pos fd).run s = .ok res s' ∧
    match s.seekGoal stream pos with
    | some p => res = p ∧ ReadsFrom s' fd p ∧ WritesFrom s' fd p
    | none => res = -1 ∧ (∀ p, ReadsFrom s' fd p ↔ ReadsFrom s fd p) ∧
        ∀ p, WritesFrom s' fd p ↔ WritesFrom s fd p

section

variable {s : Files} {fd pos : Int} {f : DyOpenFile} {p : Nat}

def Streams.DyOpenFile.sought (f : DyOpenFile) (p : Nat) : DyOpenFile :=
  { f with openfile.currentOffset := p, readPos := p }

theorem sysSeek_file (hs : s.getStream fd = some (.file f))
    (hp : s.seekGoal (.file f) pos = some p) :
    (sysSeek pos fd).run s = .ok p (s.setStream fd.toNat (some (.file (f.sought p)))) := by
  have htarget : ((Stream.file f).seekTarget pos).run s = .ok p s ∧ p ≤ (s.bytesOf f).length := by
    unfold Files.seekGoal at hp
    unfold Stream.seekTarget
    dsimp only at hp
    split at hp
    · rename_i h1
      cases hp
      rw [if_pos h1]
      exact ⟨rfl, Nat.le_refl _⟩
    · rename_i h1
      split at hp
      · rename_i h2
        cases hp
        rw [if_neg h1, show ((pos.toNat : Nat) : Int) = pos by omega]
        exact ⟨rfl, by omega⟩
      · cases hp
  obtain ⟨htarget, hle⟩ := htarget
  have hseek : (f.openfile.seek p).run s = .ok (p, { f.openfile with currentOffset := p }) s := by
    unfold Streams.OpenFile.seek
    rw [if_neg (by omega)]
    change (if (p : Int) > (s.bytesOf f).length then _ else _ : FilesM _).run s = _
    rw [if_neg (by omega)]
    rfl
  have hrange := getStream_range hs
  rw [sysSeek, if_neg (by omega), run_get_bind, hs]
  dsimp only
  rw [run_step htarget, EStateM.run_bind, Stream.seek, DyOpenFile.seek, EStateM.run_bind,
    run_step hseek]
  dsimp only
  rw [if_neg (by omega)]
  rfl

theorem sysSeek_outside {stream : Stream} (hs : s.getStream fd = some stream)
    (hp : s.seekGoal stream pos = none) : (sysSeek pos fd).run s = .ok pos s := by
  have htarget : (stream.seekTarget pos).run s = .ok pos s := by
    unfold Stream.seekTarget
    split
    · rename_i h1
      subst h1
      cases stream with
      | file f => cases hp
      | socket _ | serverSocket _ => rfl
    · rfl
  have hseek : (stream.seek pos).run s = .ok (-1, stream) s := by
    cases stream with
    | file f =>
      have hout : ¬ (0 ≤ pos ∧ pos ≤ (s.bytesOf f).length) := fun h => by
        unfold Files.seekGoal at hp
        dsimp only at hp
        rw [if_neg (by omega), if_pos h] at hp
        cases hp
      have hopen : (f.openfile.seek pos).run s = .ok (-1, f.openfile) s := by
        unfold Streams.OpenFile.seek
        split
        · rfl
        · change (if pos > (s.bytesOf f).length then _ else _ : FilesM _).run s = _
          rw [if_pos (by omega)]
          rfl
      rw [Stream.seek, DyOpenFile.seek, EStateM.run_bind, EStateM.run_bind, hopen]
      rfl
    | socket _ | serverSocket _ => rfl
  have hrange := getStream_range hs
  rw [sysSeek, if_neg (by omega), run_get_bind, hs]
  dsimp only
  rw [run_step htarget, run_step hseek]
  change EStateM.Result.ok pos (s.setStream fd.toNat (some stream)) = _
  rw [setStream_self hs]

theorem readsFrom_readPos (hs : s.getStream fd = some (.file f)) (hp : f.readPos = p) :
    ReadsFrom s fd p := by
  intro f' hf' buffer n hn hbuf
  rw [hs] at hf'
  cases hf'
  have h := sysRead_file hs (by omega) hn hbuf
  rw [Files.nextBytes, hp, Int.toNat_natCast] at h
  exact ⟨_, h⟩

theorem writesFrom_iff (hs : s.getStream fd = some (.file f)) (hmode : f.openMode = 1)
    (hpos : 0 ≤ f.writePos) : WritesFrom s fd p ↔ f.writePos = p := by
  have hbytes : ∀ data stream,
      ((s.written f data).setStream fd.toNat stream).bytesOf f =
        overwrite 0 (s.bytesOf f) f.writePos.toNat data := by
    intro data stream
    rw [Files.bytesOf, Files.host_setStream, Files.written]
    exact Function.update_self ..
  constructor
  · intro h
    -- a byte that the file does not have at the write position tells the places apart
    obtain ⟨x, hx0, hx⟩ : ∃ x : Byte, x ≠ 0 ∧ (s.bytesOf f)[f.writePos.toNat]? ≠ some x := by
      by_cases h1 : (s.bytesOf f)[f.writePos.toNat]? = some 1
      · exact ⟨2, by decide, by rw [h1]; decide⟩
      · exact ⟨1, by decide, h1⟩
    have hlen : 1 < [x, 0].length := Nat.lt_succ_self 1
    have hrun := sysWrite_file hs hmode hpos (by decide) hlen
    obtain ⟨s', hs', hbytes'⟩ := h f hs [x, 0] 1 (by decide) hlen
    have hstate := hrun.symm.trans hs'
    cases hstate
    rw [hbytes] at hbytes'
    have := overwrite_place hx0 hx hbytes'
    omega
  · intro h f' hf' buffer n hn hbuf
    rw [hs] at hf'
    cases hf'
    refine ⟨_, sysWrite_file hs hmode hpos hn hbuf, ?_⟩
    rw [hbytes, h, Int.toNat_natCast]

theorem seekMeets_file_iff (hs : s.getStream fd = some (.file f)) (hmode : f.openMode = 1)
    (hpos : 0 ≤ f.writePos) (hgoal : s.seekGoal (.file f) pos = some p) :
    SeekMeets s fd (.file f) pos ↔ f.writePos = p := by
  have hs' : (s.setStream fd.toNat (some (.file (f.sought p)))).getStream fd =
    some (.file (f.sought p)) := getStream_setStream hs
  have hwrites := writesFrom_iff (p := p) hs' hmode hpos
  unfold SeekMeets
  rw [sysSeek_file hs hgoal, hgoal]
  constructor
  · rintro ⟨res, s', h, -, -, hw⟩
    cases h
    exact hwrites.1 hw
  · intro h
    exact ⟨p, _, rfl, rfl, readsFrom_readPos hs' rfl, hwrites.2 h⟩

theorem seekMeets_outside_iff {stream : Stream} (hs : s.getStream fd = some stream)
    (hgoal : s.seekGoal stream pos = none) : SeekMeets s fd stream pos ↔ pos = -1 := by
  unfold SeekMeets
  rw [sysSeek_outside hs hgoal, hgoal]
  constructor
  · rintro ⟨res, s', h, hres, -⟩
    cases h
    exact hres
  · intro h
    exact ⟨pos, s, rfl, h, fun _ => Iff.rfl, fun _ => Iff.rfl⟩

/-- The streams and positions on which `Seek` does what it promises: the write position of the file is
the new position already, or the stream has no positions and -1 is passed through. -/
def SeekKeepsPromise (s : Files) (stream : Stream) (pos : Int) : Prop :=
  match stream with
  | .file f => ∃ p : Nat, s.seekGoal (.file f) pos = some p ∧ f.writePos = p
  | .socket _ | .serverSocket _ => pos = -1

/-- **Seek coherence.** In every reachable state and for every stream, `SysSeek` meets its contract if
and only if the stream is a file whose write position is the new position already, or no file and -1 is
asked for. -/
theorem seek_coherent_iff {stream : Stream} (hr : s.Reachable) (hs : s.getStream fd = some stream)
    (hmode : ∀ f, stream = .file f → f.openMode = 1) :
    SeekMeets s fd stream pos ↔ SeekKeepsPromise s stream pos := by
  have hok := hr.wellFormed.ok hs
  cases hgoal : s.seekGoal stream pos with
  | none =>
    rw [seekMeets_outside_iff hs hgoal]
    cases stream with
    | file f =>
      refine iff_of_false (fun h => ?_) fun ⟨p, hp, _⟩ => ?_
      · subst h
        cases hgoal
      · rw [hgoal] at hp
        cases hp
    | socket _ | serverSocket _ => exact Iff.rfl
  | some p =>
    cases stream with
    | socket _ | serverSocket _ => cases hgoal
    | file f =>
      rw [seekMeets_file_iff hs (hmode f rfl) hok.2 hgoal]
      constructor
      · intro h
        exact ⟨p, hgoal, h⟩
      · rintro ⟨q, hq, hw⟩
        rw [hgoal] at hq
        cases hq
        exact hw

end

/-- The file after a write of two bytes: the next read is at 0, and the next write at 2. -/
theorem seek_coherent_written : ∃ s f, s.Reachable ∧ s.getStream 2 = some (.file f) ∧ f.readPos = 0 ∧
    f.writePos = 2 ∧ SeekMeets s 2 (.file f) 2 := by
  have hr : ((openedFiles.written openedFile [5, 6]).setStream 2
      (some (.file { openedFile with writePos := 2 }))).Reachable := by
    obtain ⟨host, a, b, c, hrun⟩ := openedFiles_reachable
    exact ⟨host, a, b, c, hrun.step (i := .write [5, 6, 0] 2 2) trivial rfl⟩
  refine ⟨_, { openedFile with writePos := 2 }, hr, rfl, rfl, rfl, ?_⟩
  refine (seek_coherent_iff hr rfl ?_).2 ⟨2, rfl, rfl⟩
  rintro f ⟨⟩
  rfl

/-- After `Seek(2)` the next write does not start at byte 2, and `Seek(7)` is no error. -/
theorem seek_not_coherent :
    (openedFiles.Reachable ∧ openedFiles.getStream 2 = some (.file openedFile) ∧
      openedFile.openMode = 1) ∧
      ¬ SeekMeets openedFiles 2 (.file openedFile) 2 ∧
        ¬ SeekMeets openedFiles 2 (.file openedFile) 7 := by
  refine ⟨⟨openedFiles_reachable, rfl, rfl⟩, ?_, ?_⟩
  · rw [seekMeets_file_iff (p := 2) rfl rfl (by decide) rfl]
    decide
  · rw [seekMeets_outside_iff rfl rfl]
    decide

end Nachos
