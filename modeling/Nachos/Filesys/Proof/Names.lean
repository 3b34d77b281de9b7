import Nachos.Filesys.Proof.Calls

/-!
# Open files are protected by name

`SysOpen` and `SysRemove` ask the descriptor table for the name first, and the answer is right for
every name that fits its array (`isOpen_of_heldOpen`). `SysCreate` does not ask, and truncates the file
(`open_files_protected_iff`).
-/

namespace Nachos

open Base Streams

def Files.HeldOpen (s : Files) (name : CString) : Prop :=
  ∃ fd file, s.fdt fd = some (.file file) ∧ cString file.fileName = name

theorem length_strncpy (src : CString) (n : Nat) : (strncpy src n).length = n := by
  rw [strncpy, List.length_append, List.length_take, List.length_replicate]
  omega

variable {name : CString} {s : Files}

theorem cString_append_zero (hz : 0 ∉ name) (rest : List Byte) :
    cString (name ++ 0 :: rest) = name := by
  unfold cString
  rw [List.takeWhile_append_of_pos, List.takeWhile_cons_of_neg (by simp), List.append_nil]
  intro c hc
  exact decide_eq_true fun h => hz (h ▸ hc)

theorem strcmpEq_strncpy (hlen : name.length < maxFileNameLength) (hz : 0 ∉ name) :
    strcmpEq (strncpy name maxFileNameLength) name = .ok true := by
  obtain ⟨k, hk⟩ : ∃ k, maxFileNameLength - name.length = k + 1 := ⟨_, (Nat.succ_pred (by omega)).symm⟩
  have harray : strncpy name maxFileNameLength = name ++ 0 :: List.replicate k 0 := by
    rw [strncpy, List.take_of_length_le (Nat.le_of_lt hlen), hk, List.replicate_succ]
  rw [strcmpEq, harray, if_pos (by simp), cString_append_zero hz, decide_eq_true rfl]

theorem strcmpEq_defined {array : List Byte} (h : name.length < array.length) :
    ∃ b, strcmpEq array name = .ok b := by
  unfold strcmpEq
  split
  · exact ⟨_, rfl⟩
  · rw [if_neg fun hp => absurd hp.length_le (by omega)]
    exact ⟨_, rfl⟩

theorem length_getName (stream : Stream) : stream.getName.length = maxFileNameLength := by
  cases stream with
  | file _ | socket _ | serverSocket _ => exact length_strncpy _ _

theorem isOpenIn_of_mem {fds : List Nat} {fd : Nat} {stream : Stream}
    (hlen : name.length < maxFileNameLength) (hfd : fd ∈ fds) (hs : s.fdt fd = some stream)
    (hname : strcmpEq stream.getName name = .ok true) : s.isOpenIn name fds = .ok true := by
  induction fds with
  | nil => exact absurd hfd List.not_mem_nil
  | cons fd' fds ih =>
    unfold Files.isOpenIn
    cases hs' : s.fdt fd' with
    | none =>
      rcases List.mem_cons.1 hfd with rfl | hmem
      · rw [hs] at hs'
        cases hs'
      · exact ih hmem
    | some stream' =>
      have hlt : name.length < stream'.getName.length := by
        rw [length_getName]
        exact hlen
      obtain ⟨b, hb⟩ := strcmpEq_defined hlt
      dsimp only
      rw [hb]
      cases b with
      | true => rfl
      | false =>
        rcases List.mem_cons.1 hfd with rfl | hmem
        · rw [hs] at hs'
          cases hs'
          rw [hname] at hb
          cases hb
        · exact ih hmem

theorem isOpen_of_heldOpen (hw : s.WellFormed)
    (hlen : name.length < maxFileNameLength) (hz : 0 ∉ name) (h : s.HeldOpen name) :
    s.isOpen name = .ok true := by
  obtain ⟨fd, file, hfd, rfl⟩ := h
  exact isOpenIn_of_mem hlen (hw fd _ hfd).1 hfd (strcmpEq_strncpy hlen hz)

inductive NameCall
  | openFile (mode : Int)
  | remove
  | create
  deriving DecidableEq

def NameCall.call (name : CString) : NameCall → FilesCall
  | .openFile mode => .openFile name mode
  | .remove => .remove name
  | .create => .create name

/-- The call fails, and the descriptor table and the files of the host stay as they are. -/
def Refused (s : Files) (call : FilesCall) : Prop :=
  ∃ s', call.run.run s = .ok (-1) s' ∧ s'.fdt = s.fdt ∧ s'.host = s.host

theorem sysCreate_not_refused (s : Files) (name : CString) : ¬ Refused s (.create name) := by
  rintro ⟨s', h, -, -⟩
  change (sysCreate name).run s = _ at h
  rw [sysCreate, run_get_bind] at h
  cases hh : s.host.openForWrite name with
  | none | some host =>
    rw [hh] at h
    cases h

theorem isOpen_run {b : Bool} (h : s.isOpen name = .ok b) : (isOpen name).run s = .ok b s := by
  rw [isOpen, run_get_bind, h]
  rfl

/-- **Open files are protected by name** from `SysOpen` and `SysRemove`, and not from `SysCreate`. -/
theorem open_files_protected_iff {s : Files} {name : CString} (hr : s.Reachable)
    (hlen : name.length ≤ maxFileNameLength - 1) (hz : 0 ∉ name) (ho : s.HeldOpen name)
    (c : NameCall) : Refused s (c.call name) ↔ c ≠ .create := by
  have hlt : name.length < maxFileNameLength := Nat.lt_of_le_of_lt hlen (by decide)
  have hopen := isOpen_run (isOpen_of_heldOpen hr.wellFormed hlt hz ho)
  cases c with
  | openFile mode =>
    refine iff_of_true ⟨s, ?_, rfl, rfl⟩ (by simp)
    change (sysOpen name mode).run s = _
    rw [sysOpen, run_step hopen]
    rfl
  | remove =>
    refine iff_of_true ⟨s, ?_, rfl, rfl⟩ (by simp)
    change (sysRemove name).run s = _
    rw [sysRemove, run_step hopen]
    rfl
  | create => exact iff_of_false (sysCreate_not_refused s name) (by simp)

theorem openedFiles_heldOpen : openedFiles.HeldOpen [97] := ⟨2, openedFile, rfl, rfl⟩

theorem open_file_not_removed : Refused openedFiles (.remove [97]) :=
  (open_files_protected_iff openedFiles_reachable (by decide) (by decide) openedFiles_heldOpen
    .remove).2 (by decide)

/-- `Create("a")` succeeds while `a` is open, and leaves it empty. -/
theorem open_file_truncated :
    openedFiles.Reachable ∧ openedFiles.HeldOpen [97] ∧ openedFiles.host.contents 0 = [1, 2, 3] ∧
      ¬ Refused openedFiles (.create [97]) ∧
        ∃ s', (sysCreate [97]).run openedFiles = .ok 0 s' ∧ s'.host.contents 0 = [] :=
  ⟨openedFiles_reachable, openedFiles_heldOpen, rfl, sysCreate_not_refused _ _, _, rfl, rfl⟩

end Nachos
