import Mathlib.Order.Bounds.Basic
import Nachos.Filesys.Proof.Names

/-!
# The descriptor table as a map

What the table is for: a partial map from the descriptors to open objects (`OpenMap`), with a new
object at the smallest free descriptor, and files found by their names (`OpenMap.Spec`). The table
follows the map along every history of calls, whatever happens to the objects and to the host in
between, and a call does what the map says exactly when the map allows it (`table_map_iff`): a name is
looked up among the addresses of the sockets too, the array for a name is one byte short, and deleting
a server closes the descriptors of its clients.
-/

namespace Nachos

open Base Streams
open Function (update update_of_ne update_self)

/-! ## The map -/

abbrev Descriptor := {fd : Nat // 2 ≤ fd ∧ fd < maxFileDescriptor}

abbrev Name := {name : CString // 0 ∉ name}

/-- A `DyOpenFile`, with the name it was made with. -/
structure NamedFile where
  name : Name
  file : DyOpenFile
  fileName_eq : file.fileName = strncpy name maxFileNameLength

inductive Object
  | file (f : NamedFile)
  | socket (s : Socket)
  | serverSocket (s : ServerSocket)

namespace Object

def stream : Object → Stream
  | .file f => .file f.file
  | .socket s => .socket s
  | .serverSocket s => .serverSocket s

/-- The address a socket has in its array, whether or not it was ever set. -/
def address : Object → Option CString
  | .file _ => none
  | .socket s => some (cString s.ipAddress)
  | .serverSocket s => some (cString s.ipAddress)

/-- What the methods of an object can make of it: a file keeps its name. -/
def Becomes : Object → Object → Prop
  | .file f, .file f' => f'.name = f.name
  | .socket _, .socket _ => True
  | .serverSocket _, .serverSocket _ => True
  | _, _ => False

end Object

inductive TableCall
  | add (object : Object)
  | close (fd : Int)
  | getStream (fd : Int)
  | isOpen (name : Name)

inductive TableResult
  | int (n : Int)
  | stream (stream : Option Stream)
  | bool (b : Bool)

def TableCall.run : TableCall → FilesM TableResult
  | .add object => do return .int (← addStream object.stream)
  | .close fd => do return .int (← sysClose fd)
  | .getStream fd => do return .stream ((← get).getStream fd)
  | .isOpen name => do return .bool (← Nachos.isOpen name)

abbrev OpenMap := Descriptor → Option Object

namespace OpenMap

def lookup (m : OpenMap) (fd : Int) : Option Object :=
  if h : 2 ≤ fd.toNat ∧ fd.toNat < maxFileDescriptor then m ⟨fd.toNat, h⟩ else none

def erase (m : OpenMap) (fd : Int) : OpenMap := fun d => if (d : Nat) = fd.toNat then none else m d

def HasFile (m : OpenMap) (name : Name) : Prop := ∃ d f, m d = some (.file f) ∧ f.name = name

def Spec (m : OpenMap) : TableCall → TableResult → OpenMap → Prop
  | .add object, r, m' =>
    (∃ fd, IsLeast {d | m d = none} fd ∧ r = .int fd.1 ∧ m' = Function.update m fd (some object)) ∨
      (∀ d, m d ≠ none) ∧ r = .int (-1) ∧ m' = m
  | .close fd, r, m' =>
    m.lookup fd ≠ none ∧ r = .int 0 ∧ m' = m.erase fd ∨
      m.lookup fd = none ∧ r = .int (-1) ∧ m' = m
  | .getStream fd, r, m' => r = .stream ((m.lookup fd).map Object.stream) ∧ m' = m
  | .isOpen name, r, m' => (∃ b, r = .bool b ∧ (b = true ↔ m.HasFile name)) ∧ m' = m

/-- The objects whose destructor is quiet: a socket that was connected, and a server that has no open
descriptor among its clients. -/
def Deletable (m : OpenMap) : Object → Prop
  | .file _ => True
  | .socket s => s.socketFd ≠ none
  | .serverSocket s => s.ssFd = -1 ∨ ∀ id ∈ s.clientOpenfileID, m.lookup id = none

def Allows (m : OpenMap) : TableCall → Prop
  | .add _ | .getStream _ => True
  | .close fd => ∀ object, m.lookup fd = some object → m.Deletable object
  | .isOpen name =>
    if name.1.length < maxFileNameLength then
      m.HasFile name ∨ ∀ d object, m d = some object → object.address ≠ some name
    else ∀ d object, m d = some object → ¬ object.stream.getName <+: name

def RepresentedBy (m : OpenMap) (s : Files) : Prop := ∀ d : Descriptor, s.fdt d = (m d).map Object.stream

def Meets (m : OpenMap) (s : Files) (call : TableCall) : Prop :=
  ∃ r s' m', call.run.run s = .ok r s' ∧ m.Spec call r m' ∧ m'.RepresentedBy s'

/-- A map and a table after the same calls, from an empty table. Between the calls the objects change
by their own methods, and the host does what it wants. -/
inductive History : OpenMap → Files → Prop
  | start {s : Files} (h : ∀ fd, s.fdt fd = none) : History (fun _ => none) s
  | call {m m' : OpenMap} {s s' : Files} {call : TableCall} {r : TableResult} (h : History m s)
      (hallows : m.Allows call) (hrun : call.run.run s = .ok r s') (hspec : m.Spec call r m') :
      History m' s'
  | object {m : OpenMap} {s : Files} {d : Descriptor} {o o' : Object} (h : History m s)
      (hd : m d = some o) (ho : o.Becomes o') :
      History (Function.update m d (some o')) (s.setStream d (some o'.stream))
  | host {m : OpenMap} {s s' : Files} (h : History m s) (hs : s'.fdt = s.fdt) : History m s'

end OpenMap

/-! ## Names in their arrays -/

theorem zero_notMem_cString (array : List Byte) : 0 ∉ cString array := by
  intro h
  have := List.mem_takeWhile_imp h
  simp at this

variable {name : CString}

theorem cString_strncpy (hz : 0 ∉ name) (n : Nat) : cString (strncpy name n) = name.take n := by
  have htake : 0 ∉ name.take n := fun h => hz (List.mem_of_mem_take h)
  rw [strncpy]
  cases hk : n - name.length with
  | zero =>
    rw [List.replicate_zero, List.append_nil, cString, List.takeWhile_eq_self_iff]
    intro c hc
    exact decide_eq_true fun h => htake (h ▸ hc)
  | succ k => rw [List.replicate_succ, cString_append_zero htake]

theorem strcmpEq_short {a : CString} (ha : 0 ∉ a) (hlen : name.length < maxFileNameLength) :
    strcmpEq (strncpy a maxFileNameLength) name = .ok (decide (a = name)) := by
  rcases Nat.lt_or_ge a.length maxFileNameLength with hlt | hge
  · have hzero : (0 : Byte) ∈ strncpy a maxFileNameLength := by
      rw [strncpy, List.mem_append, List.mem_replicate]
      exact .inr ⟨by omega, rfl⟩
    rw [strcmpEq, if_pos hzero, cString_strncpy ha, List.take_of_length_le hlt.le]
  · have harray : strncpy a maxFileNameLength = a.take maxFileNameLength := by
      rw [strncpy, Nat.sub_eq_zero_of_le hge, List.replicate_zero, List.append_nil]
    have hzero : (0 : Byte) ∉ strncpy a maxFileNameLength := by
      rw [harray]
      exact fun h => ha (List.mem_of_mem_take h)
    have hpre : ¬ strncpy a maxFileNameLength <+: name := fun h => by
      have := h.length_le
      rw [length_strncpy] at this
      omega
    have hne : a ≠ name := by
      rintro rfl
      omega
    rw [strcmpEq, if_neg hzero, if_neg hpre, decide_eq_false hne]

theorem strcmpEq_long {a : CString} (ha : 0 ∉ a) (hname : 0 ∉ name)
    (hlen : maxFileNameLength ≤ name.length) :
    strcmpEq (strncpy a maxFileNameLength) name =
      if strncpy a maxFileNameLength <+: name then .error .undefined else .ok false := by
  by_cases hzero : (0 : Byte) ∈ strncpy a maxFileNameLength
  · have hpre : ¬ strncpy a maxFileNameLength <+: name := fun h => hname (h.subset hzero)
    have hne : a.take maxFileNameLength ≠ name := by
      rintro rfl
      rw [strncpy, List.mem_append] at hzero
      rcases hzero with h | h
      · exact hname h
      · have := List.mem_replicate.1 h
        rw [List.length_take] at hlen
        omega
    rw [strcmpEq, if_pos hzero, if_neg hpre, cString_strncpy ha, decide_eq_false hne]
  · rw [strcmpEq, if_neg hzero]

def Streams.Stream.title : Stream → CString
  | .file f => cString f.fileName
  | .socket s => cString s.ipAddress
  | .serverSocket s => cString s.ipAddress

theorem Streams.Stream.getName_eq (stream : Stream) :
    stream.getName = strncpy stream.title maxFileNameLength := by
  cases stream with
  | file _ | socket _ | serverSocket _ => rfl

theorem Streams.Stream.zero_notMem_title (stream : Stream) : 0 ∉ stream.title := by
  cases stream with
  | file _ | socket _ | serverSocket _ => exact zero_notMem_cString _

theorem Object.title_eq_iff {object : Object} {name : Name}
    (hlen : name.1.length < maxFileNameLength) : object.stream.title = name ↔
      (∃ f, object = .file f ∧ f.name = name) ∨ object.address = some name.1 := by
  cases object with
  | file f =>
    have htitle : (Object.file f).stream.title = f.name.1.take maxFileNameLength := by
      change cString f.file.fileName = _
      rw [f.fileName_eq, cString_strncpy f.name.2]
    rw [htitle]
    constructor
    · intro h
      have hlt : f.name.1.length < maxFileNameLength := by
        have := congrArg List.length h
        rw [List.length_take] at this
        omega
      rw [List.take_of_length_le hlt.le] at h
      exact .inl ⟨f, rfl, Subtype.ext h⟩
    · rintro (⟨f', hf, hname⟩ | h)
      · cases hf
        rw [hname, List.take_of_length_le hlen.le]
      · cases h
  | socket s | serverSocket s =>
    constructor
    · intro h
      exact .inr (congrArg some h)
    · rintro (⟨f', hf, -⟩ | h)
      · cases hf
      · exact Option.some.inj h

/-! ## The loop of `isOpen` -/

section IsOpen

variable {name : CString}

theorem isOpenIn_short (s : Files) (fds : List Nat) (hlen : name.length < maxFileNameLength) :
    ∃ b, s.isOpenIn name fds = .ok b ∧
      (b = true ↔ ∃ fd ∈ fds, ∃ stream, s.fdt fd = some stream ∧ stream.title = name) := by
  induction fds with
  | nil => exact ⟨false, rfl, by simp⟩
  | cons fd fds ih =>
    obtain ⟨b, hb, hiff⟩ := ih
    rw [Files.isOpenIn]
    cases hs : s.fdt fd with
    | none =>
      refine ⟨b, hb, hiff.trans ?_⟩
      simp [hs]
    | some stream =>
      dsimp only
      rw [Stream.getName_eq, strcmpEq_short (Stream.zero_notMem_title stream) hlen, ok_bind]
      by_cases htitle : stream.title = name
      · rw [decide_eq_true htitle]
        exact ⟨true, rfl, iff_of_true rfl ⟨fd, .head _, stream, hs, htitle⟩⟩
      · rw [decide_eq_false htitle]
        refine ⟨b, hb, hiff.trans ?_⟩
        simp [hs, htitle]

theorem isOpenIn_long (s : Files) (fds : List Nat) (hname : 0 ∉ name) (hlen : maxFileNameLength ≤ name.length) :
    s.isOpenIn name fds = .ok false ∧ (∀ fd ∈ fds, ∀ st, s.fdt fd = some st → ¬ st.getName <+: name) ∨
      s.isOpenIn name fds = .error .undefined ∧
        ∃ fd ∈ fds, ∃ st, s.fdt fd = some st ∧ st.getName <+: name := by
  induction fds with
  | nil => exact .inl ⟨rfl, by simp⟩
  | cons fd fds ih =>
    rw [Files.isOpenIn]
    cases hs : s.fdt fd with
    | none => simpa [hs] using ih
    | some stream =>
      have hcmp := strcmpEq_long (Stream.zero_notMem_title stream) hname hlen
      rw [← Stream.getName_eq] at hcmp
      dsimp only
      rw [hcmp]
      by_cases hpre : stream.getName <+: name
      · rw [if_pos hpre]
        exact .inr ⟨rfl, fd, .head _, stream, hs, hpre⟩
      · rw [if_neg hpre]
        simpa [hs, hpre] using ih

end IsOpen

theorem isOpen_run_iff {s s' : Files} {b : Bool} :
    (isOpen name).run s = .ok b s' ↔ s.isOpen name = .ok b ∧ s' = s := by
  rw [isOpen, run_get_bind]
  cases s.isOpen name with
  | ok res =>
    constructor
    · rintro ⟨⟩
      exact ⟨rfl, rfl⟩
    · rintro ⟨⟨⟩, rfl⟩
      rfl
  | error f =>
    constructor
    · rintro ⟨⟩
    · rintro ⟨⟨⟩, -⟩

namespace OpenMap

variable {m : OpenMap} {s s' : Files}

namespace RepresentedBy

theorem exists_iff (h : m.RepresentedBy s) {P : Stream → Prop} :
    (∃ fd ∈ descriptors, ∃ stream, s.fdt fd = some stream ∧ P stream) ↔
      ∃ d object, m d = some object ∧ P object.stream := by
  constructor
  · rintro ⟨fd, hfd, stream, hs, hP⟩
    have hd := h ⟨fd, mem_descriptors.1 hfd⟩
    obtain ⟨object, ho, rfl⟩ := Option.map_eq_some_iff.1 (hd.symm.trans hs)
    exact ⟨_, object, ho, hP⟩
  · rintro ⟨d, object, ho, hP⟩
    refine ⟨d, mem_descriptors.2 d.2, object.stream, ?_, hP⟩
    rw [h, ho, Option.map_some]

theorem getStream_eq (h : m.RepresentedBy s) (fd : Int) :
    s.getStream fd = (m.lookup fd).map Object.stream := by
  unfold lookup Files.getStream
  split
  · rw [dif_neg (by omega), Option.map_none]
  · have hfd : 2 ≤ fd.toNat ∧ fd.toNat < maxFileDescriptor := by omega
    rw [dif_pos hfd]
    exact h ⟨fd.toNat, hfd⟩

theorem getStream_eq_none (h : m.RepresentedBy s) {fd : Int} :
    s.getStream fd = none ↔ m.lookup fd = none := by
  rw [h.getStream_eq, Option.map_eq_none_iff]

end RepresentedBy

theorem isOpen_meets_iff (h : m.RepresentedBy s) (name : Name) :
    m.Meets s (.isOpen name) ↔ m.Allows (.isOpen name) := by
  have hrun : m.Meets s (.isOpen name) ↔
      ∃ b, s.isOpen name = .ok b ∧ (b = true ↔ m.HasFile name) := by
    constructor
    · rintro ⟨r, s', m', hr, ⟨⟨b, rfl, hb⟩, -⟩, -⟩
      obtain ⟨b', s1, h1, h2⟩ := run_bind_ok hr
      cases h2
      exact ⟨b, (isOpen_run_iff.1 h1).1, hb⟩
    · rintro ⟨b, hb, hiff⟩
      refine ⟨.bool b, s, m, ?_, ⟨⟨b, rfl, hiff⟩, rfl⟩, h⟩
      change (isOpen name.1 >>= fun b => pure (TableResult.bool b)).run s = _
      rw [run_step (isOpen_run_iff.2 ⟨hb, rfl⟩)]
      rfl
  rw [hrun, Allows]
  split
  case isTrue hlen =>
    obtain ⟨b, hb, hiff⟩ := isOpenIn_short s descriptors hlen
    have hfound : b = true ↔ m.HasFile name ∨ ∃ d object, m d = some object ∧
        object.address = some name.1 := by
      rw [hiff, h.exists_iff (P := fun st => st.title = name.1)]
      simp only [Object.title_eq_iff hlen]
      constructor
      · rintro ⟨d, object, ho, ⟨f, rfl, hf⟩ | ha⟩
        · exact .inl ⟨d, f, ho, hf⟩
        · exact .inr ⟨d, object, ho, ha⟩
      · rintro (⟨d, f, ho, hf⟩ | ⟨d, object, ho, ha⟩)
        · exact ⟨d, _, ho, .inl ⟨f, rfl, hf⟩⟩
        · exact ⟨d, object, ho, .inr ha⟩
    have hres : (∃ b, s.isOpen name = .ok b ∧ (b = true ↔ m.HasFile name)) ↔
        (b = true ↔ m.HasFile name) := by
      constructor
      · rintro ⟨b', hb', hb''⟩
        cases hb.symm.trans hb'
        exact hb''
      · exact fun hb'' => ⟨b, hb, hb''⟩
    rw [hres, hfound]
    constructor
    · intro hsub
      by_cases hfile : m.HasFile name
      · exact .inl hfile
      · refine .inr fun d object ho ha => hfile (hsub.1 (.inr ⟨d, object, ho, ha⟩))
    · rintro (hfile | hnone)
      · exact iff_of_true (.inl hfile) hfile
      · refine ⟨?_, .inl⟩
        rintro (hfile | ⟨d, object, ho, ha⟩)
        · exact hfile
        · exact absurd ha (hnone d object ho)
  case isFalse hlen =>
    have hlen := Nat.le_of_not_lt hlen
    have hex := h.exists_iff (P := fun st => st.getName <+: name.1)
    rcases isOpenIn_long s descriptors name.2 hlen with ⟨hok, hall⟩ | ⟨herr, hbad⟩
    · have hnone : ∀ d object, m d = some object → ¬ object.stream.getName <+: name.1 := by
        intro d object ho hpre
        obtain ⟨fd, hfd, st, hst, hp⟩ := hex.2 ⟨d, object, ho, hpre⟩
        exact hall fd hfd st hst hp
      refine iff_of_true ⟨false, hok, iff_of_false (by simp) ?_⟩ hnone
      rintro ⟨d, f, hf, rfl⟩
      refine hnone d _ hf ?_
      -- the array of a longer name is the start of the name
      change (Stream.file f.file).getName <+: f.name.1
      rw [Stream.getName_eq, Stream.title, f.fileName_eq, cString_strncpy f.name.2, strncpy,
        List.take_take, Nat.min_self, List.length_take, Nat.min_eq_left hlen, Nat.sub_self,
        List.replicate_zero, List.append_nil]
      exact List.take_prefix _ _
    · refine iff_of_false ?_ fun hnone => ?_
      · rintro ⟨b, hb, -⟩
        cases herr.symm.trans hb
      · obtain ⟨d, object, ho, hpre⟩ := hex.1 hbad
        exact hnone d object ho hpre

/-! ## Adding -/

theorem add_meets (h : m.RepresentedBy s) (object : Object) : m.Meets s (.add object) := by
  have hrun : (TableCall.add object).run.run s =
      s.getFreeFileDescriptor.elim (.ok (.int (-1)) s)
        fun fd => .ok (.int fd) (s.setStream fd (some object.stream)) := by
    change (addStream object.stream >>= fun n => pure (TableResult.int n)).run s = _
    rw [EStateM.run_bind, addStream, run_get_bind]
    cases s.getFreeFileDescriptor with
    | none => rfl
    | some fd => rfl
  have hfree : ∀ d : Descriptor, (s.fdt d).isNone = true ↔ m d = none := by
    intro d
    rw [h, Option.isNone_map, Option.isNone_iff_eq_none]
  cases hfd : s.getFreeFileDescriptor with
  | none =>
    rw [hfd] at hrun
    refine ⟨_, s, m, hrun, .inr ⟨fun d hd => ?_, rfl, rfl⟩, h⟩
    have := List.find?_eq_none.1 hfd d (mem_descriptors.2 d.2)
    exact this ((hfree d).2 hd)
  | some fd =>
    rw [hfd] at hrun
    rw [Files.getFreeFileDescriptor, descriptors, List.find?_range'_eq_some] at hfd
    obtain ⟨hnone, hmem, hmin⟩ := hfd
    let d : Descriptor := ⟨fd, mem_descriptors.1 hmem⟩
    refine ⟨_, _, update m d (some object), hrun, .inl ⟨d, ⟨(hfree d).1 hnone, ?_⟩, rfl, rfl⟩, ?_⟩
    · intro d' hd'
      by_contra hlt
      have := hmin d' d'.2.1 (not_le.1 hlt)
      rw [(hfree d').2 hd'] at this
      cases this
    · intro d'
      rw [Files.fdt_setStream]
      by_cases heq : d' = d
      · rw [heq, update_self, update_self, Option.map_some]
      · rw [update_of_ne heq, update_of_ne fun hn => heq (Subtype.ext hn), h]

theorem getStream_meets (h : m.RepresentedBy s) (fd : Int) : m.Meets s (.getStream fd) := by
  refine ⟨_, s, m, rfl, ⟨?_, rfl⟩, h⟩
  rw [h.getStream_eq]

end OpenMap

/-! ## Closing -/

section Close

abbrev KeepsClosed {α : Type} (fd : Int) (x : FilesM α) : Prop :=
  Keeps (fun s => s.getStream fd = none) (fun _ _ => True) x

variable {s s' : Files} {fd : Int} {stream : Stream} {depth : Nat}

theorem getStream_setStream_none (h : s.getStream fd = none) (n : Nat) :
    (s.setStream n none).getStream fd = none := by
  unfold Files.getStream at h ⊢
  split
  · rfl
  · rw [if_neg ‹_›] at h
    rw [Files.fdt_setStream]
    by_cases hn : fd.toNat = n
    · rw [hn, update_self]
    · rw [update_of_ne hn, h]

theorem getStream_setStream_self (s : Files) (fd : Int) :
    (s.setStream fd.toNat none).getStream fd = none := by
  unfold Files.getStream
  split
  · rfl
  · rw [Files.fdt_setStream, update_self]

theorem closeDescriptor_keepsClosed (depth : Nat) (fd id : Int) :
    KeepsClosed fd (closeDescriptor depth id) := by
  refine Keeps.of_returns fun s s' r hs hr => ?_
  have herased := (closeDescriptor_erases s.fdt depth id).returns (fun _ => .inl rfl) hr
  unfold Files.getStream at hs ⊢
  split
  · rfl
  · rw [if_neg ‹_›] at hs
    rcases herased fd.toNat with h | h
    · rw [h, hs]
    · exact h

theorem closeDescriptor_returned {r : Int}
    (h : (closeDescriptor depth fd).run s = .ok r s') : s'.getStream fd = none := by
  cases depth with
  | zero => cases h
  | succ depth =>
    rw [closeDescriptor, run_get_bind] at h
    cases hs : s.getStream fd with
    | none =>
      rw [hs] at h
      cases h
      exact hs
    | some stream =>
      rw [hs] at h
      obtain ⟨_, s1, -, h2⟩ := run_bind_ok h
      cases h2
      exact getStream_setStream_self s1 fd

theorem closeClients_returned {l : List Int} {u : PUnit}
    (h : (l.forM fun id => if id = -1 then return else discard (closeDescriptor depth id)).run s =
      .ok u s') : ∀ id ∈ l, s'.getStream id = none := by
  induction l generalizing s with
  | nil => exact fun id hid => absurd hid List.not_mem_nil
  | cons a l ih =>
    obtain ⟨_, s1, h1, h2⟩ := run_bind_ok h
    intro id hid
    rcases List.mem_cons.1 hid with rfl | hid
    · have hclosed : s1.getStream id = none := by
        dsimp only at h1
        split at h1
        case isTrue hid =>
          rw [hid]
          rfl
        case isFalse =>
          rw [run_discard] at h1
          cases hr : (closeDescriptor depth id).run s with
          | ok r s2 =>
            rw [hr] at h1
            cases h1
            exact closeDescriptor_returned hr
          | error e s2 =>
            rw [hr] at h1
            cases h1
      have hrest : KeepsClosed id
          (l.forM fun id => if id = -1 then return else discard (closeDescriptor depth id)) :=
        Keeps.forM fun id' _ =>
          Keeps.ite (Keeps.pure _) (Keeps.map _ (closeDescriptor_keepsClosed depth _ id'))
      exact hrest.returns hclosed h2
    · exact ih h2 id hid

theorem deleteServer_returned {ss : ServerSocket} (hss : ss.ssFd ≠ -1) {u : PUnit}
    (h : (deleteStream (closeDescriptor depth) (.serverSocket ss)).run s = .ok u s') :
    ∀ id ∈ ss.clientOpenfileID, s'.getStream id = none := by
  rw [deleteStream, if_neg hss] at h
  obtain ⟨_, s1, h1, h2⟩ := run_bind_ok h
  intro id hid
  have hfdt := ((answer_leaves.discard s1.fdt).returns rfl h2).1
  have hclosed := closeClients_returned h1 id hid
  unfold Files.getStream at hclosed ⊢
  rw [hfdt]
  exact hclosed

theorem closeDescriptor_keepsServer {n : Nat} (hn : n ∈ descriptors) {ss : ServerSocket}
    (hss : ss.ssFd ≠ -1) (hself : (n : Int) ∈ ss.clientOpenfileID) (depth : Nat) (id : Int) :
    Keeps (fun s => s.fdt n = some (.serverSocket ss)) (fun _ _ => True) (closeDescriptor depth id) := by
  have hrange := mem_descriptors.1 hn
  induction depth generalizing id with
  | zero => exact Keeps.throw fun _ _ => trivial
  | succ depth ih =>
    refine Keeps.of_returns fun s s' r hs h => ?_
    rw [closeDescriptor, run_get_bind] at h
    cases hid : s.getStream id with
    | none =>
      rw [hid] at h
      cases h
      exact hs
    | some stream =>
      rw [hid] at h
      obtain ⟨_, s1, h1, h2⟩ := run_bind_ok h
      have hkept : s1.fdt n = some (.serverSocket ss) :=
        Triple.returns (deleteStream_keeps (P := fun fdt => fdt n = some (.serverSocket ss)) ih
          stream) hs h1
      cases h2
      by_cases heq : n = id.toNat
      · have hstream := (Files.getStream_eq_some.1 hid).2
        rw [← heq, hs] at hstream
        cases hstream
        have hnone := deleteServer_returned hss h1 n hself
        have hsome : s1.getStream n = some (.serverSocket ss) :=
          Files.getStream_eq_some.2 ⟨by omega, hkept⟩
        rw [hnone] at hsome
        cases hsome
      · rw [Files.fdt_setStream, update_of_ne heq, hkept]

end Close

namespace OpenMap

variable {m : OpenMap} {s s' : Files} {fd : Int}

theorem discard_answer_run (s : Files) :
    (∃ s1, (discard answer : FilesM Unit).run s = .ok () s1 ∧ s1.fdt = s.fdt) ∨
      s.answers = [] ∧ ∃ e s1, (discard answer : FilesM Unit).run s = .error e s1 := by
  rw [run_discard, answer, run_get_bind]
  cases s.answers with
  | nil => exact .inr ⟨rfl, _, _, rfl⟩
  | cons a answers => exact .inl ⟨_, rfl, rfl⟩

theorem deleteStream_run (h : m.RepresentedBy s) {object : Object} (ho : m.Deletable object)
    (depth : Nat) :
    (∃ s1, (deleteStream (closeDescriptor (depth + 1)) object.stream).run s = .ok () s1 ∧
      s1.fdt = s.fdt) ∨
    s.answers = [] ∧
      ∃ e s1, (deleteStream (closeDescriptor (depth + 1)) object.stream).run s = .error e s1 := by
  cases object with
  | file f => exact .inl ⟨s, rfl, rfl⟩
  | socket socket =>
    obtain ⟨fd, hfd⟩ := Option.ne_none_iff_exists'.1 ho
    have hdelete : socket.delete = if fd = -1 then pure () else discard answer := by
      rw [Socket.delete, Socket.fd, hfd]
      rfl
    change (∃ s1, socket.delete.run s = _ ∧ _) ∨ _ ∧ ∃ e s1, socket.delete.run s = _
    rw [hdelete]
    split
    · exact .inl ⟨s, rfl, rfl⟩
    · exact discard_answer_run s
  | serverSocket ss =>
    have hdelete : (deleteStream (closeDescriptor (depth + 1)) (.serverSocket ss)).run s =
        if ss.ssFd = -1 then .ok () s else (discard answer : FilesM Unit).run s := by
      rw [deleteStream]
      split
      · rfl
      case isFalse hss =>
        have hclients := ho.resolve_left hss
        rw [EStateM.run_bind, run_forM_unchanged]
        intro id hid
        split
        · rfl
        · rw [run_discard, closeDescriptor, run_get_bind, h.getStream_eq_none.2 (hclients id hid)]
          rfl
    change (∃ s1, (deleteStream _ (.serverSocket ss)).run s = _ ∧ _) ∨
      _ ∧ ∃ e s1, (deleteStream _ (.serverSocket ss)).run s = _
    rw [hdelete]
    split
    · exact .inl ⟨s, rfl, rfl⟩
    · exact discard_answer_run s

theorem RepresentedBy.erase (h : m.RepresentedBy s) (hs : s'.fdt = s.fdt) :
    (m.erase fd).RepresentedBy (s'.setStream fd.toNat none) := by
  intro d
  rw [Files.fdt_setStream, hs, OpenMap.erase]
  by_cases heq : (d : Nat) = fd.toNat
  · rw [heq, update_self, if_pos rfl, Option.map_none]
  · rw [update_of_ne heq, if_neg heq, h]

theorem close_meets (h : m.RepresentedBy s) (ha : m.Allows (.close fd)) :
    m.Meets s (.close fd) ∨ s.answers = [] ∧ ∃ e s', (TableCall.close fd).run.run s = .error e s' := by
  change (∃ r s' m', (sysClose fd >>= fun n => pure (TableResult.int n)).run s = _ ∧ _) ∨
    _ ∧ ∃ e s', (sysClose fd >>= fun n => pure (TableResult.int n)).run s = _
  rw [sysClose, closeDescriptor, EStateM.run_bind, EStateM.run_bind, EStateM.run_get]
  dsimp only
  cases hfd : m.lookup fd with
  | none =>
    rw [h.getStream_eq_none.2 hfd]
    exact .inl ⟨_, s, m, rfl, .inr ⟨hfd, rfl, rfl⟩, h⟩
  | some object =>
    rw [h.getStream_eq, hfd, Option.map_some]
    dsimp only
    rw [EStateM.run_bind]
    rcases deleteStream_run h (ha object hfd) (maxFileDescriptor - 1) with
      ⟨s1, hrun, hs1⟩ | ⟨hans, e, s1, hrun⟩
    · rw [show maxFileDescriptor = maxFileDescriptor - 1 + 1 from rfl, hrun]
      refine .inl ⟨_, _, _, rfl, .inl ⟨?_, rfl, rfl⟩, h.erase hs1⟩
      rw [hfd]
      exact Option.some_ne_none _
    · rw [show maxFileDescriptor = maxFileDescriptor - 1 + 1 from rfl, hrun]
      exact .inr ⟨hans, e, s1, rfl⟩

theorem close_allowed (h : m.RepresentedBy s) (hm : m.Meets s (.close fd)) :
    m.Allows (.close fd) := by
  obtain ⟨r, s', m', hrun, hspec, hrep⟩ := hm
  intro object hfd
  obtain ⟨-, -, rfl⟩ := hspec.resolve_right fun hs => by
    rw [hfd] at hs
    cases hs.1
  have hs : s.getStream fd = some object.stream := by rw [h.getStream_eq, hfd, Option.map_some]
  obtain ⟨n, s1, hclose, hpure⟩ := run_bind_ok hrun
  cases hpure
  have hsteps := hclose
  rw [sysClose, closeDescriptor, run_get_bind, hs] at hsteps
  obtain ⟨_, s2, hdelete, hset⟩ := run_bind_ok hsteps
  cases hset
  cases object with
  | file f => trivial
  | socket socket =>
    intro hnone
    change socket.delete.run s = _ at hdelete
    rw [Socket.delete, Socket.fd, hnone] at hdelete
    cases hdelete
  | serverSocket ss =>
    by_cases hss : ss.ssFd = -1
    · exact .inl hss
    · refine .inr fun id hid => ?_
      have hnone := deleteServer_returned hss hdelete id hid
      by_cases heq : id = fd
      · -- the server would have deleted itself
        subst heq
        have hstream := Files.getStream_eq_some.1 hs
        have hcast : (id.toNat : Int) = id := Int.toNat_of_nonneg (by omega)
        have hkept := (closeDescriptor_keepsServer (Files.toNat_mem_descriptors hs) hss
          (hcast.symm ▸ hid) _ id).returns hstream.2 hclose
        rw [Files.fdt_setStream, update_self] at hkept
        cases hkept
      · have herase := hrep.getStream_eq id
        rw [getStream_setStream_none hnone, eq_comm, Option.map_eq_none_iff] at herase
        rw [← herase, lookup, lookup]
        split
        · rw [OpenMap.erase, if_neg]
          have := (Files.getStream_eq_some.1 hs).1
          intro hnat
          exact heq (by dsimp only at hnat; omega)
        · rfl

/-! ## The table follows the map -/

theorem Spec.unique {call : TableCall} {r : TableResult} {m1 m2 : OpenMap} (h1 : m.Spec call r m1)
    (h2 : m.Spec call r m2) : m1 = m2 := by
  cases call with
  | add object =>
    rcases h1 with ⟨fd1, hl1, rfl, rfl⟩ | ⟨-, rfl, rfl⟩
    · rcases h2 with ⟨fd2, hl2, -, rfl⟩ | ⟨-, hr, -⟩
      · rw [hl1.unique hl2]
      · injection hr with hr
        omega
    · rcases h2 with ⟨fd2, -, hr, -⟩ | ⟨-, -, rfl⟩
      · injection hr with hr
        omega
      · rfl
  | close fd =>
    rcases h1 with ⟨hs1, rfl, rfl⟩ | ⟨hs1, rfl, rfl⟩
    · rcases h2 with ⟨-, -, rfl⟩ | ⟨hs2, -, -⟩
      · rfl
      · exact absurd hs2 hs1
    · rcases h2 with ⟨hs2, -, -⟩ | ⟨-, -, rfl⟩
      · exact absurd hs1 hs2
      · rfl
  | getStream fd | isOpen name => exact h1.2.trans h2.2.symm

theorem allowed_meets (h : m.RepresentedBy s) {call : TableCall} (ha : m.Allows call) :
    m.Meets s call ∨ s.answers = [] ∧ ∃ e s', call.run.run s = .error e s' := by
  cases call with
  | add object => exact .inl (add_meets h object)
  | close fd => exact close_meets h ha
  | getStream fd => exact .inl (getStream_meets h fd)
  | isOpen name => exact .inl ((isOpen_meets_iff h name).2 ha)

theorem History.represented (h : History m s) : m.RepresentedBy s := by
  induction h with
  | start h => exact fun d => h d
  | call h hallows hrun hspec ih =>
    rcases allowed_meets ih hallows with ⟨r, s', m', hrun', hspec', hrep⟩ | ⟨-, e, s', hrun'⟩
    · cases hrun.symm.trans hrun'
      rw [hspec.unique hspec']
      exact hrep
    · cases hrun.symm.trans hrun'
  | @object m s d o o' h hd ho ih =>
    intro d'
    rw [Files.fdt_setStream]
    by_cases heq : d' = d
    · rw [heq, update_self, update_self, Option.map_some]
    · rw [update_of_ne heq, update_of_ne fun hn => heq (Subtype.ext hn), ih]
  | host h hs ih =>
    intro d
    rw [hs, ih]

/-- **The table is the map.** After every history it has the objects of the map, and a call does what
the map says exactly when the map allows it. -/
theorem table_map_iff (h : History m s) : m.RepresentedBy s ∧
    ∀ call, s.answers ≠ [] → (m.Meets s call ↔ m.Allows call) := by
  have hrep := h.represented
  refine ⟨hrep, fun call hans => ⟨fun hm => ?_, fun ha => ?_⟩⟩
  · cases call with
    | add object => trivial
    | close fd => exact close_allowed hrep hm
    | getStream fd => trivial
    | isOpen name => exact (isOpen_meets_iff hrep name).1 hm
  · exact (allowed_meets hrep ha).resolve_right fun hbad => hans hbad.1

def single (object : Object) : OpenMap := Function.update (fun _ => none) ⟨2, by decide⟩ (some object)

theorem History.single (object : Object) {s : Files} (h : ∀ fd, s.fdt fd = none) :
    History (single object) (s.setStream 2 (some object.stream)) := by
  have hrun : (TableCall.add object).run.run s =
      .ok (.int 2) (s.setStream 2 (some object.stream)) := by
    have hfree : s.getFreeFileDescriptor = some 2 := by
      rw [Files.getFreeFileDescriptor, descriptors, List.find?_range'_eq_some]
      refine ⟨by rw [h]; rfl, mem_descriptors.2 (by decide), fun j h1 h2 => ?_⟩
      omega
    change (addStream object.stream >>= fun n => pure (TableResult.int n)).run s = _
    rw [EStateM.run_bind, addStream, run_get_bind, hfree]
    rfl
  have hallows : Allows (fun _ => none) (.add object) := trivial
  exact .call (.start h) hallows hrun (.inl ⟨⟨2, by decide⟩, ⟨rfl, fun d _ => d.2.1⟩, rfl, rfl⟩)

def fileA : NamedFile := ⟨⟨[97], by decide⟩, .new [97] 1 0, rfl⟩

def answering : Files := .initial oneFileHost [⟨0, [], fun _ => false⟩] [] []

theorem table_map_isOpen : (single (.file fileA)).Meets
    (answering.setStream 2 (some (.file fileA.file))) (.isOpen fileA.name) :=
  ((table_map_iff (History.single (.file fileA) (s := answering) fun _ => rfl)).2
    (.isOpen fileA.name) (List.cons_ne_nil _ _)).2 (.inl ⟨⟨2, by decide⟩, fileA, rfl, rfl⟩)

def addressName : Name := ⟨[49, 48, 46, 48, 46, 48, 46, 49], by decide⟩

def connected : Object := .socket ⟨some 4, strncpy addressName maxFileNameLength⟩

/-- A socket that is then connected to `10.0.0.1`: `isOpen("10.0.0.1")` is true, and no file is open. -/
theorem address_isOpen : ∃ m s, History m s ∧ ¬ m.HasFile addressName ∧
    (TableCall.isOpen addressName).run.run s = .ok (.bool true) s ∧
      ¬ m.Meets s (.isOpen addressName) := by
  have hnew := History.single (.socket ⟨none, []⟩) (s := answering) fun _ => rfl
  have hbecomes : (Object.socket ⟨none, []⟩).Becomes connected := trivial
  have hconnected := hnew.object (d := ⟨2, by decide⟩) rfl hbecomes
  have hnone : ¬ HasFile (update (single (.socket ⟨none, []⟩)) ⟨2, by decide⟩
      (some connected)) addressName := by
    rintro ⟨d, f, hf, -⟩
    by_cases heq : d = ⟨2, by decide⟩
    · rw [heq, update_self, connected] at hf
      cases hf
    · rw [update_of_ne heq, single, update_of_ne heq] at hf
      cases hf
  refine ⟨_, _, hconnected, hnone, rfl, ?_⟩
  rintro ⟨r, s', m', hrun, ⟨⟨b, rfl, hb⟩, -⟩, -⟩
  cases hrun
  exact hnone (hb.1 rfl)

end OpenMap

end Nachos
