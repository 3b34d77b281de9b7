import Nachos.Coff2noff.Coff2noff
import Nachos.Userprog.Proof.LoadImage

/-!
# The image in a converted file

What `coff2noff` keeps of the memory image of a COFF file (`ImageKept`), against the files it accepts:
it keeps the image of those whose sections with bytes are not repeated and lie in the file, and whose
`.bss` sections fill the addresses behind the first one (`Convertible`). The loop is followed twice:
`HeaderOk` holds of every header, and `Laid` of the bytes written for sections that lie in the file.
`sections_loaded` follows the sections through the loader into a process.
-/

namespace Nachos.Coff2noff

open Base

variable {cfg : Build} {host : Host} {memory : NoffHeader} {coff out : List Byte} {k : Stored}
    {secs : List Scnhdr} {sec : Scnhdr} {s s' : State} {seg : Segment}

/-! ## The image -/

def Scnhdr.bytes (coff : List Byte) (sec : Scnhdr) : List Byte :=
  (coff.drop sec.scnptr.toNat).take sec.size.toNat

/-- The non-empty sections of a kind, in the order of the file. -/
def ofKind (k : Kind) (secs : List Scnhdr) : List Scnhdr :=
  secs.filter fun sec => sec.size ≠ 0 ∧ sec.kind = some k

def InRange (start size : Word) (a : Nat) : Prop := start.toNat ≤ a ∧ a < start.toNat + size.toNat

/-- The segment has the section's place in memory, and the file its bytes. -/
structure Stores (coff out : List Byte) (seg : Segment) (sec : Scnhdr) : Prop where
  size : seg.size = sec.size
  virtualAddr : seg.virtualAddr = sec.paddr
  whole : (sec.bytes coff).length = sec.size.toNat
  bytes : (out.drop seg.inFileAddr.toNat).take seg.size.toNat = sec.bytes coff

/-- The file has a header that describes the memory image, which a header can describe. -/
structure ImageKept (cfg : Build) (coff out : List Byte) (noffH : NoffHeader) : Prop where
  header : ∀ junk, readHeader cfg junk ⟨out⟩ = .ok noffH
  once : ∀ k, (ofKind (.stored k) (sections cfg coff)).length ≤ 1
  stored : ∀ k, ∀ sec ∈ ofKind (.stored k) (sections cfg coff), Stores coff out (segment noffH k) sec
  behind : ∀ k, (segment noffH k).size ≠ 0 →
    sizeofNoffHeader ≤ (segment noffH k).inFileAddr.toNat
  apart : ∀ k k', k ≠ k' → ∀ i, InRange (segment noffH k).inFileAddr (segment noffH k).size i →
    ¬ InRange (segment noffH k').inFileAddr (segment noffH k').size i
  bss : ∀ a, InRange noffH.uninitData.virtualAddr noffH.uninitData.size a ↔
    ∃ sec ∈ ofKind .bss (sections cfg coff), InRange sec.paddr sec.size a

/-! ## The files whose image is kept -/

/-- How many bytes sections have, in the 32 bits of an `int`. -/
def total (secs : List Scnhdr) : Word := (secs.map (·.size)).sum

/-- The last sections, from where the sizes of those before add up to 0 in 32 bits: all of them, unless
the sizes wrap around. -/
def sinceWrap (secs : List Scnhdr) : List Scnhdr :=
  secs.foldl (fun run sec => if total run = 0 then [sec] else run ++ [sec]) []

def Scnhdr.InFile (sec : Scnhdr) : Prop := 0 ≤ sec.size.toInt ∧ 0 ≤ sec.scnptr.toInt

structure Convertible (secs : List Scnhdr) : Prop where
  once : ∀ k, (ofKind (.stored k) secs).length ≤ 1
  inFile : ∀ k, ∀ sec ∈ ofKind (.stored k) secs, sec.InFile
  /-- the `.bss` sections are the addresses from the first one's on, as many as they have bytes -/
  bss : ∀ a, (∃ sec ∈ ofKind .bss secs, InRange sec.paddr sec.size a) ↔
    ∃ first ∈ (sinceWrap (ofKind .bss secs)).head?,
      InRange first.paddr (total (sinceWrap (ofKind .bss secs))) a

/-! ## Small lemmas -/

theorem require_ok {c : Prop} [Decidable c] {u : Unit} (h : require c = .ok u) : c := by
  unfold require at h
  split at h
  · assumption
  · cases h

@[simp] theorem segment_setSegment_same (noffH : NoffHeader) (seg : Segment) (k : Stored) :
    segment (setSegment noffH seg k) k = seg := by
  cases k <;> rfl

theorem segment_setSegment_ne {k' : Stored} (h : k' ≠ k) (noffH : NoffHeader) (seg : Segment) :
    segment (setSegment noffH seg k) k' = segment noffH k' := by
  cases k <;> cases k' <;> first | rfl | exact absurd rfl h

@[simp] theorem noffMagic_setSegment (noffH : NoffHeader) (seg : Segment) (k : Stored) :
    (setSegment noffH seg k).noffMagic = noffH.noffMagic := by
  cases k <;> rfl

@[simp] theorem uninitData_setSegment (noffH : NoffHeader) (seg : Segment) (k : Stored) :
    (setSegment noffH seg k).uninitData = noffH.uninitData := by
  cases k <;> rfl

theorem ofKind_append (k : Kind) (secs : List Scnhdr) (sec : Scnhdr) :
    ofKind k (secs ++ [sec]) =
      if sec.size ≠ 0 ∧ sec.kind = some k then ofKind k secs ++ [sec] else ofKind k secs := by
  unfold ofKind
  rw [List.filter_append]
  by_cases h : sec.size ≠ 0 ∧ sec.kind = some k
  · rw [if_pos h, List.filter_cons_of_pos (by simpa using h), List.filter_nil]
  · rw [if_neg h, List.filter_cons_of_neg (by simpa using h), List.filter_nil, List.append_nil]

theorem ofKind_append_ne {k : Kind}
    (h : sec.size = 0 ∨ sec.kind ≠ some k) : ofKind k (secs ++ [sec]) = ofKind k secs := by
  rw [ofKind_append, if_neg]
  rintro ⟨hs, hk⟩
  exact h.elim hs fun h => h hk

theorem sinceWrap_append (secs : List Scnhdr) (sec : Scnhdr) :
    sinceWrap (secs ++ [sec]) =
      if total (sinceWrap secs) = 0 then [sec] else sinceWrap secs ++ [sec] := by
  unfold sinceWrap
  rw [List.foldl_append]
  rfl

theorem total_append (secs : List Scnhdr) (sec : Scnhdr) :
    total (secs ++ [sec]) = total secs + sec.size := by
  simp [total]

theorem total_singleton (sec : Scnhdr) : total [sec] = sec.size := by simp [total]

/-! ## One section -/

inductive Loaded (host : Host) (coff : List Byte) (s : State) (sec : Scnhdr) : State → Prop
  | empty (hs : sec.size = 0) : Loaded host coff s sec s
  | copied {k : Stored} {s' : State} (hs : sec.size ≠ 0) (hk : sec.kind = some (.stored k))
      (header : s'.noffH = setSegment s.noffH ⟨sec.paddr, s.inNoffFile, sec.size⟩ k)
      (bytes : sec.InFile → sec.scnptr.toNat + sec.size.toNat ≤ coff.length ∧
        s.outPos + sec.size.toNat ≤ host.room ∧ s'.inNoffFile = s.inNoffFile + sec.size ∧
        s'.out = overwrite 0 s.out s.outPos (sec.bytes coff) ∧
        s'.outPos = s.outPos + sec.size.toNat) : Loaded host coff s sec s'
  | merged (hs : sec.size ≠ 0) (hk : sec.kind = some .bss) (hm : s.noffH.uninitData.size ≠ 0) :
      Loaded host coff s sec
        { s with noffH.uninitData.size := s.noffH.uninitData.size + sec.size }
  | started (hs : sec.size ≠ 0) (hk : sec.kind = some .bss) (hm : s.noffH.uninitData.size = 0) :
      Loaded host coff s sec
        { s with noffH.uninitData :=
          { s.noffH.uninitData with virtualAddr := sec.paddr, size := sec.size } }

theorem readSection_ok {pos pos' : Nat} {n : Word} {buffer : List Byte}
    (h : readSection host coff pos n = .ok (buffer, pos')) (hn : 0 ≤ n.toInt) :
    pos + n.toNat ≤ coff.length ∧ buffer = (coff.drop pos).take n.toNat := by
  unfold readSection at h
  rw [if_pos hn] at h
  obtain ⟨_, _, h⟩ := bind_ok h
  obtain ⟨bytes, hr, h⟩ := bind_ok h
  obtain ⟨_, hl, hr⟩ := bind_ok hr
  cases hr
  cases h
  exact ⟨require_ok hl, rfl⟩

theorem writeSection_ok {buffer : List Byte} {n : Word}
    (h : writeSection host s buffer n = .ok s') :
    s'.noffH = s.noffH ∧ s'.inNoffFile = s.inNoffFile ∧
      (0 ≤ n.toInt → s.outPos + n.toNat ≤ host.room ∧ s'.out = overwrite 0 s.out s.outPos buffer ∧
        s'.outPos = s.outPos + n.toNat) := by
  unfold writeSection at h
  split at h
  · obtain ⟨_, hr, h⟩ := bind_ok h
    cases h
    exact ⟨rfl, rfl, fun _ => ⟨require_ok hr, rfl, rfl⟩⟩
  · rename_i hn
    obtain ⟨_, _, h⟩ := bind_ok h
    cases h
    exact ⟨rfl, rfl, fun h0 => absurd h0 hn⟩

theorem copySection_ok (hs : sec.size ≠ 0)
    (hk : sec.kind = some (.stored k)) (h : copySection host coff s sec k = .ok s') :
    Loaded host coff s sec s' := by
  unfold copySection at h
  obtain ⟨⟨buffer, pos⟩, hr, h⟩ := bind_ok h
  obtain ⟨s1, hw, h⟩ := bind_ok h
  obtain ⟨hh, hi, hb⟩ := writeSection_ok hw
  cases h
  refine .copied hs hk hh fun hf => ?_
  rw [if_pos hf.2] at hr
  obtain ⟨hl, rfl⟩ := readSection_ok hr hf.1
  obtain ⟨hroom, hout, hpos⟩ := hb hf.1
  exact ⟨hl, hroom, by rw [hi], hout, hpos⟩

theorem mergeBss_ok (hs : sec.size ≠ 0) (hk : sec.kind = some .bss)
    (h : mergeBss s sec = .ok s') : Loaded host coff s sec s' := by
  unfold mergeBss at h
  by_cases hm : s.noffH.uninitData.size = 0
  · rw [if_neg (not_not.2 hm)] at h
    cases h
    exact .started hs hk hm
  · rw [if_pos hm] at h
    obtain ⟨_, _, h⟩ := bind_ok h
    cases h
    exact .merged hs hk hm

theorem loadSection_ok (h : loadSection host coff s sec = .ok s') : Loaded host coff s sec s' := by
  unfold loadSection at h
  split at h
  · rename_i hs
    cases h
    exact .empty hs
  · rename_i hs
    split at h
    · exact copySection_ok hs ‹_› h
    · exact mergeBss_ok hs ‹_› h
    · cases h

/-! ## The header -/

structure HeaderOk (secs : List Scnhdr) (noffH : NoffHeader) : Prop where
  magic : noffH.noffMagic = noffMagicNumber
  size : noffH.uninitData.size = total (sinceWrap (ofKind .bss secs))
  start : ∀ first ∈ (sinceWrap (ofKind .bss secs)).head?, noffH.uninitData.virtualAddr = first.paddr

theorem HeaderOk.init (memory : NoffHeader) : HeaderOk [] (initialHeader memory) :=
  ⟨rfl, rfl, nofun⟩

theorem HeaderOk.load (h : HeaderOk secs s.noffH)
    (hl : Loaded host coff s sec s') : HeaderOk (secs ++ [sec]) s'.noffH := by
  cases hl with
  | empty hs =>
    have e : ofKind .bss (secs ++ [sec]) = ofKind .bss secs := ofKind_append_ne (.inl hs)
    exact ⟨h.magic, e ▸ h.size, e ▸ h.start⟩
  | copied hs hk header _ =>
    have e : ofKind .bss (secs ++ [sec]) = ofKind .bss secs :=
      ofKind_append_ne (.inr (by rw [hk]; nofun))
    rw [header]
    exact ⟨by simpa using h.magic, by simpa [e] using h.size, by simpa [e] using h.start⟩
  | merged hs hk hm =>
    have e : sinceWrap (ofKind .bss (secs ++ [sec])) = sinceWrap (ofKind .bss secs) ++ [sec] := by
      rw [ofKind_append, if_pos ⟨hs, hk⟩, sinceWrap_append, if_neg (h.size ▸ hm)]
    refine ⟨h.magic, ?_, ?_⟩
    · rw [e, total_append, ← h.size]
    · intro first hf
      -- the sizes before add up to something, so there is a first section already
      cases hr : sinceWrap (ofKind .bss secs) with
      | nil => exact absurd (h.size.trans (by rw [hr]; rfl)) hm
      | cons b run =>
        rw [e, hr] at hf
        exact h.start first (by rw [hr]; exact hf)
  | started hs hk hm =>
    have e : sinceWrap (ofKind .bss (secs ++ [sec])) = [sec] := by
      rw [ofKind_append, if_pos ⟨hs, hk⟩, sinceWrap_append, if_pos (h.size ▸ hm)]
    refine ⟨h.magic, ?_, ?_⟩
    · rw [e, total_singleton]
    · intro first hf
      rw [e] at hf
      cases hf
      rfl

/-! ## The bytes -/

structure Placed (coff : List Byte) (s : State) (seg : Segment) (sec : Scnhdr) : Prop
    extends Stores coff s.out seg sec where
  behind : sizeofNoffHeader ≤ seg.inFileAddr.toNat
  before : seg.inFileAddr.toNat + seg.size.toNat ≤ s.outPos

structure Laid (coff : List Byte) (secs : List Scnhdr) (s : State) : Prop where
  next : s.inNoffFile.toNat = s.outPos
  header : sizeofNoffHeader ≤ s.outPos
  absent : ∀ k, ofKind (.stored k) secs = [] → (segment s.noffH k).size = 0
  placed : ∀ k, ∀ sec ∈ (ofKind (.stored k) secs).getLast?, Placed coff s (segment s.noffH k) sec
  apart : ∀ k k', k ≠ k' → ∀ i, InRange (segment s.noffH k).inFileAddr (segment s.noffH k).size i →
    ¬ InRange (segment s.noffH k').inFileAddr (segment s.noffH k').size i

theorem Laid.placed_of_ne (h : Laid coff secs s)
    (hk : (segment s.noffH k).size ≠ 0) : ∃ sec, Placed coff s (segment s.noffH k) sec := by
  cases hl : (ofKind (.stored k) secs).getLast? with
  | none => exact absurd (h.absent k (List.getLast?_eq_none_iff.1 hl)) hk
  | some sec => exact ⟨sec, h.placed k sec hl⟩

theorem Placed.write {bytes : List Byte}
    (h : Placed coff s seg sec) (hout : s'.out = overwrite 0 s.out s.outPos bytes)
    (hpos : s.outPos ≤ s'.outPos) : Placed coff s' seg sec where
  size := h.size
  virtualAddr := h.virtualAddr
  whole := h.whole
  bytes := by
    rw [hout, take_drop_overwrite h.before, h.bytes]
    rw [h.bytes, h.whole, h.size]
  behind := h.behind
  before := h.before.trans hpos

theorem Scnhdr.length_bytes (h : sec.scnptr.toNat + sec.size.toNat ≤ coff.length) :
    (sec.bytes coff).length = sec.size.toNat := by
  rw [Scnhdr.bytes, List.length_take, List.length_drop]
  omega

theorem InRange.size_ne {start size : Word} {a : Nat} (h : InRange start size a) : size ≠ 0 := by
  rintro rfl
  exact absurd h.2 (Nat.not_lt.2 h.1)

theorem Laid.of_same (h : Laid coff secs s)
    (hk : ∀ k, ofKind (.stored k) (secs ++ [sec]) = ofKind (.stored k) secs)
    (hseg : segment s'.noffH = segment s.noffH) (hnext : s'.inNoffFile = s.inNoffFile)
    (hout : s'.out = s.out) (hpos : s'.outPos = s.outPos) : Laid coff (secs ++ [sec]) s' where
  next := by rw [hnext, hpos, h.next]
  header := by rw [hpos]; exact h.header
  absent k := by rw [hk, hseg]; exact h.absent k
  placed k := by
    rw [hk, hseg]
    intro sec' hs
    obtain ⟨hst, hb, ha⟩ := h.placed k sec' hs
    exact ⟨hout ▸ hst, hb, hpos ▸ ha⟩
  apart := by rw [hseg]; exact h.apart

theorem Laid.copy (h : Laid coff secs s) (hs : sec.size ≠ 0) (hk : sec.kind = some (.stored k))
    (header : s'.noffH = setSegment s.noffH ⟨sec.paddr, s.inNoffFile, sec.size⟩ k)
    (hl : sec.scnptr.toNat + sec.size.toNat ≤ coff.length)
    (hroom : s.outPos + sec.size.toNat ≤ host.room)
    (hnext : s'.inNoffFile = s.inNoffFile + sec.size)
    (hout : s'.out = overwrite 0 s.out s.outPos (sec.bytes coff))
    (hpos : s'.outPos = s.outPos + sec.size.toNat) : Laid coff (secs ++ [sec]) s' := by
  have hlt := host.room_lt
  have hnew : segment s'.noffH k = ⟨sec.paddr, s.inNoffFile, sec.size⟩ := by
    rw [header, segment_setSegment_same]
  have hold : ∀ {k'}, k' ≠ k → segment s'.noffH k' = segment s.noffH k' := fun hne => by
    rw [header, segment_setSegment_ne hne]
  have hother : ∀ {k'}, k' ≠ k → ofKind (.stored k') (secs ++ [sec]) = ofKind (.stored k') secs :=
    fun hne => ofKind_append_ne (.inr (by rw [hk]; rintro ⟨⟩; exact hne rfl))
  have hsame : ofKind (.stored k) (secs ++ [sec]) = ofKind (.stored k) secs ++ [sec] := by
    rw [ofKind_append, if_pos ⟨hs, hk⟩]
  -- the new segment starts where all others end
  have hbefore : ∀ {k'}, k' ≠ k → ∀ {i},
      InRange (segment s'.noffH k').inFileAddr (segment s'.noffH k').size i → i < s.outPos := by
    intro k' hne i hi
    rw [hold hne] at hi
    obtain ⟨sec', hp⟩ := h.placed_of_ne hi.size_ne
    exact hi.2.trans_le hp.before
  have hafter : ∀ {i},
      InRange (segment s'.noffH k).inFileAddr (segment s'.noffH k).size i → s.outPos ≤ i := by
    intro i hi
    rw [hnew] at hi
    exact h.next ▸ hi.1
  refine ⟨?_, ?_, fun k' hk' => ?_, fun k' sec' hs' => ?_, fun k1 k2 hne i h1 h2 => ?_⟩
  · rw [hnext, hpos, BitVec.toNat_add, h.next, Nat.mod_eq_of_lt (by omega)]
  · rw [hpos]
    exact h.header.trans (Nat.le_add_right _ _)
  · by_cases hkk : k' = k
    · rw [hkk, hsame] at hk'
      exact absurd hk' (by simp)
    · rw [hold hkk]
      exact h.absent k' (hother hkk ▸ hk')
  · by_cases hkk : k' = k
    · rw [hkk, hsame, List.getLast?_concat] at hs'
      cases hs'
      rw [hkk, hnew]
      have hb := sec.length_bytes hl
      refine ⟨⟨rfl, rfl, hb, ?_⟩, ?_, ?_⟩
      · show (s'.out.drop s.inNoffFile.toNat).take sec.size.toNat = _
        rw [hout, h.next, ← hb, take_drop_overwrite_self]
      · exact h.next ▸ h.header
      · show s.inNoffFile.toNat + sec.size.toNat ≤ _
        rw [h.next, hpos]
    · rw [hold hkk]
      exact (h.placed k' sec' (hother hkk ▸ hs')).write hout (by omega)
  · rcases eq_or_ne k1 k with rfl | hk1
    · exact absurd (hbefore hne.symm h2) (Nat.not_lt.2 (hafter h1))
    · rcases eq_or_ne k2 k with rfl | hk2
      · exact absurd (hbefore hk1 h1) (Nat.not_lt.2 (hafter h2))
      · rw [hold hk1] at h1
        rw [hold hk2] at h2
        exact h.apart k1 k2 hne i h1 h2

theorem Laid.load (h : Laid coff secs s)
    (hf : ∀ k, ∀ sec' ∈ ofKind (.stored k) (secs ++ [sec]), sec'.InFile)
    (hl : Loaded host coff s sec s') : Laid coff (secs ++ [sec]) s' := by
  cases hl with
  | empty hs => exact h.of_same (fun k => ofKind_append_ne (.inl hs)) rfl rfl rfl rfl
  | copied hs hk header bytes =>
    have hmem := hf _ sec (by rw [ofKind_append, if_pos ⟨hs, hk⟩]; simp)
    obtain ⟨hlen, hroom, hnext, hout, hpos⟩ := bytes hmem
    exact h.copy hs hk header hlen hroom hnext hout hpos
  | merged hs hk _ | started hs hk _ =>
    exact h.of_same (fun k => ofKind_append_ne (.inr (by rw [hk]; nofun)))
      (funext fun k => by cases k <;> rfl) rfl rfl rfl

/-! ## The loop -/

theorem headerOk_foldlM {done : List Scnhdr} (h : HeaderOk done s.noffH)
    (hl : secs.foldlM (loadSection host coff) s = .ok s') : HeaderOk (done ++ secs) s'.noffH := by
  induction secs generalizing done s with
  | nil =>
    cases hl
    rwa [List.append_nil]
  | cons sec secs ih =>
    obtain ⟨s1, h1, hl⟩ := foldlM_cons_ok hl
    rw [List.append_cons]
    exact ih (h.load (loadSection_ok h1)) hl

theorem laid_foldlM {done : List Scnhdr} (h : Laid coff done s)
    (hf : ∀ k, ∀ sec ∈ ofKind (.stored k) (done ++ secs), sec.InFile)
    (hl : secs.foldlM (loadSection host coff) s = .ok s') : Laid coff (done ++ secs) s' := by
  induction secs generalizing done s with
  | nil =>
    cases hl
    rwa [List.append_nil]
  | cons sec secs ih =>
    obtain ⟨s1, h1, hl⟩ := foldlM_cons_ok hl
    rw [List.append_cons] at hf ⊢
    refine ih (h.load (fun k sec' hs => hf k sec' ?_) (loadSection_ok h1)) hf hl
    unfold ofKind at hs ⊢
    rw [List.filter_append]
    exact List.mem_append_left _ hs

def start (memory : NoffHeader) (pos : Nat) : State :=
  ⟨initialHeader memory, BitVec.ofNat 32 sizeofNoffHeader, pos, [], sizeofNoffHeader⟩

theorem Laid.init (coff : List Byte) (memory : NoffHeader) (pos : Nat) :
    Laid coff [] (start memory pos) where
  next := rfl
  header := Nat.le_refl _
  absent k _ := by cases k <;> rfl
  placed k sec hs := by cases hs
  apart k k' _ i hi := by
    have : (segment (start memory pos).noffH k).size = 0 := by cases k <;> rfl
    exact absurd this hi.size_ne

theorem main_ok (h : main cfg host memory coff = .ok out) :
    coff.length < 2 ^ 31 ∧ ∃ pos s,
      (sections cfg coff).foldlM (loadSection host coff) (start memory pos) = .ok s ∧
      out = s.noffH.toBytes cfg ++ s.out.drop sizeofNoffHeader := by
  unfold main at h
  obtain ⟨_, hlt, h⟩ := bind_ok h
  obtain ⟨_, _, h⟩ := bind_ok h
  obtain ⟨_, _, h⟩ := bind_ok h
  obtain ⟨_, _, h⟩ := bind_ok h
  obtain ⟨_, _, h⟩ := bind_ok h
  obtain ⟨_, _, h⟩ := bind_ok h
  obtain ⟨_, _, h⟩ := bind_ok h
  obtain ⟨s, hs, h⟩ := bind_ok h
  obtain ⟨_, _, h⟩ := bind_ok h
  cases h
  exact ⟨require_ok hlt, _, s, hs, by rw [overwrite_zero, length_toBytes]⟩

theorem HeaderOk.inRange_iff {noffH : NoffHeader} (h : HeaderOk secs noffH)
    (a : Nat) : InRange noffH.uninitData.virtualAddr noffH.uninitData.size a ↔
      ∃ first ∈ (sinceWrap (ofKind .bss secs)).head?,
        InRange first.paddr (total (sinceWrap (ofKind .bss secs))) a := by
  constructor
  · intro ha
    cases hr : sinceWrap (ofKind .bss secs) with
    | nil => exact absurd (h.size.trans (by rw [hr]; rfl)) ha.size_ne
    | cons b run =>
      refine ⟨b, rfl, ?_⟩
      rw [← h.start b (by rw [hr]; rfl), ← hr, ← h.size]
      exact ha
  · rintro ⟨first, hf, ha⟩
    rw [h.start first hf, h.size]
    exact ha

theorem Stores.inFile (h : Stores coff out seg sec)
    (hs : sec.size ≠ 0) (hlen : coff.length < 2 ^ 31) : sec.InFile := by
  have hw := h.whole
  rw [Scnhdr.bytes, List.length_take, List.length_drop] at hw
  have h0 : sec.size.toNat ≠ 0 := fun h0 => hs (BitVec.eq_of_toNat_eq h0)
  rw [Scnhdr.InFile, BitVec.toInt_eq_toNat_of_lt (by omega), BitVec.toInt_eq_toNat_of_lt (by omega)]
  exact ⟨Int.natCast_nonneg _, Int.natCast_nonneg _⟩

theorem Placed.stores (h : Placed coff s seg sec) :
    Stores coff (s.noffH.toBytes cfg ++ s.out.drop sizeofNoffHeader) seg sec where
  size := h.size
  virtualAddr := h.virtualAddr
  whole := h.whole
  bytes := by
    rw [List.drop_append, length_toBytes, List.drop_drop, Nat.add_sub_cancel' h.behind,
      List.drop_eq_nil_of_le (by rw [length_toBytes]; exact h.behind)]
    exact h.bytes

theorem getLast?_of_length_le_one {α : Type} {l : List α} {a : α} (hl : l.length ≤ 1) (ha : a ∈ l) :
    l.getLast? = some a := by
  obtain ⟨b, rfl⟩ := List.length_eq_one_iff.1 (hl.antisymm (List.length_pos_of_mem ha))
  rw [List.mem_singleton.1 ha]
  rfl

theorem convertible_of_imageKept {noffH : NoffHeader} (h : main cfg host memory coff = .ok out)
    (hi : ImageKept cfg coff out noffH) : Convertible (sections cfg coff) := by
  obtain ⟨hlen, pos, s, hs, rfl⟩ := main_ok h
  have hh := headerOk_foldlM (HeaderOk.init memory) hs
  rw [List.nil_append] at hh
  have e : noffH = s.noffH :=
    Except.ok.inj ((hi.header fun _ => 0).symm.trans (readHeader_toBytes cfg _ _ _ hh.magic))
  rw [e] at hi
  refine ⟨hi.once, fun k sec hs => ?_, fun a => ?_⟩
  · have hne : sec.size ≠ 0 := (of_decide_eq_true (List.mem_filter.1 hs).2).1
    exact (hi.stored k sec hs).inFile hne hlen
  · rw [← hi.bss, hh.inRange_iff]

theorem imageKept_of_convertible (h : main cfg host memory coff = .ok out)
    (hc : Convertible (sections cfg coff)) : ∃ noffH, ImageKept cfg coff out noffH := by
  obtain ⟨-, pos, s, hs, rfl⟩ := main_ok h
  have hh := headerOk_foldlM (HeaderOk.init memory) hs
  have hl := laid_foldlM (Laid.init coff memory pos) hc.inFile hs
  rw [List.nil_append] at hh hl
  refine ⟨s.noffH, fun junk => readHeader_toBytes cfg junk _ _ hh.magic, hc.once, ?_, ?_, hl.apart, ?_⟩
  · intro k sec hs
    exact (hl.placed k sec (getLast?_of_length_le_one (hc.once k) hs)).stores
  · intro k hk
    obtain ⟨sec, hp⟩ := hl.placed_of_ne hk
    exact hp.behind
  · intro a
    rw [hc.bss, hh.inRange_iff]

/-- **The memory image.** A file that is converted keeps the image exactly when its sections with
bytes are not repeated and lie in the file, and its `.bss` sections fill the range of the header. -/
theorem imageKept_iff (h : main cfg host memory coff = .ok out) :
    (∃ noffH, ImageKept cfg coff out noffH) ↔ Convertible (sections cfg coff) :=
  ⟨fun ⟨_, hi⟩ => convertible_of_imageKept h hi, imageKept_of_convertible h⟩

/-! ## The program in memory -/

open AddrSpace

/-- The constructor and `Load` return on the converted file, and put each byte of the COFF file's sections
at its virtual address. -/
def SectionsLoaded (cfg : Build) (coff out : List Byte) (bitmap : Bitmap) : Prop :=
  ∀ m junk, ∃ s k, AddrSpace.new cfg junk ⟨out⟩ ⟨m, bitmap⟩ = .ok (s, k) ∧ ∀ junk' stale,
    ∃ r, s.load cfg junk' stale ⟨out⟩ k.mainMemory = .ok r ∧
      ∀ kind, ∀ sec ∈ ofKind (.stored kind) (sections cfg coff), ∀ v : Word,
        InRange sec.paddr sec.size v.toNat →
          r.space.readVirtual r.mem v = (sec.bytes coff)[v.toNat - sec.paddr.toNat]?

/-- **From a COFF file to a process**: what is converted and loaded is what the compiler put in the
sections, if these start on pages. -/
theorem sections_loaded {noffH : NoffHeader} {bitmap : Bitmap} (h : main cfg host memory coff = .ok out)
    (hc : Convertible (sections cfg coff)) (hh : ∀ junk, readHeader cfg junk ⟨out⟩ = .ok noffH)
    (hfit : Fits bitmap noffH) (hw : noffH.WellFormed ⟨out⟩ (pagesFor noffH))
    (hal : Aligned noffH) : SectionsLoaded cfg coff out bitmap := by
  obtain ⟨noffH', hi⟩ := imageKept_of_convertible h hc
  cases (hi.header 0).symm.trans (hh 0)
  intro m junk
  obtain ⟨s, k, hn⟩ := new_of_fits hh hfit junk m
  obtain ⟨hs, hmem⟩ := new_built (hh junk) hfit.1 hn
  rw [← hs.numPages] at hw
  refine ⟨s, k, hn, fun junk' stale => ?_⟩
  obtain ⟨r, hr, hm, hf, hrm⟩ := load_wellFormed hs hw (hh junk') stale k.mainMemory
  refine ⟨r, hr, fun kind sec hsec v hv => ?_⟩
  have hst := hi.stored kind sec hsec
  rw [← hst.virtualAddr, ← hst.size] at hv
  have hseg : segment noffH kind ∈ loadedSegments noffH := by
    cases kind <;> simp [segment, loadedSegments]
  have hin := hw.inside _ (mem_segments hseg) (by have := hv.1; have := hv.2; omega)
  obtain ⟨p, hp⟩ := physAddr_isSome (Nat.lt_of_lt_of_le hv.2 hin)
  have hcopy := placedAt_of_aligned hw hal (.inl ⟨_, hseg, hv⟩)
  rw [readVirtual_eq hm r.mem (by rw [hf, hp]), hrm, hmem,
    (read_eq_wanted_iff hs hw hp _).2 hcopy, wanted_of_contains hw hseg hv,
    ← hst.virtualAddr, ← hst.bytes, List.getElem?_take_of_lt, List.getElem?_drop]
  obtain ⟨h1, h2⟩ := hv
  omega

/-! ## Two files -/

def scnhdrBytes (name : String) (paddr size scnptr : Word) : List Byte :=
  (chars name ++ List.replicate 8 0).take 8 ++ hostWordBytes buildLinux paddr ++
    hostWordBytes buildLinux paddr ++ hostWordBytes buildLinux size ++
    hostWordBytes buildLinux scnptr ++ List.replicate 16 0

/-- A COFF file with these section headers, and the bytes behind them. -/
def coffFile (headers : List (List Byte)) (contents : List Byte) : List Byte :=
  [0x62, 0x01, BitVec.ofNat 8 headers.length, 0] ++ List.replicate 16 0 ++ [0x07, 0x01] ++
    List.replicate 54 0 ++ headers.flatten ++ contents

def roomy : Host := ⟨fun _ => true, 1000, by decide, fun _ => false, false⟩

def noMemory : NoffHeader := ⟨0, ⟨0, 0, 0⟩, ⟨0, 0, 0⟩, ⟨0, 0, 0⟩, ⟨0, 0, 0⟩⟩

def smallCoff : List Byte :=
  coffFile [scnhdrBytes ".text" 0 4 156, scnhdrBytes ".bss" 0x100 16 0] [1, 2, 3, 4]

def gapCoff : List Byte :=
  coffFile [scnhdrBytes ".bss" 0x100 16 0, scnhdrBytes ".bss" 0x200 16 0] []

theorem ofKind_smallCoff :
    ofKind .bss (sections buildLinux smallCoff) = [⟨chars ".bss" ++ List.replicate 4 0, 0x100, 16, 0⟩] := by
  decide +kernel

theorem convertible_smallCoff : Convertible (sections buildLinux smallCoff) where
  once k := by cases k <;> decide +kernel
  inFile k := by
    unfold Scnhdr.InFile
    cases k <;> decide +kernel
  bss a := by
    rw [ofKind_smallCoff]
    simp [sinceWrap, total]

theorem imageKept_smallCoff : ∃ out, main buildLinux roomy noMemory smallCoff = .ok out ∧
    ∃ noffH, ImageKept buildLinux smallCoff out noffH := by
  obtain ⟨out, h⟩ := exists_ok (x := main buildLinux roomy noMemory smallCoff) (by decide +kernel)
  exact ⟨out, h, (imageKept_iff h).2 convertible_smallCoff⟩

def smallHeader : NoffHeader := ⟨noffMagicNumber, ⟨0, 52, 4⟩, ⟨0, 0, 0⟩, ⟨0, 0, 0⟩, ⟨0x100, 0, 16⟩⟩

def smallNoff : List Byte := smallHeader.toBytes buildLinux ++ [1, 2, 3, 4]

theorem sections_loaded_smallCoff : ∃ bitmap, Bitmap.new numPhysPages = .ok bitmap ∧
    SectionsLoaded buildLinux smallCoff smallNoff bitmap := by
  have h : main buildLinux roomy noMemory smallCoff = .ok smallNoff := by decide +kernel
  obtain ⟨bitmap, hb, hbits, hmarked⟩ := Bitmap.new_eq (show 0 < numPhysPages by decide)
  have hfit : Fits bitmap smallHeader :=
    ⟨hbits, _, bitmap.numClear_eq, by rw [hbits, hmarked]; decide⟩
  have hw : smallHeader.WellFormed ⟨smallNoff⟩ (pagesFor smallHeader) := by
    refine ⟨by decide, ?_, by decide, by decide, by decide⟩
    simp [NoffHeader.segments, loadedSegments, smallHeader, Segment.Apart, Segment.Contains]
    omega
  exact ⟨bitmap, hb, sections_loaded h convertible_smallCoff
    (fun junk => readHeader_toBytes buildLinux junk _ _ rfl) hfit hw (by decide)⟩

/-- The two sections are taken for 32 bytes at the first one's address. -/
theorem gap_not_kept : ∃ out, main buildLinux roomy noMemory gapCoff = .ok out ∧
    ¬ ∃ noffH, ImageKept buildLinux gapCoff out noffH := by
  obtain ⟨out, h⟩ := exists_ok (x := main buildLinux roomy noMemory gapCoff) (by decide +kernel)
  refine ⟨out, h, ?_⟩
  rintro ⟨noffH, hi⟩
  have hb : ofKind .bss (sections buildLinux gapCoff) =
      [⟨chars ".bss" ++ List.replicate 4 0, 0x100, 16, 0⟩,
        ⟨chars ".bss" ++ List.replicate 4 0, 0x200, 16, 0⟩] := by
    decide +kernel
  have := (convertible_of_imageKept h hi).bss 0x110
  rw [hb] at this
  simp [sinceWrap, total, InRange] at this

end Nachos.Coff2noff
