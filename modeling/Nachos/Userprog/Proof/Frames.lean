import Nachos.Base.Pool
import Nachos.Lib.Proof.Bitmap
import Nachos.Userprog.AddrSpace

/-!
# Frame ownership

The constructor takes frames `gPhysPageBitMap` does not show as used and the destructor gives them
back (`allocPages_spec`, `delete_spec`): over every history of constructions and destructions the
frames of the live spaces are a pool in which every frame in use has one owner
(`Base.Pool.Owned`), and the bitmap is the set of frames in use.
-/

namespace Nachos

open Base

namespace AddrSpace

def frames (s : AddrSpace) : List Nat := s.pageTable.map (·.physicalPage.toNat)

@[simp] theorem length_frames (s : AddrSpace) : s.frames.length = s.numPages := by
  simp [frames, numPages]

theorem toNat_newEntry {i j : Nat} (h : j < 2 ^ 32) :
    (newEntry i (j : Int)).physicalPage.toNat = j := by
  simp only [newEntry, BitVec.ofInt_natCast, BitVec.toNat_ofNat]
  exact Nat.mod_eq_of_lt h

structure Alloc (bitmap : Bitmap) (n : Nat) (pageTable : List TranslationEntry) (bitmap' : Bitmap) :
    Prop where
  length : pageTable.length = n
  nodup : (pageTable.map (·.physicalPage.toNat)).Nodup
  frame : ∀ e ∈ pageTable, e.physicalPage.toNat < bitmap.numBits ∧
    e.physicalPage.toNat ∉ bitmap.marked ∧ e.valid = true ∧ e.readOnly = false
  first : pageTable.map (·.physicalPage.toNat) = bitmap.firstClear n
  marked : bitmap'.marked = bitmap.marked ∪ (pageTable.map (·.physicalPage.toNat)).toFinset
  numBits : bitmap'.numBits = bitmap.numBits

theorem Alloc.cons {bitmap bitmap' : Bitmap} {n i j : Nat} {pageTable : List TranslationEntry}
    (hj : j < bitmap.numBits) (hb : bitmap.bit j = false) (hlow : ∀ k < j, bitmap.bit k = true)
    (h32 : bitmap.numBits ≤ 2 ^ 32)
    (h : Alloc (bitmap.set j) n pageTable bitmap') :
    Alloc bitmap (n + 1) (newEntry i (j : Int) :: pageTable) bitmap' := by
  have hp : (newEntry i (j : Int)).physicalPage.toNat = j := toNat_newEntry (by omega)
  have hjm : j ∉ bitmap.marked := by simp [Bitmap.mem_marked, hb]
  have hms := Bitmap.marked_set hj
  refine ⟨by simp [h.length], ?_, ?_, ?_, ?_, h.numBits⟩
  · rw [List.map_cons, List.nodup_cons, hp]
    refine ⟨fun hm => ?_, h.nodup⟩
    obtain ⟨e, he, hej⟩ := List.mem_map.1 hm
    exact (h.frame e he).2.1 (by rw [hej, hms]; exact Finset.mem_insert_self ..)
  · intro e he
    rcases List.mem_cons.1 he with rfl | he
    · exact ⟨by rw [hp]; exact hj, by rw [hp]; exact hjm, rfl, rfl⟩
    · obtain ⟨h1, h2, h3⟩ := h.frame e he
      rw [hms, Finset.mem_insert, not_or] at h2
      exact ⟨h1, h2.2, h3⟩
  · rw [List.map_cons, hp, h.first, Bitmap.firstClear_succ hj hb hlow]
  · rw [h.marked, hms, List.map_cons, hp, List.toFinset_cons, Finset.insert_union,
      Finset.union_insert]

theorem allocPages_spec : ∀ (n i : Nat) {bitmap bitmap' : Bitmap}
    {pageTable : List TranslationEntry}, bitmap.numBits ≤ 2 ^ 32 →
    allocPages bitmap i n = .ok (pageTable, bitmap') → Alloc bitmap n pageTable bitmap'
  | 0, i, bitmap, bitmap', pageTable, _, h => by
    simp only [allocPages, pure_eq_ok, Except.ok.injEq, Prod.mk.injEq] at h
    obtain ⟨rfl, rfl⟩ := h
    exact ⟨rfl, by simp, by simp, by simp [Bitmap.firstClear], by simp, rfl⟩
  | n + 1, i, bitmap, bitmap', pageTable, h32, h => by
    rw [allocPages] at h
    rcases bitmap.findAndSet_cases with ⟨j, hj, hb, hlow, hf⟩ | ⟨-, hf⟩
    · rw [hf, ok_bind] at h
      dsimp only at h
      obtain ⟨_, -, h⟩ := bind_ok h
      obtain ⟨⟨rest, b''⟩, hr, h⟩ := bind_ok h
      simp only [pure_eq_ok, Except.ok.injEq, Prod.mk.injEq] at h
      obtain ⟨rfl, rfl⟩ := h
      exact Alloc.cons hj hb hlow h32 (allocPages_spec n (i + 1) h32 hr)
    · rw [hf, ok_bind] at h
      dsimp only at h
      rw [assert_not (by simp)] at h
      cases h

theorem allocPages_isOk : ∀ (n i : Nat) (bitmap : Bitmap),
    ((∃ r, allocPages bitmap i n = .ok r) ↔ n ≤ bitmap.numBits - bitmap.marked.card) ∧
      ((¬ ∃ r, allocPages bitmap i n = .ok r) → allocPages bitmap i n = .error .assertion)
  | 0, i, bitmap => by simp [allocPages]
  | n + 1, i, bitmap => by
    rw [allocPages]
    rcases bitmap.findAndSet_cases with ⟨j, hj, hb, -, hf⟩ | ⟨hfull, hf⟩
    · have hjm : j ∉ bitmap.marked := by simp [Bitmap.mem_marked, hb]
      have hcard : (bitmap.set j).marked.card = bitmap.marked.card + 1 := by
        rw [Bitmap.marked_set hj, Finset.card_insert_of_notMem hjm]
      have hle : (bitmap.set j).marked.card ≤ bitmap.numBits := by
        have := Bitmap.card_marked_add_clear (bitmap.set j)
        rw [Bitmap.numBits_set] at this; omega
      obtain ⟨hiff, herr⟩ := allocPages_isOk n (i + 1) (bitmap.set j)
      rw [Bitmap.numBits_set] at hiff
      rw [hf, ok_bind]
      dsimp only
      rw [assert_of (by omega), ok_bind]
      constructor
      · rw [show (n + 1 ≤ bitmap.numBits - bitmap.marked.card ↔
            n ≤ bitmap.numBits - (bitmap.set j).marked.card) by omega, ← hiff]
        constructor
        · rintro ⟨r, hr⟩
          obtain ⟨q, hq, -⟩ := bind_ok hr
          exact ⟨q, hq⟩
        · rintro ⟨q, hq⟩
          exact ⟨_, by rw [hq]; rfl⟩
      · intro hn
        rw [herr fun ⟨q, hq⟩ => hn ⟨_, by rw [hq]; rfl⟩]
        rfl
    · have hc : bitmap.marked = Finset.range bitmap.numBits := by
        ext k
        simp only [Bitmap.mem_marked, Finset.mem_range, and_iff_left_iff_imp]
        exact hfull k
      rw [hf, ok_bind, hc, Finset.card_range]
      dsimp only
      rw [assert_not (by simp)]
      simp

variable {k : Kernel} {s : AddrSpace}

theorem new_ok {cfg : Build} {junk : Memory} {f : OpenFile} {k' : Kernel}
    (h : new cfg junk f k = .ok (s, k')) :
    ∃ noffH, readHeader cfg junk f = .ok noffH ∧
      allocPages k.gPhysPageBitMap 0 (pagesFor noffH) = .ok (s.pageTable, k'.gPhysPageBitMap) ∧
      s.executable = f ∧ k'.mainMemory = zeroPages s.pageTable k.mainMemory := by
  unfold new at h
  obtain ⟨noffH, hh, h⟩ := bind_ok h
  obtain ⟨⟨pt, b⟩, ha, h⟩ := bind_ok h
  simp only [pure_eq_ok, Except.ok.injEq, Prod.mk.injEq] at h
  obtain ⟨rfl, rfl⟩ := h
  exact ⟨noffH, hh, ha, rfl, rfl⟩

theorem allocPages_card : ∀ (n i : Nat) {bitmap bitmap' : Bitmap} {pageTable : List TranslationEntry},
    allocPages bitmap i n = .ok (pageTable, bitmap') →
      bitmap'.numBits = bitmap.numBits ∧ bitmap'.marked.card = bitmap.marked.card + n
  | 0, i, bitmap, bitmap', pageTable, h => by
    cases h
    exact ⟨rfl, rfl⟩
  | n + 1, i, bitmap, bitmap', pageTable, h => by
    rw [allocPages] at h
    rcases bitmap.findAndSet_cases with ⟨j, hj, hb, -, hf⟩ | ⟨-, hf⟩
    · have hjm : j ∉ bitmap.marked := by simp [Bitmap.mem_marked, hb]
      rw [hf, ok_bind] at h
      dsimp only at h
      rw [assert_of (by omega), ok_bind] at h
      obtain ⟨⟨rest, b⟩, hrest, h⟩ := bind_ok h
      cases h
      obtain ⟨hbits, hcard⟩ := allocPages_card n (i + 1) hrest
      rw [Bitmap.marked_set hj, Finset.card_insert_of_notMem hjm] at hcard
      exact ⟨hbits, hcard.trans (by omega)⟩
    · rw [hf, ok_bind] at h
      dsimp only at h
      rw [assert_not (by simp)] at h
      cases h

theorem new_isOk {cfg : Build} {junk : Memory} {f : OpenFile} {noffH : NoffHeader}
    (hh : readHeader cfg junk f = .ok noffH)
    (hn : pagesFor noffH ≤ k.gPhysPageBitMap.numBits - k.gPhysPageBitMap.marked.card) :
    ∃ s k', new cfg junk f k = .ok (s, k') := by
  obtain ⟨⟨pt, b⟩, ha⟩ := (allocPages_isOk _ 0 _).1.2 hn
  unfold new
  rw [hh, ok_bind, ha]
  exact ⟨_, _, rfl⟩

theorem clearPages_spec {b0 b : Bitmap} (hb : s.clearPages b0 = .ok b) :
    b.marked = b0.marked \ s.frames.toFinset ∧ b.numBits = b0.numBits := by
  unfold clearPages at hb
  refine ⟨?_, ?_⟩
  · unfold frames
    generalize s.pageTable = l at hb ⊢
    induction l generalizing b0 with
    | nil => cases hb; simp
    | cons e l ih =>
      obtain ⟨b1, h1, h2⟩ := foldlM_cons_ok hb
      obtain ⟨i, hi, hlt, rfl⟩ := Bitmap.clear_ok h1
      have hei : e.physicalPage.toNat = i := by
        have := BitVec.toInt_eq_toNat_cond e.physicalPage
        have hl := e.physicalPage.isLt
        rw [hi] at this
        split at this <;> omega
      rw [ih h2, Bitmap.marked_unset hlt, List.map_cons, List.toFinset_cons, hei]
      ext a
      simp only [Finset.mem_sdiff, Finset.mem_erase, Finset.mem_insert]
      tauto
  · refine foldlM_inv (fun b => b.numBits = b0.numBits) _ ?_ rfl hb
    intro e _ b1 b2 h1 h2
    obtain ⟨i, -, -, rfl⟩ := Bitmap.clear_ok h2
    exact h1

theorem delete_spec {k' : Kernel} (h : s.delete k = .ok k') :
    k'.gPhysPageBitMap.marked = k.gPhysPageBitMap.marked \ s.frames.toFinset ∧
      k'.gPhysPageBitMap.numBits = k.gPhysPageBitMap.numBits ∧ k'.machine = k.machine := by
  unfold delete at h
  obtain ⟨b, hb, h⟩ := bind_ok h
  simp only [pure_eq_ok, Except.ok.injEq] at h
  subst h
  obtain ⟨hm, hn⟩ := clearPages_spec hb
  exact ⟨hm, hn, rfl⟩

end AddrSpace

/-! ## Histories -/

/-- The live address spaces of a kernel, in the order they were made. -/
structure Spaces where
  kernel : Kernel
  live : List AddrSpace

/-- A construction from a file, or the destruction of live space `i`. -/
inductive SpaceOp
  | create (junk : Memory) (executable : OpenFile)
  | destroy (i : Nat)

def SpaceOp.run (cfg : Build) (s : Spaces) : SpaceOp → Except Fault Spaces
  | .create junk executable => do
    let (space, k) ← AddrSpace.new cfg junk executable s.kernel
    return ⟨k, s.live ++ [space]⟩
  | .destroy i =>
    match s.live[i]? with
    | none => return s
    | some space => do
      let k ← space.delete s.kernel
      return ⟨k, s.live.eraseIdx i⟩

namespace Spaces

/-- A history of the kernel, from the start of the machine: an empty bitmap and no address space. -/
def history (cfg : Build) (m : Machine) (ops : List SpaceOp) : Except Fault Spaces := do
  let bitmap ← Bitmap.new numPhysPages
  ops.foldlM (SpaceOp.run cfg) ⟨⟨m, bitmap⟩, []⟩

def pool (s : Spaces) : Pool Nat :=
  ⟨s.kernel.gPhysPageBitMap.marked, s.live.map AddrSpace.frames⟩

structure FrameInv (s : Spaces) : Prop where
  numBits : s.kernel.gPhysPageBitMap.numBits = numPhysPages
  owned : s.pool.Owned

variable {s s' : Spaces} {cfg : Build}

theorem FrameInv.bits (h : s.FrameInv) : s.kernel.gPhysPageBitMap.numBits ≤ 2 ^ 32 :=
  by rw [h.numBits]; decide

theorem FrameInv.create (h : s.FrameInv) {junk : Memory}
    {f : OpenFile} (hr : (SpaceOp.create junk f).run cfg s = .ok s') : s'.FrameInv := by
  unfold SpaceOp.run at hr
  obtain ⟨⟨space, k⟩, hn, hr⟩ := bind_ok hr
  simp only [pure_eq_ok, Except.ok.injEq] at hr
  subst hr
  obtain ⟨noffH, -, ha, -, -⟩ := AddrSpace.new_ok hn
  have hA := AddrSpace.allocPages_spec _ _ h.bits ha
  refine ⟨hA.numBits.trans h.numBits, ?_⟩
  have hp : Spaces.pool ⟨k, s.live ++ [space]⟩ = s.pool.take space.frames := by
    simp only [pool, Pool.take, List.map_append, List.map_cons, List.map_nil, Pool.mk.injEq,
      and_true]
    exact hA.marked
  rw [hp]
  refine h.owned.take hA.nodup fun x hx => ?_
  obtain ⟨e, he, rfl⟩ := List.mem_map.1 hx
  exact (hA.frame e he).2.1

theorem FrameInv.destroy (h : s.FrameInv) {i : Nat}
    (hr : (SpaceOp.destroy i).run cfg s = .ok s') : s'.FrameInv := by
  simp only [SpaceOp.run] at hr
  cases hi : s.live[i]? with
  | none =>
    rw [hi] at hr
    cases hr
    exact h
  | some space =>
    rw [hi] at hr
    obtain ⟨k, hd, hr⟩ := bind_ok hr
    simp only [pure_eq_ok, Except.ok.injEq] at hr
    subst hr
    obtain ⟨hm, hn, -⟩ := AddrSpace.delete_spec hd
    refine ⟨hn.trans h.numBits, ?_⟩
    have hp : Spaces.pool ⟨k, s.live.eraseIdx i⟩ = s.pool.give i := by
      simp [pool, Pool.give, hm, List.eraseIdx_map, List.getD_eq_getElem?_getD, hi]
    rw [hp]
    refine h.owned.give ?_
    simpa [pool] using (List.getElem?_eq_some_iff.1 hi).1

theorem FrameInv.run (h : s.FrameInv) {ops : List SpaceOp}
    (hr : ops.foldlM (SpaceOp.run cfg) s = .ok s') : s'.FrameInv := by
  refine foldlM_inv FrameInv ops (fun op _ s1 s2 h1 h2 => ?_) h hr
  cases op with
  | create junk f => exact h1.create h2
  | destroy i => exact h1.destroy h2

theorem FrameInv.history {m : Machine} {ops : List SpaceOp}
    (h : history cfg m ops = .ok s) : s.FrameInv := by
  obtain ⟨b, hb, hr⟩ := bind_ok h
  obtain ⟨b', h1, h2, h3⟩ := Bitmap.new_eq (n := numPhysPages) (by decide)
  rw [hb, Except.ok.injEq] at h1
  subst h1
  refine FrameInv.run ⟨h2, ?_⟩ hr
  simpa [pool, h3] using Pool.Owned.empty

end Spaces

/-- **Frame ownership.** After every history of constructions and destructions that stops at no
assertion, from an empty bitmap: no frame is in two page tables or twice in one, every frame number
is one, the bitmap has exactly these bits set, and `NumClear` and the pages of the live spaces add
up to `NumPhysPages`. -/
theorem frame_ownership (cfg : Build) (m : Machine) (ops : List SpaceOp) {s : Spaces}
    (hr : Spaces.history cfg m ops = .ok s) :
    (s.live.flatMap AddrSpace.frames).Nodup ∧
      (∀ i ∈ s.live.flatMap AddrSpace.frames, i < numPhysPages) ∧
      (∀ i < numPhysPages,
        s.kernel.gPhysPageBitMap.test i = .ok (decide (i ∈ s.live.flatMap AddrSpace.frames))) ∧
      ∃ clear, s.kernel.gPhysPageBitMap.numClear = .ok clear ∧
        clear + (s.live.map AddrSpace.numPages).sum = numPhysPages := by
  have h := Spaces.FrameInv.history hr
  have hmem : ∀ i, i ∈ s.kernel.gPhysPageBitMap.marked ↔ i ∈ s.live.flatMap AddrSpace.frames :=
    h.owned.mem_used
  refine ⟨h.owned.nodup, fun i hi => ?_, fun i hi => ?_, ?_⟩
  · rw [← h.numBits]
    exact Bitmap.marked_lt ((hmem i).2 hi)
  · rw [Bitmap.test_eq (by rw [h.numBits]; exact hi)]
    refine congrArg Except.ok ?_
    rw [Bool.eq_iff_iff, decide_eq_true_eq, ← hmem, Bitmap.mem_marked, h.numBits]
    exact ⟨fun hb => ⟨hi, hb⟩, fun hb => hb.2⟩
  · refine ⟨_, Bitmap.numClear_eq _, ?_⟩
    have hc := h.owned.card
    have hle : s.kernel.gPhysPageBitMap.marked.card ≤ s.kernel.gPhysPageBitMap.numBits := by
      have := Bitmap.card_marked_add_clear s.kernel.gPhysPageBitMap
      omega
    simp only [Spaces.pool, List.map_map] at hc
    rw [show List.length ∘ AddrSpace.frames = AddrSpace.numPages by
      ext s; exact AddrSpace.length_frames s] at hc
    rw [h.numBits] at hle ⊢
    rw [← hc]
    exact Nat.sub_add_cancel hle

def emptyHeader : NoffHeader :=
  ⟨noffMagicNumber, ⟨0, 0, 0⟩, ⟨0, 0, 0⟩, ⟨0, 0, 0⟩, ⟨0, 0, 0⟩⟩

def emptyProgram : OpenFile := ⟨emptyHeader.toBytes buildLinux ++ []⟩

/-- Two programs are made and the first one is destroyed: the other has its frames. -/
theorem frame_ownership_emptyProgram :
    ∃ s, Spaces.history buildLinux ⟨0, 0, none, none, 0⟩
        [.create 0 emptyProgram, .create 0 emptyProgram, .destroy 0] = .ok s ∧
      ∃ clear, s.kernel.gPhysPageBitMap.numClear = .ok clear ∧
        clear + (s.live.map AddrSpace.numPages).sum = numPhysPages := by
  obtain ⟨s, hs⟩ := exists_ok (x := Spaces.history buildLinux ⟨0, 0, none, none, 0⟩
    [.create 0 emptyProgram, .create 0 emptyProgram, .destroy 0]) (by decide +kernel)
  exact ⟨s, hs, (frame_ownership buildLinux _ _ hs).2.2.2⟩

end Nachos
