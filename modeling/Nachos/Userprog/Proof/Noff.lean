import Nachos.Userprog.Noff
import Mathlib.Tactic.IntervalCases

/-!
# Reading back the header of an executable

What `coff2noff` writes at the start of a file is what the kernel reads there, on a host of either
byte order (`readHeader_toBytes`).
-/

namespace Nachos

open Base

theorem wordToHost_wordToHost (cfg : Build) (v : Word) : wordToHost cfg (wordToHost cfg v) = v := by
  unfold wordToHost
  split
  · apply BitVec.eq_of_getLsbD_eq
    intro i hi
    simp only [BitVec.getLsbD_or, BitVec.getLsbD_and, BitVec.getLsbD_ushiftRight,
      BitVec.getLsbD_shiftLeft]
    interval_cases i <;> simp
  · rfl

theorem swapHeader_swapHeader (cfg : Build) (noffH : NoffHeader) :
    swapHeader cfg (swapHeader cfg noffH) = noffH := by
  simp only [swapHeader, Segment.swap, wordToHost_wordToHost]

theorem append_extractLsb' (v : Word) :
    v.extractLsb' 24 8 ++ v.extractLsb' 16 8 ++ v.extractLsb' 8 8 ++ v.extractLsb' 0 8 = v := by
  ext i hi
  simp only [BitVec.getElem_append, BitVec.getElem_extractLsb']
  grind

@[simp] theorem length_hostWordBytes (cfg : Build) (v : Word) :
    (hostWordBytes cfg v).length = 4 := by
  unfold hostWordBytes
  split <;> rfl

theorem hostWord_hostWordBytes {cfg : Build} {mem : Memory} {a : Nat} {v : Word}
    (h : ∀ i < 4, (hostWordBytes cfg v)[i]? = some (mem (a + i))) : hostWord cfg mem a = v := by
  have h0 := h 0 (by decide)
  have h1 := h 1 (by decide)
  have h2 := h 2 (by decide)
  have h3 := h 3 (by decide)
  unfold hostWord
  cases cfg with
  | mk big fix =>
    cases big <;> simp only [hostWordBytes, Bool.false_eq_true, if_false, if_true, List.reverse_cons,
      List.reverse_nil, List.nil_append, List.cons_append, List.getElem?_cons_zero,
      List.getElem?_cons_succ, Option.some.injEq, Nat.add_zero] at h0 h1 h2 h3 ⊢ <;>
    · rw [← h0, ← h1, ← h2, ← h3]
      exact append_extractLsb' v

theorem hostWord_record {cfg : Build} {mem : Memory} {ws : List Word} {i : Nat} {v : Word}
    (h : ws[i]? = some v) :
    hostWord cfg (writeBlock mem 0 (ws.flatMap (hostWordBytes cfg))) (4 * i) = v := by
  obtain ⟨hi, rfl⟩ := List.getElem?_eq_some_iff.1 h
  have hs : ws = ws.take i ++ ws[i] :: ws.drop (i + 1) := by simp
  have hl : ((ws.take i).flatMap (hostWordBytes cfg)).length = 4 * i := by
    simp [List.length_flatMap]
    omega
  have hb : ws.flatMap (hostWordBytes cfg) = (ws.take i).flatMap (hostWordBytes cfg) ++
      (hostWordBytes cfg ws[i] ++ (ws.drop (i + 1)).flatMap (hostWordBytes cfg)) := by
    conv_lhs => rw [hs]
    rw [List.flatMap_append, List.flatMap_cons]
  refine hostWord_hostWordBytes fun j hj => ?_
  have hin : InBlock 0 (ws.flatMap (hostWordBytes cfg)) (4 * i + j) := by
    refine ⟨Nat.zero_le _, ?_⟩
    rw [hb, List.length_append, List.length_append, hl, length_hostWordBytes]
    omega
  rw [← writeBlock_of_mem hin, Nat.sub_zero, hb, List.getElem?_append_right (by omega), hl,
    List.getElem?_append_left (by rw [length_hostWordBytes]; omega), Nat.add_sub_cancel_left]

def NoffHeader.words (noffH : NoffHeader) : List Word :=
  noffH.noffMagic :: [noffH.code, noffH.initData, noffH.readonlyData, noffH.uninitData].flatMap
    fun s => [s.virtualAddr, s.inFileAddr, s.size]

theorem toBytes_eq_words (cfg : Build) (noffH : NoffHeader) :
    noffH.toBytes cfg = (swapHeader cfg noffH).words.flatMap (hostWordBytes cfg) := by
  simp [NoffHeader.toBytes, Segment.toBytes, NoffHeader.words]

theorem length_toBytes (cfg : Build) (noffH : NoffHeader) :
    (noffH.toBytes cfg).length = sizeofNoffHeader := by
  simp [NoffHeader.toBytes, Segment.toBytes, sizeofNoffHeader]

theorem ofBytes_toBytes (cfg : Build) (junk : Memory) (noffH : NoffHeader) :
    NoffHeader.ofBytes cfg (writeBlock junk 0 (noffH.toBytes cfg)) = swapHeader cfg noffH := by
  rw [toBytes_eq_words]
  generalize swapHeader cfg noffH = h
  have word : ∀ (i : Nat) (v : Word), h.words[i]? = some v →
      hostWord cfg (writeBlock junk 0 (h.words.flatMap (hostWordBytes cfg))) (4 * i) = v :=
    fun i v => hostWord_record
  simp only [NoffHeader.ofBytes, Segment.ofBytes]
  rw [word 0 _ rfl, word 1 _ rfl, word 2 _ rfl, word 3 _ rfl, word 4 _ rfl, word 5 _ rfl,
    word 6 _ rfl, word 7 _ rfl, word 8 _ rfl, word 9 _ rfl, word 10 _ rfl, word 11 _ rfl,
    word 12 _ rfl]

/-- **Header round trip.** The kernel reads, from a file that starts with what `coff2noff` writes,
the header `coff2noff` made. -/
theorem readHeader_toBytes (cfg : Build) (junk : Memory) (noffH : NoffHeader) (rest : List Byte)
    (h : noffH.noffMagic = noffMagicNumber) :
    readHeader cfg junk ⟨noffH.toBytes cfg ++ rest⟩ = .ok noffH := by
  have hb : (⟨noffH.toBytes cfg ++ rest⟩ : OpenFile).readAt sizeofNoffHeader 0 =
      .ok (noffH.toBytes cfg) := by
    unfold OpenFile.readAt
    rw [assert_of (by decide), ok_bind, ← length_toBytes cfg noffH]
    simp
  unfold readHeader
  rw [hb, ok_bind, ofBytes_toBytes]
  have hm : (swapHeader cfg noffH).noffMagic = wordToHost cfg noffMagicNumber := by
    rw [← h]; rfl
  -- a swapped magic number shows the other byte order; one that does not change needs no swap
  have hif : (if (swapHeader cfg noffH).noffMagic ≠ noffMagicNumber ∧
      wordToHost cfg (swapHeader cfg noffH).noffMagic = noffMagicNumber then
      swapHeader cfg (swapHeader cfg noffH) else swapHeader cfg noffH) = noffH := by
    rw [hm, wordToHost_wordToHost, swapHeader_swapHeader]
    cases hc : cfg.hostIsBigEndian with
    | true => rw [if_pos ⟨by simp [wordToHost, hc, noffMagicNumber], rfl⟩]
    | false =>
      have hs : ∀ v, wordToHost cfg v = v := fun v => by simp [wordToHost, hc]
      simp [hs, swapHeader, Segment.swap]
  dsimp only
  rw [hif, assert_of h]
  rfl

end Nachos
