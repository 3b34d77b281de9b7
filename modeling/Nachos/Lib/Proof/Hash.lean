import Nachos.Base.Lists
import Nachos.Lib.Hash
import Nachos.Lib.Proof.LinkedList
import Mathlib.Data.List.Nodup

/-!
# Hash tables are maps

`Holds t seqs items`: the buckets are lists with the sequences `seqs`; each item is in the sequence of its
hash value, and nothing else is in the table. Inserting, rehashing and removing keep this, so that the table
implements the items that were inserted and not removed (`implements`).
-/

namespace Nachos.HashTable

open Base

variable {Key T : Type} {getKey : T → Key} {hash : Key → BitVec 32} {t : HashTable T} {items seq : List T}
  {seqs : List (List T)} {item : T} {key : Key} {i n : Nat} {list : LinkedList T}

def index (hash : Key → BitVec 32) (key : Key) (n : Nat) : Nat := (hash key).toNat % n

structure Holds (getKey : T → Key) (hash : Key → BitVec 32) (t : HashTable T) (seqs : List (List T))
    (items : List T) : Prop where
  lists : List.Forall₂ LinkedList.Items t.buckets seqs
  pos : 0 < t.buckets.length
  placed : ∀ i seq, seqs[i]? = some seq → ∀ item ∈ seq, index hash (getKey item) t.buckets.length = i
  perm : seqs.flatten.Perm items

theorem index_lt (hn : 0 < n) : index hash key n < n := Nat.mod_lt _ hn

theorem hashValue_eq (h : 0 < t.buckets.length) (key : Key) :
    t.hashValue hash key = .ok (index hash key t.buckets.length) := by
  have hlt : (hash key).toNat % t.buckets.length < t.buckets.length := index_lt h
  simp [hashValue, index, hlt]

theorem Holds.exists_bucket (h : Holds getKey hash t seqs items) (key : Key) :
    ∃ list seq, t.bucket (index hash key t.buckets.length) = .ok list ∧
      seqs[index hash key t.buckets.length]? = some seq ∧ list.Items seq := by
  have hlt : index hash key t.buckets.length < t.buckets.length := index_lt h.pos
  have hlist := List.getElem?_eq_getElem hlt
  obtain ⟨seq, hseq, hitems⟩ := forall₂_getElem? h.lists hlist
  exact ⟨_, seq, by simp [HashTable.bucket, hlist], hseq, hitems⟩

theorem Holds.mem_iff (h : Holds getKey hash t seqs items) (hi : seqs[i]? = some seq) :
    item ∈ seq ↔ item ∈ items ∧ index hash (getKey item) t.buckets.length = i := by
  have hmem : item ∈ items ↔ ∃ b ∈ seqs, item ∈ b := by
    rw [← h.perm.mem_iff, List.mem_flatten]
  constructor
  · intro hb
    exact ⟨hmem.2 ⟨seq, List.mem_of_getElem? hi, hb⟩, h.placed i seq hi item hb⟩
  · rintro ⟨hitem, rfl⟩
    obtain ⟨b, hb, hin⟩ := hmem.1 hitem
    obtain ⟨j, hj⟩ := List.mem_iff_getElem?.1 hb
    rw [h.placed j b hj item hin, hj] at hi
    cases hi
    exact hin

theorem Holds.keys (h : Holds getKey hash t seqs items) (hkeys : (items.map getKey).Nodup)
    (hi : seqs[i]? = some seq) : (seq.map getKey).Nodup :=
  ((h.perm.map _).nodup_iff.2 hkeys).sublist
    ((List.sublist_flatten_of_mem (List.mem_of_getElem? hi)).map _)

theorem sum_numInList {lists : List (LinkedList T)} (h : List.Forall₂ LinkedList.Items lists seqs) :
    (lists.map LinkedList.numInList).sum = seqs.flatten.length := by
  induction h with
  | nil => rfl
  | cons hlist _ ih =>
    obtain ⟨cells, his, rfl⟩ := hlist
    simp [ih, his.numInList]

theorem Holds.sanityCheck (h : Holds getKey hash t seqs items) (hn : t.numItems = items.length) :
    t.sanityCheck getKey hash = .ok () := by
  have hsum : t.numItems = (t.buckets.map LinkedList.numInList).sum := by
    rw [hn, sum_numInList h.lists, h.perm.length_eq]
  rw [HashTable.sanityCheck, forM_ok, ok_bind, assert_of hsum]
  intro p hp
  obtain ⟨seq, hseq, hlist⟩ := forall₂_getElem? h.lists (List.mem_zipIdx_iff_getElem?.1 hp)
  obtain ⟨cells, his, rfl⟩ := id hlist
  simp only [his.sanityCheck, ok_bind, hlist.iterate]
  rw [findSomeM?_none fun item hitem => ?_]
  · rfl
  · rw [hashValue_eq h.pos, ok_bind, assert_of (h.placed p.2 _ hseq item hitem).symm]
    rfl

theorem Holds.set {items' seq' : List T} (h : Holds getKey hash t seqs items) (hi : seqs[i]? = some seq)
    (hlist : list.Items seq') (hplaced : ∀ item ∈ seq', index hash (getKey item) t.buckets.length = i)
    (hperm : (seq ++ items').Perm (seq' ++ items)) (n : Int) :
    Holds getKey hash ⟨t.buckets.set i list, n⟩ (seqs.set i seq') items' where
  lists := forall₂_set h.lists hlist i
  pos := by simpa using h.pos
  placed j s hj item hitem := by
    rw [List.length_set]
    rw [List.getElem?_set] at hj
    split at hj
    · rename_i heq
      split at hj
      · cases hj
        exact (hplaced item hitem).trans heq
      · cases hj
    · exact h.placed j s hj item hitem
  perm := (List.perm_append_left_iff seq).1
    ((flatten_set_perm hi seq').trans ((h.perm.append_left seq').trans hperm.symm))

/-! ## The functions -/

theorem holds_initBuckets (t : HashTable T) (hn : 0 < n) :
    Holds getKey hash (t.initBuckets n) (List.replicate n []) [] where
  lists := by
    rw [initBuckets]
    clear hn
    induction n with
    | zero => exact .nil
    | succ n ih => exact .cons ⟨[], LinkedList.is_new, rfl⟩ ih
  pos := by simpa [initBuckets] using hn
  placed i seq hi item hitem := by
    rw [List.eq_of_mem_replicate (List.mem_of_getElem? hi)] at hitem
    cases hitem
  perm := by simp

structure Is (getKey : T → Key) (hash : Key → BitVec 32) (items : List T) (t : HashTable T) : Prop where
  holds : ∃ seqs, Holds getKey hash t seqs items
  keys : (items.map getKey).Nodup
  numItems : t.numItems = items.length
  size : ∃ k ≤ 15, t.buckets.length = 4 ^ k

theorem is_new (getKey : T → Key) (hash : Key → BitVec 32) : Is getKey hash [] new :=
  ⟨⟨_, holds_initBuckets _ (by decide)⟩, .nil, rfl, 1, by decide, rfl⟩

theorem increase_lt {k : Nat} (hlt : items.length < 2 ^ 31) (hk : k ≤ 15)
    (hbig : resizeRatio ≤ (items.length : Int).tdiv (4 ^ k : Nat)) : k ≤ 14 := by
  by_contra hgt
  obtain rfl : k = 15 := by omega
  rw [Int.tdiv_eq_ediv_of_nonneg (Int.natCast_nonneg _), resizeRatio] at hbig
  omega

theorem Holds.find [DecidableEq Key] (h : Holds getKey hash t seqs items)
    (hkeys : (items.map getKey).Nodup) (key : Key) :
    t.find getKey hash key = .ok (items.find? (getKey · = key)) := by
  obtain ⟨list, seq, hbucket, hseq, hlist⟩ := h.exists_bucket key
  have hsub := h.keys hkeys hseq
  have hfind : seq.findSome? (fun item => if key = getKey item then some item else none) =
      seq.find? (getKey · = key) := by
    rw [List.find?_eq_findSome?_guard]
    congr 1
    funext item
    simp [Option.guard, eq_comm]
  rw [HashTable.find, hashValue_eq h.pos, ok_bind, findInBucket, hbucket, ok_bind, hlist.iterate,
    List.findSomeM?_pure, hfind, pure_eq_ok]
  congr 1
  refine Option.ext fun x => ?_
  rw [find?_eq_some_of_nodup hsub, find?_eq_some_of_nodup hkeys, h.mem_iff hseq]
  constructor
  · rintro ⟨⟨hx, -⟩, hk⟩
    exact ⟨hx, hk⟩
  · rintro ⟨hx, rfl⟩
    exact ⟨⟨hx, rfl⟩, rfl⟩

theorem Is.find [DecidableEq Key] (h : Is getKey hash items t) (key : Key) :
    t.find getKey hash key = .ok (items.find? (getKey · = key)) := by
  obtain ⟨seqs, hholds⟩ := h.holds
  exact hholds.find h.keys key

theorem Is.isInTable [DecidableEq Key] (h : Is getKey hash items t) (key : Key) :
    t.isInTable getKey hash key = .ok (items.find? (getKey · = key)).isSome := by
  rw [HashTable.isInTable, h.find]
  rfl

section

variable [DecidableEq T] (choice : T → Nat)

structure Gets (getKey : T → Key) (hash : Key → BitVec 32) (t : HashTable T) (items : List T)
    (t' : HashTable T) : Prop where
  holds : ∃ seqs, Holds getKey hash t' seqs items
  length : t'.buckets.length = t.buckets.length
  numItems : t'.numItems = t.numItems

theorem Holds.append (h : Holds getKey hash t seqs items) (hitem : item ∉ items) :
    ∃ t', t.append getKey hash choice item = .ok t' ∧ Gets getKey hash t (items ++ [item]) t' := by
  obtain ⟨list, seq, hbucket, hseq, hlist⟩ := h.exists_bucket (getKey item)
  have hnot : item ∉ seq := fun hmem => hitem ((h.mem_iff hseq).1 hmem).1
  obtain ⟨list', hrun, hlist'⟩ : ∃ l, list.append (choice item) item = .ok l ∧ l.Items (seq ++ [item]) :=
    LinkedList.append_items hlist hnot
  refine ⟨_, ?_, ⟨_, h.set hseq hlist' ?_ ?_ t.numItems⟩, List.length_set, rfl⟩
  · rw [HashTable.append, hashValue_eq h.pos, ok_bind, hbucket, ok_bind, hrun]
    rfl
  · intro x hx
    rcases List.mem_append.1 hx with hx | hx
    · exact h.placed _ seq hseq x hx
    · rw [List.mem_singleton.1 hx]
  · rw [List.append_assoc]
    exact List.perm_append_comm.append_left seq

theorem Holds.moveItems {moved : List T} (h : Holds getKey hash t seqs moved) (hold : list.Items seq)
    (hn : seq.length ≤ n) (hnodup : (moved ++ seq).Nodup) :
    ∃ t', t.moveItems getKey hash choice n list = .ok t' ∧ Gets getKey hash t (moved ++ seq) t' := by
  induction seq generalizing t seqs moved list n with
  | nil =>
    have hempty : list.isEmpty = true := hold.isEmpty
    refine ⟨t, ?_, ⟨seqs, by rwa [List.append_nil]⟩, rfl, rfl⟩
    cases n <;> simp [HashTable.moveItems, hempty]
  | cons item seq ih =>
    have hempty : list.isEmpty = false := hold.isEmpty
    obtain ⟨n, rfl⟩ := Nat.exists_eq_succ_of_ne_zero (Nat.ne_zero_of_lt hn)
    have hitem : item ∉ moved := fun hm => (List.nodup_append.1 hnodup).2.2 _ hm _ List.mem_cons_self rfl
    obtain ⟨list1, hfront, hlist1⟩ := LinkedList.removeFront_items hold
    obtain ⟨t1, h1, ⟨seqs1, hh1⟩, hlen1, hnum1⟩ := h.append choice hitem
    rw [List.append_cons] at hnodup ⊢
    obtain ⟨t', h', hh', hlen', hnum'⟩ := ih hh1 hlist1 (Nat.le_of_succ_le_succ hn) hnodup
    refine ⟨t', ?_, hh', hlen'.trans hlen1, hnum'.trans hnum1⟩
    rw [HashTable.moveItems]
    simp only [hempty, hfront, h1, h', ok_bind, Bool.false_eq_true, if_false]

theorem Holds.moveAll {moved : List T} {olds : List (LinkedList T)} {oldSeqs : List (List T)}
    (h : Holds getKey hash t seqs moved) (holds : List.Forall₂ LinkedList.Items olds oldSeqs)
    (hnodup : (moved ++ oldSeqs.flatten).Nodup) :
    ∃ t', olds.foldlM (fun t old => t.moveItems getKey hash choice old.size old) t = .ok t' ∧
      Gets getKey hash t (moved ++ oldSeqs.flatten) t' := by
  induction holds generalizing t seqs moved with
  | nil => exact ⟨t, rfl, ⟨seqs, by simpa using h⟩, rfl, rfl⟩
  | @cons old oldSeq olds oldSeqs hold _ ih =>
    rw [List.flatten_cons, ← List.append_assoc] at hnodup ⊢
    have hlen : oldSeq.length ≤ old.size := by
      obtain ⟨cells, his, rfl⟩ := hold
      simpa using his.length_le
    obtain ⟨t1, h1, ⟨seqs1, hh1⟩, hlen1, hnum1⟩ := h.moveItems choice hold hlen (List.nodup_append.1 hnodup).1
    obtain ⟨t', h', hh', hlen', hnum'⟩ := ih hh1 hnodup
    exact ⟨t', by rw [List.foldlM_cons, h1, ok_bind, h'], hh', hlen'.trans hlen1, hnum'.trans hnum1⟩

theorem Is.resize (h : Is getKey hash items t) (hlt : items.length < 2 ^ 31) :
    ∃ t', t.resize getKey hash choice = .ok t' ∧ Is getKey hash items t' := by
  obtain ⟨k, hk, hsize⟩ := h.size
  rw [HashTable.resize]
  split
  case isFalse => exact ⟨t, rfl, h⟩
  rename_i hbig
  rw [h.numItems, hsize] at hbig
  have hk := increase_lt hlt hk hbig
  have hroom : t.buckets.length * increaseSizeBy = 4 ^ (k + 1) := by rw [hsize, increaseSizeBy, Nat.pow_succ]
  have hfits : 4 ^ (k + 1) < 2 ^ 31 :=
    Nat.lt_of_le_of_lt (Nat.pow_le_pow_right (by decide) (Nat.succ_le_succ hk)) (by decide)
  obtain ⟨seqs, hold⟩ := h.holds
  have hflat : ([] ++ seqs.flatten).Nodup := hold.perm.nodup_iff.2 (List.Nodup.of_map getKey h.keys)
  have hinit : Holds getKey hash (t.initBuckets (4 ^ (k + 1))) _ [] :=
    holds_initBuckets t (Nat.pow_pos (by decide))
  obtain ⟨t', hrun, ⟨seqs', hh⟩, hlen, hnum⟩ := hinit.moveAll choice hold.lists hflat
  have hh : Holds getKey hash t' seqs' items := { hh with perm := hh.perm.trans hold.perm }
  have hnum : t'.numItems = items.length := hnum.trans h.numItems
  refine ⟨t', ?_, ⟨seqs', hh⟩, h.keys, hnum, k + 1, by omega, by simpa [initBuckets] using hlen⟩
  rw [HashTable.reHash, hold.sanityCheck h.numItems, ok_bind, hroom, if_pos hfits, hrun, ok_bind,
    hh.sanityCheck hnum]
  rfl

variable [DecidableEq Key]

theorem Is.insert (h : Is getKey hash items t) (hnew : getKey item ∉ items.map getKey)
    (hlt : items.length + 1 < 2 ^ 31) :
    ∃ t', t.insert getKey hash choice item = .ok t' ∧ Is getKey hash (items ++ [item]) t' := by
  have hnone : items.find? (getKey · = getKey item) = none :=
    List.find?_eq_none.2 fun x hx heq => hnew (of_decide_eq_true heq ▸ List.mem_map_of_mem hx)
  obtain ⟨t1, hrun1, h1⟩ := h.resize choice (by omega)
  obtain ⟨seqs1, hh1⟩ := h1.holds
  obtain ⟨t2, hrun2, ⟨seqs2, hh⟩, hlen, hnum⟩ := hh1.append choice
    fun hm => hnew (List.mem_map_of_mem hm)
  have hkeys : ((items ++ [item]).map getKey).Nodup := by
    rw [List.map_append, List.map_singleton, List.nodup_append_comm]
    exact List.nodup_cons.2 ⟨hnew, h.keys⟩
  have h' : Is getKey hash (items ++ [item]) { t2 with numItems := t2.numItems + 1 } :=
    ⟨⟨seqs2, hh.lists, hh.pos, hh.placed, hh.perm⟩, hkeys, by simp [hnum, h1.numItems],
      by rw [hlen]; exact h1.size⟩
  have hfound : (items ++ [item]).find? (getKey · = getKey item) = some item :=
    (find?_eq_some_of_nodup hkeys).2 ⟨by simp, rfl⟩
  have hroom : t2.numItems + 1 < 2 ^ 31 := by
    rw [hnum, h1.numItems]
    omega
  refine ⟨_, ?_, h'⟩
  rw [HashTable.insert, h.isInTable, hnone, ok_bind, Option.isSome_none, assert_of rfl, ok_bind, hrun1,
    ok_bind, hrun2, ok_bind, if_pos hroom]
  dsimp only
  rw [h'.isInTable, hfound, ok_bind, Option.isSome_some, assert_of rfl]
  rfl

theorem Is.remove (h : Is getKey hash items t) (hitem : item ∈ items) :
    ∃ t', t.remove getKey hash (getKey item) = .ok (item, t') ∧
      Is getKey hash (items.filter (getKey · ≠ getKey item)) t' := by
  obtain ⟨seqs, hh⟩ := h.holds
  obtain ⟨list, seq, hbucket, hseq, hlist⟩ := hh.exists_bucket (getKey item)
  have hmem : item ∈ seq := (hh.mem_iff hseq).2 ⟨hitem, rfl⟩
  obtain ⟨list', hrun, hlist'⟩ := LinkedList.remove_items hlist hmem
  have hfind := h.find (getKey item)
  rw [(find?_eq_some_of_nodup h.keys).2 ⟨hitem, rfl⟩, HashTable.find, hashValue_eq hh.pos, ok_bind] at hfind
  have hfilter : items.filter (getKey · ≠ getKey item) = items.erase item := by
    rw [(List.Nodup.of_map getKey h.keys).erase_eq_filter]
    refine List.filter_congr fun x hx => ?_
    have hinj : getKey x = getKey item ↔ x = item :=
      ⟨List.inj_on_of_nodup_map h.keys hx hitem, congrArg getKey⟩
    rw [Bool.eq_iff_iff]
    simp [hinj]
  have hperm : (seq ++ items.erase item).Perm (seq.erase item ++ items) :=
    ((List.perm_cons_erase hmem).append_right _).trans
      (List.perm_middle.symm.trans ((List.perm_cons_erase hitem).symm.append_left _))
  have hholds := hh.set hseq hlist'
    (fun x hx => hh.placed _ seq hseq x (List.mem_of_mem_erase hx)) hperm (t.numItems - 1)
  have hnum : t.numItems - 1 = (items.erase item).length := by
    have := List.length_pos_of_mem hitem
    rw [List.length_erase_of_mem hitem, h.numItems]
    omega
  have h' : Is getKey hash (items.erase item) ⟨t.buckets.set _ list', t.numItems - 1⟩ :=
    ⟨⟨_, hholds⟩, h.keys.sublist (List.erase_sublist.map _), hnum, by simpa using h.size⟩
  have hgone : (items.erase item).find? (getKey · = getKey item) = none := by
    rw [← hfilter]
    simp
  refine ⟨_, ?_, hfilter ▸ h'⟩
  rw [HashTable.remove, hashValue_eq hh.pos, ok_bind, hfind, ok_bind]
  dsimp only
  rw [hbucket, ok_bind, hrun, ok_bind, h'.isInTable, hgone, ok_bind, Option.isSome_none, assert_of rfl]
  rfl

end

/-! ## Iterators -/

namespace HashIterator

open LinkedList

theorem findIdx_full (buckets : List (List T)) :
    (buckets.findIdx (!·.isEmpty) = buckets.length ∧ buckets.flatten = []) ∨
      ∃ item rest, buckets[buckets.findIdx (!·.isEmpty)]? = some (item :: rest) ∧
        buckets.flatten = item :: rest ++ (buckets.drop (buckets.findIdx (!·.isEmpty) + 1)).flatten := by
  induction buckets with
  | nil => exact .inl ⟨rfl, rfl⟩
  | cons bucket buckets ih =>
    cases bucket with
    | nil =>
      rcases ih with ⟨hend, hnil⟩ | ⟨item, rest, hidx, hflat⟩
      · exact .inl ⟨by simp [List.findIdx_cons, hend], by simp [hnil]⟩
      · refine .inr ⟨item, rest, ?_, ?_⟩
        · simpa [List.findIdx_cons] using hidx
        · simpa [List.findIdx_cons] using hflat
    | cons item rest => exact .inr ⟨item, rest, by simp [List.findIdx_cons], by simp [List.findIdx_cons]⟩

inductive Remains (t : HashTable T) (seqs : List (List T)) : HashIterator → List T → Prop
  | done {it} (h : it.isDone t = true) : Remains t seqs it []
  | items {bucket list current c cells} (h : t.buckets[bucket]? = some list)
      (hcells : LinkedList.Chain list.heap current (c :: cells) none) :
      Remains t seqs ⟨bucket, some ⟨current⟩⟩
        ((c :: cells).map Prod.snd ++ (seqs.drop (bucket + 1)).flatten)

theorem findIdx_eq {lists : List (LinkedList T)} (h : List.Forall₂ LinkedList.Items lists seqs) :
    lists.findIdx (!·.isEmpty) = seqs.findIdx (!·.isEmpty) := by
  induction h with
  | nil => rfl
  | cons hlist _ ih => rw [List.findIdx_cons, List.findIdx_cons, hlist.isEmpty, ih]

variable (hlists : List.Forall₂ LinkedList.Items t.buckets seqs)

include hlists in
theorem startAt_remains (h : n ≤ t.buckets.length) :
    Remains t seqs (startAt t n) (seqs.drop n).flatten := by
  have hlen : (seqs.drop n).length = t.buckets.length - n := by rw [List.length_drop, hlists.length_eq]
  have hnext : t.findNextFullBucket n = n + (seqs.drop n).findIdx (!·.isEmpty) := by
    rw [findNextFullBucket, findIdx_eq (List.forall₂_drop n hlists)]
  rcases findIdx_full (seqs.drop n) with ⟨hend, hnil⟩ | ⟨item, rest, hidx, hflat⟩
  · have hend : t.findNextFullBucket n = t.buckets.length := by
      rw [hnext, hend, hlen]
      omega
    rw [hnil]
    exact .done (by simp [isDone, startAt, hend])
  · rw [hflat, List.drop_drop, ← Nat.add_assoc, startAt, hnext]
    rw [List.getElem?_drop] at hidx
    obtain ⟨list, hlist, cells, his, hcells⟩ := forall₂_getElem? hlists.flip hidx
    obtain ⟨c, cells, rfl, rfl, rfl⟩ := List.map_eq_cons_iff.1 hcells
    rw [hlist]
    exact .items hlist his.chain

include hlists in
theorem Remains.visits {it : HashIterator} (h : Remains t seqs it items) (hn : items.length ≤ n) :
    visits t n it = .ok items := by
  induction n generalizing it items with
  | zero =>
    cases h with
    | done h => simp [HashIterator.visits, h]
    | items => cases hn
  | succ n ih =>
    cases h with
    | done h => simp [HashIterator.visits, h]
    | @items bucket list current c cells h hcells =>
      have hlt := (List.getElem?_eq_some_iff.1 h).1
      have hdone : isDone t ⟨bucket, some ⟨current⟩⟩ = false := by
        simp [isDone]
        omega
      have hbucket : t.bucket bucket = .ok list := by simp [HashTable.bucket, h]
      have hlen : (cells.map Prod.snd ++ (seqs.drop (bucket + 1)).flatten).length ≤ n :=
        Nat.le_of_succ_le_succ hn
      obtain ⟨rfl, next, hc, hcells⟩ := hcells
      have hitem : HashIterator.item t ⟨bucket, some ⟨some c.1⟩⟩ = .ok c.2 := by
        simp [HashIterator.item, hdone, hbucket, ListIterator.item, ListIterator.isDone, deref_some hc]
      have hnext : HashIterator.next t ⟨bucket, some ⟨some c.1⟩⟩ =
          .ok (if next.isNone then startAt t (bucket + 1) else ⟨bucket, some ⟨next⟩⟩) := by
        simp [HashIterator.next, hbucket, ListIterator.next, ListIterator.isDone, deref_some hc]
      cases cells with
      | nil =>
        obtain rfl := hcells
        have hrest := ih (startAt_remains hlists hlt) hlen
        simp [HashIterator.visits, hdone, hitem, hnext, hrest]
      | cons d cells =>
        have hrest := ih (.items h hcells) hlen
        obtain ⟨rfl, -⟩ := hcells
        simp [HashIterator.visits, hdone, hitem, hnext, hrest]

end HashIterator

/-! ## Any calls -/

variable [DecidableEq Key]

/-- The items that were inserted and not removed, in the order of their insertion. -/
def spec (getKey : T → Key) : Spec (List T) (Call Key T) (Option T) where
  allows items
    | .insert _ item => getKey item ∉ items.map getKey ∧ items.length + 1 < 2 ^ 31
    | .remove key => key ∈ items.map getKey
  answer items
    | .insert .. => none
    | .remove key => items.find? (getKey · = key)
  next items
    | .insert _ item => items ++ [item]
    | .remove key => items.filter (getKey · ≠ key)

/-- The table has these items, in lists with the sequences `seqs`, and finds them. -/
structure Represents (getKey : T → Key) (hash : Key → BitVec 32) (t : HashTable T) (seqs : List (List T))
    (items : List T) : Prop where
  keys : (items.map getKey).Nodup
  lists : List.Forall₂ LinkedList.Represents t.buckets seqs
  /-- each item is in the table once, in the bucket of its hash value -/
  once : seqs.flatten.Perm items
  placed : ∀ item ∈ items, ∃ i, t.hashValue hash (getKey item) = .ok i ∧
    ∀ j seq, seqs[j]? = some seq → (item ∈ seq ↔ j = i)
  numItems : t.numItems = (seqs.map List.length).sum
  find : ∀ key, t.find getKey hash key = .ok (items.find? (getKey · = key))
  sanityCheck : t.sanityCheck getKey hash = .ok ()
  iterator : ∃ visited, visited.Perm items ∧
    ∀ n : Nat, t.numItems ≤ n → HashIterator.visits t n (HashIterator.new t) = .ok visited

theorem Is.represents (h : Is getKey hash items t) : ∃ seqs, Represents getKey hash t seqs items := by
  obtain ⟨seqs, hh⟩ := h.holds
  refine ⟨seqs, h.keys, hh.lists.imp ?_, hh.perm, fun item hitem => ?_, ?_, h.find,
    hh.sanityCheck h.numItems, _, hh.perm, fun n hn => ?_⟩
  · rintro list _ ⟨cells, his, rfl⟩
    exact his.represents
  · refine ⟨_, hashValue_eq hh.pos _, fun j seq hj => ?_⟩
    rw [hh.mem_iff hj, and_iff_right hitem, eq_comm]
  · rw [h.numItems, ← hh.perm.length_eq, List.length_flatten]
  · refine (HashIterator.startAt_remains hh.lists (Nat.zero_le _)).visits hh.lists ?_
    rw [List.drop_zero, hh.perm.length_eq]
    exact Int.ofNat_le.1 (h.numItems ▸ hn)

variable [DecidableEq T]

theorem implements : Implements (spec getKey) (call getKey hash) (Is getKey hash) := by
  intro items t c h hc
  cases c with
  | insert choice item =>
    obtain ⟨t', hrun, h'⟩ := h.insert choice hc.1 hc.2
    exact ⟨t', by rw [call, hrun]; rfl, h'⟩
  | remove key =>
    obtain ⟨item, hitem, rfl⟩ := List.mem_map.1 hc
    obtain ⟨t', hrun, h'⟩ := h.remove hitem
    have hfind := (find?_eq_some_of_nodup h.keys).2 ⟨hitem, rfl⟩
    exact ⟨t', by rw [call, hrun]; exact congrArg (fun a => Except.ok (a, t')) hfind.symm, h'⟩

/-- **A hash table represents a finite map**, after any insertions of new keys and removals of keys that
are there. -/
theorem hashTable_represents (getKey : T → Key) (hash : Key → BitVec 32) {cs : List (Call Key T)}
    (hcs : (spec getKey).Allows [] cs) :
    ∃ t seqs, runCalls (call getKey hash) new cs = .ok ((spec getKey).answers [] cs, t) ∧
      Represents getKey hash t seqs ((spec getKey).final [] cs) := by
  obtain ⟨t, hrun, h⟩ := implements.runs (is_new getKey hash) hcs
  obtain ⟨seqs, hrep⟩ := h.represents
  exact ⟨t, seqs, hrun, hrep⟩

/-- Thirteen items with one hash value, the last of which makes the table grow. -/
def collidingCalls : List (Call Nat Nat) :=
  (List.range 13).map (.insert fun _ => 7) ++ [.remove 3]

theorem hashTable_represents_colliding : ∃ t seqs, runCalls (call id fun _ => 7) new collidingCalls =
      .ok ((spec id).answers [] collidingCalls, t) ∧
    Represents id (fun _ => 7) t seqs [0, 1, 2, 4, 5, 6, 7, 8, 9, 10, 11, 12] :=
  hashTable_represents id _ (by simp [Spec.Allows, spec, collidingCalls, List.range_succ])

end Nachos.HashTable
