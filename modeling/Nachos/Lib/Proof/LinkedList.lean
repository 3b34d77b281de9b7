import Nachos.Base.Calls
import Nachos.Base.Sorted
import Nachos.Lib.LinkedList
import Mathlib.Algebra.Order.BigOperators.Group.List
import Mathlib.Algebra.Order.Group.Nat

/-!
# Linked lists keep a sequence

`Chain`: the elements from one pointer to another. `Is l cells`: the list consists of `cells`, the
addresses and items of its elements in order. Each function does to the items what it should
(`append_items`, `prepend_items`, `removeFront_items`, `remove_items`, `insert_items`), so that the list
implements their sequence (`implements`).
-/

namespace Nachos.LinkedList

open Base

variable {T : Type} {l : LinkedList T} {heap heap' : AList fun _ : Nat => ListElement T}
  {p q next : Option Nat} {a : Nat} {c d : Nat × T} {cells xs ys : List (Nat × T)} {item : T}
  {e : ListElement T} {n : Nat}

/-! ## Chains -/

/-- The elements from `p` on, until `q`. -/
def Chain (heap : AList fun _ : Nat => ListElement T) : Option Nat → List (Nat × T) → Option Nat → Prop
  | p, [], q => p = q
  | p, c :: cells, q => p = some c.1 ∧ ∃ next, heap.lookup c.1 = some ⟨c.2, next⟩ ∧ Chain heap next cells q

theorem chain_append :
    Chain heap p (xs ++ ys) q ↔ ∃ r, Chain heap p xs r ∧ Chain heap r ys q := by
  induction xs generalizing p with
  | nil => simp [Chain]
  | cons c xs ih =>
    simp only [List.cons_append, Chain, ih]
    constructor
    · rintro ⟨hp, next, hc, r, hxs, hys⟩
      exact ⟨r, ⟨hp, next, hc, hxs⟩, hys⟩
    · rintro ⟨r, ⟨hp, next, hc, hxs⟩, hys⟩
      exact ⟨hp, next, hc, r, hxs, hys⟩

theorem Chain.congr (h : Chain heap p cells q)
    (heq : ∀ a ∈ cells.map Prod.fst, heap'.lookup a = heap.lookup a) : Chain heap' p cells q := by
  induction cells generalizing p with
  | nil => exact h
  | cons c cells ih =>
    obtain ⟨hp, next, hc, hcells⟩ := h
    rw [List.map_cons, List.forall_mem_cons] at heq
    exact ⟨hp, next, heq.1.trans hc, ih hcells heq.2⟩

theorem Chain.insert (h : Chain heap p cells q) (ha : a ∉ cells.map Prod.fst) (e : ListElement T) :
    Chain (heap.insert a e) p cells q :=
  h.congr fun _ hb => AList.lookup_insert_ne fun hba => ha (hba ▸ hb)

theorem Chain.erase (h : Chain heap p cells q) (ha : a ∉ cells.map Prod.fst) :
    Chain (heap.erase a) p cells q :=
  h.congr fun _ hb => AList.lookup_erase_ne fun hba => ha (hba ▸ hb)

theorem Chain.relink (h : Chain heap p (xs ++ [c]) q) (hc : c.1 ∉ xs.map Prod.fst) (next : Option Nat) :
    Chain (heap.insert c.1 ⟨c.2, next⟩) p (xs ++ [c]) next := by
  obtain ⟨r, hxs, hr, -⟩ := chain_append.1 h
  exact chain_append.2 ⟨r, hxs.insert hc _, hr, next, AList.lookup_insert _, rfl⟩

theorem Chain.subset (h : Chain heap p cells q) : cells.map Prod.fst ⊆ heap.keys := by
  induction cells generalizing p with
  | nil => exact List.nil_subset _
  | cons c cells ih =>
    obtain ⟨-, next, hc, hcells⟩ := h
    have hmem : c.1 ∈ heap := AList.lookup_isSome.1 (by rw [hc]; rfl)
    exact List.cons_subset.2 ⟨AList.mem_keys.1 hmem, ih hcells⟩

/-! ## Following pointers -/

theorem deref_some (h : l.heap.lookup a = some e) : l.deref (some a) = .ok e := by
  simp [deref, h]

theorem setNext_some (h : l.heap.lookup a = some e) (next : Option Nat) :
    l.setNext (some a) next = .ok { l with heap := l.heap.insert a { e with next } } := by
  simp [setNext, deref_some h]

theorem malloc_not_mem (l : LinkedList T) (choice : Nat) : l.malloc choice ∉ l.heap := by
  unfold malloc
  split
  · intro h
    have := List.single_le_sum (fun _ _ => Nat.zero_le _) _ (AList.mem_keys.1 h)
    omega
  · assumption

theorem findBefore_none {test : T → Bool} (h : Chain l.heap p (c :: cells) none) (hn : cells.length < n)
    (hno : ∀ d ∈ cells, test d.2 = false) : l.findBefore test n p = .ok none := by
  induction cells generalizing p c n with
  | nil =>
    obtain ⟨rfl, next, hc, rfl⟩ := h
    obtain ⟨n, rfl⟩ := Nat.exists_eq_succ_of_ne_zero (Nat.ne_zero_of_lt hn)
    simp [findBefore, deref_some hc]
  | cons d cells ih =>
    obtain ⟨rfl, next, hc, hcells⟩ := h
    obtain ⟨rfl, _, hd, -⟩ := id hcells
    obtain ⟨n, rfl⟩ := Nat.exists_eq_succ_of_ne_zero (Nat.ne_zero_of_lt hn)
    rw [List.forall_mem_cons] at hno
    simp [findBefore, deref_some hc, deref_some hd, hno.1, ih hcells (by simpa using hn) hno.2]

theorem findBefore_some {test : T → Bool} (h : Chain l.heap p (xs ++ c :: d :: ys) q)
    (hn : xs.length < n) (hno : ∀ e ∈ (xs ++ [c]).tail, test e.2 = false) (hd : test d.2 = true) :
    l.findBefore test n p = .ok (some c.1) := by
  induction xs generalizing p n with
  | nil =>
    obtain ⟨rfl, _, hc, rfl, _, hd', -⟩ := h
    obtain ⟨n, rfl⟩ := Nat.exists_eq_succ_of_ne_zero (Nat.ne_zero_of_lt hn)
    simp [findBefore, deref_some hc, deref_some hd', hd]
  | cons b xs ih =>
    obtain ⟨rfl, next, hb, hxs⟩ := h
    obtain ⟨n, rfl⟩ := Nat.exists_eq_succ_of_ne_zero (Nat.ne_zero_of_lt hn)
    -- the element behind `b` is `c` or the first one of `xs`, and fails the test
    obtain ⟨f, rest, hf⟩ : ∃ f rest, xs ++ [c] = f :: rest := List.exists_cons_of_ne_nil (by simp)
    have hnext : Chain l.heap next (f :: (rest ++ d :: ys)) q := by
      rw [← List.cons_append, ← hf, List.append_assoc]
      exact hxs
    obtain ⟨rfl, _, hf', -⟩ := hnext
    rw [List.cons_append, List.tail_cons] at hno
    have htest : test f.2 = false := hno f (by rw [hf]; exact List.mem_cons_self)
    have ih := ih hxs (by simpa using hn) fun e he => hno e (List.mem_of_mem_tail he)
    simp [findBefore, deref_some hb, deref_some hf', htest, ih]

theorem countToLast_eq {numFound : Int} (h : Chain l.heap p (xs ++ [c]) none) (hlast : l.last = some c.1)
    (hc : c.1 ∉ xs.map Prod.fst) (hn : xs.length < n) (hle : numFound + xs.length ≤ l.numInList) :
    l.countToLast n numFound p = .ok (numFound + xs.length) := by
  induction xs generalizing p n numFound with
  | nil =>
    obtain ⟨rfl, -⟩ := h
    obtain ⟨n, rfl⟩ := Nat.exists_eq_succ_of_ne_zero (Nat.ne_zero_of_lt hn)
    simp [countToLast, hlast]
  | cons b xs ih =>
    obtain ⟨rfl, next, hb, hxs⟩ := h
    obtain ⟨n, rfl⟩ := Nat.exists_eq_succ_of_ne_zero (Nat.ne_zero_of_lt hn)
    rw [List.map_cons, List.mem_cons, not_or] at hc
    rw [List.length_cons] at hle hn ⊢
    have ih : l.countToLast n (numFound + 1) next = .ok (numFound + 1 + xs.length) :=
      ih hxs hc.2 (by omega) (by omega)
    have hle' : numFound + 1 ≤ l.numInList := by omega
    have hne : some b.1 ≠ l.last := by simpa [hlast] using Ne.symm hc.1
    simp [countToLast, hne, hle', deref_some hb, ih]
    omega

theorem checkOrder_eq {compare : T → T → Int} (h : Chain l.heap p (c :: cells) none)
    (hn : cells.length < n) (hord : ((c :: cells).map Prod.snd).Pairwise (compare · · ≤ 0)) :
    l.checkOrder compare n p = .ok () := by
  induction cells generalizing p c n with
  | nil =>
    obtain ⟨rfl, next, hc, rfl⟩ := h
    obtain ⟨n, rfl⟩ := Nat.exists_eq_succ_of_ne_zero (Nat.ne_zero_of_lt hn)
    simp [checkOrder, deref_some hc]
  | cons d cells ih =>
    obtain ⟨rfl, next, hc, hcells⟩ := h
    obtain ⟨rfl, _, hd, -⟩ := id hcells
    obtain ⟨n, rfl⟩ := Nat.exists_eq_succ_of_ne_zero (Nat.ne_zero_of_lt hn)
    obtain ⟨hle, hord⟩ := List.pairwise_cons.1 hord
    have hle : compare c.2 d.2 ≤ 0 := hle _ (by simp)
    simp [checkOrder, deref_some hc, deref_some hd, hle, ih hcells (by simpa using hn) hord]

/-! ## The list and its cells -/

structure Is (l : LinkedList T) (cells : List (Nat × T)) : Prop where
  chain : Chain l.heap l.first cells none
  last : l.last = cells.getLast?.map Prod.fst
  numInList : l.numInList = cells.length
  addresses : (cells.map Prod.fst).Nodup
  items : (cells.map Prod.snd).Nodup

theorem not_mem_of_nodup (h : ((xs ++ [c]).map Prod.fst).Nodup) : c.1 ∉ xs.map Prod.fst := by
  rw [List.map_append, List.nodup_append] at h
  exact fun hc => h.2.2 _ hc _ (by simp) rfl

theorem is_new : (new : LinkedList T).Is [] := ⟨rfl, rfl, rfl, List.nodup_nil, List.nodup_nil⟩

theorem Is.isEmpty (h : l.Is cells) : l.isEmpty = cells.isEmpty := by
  cases cells with
  | nil => simp [LinkedList.isEmpty, h.numInList]
  | cons c cells => simp [LinkedList.isEmpty, h.numInList]; omega

theorem Is.length_le (h : l.Is cells) : cells.length ≤ l.size := by
  simpa [size] using (List.subperm_of_subset h.addresses h.chain.subset).length_le

theorem Is.last_eq (h : l.Is (xs ++ [c])) : l.last = some c.1 := by simp [h.last]

theorem Is.first_ne_last (h : l.Is (c :: d :: cells)) : l.first ≠ l.last := by
  obtain ⟨b, hb⟩ := Option.ne_none_iff_exists'.1 (mt List.getLast?_eq_none_iff.1 (List.cons_ne_nil d cells))
  have hmem : b.1 ∈ (d :: cells).map Prod.fst := List.mem_map_of_mem (List.mem_of_getLast? hb)
  have hne : c.1 ≠ b.1 := fun heq => (List.nodup_cons.1 h.addresses).1 (heq ▸ hmem)
  rw [h.chain.1, h.last, List.getLast?_cons_cons, hb]
  simpa using hne

theorem Is.lookup_last (h : l.Is (xs ++ [c])) : l.heap.lookup c.1 = some ⟨c.2, none⟩ := by
  obtain ⟨_, -, -, _, hc, rfl⟩ := chain_append.1 h.chain
  exact hc

theorem Is.sanityCheck (h : l.Is cells) : l.sanityCheck = .ok () := by
  rcases List.eq_nil_or_concat cells with rfl | ⟨xs, c, rfl⟩
  · have hfirst : l.first = none := h.chain
    simp [LinkedList.sanityCheck, hfirst, h.numInList, h.last]
  rw [List.concat_eq_append] at h
  have hlast := h.last_eq
  have hnum := h.numInList
  have hderef := deref_some h.lookup_last
  cases xs with
  | nil =>
    have hfirst : l.first = some c.1 := h.chain.1
    simp [LinkedList.sanityCheck, hfirst, hlast, hderef, hnum]
  | cons b xs =>
    obtain ⟨d, rest, hd⟩ : ∃ d rest, xs ++ [c] = d :: rest := List.exists_cons_of_ne_nil (by simp)
    have hne : l.first ≠ l.last := (hd ▸ h : l.Is (b :: d :: rest)).first_ne_last
    have hsome : l.first ≠ none := by simp [h.chain.1]
    have hc := not_mem_of_nodup h.addresses
    have hlen := h.length_le
    rw [List.length_append, List.length_singleton] at hlen hnum
    have hcount : l.countToLast l.size 1 l.first = .ok (1 + (b :: xs).length) :=
      countToLast_eq h.chain hlast hc hlen (by omega)
    have hall : (1 : Int) + (b :: xs).length = l.numInList := by omega
    rw [LinkedList.sanityCheck, if_neg hsome, if_neg hne, hcount, hlast, ok_bind, assert_of hall]
    simp [hderef]

theorem Is.sortedSanityCheck {compare : T → T → Int} (h : l.Is cells)
    (hord : (cells.map Prod.snd).Pairwise (compare · · ≤ 0)) :
    l.sortedSanityCheck compare = .ok () := by
  rw [LinkedList.sortedSanityCheck, h.sanityCheck, ok_bind]
  cases cells with
  | nil =>
    have hfirst : l.first = none := h.chain
    simp [hfirst, h.last]
  | cons c cells =>
    rw [checkOrder_eq h.chain h.length_le hord]
    split <;> rfl

/-! ## The functions -/

structure Fresh (l : LinkedList T) (a : Nat) (item : T) (cells : List (Nat × T)) : Prop extends l.Is cells where
  element : l.heap.lookup a = some ⟨item, none⟩
  address : a ∉ cells.map Prod.fst
  new : item ∉ cells.map Prod.snd

theorem Is.newElement (h : l.Is cells) (hnew : item ∉ cells.map Prod.snd) (choice : Nat) :
    (l.newElement choice item).2.Fresh (l.newElement choice item).1 item cells := by
  have ha : l.malloc choice ∉ cells.map Prod.fst := fun hmem =>
    l.malloc_not_mem choice (AList.mem_keys.2 (h.chain.subset hmem))
  exact ⟨⟨h.chain.insert ha _, h.last, h.numInList, h.addresses, h.items⟩, AList.lookup_insert _, ha, hnew⟩

theorem Fresh.added (h : l.Fresh a item cells) (hperm : ys.Perm ((a, item) :: cells))
    {l' : LinkedList T} (hnum : l'.numInList = l.numInList + 1) (hchain : Chain l'.heap l'.first ys none)
    (hlast : l'.last = ys.getLast?.map Prod.fst) : l'.Is ys := by
  refine ⟨hchain, hlast, ?_, ?_, ?_⟩
  · simp [hnum, h.numInList, hperm.length_eq]
  · rw [(hperm.map _).nodup_iff, List.map_cons, List.nodup_cons]
    exact ⟨h.address, h.addresses⟩
  · rw [(hperm.map _).nodup_iff, List.map_cons, List.nodup_cons]
    exact ⟨h.new, h.items⟩

theorem Fresh.only (h : l.Fresh a item []) :
    Is { l with first := some a, last := some a, numInList := l.numInList + 1 } [(a, item)] :=
  h.added (.refl _) rfl ⟨rfl, none, h.element, rfl⟩ rfl

theorem Fresh.front (h : l.Fresh a item (c :: cells)) : Is { l with
    heap := l.heap.insert a ⟨item, l.first⟩, first := some a, numInList := l.numInList + 1 }
    ((a, item) :: c :: cells) := by
  refine h.added (.refl _) rfl ⟨rfl, l.first, AList.lookup_insert _, h.chain.insert h.address _⟩ ?_
  rw [List.getLast?_cons_cons]
  exact h.last

theorem Fresh.back (h : l.Fresh a item (xs ++ [c])) : Is { l with
    heap := l.heap.insert c.1 ⟨c.2, some a⟩, last := some a, numInList := l.numInList + 1 }
    (xs ++ [c] ++ [(a, item)]) := by
  refine h.added (List.perm_append_singleton _ _) rfl ?_ (by simp)
  have hne : a ≠ c.1 := fun hac => h.address (by simp [hac])
  refine chain_append.2 ⟨some a, h.chain.relink (not_mem_of_nodup h.addresses) _, rfl, none, ?_, rfl⟩
  rw [AList.lookup_insert_ne hne, h.element]

theorem Fresh.between (h : l.Fresh a item (xs ++ c :: d :: ys)) : Is { l with
    heap := (l.heap.insert a ⟨item, some d.1⟩).insert c.1 ⟨c.2, some a⟩
    numInList := l.numInList + 1 } (xs ++ [c] ++ (a, item) :: d :: ys) := by
  have haddr := h.addresses
  have ha := h.address
  rw [List.append_cons] at haddr ha
  rw [List.map_append, List.mem_append, not_or] at ha
  have hc : c.1 ∉ (d :: ys).map Prod.fst := fun hc => by
    rw [List.map_append, List.nodup_append] at haddr
    exact haddr.2.2 _ (by simp) _ hc rfl
  refine h.added ?_ rfl ?_ ?_
  · rw [List.append_cons xs c (d :: ys)]
    exact List.perm_middle
  · obtain ⟨r, hxs, hys⟩ := chain_append.1 (List.append_cons xs c _ ▸ h.chain)
    have hne : a ≠ c.1 := fun hac => ha.1 (by simp [hac])
    obtain rfl : r = some d.1 := hys.1
    refine chain_append.2 ⟨some a, (hxs.insert ha.1 _).relink ?_ _, rfl, some d.1, ?_, ?_⟩
    · exact not_mem_of_nodup (List.Nodup.of_append_left (List.map_append ▸ haddr))
    · rw [AList.lookup_insert_ne hne, AList.lookup_insert]
    · exact (hys.insert ha.2 _).insert hc _
  · rw [h.last]
    simp [List.getLast?_append, List.getLast?_cons_cons]

theorem Is.unlink (h : l.Is (xs ++ c :: d :: ys)) : ∃ next, l.heap.lookup c.1 = some ⟨c.2, some d.1⟩ ∧
    l.heap.lookup d.1 = some ⟨d.2, next⟩ ∧ Is { l with
      heap := (l.heap.insert c.1 ⟨c.2, next⟩).erase d.1
      last := if next = none then some c.1 else l.last
      numInList := l.numInList - 1 } (xs ++ [c] ++ ys) := by
  have haddr := h.addresses
  rw [List.append_cons, List.map_append, List.map_cons, List.nodup_middle, List.nodup_cons,
    ← List.map_append] at haddr
  obtain ⟨hd, haddr⟩ := haddr
  obtain ⟨r, hxs, rfl, next, hd', hys⟩ := chain_append.1 (List.append_cons xs c _ ▸ h.chain)
  obtain ⟨_, -, -, _, hc, rfl⟩ := chain_append.1 hxs
  have hc' : c.1 ∉ ys.map Prod.fst := fun hmem => by
    rw [List.map_append, List.nodup_append] at haddr
    exact haddr.2.2 _ (by simp) _ hmem rfl
  refine ⟨next, hc, hd', ?_, ?_, ?_, haddr, ?_⟩
  · refine Chain.erase (chain_append.2 ⟨next, hxs.relink ?_ next, hys.insert hc' _⟩) hd
    exact not_mem_of_nodup (List.Nodup.of_append_left (List.map_append ▸ haddr))
  · cases ys with
    | nil => simp [show next = none from hys]
    | cons b ys => simp [hys.1, h.last]
  · simp [h.numInList]
    omega
  · refine h.items.sublist (List.Sublist.map _ ?_)
    rw [List.append_cons xs c (d :: ys)]
    exact (List.sublist_cons_self d ys).append_left _

theorem exists_before (test : T → Bool) (h : ∃ d ∈ cells, test d.2 = true) (c : Nat × T) :
    ∃ as xs b d ys, c :: cells = xs ++ b :: d :: ys ∧ xs ++ [b] = c :: as ∧
      (∀ e ∈ as, test e.2 = false) ∧ test d.2 = true := by
  obtain ⟨d, hd⟩ := Option.isSome_iff_exists.1
    ((List.find?_isSome (p := fun d : Nat × T => test d.2)).2 h)
  obtain ⟨htest, as, bs, rfl, has⟩ := List.find?_eq_some_iff_append.1 hd
  have hxs := List.dropLast_append_getLast (List.cons_ne_nil c as)
  refine ⟨as, (c :: as).dropLast, _, d, bs, ?_, hxs, by simpa using has, htest⟩
  rw [List.append_cons (c :: as).dropLast, hxs, List.cons_append]

def Items (l : LinkedList T) (items : List T) : Prop := ∃ cells, l.Is cells ∧ cells.map Prod.snd = items

variable {items : List T}

theorem Items.nodup (h : l.Items items) : items.Nodup := by
  obtain ⟨cells, h, rfl⟩ := h
  exact h.items

theorem Items.isEmpty (h : l.Items items) : l.isEmpty = items.isEmpty := by
  obtain ⟨cells, h, rfl⟩ := h
  rw [h.isEmpty, List.isEmpty_map]

theorem ListIterator.loop_eq {R : Type} {it : ListIterator} (body : T → Except Fault (Option R))
    (h : Chain l.heap it.current cells none) (hn : cells.length ≤ n) :
    loop l body n it = (cells.map Prod.snd).findSomeM? body := by
  induction cells generalizing it n with
  | nil =>
    have hdone : it.isDone = true := by simp [isDone, show it.current = none from h]
    cases n <;> simp [loop, hdone]
  | cons c cells ih =>
    obtain ⟨hcur, next, hc, hcells⟩ := h
    obtain ⟨n, rfl⟩ := Nat.exists_eq_succ_of_ne_zero (Nat.ne_zero_of_lt hn)
    have hrest : loop l body n ⟨next⟩ = _ := ih hcells (Nat.le_of_succ_le_succ hn)
    simp [loop, isDone, item, ListIterator.next, hcur, deref_some hc, hrest, List.findSomeM?]
    rfl

theorem Items.iterate {R : Type} (h : l.Items items) (body : T → Except Fault (Option R)) :
    l.iterate body = items.findSomeM? body := by
  obtain ⟨cells, h, rfl⟩ := h
  exact ListIterator.loop_eq body h.chain h.length_le

theorem removeFront_items (h : l.Items (item :: items)) :
    ∃ l', l.removeFront = .ok (item, l') ∧ l'.Items items := by
  obtain ⟨cells, h, heq⟩ := h
  obtain ⟨c, cells, rfl, rfl, rfl⟩ := List.map_eq_cons_iff.1 heq
  obtain ⟨hfirst, next, hc, hcells⟩ := h.chain
  obtain ⟨hnot, haddr⟩ := List.nodup_cons.1 h.addresses
  have hempty : l.isEmpty = false := h.isEmpty
  simp only [removeFront, hempty, assert_of, ok_bind, hfirst, deref_some hc]
  cases cells with
  | nil =>
    rw [if_pos (by simp [h.last])]
    exact ⟨_, rfl, [], ⟨rfl, rfl, by simp [delete, h.numInList], .nil, .nil⟩, rfl⟩
  | cons d cells =>
    rw [if_neg (hfirst ▸ h.first_ne_last)]
    have hlast : l.last = (d :: cells).getLast?.map Prod.fst := by rw [h.last, List.getLast?_cons_cons]
    refine ⟨_, rfl, _, ⟨hcells.erase hnot, hlast, ?_, haddr, (List.nodup_cons.1 h.items).2⟩, rfl⟩
    simp [delete, h.numInList]

variable [DecidableEq T] {choice : Nat}

theorem isInListFrom_eq (h : Chain l.heap p cells none) (hn : cells.length ≤ n) :
    l.isInListFrom item n p = .ok (decide (item ∈ cells.map Prod.snd)) := by
  induction cells generalizing p n with
  | nil =>
    obtain rfl := h
    cases n <;> simp [isInListFrom]
  | cons c cells ih =>
    obtain ⟨rfl, next, hc, hcells⟩ := h
    obtain ⟨n, rfl⟩ := Nat.exists_eq_succ_of_ne_zero (Nat.ne_zero_of_lt hn)
    by_cases heq : item = c.2
    · simp [isInListFrom, deref_some hc, heq]
    · simp [isInListFrom, deref_some hc, heq, ih hcells (by simpa using hn)]

theorem Is.isInList (h : l.Is cells) (item : T) :
    l.isInList item = .ok (decide (item ∈ cells.map Prod.snd)) :=
  isInListFrom_eq h.chain h.length_le

theorem Items.isInList (h : l.Items items) : l.isInList item = .ok (decide (item ∈ items)) := by
  obtain ⟨cells, h, rfl⟩ := h
  exact h.isInList item

theorem added_eq (h : Is { l with numInList := l.numInList + 1 } cells) (hmem : item ∈ cells.map Prod.snd) :
    l.added item = .ok { l with numInList := l.numInList + 1 } := by
  simp [LinkedList.added, h.isInList, hmem]

theorem Is.begins (h : l.Is cells) (hnew : item ∉ cells.map Prod.snd) (choice : Nat) :
    ∃ a l1, l.newElement choice item = (a, l1) ∧ l1.Fresh a item cells ∧
      l1.isInList item = .ok false ∧ l1.isEmpty = cells.isEmpty := by
  have hf := h.newElement hnew choice
  refine ⟨_, (l.newElement choice item).2, rfl, hf, ?_, hf.isEmpty⟩
  rw [hf.isInList, decide_eq_false hnew]

theorem append_items (h : l.Items items) (hnew : item ∉ items) :
    ∃ l', l.append choice item = .ok l' ∧ l'.Items (items ++ [item]) := by
  obtain ⟨cells, h, rfl⟩ := h
  obtain ⟨a, l1, hl1, hf, hin, hempty⟩ := h.begins hnew choice
  simp only [append, hl1, hin, ok_bind, assert_of, hempty]
  rcases List.eq_nil_or_concat cells with rfl | ⟨xs, c, rfl⟩
  · exact ⟨_, added_eq hf.only (by simp), _, hf.only, rfl⟩
  · rw [List.concat_eq_append] at hf ⊢
    rw [if_neg (by simp), hf.last_eq, setNext_some hf.lookup_last, ok_bind]
    exact ⟨_, added_eq hf.back (by simp), _, hf.back, by simp⟩

theorem prepend_items (h : l.Items items) (hnew : item ∉ items) :
    ∃ l', l.prepend choice item = .ok l' ∧ l'.Items (item :: items) := by
  obtain ⟨cells, h, rfl⟩ := h
  obtain ⟨a, l1, hl1, hf, hin, hempty⟩ := h.begins hnew choice
  simp only [prepend, hl1, hin, ok_bind, assert_of, hempty]
  cases cells with
  | nil => exact ⟨_, added_eq hf.only (by simp), _, hf.only, rfl⟩
  | cons c cells =>
    rw [if_neg (by simp), setNext_some hf.element, ok_bind]
    exact ⟨_, added_eq hf.front (by simp), _, hf.front, by simp⟩

theorem insert_items {compare : T → T → Int} (h : l.Items items) (hnew : item ∉ items) :
    ∃ l', l.insert compare choice item = .ok l' ∧
      l'.Items (items.orderedInsert (fun a b => compare a b < 0) item) := by
  obtain ⟨cells, h, rfl⟩ := h
  obtain ⟨a, l1, hl1, hf, hin, hempty⟩ := h.begins hnew choice
  simp only [insert, hl1, hin, ok_bind, assert_of, hempty]
  cases cells with
  | nil => exact ⟨_, added_eq hf.only (by simp), _, hf.only, rfl⟩
  | cons c cells =>
    obtain ⟨hfirst, _, hc, -⟩ := id hf.chain
    rw [if_neg (by simp), hfirst, deref_some hc, ok_bind]
    dsimp only
    by_cases hlt : compare item c.2 < 0
    · rw [if_pos hlt, setNext_some hf.element, ok_bind, ← hfirst]
      exact ⟨_, added_eq hf.front (by simp), _, hf.front, by simp [hlt]⟩
    rw [if_neg hlt, ← hfirst]
    have hins : ∀ (as : List (Nat × T)) (rest : List T),
        (∀ e ∈ as, decide (compare item e.2 < 0) = false) →
        ((c :: as).map Prod.snd ++ rest).orderedInsert (fun a b => compare a b < 0) item =
          (c :: as).map Prod.snd ++ rest.orderedInsert (fun a b => compare a b < 0) item := by
      intro as rest hno
      refine orderedInsert_append_of_forall ?_
      rw [List.map_cons, List.forall_mem_cons, List.forall_mem_map]
      exact ⟨hlt, fun e he => of_decide_eq_false (hno e he)⟩
    by_cases hbig : ∃ d ∈ cells, decide (compare item d.2 < 0) = true
    · obtain ⟨as, xs, b, d, ys, heq, has, hno, hd⟩ :=
        exists_before (fun other => compare item other < 0) hbig c
      have hlen := hf.length_le
      rw [heq] at hf hlen
      rw [findBefore_some hf.chain (by simp at hlen; omega) (by rwa [has]) hd, ok_bind]
      obtain ⟨_, -, -, _, hb, rfl, -⟩ := chain_append.1 hf.chain
      have hne : b.1 ≠ a := fun hba => hf.address (by simp [hba])
      have hb' : (l1.heap.insert a ⟨item, some d.1⟩).lookup b.1 = some ⟨b.2, some d.1⟩ := by
        rw [AList.lookup_insert_ne hne, hb]
      simp only [deref_some hb, setNext_some hf.element, ok_bind]
      rw [setNext_some hb', ok_bind]
      refine ⟨_, rfl, _, hf.between, ?_⟩
      have hins := hins as (d.2 :: ys.map Prod.snd) hno
      rw [List.orderedInsert_cons, if_pos (of_decide_eq_true hd), ← has] at hins
      simpa [heq] using hins.symm
    · have hno : ∀ d ∈ cells, decide (compare item d.2 < 0) = false := fun d hd =>
        Bool.eq_false_iff.2 fun htrue => hbig ⟨d, hd, htrue⟩
      rw [findBefore_none hf.chain hf.length_le hno, ok_bind]
      have hxs := List.dropLast_append_getLast (List.cons_ne_nil c cells)
      rw [← hxs] at hf
      dsimp only
      rw [hf.last_eq, setNext_some hf.lookup_last, ok_bind]
      refine ⟨_, added_eq hf.back (by simp), _, hf.back, ?_⟩
      simpa [hxs] using (hins cells [] hno).symm

theorem removeBehind_items (h : l.Is (c :: cells)) (hne : item ≠ c.2) (hmem : item ∈ cells.map Prod.snd) :
    ∃ l', l.removeBehind item = .ok l' ∧ l'.Items (((c :: cells).map Prod.snd).erase item) := by
  obtain ⟨d, hd, rfl⟩ := List.mem_map.1 hmem
  obtain ⟨as, xs, b, e, ys, heq, has, hno, he⟩ :=
    exists_before (fun other => d.2 = other) ⟨d, hd, decide_eq_true rfl⟩ c
  have hlen := h.length_le
  rw [heq] at h hlen
  obtain ⟨next, hb, he', his⟩ := h.unlink
  have hfind : l.findBefore (d.2 = ·) l.size l.first = .ok (some b.1) :=
    findBefore_some h.chain (by simp at hlen; omega) (by rwa [has]) he
  have hcells : (xs ++ [b] ++ ys).map Prod.snd = ((c :: cells).map Prod.snd).erase d.2 := by
    have hnot : d.2 ∉ (xs ++ [b]).map Prod.snd := by
      rw [has, List.map_cons, List.mem_cons, not_or]
      refine ⟨hne, fun hm => ?_⟩
      obtain ⟨x, hx, hxd⟩ := List.mem_map.1 hm
      exact of_decide_eq_false (hno x hx) hxd.symm
    have herase := List.erase_append_right (d.2 :: ys.map Prod.snd) hnot
    rw [List.erase_cons_head, of_decide_eq_true he] at herase
    simpa [heq, of_decide_eq_true he] using herase.symm
  simp only [removeBehind, hfind, ok_bind, assert_of (Option.some_ne_none b.1), deref_some hb,
    deref_some he', setNext_some hb]
  cases next with
  | none | some a => exact ⟨_, rfl, _, his, hcells⟩

theorem remove_items (h : l.Items items) (hmem : item ∈ items) :
    ∃ l', l.remove item = .ok l' ∧ l'.Items (items.erase item) := by
  have hin : l.isInList item = .ok true := by rw [h.isInList, decide_eq_true hmem]
  have hout : ∀ {l' : LinkedList T}, l'.Items (items.erase item) → l'.isInList item = .ok false := by
    intro l' h'
    rw [h'.isInList, decide_eq_false h.nodup.not_mem_erase]
  obtain ⟨cells, his, rfl⟩ := id h
  cases cells with
  | nil => cases hmem
  | cons c cells =>
    obtain ⟨hfirst, _, hc, -⟩ := id his.chain
    simp only [remove, hin, ok_bind, assert_of, hfirst, deref_some hc]
    by_cases heq : item = c.2
    · subst heq
      obtain ⟨l', hrun, h'⟩ := removeFront_items h
      have h'' : l'.Items (((c :: cells).map Prod.snd).erase c.2) := by simpa using h'
      simp only [if_pos, hrun, ok_bind, assert_of, pure_bind, hout h'']
      exact ⟨l', rfl, h''⟩
    · obtain ⟨l', hrun, h'⟩ := removeBehind_items his heq (List.mem_of_ne_of_mem heq hmem)
      simp only [if_neg heq, hrun, ok_bind, hout h', assert_of]
      exact ⟨l', rfl, h'⟩

/-! ## Any calls -/

def spec (compare : T → T → Int) : Spec (List T) (Call T) (Option T) where
  allows items
    | .append _ item | .prepend _ item | .insert _ item => item ∉ items
    | .remove item => item ∈ items
    | .removeFront => items ≠ []
  answer items
    | .removeFront => items.head?
    | _ => none
  next items
    | .append _ item => items ++ [item]
    | .prepend _ item => item :: items
    | .insert _ item => items.orderedInsert (fun a b => compare a b < 0) item
    | .remove item => items.erase item
    | .removeFront => items.tail

variable {compare : T → T → Int} {inserted : List T}

theorem implements : Implements (spec compare) (call compare) fun items l => l.Items items := by
  intro items l c h hc
  cases c with
  | append choice item =>
    obtain ⟨l', hrun, h'⟩ := append_items h hc
    exact ⟨l', by rw [call, hrun]; rfl, h'⟩
  | prepend choice item =>
    obtain ⟨l', hrun, h'⟩ := prepend_items h hc
    exact ⟨l', by rw [call, hrun]; rfl, h'⟩
  | insert choice item =>
    obtain ⟨l', hrun, h'⟩ := insert_items h hc
    exact ⟨l', by rw [call, hrun]; rfl, h'⟩
  | remove item =>
    obtain ⟨l', hrun, h'⟩ := remove_items h hc
    exact ⟨l', by rw [call, hrun]; rfl, h'⟩
  | removeFront =>
    obtain ⟨item, items, rfl⟩ := List.exists_cons_of_ne_nil hc
    obtain ⟨l', hrun, h'⟩ := removeFront_items h
    exact ⟨l', by rw [call, hrun]; rfl, h'⟩

/-- `compare` says which of two items comes first. -/
structure TotalPreorder (compare : T → T → Int) : Prop where
  swap : ∀ a b, compare a b < 0 ↔ 0 < compare b a
  trans : ∀ a b c, compare a b ≤ 0 → compare b c ≤ 0 → compare a c ≤ 0

def Call.OfSortedList : Call T → Prop
  | .insert .. | .remove _ | .removeFront => True
  | .append .. | .prepend .. => False

/-- The items that were inserted and not removed, in the order of their insertion, after one more call and
its answer. -/
def alive (inserted : List T) : Call T × Option T → List T
  | (.append _ item, _) | (.prepend _ item, _) | (.insert _ item, _) => inserted ++ [item]
  | (.remove item, _) | (.removeFront, some item) => inserted.erase item
  | (.removeFront, none) => inserted

/-- The items are those that were inserted, in order; among equals the order is that of the insertion. -/
structure Ordered (compare : T → T → Int) (items inserted : List T) : Prop where
  sorted : items.Pairwise (compare · · ≤ 0)
  perm : items.Perm inserted
  stable : ∀ a, items.filter (compare a · = 0) = inserted.filter (compare a · = 0)

omit [DecidableEq T] in
theorem Ordered.insert (hc : TotalPreorder compare) (h : Ordered compare items inserted) (item : T) :
    Ordered compare (items.orderedInsert (fun a b => compare a b < 0) item) (inserted ++ [item]) where
  sorted := by
    refine pairwise_orderedInsert h.sorted (fun b _ hlt => Int.le_of_lt hlt) (fun b _ hge => ?_) fun b d =>
      hc.trans item b d
    exact Int.not_lt.1 fun hlt => hge ((hc.swap item b).2 hlt)
  perm := (List.perm_orderedInsert _ _ _).trans
    ((h.perm.cons item).trans (List.perm_append_singleton item inserted).symm)
  stable a := by
    rw [filter_orderedInsert h.sorted, h.stable, List.filter_append]
    -- what is not smaller than an item bigger than `item` is no equal of `item`
    intro b d hlt hle ha
    have hle : compare b d ≤ 0 := by
      rcases hle with rfl | hle
      · have := hc.swap b b
        omega
      · exact hle
    have h0 := of_decide_eq_true ha
    have h1 := hc.trans d a item
    have h2 := hc.trans b d item hle
    have h3 := hc.swap item b
    have h4 := hc.swap a d
    simp only [decide_eq_false_iff_not]
    intro hd
    omega

theorem Ordered.erase (h : Ordered compare items inserted) (hitems : items.Nodup) (item : T) :
    Ordered compare (items.erase item) (inserted.erase item) where
  sorted := h.sorted.sublist List.erase_sublist
  perm := h.perm.erase item
  stable a := by
    rw [hitems.erase_eq_filter, (h.perm.nodup_iff.1 hitems).erase_eq_filter, List.filter_comm, h.stable,
      List.filter_comm]

theorem ordered_next (hc : TotalPreorder compare) {c : Call T} (hallow : (spec compare).allows items c)
    (hsorted : c.OfSortedList) (hitems : items.Nodup) (h : Ordered compare items inserted) :
    ((spec compare).next items c).Nodup ∧ Ordered compare ((spec compare).next items c)
      (alive inserted (c, (spec compare).answer items c)) := by
  cases c with
  | append | prepend => exact hsorted.elim
  | insert choice item =>
    exact ⟨(List.perm_orderedInsert _ _ _).nodup_iff.2 (List.nodup_cons.2 ⟨hallow, hitems⟩), h.insert hc item⟩
  | remove item => exact ⟨hitems.erase item, h.erase hitems item⟩
  | removeFront =>
    obtain ⟨item, items, rfl⟩ := List.exists_cons_of_ne_nil hallow
    have he := h.erase hitems item
    rw [List.erase_cons_head] at he
    exact ⟨(List.nodup_cons.1 hitems).2, he⟩

theorem ordered_final (hc : TotalPreorder compare) {cs : List (Call T)}
    (hallows : (spec compare).Allows items cs) (hcs : ∀ c ∈ cs, c.OfSortedList) (hitems : items.Nodup)
    (h : Ordered compare items inserted) : Ordered compare ((spec compare).final items cs)
      ((cs.zip ((spec compare).answers items cs)).foldl alive inserted) := by
  induction cs generalizing items inserted with
  | nil => exact h
  | cons c cs ih =>
    obtain ⟨hsorted, hcs⟩ := List.forall_mem_cons.1 hcs
    obtain ⟨hitems, h⟩ := ordered_next hc hallows.1 hsorted hitems h
    exact ih hallows.2 hcs hitems h

structure Represents (l : LinkedList T) (items : List T) : Prop where
  /-- following `next` from `first` leads through `numInList` elements, the last of which is `last` -/
  elements : ∃ cells, cells.map Prod.snd = items ∧ Chain l.heap l.first cells none ∧
    l.last = cells.getLast?.map Prod.fst ∧ l.numInList = cells.length
  lastNext : ∀ a, l.last = some a → ∃ item, l.heap.lookup a = some ⟨item, none⟩
  empty : (l.first = none ↔ l.numInList = 0) ∧ (l.last = none ↔ l.numInList = 0)
  sanityCheck : l.sanityCheck = .ok ()

omit [DecidableEq T] in
theorem Is.represents (h : l.Is cells) : Represents l (cells.map Prod.snd) where
  elements := ⟨cells, rfl, h.chain, h.last, h.numInList⟩
  lastNext a ha := by
    rcases List.eq_nil_or_concat cells with rfl | ⟨xs, c, rfl⟩
    · cases h.last.symm.trans ha
    · rw [List.concat_eq_append] at h
      cases h.last_eq.symm.trans ha
      exact ⟨_, h.lookup_last⟩
  empty := by
    cases cells with
    | nil =>
      have hfirst : l.first = none := h.chain
      simp [hfirst, h.last, h.numInList]
    | cons c cells =>
      simp [h.chain.1, h.last, h.numInList]
      omega
  sanityCheck := h.sanityCheck

/-- **A linked list represents a sequence**, after any calls on items that are in the list for a removal and
not for an insertion; as a sorted list it is ordered. -/
theorem linkedList_represents {cs : List (Call T)} (hcs : (spec compare).Allows [] cs) :
    ∃ l, runCalls (call compare) new cs = .ok ((spec compare).answers [] cs, l) ∧
      Represents l ((spec compare).final [] cs) ∧
      (TotalPreorder compare → (∀ c ∈ cs, c.OfSortedList) → l.sortedSanityCheck compare = .ok () ∧
        Ordered compare ((spec compare).final [] cs)
          ((cs.zip ((spec compare).answers [] cs)).foldl alive [])) := by
  obtain ⟨l, hrun, cells, h, hitems⟩ := implements.runs ⟨[], is_new, rfl⟩ hcs
  refine ⟨l, hrun, hitems ▸ h.represents, fun hc hsorted => ?_⟩
  have hord := ordered_final hc hcs hsorted .nil ⟨.nil, .nil, fun _ => rfl⟩
  exact ⟨h.sortedSanityCheck (hitems ▸ hord.sorted), hord⟩

def byKey (a b : Nat × Nat) : Int := a.1 - b.1

def sortedCalls : List (Call (Nat × Nat)) :=
  [.insert 0 (1, 0), .insert 0 (0, 1), .insert 7 (1, 2), .remove (0, 1), .insert 0 (1, 3), .removeFront]

theorem linkedList_represents_sorted : TotalPreorder byKey ∧ (∀ c ∈ sortedCalls, c.OfSortedList) ∧
    ∃ l, runCalls (call byKey) new sortedCalls = .ok ([none, none, none, none, none, some (1, 0)], l) ∧
      Represents l [(1, 2), (1, 3)] ∧
      (TotalPreorder byKey → (∀ c ∈ sortedCalls, c.OfSortedList) → l.sortedSanityCheck byKey = .ok () ∧
        Ordered byKey [(1, 2), (1, 3)] [(1, 2), (1, 3)]) :=
  ⟨⟨fun a b => by unfold byKey; omega, fun a b c => by unfold byKey; omega⟩,
    by simp [sortedCalls, Call.OfSortedList],
    linkedList_represents (by simp only [Spec.Allows, spec, sortedCalls]; decide)⟩

end Nachos.LinkedList
