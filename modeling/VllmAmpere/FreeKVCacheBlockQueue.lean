import VllmAmpere.Python
import VllmAmpere.SentinelList

/-! The free block queue of a block pool: a doubly linked list threaded through
the blocks, between a fake head and a fake tail. Blocks are named by their
position in the pool's block list. Every operation on a queue that represents a
list is the corresponding list operation. -/

open List
open Function (update_apply update_of_ne update_self)

namespace VllmAmpere
open SentinelList

abbrev BlockId := Nat

structure FreeKVCacheBlockQueue where
  numFreeBlocks : Int
  links : Links BlockId

namespace FreeKVCacheBlockQueue

/-- The constructor: consecutive blocks first, then both fake ends. -/
def new (blocks : List BlockId) : FreeKVCacheBlockQueue :=
  let inner := (Links.empty : Links BlockId).linkAll (blocks.map .item)
  let links := match blocks.head?, blocks.getLast? with
    | some first, some last => (inner.link .head (.item first)).link (.item last) .tail
    | _, _ => inner.link .head .tail
  ⟨blocks.length, links⟩

def popleft (q : FreeKVCacheBlockQueue) : Except PyError (BlockId × FreeKVCacheBlockQueue) :=
  match q.links.next .head with
  | some (.item first) =>
    match q.links.next (.item first) with
    | some second =>
      let links := (q.links.setNext .head (some second)).setPrev second (some .head)
      .ok (first, ⟨q.numFreeBlocks - 1, links.unlink (.item first)⟩)
    | none => .error (.runtime
        "Invalid block found in popleft() which doesn't have a valid next_free_block")
  | _ =>
    if q.numFreeBlocks = 0 then .error (.value "No free blocks available")
    else .error (.assertion "num_free_blocks is out of sync with the free list.")

/-- The loop of `popleft_n`: the popped blocks, the node after them and the pointers. -/
def popleftLoop : Nat → Option (Node BlockId) → Links BlockId →
    Except PyError (List BlockId × Option (Node BlockId) × Links BlockId)
  | 0, curr, links => .ok ([], curr, links)
  | n + 1, some (.item b), links => do
    let (ret, curr, links) ← popleftLoop n (links.next (.item b)) (links.unlink (.item b))
    .ok (b :: ret, curr, links)
  | _ + 1, _, _ => .error (.assertion "curr_block is not None")

def popleftN (q : FreeKVCacheBlockQueue) (n : Nat) :
    Except PyError (List BlockId × FreeKVCacheBlockQueue) :=
  if n = 0 then .ok ([], q)
  else do
    pyAssert ((n : Int) ≤ q.numFreeBlocks) "self.num_free_blocks >= n"
    let (ret, curr, links) ← popleftLoop n (q.links.next .head) q.links
    let links := match curr with
      | some c => (links.setNext .head (some c)).setPrev c (some .head)
      | none => links
    .ok (ret, ⟨q.numFreeBlocks - n, links⟩)

def remove (q : FreeKVCacheBlockQueue) (b : BlockId) : Except PyError FreeKVCacheBlockQueue :=
  match q.links.prev (.item b), q.links.next (.item b) with
  | some p, some n =>
    let links := (q.links.setNext p (some n)).setPrev n (some p)
    .ok ⟨q.numFreeBlocks - 1, links.unlink (.item b)⟩
  | _, _ => .error (.runtime s!"remove() called on an invalid block: {b}")

def append (q : FreeKVCacheBlockQueue) (b : BlockId) : Except PyError FreeKVCacheBlockQueue :=
  match q.links.prev .tail with
  | some last =>
    let links := (q.links.link last (.item b)).link (.item b) .tail
    .ok ⟨q.numFreeBlocks + 1, links⟩
  | none => .error (.runtime "prev_free_block of fake_free_list_tail should always exist")

/-- Link each block after the one before it, the first after `prev`. -/
def linkBlocks : Node BlockId → List BlockId → Links BlockId → Node BlockId × Links BlockId
  | prev, [], links => (prev, links)
  | prev, b :: rest, links => linkBlocks (.item b) rest (links.link prev (.item b))

def prependN (q : FreeKVCacheBlockQueue) (blocks : List BlockId) :
    Except PyError FreeKVCacheBlockQueue :=
  if blocks.length = 0 then .ok q
  else match q.links.next .head with
    | some first =>
      let (last, links) := linkBlocks .head blocks q.links
      .ok ⟨q.numFreeBlocks + blocks.length, links.link last first⟩
    | none => .error (.assertion "next_free_block of fake_free_list_head should always exist")

def appendN (q : FreeKVCacheBlockQueue) (blocks : List BlockId) :
    Except PyError FreeKVCacheBlockQueue :=
  if blocks.length = 0 then .ok q
  else match q.links.prev .tail with
    | some last =>
      let (last, links) := linkBlocks last blocks q.links
      .ok ⟨q.numFreeBlocks + blocks.length, links.link last .tail⟩
    | none => .error (.assertion "prev_free_block of fake_free_list_tail should always exist")

/-- The loop of `get_all_free_blocks`; `none` when `fuel` rounds do not end it. -/
def collectFrom (links : Links BlockId) : Nat → Node BlockId → Option (List (Node BlockId))
  | 0, _ => none
  | fuel + 1, curr => match links.next curr with
    | some next => (collectFrom links fuel next).map (curr :: ·)
    | none => some []

def getAllFreeBlocks (q : FreeKVCacheBlockQueue) (fuel : Nat) :
    Except PyError (Option (List (Node BlockId))) :=
  match q.links.next .head with
  | some first => .ok (collectFrom q.links fuel first)
  | none => .error (.runtime "next_free_block of fake_free_list_head should always exist")

/-- The loop of `iter_blocks_after`; `none` when `fuel` rounds do not end it. -/
def iterFrom (links : Links BlockId) : Nat → Option (Node BlockId) →
    Option (List (Node BlockId))
  | 0, _ => none
  | _ + 1, none => some []
  | _ + 1, some .tail => some []
  | fuel + 1, some curr => (iterFrom links fuel (links.next curr)).map (curr :: ·)

def iterBlocksAfter (q : FreeKVCacheBlockQueue) (fuel : Nat) (cursor : Option BlockId) :
    Option (List (Node BlockId)) :=
  match cursor with
  | none => iterFrom q.links fuel (q.links.next .head)
  | some c => iterFrom q.links fuel (q.links.next (.item c))

/-- The queue is exactly the list `l`: the pointers spell it in both directions,
no other block has a pointer and the counter is its length. -/
structure Represents (q : FreeKVCacheBlockQueue) (l : List BlockId) : Prop where
  links : q.links = Links.ofList l
  count : q.numFreeBlocks = l.length
  nodup : l.Nodup

theorem linkBlocks_eq (prev : Node BlockId) (blocks : List BlockId) (links : Links BlockId)
    (after : Node BlockId) :
    (linkBlocks prev blocks links).2.link (linkBlocks prev blocks links).1 after =
    links.linkAll (prev :: blocks.map .item ++ [after]) := by
  induction blocks generalizing prev links with
  | nil => rfl
  | cons b rest ih => exact ih (.item b) (links.link prev (.item b))

variable {q : FreeKVCacheBlockQueue} {l : List BlockId}

section

variable (h : q.Represents l)
include h

theorem Represents.splice {p xs r : List (Node BlockId)} {a b : Node BlockId} {l' : List BlockId}
    (old : path l = p ++ a :: b :: r) (new : path l' = p ++ a :: (xs ++ b :: r))
    (nodup : l'.Nodup) :
    Represents ⟨q.numFreeBlocks + (l'.length - l.length), q.links.linkAll (a :: xs ++ [b])⟩ l' := by
  refine ⟨?_, ?_, nodup⟩
  · have hp := path_nodup nodup
    rw [new] at hp
    rw [h.links, Links.ofList, Links.ofList, old, new, linkAll_insert hp]
  · simp only [h.count]
    omega

theorem Represents.cut {p xs r : List (Node BlockId)} {a b : Node BlockId} {l' : List BlockId}
    (old : path l = p ++ a :: (xs ++ b :: r)) (new : path l' = p ++ a :: b :: r)
    (nodup : l'.Nodup) :
    Represents ⟨q.numFreeBlocks - (l.length - l'.length), (q.links.link a b).unlinkAll xs⟩ l' := by
  refine ⟨?_, ?_, nodup⟩
  · have hp := path_nodup h.nodup
    rw [old] at hp
    rw [h.links, Links.ofList, Links.ofList, old, new, linkAll_remove hp]
  · simp only [h.count]
    omega

theorem Represents.next (z : Node BlockId) : q.links.next z = succ (path l) z := by
  rw [h.links, Links.ofList, ofPath_next (path_nodup h.nodup)]

theorem Represents.prev (z : Node BlockId) : q.links.prev z = pred (path l) z := by
  rw [h.links, Links.ofList, ofPath_prev (path_nodup h.nodup)]

theorem Represents.congr
    {n : Int} {links : Links BlockId} (hn : n = q.numFreeBlocks) (hl : links = q.links) :
    Represents ⟨n, links⟩ l := by
  subst hn hl
  exact h

end

theorem new_represents {blocks : List BlockId} (h : blocks.Nodup) :
    (new blocks).Represents blocks := by
  refine ⟨?_, rfl, h⟩
  cases blocks with
  | nil => rfl
  | cons b rest =>
    have nodup := path_nodup h
    obtain ⟨front, last, e⟩ : ∃ front last, b :: rest = front ++ [last] :=
      ⟨_, _, (dropLast_append_getLast (cons_ne_nil b rest)).symm⟩
    have hl : (b :: rest).getLast? = some last := by rw [e]; simp
    have hm : (b :: rest).map Node.item = front.map Node.item ++ [Node.item last] := by
      rw [e]; simp
    have split : path (b :: rest) = (.head :: front.map Node.item) ++ [.item last, .tail] := by
      simp [path, hm]
    have join : (Node.head :: front.map Node.item) ++ [Node.item last] =
        .head :: (b :: rest).map Node.item := by rw [hm]; rfl
    have inner : ((b :: rest).map (Node.item : BlockId → Node BlockId)).Nodup := by
      refine nodup.sublist ?_
      simp [path]
    simp only [new, head?_cons, hl]
    apply Links.ext' <;> intro z
    · rw [Links.ofList, ofPath_next nodup, split, succ_concat (split ▸ nodup), join]
      simp only [Links.link, Links.setNext, Links.setPrev, update_apply,
        map_cons, succ]
      rw [← map_cons, ofPath_next inner]
    · rw [Links.ofList, ofPath_prev nodup, split, pred_concat (split ▸ nodup), join]
      simp only [Links.link, Links.setNext, Links.setPrev, update_apply,
        map_cons, pred]
      rw [← map_cons, ofPath_prev inner]

theorem popleft_ok {b : BlockId}
    (h : q.Represents (b :: l)) : ∃ q', q.popleft = .ok (b, q') ∧ q'.Represents l := by
  obtain ⟨second, r, e⟩ : ∃ second r, l.map Node.item ++ [Node.tail] = second :: r := by
    cases l <;> simp
  have old : path (b :: l) = [] ++ Node.head :: ([Node.item b] ++ second :: r) := by
    simp [path, ← e]
  have fresh : path l = [] ++ Node.head :: second :: r := by simp [path, ← e]
  have first : q.links.next .head = some (.item b) := by
    rw [h.next, old]
    simp [succ]
  have after : q.links.next (.item b) = some second := by
    rw [h.next, old]
    simp [succ]
  refine ⟨_, by simp only [popleft, first, after]; rfl, ?_⟩
  refine (h.cut old fresh (nodup_cons.mp h.nodup).2).congr ?_ rfl
  simp only [length_cons]
  omega

theorem popleftLoop_ok {c : Node BlockId} (xs : List BlockId) (links : Links BlockId)
    (first : Option (Node BlockId)) (nodup : xs.Nodup)
    (start : first = (xs.map Node.item ++ [c]).head?)
    (walk : ∀ z ∈ xs.map Node.item, links.next z = succ (xs.map .item ++ [c]) z) :
    popleftLoop xs.length first links = .ok (xs, some c, links.unlinkAll (xs.map .item)) := by
  induction xs generalizing links first with
  | nil =>
    subst start
    rfl
  | cons x xs ih =>
    subst start
    have hx := (nodup_cons.mp nodup).1
    have hnext : links.next (.item x) = (xs.map Node.item ++ [c]).head? := by
      rw [walk _ (by simp)]
      cases xs <;> simp [succ]
    have rest := ih (links.unlink (.item x)) (links.next (.item x)) (nodup_cons.mp nodup).2
      hnext (by
        intro z hz
        have hne : z ≠ .item x := by
          rintro rfl
          simp [hx] at hz
        have := walk z (by simp only [map_cons, mem_cons]; exact .inr hz)
        simp only [Links.unlink, Links.setNext, Links.setPrev, update_of_ne hne, this]
        cases xs with
        | nil => simp at hz
        | cons y ys => simp [succ, hne])
    simp only [length_cons, map_cons, cons_append, head?_cons, popleftLoop, rest]
    rfl

theorem popleftN_ok {xs l : List BlockId} (h : q.Represents (xs ++ l)) :
    ∃ q', q.popleftN xs.length = .ok (xs, q') ∧ q'.Represents l := by
  cases xs with
  | nil => exact ⟨q, by simp [popleftN], by simpa using h⟩
  | cons x xs =>
    obtain ⟨c, r, e⟩ : ∃ c r, l.map Node.item ++ [Node.tail] = c :: r := by
      cases l <;> simp
    have old : path (x :: xs ++ l) = [] ++ Node.head :: ((x :: xs).map Node.item ++ c :: r) := by
      simp [path, ← e]
    have fresh : path l = [] ++ Node.head :: c :: r := by simp [path, ← e]
    have whole := path_nodup h.nodup
    rw [old] at whole
    have nodup : (x :: xs).Nodup := (nodup_append.mp h.nodup).1
    have loop := popleftLoop_ok (c := c) (x :: xs) q.links (q.links.next .head) nodup
      (by rw [h.next, old]; simp [succ])
      (by
        intro z hz
        have hh : z ≠ .head := by
          rintro rfl
          simp at hz
        rw [h.next, old]
        have tailNodup := (nodup_cons.mp whole).2
        simp only [nil_append]
        have skip : succ (Node.head :: ((x :: xs).map Node.item ++ c :: r)) z =
            succ ((x :: xs).map Node.item ++ c :: r) z := by simp [succ, hh]
        rw [skip, succ_append tailNodup, if_pos hz])
    have enough : ((x :: xs).length : Int) ≤ q.numFreeBlocks := by
      rw [h.count, length_append]
      omega
    have apart : ∀ z ∈ (x :: xs).map (Node.item : BlockId → Node BlockId), z ≠ .head ∧ z ≠ c := by
      intro z hz
      refine ⟨by rintro rfl; simp at hz, ?_⟩
      rintro rfl
      exact (nodup_append.mp (nodup_cons.mp whole).2).2.2 z hz z (by simp) rfl
    refine ⟨⟨q.numFreeBlocks - (x :: xs).length,
      (q.links.unlinkAll ((x :: xs).map .item)).link .head c⟩, ?_, ?_⟩
    · simp only [popleftN, length_cons, Nat.succ_ne_zero, if_false]
      rw [length_cons] at loop enough
      simp only [pyAssert, enough, if_true, loop]
      rfl
    · refine (h.cut old fresh (nodup_append.mp h.nodup).2.1).congr ?_ ?_
      · simp only [cons_append, length_cons, length_append]
        omega
      · apply Links.ext' <;> intro z
        · simp only [unlinkAll_next, Links.link, Links.setNext, Links.setPrev]
          by_cases hz : z = .head
          · subst hz
            simp
          · simp only [update_of_ne hz, unlinkAll_next]
        · simp only [unlinkAll_prev, Links.link, Links.setNext, Links.setPrev]
          by_cases hz : z = c
          · subst hz
            have : z ∉ (x :: xs).map (Node.item : BlockId → Node BlockId) := fun hm =>
              (apart z hm).2 rfl
            simp only [update_self, this, if_false]
          · simp only [update_of_ne hz, unlinkAll_prev]

theorem remove_ok {b : BlockId} {l r : List BlockId} (h : q.Represents (l ++ b :: r)) :
    ∃ q', q.remove b = .ok q' ∧ q'.Represents (l ++ r) := by
  obtain ⟨p, x, hp⟩ : ∃ p x, Node.head :: l.map Node.item = p ++ [x] :=
    ⟨_, _, (dropLast_append_getLast (cons_ne_nil _ _)).symm⟩
  obtain ⟨y, t, ht⟩ : ∃ y t, r.map Node.item ++ [Node.tail] = y :: t := by
    cases r <;> simp
  have old : path (l ++ b :: r) = p ++ x :: ([Node.item b] ++ y :: t) := by
    rw [append_cons p x, ← hp, ← ht]
    simp [path]
  have fresh : path (l ++ r) = p ++ x :: y :: t := by
    rw [append_cons p x, ← hp, ← ht]
    simp [path]
  have nodup := path_nodup h.nodup
  rw [old] at nodup
  have before : q.links.prev (.item b) = some x := by
    rw [h.prev, old, pred_append nodup]
    simp [pred]
  have after : q.links.next (.item b) = some y := by
    rw [singleton_append, append_cons p x] at nodup
    rw [h.next, old, singleton_append, append_cons p x, succ_append nodup]
    have hb : Node.item b ∉ p ++ [x] := fun hm =>
      (nodup_append.mp nodup).2.2 _ hm _ (by simp) rfl
    simp [hb, succ]
  refine ⟨_, by simp only [remove, before, after]; rfl, ?_⟩
  refine (h.cut old fresh (h.nodup.sublist (by simp))).congr ?_ rfl
  simp only [length_append, length_cons]
  omega

theorem prependN_ok {blocks l : List BlockId} (h : q.Represents l) (nodup : (blocks ++ l).Nodup) :
    ∃ q', q.prependN blocks = .ok q' ∧ q'.Represents (blocks ++ l) := by
  by_cases hb : blocks.length = 0
  · rw [length_eq_zero_iff] at hb
    subst hb
    exact ⟨q, by simp [prependN], by simpa using h⟩
  · obtain ⟨first, r, e⟩ : ∃ first r, l.map Node.item ++ [Node.tail] = first :: r := by
      cases l <;> simp
    have old : path l = [] ++ Node.head :: first :: r := by simp [path, ← e]
    have fresh : path (blocks ++ l) = [] ++ Node.head :: (blocks.map Node.item ++ first :: r) := by
      simp [path, ← e]
    have hf : q.links.next .head = some first := by
      rw [h.next, old]
      simp [succ]
    refine ⟨_, by simp only [prependN, hb, if_false, hf]; rfl, ?_⟩
    rw [linkBlocks_eq]
    refine (h.splice old fresh nodup).congr ?_ rfl
    simp only [length_append]
    omega

theorem appendN_ok {blocks l : List BlockId} (h : q.Represents l) (nodup : (l ++ blocks).Nodup) :
    ∃ q', q.appendN blocks = .ok q' ∧ q'.Represents (l ++ blocks) := by
  by_cases hb : blocks.length = 0
  · rw [length_eq_zero_iff] at hb
    subst hb
    exact ⟨q, by simp [appendN], by simpa using h⟩
  · obtain ⟨p, last, hp⟩ : ∃ p last, Node.head :: l.map Node.item = p ++ [last] :=
      ⟨_, _, (dropLast_append_getLast (cons_ne_nil _ _)).symm⟩
    have old : path l = p ++ last :: Node.tail :: [] := by
      rw [append_cons p last, ← hp]
      rfl
    have fresh : path (l ++ blocks) = p ++ last :: (blocks.map Node.item ++ Node.tail :: []) := by
      rw [append_cons p last, ← hp]
      simp [path]
    have hl : q.links.prev .tail = some last := by
      have hn := path_nodup h.nodup
      rw [h.prev, old]
      rw [old] at hn
      rw [pred_append hn]
      simp [pred]
    refine ⟨_, by simp only [appendN, hb, if_false, hl]; rfl, ?_⟩
    rw [linkBlocks_eq]
    refine (h.splice old fresh nodup).congr ?_ rfl
    simp only [length_append]
    omega

theorem append_ok {b : BlockId} (h : q.Represents l) (nodup : (l ++ [b]).Nodup) :
    ∃ q', q.append b = .ok q' ∧ q'.Represents (l ++ [b]) := by
  have ⟨q', hq', rep⟩ := appendN_ok h nodup
  refine ⟨q', ?_, rep⟩
  simp only [appendN, length_singleton, Nat.one_ne_zero, if_false] at hq'
  rw [append]
  cases hlast : q.links.prev .tail with
  | none => simp [hlast] at hq'
  | some last => simpa [hlast, linkBlocks] using hq'

end FreeKVCacheBlockQueue

end VllmAmpere
