import Mathlib.Data.List.Chain
import VllmAmpere.FreeKVCacheBlockQueue

/-! Runs of the free block queue. A call on a queue that represents a list is the
corresponding call on the list, and so is a whole run; in between every walk over
the pointers spells the list. -/

open List

namespace VllmAmpere
open SentinelList

inductive QueueCall
  | popleft
  | popleftN (n : Nat)
  | remove (b : BlockId)
  | append (b : BlockId)
  | appendN (blocks : List BlockId)
  | prependN (blocks : List BlockId)
  deriving DecidableEq

namespace QueueCall

/-- What a call does to a plain list: the blocks it returns and the list it leaves. -/
def onList : QueueCall → List BlockId → Except PyError (List BlockId × List BlockId)
  | popleft, [] => .error (.value "No free blocks available")
  | popleft, b :: l => .ok ([b], l)
  | popleftN n, l =>
    if n ≤ l.length then .ok (l.take n, l.drop n)
    else .error (.assertion "self.num_free_blocks >= n")
  | remove b, l => .ok ([], l.erase b)
  | append b, l => .ok ([], l ++ [b])
  | appendN blocks, l => .ok ([], l ++ blocks)
  | prependN blocks, l => .ok ([], blocks ++ l)

/-- Inserted blocks are distinct and not in the list, removed blocks are in it. -/
def Admissible (l : List BlockId) : QueueCall → Prop
  | popleft => True
  | popleftN _ => True
  | remove b => b ∈ l
  | append b => b ∉ l
  | appendN blocks => blocks.Nodup ∧ blocks.Disjoint l
  | prependN blocks => blocks.Nodup ∧ blocks.Disjoint l

/-- The list after a call; a call that raises leaves it alone. -/
def leaves (l : List BlockId) (call : QueueCall) : List BlockId :=
  match call.onList l with
  | .ok (_, l') => l'
  | .error _ => l

/-- What each call of a run returns or raises, and the list after the run. -/
def runOnList : List BlockId → List QueueCall →
    List (Except PyError (List BlockId)) × List BlockId
  | l, [] => ([], l)
  | l, call :: calls =>
    let (outs, last) := runOnList (call.leaves l) calls
    ((call.onList l).map Prod.fst :: outs, last)

def AdmissibleRun : List BlockId → List QueueCall → Prop
  | _, [] => True
  | l, call :: calls => call.Admissible l ∧ AdmissibleRun (call.leaves l) calls

end QueueCall

namespace FreeKVCacheBlockQueue

def call (q : FreeKVCacheBlockQueue) :
    QueueCall → Except PyError (List BlockId × FreeKVCacheBlockQueue)
  | .popleft => do
    let (b, q) ← q.popleft
    .ok ([b], q)
  | .popleftN n => q.popleftN n
  | .remove b => do
    let q ← q.remove b
    .ok ([], q)
  | .append b => do
    let q ← q.append b
    .ok ([], q)
  | .appendN blocks => do
    let q ← q.appendN blocks
    .ok ([], q)
  | .prependN blocks => do
    let q ← q.prependN blocks
    .ok ([], q)

/-- The queue after a call; a check that raises comes before every write. -/
def leaves (q : FreeKVCacheBlockQueue) (call : QueueCall) : FreeKVCacheBlockQueue :=
  match q.call call with
  | .ok (_, q') => q'
  | .error _ => q

/-- What each call of a run returns or raises, and the queue after the run. -/
def runCalls : FreeKVCacheBlockQueue → List QueueCall →
    List (Except PyError (List BlockId)) × FreeKVCacheBlockQueue
  | q, [] => ([], q)
  | q, call :: calls =>
    let (outs, last) := runCalls (q.leaves call) calls
    ((q.call call).map Prod.fst :: outs, last)

/-- Walking the pointers of the queue gives the list, from either end and from
any block of it, and no other block has a pointer. -/
structure Spells (q : FreeKVCacheBlockQueue) (l : List BlockId) : Prop where
  forward : (path l).IsChain fun a b => q.links.next a = some b
  backward : (path l).reverse.IsChain fun a b => q.links.prev a = some b
  count : q.numFreeBlocks = l.length
  outside : ∀ b ∉ l, q.links.next (.item b) = none ∧ q.links.prev (.item b) = none
  all : ∀ fuel, l.length < fuel → q.getAllFreeBlocks fuel = .ok (some (l.map .item))
  iter : ∀ fuel, l.length < fuel → q.iterBlocksAfter fuel none = some (l.map .item)
  after : ∀ before c rest, l = before ++ c :: rest → ∀ fuel, rest.length < fuel →
    q.iterBlocksAfter fuel (some c) = some (rest.map .item)

section Walks

variable {q : FreeKVCacheBlockQueue} {l : List BlockId}

theorem Represents.forward (h : q.Represents l) :
    (path l).IsChain fun a b => q.links.next a = some b := by
  rw [isChain_iff_forall_rel_of_append_cons_cons]
  intro a b before after e
  have nodup := path_nodup h.nodup
  rw [e] at nodup
  have ha : a ∉ before := fun hm => (nodup_append.mp nodup).2.2 a hm a (by simp) rfl
  rw [h.next, e, succ_append nodup, if_neg ha]
  simp [succ]

theorem Represents.backward (h : q.Represents l) :
    (path l).reverse.IsChain fun a b => q.links.prev a = some b := by
  rw [isChain_reverse, isChain_iff_forall_rel_of_append_cons_cons]
  intro a b before after e
  have nodup := path_nodup h.nodup
  rw [e] at nodup
  have hb : b ∉ after := (nodup_cons.mp (nodup_cons.mp
    (nodup_append.mp nodup).2.1).2).1
  rw [h.prev, e]
  rw [append_cons] at nodup ⊢
  rw [pred_append nodup, if_neg hb, append_assoc]
  rw [append_assoc] at nodup
  exact (pred_concat (nodup.sublist (by simp))).trans (if_pos rfl)

theorem Represents.outside (h : q.Represents l) {b : BlockId} (hb : b ∉ l) :
    q.links.next (.item b) = none ∧ q.links.prev (.item b) = none := by
  have off : Node.item b ∉ path l := by simpa [path] using hb
  exact ⟨(h.next _).trans (succ_eq_none off), (h.prev _).trans (pred_eq_none off)⟩

theorem Represents.next_item {before rest : List BlockId} {c : BlockId}
    (h : q.Represents (before ++ c :: rest)) :
    q.links.next (.item c) = (rest.map Node.item ++ [Node.tail]).head? := by
  have nodup := path_nodup h.nodup
  have split : path (before ++ c :: rest) =
      (.head :: before.map .item) ++ .item c :: (rest.map .item ++ [.tail]) := by simp [path]
  rw [split] at nodup
  have hc : Node.item c ∉ Node.head :: before.map Node.item := fun hm =>
    (nodup_append.mp nodup).2.2 _ hm _ (by simp) rfl
  rw [h.next, split, succ_append nodup, if_neg hc]
  cases rest <;> simp [succ]

theorem Represents.next_head (h : q.Represents l) :
    q.links.next .head = (l.map Node.item ++ [Node.tail]).head? := by
  rw [h.next]
  cases l <;> simp [path, succ]

theorem Represents.iterFrom_ok (before : List BlockId) {rest : List BlockId} (h : q.Represents (before ++ rest))
    {fuel : Nat} (enough : rest.length < fuel) :
    iterFrom q.links fuel (rest.map Node.item ++ [Node.tail]).head? =
    some (rest.map Node.item) := by
  induction rest generalizing before fuel with
  | nil =>
    cases fuel with
    | zero => simp at enough
    | succ fuel => rfl
  | cons c rest ih =>
    cases fuel with
    | zero => simp at enough
    | succ fuel =>
      have later := ih (before ++ [c]) (by simpa using h)
        (Nat.lt_of_succ_lt_succ enough)
      rw [map_cons, cons_append, head?_cons, iterFrom, h.next_item, later]
      · rfl
      · intro e
        cases e

theorem Represents.collectFrom_ok (before : List BlockId) {rest : List BlockId}
    {first : Node BlockId} (h : q.Represents (before ++ rest)) {fuel : Nat} (enough : rest.length < fuel)
    (start : (rest.map Node.item ++ [Node.tail]).head? = some first) :
    collectFrom q.links fuel first = some (rest.map Node.item) := by
  induction rest generalizing before fuel first with
  | nil =>
    cases fuel with
    | zero => simp at enough
    | succ fuel =>
      have stop : q.links.next .tail = none := by
        rw [h.next, path, succ_last (by simpa [path] using path_nodup h.nodup)]
      simp only [map_nil, nil_append, head?_cons, Option.some.injEq] at start
      rw [← start, collectFrom, stop]
      rfl
  | cons c rest ih =>
    cases fuel with
    | zero => simp at enough
    | succ fuel =>
      obtain ⟨second, hsecond⟩ : ∃ second, (rest.map Node.item ++ [Node.tail]).head? = some second := by
        cases rest <;> simp
      have later := ih (before ++ [c]) (by simpa using h)
        (Nat.lt_of_succ_lt_succ enough) hsecond
      simp only [map_cons, cons_append, head?_cons, Option.some.injEq] at start
      rw [← start, collectFrom, h.next_item, hsecond]
      simp only [later]
      rfl

theorem Represents.spells (h : q.Represents l) : q.Spells l where
  forward := h.forward
  backward := h.backward
  count := h.count
  outside _ := h.outside
  all fuel enough := by
    have ⟨first, start⟩ : ∃ first, (l.map Node.item ++ [Node.tail]).head? = some first := by
      cases l <;> simp
    rw [getAllFreeBlocks, h.next_head, start]
    exact congrArg Except.ok (Represents.collectFrom_ok [] h enough start)
  iter fuel enough := by
    rw [iterBlocksAfter, h.next_head]
    exact Represents.iterFrom_ok [] h enough
  after before c rest e fuel enough := by
    subst e
    rw [iterBlocksAfter, h.next_item]
    exact Represents.iterFrom_ok (before ++ [c]) (by simpa using h) enough

end Walks

section Calls

variable {q : FreeKVCacheBlockQueue} {l : List BlockId}

theorem Represents.popleft_empty (h : q.Represents []) :
    q.popleft = .error (.value "No free blocks available") := by
  have count : q.numFreeBlocks = 0 := h.count
  have first : q.links.next .head = some .tail := h.next_head
  simp [popleft, first, count]

theorem Represents.popleftN_short (h : q.Represents l) {n : Nat} (hn : l.length < n) :
    q.popleftN n = .error (.assertion "self.num_free_blocks >= n") := by
  have positive : n ≠ 0 := by omega
  have short : ¬(n : Int) ≤ q.numFreeBlocks := by
    rw [h.count]
    omega
  rw [popleftN, if_neg positive, pyAssert, if_neg short]
  rfl

theorem Represents.call_eq (h : q.Represents l) (c : QueueCall) (admissible : c.Admissible l) :
    (q.call c).map Prod.fst = (c.onList l).map Prod.fst ∧ (q.leaves c).Represents (c.leaves l) := by
  have done : ∀ {out q' l'}, q.call c = .ok (out, q') → c.onList l = .ok (out, l') →
      q'.Represents l' → (q.call c).map Prod.fst = (c.onList l).map Prod.fst ∧
        (q.leaves c).Represents (c.leaves l) := by
    intro out q' l' hq hl rep
    simp only [leaves, QueueCall.leaves, hq, hl]
    exact ⟨rfl, rep⟩
  have raised : ∀ {e}, q.call c = .error e → c.onList l = .error e →
      (q.call c).map Prod.fst = (c.onList l).map Prod.fst ∧
        (q.leaves c).Represents (c.leaves l) := by
    intro e hq hl
    simp only [leaves, QueueCall.leaves, hq, hl]
    exact ⟨rfl, h⟩
  cases c with
  | popleft =>
    cases l with
    | nil => exact raised (by rw [call, h.popleft_empty]; rfl) rfl
    | cons b l =>
      have ⟨q', hq', rep⟩ := popleft_ok h
      exact done (by rw [call, hq']; rfl) rfl rep
  | popleftN n =>
    by_cases hn : n ≤ l.length
    · have whole : q.Represents (l.take n ++ l.drop n) := by rwa [take_append_drop]
      have ⟨q', hq', rep⟩ := popleftN_ok whole
      rw [length_take_of_le hn] at hq'
      exact done hq' (if_pos hn) rep
    · exact raised (h.popleftN_short (by omega)) (if_neg hn)
  | remove b =>
    have ⟨before, rest, _, hl, he⟩ := exists_erase_eq (a := b) (l := l) admissible
    have ⟨q', hq', rep⟩ := remove_ok (b := b) (hl ▸ h)
    exact done (by rw [call, hq']; rfl) rfl (he ▸ rep)
  | append b =>
    have nodup : (l ++ [b]).Nodup := by
      have apart : b ∉ l := admissible
      exact h.nodup.append (nodup_singleton b) (by simpa using apart)
    have ⟨q', hq', rep⟩ := append_ok h nodup
    exact done (by rw [call, hq']; rfl) rfl rep
  | appendN blocks =>
    have nodup : (l ++ blocks).Nodup := h.nodup.append admissible.1 fun _ hl hb => admissible.2 hb hl
    have ⟨q', hq', rep⟩ := appendN_ok h nodup
    exact done (by rw [call, hq']; rfl) rfl rep
  | prependN blocks =>
    have nodup : (blocks ++ l).Nodup := admissible.1.append h.nodup admissible.2
    have ⟨q', hq', rep⟩ := prependN_ok h nodup
    exact done (by rw [call, hq']; rfl) rfl rep

theorem Represents.runCalls_eq (h : q.Represents l) (calls : List QueueCall)
    (admissible : QueueCall.AdmissibleRun l calls) :
    (q.runCalls calls).1 = (QueueCall.runOnList l calls).1 ∧
    (q.runCalls calls).2.Represents (QueueCall.runOnList l calls).2 := by
  induction calls generalizing q l with
  | nil => exact ⟨rfl, h⟩
  | cons c calls ih =>
    have ⟨out, rep⟩ := h.call_eq c admissible.1
    have ⟨outs, last⟩ := ih rep admissible.2
    exact ⟨congrArg₂ List.cons out outs, last⟩

end Calls

/-- The free block queue refines a plain list over every admissible run. -/
theorem runs_refine_list (blocks : List BlockId) (distinct : blocks.Nodup)
    (calls : List QueueCall) (admissible : QueueCall.AdmissibleRun blocks calls) :
    ((new blocks).runCalls calls).1 = (QueueCall.runOnList blocks calls).1 ∧
    ((new blocks).runCalls calls).2.Spells (QueueCall.runOnList blocks calls).2 := by
  have ⟨outs, rep⟩ := (new_represents distinct).runCalls_eq calls admissible
  exact ⟨outs, rep.spells⟩

/-- Four blocks, popped, removed and put back at either end. -/
theorem runs_refine_list_mixed :
    ((new [0, 1, 2, 3]).runCalls [.popleft, .remove 2, .append 0, .popleftN 2, .prependN [2, 1],
    .appendN [3], .popleftN 5]).1 = [.ok [0], .ok [], .ok [], .ok [1, 3], .ok [], .ok [],
    .error (.assertion "self.num_free_blocks >= n")] ∧
    ((new [0, 1, 2, 3]).runCalls [.popleft, .remove 2, .append 0, .popleftN 2, .prependN [2, 1],
    .appendN [3], .popleftN 5]).2.Spells [2, 1, 0, 3] :=
  runs_refine_list [0, 1, 2, 3] (by decide) [.popleft, .remove 2, .append 0, .popleftN 2,
    .prependN [2, 1], .appendN [3], .popleftN 5]
    (by simp [QueueCall.AdmissibleRun, QueueCall.Admissible, QueueCall.leaves, QueueCall.onList,
      List.Disjoint])

end FreeKVCacheBlockQueue

end VllmAmpere
