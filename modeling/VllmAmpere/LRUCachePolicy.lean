import Mathlib.Data.Prod.Lex
import VllmAmpere.CPUOffloadingRuns
import VllmAmpere.Heapq

/-! The LRU policy of the CPU offload cache: ranks given at each use, and a heap of the
evictable keys whose entries are left behind when they go stale. -/

open List

namespace VllmAmpere.KVOffload

/-- An order in which a set yields its members, which are kept as they were added. -/
structure KeyOrder (K : Type) where
  order : List K → List K
  perm : ∀ keys, (order keys).Perm keys

def KeyOrder.inserted {K : Type} : KeyOrder K := ⟨id, fun _ => .refl _⟩

structure LRUCachePolicy (K : Type) where
  chunks : PyDict K ChunkStatus
  ranks : PyDict K Nat
  evictable : List K
  heap : List (Nat × K)
  nextRank : Nat

namespace LRUCachePolicy

def new {K : Type} : LRUCachePolicy K := ⟨PyDict.empty, PyDict.empty, [], [], 0⟩

/-- The entries of the heap are compared as tuples. -/
abbrev entryKey {K : Type} (entry : Nat × K) : Lex (Nat × K) := toLex entry

section

variable {K : Type} [LinearOrder K]

/-- Gives a key the next rank, and says whether it is evictable. -/
def assignNewRank (key : K) (s : LRUCachePolicy K) : Bool × LRUCachePolicy K :=
  if (s.chunks.get? key).isNone then (false, s)
  else
    (decide (key ∈ s.evictable),
      { s with nextRank := s.nextRank + 1, ranks := s.ranks.set key (s.nextRank + 1) })

def pushEvictable (key : K) : PyM (LRUCachePolicy K) Unit := do
  let s ← PyM.get
  let rank ← PyM.lift (s.ranks.getItem key)
  PyM.set { s with heap := Heapq.heappush entryKey s.heap (rank, key) }

def IsCurrent (s : LRUCachePolicy K) (entry : Nat × K) : Prop :=
  entry.2 ∈ s.evictable ∧ s.ranks.get? entry.2 = some entry.1

instance instDecidableIsCurrent (s : LRUCachePolicy K) (entry : Nat × K) :
    Decidable (IsCurrent s entry) :=
  inferInstanceAs (Decidable (_ ∧ _))

/-- `[(self._ranks[key], key) for key in keys]`. -/
def entriesOf (ranks : PyDict K Nat) : List K → Except PyError (List (Nat × K))
  | [] => .ok []
  | key :: keys => do
    let rank ← ranks.getItem key
    let entries ← entriesOf ranks keys
    .ok ((rank, key) :: entries)

variable (order : KeyOrder K)

def rebuildHeap : PyM (LRUCachePolicy K) Unit := do
  let s ← PyM.get
  let entries ← PyM.lift (entriesOf s.ranks (order.order s.evictable))
  PyM.set { s with heap := Heapq.heapify entryKey entries }

def maybeCompactHeap : PyM (LRUCachePolicy K) Unit := do
  let s ← PyM.get
  if s.heap.length < max 64 (2 * s.evictable.length) then pure ()
  else rebuildHeap order

/-- New ranks for the keys in turn, and those of them that are evictable. -/
def assignNewRanks : List K → LRUCachePolicy K → List K × LRUCachePolicy K
  | [], s => ([], s)
  | key :: keys, s =>
    let (evictable, s) := assignNewRank key s
    let (updated, s) := assignNewRanks keys s
    (if evictable then key :: updated else updated, s)

def updateRecency (keys : List K) : PyM (LRUCachePolicy K) Unit := do
  let updatedEvictable ← PyM.update (assignNewRanks keys)
  let s ← PyM.get
  if updatedEvictable.length ≥ max 64 (s.evictable.length / 4) then rebuildHeap order
  else do
    PyM.forEach pushEvictable updatedEvictable
    maybeCompactHeap order

def get (s : LRUCachePolicy K) (key : K) : Option ChunkStatus := s.chunks.get? key

def setRefCnt (key : K) (refCnt : Int32) (s : LRUCachePolicy K) : LRUCachePolicy K :=
  match s.chunks.get? key with
  | some chunk => { s with chunks := s.chunks.set key { chunk with refCnt := refCnt } }
  | none => s

def addEvictable (key : K) (s : LRUCachePolicy K) : LRUCachePolicy K :=
  { s with evictable := if key ∈ s.evictable then s.evictable else s.evictable ++ [key] }

def insert (key : K) (chunk : ChunkStatus) : PyM (LRUCachePolicy K) Unit := do
  PyM.modify fun s => { s with
    chunks := s.chunks.set key chunk
    nextRank := s.nextRank + 1
    ranks := s.ranks.set key (s.nextRank + 1) }
  if chunk.refCnt = 0 then do
    PyM.modify (addEvictable key)
    pushEvictable key

def remove (key : K) : PyM (LRUCachePolicy K) Unit := do
  let s ← PyM.get
  let _ ← PyM.lift (s.chunks.getItem key)
  PyM.set { s with
    chunks := s.chunks.pop key
    ranks := s.ranks.pop key
    evictable := s.evictable.erase key }

def touch (keys : List K) : PyM (LRUCachePolicy K) Unit := updateRecency order keys.reverse

def onRequestFinished (keyGroups : List (List K)) (position : K → Option Int) :
    PyM (LRUCachePolicy K) Unit :=
  updateRecency order (orderRequestKeys keyGroups position).reverse

def clear (_ : LRUCachePolicy K) : LRUCachePolicy K := new

/-- The selection of `evict`: entries are popped until enough are selected. The keys selected
are in `selectedKeys`, the entries of protected keys in `deferred`. -/
def selectEntries (n : Nat) (protectedKeys : List K) :
    Nat → List ((Nat × K) × ChunkStatus) → List K → List (Nat × K) →
      PyM (LRUCachePolicy K) (List ((Nat × K) × ChunkStatus) × List (Nat × K))
  | 0, selected, _, deferred => pure (selected, deferred)
  | fuel + 1, selected, selectedKeys, deferred => do
    let s ← PyM.get
    if selected.length < n then
      match Heapq.heappop entryKey s.heap with
      | none => pure (selected, deferred)
      | some (entry, heap) => do
        PyM.set { s with heap := heap }
        if ¬IsCurrent s entry then selectEntries n protectedKeys fuel selected selectedKeys deferred
        else if entry.2 ∈ selectedKeys then
          selectEntries n protectedKeys fuel selected selectedKeys deferred
        else if entry.2 ∈ protectedKeys then
          selectEntries n protectedKeys fuel selected selectedKeys (deferred ++ [entry])
        else do
          let chunk ← PyM.lift (s.chunks.getItem entry.2)
          PyM.lift (pyAssert (chunk.refCnt = 0) "")
          selectEntries n protectedKeys fuel (selected ++ [(entry, chunk)])
            (selectedKeys ++ [entry.2]) deferred
    else pure (selected, deferred)

def pushEntry (entry : Nat × K) (s : LRUCachePolicy K) : LRUCachePolicy K :=
  { s with heap := Heapq.heappush entryKey s.heap entry }

def removeEvictable (key : K) : PyM (LRUCachePolicy K) Unit := do
  let s ← PyM.get
  if key ∈ s.evictable then PyM.set { s with evictable := s.evictable.erase key }
  else PyM.lift (.error .key)

def dropKey (key : K) : PyM (LRUCachePolicy K) Unit := do
  removeEvictable key
  let s ← PyM.get
  let _ ← PyM.lift (s.chunks.getItem key)
  PyM.set { s with chunks := s.chunks.pop key }
  let s ← PyM.get
  let _ ← PyM.lift (s.ranks.getItem key)
  PyM.set { s with ranks := s.ranks.pop key }

def evict (n : Nat) (protectedKeys : List K) :
    PyM (LRUCachePolicy K) (Option (List (K × ChunkStatus))) := do
  if n = 0 then pure (some [])
  else do
    let s ← PyM.get
    let (selected, deferred) ← selectEntries n protectedKeys s.heap.length [] [] []
    if selected.length < n then do
      PyM.forEach (fun item => PyM.modify (pushEntry item.1)) selected
      PyM.forEach (fun entry => PyM.modify (pushEntry entry)) deferred
      pure none
    else do
      PyM.forEach (fun entry => PyM.modify (pushEntry entry)) deferred
      PyM.forEach (fun item => dropKey item.1.2) selected
      maybeCompactHeap order
      pure (some (selected.map fun item => (item.1.2, item.2)))

def markEvictable (key : K) : PyM (LRUCachePolicy K) Unit := do
  PyM.modify (addEvictable key)
  pushEvictable key
  maybeCompactHeap order

def markNonEvictable (key : K) : PyM (LRUCachePolicy K) Unit := removeEvictable key

/-- The methods of the policy, where sets yield their members in `order`. -/
def policy : CachePolicy K (LRUCachePolicy K) where
  get := get
  setRefCnt := setRefCnt
  insert := insert
  remove := remove
  touch := touch order
  onStoreMiss := touch order
  onRequestFinished keyGroups _ _ position := onRequestFinished order keyGroups position
  evict := evict order
  clear := clear
  markEvictable := markEvictable order
  markNonEvictable := markNonEvictable

end

end LRUCachePolicy

end VllmAmpere.KVOffload

/-! The invariant of the LRU policy: each evictable key has an entry of its current rank in
the heap, through every use, rebuild and compaction. -/

namespace VllmAmpere.KVOffload.LRUCachePolicy

variable {K : Type} [LinearOrder K] (s : LRUCachePolicy K)

def rankOf (key : K) : Nat := (s.ranks.get? key).getD 0

def entryOf (key : K) : Nat × K := (s.rankOf key, key)

/-- The ranks and the evictable keys fit the chunks. -/
structure Ranked (s : LRUCachePolicy K) : Prop where
  ranked : ∀ key, (s.ranks.get? key).isSome = (s.chunks.get? key).isSome
  distinct : s.evictable.Nodup
  idle : ∀ key, key ∈ s.evictable ↔ ∃ chunk, s.chunks.get? key = some chunk ∧ chunk.refCnt = 0
  injective : ∀ key key' rank,
    s.ranks.get? key = some rank → s.ranks.get? key' = some rank → key = key'
  bounded : ∀ key rank, s.ranks.get? key = some rank → rank ≤ s.nextRank

def Covered : Prop := ∀ key ∈ s.evictable, s.entryOf key ∈ s.heap

structure Inv (s : LRUCachePolicy K) : Prop extends Ranked s where
  heap : Heapq.IsHeap entryKey s.heap
  covered : Covered s

variable {s : LRUCachePolicy K}

theorem Ranked.rank_of_chunk (h : Ranked s) {key : K} {chunk : ChunkStatus}
    (found : s.chunks.get? key = some chunk) : s.ranks.get? key = some (s.rankOf key) := by
  have some := h.ranked key
  rw [found, Option.isSome_some] at some
  obtain ⟨rank, hrank⟩ := Option.isSome_iff_exists.mp some
  rw [rankOf, hrank, Option.getD_some]

theorem Ranked.rank (h : Ranked s) {key : K} (hkey : key ∈ s.evictable) :
    s.ranks.get? key = some (s.rankOf key) := by
  obtain ⟨chunk, found, _⟩ := (h.idle key).mp hkey
  exact h.rank_of_chunk found

theorem Ranked.rankOf_inj (h : Ranked s) {key key' : K} (hkey : key ∈ s.evictable)
    (hkey' : key' ∈ s.evictable) (same : s.rankOf key = s.rankOf key') : key = key' :=
  h.injective key key' (s.rankOf key) (h.rank hkey) (same ▸ h.rank hkey')

theorem Ranked.with_heap (h : Ranked s) (heap : List (Nat × K)) : Ranked { s with heap := heap } :=
  ⟨h.ranked, h.distinct, h.idle, h.injective, h.bounded⟩

theorem entriesOf_eq {ranks : PyDict K Nat} {keys : List K}
    (all : ∀ key ∈ keys, (ranks.get? key).isSome) :
    entriesOf ranks keys = .ok (keys.map fun key => ((ranks.get? key).getD 0, key)) := by
  induction keys with
  | nil => rfl
  | cons key keys ih =>
    obtain ⟨rank, hrank⟩ := Option.isSome_iff_exists.mp (all key mem_cons_self)
    rw [entriesOf, PyDict.getItem_ok.mpr hrank,
      ih fun key hkey => all key (mem_cons_of_mem _ hkey), map_cons, hrank]
    rfl

variable (order : KeyOrder K)

theorem rebuildHeap_run (h : Ranked s) : ∃ heap,
    (rebuildHeap order).run s = (.ok (), { s with heap := heap }) ∧
      Inv { s with heap := heap } := by
  have all : ∀ key ∈ order.order s.evictable, (s.ranks.get? key).isSome := by
    intro key hkey
    rw [h.rank ((order.perm s.evictable).mem_iff.mp hkey), Option.isSome_some]
  refine ⟨Heapq.heapify entryKey ((order.order s.evictable).map s.entryOf), ?_,
    h.with_heap _, Heapq.heapify_isHeap _, fun key hkey => ?_⟩
  · unfold rebuildHeap
    rw [PyM.run_get_bind, entriesOf_eq all, PyM.run_lift_ok_bind]
    rfl
  · refine (Heapq.heapify_perm _).mem_iff.mpr (mem_map.mpr ⟨key, ?_, rfl⟩)
    exact (order.perm s.evictable).mem_iff.mpr hkey

theorem maybeCompactHeap_run (h : Inv s) : ∃ heap,
    (maybeCompactHeap order).run s = (.ok (), { s with heap := heap }) ∧
      Inv { s with heap := heap } := by
  unfold maybeCompactHeap
  rw [PyM.run_get_bind]
  split
  · exact ⟨s.heap, rfl, h⟩
  · exact rebuildHeap_run order h.toRanked

theorem pushEvictable_run {key : K} (some : (s.ranks.get? key).isSome) : (pushEvictable key).run s =
    (.ok (), { s with heap := Heapq.heappush entryKey s.heap (s.entryOf key) }) := by
  obtain ⟨rank, hrank⟩ := Option.isSome_iff_exists.mp some
  unfold pushEvictable
  rw [PyM.run_get_bind, PyDict.getItem_ok.mpr hrank, PyM.run_lift_ok_bind, entryOf, rankOf, hrank]
  rfl

theorem mem_heappush {heap : List (Nat × K)} {entry item : Nat × K} :
    item ∈ Heapq.heappush entryKey heap entry ↔ item = entry ∨ item ∈ heap := by
  rw [(Heapq.heappush_perm heap entry).mem_iff, mem_cons]

theorem pushEvictables_run {keys : List K} (some : ∀ key ∈ keys, (s.ranks.get? key).isSome)
    (isHeap : Heapq.IsHeap entryKey s.heap) : ∃ heap,
      (PyM.forEach pushEvictable keys).run s = (.ok (), { s with heap := heap }) ∧
        Heapq.IsHeap entryKey heap ∧
        ∀ entry, entry ∈ heap ↔ entry ∈ s.heap ∨ entry ∈ keys.map s.entryOf := by
  induction keys generalizing s with
  | nil => exact ⟨s.heap, rfl, isHeap, fun entry => by simp⟩
  | cons key keys ih =>
    have first := pushEvictable_run (some key mem_cons_self)
    obtain ⟨heap, ran, isHeap', mem⟩ :=
      ih (s := { s with heap := Heapq.heappush entryKey s.heap (s.entryOf key) })
        (fun key hkey => some key (mem_cons_of_mem _ hkey))
        (Heapq.heappush_isHeap isHeap _)
    refine ⟨heap, ?_, isHeap', fun entry => ?_⟩
    · rw [PyM.forEach, PyM.run_bind, first]
      exact ran
    · rw [mem, mem_heappush, map_cons, mem_cons, or_comm (a := entry = _), or_assoc]
      rfl

/-- What a new rank changes. -/
structure Rerank (s s' : LRUCachePolicy K) (updated : List K) : Prop where
  ranked : Ranked s'
  chunks : s'.chunks = s.chunks
  evictable : s'.evictable = s.evictable
  heap : s'.heap = s.heap
  subset : ∀ key ∈ updated, key ∈ s.evictable
  others : ∀ key ∈ s.evictable, key ∉ updated → s'.ranks.get? key = s.ranks.get? key

theorem Ranked.assign (h : Ranked s) {key : K} (some : (s.chunks.get? key).isSome) :
    Ranked { s with nextRank := s.nextRank + 1, ranks := s.ranks.set key (s.nextRank + 1) } := by
  have new : ∀ key' rank, s.ranks.get? key' = Option.some rank → rank ≠ s.nextRank + 1 := by
    intro key' rank found
    have := h.bounded key' rank found
    omega
  refine ⟨fun key' => ?_, h.distinct, h.idle, ?_, ?_⟩
  · dsimp only
    rw [PyDict.get?_set]
    split
    next same => rw [same, some, Option.isSome_some]
    · exact h.ranked key'
  · intro key' key'' rank first second
    dsimp only at first second
    rw [PyDict.get?_set] at first second
    split at first
    next same =>
      split at second
      next same' => rw [same, same']
      next => exact absurd (Option.some.inj first).symm (new key'' rank second)
    next =>
      split at second
      next => exact absurd (Option.some.inj second).symm (new key' rank first)
      next => exact h.injective key' key'' rank first second
  · intro key' rank found
    dsimp only at found ⊢
    rw [PyDict.get?_set] at found
    split at found
    · exact (Option.some.inj found).symm.le
    · exact (h.bounded key' rank found).trans (Nat.le_succ _)

theorem assignNewRanks_rerank (keys : List K) (h : Ranked s) :
    Rerank s (assignNewRanks keys s).2 (assignNewRanks keys s).1 := by
  induction keys generalizing s with
  | nil => exact ⟨h, rfl, rfl, rfl, by simp [assignNewRanks], fun _ _ _ => rfl⟩
  | cons key keys ih =>
    rw [assignNewRanks, assignNewRank]
    by_cases missing : (s.chunks.get? key).isNone
    · rw [if_pos missing]
      exact ih h
    · rw [if_neg missing]
      have found : (s.chunks.get? key).isSome :=
        Option.isSome_iff_ne_none.mpr (by simpa using missing)
      have after := ih (h.assign found)
      refine ⟨after.ranked, after.chunks, after.evictable, after.heap, fun k hk => ?_,
        fun k hk apart => ?_⟩
      · dsimp only at hk
        split at hk
        next evictable =>
          cases mem_cons.mp hk with
          | inl same => exact same ▸ of_decide_eq_true evictable
          | inr rest => exact after.subset k rest
        next => exact after.subset k hk
      · dsimp only at apart ⊢
        by_cases evictable : key ∈ s.evictable
        · rw [decide_eq_true evictable, if_pos rfl, mem_cons, not_or] at apart
          rw [after.others k hk apart.2]
          dsimp only
          rw [PyDict.get?_set, if_neg apart.1]
        · have ne : k ≠ key := fun same => evictable (same ▸ hk)
          rw [decide_eq_false evictable, if_neg (by simp)] at apart
          rw [after.others k hk apart]
          dsimp only
          rw [PyDict.get?_set, if_neg ne]

theorem updateRecency_run (h : Inv s) (keys : List K) : ∃ s',
    (updateRecency order keys).run s = (.ok (), s') ∧ Inv s' ∧ s'.chunks = s.chunks ∧
    s'.evictable = s.evictable := by
  have reranked := assignNewRanks_rerank keys h.toRanked
  unfold updateRecency
  rw [PyM.run_update_bind, PyM.run_get_bind]
  generalize (assignNewRanks keys s).2 = t at reranked ⊢
  generalize (assignNewRanks keys s).1 = updated at reranked ⊢
  split
  · obtain ⟨heap, ran, inv⟩ := rebuildHeap_run order reranked.ranked
    exact ⟨_, ran, inv, reranked.chunks, reranked.evictable⟩
  · have some : ∀ key ∈ updated, (t.ranks.get? key).isSome := by
      intro key hkey
      have inside := reranked.evictable ▸ reranked.subset key hkey
      rw [reranked.ranked.rank inside, Option.isSome_some]
    obtain ⟨heap, pushed, isHeap, mem⟩ := pushEvictables_run some (reranked.heap ▸ h.heap)
    have inv : Inv { t with heap := heap } := by
      refine ⟨reranked.ranked.with_heap heap, isHeap, fun key hkey => (mem _).mpr ?_⟩
      by_cases new : key ∈ updated
      · exact .inr (mem_map_of_mem new)
      · refine .inl ?_
        have old : key ∈ s.evictable := reranked.evictable ▸ hkey
        rw [reranked.heap, entryOf, rankOf, reranked.others key old new]
        exact h.covered key old
    obtain ⟨heap', ran, inv'⟩ := maybeCompactHeap_run order inv
    refine ⟨_, ?_, inv', reranked.chunks, reranked.evictable⟩
    rw [PyM.run_bind, pushed]
    exact ran

def evictionOrder (s : LRUCachePolicy K) (protectedKeys : List K) : List K :=
  (s.evictable.filter fun key => key ∉ protectedKeys).mergeSort
    fun key key' => s.rankOf key ≤ s.rankOf key'

end VllmAmpere.KVOffload.LRUCachePolicy
