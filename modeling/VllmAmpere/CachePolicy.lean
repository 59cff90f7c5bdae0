import VllmAmpere.PyCalls
import VllmAmpere.PyDict

/-! The replacement policies of the CPU offload cache, as the manager sees them: the chunks
they hold, their operations, and what a manager may rely on. -/

namespace VllmAmpere.KVOffload

/-- A chunk of KV data: the transfers that read it, or -1 while it is not ready, and its slot
of the buffer. The count is a `c_int32`. -/
structure ChunkStatus where
  refCnt : Int32
  chunkId : Nat
  deriving DecidableEq, Repr

namespace ChunkStatus

def new (chunkId : Nat) : ChunkStatus := ⟨-1, chunkId⟩

def IsReady (chunk : ChunkStatus) : Prop := 0 ≤ chunk.refCnt

instance instDecidableIsReady (chunk : ChunkStatus) : Decidable chunk.IsReady :=
  inferInstanceAs (Decidable (0 ≤ chunk.refCnt))

theorem new_not_ready (chunkId : Nat) : ¬(new chunkId).IsReady := by
  change ¬(0 : Int32) ≤ -1
  decide

theorem refCnt_ne_zero {chunk : ChunkStatus} (h : ¬chunk.IsReady) : chunk.refCnt ≠ 0 := by
  intro e
  unfold IsReady at h
  rw [e] at h
  exact h (by decide)

theorem refCnt_succ_ne_zero {chunk : ChunkStatus} (h : chunk.IsReady) : chunk.refCnt + 1 ≠ 0 := by
  intro e
  have minus : chunk.refCnt = -1 := by grind
  unfold IsReady at h
  rw [minus] at h
  exact absurd h (by decide)

theorem refCnt_ne_zero_of_pos {chunk : ChunkStatus} (h : 0 < chunk.refCnt) : chunk.refCnt ≠ 0 := by
  intro e
  rw [e] at h
  exact absurd h (by decide)

end ChunkStatus

/-- A policy: its methods, over its own state. `setRefCnt` assigns to the count of the chunk
that `get` returns. The request contexts are left out but for the key positions they have. -/
structure CachePolicy (K P : Type) where
  get : P → K → Option ChunkStatus
  setRefCnt : K → Int32 → P → P
  insert : K → ChunkStatus → PyM P Unit
  remove : K → PyM P Unit
  touch : List K → PyM P Unit
  onStoreMiss : List K → PyM P Unit
  onRequestFinished (keyGroups : List (List K)) (insertionOnlyKeys reusedKeys : List K)
    (position : K → Option Int) : PyM P Unit
  evict (n : Nat) (protectedKeys : List K) : PyM P (Option (List (K × ChunkStatus)))
  clear : P → P
  markEvictable : K → PyM P Unit
  markNonEvictable : K → PyM P Unit

section

variable {K : Type} [DecidableEq K]

/-- The positions a request context has for `keys`. -/
def keyPositions (position : K → Option Int) (keys : List K) : PyDict K Int :=
  keys.foldl (fun positions key => match position key with
    | some p => positions.set key p
    | none => positions) PyDict.empty

/-- Keys in the order of their positions, when each key is there once and has one. -/
def sortByPosition (position : K → Option Int) (keys : List K) : List K :=
  let positions := keyPositions position keys
  if positions.len = keys.length then
    keys.mergeSort fun a b => (positions.get? a).getD 0 ≤ (positions.get? b).getD 0
  else keys

def orderRequestKeys (keyGroups : List (List K)) (position : K → Option Int) : List K :=
  sortByPosition position keyGroups.flatten

end

namespace CachePolicy

variable {K P : Type} [DecidableEq K]

/-- A call that returns, keeps an invariant and leaves every chunk as it is. -/
def Quiet (view : P → K → Option ChunkStatus) (Inv : P → Prop) {α : Type} (x : PyM P α) : Prop :=
  ∀ s, Inv s → ∃ a s', x.run s = (.ok a, s') ∧ Inv s' ∧ view s' = view s

/-- What the methods of a policy do to its invariant and to its chunks, each called as the
manager calls it. -/
structure Sound (policy : CachePolicy K P) (view : P → K → Option ChunkStatus)
    (Inv : P → Prop) : Prop where
  get_eq : policy.get = view
  view_setRefCnt : ∀ s key refCnt, view (policy.setRefCnt key refCnt s) =
    Function.update (view s) key ((view s key).map fun chunk => { chunk with refCnt := refCnt })
  touch : ∀ keys, Quiet view Inv (policy.touch keys)
  onStoreMiss : ∀ keys, Quiet view Inv (policy.onStoreMiss keys)
  onRequestFinished : ∀ keyGroups insertionOnlyKeys reusedKeys position,
    Quiet view Inv (policy.onRequestFinished keyGroups insertionOnlyKeys reusedKeys position)
  clear : ∀ s, Inv s → Inv (policy.clear s) ∧ ∀ key, view (policy.clear s) key = none
  /-- Keys that are not there come in with chunks that are not ready. -/
  insert : ∀ s (pairs : List (K × Nat)), Inv s → (∀ pair ∈ pairs, view s pair.1 = none) →
    ∃ s', (PyM.forEach (fun pair : K × Nat => policy.insert pair.1 (ChunkStatus.new pair.2))
        pairs).run s = (.ok (), s') ∧ Inv s' ∧
      (∀ key, key ∉ pairs.map Prod.fst → view s' key = view s key) ∧
      ∀ key ∈ pairs.map Prod.fst, ∃ chunkId, view s' key = some (ChunkStatus.new chunkId)
  remove : ∀ s key chunk, Inv s → view s key = some chunk → ¬chunk.IsReady →
    ∃ s', (policy.remove key).run s = (.ok (), s') ∧ Inv s' ∧
      view s' = Function.update (view s) key none
  /-- An idle chunk is pinned. -/
  pin : ∀ s key chunk refCnt, Inv s → view s key = some chunk → chunk.refCnt = 0 → refCnt ≠ 0 →
    ∃ s', (policy.markNonEvictable key).run s = (.ok (), s') ∧ view s' = view s ∧
      Inv (policy.setRefCnt key refCnt s')
  /-- A chunk in use stays in use. -/
  reuse : ∀ s key chunk refCnt, Inv s → view s key = some chunk → chunk.refCnt ≠ 0 → refCnt ≠ 0 →
    Inv (policy.setRefCnt key refCnt s)
  /-- A chunk becomes idle. -/
  release : ∀ s key chunk, Inv s → view s key = some chunk → chunk.refCnt ≠ 0 →
    ∃ s', (policy.markEvictable key).run (policy.setRefCnt key 0 s) = (.ok (), s') ∧ Inv s' ∧
      view s' = view (policy.setRefCnt key 0 s)
  evict : ∀ s n protectedKeys, Inv s → ∃ result s',
    (policy.evict n protectedKeys).run s = (.ok result, s') ∧ Inv s' ∧
      match result with
      | none => view s' = view s
      | some evicted => evicted.length = n ∧ (evicted.map Prod.fst).Nodup ∧
        (∀ pair ∈ evicted, pair.1 ∉ protectedKeys ∧ view s pair.1 = some pair.2 ∧
          pair.2.refCnt = 0) ∧
        view s' = fun key => if key ∈ evicted.map Prod.fst then none else view s key

end CachePolicy

end VllmAmpere.KVOffload
