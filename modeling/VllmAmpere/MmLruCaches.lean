import VllmAmpere.LruOrder
import VllmAmpere.TransitionSystem

/-! The multi-modal sender and receiver caches of `multimodal/cache/lru.py`, each an `LRUCache` of
`utils/cache.py`: the sender (P0) leaves out the data of the items it has, and the receiver (P1)
gets them from its own cache. -/

namespace VllmAmpere.MmLruCaches

open LruOrder Entries

variable {κ : Type*} [DecidableEq κ]

/-- `cachetools.LRUCache`, which `LRUCache` extends: a read moves the key to the end, and
`popitem`, which removes the oldest entry, is called until a new value fits. -/
structure CacheTools (κ : Type*) [DecidableEq κ] where
  getItem : Entries κ → κ → Entries κ
  delItem : Entries κ → κ → Entries κ
  /-- `none` where it raises `ValueError("value too large")`. -/
  setItem : (maxsize : Nat) → Entries κ → κ → (size : Nat) → Option (Entries κ)
  getItem_moves : ∀ es key, key ∈ keys es → getItem es key = es.moveToEnd key
  delItem_removes : ∀ es key, key ∈ keys es → delItem es key = es.without key
  setItem_large : ∀ maxsize es key size, maxsize < size → setItem maxsize es key size = none
  setItem_new : ∀ maxsize es key size, key ∉ keys es → size ≤ maxsize →
    setItem maxsize es key size = some (es.evict maxsize size ++ [(key, size)])

/-- An item of a request, as the processor has it: `offset` is its position in the prompt, and
`size` that of its data. -/
structure Item (κ : Type*) where
  mmHash : κ
  size : Nat
  offset : Nat

/-- `MultiModalFeatureSpec`: of the data, its size. -/
structure Feature (κ : Type*) where
  mmHash : κ
  data : Option Nat
  offset : Nat
  deriving DecidableEq

section LRUCache

variable (tools : CacheTools κ) (maxsize : Nat) (cache : Entries κ)

def touch (key : κ) : Entries κ :=
  if key ∈ cache.keys then cache.moveToEnd key else cache

/-- `pop(key, None)`, which reads the value before it removes the key. -/
def pop (key : κ) : Entries κ :=
  if key ∈ cache.keys then tools.delItem (tools.getItem cache key) key else cache

def putIfFits (key : κ) (size : Nat) : Entries κ :=
  (tools.setItem maxsize cache key size).getD cache

end LRUCache

variable (tools : CacheTools κ) (maxsize : Nat) (cache : Entries κ)

/-- `get_and_update_item` of the sender: an item that was cached when the request came is given
without its data, and an assertion fails if it no longer is. -/
def senderItem (item : Item κ) (wasCached : Bool) :
    Option (Feature κ) × Entries κ :=
  if item.mmHash ∈ cache.keys then
    (some ⟨item.mmHash, none, item.offset⟩, tools.getItem cache item.mmHash)
  else if wasCached then (none, cache)
  else
    (some ⟨item.mmHash, some item.size, item.offset⟩,
      putIfFits tools maxsize cache item.mmHash item.size)

def mergeLoop (cache : Entries κ) : List (Item κ × Bool) → Option (List (Feature κ)) × Entries κ
  | [] => (some [], cache)
  | (item, wasCached) :: rest =>
    match senderItem tools maxsize cache item wasCached with
    | (none, cache) => (none, cache)
    | (some feature, cache) =>
      let (features, cache) := mergeLoop cache rest
      (features.map (feature :: ·), cache)

/-- `_merge_mm_kwargs`, behind the test of what is cached: all hashes are touched first. `none`
where an assertion fails. -/
def mergeMmKwargs (items : List (Item κ)) :
    Option (List (Feature κ)) × Entries κ :=
  let tested := items.map fun item => (item, decide (item.mmHash ∈ cache.keys))
  mergeLoop tools maxsize (items.foldl (fun cache item => touch cache item.mmHash) cache) tested

variable (features : List (Feature κ))

/-- The features in the order of their positions in the prompt, `argsort_mm_positions`. -/
def byPosition : List (Feature κ) :=
  features.mergeSort fun f g => f.offset ≤ g.offset

/-- `get_and_update_item` of the receiver, which raises a miss for a hash without data that it
does not have. -/
def receiverItem (feature : Feature κ) : Option κ × Entries κ :=
  match feature.data with
  | some size =>
    (none, putIfFits tools maxsize (pop tools cache feature.mmHash) feature.mmHash size)
  | none =>
    if feature.mmHash ∈ cache.keys then (none, tools.getItem cache feature.mmHash)
    else (some feature.mmHash, cache)

def receiveLoop (cache : Entries κ) : List (Feature κ) → List κ × Entries κ
  | [] => ([], cache)
  | feature :: rest =>
    let (miss, cache) := receiverItem tools maxsize cache feature
    let (missing, cache) := receiveLoop cache rest
    (miss.toList ++ missing, cache)

def touchAll : Entries κ :=
  features.foldl (fun cache feature => touch cache feature.mmHash) cache

/-- `get_and_update_features`: the hashes of `MultiModalCacheMissError`, none where the request is
accepted. -/
def getAndUpdateFeatures :
    List κ × Entries κ :=
  receiveLoop tools maxsize (touchAll cache features) features

/-- The two caches. -/
structure Caches (κ : Type*) where
  sender : Entries κ
  receiver : Entries κ
  deriving DecidableEq

/-- A request through both caches, with the hashes that the receiver misses; it never gets a
request on which the sender raises. -/
def Caches.request (caches : Caches κ) (items : List (Item κ)) : Option (List κ) × Caches κ :=
  match mergeMmKwargs tools maxsize caches.sender items with
  | (none, sender) => (none, { caches with sender := sender })
  | (some features, sender) =>
    let (missing, receiver) := getAndUpdateFeatures tools maxsize caches.receiver (byPosition features)
    (some missing, ⟨sender, receiver⟩)

section Operations

variable {tools maxsize} {cache : Entries κ} {key : κ} {size : Nat}

end Operations

/-! The multi-modal sender and receiver caches mirror each other as long as no request evicts its
own cached items; where they have drifted, the receiver reports what it misses, and the same
request is accepted once the sender has dropped it. -/

/-- Each item that was cached when the request came is so at its turn. -/
def Kept (maxsize : Nat) (known : List κ) : Entries κ → List (Item κ) → Prop
  | _, [] => True
  | cache, item :: rest => (item.mmHash ∈ known → item.mmHash ∈ cache.keys) ∧
    Kept maxsize known (cache.use maxsize item.mmHash item.size) rest

/-- Requests one after the other, from empty caches of one capacity. -/
def runs (tools : CacheTools κ) (maxsize : Nat) : TransitionSystem (Caches κ) (List (Item κ)) where
  init s := s = ⟨[], []⟩
  step s items s' := s' = (s.request tools maxsize items).2

variable {tools : CacheTools κ} {maxsize : Nat}

def Feature.tag (feature : Feature κ) : κ × Nat := (feature.mmHash, feature.offset)

def Item.tag (item : Item κ) : κ × Nat := (item.mmHash, item.offset)

section Mirrored

variable {items : List (Item κ)} {cache : Entries κ}

end Mirrored

section Drifted

variable {cache : Entries κ}

/-- Bounds on the sizes of a request's items in both caches and in the request: together they
fit, but for items that are too large on their own. -/
structure Fits (maxsize : Nat) (w : κ → Nat) (caches : Caches κ) (items : List (Item κ)) : Prop where
  sender : ∀ e ∈ caches.sender, e.1 ∈ items.map Item.mmHash → e.2 ≤ w e.1
  receiver : ∀ e ∈ caches.receiver, e.1 ∈ items.map Item.mmHash → e.2 ≤ w e.1
  sizes : ∀ item ∈ items, item.size ≤ maxsize → item.size ≤ w item.mmHash
  total : ∑ k ∈ (items.map Item.mmHash).toFinset, w k ≤ maxsize

variable {w : κ → Nat} {items : List (Item κ)}

/-- What an attempt does to the members of a group that fits: no member leaves a cache that has
it in common with the other, and whatever of the request the sender has, the receiver has or misses. -/
structure Attempt (members : Finset κ) (w : κ → Nat) (items : List (Item κ))
    (s r s' r' : Entries κ) (missing : List κ) : Prop where
  sender : Recent (· ∈ members) w s'
  receiver : Recent (· ∈ members) w r'
  stays : ∀ k ∈ members, k ∈ s.keys → k ∈ s'.keys
  shared : ∀ k ∈ members, k ∈ s.keys → k ∈ r.keys → k ∈ r'.keys
  new : ∀ k ∈ s'.keys, k ∈ s.keys ∨ k ∈ items.map Item.mmHash
  settled : ∀ k ∈ items.map Item.mmHash, k ∈ s'.keys → k ∈ r'.keys ∨ k ∈ missing
  accepted : (∀ k ∈ members, k ∈ s.keys → k ∈ r.keys) → missing = []

namespace Attempt

variable {members : Finset κ} {s r s₁ r₁ s' r' : Entries κ} {m m' : List κ} {item : Item κ}
  {rest : List (Item κ)}

omit [DecidableEq κ] in
theorem nil (sender : Recent (· ∈ members) w s) (receiver : Recent (· ∈ members) w r) :
    Attempt members w [] s r s r [] where
  sender := sender
  receiver := receiver
  stays := fun _ _ mem => mem
  shared := fun _ _ _ mem => mem
  new := fun _ mem => .inl mem
  settled := nofun
  accepted := fun _ => rfl

theorem cons (of : item.mmHash ∈ members) (first : Attempt members w [item] s r s₁ r₁ m)
    (then' : Attempt members w rest s₁ r₁ s' r' m') :
    Attempt members w (item :: rest) s r s' r' (m ++ m') where
  sender := then'.sender
  receiver := then'.receiver
  stays := fun k hk mem => then'.stays k hk (first.stays k hk mem)
  shared := fun k hk mem mem' =>
    then'.shared k hk (first.stays k hk mem) (first.shared k hk mem mem')
  new := fun k mem => by
    rw [List.map_cons, List.mem_cons]
    rcases then'.new k mem with mem | mem
    · exact (first.new k mem).imp_right fun mem => .inl (List.mem_singleton.mp mem)
    · exact .inr (.inr mem)
  settled := fun k hk mem => by
    rw [List.mem_append]
    by_cases later : k ∈ rest.map Item.mmHash
    · exact (then'.settled k later mem).imp_right .inr
    · have this : k = item.mmHash := (List.mem_cons.mp hk).resolve_right later
      have there := (then'.new k mem).resolve_right later
      rcases first.settled k (this ▸ List.mem_singleton_self _) there with has | missed
      · exact .inl (then'.shared k (this ▸ of) there has)
      · exact .inr (.inl missed)
  accepted := fun held => by
    have none := first.accepted held
    rw [none, then'.accepted, List.append_nil]
    intro k hk mem
    rcases first.new k mem with mem' | mem'
    · exact first.shared k hk mem' (held k hk mem')
    · exact (first.settled k mem' mem).resolve_right (none ▸ List.not_mem_nil)

end Attempt

end Drifted

section Evicted

def image (mmHash : String) (offset : Nat) : Item String := ⟨mmHash, 6, offset⟩

end Evicted

end VllmAmpere.MmLruCaches
