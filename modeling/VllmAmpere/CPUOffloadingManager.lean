import Mathlib.Data.Finset.Card
import VllmAmpere.CachePolicy
import VllmAmpere.TransitionSystem

/-! The manager of the CPU offload cache, over any replacement policy: the chunk pool, the
reference counts, the calls of its interface and their runs. -/

namespace VllmAmpere.KVOffload

/-- The keys a request was seen with, by group in the order they came. -/
structure RequestCacheAccess (K : Type) where
  cacheGeneration : Nat
  keyGroups : PyDict Nat (List K) := PyDict.empty
  seenKeys : List K := []
  insertedKeys : List K := []
  reusedKeys : List K := []
  storeMissKeys : List K := []
  finished : Bool := false

structure OffloadingEvent (K : Type) where
  keys : List K
  removed : Bool
  deriving DecidableEq, Repr

structure PrepareStoreOutput (K : Type) where
  keysToStore : List K
  storeSpec : List Nat
  evictedKeys : List K
  deriving DecidableEq, Repr

inductive LookupResult
  | miss
  | hit
  | hitPending
  | retry
  deriving DecidableEq, Repr

/-- `accesses` has the record each request context holds for this manager. -/
structure CPUOffloadingManager (R K P : Type) where
  numChunks : Nat
  numAllocatedChunks : Nat
  freeList : List Nat
  events : Option (List (OffloadingEvent K))
  policy : P
  numEvictableCacheChunks : Int
  storeThreshold : Int
  maxTrackerSize : Int
  cacheGeneration : Nat
  counts : Option (PyDict K Int)
  accesses : R → Option (RequestCacheAccess K)

/-- What a request context answers: its request and the positions of its keys. -/
structure ReqContext (R K : Type) where
  reqId : R
  position : K → Option Int

namespace CPUOffloadingManager

def new {R K P : Type} (policy : P) (numChunks : Nat) (enableEvents : Bool)
    (storeThreshold maxTrackerSize : Int) : CPUOffloadingManager R K P where
  numChunks := numChunks
  numAllocatedChunks := 0
  freeList := []
  events := if enableEvents then some [] else none
  policy := policy
  numEvictableCacheChunks := 0
  storeThreshold := storeThreshold
  maxTrackerSize := maxTrackerSize
  cacheGeneration := 0
  counts := if storeThreshold ≥ 2 then some PyDict.empty else none
  accesses _ := none

section

variable {R K P α : Type}

def onPolicy (x : PyM P α) : PyM (CPUOffloadingManager R K P) α :=
  ⟨fun m => ((x.run m.policy).1, { m with policy := (x.run m.policy).2 })⟩

def setAccess [DecidableEq R] (m : CPUOffloadingManager R K P) (reqId : R)
    (state : RequestCacheAccess K) : CPUOffloadingManager R K P :=
  { m with accesses := Function.update m.accesses reqId (some state) }

def getNumFreeChunks (m : CPUOffloadingManager R K P) : Int :=
  m.freeList.length + m.numChunks - m.numAllocatedChunks

def allocateChunks (keys : List K) : PyM (CPUOffloadingManager R K P) (List ChunkStatus) := do
  let m ← PyM.get
  let numFresh : Int := min (keys.length : Int) (m.numChunks - m.numAllocatedChunks)
  let numReused := keys.length - numFresh
  PyM.lift (pyAssert ((m.freeList.length : Int) ≥ numReused) "")
  let fresh := (List.range numFresh.toNat).map (m.numAllocatedChunks + ·)
  let reused := m.freeList.reverse.take numReused.toNat
  PyM.set { m with
    numAllocatedChunks := m.numAllocatedChunks + numFresh.toNat
    freeList := m.freeList.take (m.freeList.length - numReused.toNat) }
  pure ((fresh ++ reused).map ChunkStatus.new)

def freeChunk (chunk : ChunkStatus) (m : CPUOffloadingManager R K P) :
    CPUOffloadingManager R K P :=
  { m with freeList := m.freeList ++ [chunk.chunkId] }

def recordEvent (keys : List K) (removed : Bool) (m : CPUOffloadingManager R K P) :
    CPUOffloadingManager R K P :=
  { m with events := m.events.map fun events =>
      if keys = [] then events else events ++ [⟨keys, removed⟩] }

end

section

variable {K : Type} [DecidableEq K]

/-- The tracked keys of an offer, moved behind the others with one more reference each. -/
def bumpTracked : List K → PyDict K Int × List K → PyDict K Int × List K
  | [], state => state
  | key :: keys, (counts, tracked) =>
    match counts.get? key with
    | some n =>
      bumpTracked keys ((counts.pop key).set key (n + 1),
        if key ∈ tracked then tracked else tracked ++ [key])
    | none => bumpTracked keys (counts, tracked)

/-- The untracked keys of an offer, each in the place of the oldest untouched one when the
tracker is full. -/
def trackNew (maxTrackerSize : Int) :
    List K → PyDict K Int × Int → Except PyError (PyDict K Int × Int)
  | [], state => .ok state
  | key :: keys, (counts, numUnprotected) =>
    if (counts.get? key).isSome then trackNew maxTrackerSize keys (counts, numUnprotected)
    else if counts.len ≥ maxTrackerSize then
      if numUnprotected = 0 then trackNew maxTrackerSize keys (counts, numUnprotected)
      else
        match counts.items with
        | [] => .error .key
        | oldest :: _ =>
          trackNew maxTrackerSize keys ((counts.pop oldest.1).set key 1, numUnprotected - 1)
    else trackNew maxTrackerSize keys (counts.set key 1, numUnprotected)

def recordAccesses (maxTrackerSize : Int) (keys : List K) (counts : PyDict K Int) :
    Except PyError (PyDict K Int) := do
  let (counts, tracked) := bumpTracked keys (counts, [])
  let (counts, _) ← trackNew maxTrackerSize keys (counts, counts.len - tracked.length)
  .ok counts

end

section

variable {R K P : Type} [DecidableEq R] [DecidableEq K]

/-- The record of a request, a new one when there is none of this generation. -/
def getRequestCacheAccess (reqId : R) :
    PyM (CPUOffloadingManager R K P) (RequestCacheAccess K) := do
  let m ← PyM.get
  match m.accesses reqId with
  | some state =>
    if state.cacheGeneration = m.cacheGeneration then pure state
    else do
      PyM.set (m.setAccess reqId { cacheGeneration := m.cacheGeneration })
      pure { cacheGeneration := m.cacheGeneration }
  | none => do
    PyM.set (m.setAccess reqId { cacheGeneration := m.cacheGeneration })
    pure { cacheGeneration := m.cacheGeneration }

def addKeys (keys more : List K) : List K :=
  more.foldl (fun keys key => if key ∈ keys then keys else keys ++ [key]) keys

def recordKey (groupIdx : K → Nat) (reqId : R) (key : K) :
    PyM (CPUOffloadingManager R K P) Unit := do
  let state ← getRequestCacheAccess reqId
  if key ∈ state.seenKeys then pure ()
  else do
    PyM.lift (pyAssert (state.finished = false)
      "New cache keys observed after request finalization")
    let keys := (state.keyGroups.get? (groupIdx key)).getD []
    PyM.modify fun m => m.setAccess reqId { state with
      keyGroups := state.keyGroups.set (groupIdx key) (keys ++ [key])
      seenKeys := state.seenKeys ++ [key] }

def recordRequestCacheAccess (groupIdx : K → Nat) (keys : List K) (reqId : R)
    (insertedKeys reusedKeys : List K) : PyM (CPUOffloadingManager R K P) Unit := do
  PyM.forEach (recordKey groupIdx reqId) keys
  let state ← getRequestCacheAccess reqId
  let inserted := addKeys state.insertedKeys insertedKeys
  PyM.modify fun m => m.setAccess reqId { state with
    insertedKeys := inserted
    reusedKeys := addKeys state.reusedKeys (reusedKeys.filter fun key => key ∉ inserted) }

variable (policy : CachePolicy K P) (groupIdx : K → Nat) (key : K)

def lookup (m : CPUOffloadingManager R K P) : LookupResult :=
  match policy.get m.policy key with
  | none => .miss
  | some chunk => if chunk.IsReady then .hit else .hitPending

def loadKey : PyM (CPUOffloadingManager R K P) (List ChunkStatus) := do
  let m ← PyM.get
  match policy.get m.policy key with
  | none => PyM.lift (.error (.assertion "Chunk \x7bkey!r\x7d not found in cache"))
  | some chunk => do
    PyM.lift (pyAssert chunk.IsReady "Chunk \x7bkey!r\x7d is not ready for reading")
    if chunk.refCnt = 0 then do
      onPolicy (policy.markNonEvictable key)
      PyM.modify fun m => { m with numEvictableCacheChunks := m.numEvictableCacheChunks - 1 }
      let m ← PyM.get
      PyM.lift (pyAssert (m.numEvictableCacheChunks ≥ 0) "")
    PyM.modify fun m =>
      { m with policy := policy.setRefCnt key (chunk.refCnt + 1) m.policy }
    pure [chunk]

variable (keys : List K)

/-- The slots to load from; `recordAccess` is off for the transfers between tiers. -/
def prepareLoad (req : ReqContext R K) (recordAccess : Bool) :
    PyM (CPUOffloadingManager R K P) (List Nat) := do
  let chunks ← PyM.collect (loadKey policy) keys
  if recordAccess then recordRequestCacheAccess groupIdx keys req.reqId [] keys
  pure (chunks.map ChunkStatus.chunkId)

def touch (keys : List K) : PyM (CPUOffloadingManager R K P) Unit :=
  onPolicy (policy.touch keys)

def unloadKey : PyM (CPUOffloadingManager R K P) Unit := do
  let m ← PyM.get
  match policy.get m.policy key with
  | none => PyM.lift (.error (.assertion "Chunk \x7bkey!r\x7d not found"))
  | some chunk => do
    PyM.lift (pyAssert (chunk.refCnt > 0) "Chunk \x7bkey!r\x7d ref_cnt is already 0")
    PyM.modify fun m =>
      { m with policy := policy.setRefCnt key (chunk.refCnt - 1) m.policy }
    if chunk.refCnt - 1 = 0 then do
      PyM.modify fun m => { m with numEvictableCacheChunks := m.numEvictableCacheChunks + 1 }
      onPolicy (policy.markEvictable key)

def completeLoad : PyM (CPUOffloadingManager R K P) Unit :=
  PyM.forEach (unloadKey policy) keys

variable (m : CPUOffloadingManager R K P)

def admitted (keys : List K) : List K :=
  match m.counts with
  | some counts => keys.filter fun key => (counts.get? key).getD 0 ≥ m.storeThreshold
  | none => keys

def storeCandidates (keys : List K) : List K :=
  admitted m (keys.filter fun key => policy.get m.policy key = none)

def readyExisting (keys : List K) : List K :=
  keys.filter fun key => match policy.get m.policy key with
    | some chunk => chunk.IsReady
    | none => false

/-- The tracker's part of `prepare_store`. -/
def trackOffer : PyM (CPUOffloadingManager R K P) Unit := do
  let m ← PyM.get
  match m.counts with
  | none => pure ()
  | some counts => do
    let counts ← PyM.lift (recordAccesses m.maxTrackerSize keys counts)
    PyM.set { m with counts := some counts }

/-- The misses of an offer that the request has not reported before go to the policy. -/
def reportMisses (keysToStore : List K) (reqId : R) :
    PyM (CPUOffloadingManager R K P) Unit := do
  let state ← getRequestCacheAccess reqId
  let newStoreMisses := keysToStore.filter fun key => key ∉ state.storeMissKeys
  if newStoreMisses = [] then pure ()
  else do
    onPolicy (policy.onStoreMiss newStoreMisses)
    PyM.modify fun m => m.setAccess reqId { state with
      storeMissKeys := addKeys state.storeMissKeys newStoreMisses }

/-- Room for `needed` more chunks; `none` when there is none to be had. -/
def makeRoom (needed : Int) (keys : List K) :
    PyM (CPUOffloadingManager R K P) (Option (List K)) := do
  if needed > 0 then do
    let m ← PyM.get
    if needed > m.numEvictableCacheChunks then pure none
    else do
      let evicted ← onPolicy (policy.evict needed.toNat keys)
      match evicted with
      | none => pure none
      | some evicted => do
        PyM.modify fun m =>
          { m with numEvictableCacheChunks := m.numEvictableCacheChunks - evicted.length }
        let m ← PyM.get
        PyM.lift (pyAssert (m.numEvictableCacheChunks ≥ 0) "")
        PyM.forEach (fun pair => PyM.modify (freeChunk pair.2)) evicted
        pure (some (evicted.map Prod.fst))
  else pure (some [])

def insertChunks (keysToStore : List K) (reqId : R) :
    PyM (CPUOffloadingManager R K P) (List Nat) := do
  let chunks ← allocateChunks keysToStore
  PyM.lift (pyAssert (chunks.length = keysToStore.length)
    "Chunk pool did not allocate the expected number of chunks")
  onPolicy (PyM.forEach (fun pair => policy.insert pair.1 pair.2) (keysToStore.zip chunks))
  let state ← getRequestCacheAccess reqId
  PyM.modify fun m => m.setAccess reqId { state with
    insertedKeys := addKeys state.insertedKeys keysToStore }
  pure (chunks.map ChunkStatus.chunkId)

def prepareStore (req : ReqContext R K) :
    PyM (CPUOffloadingManager R K P) (Option (PrepareStoreOutput K)) := do
  trackOffer keys
  let m ← PyM.get
  let keysToStore := storeCandidates policy m keys
  let readyExistingKeys := readyExisting policy m keys
  reportMisses policy keysToStore req.reqId
  recordRequestCacheAccess groupIdx
    (keys.filter fun key => key ∈ keysToStore ∨ key ∈ readyExistingKeys) req.reqId []
    readyExistingKeys
  if keysToStore = [] then pure (some ⟨[], [], []⟩)
  else do
    let m ← PyM.get
    let room ← makeRoom policy (keysToStore.length - m.getNumFreeChunks) keys
    match room with
    | none => pure none
    | some toEvict => do
      PyM.modify (recordEvent toEvict true)
      let storeSpec ← insertChunks policy keysToStore req.reqId
      pure (some ⟨keysToStore, storeSpec, toEvict⟩)

/-- One key of a store that succeeded, returned when it was pending. -/
def storedKey : PyM (CPUOffloadingManager R K P) (List K) := do
  let m ← PyM.get
  match policy.get m.policy key with
  | none => pure []
  | some chunk =>
    if chunk.IsReady then pure []
    else do
      PyM.modify fun m => { m with policy := policy.setRefCnt key 0 m.policy }
      PyM.modify fun m => { m with numEvictableCacheChunks := m.numEvictableCacheChunks + 1 }
      onPolicy (policy.markEvictable key)
      pure [key]

def unstoredKey : PyM (CPUOffloadingManager R K P) Unit := do
  let m ← PyM.get
  match policy.get m.policy key with
  | none => pure ()
  | some chunk =>
    if chunk.IsReady then pure ()
    else do
      onPolicy (policy.remove key)
      PyM.modify (freeChunk chunk)

def completeStore (success : Bool) :
    PyM (CPUOffloadingManager R K P) Unit := do
  if success then do
    let storedKeys ← PyM.collect (storedKey policy) keys
    PyM.modify (recordEvent storedKeys false)
  else PyM.forEach (unstoredKey policy) keys

def orderedGroups (state : RequestCacheAccess K) (position : K → Option Int) : List (List K) :=
  (state.keyGroups.keys.mergeSort (· ≤ ·)).map fun groupIdx =>
    sortByPosition position ((state.keyGroups.get? groupIdx).getD [])

def onRequestFinished (req : ReqContext R K) : PyM (CPUOffloadingManager R K P) Unit := do
  let m ← PyM.get
  match m.accesses req.reqId with
  | none => pure ()
  | some state =>
    if state.cacheGeneration ≠ m.cacheGeneration ∨ state.finished = true then pure ()
    else do
      PyM.set (m.setAccess req.reqId { state with finished := true })
      onPolicy (policy.onRequestFinished (orderedGroups state req.position)
        (state.insertedKeys.filter fun key => key ∉ state.reusedKeys) state.reusedKeys
        req.position)

def resetCache : CPUOffloadingManager R K P :=
  { m with
    policy := policy.clear m.policy
    cacheGeneration := m.cacheGeneration + 1
    numEvictableCacheChunks := 0
    freeList := []
    numAllocatedChunks := 0 }

def takeEvents : CPUOffloadingManager R K P :=
  { m with events := m.events.map fun _ => [] }

/-- The calls a manager gets. With `contextLost` the context of a request is a new one, or its
record is that of another manager. -/
inductive Call (R K : Type)
  | onNewRequest (req : ReqContext R K)
  | lookup (key : K)
  | prepareLoad (keys : List K) (req : ReqContext R K) (recordAccess : Bool)
  | touch (keys : List K)
  | completeLoad (keys : List K)
  | prepareStore (keys : List K) (req : ReqContext R K)
  | completeStore (keys : List K) (success : Bool)
  | onRequestFinished (req : ReqContext R K)
  | resetCache
  | takeEvents
  | contextLost (reqId : R)

def call : Call R K → CPUOffloadingManager R K P
  | .onNewRequest req => ((getRequestCacheAccess req.reqId).run m).2
  | .lookup _ => m
  | .prepareLoad keys req recordAccess =>
    ((prepareLoad policy groupIdx keys req recordAccess).run m).2
  | .touch keys => ((touch policy keys).run m).2
  | .completeLoad keys => ((completeLoad policy keys).run m).2
  | .prepareStore keys req => ((prepareStore policy groupIdx keys req).run m).2
  | .completeStore keys success => ((completeStore policy keys success).run m).2
  | .onRequestFinished req => ((onRequestFinished policy req).run m).2
  | .resetCache => resetCache policy m
  | .takeEvents => takeEvents m
  | .contextLost reqId => { m with accesses := Function.update m.accesses reqId none }

end

/-- The runs of a manager with any settings over a policy that starts from `start`; each call
may be served by another of `policies`, which differ in what the language leaves open. -/
def runs {ι R K P : Type} [DecidableEq R] [DecidableEq K] (policies : ι → CachePolicy K P)
    (groupIdx : K → Nat) (start : Nat → P) :
    TransitionSystem (CPUOffloadingManager R K P) (ι × Call R K) where
  init m := ∃ numChunks enableEvents storeThreshold maxTrackerSize,
    m = new (start numChunks) numChunks enableEvents storeThreshold maxTrackerSize
  step m label m' := m' = call (policies label.1) groupIdx m label.2

end CPUOffloadingManager

end VllmAmpere.KVOffload
