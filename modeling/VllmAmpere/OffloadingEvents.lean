import Mathlib.Data.Finset.Basic
import VllmAmpere.BlockPool
import VllmAmpere.PyDict

/-! Self-describing KV events of the offloading connector: the payloads of offloaded chunks
and the store and removal announcements made from them. -/

namespace VllmAmpere.OffloadEvents

/-- A block hash with a group index, packed. -/
structure OffloadKey where
  blockHash : BlockHash
  groupIdx : Nat
  deriving DecidableEq, Repr

inductive Medium
  | cpu
  | storage
  deriving DecidableEq, Repr

inductive Locality
  | «local»
  | remote
  deriving DecidableEq, Repr

/-- `_MEDIUM_TO_EVENT_STR`. -/
def Medium.toEventStr : Medium → String
  | cpu => "CPU"
  | storage => "STORAGE"

def Locality.value : Locality → String
  | «local» => "LOCAL"
  | remote => "REMOTE"

structure OffloadingEvent where
  keys : List OffloadKey
  medium : Medium
  removed : Bool
  locality : Option Locality := none
  ownership : Option String := none
  removalExpected : Bool := false

structure OffloadingEventGroupSpec where
  kvCacheSpecKind : Option String
  kvCacheSpecSlidingWindow : Option Nat
  deriving DecidableEq, Repr

/-- What the tracker reads of a `GroupOffloadConfig`. -/
structure GroupOffloadConfig where
  groupIdx : Nat
  tokensPerBlock : Nat
  tokensPerChunk : Nat
  hashesPerChunk : Nat
  kvEventGroupSpec : OffloadingEventGroupSpec
  slidingWindowSizeInChunks : Option Nat

/-- The payload of a chunk. -/
structure OffloadEventMetadata where
  blockHashes : List BlockHash
  parentBlockHash : Option BlockHash
  tokenIds : List Nat
  blockSize : Nat
  loraId : Option Nat
  loraName : Option String
  extraKeys : Option (List (Option (List EventExtraKey)))
  groupIdx : Nat
  kvCacheSpec : OffloadingEventGroupSpec
  activeResidencies : Finset (Medium × Option String)

structure BlockStored where
  blockHashes : List ExternalBlockHash
  parentBlockHash : Option ExternalBlockHash
  tokenIds : List Nat
  blockSize : Nat
  loraId : Option Nat
  medium : String
  loraName : Option String
  extraKeys : Option (List (Option (List EventExtraKey))) := none
  groupIdx : Nat
  kvCacheSpecKind : Option String := none
  kvCacheSpecSlidingWindow : Option Nat := none
  locality : Option String
  ownership : Option String

structure BlockRemoved where
  blockHashes : List ExternalBlockHash
  medium : String
  groupIdx : Nat
  locality : Option String
  ownership : Option String

inductive KVCacheEvent
  | blockStored (event : BlockStored)
  | blockRemoved (event : BlockRemoved)

structure OffloadingEventsTracker where
  selfDescribingEnabled : Bool
  useIntBlockHashes : Bool
  pendingEventMetadata : PyDict OffloadKey OffloadEventMetadata := .empty

namespace OffloadingEventsTracker

variable (tracker : OffloadingEventsTracker)

def buildEventMetadata (req : Request) (groupConfig : GroupOffloadConfig) (chunkIdx : Nat) :
    Except PyError OffloadEventMetadata := do
  let hashesPerChunk := groupConfig.hashesPerChunk
  pyAssert (0 < hashesPerChunk) "hashes_per_chunk > 0"
  let tokensPerHash := groupConfig.tokensPerChunk / hashesPerChunk
  let firstHashIdx := chunkIdx * hashesPerChunk
  let lastHashIdx := firstHashIdx + hashesPerChunk
  pyAssert (lastHashIdx ≤ req.blockHashes.length) "last_hash_idx <= len(req.block_hashes)"
  let rawChunkHashes := slice req.blockHashes firstHashIdx lastHashIdx
  let resolved ← resolveBlockHashes (.list rawChunkHashes) tokensPerHash groupConfig.tokensPerBlock
    false none
  let chunkHashes := resolved.sliceFrom 0
  pyAssert (chunkHashes.length = groupConfig.tokensPerChunk / groupConfig.tokensPerBlock)
    "len(chunk_hashes) == tokens_per_chunk // tokens_per_block"
  pyAssert (groupConfig.slidingWindowSizeInChunks = none)
    "self-describing events only support full attention"
  let parentBlockHash ← if firstHashIdx = 0 then Except.ok none
    else (pyGet req.blockHashes (firstHashIdx - 1)).map some
  let tokStart := chunkIdx * groupConfig.tokensPerChunk
  let tokEnd := tokStart + groupConfig.tokensPerChunk
  pyAssert (tokEnd ≤ req.allTokenIds.length) "tok_end <= len(req.all_token_ids)"
  .ok {
    blockHashes := chunkHashes
    parentBlockHash
    tokenIds := slice req.allTokenIds tokStart tokEnd
    blockSize := groupConfig.tokensPerBlock
    loraId := req.loraRequest.map LoRARequest.loraIntId
    loraName := req.loraRequest.map LoRARequest.loraName
    extraKeys := none
    groupIdx := groupConfig.groupIdx
    kvCacheSpec := groupConfig.kvEventGroupSpec
    activeResidencies := {(.cpu, none)} }

def recordStore (req : Request) (groupConfig : GroupOffloadConfig) (chunkIdx : Nat)
    (offloadKey : OffloadKey) : Except PyError OffloadingEventsTracker :=
  if !tracker.selfDescribingEnabled then .ok tracker
  else if groupConfig.slidingWindowSizeInChunks ≠ none then .ok tracker
  else do
    let built ← buildEventMetadata req groupConfig chunkIdx
    let built := match tracker.pendingEventMetadata.get? offloadKey with
      | some existing =>
        { built with activeResidencies := built.activeResidencies ∪ existing.activeResidencies }
      | none => built
    .ok { tracker with pendingEventMetadata := tracker.pendingEventMetadata.set offloadKey built }

def recordLookup (req : Request) (groupConfig : GroupOffloadConfig) (chunkIdx : Nat)
    (offloadKey : OffloadKey) : Except PyError OffloadingEventsTracker :=
  if !tracker.selfDescribingEnabled then .ok tracker
  else if groupConfig.slidingWindowSizeInChunks ≠ none then .ok tracker
  else if (tracker.pendingEventMetadata.get? offloadKey).isSome then .ok tracker
  else do
    let built ← buildEventMetadata req groupConfig chunkIdx
    .ok { tracker with pendingEventMetadata := tracker.pendingEventMetadata.set offloadKey built }

def convert (hash : BlockHash) : ExternalBlockHash :=
  maybeConvertBlockHash tracker.useIntBlockHashes hash

def placeholderStored (key : OffloadKey) (medium : Medium) (locality ownership : Option String) :
    BlockStored where
  blockHashes := [tracker.convert key.blockHash]
  parentBlockHash := none
  tokenIds := []
  loraId := none
  blockSize := 0
  medium := medium.toEventStr
  loraName := none
  groupIdx := key.groupIdx
  locality := locality
  ownership := ownership

variable (event : OffloadingEvent)

/-- The body of the loop of `_take_stored_event`. -/
def takeStoredKey (key : OffloadKey) :
    OffloadingEventsTracker × KVCacheEvent :=
  let locality := event.locality.map Locality.value
  match tracker.pendingEventMetadata.get? key with
  | none =>
    (tracker, .blockStored (tracker.placeholderStored key event.medium locality event.ownership))
  | some payload =>
    let payload := if event.removalExpected then
        { payload with
          activeResidencies := insert (event.medium, event.ownership) payload.activeResidencies }
      else payload
    ({ tracker with pendingEventMetadata := tracker.pendingEventMetadata.set key payload },
      .blockStored {
        blockHashes := payload.blockHashes.map tracker.convert
        parentBlockHash := payload.parentBlockHash.map tracker.convert
        tokenIds := payload.tokenIds
        blockSize := payload.blockSize
        loraId := payload.loraId
        medium := event.medium.toEventStr
        loraName := payload.loraName
        extraKeys := payload.extraKeys
        groupIdx := payload.groupIdx
        kvCacheSpecKind := payload.kvCacheSpec.kvCacheSpecKind
        kvCacheSpecSlidingWindow := payload.kvCacheSpec.kvCacheSpecSlidingWindow
        locality
        ownership := event.ownership })

def takeStoredEvent : OffloadingEventsTracker × List KVCacheEvent :=
  event.keys.foldl (fun (tracker, out) key =>
    let (tracker, stored) := takeStoredKey tracker event key
    (tracker, out ++ [stored])) (tracker, [])

/-- `by_group.setdefault(group_idx, []).extend(hashes)`. -/
def extendGroup (byGroup : PyDict Nat (List ExternalBlockHash)) (groupIdx : Nat)
    (hashes : List ExternalBlockHash) : PyDict Nat (List ExternalBlockHash) :=
  byGroup.set groupIdx ((byGroup.get? groupIdx).getD [] ++ hashes)

/-- The body of the first loop of `_take_removed_event`. -/
def takeRemovedKey (key : OffloadKey)
    (byGroup : PyDict Nat (List ExternalBlockHash)) :
    OffloadingEventsTracker × PyDict Nat (List ExternalBlockHash) :=
  match tracker.pendingEventMetadata.get? key with
  | some payload =>
    let byGroup := extendGroup byGroup payload.groupIdx (payload.blockHashes.map tracker.convert)
    let payload := { payload with
      activeResidencies := payload.activeResidencies.erase (event.medium, event.ownership) }
    ({ tracker with pendingEventMetadata := tracker.pendingEventMetadata.set key payload }, byGroup)
  | none => (tracker, extendGroup byGroup key.groupIdx [tracker.convert key.blockHash])

def takeRemovedEvent : OffloadingEventsTracker × List KVCacheEvent :=
  let locality := event.locality.map Locality.value
  let (tracker, byGroup) := event.keys.foldl (fun (tracker, byGroup) key =>
    takeRemovedKey tracker event key byGroup) (tracker, .empty)
  (tracker, byGroup.items.map fun (groupIdx, hashes) => .blockRemoved {
    blockHashes := hashes
    medium := event.medium.toEventStr
    groupIdx
    locality
    ownership := event.ownership })

def takeEvent : OffloadingEventsTracker × List KVCacheEvent :=
  if event.removed then tracker.takeRemovedEvent event else tracker.takeStoredEvent event

/-- What `take_events` does behind its loop: the payload of a removed key goes with its last
residency. -/
def dropRemoved (key : OffloadKey) : OffloadingEventsTracker :=
  match tracker.pendingEventMetadata.get? key with
  | some payload =>
    if payload.activeResidencies = ∅ then
      { tracker with pendingEventMetadata := tracker.pendingEventMetadata.pop key }
    else tracker
  | none => tracker

/-- `removed_keys`. -/
def removedKeys (events : List OffloadingEvent) : List OffloadKey :=
  if tracker.selfDescribingEnabled then
    (events.filter OffloadingEvent.removed).flatMap OffloadingEvent.keys
  else []

def takeEvents (events : List OffloadingEvent) : OffloadingEventsTracker × List KVCacheEvent :=
  let (taken, out) := events.foldl (fun (tracker, out) event =>
    let (tracker, new) := takeEvent tracker event
    (tracker, out ++ new)) (tracker, [])
  ((tracker.removedKeys events).foldl dropRemoved taken, out)

def reset : OffloadingEventsTracker := { tracker with pendingEventMetadata := .empty }

end OffloadingEventsTracker

end VllmAmpere.OffloadEvents
