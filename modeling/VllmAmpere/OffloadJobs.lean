import VllmAmpere.OffloadTransfers
import VllmAmpere.OffloadingEvents

/-! The scheduler's side of offloading: how `OffloadingConnectorScheduler` picks the chunks of a
request to store or to load and builds the transfer jobs from them. -/

namespace VllmAmpere.OffloadTransfer

open OffloadEvents (OffloadKey)

structure GroupOffloadConfig where
  groupIdx : Nat
  tokensPerBlock : Nat
  tokensPerChunk : Nat
  hashesPerChunk : Nat
  slidingWindowSizeInChunks : Option Nat
  isSlidingWindowSpec : Bool
  requiresCowSource : Bool
  isEagleGroup : Bool

/-- A `SchedulerOffloadConfig` with what `from_spec` establishes. -/
structure SchedulerOffloadConfig where
  kvGroupConfigs : List GroupOffloadConfig
  blocksPerChunk : Nat
  tokensPerHash : Nat
  offloadPromptOnly : Bool
  supportsPartialTail : Bool
  alignmentTokens : Option Nat
  retentionInterval : Option Nat
  chunked : 0 < blocksPerChunk
  hashed : 0 < tokensPerHash
  groupIds : (kvGroupConfigs.map (·.groupIdx)).Nodup
  blockTokens : ∀ g ∈ kvGroupConfigs, 0 < g.tokensPerBlock
  chunkTokens : ∀ g ∈ kvGroupConfigs, g.tokensPerChunk = g.tokensPerBlock * blocksPerChunk
  hashTokens : ∀ g ∈ kvGroupConfigs, g.hashesPerChunk * tokensPerHash = g.tokensPerChunk
  aligned : ∀ tokens, alignmentTokens = some tokens → 0 < tokens
  partialTails : supportsPartialTail = true →
    blocksPerChunk = 1 ∧ ∀ g ∈ kvGroupConfigs, ∀ g' ∈ kvGroupConfigs,
      g.tokensPerBlock = g'.tokensPerBlock

structure RequestGroupState where
  offloadKeys : List OffloadKey := []
  blockIds : List Nat := []
  nextStoredChunkIdx : Nat := 0

/-- The key of a chunk: the hash that ends it with the index of the group. -/
def chunkKey (blockHashes : List BlockHash) (g : GroupOffloadConfig) (chunkIdx : Nat) :
    Option OffloadKey :=
  blockHashes[g.hashesPerChunk * chunkIdx + g.hashesPerChunk - 1]?.map fun hash => ⟨hash, g.groupIdx⟩

/-- A `RequestOffloadState` with the fields of its request that the builders read. -/
structure RequestOffloadState (config : SchedulerOffloadConfig) where
  numPromptTokens : Nat
  numTokens : Nat
  numComputedTokens : Nat
  isFinished : Bool
  isAborted : Bool
  sharedPrefixBoundary : Nat
  blockHashes : List BlockHash
  maxOffloadTokens : Option Nat
  numLocallyComputedTokens : Nat
  partialTailBoundary : Option Nat
  chunkLevel : Bool
  groupStates : List RequestGroupState
  tail : partialTailBoundary.isSome = true → config.supportsPartialTail = true
  /-- Block hashes are chained: no two blocks of a request share one. -/
  chained : blockHashes.Nodup
  perGroup : groupStates.length = config.kvGroupConfigs.length
  keyed : ∀ (i : Nat) (g : GroupOffloadConfig) (s : RequestGroupState),
    config.kvGroupConfigs[i]? = some g → groupStates[i]? = some s →
      ∀ (c : Nat) (key : OffloadKey), s.offloadKeys[c]? = some key →
        chunkKey blockHashes g c = some key

/-- What a step of the scheduler sees of the `OffloadingManager`: the chunks it has assigned to
keys and which of the offered keys it takes. -/
structure OffloadingManager where
  chunkOf : OffloadKey → Nat
  keysToStore : List OffloadKey → Option (List OffloadKey)
  taken : ∀ keys accepted, keysToStore keys = some accepted → accepted.Sublist keys
  separate : ∀ keys accepted, keys.Nodup → keysToStore keys = some accepted →
    (accepted.map chunkOf).Nodup

structure TransferJob where
  isStore : Bool
  keys : List OffloadKey
  gpuSpec : GPULoadStoreSpec
  cpuChunks : List Nat
  fencedBlockIds : List Nat := []
  deferredFenceBlockIds : List Nat := []

namespace RequestOffloadState

variable {config : SchedulerOffloadConfig} (req : RequestOffloadState config)

def groups : List (GroupOffloadConfig × RequestGroupState) :=
  config.kvGroupConfigs.zip req.groupStates

/-- Sets `next_stored_chunk_idx` in every group. -/
def advance (next : GroupOffloadConfig → RequestGroupState → Nat) : RequestOffloadState config where
  numPromptTokens := req.numPromptTokens
  numTokens := req.numTokens
  numComputedTokens := req.numComputedTokens
  isFinished := req.isFinished
  isAborted := req.isAborted
  sharedPrefixBoundary := req.sharedPrefixBoundary
  blockHashes := req.blockHashes
  maxOffloadTokens := req.maxOffloadTokens
  numLocallyComputedTokens := req.numLocallyComputedTokens
  partialTailBoundary := req.partialTailBoundary
  chunkLevel := req.chunkLevel
  groupStates := req.groups.map fun (g, s) => { s with nextStoredChunkIdx := next g s }
  tail := req.tail
  chained := req.chained
  perGroup := by simp [groups, req.perGroup]
  keyed := by
    intro i g s hg hs c key hkey
    simp only [groups, List.getElem?_map, List.getElem?_zip_eq_some, Option.map_eq_some_iff] at hs
    obtain ⟨⟨g', s'⟩, ⟨-, hs'⟩, rfl⟩ := hs
    exact req.keyed i g s' hg hs' c key hkey

/-- `_calc_num_offloadable_tokens`. -/
def calcNumOffloadableTokens (numComputedTokens : Nat) : Nat :=
  let num := min numComputedTokens req.numTokens
  let num := match req.maxOffloadTokens with
    | some cap => min num cap
    | none => num
  if config.offloadPromptOnly then min num req.numPromptTokens else num

/-- `storable_chunks`. -/
def storableChunks (g : GroupOffloadConfig) (s : RequestGroupState) (numOffloadableTokens : Nat) :
    Nat :=
  let numChunks := numOffloadableTokens / g.tokensPerChunk
  let isDecoding := decide (req.numPromptTokens < numOffloadableTokens)
  let numChunks := if g.isEagleGroup && isDecoding && !req.isFinished then numChunks - 1
    else numChunks
  min (min numChunks (s.blockIds.length / config.blocksPerChunk)) s.offloadKeys.length

/-- `advance_stored_idx`. -/
def advanceStoredIdx (numOffloadableTokens : Nat) : RequestOffloadState config :=
  req.advance fun g s => max s.nextStoredChunkIdx (req.storableChunks g s numOffloadableTokens)

/-- `_make_boundary_key`; a boundary before the first hash takes the last one. -/
def makeBoundaryKey (groupIdx boundaryTokens : Nat) : Except PyError OffloadKey := do
  let hash ← match boundaryTokens / config.tokensPerHash with
    | 0 => pyGet req.blockHashes (req.blockHashes.length - 1)
    | hashIdx + 1 => pyGet req.blockHashes hashIdx
  .ok ⟨hash, groupIdx⟩

/-- `num_tokens_after_batch`. -/
def numTokensAfterBatch (numScheduledTokens : Nat) : Nat :=
  if req.isAborted then req.numComputedTokens
  else if req.isFinished then max req.numPromptTokens (req.numTokens - 1)
  else req.numComputedTokens + numScheduledTokens

/-- `reachable_boundaries`. -/
def reachableBoundaries : List Nat :=
  match config.retentionInterval with
  | none => []
  | some _ => (req.numPromptTokens - 1) ::
      if req.sharedPrefixBoundary = 0 then [] else [req.sharedPrefixBoundary]

end RequestOffloadState

/-- `_final_swa_alignment_blocks`. -/
def finalSwaAlignmentBlocks (config : SchedulerOffloadConfig) (g : GroupOffloadConfig) :
    Option Nat :=
  match config.alignmentTokens with
  | none => none
  | some alignmentTokens =>
    if g.isEagleGroup ∨ g.isSlidingWindowSpec = false ∨ alignmentTokens % g.tokensPerBlock ≠ 0
    then none
    else some (alignmentTokens / g.tokensPerBlock)

/-- `xs[start:stop:step]` for a positive step. -/
def strided {α : Type*} (xs : List α) (start stop step : Nat) : List α :=
  (List.range (cdiv (stop - start) step)).filterMap fun i => xs[start + i * step]?

/-- The chunks of a group that a step may store and how the final tail is looked at. -/
structure StoreRange where
  startChunkIdx : Nat
  numChunks : Nat
  reconsiderFinalSwaTail : Bool
  storeHorizonChunks : Option Nat
  promptHorizonChunks : Nat

section Store

variable {config : SchedulerOffloadConfig} (manager : OffloadingManager)
  (reachableStoreBlockMask : GroupOffloadConfig → (startChunkIdx endChunkIdx : Nat) →
    (finalSegmentEndChunkIdx : Option Nat) → (reachableBoundaries : List Nat) →
      Option (List Bool))
  (req : RequestOffloadState config) (g : GroupOffloadConfig) (s : RequestGroupState)

/-- The range of a group, from the tokens that may be offloaded now and at the prompt's end. -/
def storeRange (numOffloadableTokens promptOffloadableTokens : Nat) : StoreRange :=
  let numChunks := req.storableChunks g s numOffloadableTokens
  let promptHorizonChunks := promptOffloadableTokens / g.tokensPerChunk
  let alignment := finalSwaAlignmentBlocks config g
  let reconsider := req.isFinished && decide (numChunks ≠ promptHorizonChunks) &&
    config.retentionInterval.isNone && alignment.isSome
  let storeHorizonChunks :=
    if config.retentionInterval.isSome || g.isEagleGroup then none
    else if req.isFinished then some numChunks
    else if numChunks ≤ promptHorizonChunks then some promptHorizonChunks
    else none
  let startChunkIdx := match reconsider, alignment with
    | true, some alignmentBlocks =>
      let horizonBlocks := numChunks * config.blocksPerChunk
      let partialSegmentStartBlock := horizonBlocks - horizonBlocks % alignmentBlocks
      min s.nextStoredChunkIdx (partialSegmentStartBlock / config.blocksPerChunk)
    | _, _ => s.nextStoredChunkIdx
  ⟨startChunkIdx, numChunks, reconsider, storeHorizonChunks, promptHorizonChunks⟩

/-- `any(mask[key_idx * blocks_per_chunk + b] for b in range(blocks_per_chunk))`. -/
def anyBlock (blocksPerChunk : Nat) (mask : List Bool) (keyIdx : Nat) : Except PyError Bool :=
  (List.range blocksPerChunk).anyM fun b => pyGet mask (keyIdx * blocksPerChunk + b)

variable (range : StoreRange)

/-- Whether the chunk at `keyIdx` of the range, with its last block, is offered. -/
def offers (blockMask promptHorizonBlockMask : Option (List Bool))
    (blockId keyIdx : Nat) : Except PyError Bool := do
  if blockId = 0 then .ok false
  else
    let keptBefore ←
      if range.reconsiderFinalSwaTail &&
          decide (range.startChunkIdx + keyIdx < s.nextStoredChunkIdx) then
        match promptHorizonBlockMask with
        | none => .ok true
        | some mask => anyBlock config.blocksPerChunk mask keyIdx
      else .ok false
    if keptBefore then .ok false
    else match blockMask with
      | none => .ok true
      | some mask => anyBlock config.blocksPerChunk mask keyIdx

/-- The loop over the keys of a group with their last blocks. -/
def offerLoop (offer : (blockId keyIdx : Nat) → Except PyError Bool) :
    List ((OffloadKey × Nat) × Nat) → Except PyError (List OffloadKey)
  | [] => .ok []
  | ((offloadKey, blockId), keyIdx) :: rest => do
    let offered ← offer blockId keyIdx
    let more ← offerLoop offer rest
    .ok (if offered then offloadKey :: more else more)

/-- `new_offload_keys` of one group. -/
def newOffloadKeys : Except PyError (List OffloadKey) :=
  if g.requiresCowSource then .ok []
  else if range.numChunks ≤ range.startChunkIdx then .ok []
  else do
    let blocksPerChunk := config.blocksPerChunk
    let offloadKeys := slice s.offloadKeys range.startChunkIdx range.numChunks
    -- the last block of each chunk
    let offloadBlockIds := strided s.blockIds
      (range.startChunkIdx * blocksPerChunk + blocksPerChunk - 1)
      (range.numChunks * blocksPerChunk) blocksPerChunk
    pyAssert (offloadKeys.length = offloadBlockIds.length)
      "len(offload_keys) == len(offload_block_ids)"
    let blockMask := reachableStoreBlockMask g range.startChunkIdx range.numChunks
      range.storeHorizonChunks req.reachableBoundaries
    let promptHorizonBlockMask := if range.reconsiderFinalSwaTail then
        reachableStoreBlockMask g range.startChunkIdx range.numChunks
          (some range.promptHorizonChunks) req.reachableBoundaries
      else none
    offerLoop (@offers config s range blockMask promptHorizonBlockMask)
      (offloadKeys.zip offloadBlockIds).zipIdx

/-- The blocks of a chunk with their indices in the request. -/
def chunkBlocks (blockIds : List Nat) (blocksPerChunk chunkIdx : Nat) :
    Except PyError (List (Nat × Nat)) :=
  (List.range blocksPerChunk).mapM fun i => do
    let blockId ← pyGet blockIds (chunkIdx * blocksPerChunk + i)
    .ok (chunkIdx * blocksPerChunk + i, blockId)

/-- The loop that collects the source blocks of a group: its accepted chunks without the zeroed
blocks. -/
def sourceBlocks (blockIds : List Nat) (blocksPerChunk : Nat) (keysToStore : List OffloadKey) :
    List (OffloadKey × Nat) → Except PyError (List (Nat × Nat))
  | [] => .ok []
  | (offloadKey, chunkIdx) :: rest =>
    if offloadKey ∉ keysToStore then sourceBlocks blockIds blocksPerChunk keysToStore rest
    else do
      let blocks ← chunkBlocks blockIds blocksPerChunk chunkIdx
      let more ← sourceBlocks blockIds blocksPerChunk keysToStore rest
      .ok (blocks.filter (·.2 ≠ 0) ++ more)

def rangeKeys : List (OffloadKey × Nat) :=
  (slice s.offloadKeys range.startChunkIdx range.numChunks).zipIdx range.startChunkIdx

/-- `_build_store_jobs` for one request. -/
def buildStoreJob (numScheduledTokens : Nat) :
    Except PyError (RequestOffloadState config × Option TransferJob) := do
  let numOffloadableTokens := req.calcNumOffloadableTokens (req.numTokensAfterBatch numScheduledTokens)
  let promptOffloadableTokens := req.calcNumOffloadableTokens req.numPromptTokens
  let rangeOf := fun g s => storeRange req g s numOffloadableTokens promptOffloadableTokens
  let newKeys ← req.groups.mapM fun (g, s) =>
    newOffloadKeys reachableStoreBlockMask req g s (rangeOf g s)
  if newKeys.flatten = [] then .ok (req.advanceStoredIdx numOffloadableTokens, none)
  else match manager.keysToStore newKeys.flatten with
    | none => .ok (req, none)
    | some [] => .ok (req.advanceStoredIdx numOffloadableTokens, none)
    | some keysToStore => do
      let sources ← req.groups.mapM fun (g, s) =>
        sourceBlocks s.blockIds config.blocksPerChunk keysToStore (rangeKeys s (rangeOf g s))
      let gpuSpec ← GPULoadStoreSpec.new (sources.flatten.map (·.2)) (sources.map (·.length))
        (sources.map fun blocks => (blocks.head?.map (·.1)).getD 0)
      let fences := (config.kvGroupConfigs.zip sources).flatMap fun (g, blocks) =>
        if g.slidingWindowSizeInChunks.isSome then blocks.map (·.2) else []
      let deferredFences := (config.kvGroupConfigs.zip sources).flatMap fun (g, blocks) =>
        if g.slidingWindowSizeInChunks.isSome then [] else blocks.map (·.2)
      .ok (req.advance fun g s => max s.nextStoredChunkIdx (rangeOf g s).numChunks,
        some { isStore               := true
               keys                  := keysToStore
               gpuSpec               := gpuSpec
               cpuChunks             := keysToStore.map manager.chunkOf
               fencedBlockIds        := fences
               deferredFenceBlockIds := deferredFences })

end Store

section Load

variable {config : SchedulerOffloadConfig} (manager : OffloadingManager)
  (req : RequestOffloadState config)

/-- What is read of a block that the scheduler has allocated. -/
structure KVCacheBlock where
  blockId : Nat
  isNull : Bool
  hasHash : Bool

/-- `load_start_gpu_block_idx`: the first block from `first` on that is neither null nor hashed. -/
def loadStartGpuBlockIdx (groupBlocks : List KVCacheBlock) (first numGpuBlocks : Nat) : Nat :=
  match (slice groupBlocks first numGpuBlocks).findIdx? fun b => !b.isNull && !b.hasHash with
  | some i => first + i
  | none => numGpuBlocks

/-- What one group adds to a load job. -/
structure GroupLoad where
  keys : List OffloadKey
  blockIds : List Nat
  size : Nat
  blockIndex : Nat

/-- The keys that a group adds to `keys_to_load`. -/
def groupKeysToLoad (g : GroupOffloadConfig) (s : RequestGroupState)
    (numCachedTokens loadStart numPendingGpuBlocks : Nat) : Except PyError (List OffloadKey) :=
  if numPendingGpuBlocks = 0 then .ok []
  else do
    let startChunkIdx := loadStart / config.blocksPerChunk
    let endChunkIdx := cdiv numCachedTokens g.tokensPerChunk -
      (if req.partialTailBoundary.isSome then 1 else 0)
    pyAssert (endChunkIdx ≤ s.offloadKeys.length) "len(offload_keys) >= end_chunk_idx"
    match req.partialTailBoundary with
    | none => .ok (slice s.offloadKeys startChunkIdx endChunkIdx)
    | some boundary => do
      let key ← req.makeBoundaryKey g.groupIdx boundary
      .ok (slice s.offloadKeys startChunkIdx endChunkIdx ++ [key])

/-- The loop body of `update_state_after_alloc`. -/
def loadGroup (g : GroupOffloadConfig) (s : RequestGroupState) (groupBlocks : List KVCacheBlock)
    (numCachedTokens : Nat) : Except PyError GroupLoad := do
  let numGpuBlocks := cdiv numCachedTokens g.tokensPerBlock
  pyAssert (numGpuBlocks ≤ groupBlocks.length) "len(group_blocks) >= num_gpu_blocks"
  let loadStart := loadStartGpuBlockIdx groupBlocks
    (cdiv req.numLocallyComputedTokens g.tokensPerBlock) numGpuBlocks
  pyAssert (req.numLocallyComputedTokens % g.tokensPerBlock = 0)
    "num_locally_computed_tokens % tokens_per_block == 0"
  let numPendingGpuBlocks := numGpuBlocks - loadStart
  pyAssert (∀ window, g.slidingWindowSizeInChunks = some window →
    numPendingGpuBlocks ≤ window * config.blocksPerChunk + 1)
    "num_pending_gpu_blocks <= sliding_window_size_in_chunks * blocks_per_chunk + 1"
  let keys ← groupKeysToLoad req g s numCachedTokens loadStart numPendingGpuBlocks
  .ok { keys       := keys
        blockIds   := (slice groupBlocks loadStart numGpuBlocks).map (·.blockId)
        size       := numPendingGpuBlocks
        blockIndex := loadStart }

/-- `update_state_after_alloc`. -/
def updateStateAfterAlloc (blocks : List (List KVCacheBlock)) (numExternalTokens : Nat) :
    Except PyError (RequestOffloadState config × Option TransferJob) :=
  if numExternalTokens = 0 then .ok (req, none)
  else do
    let numCachedTokens := req.numLocallyComputedTokens + numExternalTokens
    pyAssert (∀ boundary, req.partialTailBoundary = some boundary → boundary = numCachedTokens)
      "partial_tail_boundary == num_cached_tokens"
    let loads ← req.groups.mapM fun (g, s) => do
      let groupBlocks ← pyGet blocks g.groupIdx
      loadGroup req g s groupBlocks numCachedTokens
    let keysToLoad := loads.flatMap (·.keys)
    let gpuSpec ← GPULoadStoreSpec.new (loads.flatMap (·.blockIds)) (loads.map (·.size))
      (loads.map (·.blockIndex))
    let advanced := req.advance fun g s =>
      if req.chunkLevel then cdiv numCachedTokens g.tokensPerChunk else s.nextStoredChunkIdx
    .ok ({ advanced with
           partialTailBoundary := none
           tail                := nofun },
      some { isStore   := false
             keys      := keysToLoad
             gpuSpec   := gpuSpec
             cpuChunks := keysToLoad.map manager.chunkOf })

/-- A handed-off boundary state: its group, the block that holds it and the tokens it ends. -/
structure BoundaryState where
  groupIdx : Nat
  blockId : Nat
  boundary : Nat
  positive : 0 < boundary

/-- The job of one block: `group_sizes` and `block_indices` are zero but for its group. -/
def singleBlockSpec (config : SchedulerOffloadConfig) (configIdx blockId blockIdx : Nat) :
    Except PyError GPULoadStoreSpec :=
  let zeros := List.replicate config.kvGroupConfigs.length 0
  GPULoadStoreSpec.new [blockId] (zeros.set configIdx 1) (zeros.set configIdx blockIdx)

/-- `_build_aligned_boundary_store_jobs` for one entry of one request. -/
def buildAlignedBoundaryStoreJob (entry : BoundaryState) :
    Except PyError (Option TransferJob) :=
  match config.kvGroupConfigs.zipIdx.find? fun (g, _) => g.groupIdx = entry.groupIdx with
  | none => .ok none
  | some (g, configIdx) =>
    if entry.blockId = 0 ∨ req.calcNumOffloadableTokens req.numTokens < entry.boundary ∨
        entry.boundary % g.tokensPerChunk ≠ 0 then .ok none
    else do
      let key ← req.makeBoundaryKey entry.groupIdx entry.boundary
      match manager.keysToStore [key] with
      | none => .ok none
      | some [] => .ok none
      | some keysToStore => do
        let gpuSpec ← singleBlockSpec config configIdx entry.blockId
          (entry.boundary / g.tokensPerBlock - 1)
        .ok (some { isStore        := true
                    keys           := [key]
                    gpuSpec        := gpuSpec
                    cpuChunks      := keysToStore.map manager.chunkOf
                    fencedBlockIds := [entry.blockId] })

/-- `_partial_tail_block_size`. -/
def partialTailBlockSize (config : SchedulerOffloadConfig) : Nat :=
  if config.supportsPartialTail then (config.kvGroupConfigs.head?.map (·.tokensPerBlock)).getD 0
  else 0

/-- `cow_blocks`, where a later entry of a group replaces an earlier one. -/
def cowBlock (entries : List BoundaryState) (groupIdx : Nat) : Option Nat :=
  (entries.reverse.find? fun entry => entry.groupIdx = groupIdx).map (·.blockId)

/-- The block of a group that holds its state at the boundary. -/
def tailBlock (entries : List BoundaryState) (blockIdx : Nat) (g : GroupOffloadConfig)
    (s : RequestGroupState) : Except PyError Nat :=
  if g.requiresCowSource then
    match cowBlock entries g.groupIdx with
    | some blockId => .ok blockId
    | none => .error .key
  else pyGet s.blockIds blockIdx

/-- `accepted_groups`. -/
def acceptedGroups (keys keysToStore : List OffloadKey) : Except PyError (List Nat) :=
  keysToStore.mapM fun key => match keys.idxOf? key with
    | some idx => .ok idx
    | none => .error .key

/-- `_build_partial_tail_store_jobs` for one request. -/
def buildPartialTailStoreJob (handoffs : List BoundaryState) :
    Except PyError (Option TransferJob) :=
  if config.supportsPartialTail = false then .ok none
  else
    let entries := handoffs.filter fun entry => entry.boundary % partialTailBlockSize config ≠ 0
    match entries with
    | [] => .ok none
    | first :: _ => do
      let boundary := first.boundary
      pyAssert (∀ entry ∈ entries, entry.boundary = boundary) "len(boundaries) == 1"
      let maxBoundary := min req.numPromptTokens (match req.maxOffloadTokens with
        | some (cap + 1) => cap + 1
        | _ => req.numPromptTokens)
      pyAssert (boundary % config.tokensPerHash = 0) "boundary % self.config.tokens_per_hash == 0"
      pyAssert (boundary ≤ maxBoundary) "boundary <= max_boundary"
      pyAssert (∀ g ∈ config.kvGroupConfigs, g.requiresCowSource = true →
        (cowBlock entries g.groupIdx).isSome = true) "self._cow_source_groups.issubset(cow_blocks)"
      let blockIdx := boundary / partialTailBlockSize config
      if req.groups.any fun (g, s) => !g.requiresCowSource && decide (s.blockIds.length ≤ blockIdx)
      then .ok none
      else do
        let keys ← config.kvGroupConfigs.mapM fun g => req.makeBoundaryKey g.groupIdx boundary
        let blockIds ← req.groups.mapM fun (g, s) => tailBlock entries blockIdx g s
        pyAssert (∀ blockId ∈ blockIds, blockId ≠ 0) "all(block_id != 0 for block_id in block_ids)"
        match manager.keysToStore keys with
        | none => .ok none
        | some [] => .ok none
        | some keysToStore => do
          let accepted ← acceptedGroups keys keysToStore
          let zeros := List.replicate config.kvGroupConfigs.length 0
          let sources ← accepted.mapM (pyGet blockIds)
          let gpuSpec ← GPULoadStoreSpec.new sources
            (accepted.foldl (fun sizes idx => sizes.set idx 1) zeros)
            (accepted.foldl (fun indices idx => indices.set idx blockIdx) zeros)
          .ok (some { isStore        := true
                      keys           := keysToStore
                      gpuSpec        := gpuSpec
                      cpuChunks      := keysToStore.map manager.chunkOf
                      fencedBlockIds := sources })

end Load

end VllmAmpere.OffloadTransfer
