import VllmAmpere.CacheHitFinders
import VllmAmpere.PyDict

/-! The manager of one KV cache group: the block tables of its requests and the
calls that adopt, allocate, cache and free their blocks. -/

namespace VllmAmpere

/-- What a manager is built with, and what the coordinator sets once. -/
structure ManagerConfig where
  kvCacheSpec : KVCacheSpec
  /-- `self.dcp_world_size`, 1 for a spec that is not sharded. -/
  dcpWorldSize : Nat
  dcp_pos : 0 < dcpWorldSize
  cacheHitAlignmentTokens : Nat
  enableCaching : Bool
  recordNewBlockIds : Bool
  maxAdmissionBlocksPerRequest : Option Nat
  kvCacheGroupId : Nat
  useEagle : Bool

structure SingleTypeKVCacheManager extends ManagerConfig where
  newBlockIds : List BlockId
  reqToBlocks : PyDict String (List BlockId)
  numCachedBlock : PyDict String Nat
  partialHitReqs : PyDict String (Nat × BlockId)
  pendingCowCopies : List (BlockId × BlockId)

namespace SlidingWindowManager

/-- The blocks of `[startBlock, endBlock)` that can serve a later hit, or `none`
where all can. The boundaries of segments come first, then the given ones. -/
def reachableBlockMask (spec : KVCacheSpec) (window startBlock endBlock alignmentTokens : Nat)
    (useEagle : Bool) (retentionInterval : Option Nat) (reachableBoundaries : List Nat)
    (dcpWorldSize : Nat) : Option (List Bool) :=
  let blockSize := spec.blockSize * dcpWorldSize
  if alignmentTokens % blockSize ≠ 0 then none
  else
    let need := contiguousBlocksForHit window blockSize useEagle
    let shift := if useEagle then 1 else 0
    let segmentTokens : Option Nat := match retentionInterval with
      | none => some alignmentTokens
      | some 0 => none
      | some interval => some interval
    let inBoundaryTail (i : Nat) : Bool := retentionInterval.isSome &&
      reachableBoundaries.any fun boundaryTokens =>
        let aligned := boundaryTokens / alignmentTokens * alignmentTokens
        let stop := aligned / blockSize + shift
        stop - need ≤ i && i < stop
    match segmentTokens with
    | none => some ((List.range' startBlock (endBlock - startBlock)).map inBoundaryTail)
    | some segmentTokens =>
      let perSegment := segmentTokens / blockSize
      if need ≥ perSegment then none
      else
        some ((List.range' startBlock (endBlock - startBlock)).map fun i =>
          (decide (i ≥ shift) && decide ((i - shift) % perSegment ≥ perSegment - need)) ||
            inBoundaryTail i)

end SlidingWindowManager

namespace MambaManager

/-- The states of `[startBlock, endBlock)` that can serve a later hit, or `none`
where all can. -/
def reachableBlockMask (spec : KVCacheSpec) (startBlock endBlock alignmentTokens : Nat)
    (retentionInterval : Option Nat) (reachableBoundaries : List Nat) : Option (List Bool) :=
  let blockSize := spec.blockSize
  let atBoundary (i : Nat) : Bool := reachableBoundaries.any fun boundaryTokens =>
    let aligned := boundaryTokens / alignmentTokens * alignmentTokens
    i + 1 = aligned / blockSize
  match retentionInterval with
  | none => none
  | some 0 => some ((List.range' startBlock (endBlock - startBlock)).map atBoundary)
  | some interval =>
    let perSegment := interval / blockSize
    if perSegment ≤ 1 then none
    else
      some ((List.range' startBlock (endBlock - startBlock)).map fun i =>
        decide ((i + 1) % perSegment = 0) || atBoundary i)

end MambaManager

namespace SingleTypeKVCacheManager

def new (config : ManagerConfig) : SingleTypeKVCacheManager where
  toManagerConfig := config
  newBlockIds := []
  reqToBlocks := .empty
  numCachedBlock := .empty
  partialHitReqs := .empty
  pendingCowCopies := []

variable (m : SingleTypeKVCacheManager) (pool : BlockPool)

def blockSize : Nat := m.kvCacheSpec.blockSize * m.dcpWorldSize

variable (requestId : String)

/-- The blocks of a request; reading them off the `defaultdict` tracks the
request, see `setBlocks`. -/
def reqBlocks : List BlockId := (m.reqToBlocks.get? requestId).getD []

def setBlocks (blocks : List BlockId) : SingleTypeKVCacheManager :=
  { m with reqToBlocks := m.reqToBlocks.set requestId blocks }

/-- `self.req_to_blocks[request_id]`, read only. -/
def readBlocks : SingleTypeKVCacheManager :=
  m.setBlocks requestId (m.reqBlocks requestId)

/-- `get_num_skipped_tokens` of the manager class of the spec. -/
def getNumSkippedTokens (numComputedTokens : Nat) : Nat :=
  match m.kvCacheSpec.kind with
  | .fullAttention => 0
  | .slidingWindow slidingWindow extraRetainedTokens =>
    numComputedTokens + 1 - (slidingWindow + extraRetainedTokens)
  | .chunkedLocalAttention attentionChunkSize =>
    numComputedTokens / attentionChunkSize * attentionChunkSize
  | .mamba _ => numComputedTokens - 1

/-- `reachable_block_mask` of the manager class of the spec. -/
def reachableBlockMask (startBlock endBlock : Nat) (retentionInterval : Option Nat)
    (reachableBoundaries : List Nat) : Option (List Bool) :=
  match m.kvCacheSpec.kind with
  | .fullAttention | .chunkedLocalAttention _ => none
  | .slidingWindow slidingWindow _ =>
    SlidingWindowManager.reachableBlockMask m.kvCacheSpec slidingWindow startBlock endBlock
      m.cacheHitAlignmentTokens m.useEagle retentionInterval reachableBoundaries m.dcpWorldSize
  | .mamba _ =>
    MambaManager.reachableBlockMask m.kvCacheSpec startBlock endBlock m.cacheHitAlignmentTokens
      retentionInterval reachableBoundaries

def hasPartialLocalHit (newComputedBlocks : List BlockId) (numLocalComputedTokens : Nat) : Bool :=
  0 < newComputedBlocks.length && numLocalComputedTokens % m.blockSize ≠ 0

def addLocalComputedBlocks (newComputedBlocks : List BlockId)
    (numLocalComputedTokens numExternalComputedTokens : Nat) :
    Except PyError (BlockPool × SingleTypeKVCacheManager) := do
  pyAssert ((m.reqBlocks requestId).length = 0) "len(req_blocks) == 0"
  let numTotalComputedTokens := numLocalComputedTokens + numExternalComputedTokens
  let numSkippedBlocks := m.getNumSkippedTokens numTotalComputedTokens / m.blockSize
  let newComputedBlocks := newComputedBlocks.drop numSkippedBlocks
  let pool ← (if m.enableCaching then BlockPool.touch newComputedBlocks pool
    else do
      pyAssert (newComputedBlocks = [])
        "Computed blocks should be empty when prefix caching is disabled"
      .ok pool)
  let reqBlocks := List.replicate numSkippedBlocks pool.nullBlock ++ newComputedBlocks
  let m := m.setBlocks requestId reqBlocks
  if m.hasPartialLocalHit newComputedBlocks numLocalComputedTokens then
    let blockIdx := numLocalComputedTokens / m.blockSize
    .ok (pool, { m with
      partialHitReqs := m.partialHitReqs.set requestId
        (blockIdx, newComputedBlocks.getLastD pool.nullBlock)
      numCachedBlock := m.numCachedBlock.set requestId blockIdx })
  else
    .ok (pool, { m with numCachedBlock := m.numCachedBlock.set requestId reqBlocks.length })

def allocateExternalComputedBlocks
    (numLocalComputedTokens numExternalComputedTokens : Nat) :
    Except PyError (BlockPool × SingleTypeKVCacheManager) :=
  let numTotalComputedTokens := numLocalComputedTokens + numExternalComputedTokens
  let numSkippedTokens := m.getNumSkippedTokens numTotalComputedTokens
  let numExternalComputedTokens := if numSkippedTokens > 0 then
      min (numTotalComputedTokens - numSkippedTokens) numExternalComputedTokens
    else numExternalComputedTokens
  if numExternalComputedTokens = 0 then .ok (pool, m)
  else do
    let reqBlocks := m.reqBlocks requestId
    let numNewBlocks := cdiv numTotalComputedTokens m.blockSize - reqBlocks.length
    let (allocatedBlocks, pool) ← pool.getNewBlocks numNewBlocks
    .ok (pool, { m.setBlocks requestId (reqBlocks ++ allocatedBlocks) with
      newBlockIds := if m.recordNewBlockIds then m.newBlockIds ++ allocatedBlocks
        else m.newBlockIds })

/-- `_apply_cow`, with the reference that `cow_block` takes beyond the request's. -/
def applyCow (blockIdx : Nat) (sourceBlock cowBlock : BlockId) :
    Except PyError (BlockPool × SingleTypeKVCacheManager) := do
  let reqBlocks := m.reqBlocks requestId
  pyAssert (blockIdx < reqBlocks.length) "block_idx < len(req_blocks)"
  pyAssert (reqBlocks[blockIdx]? = some sourceBlock) "req_blocks[block_idx] is source_block"
  pyAssert (!(pool.blocks sourceBlock).isNull ∧ (pool.blocks sourceBlock).refCnt > 0)
    "not source_block.is_null and source_block.ref_cnt > 0"
  .ok (pool.setBlock cowBlock
      { pool.blocks cowBlock with refCnt := (pool.blocks cowBlock).refCnt + 1 },
    { m.setBlocks requestId (reqBlocks.set blockIdx cowBlock) with
      pendingCowCopies := m.pendingCowCopies ++ [(sourceBlock, cowBlock)] })

/-- The copy-on-write redirect of `allocate_new_blocks`: its block, when it makes one. -/
def redirectPartialHit :
    Except PyError (List BlockId × BlockPool × SingleTypeKVCacheManager) :=
  match m.partialHitReqs.get? requestId with
  | none => .ok ([], pool, m)
  | some (blockIdx, sourceBlock) => do
    let (cowBlocks, pool) ← pool.getNewBlocks 1
    let cowBlock ← pyGet cowBlocks 0
    let (pool, m) ← { m with partialHitReqs := m.partialHitReqs.pop requestId }.applyCow pool
      requestId blockIdx sourceBlock cowBlock
    .ok ([cowBlock], pool, { m with newBlockIds := m.newBlockIds ++ [cowBlock] })

def allocateNewBlocks (numTokens : Nat) :
    Except PyError (List BlockId × BlockPool × SingleTypeKVCacheManager) := do
  let (cowBlocks, pool, m) ← m.redirectPartialHit pool requestId
  let reqBlocks := m.reqBlocks requestId
  let numNewBlocks := cdiv numTokens m.blockSize - reqBlocks.length
  if numNewBlocks = 0 then .ok (cowBlocks, pool, m.readBlocks requestId)
  else
    let (newBlocks, pool) ← pool.getNewBlocks numNewBlocks
    .ok (cowBlocks ++ newBlocks, pool, { m.setBlocks requestId (reqBlocks ++ newBlocks) with
      newBlockIds := if m.recordNewBlockIds then m.newBlockIds ++ newBlocks else m.newBlockIds })

def takeNewBlockIds : List BlockId × SingleTypeKVCacheManager :=
  (m.newBlockIds, { m with newBlockIds := [] })

def takePendingCowCopies : List (BlockId × BlockId) × SingleTypeKVCacheManager :=
  (m.pendingCowCopies, { m with pendingCowCopies := [] })

/-- `cache_blocks` of the base class. -/
def cacheBlocks (request : Request) (numTokens : Nat) (retentionInterval : Option Nat)
    (replayBoundaries : List Nat) : Except PyError (BlockPool × SingleTypeKVCacheManager) :=
  if !m.kvCacheSpec.prefixCacheable then .ok (pool, m)
  else
    let numCachedBlocks := (m.numCachedBlock.get? request.requestId).getD 0
    let numFullBlocks := numTokens / m.blockSize
    if numCachedBlocks ≥ numFullBlocks then .ok (pool, m)
    else do
      let reachableBoundaries := replayBoundaries ++
        if request.sharedPrefixBoundary = 0 then [] else [request.sharedPrefixBoundary]
      let blockMask := m.reachableBlockMask numCachedBlocks numFullBlocks retentionInterval
        reachableBoundaries
      let pool ← pool.cacheFullBlocks request (m.reqBlocks request.requestId) numCachedBlocks
        numFullBlocks m.blockSize m.kvCacheGroupId blockMask
      .ok (pool, { m.readBlocks request.requestId with
        numCachedBlock := m.numCachedBlock.set request.requestId numFullBlocks })

def popBlocksForFree : List BlockId × SingleTypeKVCacheManager :=
  (m.reqBlocks requestId, { m with
    reqToBlocks := m.reqToBlocks.pop requestId
    numCachedBlock := m.numCachedBlock.pop requestId
    partialHitReqs := m.partialHitReqs.pop requestId })

def free : Except PyError (BlockPool × SingleTypeKVCacheManager) := do
  let (reqBlocks, m) := m.popBlocksForFree requestId
  let pool ← pool.freeOwnBlocks reqBlocks.reverse
  .ok (pool, m)

/-- The blocks nulled by `_remove_blocks_in_range`: from the end of the range back
to the first null block. -/
def removableBlocks (nullBlock : BlockId) (blocks : List BlockId) (firstBlock : Nat) :
    (count : Nat) → List Nat
  | 0 => []
  | n + 1 =>
    if blocks[firstBlock + n]? = some nullBlock then []
    else (firstBlock + n) :: removableBlocks nullBlock blocks firstBlock n

def removeBlocksInRange (firstBlock lastBlock : Nat) :
    Except PyError (BlockPool × SingleTypeKVCacheManager) :=
  match m.reqToBlocks.get? requestId with
  | none => .ok (pool, m)
  | some blocks =>
    if firstBlock ≥ lastBlock then .ok (pool, m)
    else do
      let lastBlock := min lastBlock blocks.length
      let removed := removableBlocks pool.nullBlock blocks firstBlock (lastBlock - firstBlock)
      let freed := removed.filterMap fun i => blocks[i]?
      let m := m.setBlocks requestId
        (removed.foldl (fun blocks i => blocks.set i pool.nullBlock) blocks)
      if freed = [] then .ok (pool, m)
      else
        let pool ← pool.freeOwnBlocks freed
        .ok (pool, m)

/-- `remove_skipped_blocks` of the base class. -/
def removeSkippedBlocks (processedComputedTokens : Nat) :
    Except PyError (BlockPool × SingleTypeKVCacheManager) :=
  let numSkippedTokens := m.getNumSkippedTokens processedComputedTokens
  if numSkippedTokens = 0 then .ok (pool, m)
  else
    let blocks := m.reqBlocks requestId
    let numSkippedBlocks := min (numSkippedTokens / m.blockSize) blocks.length
    (m.readBlocks requestId).removeBlocksInRange pool requestId 0 numSkippedBlocks

end SingleTypeKVCacheManager

namespace FullAttentionManager

variable (m : SingleTypeKVCacheManager) (pool : BlockPool)

def cachePartialTailBlock (request : Request) (numTokens : Nat) :
    Except PyError (BlockPool × SingleTypeKVCacheManager) :=
  let boundaryTokens := request.numPromptTokens / pool.hashBlockSize * pool.hashBlockSize
  if boundaryTokens = 0 ∨ boundaryTokens > numTokens then .ok (pool, m)
  else if boundaryTokens % m.blockSize = 0 then .ok (pool, m)
  else
    let blocks := m.reqBlocks request.requestId
    let m := m.readBlocks request.requestId
    match blocks[boundaryTokens / m.blockSize]? with
    | none => .ok (pool, m)
    | some block => do
      let (_, pool) ← pool.cachePartialBlock request block boundaryTokens m.kvCacheGroupId
        m.blockSize false
      .ok (pool, m)

def cacheBlocks (request : Request) (numTokens : Nat) (retentionInterval : Option Nat)
    (replayBoundaries : List Nat) : Except PyError (BlockPool × SingleTypeKVCacheManager) := do
  let (pool, m) ← m.cacheBlocks pool request numTokens retentionInterval replayBoundaries
  if m.blockSize = pool.hashBlockSize then .ok (pool, m)
  else cachePartialTailBlock m pool request numTokens

def numCommonPrefixLoop (numRequests : Nat) : List BlockId → Nat
  | [] => 0
  | b :: rest =>
    if (pool.blocks b).refCnt = numRequests then numCommonPrefixLoop numRequests rest + 1 else 0

def getNumCommonPrefixBlocks (runningRequestId : String) : Nat × SingleTypeKVCacheManager :=
  let m := m.readBlocks runningRequestId
  (numCommonPrefixLoop pool m.reqToBlocks.len (m.reqBlocks runningRequestId), m)

end FullAttentionManager

end VllmAmpere
