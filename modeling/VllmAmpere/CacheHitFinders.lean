import VllmAmpere.BlockPool

/-! The cache hit finders: for each kind of KV cache spec, the longest prefix of
a request's block hashes that the groups sharing the spec can serve. -/

namespace VllmAmpere

inductive MambaCacheMode
  | none
  | all
  | align
  deriving DecidableEq, Repr

inductive SpecKind
  | fullAttention
  | slidingWindow (slidingWindow extraRetainedTokens : Nat)
  | chunkedLocalAttention (attentionChunkSize : Nat)
  | mamba (mambaCacheMode : MambaCacheMode)
  deriving DecidableEq, Repr

/-- A KV cache spec. The fields that are only compared, such as head sizes and
dtypes, are one `layout`. -/
@[ext]
structure KVCacheSpec where
  kind : SpecKind
  blockSize : Nat
  dcpSharded : Bool
  prefixCacheable : Bool
  layout : Nat
  blockSize_pos : 0 < blockSize
  chunk_pos : ∀ chunk, kind = .chunkedLocalAttention chunk → 0 < chunk

instance : DecidableEq KVCacheSpec := fun _ _ => decidable_of_iff' _ KVCacheSpec.ext_iff

namespace SpecKind

def isFullAttention : SpecKind → Bool
  | fullAttention => true
  | _ => false

def isChunkedLocalAttention : SpecKind → Bool
  | chunkedLocalAttention _ => true
  | _ => false

def isMamba : SpecKind → Bool
  | mamba _ => true
  | _ => false

/-- `supports_fine_grained_hash_lookup` of the manager class of the kind. -/
def supportsFineGrainedHashLookup (kind : SpecKind) : Bool :=
  kind.isFullAttention || kind.isMamba

end SpecKind

/-- The arguments of a `find_longest_cache_hit` call that stay the same while a
request is looked up. -/
structure CacheHitQuery where
  blockHashes : List BlockHash
  kvCacheGroupIds : List Nat
  blockPool : BlockPool
  kvCacheSpec : KVCacheSpec
  alignmentTokens : Nat
  dcpWorldSize : Nat
  pcpWorldSize : Nat

/-- One block for each group of a query. -/
abbrev BlockRow := List BlockId

namespace CacheHitQuery

variable (q : CacheHitQuery)

def getCachedBlock (blockHash : BlockHash) : Option BlockRow :=
  q.blockPool.getCachedBlock blockHash q.kvCacheGroupIds

def nullRow : BlockRow := q.kvCacheGroupIds.map fun _ => q.blockPool.nullBlock

/-- `computed_blocks`: the finders extend the lists of all groups alike, so they
are kept as rows and split by group at the end. -/
def computedBlocks (rows : List BlockRow) : List (List BlockId) :=
  (List.range q.kvCacheGroupIds.length).map fun k =>
    rows.map fun row => row.getD k q.blockPool.nullBlock

def resolve (blockSize : Nat) : Except PyError BlockHashList :=
  resolveBlockHashes (.list q.blockHashes) q.blockPool.hashBlockSize blockSize
    q.kvCacheSpec.kind.supportsFineGrainedHashLookup (some q.alignmentTokens)

/-- The scan for full blocks, stopped at the first miss. -/
def cachedRun : List BlockHash → List BlockRow
  | [] => []
  | blockHash :: rest =>
    match q.getCachedBlock blockHash with
    | none => []
    | some cached => cached :: cachedRun rest

/-- The scan from index `first + count - 1` down to `first` for a cached hash
whose index is accepted. -/
def searchDown (blockHashes : BlockHashList) (accept : Nat → Bool) (first : Nat) :
    (count : Nat) → Except PyError (Option (Nat × BlockRow))
  | 0 => .ok none
  | n + 1 => do
    let blockHash ← blockHashes.getItem (first + n)
    match q.getCachedBlock blockHash with
    | none => searchDown blockHashes accept first n
    | some cached =>
      if accept (first + n) then .ok (some (first + n, cached))
      else searchDown blockHashes accept first n

/-- The entries that stay when unaligned lists are popped from the end. -/
def alignedCount (blockSize : Nat) : Nat → Nat
  | 0 => 0
  | n + 1 =>
    if (n + 1) * blockSize % q.alignmentTokens ≠ 0 then alignedCount blockSize n else n + 1

def popUnaligned (blockSize : Nat) (rows : List BlockRow) : List BlockRow :=
  if blockSize = q.alignmentTokens then rows
  else rows.take (q.alignedCount blockSize rows.length)

end CacheHitQuery

namespace FullAttentionManager

variable (q : CacheHitQuery)

/-- The EAGLE drop, the alignment and the trim that end the lookup. -/
def trimHit (dropEagleBlock : Bool) (blockSize : Nat)
    (rows : List BlockRow) (hitLength : Nat) : List BlockRow × Nat :=
  let hitLength :=
    if dropEagleBlock ∧ 0 < hitLength then hitLength - min q.alignmentTokens blockSize
    else hitLength
  let hitLength := hitLength - hitLength % q.alignmentTokens
  (rows.take (cdiv hitLength blockSize), hitLength)

/-- The lookup with fine-grained hashes: full blocks, then the interior hash
boundaries of the first block that is not full. -/
def findFineGrained (hashes : List BlockHash) (blockSize maxLength : Nat) :
    Except PyError (List BlockRow × Nat) := do
  let scaleFactor := blockSize / q.alignmentTokens
  let fullBlockHashes := BlockHashList.withBlockSize hashes scaleFactor
  let rows := q.cachedRun ((fullBlockHashes.sliceFrom 0).take (maxLength / blockSize))
  let firstPartialIdx := rows.length * scaleFactor
  let maxPartialIdx :=
    min (min (firstPartialIdx + scaleFactor - 1) (maxLength / q.alignmentTokens)) hashes.length
  let tail ← q.searchDown (.list hashes) (fun _ => true) firstPartialIdx
    (maxPartialIdx - firstPartialIdx)
  match tail with
  | none => .ok (rows, rows.length * blockSize)
  | some (fineIdx, cachedTail) => .ok (rows ++ [cachedTail], (fineIdx + 1) * q.alignmentTokens)

def findLongestCacheHit (maxLength : Nat) (dropEagleBlock : Bool) :
    Except PyError (List BlockRow × Nat) := do
  pyAssert (q.kvCacheSpec.kind.isFullAttention || q.kvCacheSpec.kind.isChunkedLocalAttention)
    "FullAttentionManager can only be used for full attention and chunked local attention groups"
  let blockSize :=
    if 1 < q.dcpWorldSize then q.kvCacheSpec.blockSize * q.dcpWorldSize
    else q.kvCacheSpec.blockSize
  let blockHashes ← q.resolve blockSize
  let (rows, hitLength) ← (
    if q.alignmentTokens < blockSize ∧ blockSize % q.alignmentTokens = 0 then
      match blockHashes with
      | .list hashes => findFineGrained q hashes blockSize maxLength
      | .withBlockSize _ _ => .error (.assertion "isinstance(block_hashes, Sequence)")
    else
      let rows := q.cachedRun ((blockHashes.sliceFrom 0).take (maxLength / blockSize))
      .ok (rows, rows.length * blockSize))
  .ok (trimHit q dropEagleBlock blockSize rows hitLength)

end FullAttentionManager

namespace SlidingWindowManager

def contiguousBlocksForHit (windowSize blockSize : Nat) (useEagle : Bool) : Nat :=
  cdiv (windowSize - 1) blockSize + if useEagle then 1 else 0

/-- The scan from block `i - 1` down; it returns whether a match was found, the
length of the current run and the lists. -/
def searchWindow (q : CacheHitQuery) (blockHashes : BlockHashList) (dropEagleBlock : Bool)
    (need : Nat) :
    (i numContiguousBlocks : Nat) → List BlockRow →
      Except PyError (Bool × Nat × List BlockRow)
  | 0, numContiguousBlocks, rows => .ok (false, numContiguousBlocks, rows)
  | i + 1, numContiguousBlocks, rows => do
    let blockHash ← blockHashes.getItem i
    match q.getCachedBlock blockHash with
    | none => searchWindow q blockHashes dropEagleBlock need i 0 rows
    | some cached =>
      let postPopBlocks := if dropEagleBlock then i else i + 1
      if numContiguousBlocks = 0 ∧ q.kvCacheSpec.blockSize ≠ q.alignmentTokens ∧
          postPopBlocks * q.kvCacheSpec.blockSize % q.alignmentTokens ≠ 0 then
        searchWindow q blockHashes dropEagleBlock need i numContiguousBlocks rows
      else
        let rows := rows.set i cached
        let numContiguousBlocks := numContiguousBlocks + 1
        if need ≤ numContiguousBlocks then
          .ok (true, numContiguousBlocks, rows.take (i + numContiguousBlocks))
        else searchWindow q blockHashes dropEagleBlock need i numContiguousBlocks rows

def findLongestCacheHit (q : CacheHitQuery) (maxLength : Nat) (dropEagleBlock : Bool) :
    Except PyError (List BlockRow × Nat) :=
  match q.kvCacheSpec.kind with
  | .slidingWindow slidingWindow _ => do
    pyAssert (q.dcpWorldSize = 1) "DCP not support sliding window attn now."
    pyAssert (q.pcpWorldSize = 1) "PCP not support sliding window attn now."
    let blockSize := q.kvCacheSpec.blockSize
    let blockHashes ← q.resolve blockSize
    let maxNumBlocks := maxLength / blockSize
    let (matchFound, numContiguousBlocks, rows) ←
      searchWindow q blockHashes dropEagleBlock
        (contiguousBlocksForHit slidingWindow blockSize dropEagleBlock)
        maxNumBlocks 0 (List.replicate maxNumBlocks q.nullRow)
    let rows :=
      if matchFound then rows
      else q.popUnaligned blockSize (rows.take numContiguousBlocks)
    let rows :=
      if dropEagleBlock ∧ rows ≠ [] then q.popUnaligned blockSize rows.dropLast else rows
    .ok (rows, rows.length * blockSize)
  | _ => .error (.assertion "SlidingWindowManager can only be used for sliding window groups")

end SlidingWindowManager

namespace ChunkedLocalAttentionManager

/-- The scan of the blocks inside the window, stopped at the first miss. -/
def cachedFrom (q : CacheHitQuery) (blockHashes : BlockHashList) (i : Nat) :
    (count : Nat) → Except PyError (List BlockRow)
  | 0 => .ok []
  | n + 1 => do
    let blockHash ← blockHashes.getItem i
    match q.getCachedBlock blockHash with
    | none => .ok []
    | some cached => do
      let rest ← cachedFrom q blockHashes (i + 1) n
      .ok (cached :: rest)

def findLongestCacheHit (q : CacheHitQuery) (maxLength : Nat) (dropEagleBlock : Bool) :
    Except PyError (List BlockRow × Nat) :=
  match q.kvCacheSpec.kind with
  | .chunkedLocalAttention attentionChunkSize => do
    pyAssert (dropEagleBlock = false)
      "Hybrid KV cache is not supported for eagle + chunked local attention."
    pyAssert (q.dcpWorldSize = 1) "DCP not support chunked local attn now."
    pyAssert (q.pcpWorldSize = 1) "PCP not support chunked local attn now."
    pyAssert (q.kvCacheSpec.blockSize = q.alignmentTokens)
      "KV cache groups with different block sizes are not compatible with chunked local attention now"
    let blockSize := q.kvCacheSpec.blockSize
    let blockHashes ← q.resolve blockSize
    let maxNumBlocks := maxLength / blockSize
    let localAttentionStartIdx :=
      if 0 < maxLength then maxLength / attentionChunkSize * attentionChunkSize else 0
    let localAttentionStartBlockIdx := localAttentionStartIdx / blockSize
    let hits ← cachedFrom q blockHashes localAttentionStartBlockIdx
      (maxNumBlocks - localAttentionStartBlockIdx)
    let rows := List.replicate localAttentionStartBlockIdx q.nullRow ++ hits
    .ok (rows, rows.length * blockSize)
  | _ => .error
      (.assertion "ChunkedLocalAttentionManager can only be used for chunked local attention groups")

end ChunkedLocalAttentionManager

namespace MambaManager

variable (q : CacheHitQuery)

def stateRows (blockIdx : Nat) (cached : BlockRow) : List BlockRow :=
  List.replicate blockIdx q.nullRow ++ [cached]

/-- The search for the last hash boundary with a cached state. -/
def findFineGrained (hashes : List BlockHash) (maxLength : Nat) :
    Except PyError (List BlockRow × Nat) := do
  let scaleFactor := q.kvCacheSpec.blockSize / q.alignmentTokens
  let maxNumPartialUnits := min (maxLength / q.alignmentTokens) hashes.length
  let state ← q.searchDown (.list hashes) (fun _ => true) 0 maxNumPartialUnits
  match state with
  | none => .ok ([], 0)
  | some (fineIdx, cached) =>
    .ok (stateRows q (fineIdx / scaleFactor) cached, (fineIdx + 1) * q.alignmentTokens)

/-- The search for the last aligned block with a cached state. -/
def findAligned (blockHashes : BlockHashList) (maxLength : Nat) :
    Except PyError (List BlockRow × Nat) := do
  let blockSize := q.kvCacheSpec.blockSize
  let aligned (i : Nat) : Bool :=
    blockSize == q.alignmentTokens || (i + 1) * blockSize % q.alignmentTokens == 0
  let state ← q.searchDown blockHashes aligned 0 (maxLength / blockSize)
  match state with
  | none => .ok ([], 0)
  | some (i, cached) => .ok (stateRows q i cached, (i + 1) * blockSize)

/-- Draft models have no Mamba layers, so nothing is dropped for EAGLE. -/
def findLongestCacheHit (maxLength : Nat) (_dropEagleBlock : Bool) :
    Except PyError (List BlockRow × Nat) :=
  match q.kvCacheSpec.kind with
  | .mamba _ => do
    pyAssert (q.dcpWorldSize = 1) "DCP not support mamba now."
    pyAssert (q.pcpWorldSize = 1) "PCP not support mamba now."
    let blockSize := q.kvCacheSpec.blockSize
    let blockHashes ← q.resolve blockSize
    if q.alignmentTokens < blockSize ∧ blockSize % q.alignmentTokens = 0 then
      match blockHashes with
      | .list hashes => findFineGrained q hashes maxLength
      | .withBlockSize _ _ => .error (.assertion "isinstance(block_hashes, Sequence)")
    else findAligned q blockHashes maxLength
  | _ => .error (.assertion "MambaManager can only be used for mamba groups")

end MambaManager

/-- `find_longest_cache_hit` of the manager class of the spec. -/
def CacheHitQuery.findLongestCacheHit (q : CacheHitQuery) (maxLength : Nat)
    (dropEagleBlock : Bool) : Except PyError (List BlockRow × Nat) :=
  match q.kvCacheSpec.kind with
  | .fullAttention => FullAttentionManager.findLongestCacheHit q maxLength dropEagleBlock
  | .slidingWindow _ _ => SlidingWindowManager.findLongestCacheHit q maxLength dropEagleBlock
  | .chunkedLocalAttention _ =>
    ChunkedLocalAttentionManager.findLongestCacheHit q maxLength dropEagleBlock
  | .mamba _ => MambaManager.findLongestCacheHit q maxLength dropEagleBlock

end VllmAmpere
