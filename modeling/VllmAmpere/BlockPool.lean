import Mathlib.Data.List.Perm.Basic
import VllmAmpere.BlockHashing
import VllmAmpere.FreeKVCacheBlockQueue

/-! The forward index of the prefix cache, from a hash key to one block or to a
dict of the blocks that share it. -/

open Function

namespace VllmAmpere

/-- A block hash packed with its KV cache group id. -/
structure BlockHashWithGroupId where
  blockHash : BlockHash
  groupId : Nat
  deriving DecidableEq, Repr

/-- What a key maps to. A dict is never left empty, so its first entry is a field. -/
inductive CachedBlocks
  | single (block : BlockId)
  | dict (first : BlockId) (rest : List BlockId)
  deriving DecidableEq, Repr

structure BlockHashToBlockMap where
  cache : BlockHashWithGroupId → Option CachedBlocks

namespace BlockHashToBlockMap

variable (m : BlockHashToBlockMap) (key : BlockHashWithGroupId) (block : BlockId)

def empty : BlockHashToBlockMap := ⟨fun _ => none⟩

def getOneBlock : Option BlockId :=
  match m.cache key with
  | none => none
  | some (.single block) => some block
  | some (.dict first _) => some first

def contain : Bool :=
  match m.cache key with
  | none => false
  | some (.single b) => b == block
  | some (.dict first rest) => (first :: rest).contains block

def insert : BlockHashToBlockMap :=
  match m.cache key with
  | none => ⟨update m.cache key (some (.single block))⟩
  | some (.single b) =>
    ⟨update m.cache key (some (.dict b (if b = block then [] else [block])))⟩
  | some (.dict first rest) =>
    ⟨update m.cache key
      (some (.dict first (if block ∈ first :: rest then rest else rest ++ [block])))⟩

def pop : Option BlockId × BlockHashToBlockMap :=
  match m.cache key with
  | none => (none, m)
  | some (.single b) =>
    if b = block then (some b, ⟨update m.cache key none⟩) else (none, m)
  | some (.dict first rest) =>
    let popped := if block ∈ first :: rest then some block else none
    match (first :: rest).erase block with
    | [] => (popped, ⟨update m.cache key none⟩)
    | first :: rest => (popped, ⟨update m.cache key (some (.dict first rest))⟩)

def entryBlocks : Option CachedBlocks → List BlockId
  | none => []
  | some (.single block) => [block]
  | some (.dict first rest) => first :: rest

def blocks : List BlockId := entryBlocks (m.cache key)

@[simp] theorem blocks_empty : empty.blocks key = [] := rfl

theorem blocks_update (entry : Option CachedBlocks) (k : BlockHashWithGroupId) :
    blocks ⟨update m.cache key entry⟩ k =
    if k = key then entryBlocks entry else m.blocks k := by
  simp only [blocks, update_apply]
  split <;> rfl

theorem getOneBlock_eq : m.getOneBlock key = (m.blocks key).head? := by
  unfold getOneBlock blocks entryBlocks
  split <;> simp_all

theorem contain_iff : m.contain key block ↔ block ∈ m.blocks key := by
  unfold contain blocks entryBlocks
  split
  · simp
  · simp only [beq_iff_eq, List.mem_singleton]
    exact eq_comm
  · simp

theorem blocks_insert (k : BlockHashWithGroupId) : (m.insert key block).blocks k =
    if k = key ∧ block ∉ m.blocks key then m.blocks key ++ [block] else m.blocks k := by
  by_cases hk : k = key
  · subst hk
    unfold insert
    split
    · simp_all [blocks, entryBlocks]
    · rename_i b h
      have hb : m.blocks k = [b] := by rw [blocks, h, entryBlocks]
      rw [blocks_update, hb]
      by_cases e : b = block
      · simp [e, entryBlocks]
      · simp [e, Ne.symm e, entryBlocks]
    · rename_i first rest h
      have hb : m.blocks k = first :: rest := by rw [blocks, h, entryBlocks]
      rw [blocks_update, hb]
      by_cases e : block ∈ first :: rest <;> simp only [e] <;> simp [entryBlocks]
  · unfold insert
    split <;> simp [blocks_update, hk]

theorem pop_fst : (m.pop key block).1 = if block ∈ m.blocks key then some block else none := by
  unfold pop
  split
  · simp_all [blocks, entryBlocks]
  · rename_i b h
    have hb : m.blocks key = [b] := by rw [blocks, h, entryBlocks]
    rw [hb]
    by_cases e : b = block
    · simp [e]
    · simp [e, Ne.symm e]
  · rename_i first rest h
    have hb : m.blocks key = first :: rest := by rw [blocks, h, entryBlocks]
    rw [hb]
    simp only
    split <;> rfl

theorem blocks_pop (k : BlockHashWithGroupId) : (m.pop key block).2.blocks k =
    if k = key then (m.blocks key).erase block else m.blocks k := by
  unfold pop
  split
  · split <;> simp_all [blocks, entryBlocks]
  · rename_i b h
    have hb : m.blocks key = [b] := by rw [blocks, h, entryBlocks]
    rw [hb]
    by_cases e : b = block
    · simp [e, blocks_update, entryBlocks]
    · by_cases hk : k = key <;> simp [e, hk, hb]
  · rename_i first rest h
    have hb : m.blocks key = first :: rest := by rw [blocks, h, entryBlocks]
    simp only
    split
    · rename_i hnil
      rw [blocks_update, hb, hnil]
      rfl
    · rename_i hcons
      rw [blocks_update, hb, hcons]
      rfl

end BlockHashToBlockMap

/-! The block pool: the blocks with their reference counts and hashes, the free
queue, the two prefix cache indexes and the KV events it reports. -/

/-- Block metadata; the block id is the block's position in the pool, the free
list pointers are the links of the queue. -/
structure KVCacheBlock where
  refCnt : Int := 0
  blockHash : Option BlockHashWithGroupId := none
  blockHashNumTokens : Option Nat := none
  isNull : Bool := false
  deriving DecidableEq, Repr

namespace KVCacheBlock

def setBlockHash (block : KVCacheBlock) (blockHash : BlockHashWithGroupId)
    (numTokens : Option Nat) : Except PyError KVCacheBlock := do
  pyAssert (block.blockHash = none ∧ block.blockHashNumTokens = none)
    "The block already has a hash. This should not happen."
  .ok { block with blockHash := some blockHash, blockHashNumTokens := numTokens }

def resetHash (block : KVCacheBlock) : KVCacheBlock :=
  { block with blockHash := none, blockHashNumTokens := none }

end KVCacheBlock

/-- A block hash as events publish it. -/
inductive ExternalBlockHash
  | bytes (hash : BlockHash)
  | int (hash : Nat)
  deriving DecidableEq, Repr

def intFromBytes (bytes : Bytes) : Nat :=
  bytes.foldl (fun n byte => n * 256 + byte.toNat) 0

def maybeConvertBlockHash (useIntBlockHashes : Bool) (hashBytes : BlockHash) :
    ExternalBlockHash :=
  if useIntBlockHashes then .int (intFromBytes hashBytes % 2 ^ 64) else .bytes hashBytes

structure BlockStored where
  blockHashes : List ExternalBlockHash
  parentBlockHash : Option ExternalBlockHash
  tokenIds : List Nat
  blockSize : Nat
  loraId : Option Nat
  medium : String
  loraName : Option String
  extraKeys : Option (List (Option (List EventExtraKey)))
  groupIdx : Nat
  sessionId : Option String
  deriving DecidableEq, Repr

structure BlockRemoved where
  blockHashes : List ExternalBlockHash
  medium : String
  groupIdx : Nat
  deriving DecidableEq, Repr

inductive KVCacheEvent
  | blockStored (event : BlockStored)
  | blockRemoved (event : BlockRemoved)
  | allBlocksCleared
  deriving DecidableEq, Repr

/-- The order in which a Python set yields the keys that were added to it. -/
structure SetOrder where
  order : List BlockHashWithGroupId → List BlockHashWithGroupId
  perm : ∀ keys, (order keys).Perm keys

def SetOrder.inserted : SetOrder := ⟨id, fun _ => .refl _⟩

/-- A callback of `unpin_blocks`, by name. -/
abbrev Watcher := Nat

/-- What a pool is built with and never changes. -/
structure BlockPoolConfig where
  numGpuBlocks : Nat
  medium : String
  enableCaching : Bool
  hasher : BlockHasher
  nullBlock : BlockId
  enableKvCacheEvents : Bool
  useIntBlockHashes : Bool
  setOrder : SetOrder

structure BlockPool extends BlockPoolConfig where
  blocks : BlockId → KVCacheBlock
  freeBlockQueue : FreeKVCacheBlockQueue
  cachedBlockHashToBlock : BlockHashToBlockMap
  cachedBlockHashesByBlock : BlockId → Option (List BlockHashWithGroupId)
  kvEventQueue : List KVCacheEvent
  reuseWatchers : List (BlockId × Watcher)
  /-- The callbacks made so far, each with the block it was told about. -/
  reuseNotices : List (Watcher × BlockId)

namespace BlockPool

def new (numGpuBlocks : Nat) (enableCaching : Bool) (hasher : BlockHasher)
    (enableKvCacheEvents useIntBlockHashes : Bool) (medium : String) (setOrder : SetOrder) :
    Except PyError BlockPool := do
  pyAssert (0 < numGpuBlocks) "isinstance(num_gpu_blocks, int) and num_gpu_blocks > 0"
  let (nullBlock, freeBlockQueue) ←
    (FreeKVCacheBlockQueue.new (List.range numGpuBlocks)).popleft
  .ok
    { numGpuBlocks, medium, enableCaching, hasher, freeBlockQueue, nullBlock,
      enableKvCacheEvents, useIntBlockHashes, setOrder
      blocks := update (fun _ => {}) nullBlock { isNull := true }
      cachedBlockHashToBlock := .empty
      cachedBlockHashesByBlock := fun _ => none
      kvEventQueue := []
      reuseWatchers := []
      reuseNotices := [] }

def hashBlockSize (pool : BlockPool) : Nat := pool.hasher.hashBlockSize

variable (pool : BlockPool)

def getNumFreeBlocks : Int := pool.freeBlockQueue.numFreeBlocks

variable (b : BlockId)

def setBlock (block : KVCacheBlock) : BlockPool :=
  { pool with blocks := update pool.blocks b block }

def getCachedBlock (blockHash : BlockHash) (kvCacheGroupIds : List Nat) :
    Option (List BlockId) :=
  kvCacheGroupIds.mapM fun groupId =>
    pool.cachedBlockHashToBlock.getOneBlock ⟨blockHash, groupId⟩

/-- The loop of `_remove_cached_block_hashes`: the keys that were found. -/
def popHashes (b : BlockId) : List BlockHashWithGroupId → BlockHashToBlockMap →
    List BlockHashWithGroupId × BlockHashToBlockMap
  | [], cache => ([], cache)
  | key :: rest, cache =>
    let (removedHashes, after) := popHashes b rest (cache.pop key b).2
    (if (cache.pop key b).1.isSome then key :: removedHashes else removedHashes, after)

def hashKeys : List BlockHashWithGroupId :=
  (pool.blocks b).blockHash.toList ++
    pool.setOrder.order ((pool.cachedBlockHashesByBlock b).getD [])

def removeCachedBlockHashes :
    List BlockHashWithGroupId × BlockPool :=
  let blockHashes := pool.hashKeys b
  let pool := { pool with
    cachedBlockHashesByBlock := update pool.cachedBlockHashesByBlock b none }
  if blockHashes = [] then ([], pool)
  else
    let (removedHashes, cache) := popHashes b blockHashes pool.cachedBlockHashToBlock
    (removedHashes,
      { pool with cachedBlockHashToBlock := cache }.setBlock b (pool.blocks b).resetHash)

def emitBlockRemovedEvents (blockHashes : List BlockHashWithGroupId) :
    BlockPool :=
  if pool.enableKvCacheEvents then
    let removed (key : BlockHashWithGroupId) : KVCacheEvent := .blockRemoved
      ⟨[maybeConvertBlockHash pool.useIntBlockHashes key.blockHash], pool.medium, key.groupId⟩
    { pool with kvEventQueue := pool.kvEventQueue ++ blockHashes.map removed }
  else pool

/-- The removal of a block's hashes followed by its events, as all callers but
`move_block_hashes` make it. -/
def evictHashes : BlockPool :=
  let (removedHashes, pool) := pool.removeCachedBlockHashes b
  pool.emitBlockRemovedEvents removedHashes

def maybeEvictCachedBlock : Bool × BlockPool :=
  let (evictedHashes, pool) := pool.removeCachedBlockHashes b
  if evictedHashes = [] then (false, pool)
  else (true, pool.emitBlockRemovedEvents evictedHashes)

/-- The block's side of `_insert_block_hash`: its hash if it has none, else its set. -/
def recordHash (key : BlockHashWithGroupId) (b : BlockId)
    (numTokens : Option Nat) : Except PyError BlockPool :=
  match (pool.blocks b).blockHash with
  | none => do
    let block ← (pool.blocks b).setBlockHash key numTokens
    .ok (pool.setBlock b block)
  | some _ =>
    let keys := (pool.cachedBlockHashesByBlock b).getD []
    let keys := if key ∈ keys then keys else keys ++ [key]
    .ok { pool with
      cachedBlockHashesByBlock := update pool.cachedBlockHashesByBlock b (some keys) }

def insertBlockHash (key : BlockHashWithGroupId) (b : BlockId)
    (numTokens : Option Nat) : Except PyError BlockPool :=
  if (pool.blocks b).blockHash = some key then .ok pool
  else if pool.cachedBlockHashToBlock.contain key b then .ok pool
  else do
    let pool ← pool.recordHash key b numTokens
    .ok { pool with cachedBlockHashToBlock := pool.cachedBlockHashToBlock.insert key b }

/-- The body of the loop of `cache_full_blocks` for a block that is cached. -/
def cacheFullBlock (key : BlockHashWithGroupId)
    (numHashTokens : Nat) : Except PyError BlockPool := do
  let pool ← (if (pool.blocks b).blockHash.isSome then do
      -- only a partial entry of the same cache block may be promoted
      pyAssert (∃ n ∈ (pool.blocks b).blockHashNumTokens, n < numHashTokens)
        "blk.block_hash_num_tokens is not None and blk.block_hash_num_tokens < num_hash_tokens"
      .ok (pool.evictHashes b)
    else .ok pool)
  pool.insertBlockHash key b (some numHashTokens)

def masked (blockMask : Option (List Bool)) (i : Nat) : Bool :=
  match blockMask with
  | none => false
  | some mask => !(mask[i]?.getD false)

def cacheFullLoop (newBlockHashes : List BlockHash) (blockMask : Option (List Bool))
    (numCachedBlocks blockSize kvCacheGroupId : Nat) :
    List BlockId → Nat → BlockPool → Except PyError (List BlockHash × BlockPool)
  | [], _, pool => .ok ([], pool)
  | blk :: rest, i, pool =>
    if (pool.blocks blk).isNull || masked blockMask i then
      cacheFullLoop newBlockHashes blockMask numCachedBlocks blockSize kvCacheGroupId
        rest (i + 1) pool
    else do
      let blockHash ← pyGet newBlockHashes i
      let pool ← pool.cacheFullBlock blk ⟨blockHash, kvCacheGroupId⟩
        ((numCachedBlocks + i + 1) * blockSize)
      let (newHashes, pool) ← cacheFullLoop newBlockHashes blockMask numCachedBlocks blockSize
        kvCacheGroupId rest (i + 1) pool
      .ok (blockHash :: newHashes, pool)

/-- The extra keys of the blocks that were cached, for their event. -/
def fullBlockExtraKeys (pool : BlockPool) (request : Request) (blocks : List BlockId)
    (blockMask : Option (List Bool)) (numCachedBlocks blockSize : Nat) :
    List Nat → Nat → Except PyError (List (Option (List ExtraKey)))
  | [], _ => .ok []
  | i :: rest, currMmIdx => do
    let blk ← pyGet blocks i
    if (pool.blocks blk).isNull || masked blockMask (i - numCachedBlocks) then
      pool.fullBlockExtraKeys request blocks blockMask numCachedBlocks blockSize rest currMmIdx
    else
      let (extraKeys, currMmIdx) := generateBlockHashExtraKeys pool.hasher request
        (i * blockSize) (i * blockSize + blockSize) currMmIdx
      let extraKeysList ← pool.fullBlockExtraKeys request blocks blockMask numCachedBlocks
        blockSize rest currMmIdx
      .ok (extraKeys :: extraKeysList)

variable (request : Request)

def buildBlockStoredEvent
    (blockHashes : List ExternalBlockHash) (parentBlockHash : Option ExternalBlockHash)
    (startTokenIdx endTokenIdx blockSize kvCacheGroupId : Nat)
    (extraKeysList : List (Option (List ExtraKey))) : BlockStored where
  blockHashes := blockHashes
  parentBlockHash := parentBlockHash
  tokenIds := slice request.allTokenIds startTokenIdx endTokenIdx
  blockSize := blockSize
  loraId := request.loraRequest.map LoRARequest.loraIntId
  medium := pool.medium
  loraName := request.loraRequest.map LoRARequest.loraName
  extraKeys := toEventExtraKeys extraKeysList
  groupIdx := kvCacheGroupId
  sessionId := request.sessionId

def cacheFullBlocks (blocks : List BlockId)
    (numCachedBlocks numFullBlocks blockSize kvCacheGroupId : Nat)
    (blockMask : Option (List Bool)) : Except PyError BlockPool :=
  if numCachedBlocks ≥ numFullBlocks then .ok pool
  else do
    let newFullBlocks := slice blocks numCachedBlocks numFullBlocks
    pyAssert (∀ mask ∈ blockMask, mask.length = newFullBlocks.length)
      "block_mask is None or len(block_mask) == len(new_full_blocks)"
    let blockHashes ← resolveBlockHashes (.list request.blockHashes) pool.hashBlockSize blockSize
      false none
    let (newHashes, pool) ← cacheFullLoop (blockHashes.sliceFrom numCachedBlocks) blockMask
      numCachedBlocks blockSize kvCacheGroupId newFullBlocks 0 pool
    if pool.enableKvCacheEvents then do
      let parentBlockHash ← (if numCachedBlocks = 0 then .ok none
        else do
          let hash ← blockHashes.getItem (numCachedBlocks - 1)
          .ok (some (maybeConvertBlockHash pool.useIntBlockHashes hash)))
      let extraKeysList ← pool.fullBlockExtraKeys request blocks blockMask numCachedBlocks
        blockSize (List.range' numCachedBlocks (numFullBlocks - numCachedBlocks)) 0
      let event := pool.buildBlockStoredEvent request
        (newHashes.map (maybeConvertBlockHash pool.useIntBlockHashes)) parentBlockHash
        (numCachedBlocks * blockSize) (numFullBlocks * blockSize) blockSize kvCacheGroupId
        extraKeysList
      .ok { pool with kvEventQueue := pool.kvEventQueue ++ [.blockStored event] }
    else .ok pool

def getPartialBlockHash (numTokens : Nat) :
    Except PyError BlockHash := do
  pyAssert (numTokens % pool.hashBlockSize = 0) "num_tokens % self.hash_block_size == 0"
  let numHashBlocks := numTokens / pool.hashBlockSize
  pyAssert (0 < numHashBlocks ∧ numHashBlocks ≤ request.blockHashes.length)
    "0 < num_hash_blocks <= len(request.block_hashes)"
  pyGet request.blockHashes (numHashBlocks - 1)

def getPartialBlockParentHashAndStart (numTokens : Nat) :
    Except PyError (Option BlockHash × Nat) := do
  let numHashBlocks := numTokens / pool.hashBlockSize
  let parentHash ← (if numHashBlocks > 1 then do
      let hash ← pyGet request.blockHashes (numHashBlocks - 2)
      .ok (some hash)
    else .ok none)
  .ok (parentHash, (numHashBlocks - 1) * pool.hashBlockSize)

def partialBlockStored (blockHash : BlockHash)
    (numTokens kvCacheGroupId : Nat) : Except PyError BlockStored := do
  let (parentHash, blockStart) ← pool.getPartialBlockParentHashAndStart request numTokens
  let currMmIdx := resumeMmIdx request blockStart numTokens
  let (extraKeys, _) := generateBlockHashExtraKeys pool.hasher request blockStart numTokens
    currMmIdx
  .ok (pool.buildBlockStoredEvent request
    [maybeConvertBlockHash pool.useIntBlockHashes blockHash]
    (parentHash.map (maybeConvertBlockHash pool.useIntBlockHashes)) blockStart numTokens
    (numTokens - blockStart) kvCacheGroupId [extraKeys])

def cachePartialBlock (b : BlockId)
    (numTokens kvCacheGroupId blockSize : Nat) (replaceExistingHashes : Bool) :
    Except PyError (Option BlockHashWithGroupId × BlockPool) :=
  if (pool.blocks b).isNull then .ok (none, pool)
  else do
    pyAssert (blockSize % pool.hashBlockSize = 0) "block_size % self.hash_block_size == 0"
    pyAssert (replaceExistingHashes ∨
        (blockSize > pool.hashBlockSize ∧ numTokens % blockSize ≠ 0))
      "replace_existing_hashes or (block_size > self.hash_block_size and num_tokens % block_size != 0)"
    let blockHash ← pool.getPartialBlockHash request numTokens
    let numHashTokens := numTokens / pool.hashBlockSize * pool.hashBlockSize
    let key : BlockHashWithGroupId := ⟨blockHash, kvCacheGroupId⟩
    let alreadyCached := !replaceExistingHashes &&
      ((pool.blocks b).blockHash == some key || pool.cachedBlockHashToBlock.contain key b)
    let shorter := (pool.blocks b).blockHash.isSome &&
      (pool.blocks b).blockHashNumTokens.any (· < numHashTokens)
    let pool := if replaceExistingHashes || (!alreadyCached && shorter) then pool.evictHashes b
      else pool
    let pool ← pool.insertBlockHash key b (some numHashTokens)
    if pool.enableKvCacheEvents && !alreadyCached then do
      let event ← pool.partialBlockStored request blockHash numTokens kvCacheGroupId
      .ok (some key, { pool with kvEventQueue := pool.kvEventQueue ++ [.blockStored event] })
    else .ok (some key, pool)

/-- The loop of `move_block_hashes` over the removed keys. -/
def insertHashes (dst : BlockId) (numTokens : Option Nat) :
    List BlockHashWithGroupId → BlockPool → Except PyError BlockPool
  | [], pool => .ok pool
  | key :: rest, pool => do
    let pool ← pool.insertBlockHash key dst numTokens
    insertHashes dst numTokens rest pool

def moveBlockHashes (srcBlock dstBlock : BlockId) :
    Except PyError BlockPool := do
  pyAssert ((pool.blocks dstBlock).blockHash = none) "dst_block.block_hash is None"
  pyAssert (pool.cachedBlockHashesByBlock dstBlock = none)
    "dst_block.block_id not in self.cached_block_hashes_by_block"
  let numTokens := (pool.blocks srcBlock).blockHashNumTokens
  let (removedHashes, pool) := pool.removeCachedBlockHashes srcBlock
  insertHashes dstBlock numTokens removedHashes pool

def notifyReuse (blocks : List BlockId) : BlockPool :=
  blocks.foldl (fun pool b =>
    let (watcher, reuseWatchers) := dictPop b pool.reuseWatchers
    { pool with
      reuseWatchers
      reuseNotices := pool.reuseNotices ++ (watcher.map fun w => (w, b)).toList }) pool

/-- The loop of `get_new_blocks` over the popped blocks. -/
def takeBlocks : List BlockId → BlockPool → Except PyError BlockPool
  | [], pool => .ok pool
  | b :: rest, pool => do
    let pool := if pool.enableCaching then (pool.maybeEvictCachedBlock b).2 else pool
    pyAssert ((pool.blocks b).refCnt = 0) "block.ref_cnt == 0"
    takeBlocks rest (pool.setBlock b { pool.blocks b with refCnt := (pool.blocks b).refCnt + 1 })

def getNewBlocks (numBlocks : Nat) :
    Except PyError (List BlockId × BlockPool) :=
  if numBlocks > pool.getNumFreeBlocks then
    .error (.value s!"Cannot get {numBlocks} free blocks from the pool")
  else do
    let (ret, freeBlockQueue) ← pool.freeBlockQueue.popleftN numBlocks
    let pool := { pool with freeBlockQueue }.notifyReuse ret
    let pool ← takeBlocks ret pool
    .ok (ret, pool)

def unpinBlock (onReuse : Watcher) (b : BlockId) : BlockPool :=
  { pool.setBlock b { pool.blocks b with refCnt := (pool.blocks b).refCnt - 1 } with
    reuseWatchers := dictSet b onReuse pool.reuseWatchers }

/-- The loop of `unpin_blocks`: the blocks that became free. -/
def unpinLoop (onReuse : Watcher) :
    List BlockId → BlockPool → Except PyError (List BlockId × BlockPool)
  | [], pool => .ok ([], pool)
  | b :: rest, pool => do
    pyAssert ((pool.blocks b).refCnt > 0 ∧ !(pool.blocks b).isNull)
      "block.ref_cnt > 0 and not block.is_null"
    let (released, after) ← unpinLoop onReuse rest (pool.unpinBlock onReuse b)
    .ok (if ((pool.unpinBlock onReuse b).blocks b).refCnt = 0 then b :: released else released,
      after)

def unpinBlocks (blocks : List BlockId) (onReuse : Watcher) :
    Except PyError BlockPool := do
  let (released, pool) ← unpinLoop onReuse blocks pool
  let freeBlockQueue ← pool.freeBlockQueue.appendN released
  .ok { pool with freeBlockQueue }

def touch : List BlockId → BlockPool → Except PyError BlockPool
  | [], pool => .ok pool
  | b :: rest, pool => do
    let freeBlockQueue ← (
      if (pool.blocks b).refCnt = 0 ∧ !(pool.blocks b).isNull then pool.freeBlockQueue.remove b
      else .ok pool.freeBlockQueue)
    let pool := { pool with freeBlockQueue }
    touch rest (pool.setBlock b { pool.blocks b with refCnt := (pool.blocks b).refCnt + 1 })

def dropRef : BlockPool :=
  pool.setBlock b { pool.blocks b with refCnt := (pool.blocks b).refCnt - 1 }

/-- The loop of `free_blocks` over the pool's own blocks: what to evict first and last. -/
def freeLoop : List BlockId → BlockPool → (List BlockId × List BlockId) × BlockPool
  | [], pool => (([], []), pool)
  | b :: rest, pool =>
    let block := (pool.dropRef b).blocks b
    let ((blocksToEvictFirst, blocksToEvictLast), after) := freeLoop rest (pool.dropRef b)
    if block.refCnt = 0 ∧ !block.isNull then
      if block.blockHash = none ∨ !pool.enableCaching then
        ((b :: blocksToEvictFirst, blocksToEvictLast), after)
      else ((blocksToEvictFirst, b :: blocksToEvictLast), after)
    else ((blocksToEvictFirst, blocksToEvictLast), after)

/-- `free_blocks` on blocks of the pool itself. -/
def freeOwnBlocks (orderedBlocks : List BlockId) : Except PyError BlockPool := do
  let ((blocksToEvictFirst, blocksToEvictLast), pool) := freeLoop orderedBlocks pool
  let freeBlockQueue ← pool.freeBlockQueue.prependN blocksToEvictFirst
  let freeBlockQueue ← freeBlockQueue.appendN blocksToEvictLast
  .ok { pool with freeBlockQueue }

def evictBlocks : List BlockId → BlockPool → Except PyError BlockPool
  | [], pool => .ok pool
  | b :: rest, pool => do
    pyAssert (b < pool.numGpuBlocks) (s!"Invalid block_id {b} >= {pool.numGpuBlocks}. " ++
      "This indicates a bug in the KV connector - workers should " ++
      "only report block IDs that were allocated by the scheduler.")
    evictBlocks rest (pool.maybeEvictCachedBlock b).2

def resetPrefixCache : Bool × BlockPool :=
  let numUsedBlocks := pool.numGpuBlocks - pool.getNumFreeBlocks
  if numUsedBlocks ≠ 1 then (false, pool)
  else
    let pool := { pool with
      cachedBlockHashToBlock := .empty
      cachedBlockHashesByBlock := fun _ => none }
    let pool := pool.notifyReuse (pool.reuseWatchers.map Prod.fst)
    let pool := { pool with blocks := fun b => (pool.blocks b).resetHash }
    let pool := if pool.enableKvCacheEvents then
        { pool with kvEventQueue := pool.kvEventQueue ++ [.allBlocksCleared] }
      else pool
    (true, pool)

def takeEvents : List KVCacheEvent × BlockPool :=
  if pool.enableKvCacheEvents then (pool.kvEventQueue, { pool with kvEventQueue := [] })
  else ([], pool)

end BlockPool

/-- A pool, among the pools of one engine. -/
abbrev PoolId := Nat

/-- A block together with the pool it belongs to. -/
structure BlockRef where
  pool : PoolId
  block : BlockId
  deriving DecidableEq, Repr

abbrev BlockPools := PoolId → BlockPool

namespace BlockPools

def otherPools (self : PoolId) (orderedBlocks : List BlockRef) : List (PoolId × List BlockId) :=
  (orderedBlocks.filter fun ref => ref.pool ≠ self).foldl
    (fun others ref => dictAppend ref.pool ref.block others) []

def ownBlocks (self : PoolId) (orderedBlocks : List BlockRef) : List BlockId :=
  (orderedBlocks.filter fun ref => ref.pool = self).map BlockRef.block

/-- The last loop of `free_blocks`. A routed list holds blocks of its pool only,
so the call on that pool routes nothing further. -/
def freeOthers : List (PoolId × List BlockId) → BlockPools → Except PyError BlockPools
  | [], pools => .ok pools
  | (p, blocks) :: rest, pools => do
    let pool ← (pools p).freeOwnBlocks blocks
    freeOthers rest (update pools p pool)

def freeBlocks (pools : BlockPools) (self : PoolId) (orderedBlocks : List BlockRef) :
    Except PyError BlockPools := do
  let pool ← (pools self).freeOwnBlocks (ownBlocks self orderedBlocks)
  freeOthers (otherPools self orderedBlocks) (update pools self pool)

end BlockPools

end VllmAmpere
