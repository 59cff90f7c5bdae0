import VllmAmpere.HybridCacheHit
import VllmAmpere.ManagerTables
import VllmAmpere.PrefixIdentity

/-! Runs of a full-attention manager on one of the engine's pools, in any order of
its calls, while others use the pools. The engine's ledger lists the references
held outside the manager's block tables. -/

open List
open Function (update update_eq_self update_of_ne update_self)

namespace VllmAmpere

namespace PoolState

variable {s s' : PoolState}

def addHeld (s : PoolState) (more : Multiset (Holder × BlockRef)) : PoolState :=
  { s with held := s.held + more }

theorem contract_addHeld {op : PoolOp} (contract : s.Contract op)
    (more : Multiset (Holder × BlockRef)) : (s.addHeld more).Contract op := by
  cases op with
  | freeBlocks p holder orderedBlocks =>
    exact ⟨contract.1, contract.2.trans (Multiset.le_add_right _ _)⟩
  | unpinBlocks p holder blocks onReuse =>
    exact le_trans contract (Multiset.le_add_right _ _)
  | _ => exact contract

theorem apply_addHeld {op : PoolOp} (contract : s.Contract op) (h : s.apply op = .ok s')
    (more : Multiset (Holder × BlockRef)) : (s.addHeld more).apply op = .ok (s'.addHeld more) := by
  cases op with
  | getNewBlocks p holder n =>
    obtain ⟨⟨ret, pool⟩, hop, h⟩ := bind_eq_ok.mp h
    cases h
    exact bind_eq_ok.mpr ⟨_, hop, by simp [addHeld, setPool, add_right_comm]⟩
  | touch p holder blocks =>
    obtain ⟨pool, hop, h⟩ := bind_eq_ok.mp h
    cases h
    refine bind_eq_ok.mpr ⟨_, hop, ?_⟩
    simp only [addHeld, add_right_comm _ more]
    rfl
  | freeBlocks p holder orderedBlocks =>
    obtain ⟨pools, hop, h⟩ := bind_eq_ok.mp h
    cases h
    refine bind_eq_ok.mpr ⟨_, hop, ?_⟩
    have moved := tsub_add_eq_add_tsub (c := more) contract.2
    simp only [addHeld] at moved ⊢
    rw [moved]
    rfl
  | unpinBlocks p holder blocks onReuse =>
    obtain ⟨pool, hop, h⟩ := bind_eq_ok.mp h
    cases h
    refine bind_eq_ok.mpr ⟨_, hop, ?_⟩
    have moved := tsub_add_eq_add_tsub (c := more) contract
    simp only [addHeld] at moved ⊢
    rw [moved]
    rfl
  | cacheFullBlocks p =>
    obtain ⟨pool, hop, h⟩ := bind_eq_ok.mp h
    cases h
    exact bind_eq_ok.mpr ⟨_, hop, rfl⟩
  | cachePartialBlock p =>
    obtain ⟨pool, hop, h⟩ := bind_eq_ok.mp h
    cases h
    exact bind_eq_ok.mpr ⟨_, hop, rfl⟩
  | moveBlockHashes p =>
    obtain ⟨pool, hop, h⟩ := bind_eq_ok.mp h
    cases h
    exact bind_eq_ok.mpr ⟨_, hop, rfl⟩
  | evictBlocks p ids =>
    obtain ⟨pool, hop, h⟩ := bind_eq_ok.mp h
    cases h
    exact bind_eq_ok.mpr ⟨_, hop, rfl⟩
  | resetPrefixCache p =>
    cases h
    rfl
  | takeEvents p =>
    cases h
    rfl

end PoolState

namespace BlockPool

/-- A block of the group is cached for the first `n` tokens of a request. -/
def CachedFor (pool : BlockPool) (request : Request) (group n : Nat) (b : BlockId) : Prop :=
  ∃ blockHash, request.HashAt pool.hashBlockSize n blockHash ∧
    pool.cachedBlockHashToBlock.contain ⟨blockHash, group⟩ b = true

end BlockPool

/-- A manager on a pool of the engine. -/
structure ManagerState where
  engine : PoolState
  poolId : PoolId
  manager : SingleTypeKVCacheManager

inductive ManagerOp
  | addLocalComputedBlocks (request : Request) (newComputedBlocks : List BlockId)
      (numLocalComputedTokens numExternalComputedTokens : Nat)
  | allocateExternalComputedBlocks (requestId : String)
      (numLocalComputedTokens numExternalComputedTokens : Nat)
  | allocateNewBlocks (requestId : String) (numTokens : Nat) (copyHolder : Holder)
  | cacheBlocks (request : Request) (numTokens : Nat) (retentionInterval : Option Nat)
      (replayBoundaries : List Nat)
  | removeSkippedBlocks (requestId : String) (processedComputedTokens : Nat)
  | popBlocksForFree (requestId : String) (holder : Holder)
  | free (requestId : String)
  | takePendingCowCopies
  | takeNewBlockIds
  | readBlocks (requestId : String)
  | getNumCommonPrefixBlocks (runningRequestId : String)
  | elsewhere (op : PoolOp)

namespace ManagerState

open PoolState (owned refsOf)

variable (s : ManagerState)

def pool : BlockPool := s.engine.pools s.poolId

/-- The pool and the manager after a call; `retained` left the tables for `holder`. -/
def after (pool : BlockPool) (manager : SingleTypeKVCacheManager)
    (holder : Holder) (retained : List BlockId) : ManagerState where
  engine := { s.engine.setPool s.poolId pool with
    held := s.engine.held + owned holder (refsOf s.poolId retained) }
  poolId := s.poolId
  manager := manager

/-- The endpoints of the copies that `m'` has pending and `m` had not. -/
def newEndpoints (m m' : SingleTypeKVCacheManager) : List BlockId :=
  (m'.pendingCowCopies.drop m.pendingCowCopies.length).flatMap fun pair => [pair.1, pair.2]

def apply (s : ManagerState) : ManagerOp → Except PyError ManagerState
  | .addLocalComputedBlocks request newComputedBlocks numLocal numExternal => do
    let (pool, m) ← s.manager.addLocalComputedBlocks s.pool request.requestId newComputedBlocks
      numLocal numExternal
    .ok (s.after pool m 0 [])
  | .allocateExternalComputedBlocks requestId numLocal numExternal => do
    let (pool, m) ← s.manager.allocateExternalComputedBlocks s.pool requestId numLocal numExternal
    .ok (s.after pool m 0 [])
  | .allocateNewBlocks requestId numTokens copyHolder => do
    let (_, pool, m) ← s.manager.allocateNewBlocks s.pool requestId numTokens
    .ok (s.after pool m copyHolder (newEndpoints s.manager m))
  | .cacheBlocks request numTokens retentionInterval replayBoundaries => do
    let (pool, m) ← FullAttentionManager.cacheBlocks s.manager s.pool request numTokens
      retentionInterval replayBoundaries
    .ok (s.after pool m 0 [])
  | .removeSkippedBlocks requestId processedComputedTokens => do
    let (pool, m) ← s.manager.removeSkippedBlocks s.pool requestId processedComputedTokens
    .ok (s.after pool m 0 [])
  | .popBlocksForFree requestId holder =>
    let (blocks, m) := s.manager.popBlocksForFree requestId
    .ok (s.after s.pool m holder blocks)
  | .free requestId => do
    let (pool, m) ← s.manager.free s.pool requestId
    .ok (s.after pool m 0 [])
  | .takePendingCowCopies => .ok (s.after s.pool s.manager.takePendingCowCopies.2 0 [])
  | .takeNewBlockIds => .ok (s.after s.pool s.manager.takeNewBlockIds.2 0 [])
  | .readBlocks requestId => .ok (s.after s.pool (s.manager.readBlocks requestId) 0 [])
  | .getNumCommonPrefixBlocks requestId => .ok (s.after s.pool
      (FullAttentionManager.getNumCommonPrefixBlocks s.manager s.pool requestId).2 0 [])
  | .elsewhere op => do
    let engine ← s.engine.apply op
    .ok { s with engine }

/-- What the manager's callers see to: adopted blocks are a prefix cache hit of the
request, block hashes are those of the pool's hasher, and nobody else puts keys of
the manager's group into its pool. -/
def Contract : ManagerOp → Prop
  | .addLocalComputedBlocks request newComputedBlocks numLocal _ =>
    s.pool.hasher.Built request ∧ Serves .fullAttention s.manager.blockSize
      (s.pool.CachedFor request s.manager.kvCacheGroupId) (· = s.pool.nullBlock) numLocal
      newComputedBlocks
  | .cacheBlocks request _ _ _ => s.pool.hasher.Built request ∧ s.manager.enableCaching = true
  | .elsewhere op => s.engine.CachingContract op ∧
    (∀ p request blocks numCached numFull blockSize group mask,
      op = .cacheFullBlocks p request blocks numCached numFull blockSize group mask →
        0 < blockSize) ∧
    ∀ b key, op.newKeys s.engine s.poolId b key → key.groupId ≠ s.manager.kvCacheGroupId
  | _ => True

structure Initial (s : ManagerState) : Prop where
  engine : s.engine.Initial
  manager : s.manager = .new s.manager.toManagerConfig
  kind : s.manager.kvCacheSpec.kind = .fullAttention
  caching : s.manager.enableCaching = s.pool.enableCaching

/-- The runs of the manager in which every call keeps the contract. -/
def system : TransitionSystem ManagerState ManagerOp where
  init := Initial
  step s op s' := s.Contract op ∧ s.apply op = .ok s'

end ManagerState

/-- Blocks of `blockSize` tokens at position `i` end at tokens that a request hashes
to `blockHash`. -/
def PlaceOf (h : BlockHasher) (blockSize : Nat) (blockHash : BlockHash) (i : Nat) : Prop :=
  ∃ request n, h.Built request ∧ request.HashAt h.hashBlockSize n blockHash ∧
    i * blockSize < n ∧ n ≤ (i + 1) * blockSize

theorem PlaceOf.unique {h : BlockHasher} (free : h.CollisionFree) {blockSize : Nat}
    {blockHash : BlockHash} {i j : Nat} (hi : PlaceOf h blockSize blockHash i)
    (hj : PlaceOf h blockSize blockHash j) : i = j := by
  have ⟨r, n, hr, hn, hlow, hhigh⟩ := hi
  have ⟨r', n', hr', hn', hlow', hhigh'⟩ := hj
  have index := hr.hashed.chain.index_eq free hr'.hashed.chain hn.hash hn'.hash
  have same : n = n' := by
    have hpos := Nat.div_pos (Nat.le_of_dvd hn.pos hn.dvd) h.hashBlockSize_pos
    have hpos' := Nat.div_pos (Nat.le_of_dvd hn'.pos hn'.dvd) h.hashBlockSize_pos
    rw [← Nat.div_mul_cancel hn.dvd, ← Nat.div_mul_cancel hn'.dvd,
      (by omega : n / h.hashBlockSize = n' / h.hashBlockSize)]
  rw [← same] at hlow' hhigh'
  have h₁ := Nat.lt_of_mul_lt_mul_right (Nat.lt_of_lt_of_le hlow hhigh')
  have h₂ := Nat.lt_of_mul_lt_mul_right (Nat.lt_of_lt_of_le hlow' hhigh)
  omega

namespace ManagerState

open PoolState (owned refsOf)
open BlockPool (IndexInv RefInv AddsNone AddsOnly)

variable {s s' : ManagerState}

/-- Every block has one position: that of its keys and of the tables that list it. -/
structure Placed (m : SingleTypeKVCacheManager) (pool : BlockPool) (pos : BlockId → Nat) : Prop where
  keys : ∀ b key, key ∈ pool.keysOf b → key.groupId = m.kvCacheGroupId →
    PlaceOf pool.hasher m.blockSize key.blockHash (pos b)
  tables : ∀ (r : String) (i : Nat) (b : BlockId), (m.reqBlocks r)[i]? = some b → pos b = i

def tableBlocks (m : SingleTypeKVCacheManager) : List BlockId :=
  m.reqToBlocks.items.flatMap Prod.snd

def framed (s : ManagerState) : PoolState :=
  s.engine.addHeld (owned 0 (refsOf s.poolId (tableBlocks s.manager)))

structure Inv (s : ManagerState) : Prop where
  framed : s.framed.Inv
  index : ∀ p, IndexInv (s.engine.pools p)
  kind : s.manager.kvCacheSpec.kind = .fullAttention
  caching : s.manager.enableCaching = s.pool.enableCaching
  uncached : s.pool.enableCaching = false → ∀ b, s.pool.keysOf b = []
  placed : s.pool.hasher.CollisionFree → ∃ pos, Placed s.manager s.pool pos

theorem count_tableBlocks (m : SingleTypeKVCacheManager) (b : BlockId) :
    (tableBlocks m).count b = m.tableCount b := by
  rw [tableBlocks, count_flatMap, SingleTypeKVCacheManager.tableCount, PyDict.total]
  rfl

theorem mem_tableBlocks {m : SingleTypeKVCacheManager} {b : BlockId} :
    b ∈ tableBlocks m ↔ ∃ r, b ∈ m.reqBlocks r := by
  rw [tableBlocks, mem_flatMap]
  constructor
  · rintro ⟨⟨r, blocks⟩, hmem, hb⟩
    have found := (m.reqToBlocks.mem_items r blocks).mp hmem
    exact ⟨r, by rw [SingleTypeKVCacheManager.reqBlocks, found]; exact hb⟩
  · rintro ⟨r, hb⟩
    unfold SingleTypeKVCacheManager.reqBlocks at hb
    cases found : m.reqToBlocks.get? r with
    | none => simp [found] at hb
    | some blocks =>
      rw [found] at hb
      exact ⟨(r, blocks), (m.reqToBlocks.mem_items r blocks).mpr found, hb⟩

theorem framed_refs (s : ManagerState) (p : PoolId) (b : BlockId) : s.framed.refs p b =
    s.engine.refs p b + if p = s.poolId then s.manager.tableCount b else 0 := by
  have h := PoolState.refs_add (s := s.engine) s.framed rfl p b
  rw [h, PoolState.count_refsOf, count_tableBlocks]

theorem Inv.table_valid (inv : Inv s) {r : String} {b : BlockId} (hb : b ∈ s.manager.reqBlocks r) :
    b < s.pool.numGpuBlocks ∧ b ≠ s.pool.nullBlock := by
  have hmem : (0, (⟨s.poolId, b⟩ : BlockRef)) ∈ s.framed.held := by
    refine Multiset.mem_add.mpr (.inr (Multiset.mem_coe.mpr ?_))
    refine mem_map.mpr ⟨_, mem_map.mpr ⟨b, mem_tableBlocks.mpr ⟨r, hb⟩, rfl⟩, rfl⟩
  exact inv.framed.valid _ hmem

theorem Inv.poolIndex (inv : Inv s) : IndexInv s.pool := inv.index s.poolId

theorem Inv.refInv (inv : Inv s) : ∃ free, s.pool.RefInv
    (fun b => s.engine.refs s.poolId b + s.manager.tableCount b) free := by
  have ⟨free, refs⟩ := inv.framed.refs s.poolId
  exact ⟨free, refs.congr fun b _ => by rw [framed_refs, if_pos rfl]⟩

/-- The part of the invariant about references and keys, after a call of the manager. -/
theorem Inv.after_call (inv : Inv s) {pool : BlockPool} {m : SingleTypeKVCacheManager}
    {holder : Holder} {retained : List BlockId} (balanced : s.manager.Balanced m s.pool pool
    (fun b => s.engine.refs s.poolId b + s.manager.tableCount b) retained) (index : IndexInv pool)
    (tables : ∀ r, ∀ b ∈ m.reqBlocks r, b < s.pool.numGpuBlocks ∧ b ≠ s.pool.nullBlock)
    (valid : ∀ b ∈ retained, b < s.pool.numGpuBlocks ∧ b ≠ s.pool.nullBlock)
    (uncached : s.pool.enableCaching = false → ∀ b, pool.keysOf b = [])
    (placed : s.pool.hasher.CollisionFree → ∃ pos, Placed m pool pos) :
    Inv (s.after pool m holder retained) := by
  have config := balanced.poolConfig
  have hpool : (s.after pool m holder retained).pool = pool := update_self _ _ _
  have ⟨refs, free, here, sum⟩ := balanced.refs
  refine ⟨?_, fun p => ?_, ?_, ?_, ?_, ?_⟩
  · refine inv.framed.setPool s.poolId pool rfl config ⟨free, ?_⟩ ?_ ?_
    · refine here.congr fun b hb => ?_
      have total := sum b (by rw [← config]; exact hb)
      have held := PoolState.refs_add (s := s.engine) (s.after pool m holder retained).engine
        rfl s.poolId b
      rw [PoolState.count_refsOf, if_pos rfl] at held
      rw [framed_refs, if_pos (by rfl), held]
      show refs b = _ + _ + m.tableCount b
      omega
    · intro p hp b
      have held := PoolState.refs_add (s := s.engine) (s.after pool m holder retained).engine
        rfl p b
      rw [PoolState.count_refsOf, if_neg hp] at held
      have poolId : (s.after pool m holder retained).poolId = s.poolId := rfl
      rw [framed_refs, framed_refs, poolId, if_neg hp, if_neg hp, held]
    · intro entry hentry
      rcases Multiset.mem_add.mp hentry with hentry | hentry
      · rcases Multiset.mem_add.mp hentry with hold | hnew
        · exact inv.framed.valid entry (Multiset.mem_add.mpr (.inl hold))
        · have ⟨hp, hb⟩ := PoolState.mem_refsOf (PoolState.mem_owned hnew)
          have := valid _ hb
          rw [hp]
          exact this
      · have ⟨hp, hb⟩ := PoolState.mem_refsOf (PoolState.mem_owned hentry)
        have ⟨r, hr⟩ := mem_tableBlocks.mp hb
        have := tables r _ hr
        rw [hp]
        exact this
  · show IndexInv (update s.engine.pools s.poolId pool p)
    by_cases hp : p = s.poolId
    · subst hp
      rwa [update_self]
    · rw [update_of_ne hp]
      exact inv.index p
  · show m.kvCacheSpec.kind = _
    rw [balanced.config]
    exact inv.kind
  · rw [hpool, config]
    show m.enableCaching = _
    rw [balanced.config]
    exact inv.caching
  · rw [hpool, config]
    exact uncached
  · rw [hpool, config]
    exact placed

section Places

open SingleTypeKVCacheManager

variable {m m' : SingleTypeKVCacheManager} {pool pool' : BlockPool} {pos : BlockId → Nat}

theorem Placed.grow (h : Placed m pool pos) (config : m'.toManagerConfig = m.toManagerConfig)
    (hasher : pool'.hasher = pool.hasher) (adds : AddsNone pool pool') (fresh : BlockId → Prop)
    {pos' : BlockId → Nat} (nokeys : ∀ b, fresh b → pool'.keysOf b = [])
    (same : ∀ b, ¬fresh b → pos' b = pos b) (tables : ∀ r i b, (m'.reqBlocks r)[i]? = some b →
    ¬fresh b ∧ (m.reqBlocks r)[i]? = some b ∨ pos' b = i) : Placed m' pool' pos' := by
  have size : m'.blockSize = m.blockSize := by
    unfold blockSize
    rw [config]
  constructor
  · intro b key hkey hgroup
    have old : ¬fresh b := by
      intro hfresh
      rw [nokeys b hfresh] at hkey
      cases hkey
    rw [same b old, hasher, size]
    rw [config] at hgroup
    exact h.keys b key (adds b key hkey) hgroup
  · intro r i b hi
    rcases tables r i b hi with ⟨old, hold⟩ | hpos
    · rw [same b old]
      exact h.tables r i b hold
    · exact hpos

theorem Placed.extend (h : Placed m pool pos) {requestId : String} {newBlocks : List BlockId}
    (ext : Extends m m' pool pool' requestId newBlocks) (index : IndexInv pool)
    (nodup : newBlocks.Nodup) (unlisted : ∀ b ∈ newBlocks, ∀ r, b ∉ m.reqBlocks r)
    (nokeys : ∀ b ∈ newBlocks, pool'.keysOf b = []) (hasher : pool'.hasher = pool.hasher) :
    ∃ pos', Placed m' pool' pos' := by
  refine ⟨fun b => if b ∈ newBlocks then (m.reqBlocks requestId).length + newBlocks.idxOf b
    else pos b, h.grow ext.config hasher (BlockPool.addsNone_getNewBlocks index ext.get)
    (· ∈ newBlocks) nokeys (fun b hb => if_neg hb) fun r i b hi => ?_⟩
  rw [reqBlocks_of_set ext.tables] at hi
  have old : (m.reqBlocks r)[i]? = some b → b ∉ newBlocks := fun hold hb =>
    unlisted b hb r (mem_of_getElem? hold)
  split at hi
  · rename_i hr
    subst hr
    by_cases hlt : i < (m.reqBlocks r).length
    · rw [getElem?_append_left hlt] at hi
      exact .inl ⟨old hi, hi⟩
    · rw [getElem?_append_right (Nat.le_of_not_lt hlt)] at hi
      have hb := mem_of_getElem? hi
      have ⟨hbound, hget⟩ := List.getElem?_eq_some_iff.mp hi
      refine .inr ?_
      rw [if_pos hb, ← hget, nodup.idxOf_getElem]
      omega
  · exact .inl ⟨old hi, hi⟩

theorem Placed.redirect (h : Placed m pool pos) {requestId : String} {blockIdx : Nat}
    {sourceBlock cowBlock : BlockId}
    (red : Redirects m m' pool pool' requestId blockIdx sourceBlock cowBlock)
    (adds : AddsNone pool pool') (unlisted : ∀ r, cowBlock ∉ m.reqBlocks r)
    (nokeys : pool'.keysOf cowBlock = []) (hasher : pool'.hasher = pool.hasher) :
    ∃ pos', Placed m' pool' pos' := by
  refine ⟨fun b => if b = cowBlock then blockIdx else pos b, h.grow red.config hasher adds
    (· = cowBlock) (fun b hb => hb ▸ nokeys) (fun b hb => if_neg hb)
    fun r i b hi => ?_⟩
  rw [reqBlocks_of_set red.tables] at hi
  have old : (m.reqBlocks r)[i]? = some b → b ≠ cowBlock := fun hold hb =>
    unlisted r (hb ▸ mem_of_getElem? hold)
  split at hi
  · rename_i hr
    subst hr
    rw [getElem?_set] at hi
    split at hi
    · rename_i hidx
      split at hi
      · cases hi
        exact .inr (by rw [if_pos rfl, hidx])
      · cases hi
    · exact .inl ⟨old hi, hi⟩
  · exact .inl ⟨old hi, hi⟩

end Places

section Steps

open SingleTypeKVCacheManager

variable {m : SingleTypeKVCacheManager} {pool : BlockPool}

theorem owned_nil (holder : Holder) : owned holder [] = 0 := rfl

theorem after_pool (s : ManagerState) (m : SingleTypeKVCacheManager) (holder : Holder) :
    s.after s.pool m holder [] = { s with manager := m } := by
  have pools : update s.engine.pools s.poolId s.pool = s.engine.pools :=
    update_eq_self _ _
  simp [after, PoolState.setPool, pools, refsOf, owned_nil]

theorem after_after (s : ManagerState) (pool pool' : BlockPool) (m m' : SingleTypeKVCacheManager)
    (holder holder' : Holder) (retained : List BlockId) :
    (s.after pool m holder retained).after pool' m' holder' [] =
    s.after pool' m' holder retained := by
  simp [after, PoolState.setPool, refsOf, owned_nil]

theorem after_pool_eq (s : ManagerState) (pool : BlockPool) (m : SingleTypeKVCacheManager)
    (holder : Holder) (retained : List BlockId) : (s.after pool m holder retained).pool = pool :=
  update_self _ _ _

theorem Inv.same_tables (inv : Inv s) (config : m.toManagerConfig = s.manager.toManagerConfig)
    (tables : ∀ r, m.reqBlocks r = s.manager.reqBlocks r)
    (counts : ∀ b, m.tableCount b = s.manager.tableCount b) : Inv (s.after s.pool m 0 []) := by
  have ⟨free, refs⟩ := inv.refInv
  refine inv.after_call (Balanced.of_sameRefs refs (.refl _) config counts) (inv.index s.poolId)
    (fun r b hb => inv.table_valid (tables r ▸ hb)) (by simp) inv.uncached fun free => ?_
  have ⟨pos, placed⟩ := inv.placed free
  have size : m.blockSize = s.manager.blockSize := by
    unfold blockSize
    rw [config]
  refine ⟨pos, fun b key hkey hgroup => ?_, fun r i b hi => ?_⟩
  · rw [config] at hgroup
    rw [size]
    exact placed.keys b key hkey hgroup
  · rw [tables] at hi
    exact placed.tables r i b hi

theorem Inv.read (inv : Inv s) (requestId : String) :
    Inv (s.after s.pool (s.manager.readBlocks requestId) 0 []) :=
  inv.same_tables rfl (s.manager.reqBlocks_readBlocks requestId)
    (s.manager.tableCount_readBlocks requestId)

theorem numSkippedBlocks_full (h : m.kvCacheSpec.kind = .fullAttention) (n : Nat) :
    m.numSkippedBlocks n = 0 := by
  rw [numSkippedBlocks, getNumSkippedTokens, h]
  exact Nat.zero_div _

variable {request : Request} {b : BlockId}

theorem cachedFor_key (index : IndexInv pool) {group n : Nat}
    (h : pool.CachedFor request group n b) : ∃ blockHash,
    request.HashAt pool.hashBlockSize n blockHash ∧ ⟨blockHash, group⟩ ∈ pool.keysOf b := by
  have ⟨blockHash, hhash, hcached⟩ := h
  rw [BlockHashToBlockMap.contain_iff, index.agree] at hcached
  exact ⟨blockHash, hhash, hcached⟩

theorem Inv.addLocal (inv : Inv s) {newComputedBlocks : List BlockId} {numLocal numExternal : Nat}
    (contract : s.Contract (.addLocalComputedBlocks request newComputedBlocks numLocal numExternal))
    (h : s.manager.addLocalComputedBlocks s.pool request.requestId newComputedBlocks numLocal
    numExternal = .ok (pool, m)) : Inv (s.after pool m 0 []) := by
  have adopts := adopts_of_ok h
  have ⟨free, refs⟩ := inv.refInv
  have index := inv.poolIndex
  have same := BlockPool.sameIndex_touch _ adopts.touch
  have tables (r : String) : m.reqBlocks r =
      if r = request.requestId then newComputedBlocks else s.manager.reqBlocks r := by
    rw [reqBlocks_of_set adopts.tables, numSkippedBlocks_full inv.kind]
    rfl
  have entry (i : Nat) (b : BlockId) (hi : newComputedBlocks[i]? = some b) :
      ∃ n blockHash, i * s.manager.blockSize < n ∧ n ≤ (i + 1) * s.manager.blockSize ∧
        request.HashAt s.pool.hashBlockSize n blockHash ∧
        (⟨blockHash, s.manager.kvCacheGroupId⟩ : BlockHashWithGroupId) ∈ s.pool.keysOf b := by
    have ⟨n, hlow, hhigh, _, hcached⟩ := contract.2.entry i b hi
    have ⟨blockHash, hhash, hkey⟩ := cachedFor_key index hcached
    exact ⟨n, blockHash, hlow, hhigh, hhash, hkey⟩
  have valid (b : BlockId) (hb : b ∈ newComputedBlocks) :
      b < s.pool.numGpuBlocks ∧ b ≠ s.pool.nullBlock := by
    have ⟨i, hi⟩ := mem_iff_getElem?.mp hb
    have ⟨_, _, _, _, _, hkey⟩ := entry i b hi
    exact index.inside b (ne_nil_of_mem hkey)
  refine inv.after_call (adopts.balanced refs fun b hb => (valid b hb).1)
    (same.tracks index).inv (fun r b hb => ?_) (by simp) (fun off b => ?_) fun collisionFree => ?_
  · rw [tables] at hb
    split at hb
    · exact valid b hb
    · exact inv.table_valid hb
  · rw [same.keysOf]
    exact inv.uncached off b
  · have ⟨pos, placed⟩ := inv.placed collisionFree
    refine ⟨pos, fun b key hkey hgroup => ?_, fun r i b hi => ?_⟩
    · rw [same.keysOf] at hkey
      rw [adopts.config] at hgroup
      rw [same.config, blockSize, adopts.config]
      exact placed.keys b key hkey hgroup
    · rw [tables] at hi
      split at hi
      · have ⟨n, blockHash, hlow, hhigh, hhash, hkey⟩ := entry i b hi
        exact (placed.keys b _ hkey rfl).unique collisionFree
          ⟨request, n, contract.1, hhash, hlow, hhigh⟩
      · exact placed.tables r i b hi

theorem unlisted_of_free {refs : BlockId → Nat} {free : List BlockId} {outside : BlockId → Nat}
    (inv : RefInv pool refs free) (split : ∀ b, refs b = outside b + m.tableCount b)
    (hb : b ∈ free) (r : String) : b ∉ m.reqBlocks r := by
  intro hmem
  have zero := (inv.fresh hb).2.2
  have count := m.count_le_tableCount r b
  have pos := count_pos_iff.mpr hmem
  have := split b
  omega

theorem Inv.uncached_get (inv : Inv s) {n : Nat} {ret : List BlockId}
    (h : s.pool.getNewBlocks n = .ok (ret, pool)) (off : s.pool.enableCaching = false)
    (b : BlockId) : pool.keysOf b = [] := by
  rw [BlockPool.getNewBlocks_keys inv.poolIndex h, off, if_neg (by simp)]
  exact inv.uncached off b

theorem Inv.keys_of_new (inv : Inv s) {n : Nat} {ret : List BlockId}
    (h : s.pool.getNewBlocks n = .ok (ret, pool)) (hb : b ∈ ret) : pool.keysOf b = [] := by
  cases on : s.pool.enableCaching with
  | true => rw [BlockPool.getNewBlocks_keys inv.poolIndex h, if_pos ⟨hb, on⟩]
  | false => exact inv.uncached_get h on b

variable {requestId : String}

theorem Inv.extend (inv : Inv s) (holder : Holder) {newBlocks : List BlockId}
    (ext : Extends s.manager m s.pool pool requestId newBlocks) :
    Inv (s.after pool m holder []) := by
  have ⟨free, refs⟩ := inv.refInv
  have index := inv.poolIndex
  have ⟨free', hfree, _, _, config⟩ := BlockPool.getNewBlocks_of_ok refs ext.get
  have tracks := (BlockPool.getNewBlocks_tracks index ext.get).1
  have fresh (b : BlockId) (hb : b ∈ newBlocks) : b ∈ free := by
    rw [hfree]
    exact mem_append_left _ hb
  refine inv.after_call (ext.balanced refs) tracks.inv (fun r b hb => ?_) (by simp)
    (fun off b => ?_) fun collisionFree => ?_
  · rw [reqBlocks_of_set ext.tables] at hb
    split at hb
    · rcases mem_append.mp hb with hb | hb
      · exact inv.table_valid hb
      · have := refs.fresh (fresh b hb)
        exact ⟨this.1, this.2.1⟩
    · exact inv.table_valid hb
  · exact inv.uncached_get ext.get off b
  · have ⟨pos, placed⟩ := inv.placed collisionFree
    have nodup := refs.queue.nodup
    rw [hfree] at nodup
    exact placed.extend ext index (nodup_append.mp nodup).1
      (fun b hb r => unlisted_of_free refs (fun _ => rfl) (fresh b hb) r)
      (fun b hb => inv.keys_of_new ext.get hb) (by rw [config])

theorem Inv.redirect (inv : Inv s) {blockIdx : Nat}
    {sourceBlock cowBlock : BlockId} {holder : Holder}
    (red : Redirects s.manager m s.pool pool requestId blockIdx sourceBlock cowBlock) :
    Inv (s.after pool m holder [sourceBlock, cowBlock]) := by
  have ⟨free, refs⟩ := inv.refInv
  have index := inv.poolIndex
  have ⟨q, hget, hpool⟩ := red.get
  have ⟨free', hfree, _, _, config⟩ := BlockPool.getNewBlocks_of_ok refs hget
  have tracks := (BlockPool.getNewBlocks_tracks index hget).1
  have same : BlockPool.SameIndex q pool := hpool ▸ BlockPool.sameIndex_setRefCnt q cowBlock _
  have hfresh : cowBlock ∈ free := by simp [hfree]
  have fresh := refs.fresh hfresh
  have source := inv.table_valid (mem_of_getElem? red.source)
  have keys (b : BlockId) : pool.keysOf b = q.keysOf b := same.keysOf b
  refine inv.after_call (red.balanced refs) (same.tracks tracks.inv).inv (fun r b hb => ?_)
    (fun b hb => ?_) (fun off b => ?_) fun collisionFree => ?_
  · rw [reqBlocks_of_set red.tables] at hb
    split at hb
    · rcases mem_or_eq_of_mem_set hb with hb | rfl
      · exact inv.table_valid hb
      · exact ⟨fresh.1, fresh.2.1⟩
    · exact inv.table_valid hb
  · rcases mem_cons.mp hb with rfl | hb
    · exact source
    · rw [mem_singleton.mp hb]
      exact ⟨fresh.1, fresh.2.1⟩
  · rw [keys]
    exact inv.uncached_get hget off b
  · have ⟨pos, placed⟩ := inv.placed collisionFree
    refine placed.redirect red (fun b key hkey => ?_)
      (fun r => unlisted_of_free refs (fun _ => rfl) hfresh r) ?_ ?_
    · rw [keys] at hkey
      exact BlockPool.addsNone_getNewBlocks index hget b key hkey
    · rw [keys]
      exact inv.keys_of_new hget (by simp)
    · rw [same.config, config]

theorem newEndpoints_of_append {m' : SingleTypeKVCacheManager} (pairs : List (BlockId × BlockId))
    (h : m'.pendingCowCopies = m.pendingCowCopies ++ pairs) :
    newEndpoints m m' = pairs.flatMap fun pair => [pair.1, pair.2] := by
  rw [newEndpoints, h, drop_left]

theorem Inv.allocateNew (inv : Inv s) {numTokens : Nat} {copyHolder : Holder}
    {blocks : List BlockId}
    (h : s.manager.allocateNewBlocks s.pool requestId numTokens = .ok (blocks, pool, m)) :
    Inv (s.after pool m copyHolder (newEndpoints s.manager m)) := by
  have ⟨_, refs⟩ := inv.refInv
  have ⟨cow, q, n, hcow, h⟩ := allocateNewBlocks_of_ok refs h
  obtain ⟨endpoints, first, copies⟩ : ∃ endpoints, Inv (s.after q n copyHolder endpoints) ∧
      newEndpoints s.manager n = endpoints := by
    rcases redirects_of_ok refs hcow with ⟨_, rfl, rfl⟩ | ⟨_, src, dst, _, _, red⟩
    · refine ⟨[], ?_, ?_⟩
      · rw [after_pool]
        exact inv
      · exact newEndpoints_of_append [] (append_nil _).symm
    · exact ⟨[src, dst], inv.redirect red, newEndpoints_of_append _ red.copies⟩
  have size : ∀ m', m'.pendingCowCopies = n.pendingCowCopies →
      newEndpoints s.manager m' = endpoints := by
    intro m' hm
    rw [← copies, newEndpoints, newEndpoints, hm]
  rcases h with ⟨_, rfl, rfl⟩ | ⟨newBlocks, _, ext⟩
  · have second := first.read requestId
    rw [after_pool_eq, after_after] at second
    rw [size (n.readBlocks requestId) rfl]
    exact second
  · have ext' : Extends (s.after q n copyHolder endpoints).manager m
        (s.after q n copyHolder endpoints).pool pool requestId newBlocks := by
      rw [after_pool_eq]
      exact ext
    have second := first.extend 0 ext'
    rw [after_after] at second
    rw [size _ ext.copies]
    exact second

theorem Inv.cache (inv : Inv s) {numTokens : Nat}
    {retentionInterval : Option Nat} {replayBoundaries : List Nat}
    (contract : s.Contract (.cacheBlocks request numTokens retentionInterval replayBoundaries))
    (h : FullAttentionManager.cacheBlocks s.manager s.pool request numTokens retentionInterval
    replayBoundaries = .ok (pool, m)) : Inv (s.after pool m 0 []) := by
  have caches := caches_fullAttention inv.poolIndex (fun b hb => (inv.table_valid hb).1) h
  have ⟨_, refs⟩ := inv.refInv
  refine inv.after_call (Balanced.of_sameRefs refs caches.refs caches.config caches.counts)
    caches.index (fun r b hb => inv.table_valid (caches.tables r ▸ hb)) (by simp)
    (fun off => ?_) fun collisionFree => ?_
  · rw [← inv.caching, contract.2] at off
    cases off
  · have ⟨pos, placed⟩ := inv.placed collisionFree
    refine ⟨pos, fun b key hkey hgroup => ?_, fun r i b hi => ?_⟩
    · rw [caches.config] at hgroup
      rw [caches.refs.config, blockSize, caches.config]
      rcases caches.keys b key hkey with hold | ⟨i, n, blockHash, hi, hhash, hlow, hhigh, rfl⟩
      · exact placed.keys b key hold hgroup
      · rw [placed.tables _ i b hi]
        exact ⟨request, n, contract.1, hhash, hlow, hhigh⟩
    · rw [caches.tables] at hi
      exact placed.tables r i b hi

theorem reqBlocks_pop (m : SingleTypeKVCacheManager) (requestId r : String) :
    (m.popBlocksForFree requestId).2.reqBlocks r = if r = requestId then [] else m.reqBlocks r := by
  simp only [reqBlocks, popBlocksForFree, PyDict.get?_pop]
  split <;> rfl

theorem Inv.pop (inv : Inv s) {holder : Holder} {retained : List BlockId}
    (balanced : s.manager.Balanced (s.manager.popBlocksForFree requestId).2 s.pool pool
    (fun b => s.engine.refs s.poolId b + s.manager.tableCount b) retained)
    (same : BlockPool.SameIndex s.pool pool) (sub : ∀ b ∈ retained, b ∈ s.manager.reqBlocks requestId) :
    Inv (s.after pool (s.manager.popBlocksForFree requestId).2 holder retained) := by
  have kept (r : String) (i : Nat) (b : BlockId)
      (hi : ((s.manager.popBlocksForFree requestId).2.reqBlocks r)[i]? = some b) :
      (s.manager.reqBlocks r)[i]? = some b := by
    rw [reqBlocks_pop] at hi
    split at hi
    · simp at hi
    · exact hi
  refine inv.after_call balanced (same.tracks inv.poolIndex).inv (fun r b hb => ?_)
    (fun b hb => inv.table_valid (sub b hb)) (fun off b => ?_) fun collisionFree => ?_
  · have ⟨i, hi⟩ := mem_iff_getElem?.mp hb
    exact inv.table_valid (mem_of_getElem? (kept r i b hi))
  · rw [same.keysOf]
    exact inv.uncached off b
  · have ⟨pos, placed⟩ := inv.placed collisionFree
    refine ⟨pos, fun b key hkey hgroup => ?_, fun r i b hi => placed.tables r i b (kept r i b hi)⟩
    rw [same.keysOf] at hkey
    rw [same.config]
    exact placed.keys b key hkey hgroup

theorem Inv.popForFree (inv : Inv s) (requestId : String) (holder : Holder) :
    Inv (s.after s.pool (s.manager.popBlocksForFree requestId).2 holder
    (s.manager.reqBlocks requestId)) := by
  have ⟨free, refs⟩ := inv.refInv
  refine inv.pop ⟨rfl, rfl, _, free, refs, fun b _ => ?_⟩ (.refl _) (fun b hb => hb)
  have := s.manager.tableCount_pop requestId b
  omega

theorem Inv.free (inv : Inv s)
    (h : s.manager.free s.pool requestId = .ok (pool, m)) : Inv (s.after pool m 0 []) := by
  have ⟨_, refs⟩ := inv.refInv
  have balanced := balanced_free refs (fun b _ => Nat.le_add_left _ _)
    (fun b hb => (inv.table_valid hb).1) h
  have ⟨q, hfree, h⟩ := bind_eq_ok.mp h
  cases h
  exact inv.pop balanced (BlockPool.sameIndex_freeOwnBlocks hfree) (by simp)

theorem Inv.elsewhere (inv : Inv s) {op : PoolOp} {engine : PoolState}
    (contract : s.Contract (.elsewhere op)) (h : s.engine.apply op = .ok engine) :
    Inv { s with engine } := by
  have ⟨⟨basic, caching⟩, sized, foreign⟩ := contract
  have effect := PoolState.apply_poolEffect basic h inv.index
  have config : ({ s with engine } : ManagerState).pool.toBlockPoolConfig =
      s.pool.toBlockPoolConfig := (effect s.poolId).1.config
  refine ⟨?_, fun p => (effect p).1.inv (inv.index p), inv.kind, ?_, fun off b => ?_,
    fun collisionFree => ?_⟩
  · exact PoolState.step_inv inv.framed (PoolState.contract_addHeld basic _)
      (PoolState.apply_addHeld basic h _)
  · rw [config]
    exact inv.caching
  · rw [config] at off
    refine (effect s.poolId).2 (fun registers => ?_) b (inv.uncached off b)
    have on := caching s.poolId registers
    exact absurd (off.symm.trans on) (by simp)
  · rw [config] at collisionFree
    have ⟨pos, placed⟩ := inv.placed collisionFree
    refine ⟨pos, fun b key hkey hgroup => ?_, placed.tables⟩
    rw [config]
    rcases PoolState.apply_addsOnly basic sized h inv.index s.poolId b key hkey with hold | hnew
    · exact placed.keys b key hold hgroup
    · exact absurd hgroup (foreign b key hnew)

theorem Inv.step (inv : Inv s) {op : ManagerOp} (contract : s.Contract op)
    (h : s.apply op = .ok s') : Inv s' := by
  cases op with
  | addLocalComputedBlocks request newComputedBlocks numLocal numExternal =>
    have ⟨⟨pool, m⟩, hcall, h⟩ := bind_eq_ok.mp h
    cases h
    exact inv.addLocal contract hcall
  | allocateExternalComputedBlocks requestId numLocal numExternal =>
    have ⟨⟨pool, m⟩, hcall, h⟩ := bind_eq_ok.mp h
    cases h
    have ⟨_, refs⟩ := inv.refInv
    rcases extends_of_external refs hcall with ⟨rfl, rfl⟩ | ⟨newBlocks, ext⟩
    · rw [after_pool]
      exact inv
    · exact inv.extend _ ext
  | allocateNewBlocks requestId numTokens copyHolder =>
    have ⟨⟨blocks, pool, m⟩, hcall, h⟩ := bind_eq_ok.mp h
    cases h
    exact inv.allocateNew hcall
  | cacheBlocks request numTokens retentionInterval replayBoundaries =>
    have ⟨⟨pool, m⟩, hcall, h⟩ := bind_eq_ok.mp h
    cases h
    exact inv.cache contract hcall
  | removeSkippedBlocks requestId processedComputedTokens =>
    have ⟨⟨pool, m⟩, hcall, h⟩ := bind_eq_ok.mp h
    cases h
    rw [removeSkippedBlocks, getNumSkippedTokens, inv.kind] at hcall
    cases hcall
    rw [after_pool]
    exact inv
  | popBlocksForFree requestId holder =>
    cases h
    exact inv.popForFree requestId holder
  | free requestId =>
    have ⟨⟨pool, m⟩, hcall, h⟩ := bind_eq_ok.mp h
    cases h
    exact inv.free hcall
  | takePendingCowCopies =>
    cases h
    exact inv.same_tables rfl (fun _ => rfl) (fun _ => rfl)
  | takeNewBlockIds =>
    cases h
    exact inv.same_tables rfl (fun _ => rfl) (fun _ => rfl)
  | readBlocks requestId =>
    cases h
    exact inv.read requestId
  | getNumCommonPrefixBlocks requestId =>
    cases h
    exact inv.read requestId
  | elsewhere op =>
    have ⟨engine, hcall, h⟩ := bind_eq_ok.mp h
    cases h
    exact inv.elsewhere contract hcall

theorem Initial.inv (h : Initial s) : Inv s := by
  have tables (r : String) : s.manager.reqBlocks r = [] := by
    rw [h.manager]
    rfl
  have index (p : PoolId) : IndexInv (s.engine.pools p) ∧
      ∀ b, (s.engine.pools p).keysOf b = [] := by
    have ⟨_, _, _, _, _, _, _, hp⟩ := h.engine.pools p
    have ⟨index, keys, _⟩ := PoolState.new_indexInv hp
    exact ⟨index, keys⟩
  refine ⟨?_, fun p => (index p).1, h.kind, h.caching, fun _ => (index s.poolId).2, fun _ =>
    ⟨fun _ => 0, fun b key hkey => ?_, fun r i b hi => ?_⟩⟩
  · have same : s.framed = s.engine := by
      have none : tableBlocks s.manager = [] := by
        refine eq_nil_iff_forall_not_mem.mpr fun b hb => ?_
        have ⟨r, hr⟩ := mem_tableBlocks.mp hb
        simp [tables] at hr
      simp [framed, PoolState.addHeld, none, refsOf, owned_nil]
    rw [same]
    exact PoolState.init_inv h.engine
  · rw [pool, (index s.poolId).2] at hkey
    cases hkey
  · simp [tables] at hi

theorem reachable_inv (h : system.Reachable s) : Inv s :=
  h.invariant (P := Inv) (fun _ init => Initial.inv init) (fun _ _ _ _ inv hs => by
    obtain ⟨contract, happly⟩ := hs
    exact inv.step contract happly)

end Steps

end ManagerState

end VllmAmpere
