import VllmAmpere.PrefixCacheRun
import VllmAmpere.SingleTypeManager

/-! What the calls of a manager do to the references of its block tables, to the
reference counts of the pool and to the free queue. -/

open List

namespace VllmAmpere

namespace BlockPool

variable {p q : BlockPool} {refs : BlockId → Nat} {free : List BlockId}

theorem getNewBlocks_of_ok (inv : RefInv p refs free) {n : Nat} {ret : List BlockId}
    (h : p.getNewBlocks n = .ok (ret, q)) : ∃ free', free = ret ++ free' ∧ ret.length = n ∧
    RefInv q (fun b => refs b + ret.count b) free' ∧ q.toBlockPoolConfig = p.toBlockPoolConfig := by
  by_cases hn : n ≤ free.length
  · have ⟨r, hr, inv', config⟩ := getNewBlocks_ok inv hn
    rw [h] at hr
    cases hr
    exact ⟨free.drop n, (take_append_drop n free).symm, by simp [hn], inv', config⟩
  · rw [getNewBlocks_error inv (Nat.lt_of_not_le hn)] at h
    cases h

theorem RefInv.fresh (inv : RefInv p refs free) {b : BlockId} (hb : b ∈ free) :
    b < p.numGpuBlocks ∧ b ≠ p.nullBlock ∧ refs b = 0 := by
  have ⟨hlt, hnull, hzero⟩ := (inv.mem_free b).mp hb
  have := inv.refCnt b hlt hnull
  exact ⟨hlt, hnull, by omega⟩

theorem touch_of_ok {bs : List BlockId} (inv : RefInv p refs free)
    (valid : ∀ b ∈ bs, b < p.numGpuBlocks) (h : touch bs p = .ok q) :
    ∃ free', RefInv q (fun b => refs b + bs.count b) free' ∧
    q.toBlockPoolConfig = p.toBlockPoolConfig := by
  have ⟨r, free', hr, inv', config⟩ := touch_ok inv valid
  rw [h] at hr
  cases hr
  exact ⟨free', inv', config⟩

theorem freeOwnBlocks_of_ok {bs : List BlockId} (inv : RefInv p refs free)
    (enough : ∀ b, b ≠ p.nullBlock → bs.count b ≤ refs b)
    (valid : ∀ b ∈ bs, b < p.numGpuBlocks) (h : p.freeOwnBlocks bs = .ok q) :
    ∃ free', RefInv q (fun b => refs b - bs.count b) free' ∧
    q.toBlockPoolConfig = p.toBlockPoolConfig := by
  have ⟨r, free', hr, inv', config⟩ := freeOwnBlocks_ok inv _ enough valid
  rw [h] at hr
  cases hr
  exact ⟨free', inv', config⟩

theorem RefInv.retain (inv : RefInv p refs free) {b : BlockId} (hb : b < p.numGpuBlocks)
    (hnull : b ≠ p.nullBlock) (used : 0 < refs b) :
    RefInv (p.setBlock b { p.blocks b with refCnt := (p.blocks b).refCnt + 1 })
      (fun c => refs c + if c = b then 1 else 0) free where
  queue := inv.queue
  mem_free c := by
    have mem := inv.mem_free c
    rw [setBlock_blocks]
    by_cases hc : c = b
    · have count := inv.refCnt b hb hnull
      subst hc
      simp only [if_true]
      rw [mem]
      refine and_congr_right fun _ => and_congr_right fun _ => ?_
      omega
    · rw [if_neg hc]
      exact mem
  refCnt c hc hn := by
    have count := inv.refCnt c hc hn
    rw [setBlock_blocks]
    by_cases hcb : c = b
    · subst hcb
      simp only [if_true]
      omega
    · simp only [if_neg hcb]
      omega
  isNull c := by
    rw [setBlock_blocks]
    split
    · rename_i hc
      rw [hc]
      exact inv.isNull b
    · exact inv.isNull c
  null_lt := inv.null_lt

end BlockPool

namespace SingleTypeKVCacheManager

open BlockPool (RefInv)

variable {m m' : SingleTypeKVCacheManager} {pool pool' : BlockPool} {refs : BlockId → Nat}
  {free : List BlockId} {requestId : String}

theorem blockSize_pos (m : SingleTypeKVCacheManager) : 0 < m.blockSize :=
  Nat.mul_pos m.kvCacheSpec.blockSize_pos m.dcp_pos

def tableCount (m : SingleTypeKVCacheManager) (b : BlockId) : Nat :=
  m.reqToBlocks.total (List.count b)

@[simp] theorem reqBlocks_setBlocks (m : SingleTypeKVCacheManager) (id r : String)
    (blocks : List BlockId) :
    (m.setBlocks id blocks).reqBlocks r = if r = id then blocks else m.reqBlocks r := by
  simp only [reqBlocks, setBlocks, PyDict.get?_set]
  split <;> rfl

theorem reqBlocks_readBlocks (m : SingleTypeKVCacheManager) (id r : String) :
    (m.readBlocks id).reqBlocks r = m.reqBlocks r := by
  rw [readBlocks, reqBlocks_setBlocks]
  split
  · rename_i hr
    rw [hr]
  · rfl

theorem tableCount_setBlocks (m : SingleTypeKVCacheManager) (id : String) (blocks : List BlockId)
    (b : BlockId) : (m.setBlocks id blocks).tableCount b + (m.reqBlocks id).count b =
    m.tableCount b + blocks.count b := by
  have total := m.reqToBlocks.total_set (List.count b) id blocks
  have old : (m.reqToBlocks.get? id).elim 0 (List.count b) = (m.reqBlocks id).count b := by
    unfold reqBlocks
    cases m.reqToBlocks.get? id <;> rfl
  rw [old] at total
  exact total

theorem tableCount_readBlocks (m : SingleTypeKVCacheManager) (id : String) (b : BlockId) :
    (m.readBlocks id).tableCount b = m.tableCount b := by
  have := m.tableCount_setBlocks id (m.reqBlocks id) b
  rw [readBlocks]
  omega

theorem count_le_tableCount (m : SingleTypeKVCacheManager) (id : String) (b : BlockId) :
    (m.reqBlocks id).count b ≤ m.tableCount b := by
  have := m.tableCount_setBlocks id [] b
  rw [count_nil] at this
  omega

theorem tableCount_pop (m : SingleTypeKVCacheManager) (id : String) (b : BlockId) :
    (m.popBlocksForFree id).2.tableCount b + (m.reqBlocks id).count b = m.tableCount b := by
  have total := m.reqToBlocks.total_pop (List.count b) id
  have old : (m.reqToBlocks.get? id).elim 0 (List.count b) = (m.reqBlocks id).count b := by
    unfold reqBlocks
    cases m.reqToBlocks.get? id <;> rfl
  rw [old] at total
  exact total

/-- The references of the pool moved as those of the tables did; those of
`retained` went from the tables to the list of pending copies. -/
structure Balanced (m m' : SingleTypeKVCacheManager) (pool pool' : BlockPool)
    (refs : BlockId → Nat) (retained : List BlockId) : Prop where
  poolConfig : pool'.toBlockPoolConfig = pool.toBlockPoolConfig
  config : m'.toManagerConfig = m.toManagerConfig
  refs : ∃ refs' free', RefInv pool' refs' free' ∧ ∀ b, b ≠ pool.nullBlock →
    refs' b + m.tableCount b = refs b + m'.tableCount b + retained.count b

theorem Balanced.of_sameRefs (inv : RefInv pool refs free)
    (same : BlockPool.SameRefs pool pool') (config : m'.toManagerConfig = m.toManagerConfig)
    (tables : ∀ b, m'.tableCount b = m.tableCount b) : Balanced m m' pool pool' refs [] :=
  ⟨same.config, config, refs, free, inv.sameRefs same, fun b _ => by
    rw [tables, count_nil, Nat.add_zero]⟩

section Calls

def numSkippedBlocks (m : SingleTypeKVCacheManager) (numTotalComputedTokens : Nat) : Nat :=
  m.getNumSkippedTokens numTotalComputedTokens / m.blockSize

/-- `add_local_computed_blocks` touches the blocks of a hit that are not skipped
and makes them the request's table, behind null blocks. -/
structure Adopts (m m' : SingleTypeKVCacheManager) (pool pool' : BlockPool) (requestId : String)
    (newComputedBlocks : List BlockId) (numTotalComputedTokens : Nat) : Prop where
  empty : m.reqBlocks requestId = []
  touch : BlockPool.touch (newComputedBlocks.drop (m.numSkippedBlocks numTotalComputedTokens))
    pool = .ok pool'
  tables : m'.reqToBlocks = m.reqToBlocks.set requestId
    (List.replicate (m.numSkippedBlocks numTotalComputedTokens) pool.nullBlock ++
      newComputedBlocks.drop (m.numSkippedBlocks numTotalComputedTokens))
  config : m'.toManagerConfig = m.toManagerConfig
  copies : m'.pendingCowCopies = m.pendingCowCopies

theorem adopts_of_ok {newComputedBlocks : List BlockId} {numLocal numExternal : Nat}
    (h : m.addLocalComputedBlocks pool requestId newComputedBlocks numLocal numExternal =
    .ok (pool', m')) :
    Adopts m m' pool pool' requestId newComputedBlocks (numLocal + numExternal) := by
  have ⟨_, hempty, h⟩ := bind_eq_ok.mp h
  have ⟨q, hq, h⟩ := bind_eq_ok.mp h
  have empty := length_eq_zero_iff.mp (pyAssert_ok.mp hempty)
  have touched : BlockPool.touch (newComputedBlocks.drop
      (m.numSkippedBlocks (numLocal + numExternal))) pool = .ok q := by
    by_cases on : m.enableCaching = true
    · rwa [if_pos on] at hq
    · rw [if_neg on] at hq
      have ⟨_, hnone, hq⟩ := bind_eq_ok.mp hq
      have hnone : newComputedBlocks.drop
          (m.numSkippedBlocks (numLocal + numExternal)) = [] := pyAssert_ok.mp hnone
      cases hq
      rw [hnone]
      rfl
  have null : q.nullBlock = pool.nullBlock := by rw [(BlockPool.sameIndex_touch _ touched).config]
  simp only at h
  split at h <;> cases h
  · exact ⟨empty, touched, by rw [← null]; rfl, rfl, rfl⟩
  · exact ⟨empty, touched, by rw [← null]; rfl, rfl, rfl⟩

/-- New blocks go to the end of a request's table. -/
structure Extends (m m' : SingleTypeKVCacheManager) (pool pool' : BlockPool) (requestId : String)
    (newBlocks : List BlockId) : Prop where
  get : pool.getNewBlocks newBlocks.length = .ok (newBlocks, pool')
  tables : m'.reqToBlocks = m.reqToBlocks.set requestId (m.reqBlocks requestId ++ newBlocks)
  config : m'.toManagerConfig = m.toManagerConfig
  copies : m'.pendingCowCopies = m.pendingCowCopies

theorem extends_of_external (inv : RefInv pool refs free) {numLocal numExternal : Nat}
    (h : m.allocateExternalComputedBlocks pool requestId numLocal numExternal = .ok (pool', m')) :
    (pool' = pool ∧ m' = m) ∨ ∃ newBlocks, Extends m m' pool pool' requestId newBlocks := by
  unfold allocateExternalComputedBlocks at h
  simp only at h
  generalize (if m.getNumSkippedTokens (numLocal + numExternal) > 0 then
    min (numLocal + numExternal - m.getNumSkippedTokens (numLocal + numExternal)) numExternal
    else numExternal) = inWindow at h
  by_cases hzero : inWindow = 0
  · rw [if_pos hzero] at h
    cases h
    exact .inl ⟨rfl, rfl⟩
  · rw [if_neg hzero] at h
    have ⟨⟨ret, q⟩, hget, h⟩ := bind_eq_ok.mp h
    have ⟨_, _, hlen, _⟩ := BlockPool.getNewBlocks_of_ok inv hget
    cases h
    exact .inr ⟨ret, by rw [hlen]; exact hget, rfl, rfl, rfl⟩

/-- The shared tail of a hit gives way to a new block; the pair is to be copied. -/
structure Redirects (m m' : SingleTypeKVCacheManager) (pool pool' : BlockPool)
    (requestId : String) (blockIdx : Nat) (sourceBlock cowBlock : BlockId) : Prop where
  source : (m.reqBlocks requestId)[blockIdx]? = some sourceBlock
  get : ∃ q, pool.getNewBlocks 1 = .ok ([cowBlock], q) ∧ pool' = q.setBlock cowBlock
    { q.blocks cowBlock with refCnt := (q.blocks cowBlock).refCnt + 1 }
  tables : m'.reqToBlocks = m.reqToBlocks.set requestId
    ((m.reqBlocks requestId).set blockIdx cowBlock)
  config : m'.toManagerConfig = m.toManagerConfig
  copies : m'.pendingCowCopies = m.pendingCowCopies ++ [(sourceBlock, cowBlock)]

theorem redirects_of_ok (inv : RefInv pool refs free) {cowBlocks : List BlockId}
    (h : m.redirectPartialHit pool requestId = .ok (cowBlocks, pool', m')) :
    (cowBlocks = [] ∧ pool' = pool ∧ m' = m) ∨ ∃ blockIdx sourceBlock cowBlock,
    cowBlocks = [cowBlock] ∧ m.partialHitReqs.get? requestId = some (blockIdx, sourceBlock) ∧
    Redirects m m' pool pool' requestId blockIdx sourceBlock cowBlock := by
  unfold redirectPartialHit at h
  split at h
  · cases h
    exact .inl ⟨rfl, rfl, rfl⟩
  · rename_i blockIdx sourceBlock hpartial
    obtain ⟨⟨ret, q⟩, hget, h⟩ := bind_eq_ok.mp h
    obtain ⟨cowBlock, hcow, h⟩ := bind_eq_ok.mp h
    obtain ⟨⟨r, n⟩, happly, h⟩ := bind_eq_ok.mp h
    obtain ⟨_, _, hlen, _⟩ := BlockPool.getNewBlocks_of_ok inv hget
    have single : ret = [cowBlock] := by
      obtain ⟨b, hb⟩ := length_eq_one_iff.mp hlen
      have hfirst := pyGet_ok.mp hcow
      rw [hb, getElem?_cons_zero, Option.some.injEq] at hfirst
      rw [hb, hfirst]
    obtain ⟨_, _, happly⟩ := bind_eq_ok.mp happly
    obtain ⟨_, hsource, happly⟩ := bind_eq_ok.mp happly
    obtain ⟨_, _, happly⟩ := bind_eq_ok.mp happly
    cases happly
    cases h
    subst single
    exact .inr ⟨blockIdx, sourceBlock, cowBlock, rfl, hpartial, pyAssert_ok.mp hsource,
      ⟨q, hget, rfl⟩, rfl, rfl, rfl⟩

end Calls

section Balance

variable {blocks : List BlockId}

theorem reqBlocks_of_set (h : m'.reqToBlocks = m.reqToBlocks.set requestId blocks) (r : String) :
    m'.reqBlocks r = if r = requestId then blocks else m.reqBlocks r := by
  rw [← reqBlocks_setBlocks, reqBlocks, h]
  rfl

theorem tableCount_of_set (h : m'.reqToBlocks = m.reqToBlocks.set requestId blocks) (b : BlockId) :
    m'.tableCount b + (m.reqBlocks requestId).count b = m.tableCount b + blocks.count b := by
  have same : m'.tableCount b = (m.setBlocks requestId blocks).tableCount b := by
    rw [tableCount, h]
    rfl
  rw [same]
  exact m.tableCount_setBlocks requestId blocks b

theorem Adopts.balanced {newComputedBlocks : List BlockId} {numTotal : Nat}
    (h : Adopts m m' pool pool' requestId newComputedBlocks numTotal) (inv : RefInv pool refs free)
    (valid : ∀ b ∈ newComputedBlocks, b < pool.numGpuBlocks) :
    Balanced m m' pool pool' refs [] := by
  have ⟨free', inv', config⟩ := BlockPool.touch_of_ok inv
    (fun b hb => valid b (mem_of_mem_drop hb)) h.touch
  refine ⟨config, h.config, _, free', inv', fun b hb => ?_⟩
  have tables := tableCount_of_set h.tables b
  have nulls : (List.replicate (m.numSkippedBlocks numTotal) pool.nullBlock).count b = 0 :=
    count_eq_zero_of_not_mem fun hmem => hb (eq_of_mem_replicate hmem)
  rw [h.empty, count_nil, count_append, nulls] at tables
  rw [count_nil]
  omega

theorem Extends.balanced {newBlocks : List BlockId}
    (h : Extends m m' pool pool' requestId newBlocks) (inv : RefInv pool refs free) :
    Balanced m m' pool pool' refs [] := by
  have ⟨free', _, _, inv', config⟩ := BlockPool.getNewBlocks_of_ok inv h.get
  refine ⟨config, h.config, _, free', inv', fun b _ => ?_⟩
  have tables := tableCount_of_set h.tables b
  rw [count_append] at tables
  rw [count_nil]
  omega

theorem Redirects.balanced {blockIdx : Nat} {sourceBlock cowBlock : BlockId}
    (h : Redirects m m' pool pool' requestId blockIdx sourceBlock cowBlock)
    (inv : RefInv pool refs free) : Balanced m m' pool pool' refs [sourceBlock, cowBlock] := by
  have ⟨q, hget, hpool⟩ := h.get
  have ⟨free', hfree, _, inv', config⟩ := BlockPool.getNewBlocks_of_ok inv hget
  have ⟨hlt, hnull, hzero⟩ := inv.fresh (b := cowBlock) (by simp [hfree])
  have retained := inv'.retain (b := cowBlock) (by rw [config]; exact hlt)
    (by rw [config]; exact hnull) (by simp)
  refine ⟨by rw [hpool]; exact config, h.config, _, free', hpool ▸ retained, fun b _ => ?_⟩
  have tables := tableCount_of_set h.tables b
  have ⟨hidx, hsource⟩ := List.getElem?_eq_some_iff.mp h.source
  have used : (if sourceBlock = b then 1 else 0) ≤ (m.reqBlocks requestId).count b := by
    split
    · rename_i heq
      rw [← heq]
      exact count_pos_iff.mpr (hsource ▸ getElem_mem hidx)
    · exact Nat.zero_le _
  rw [count_set hidx, hsource] at tables
  simp only [count_cons, count_nil, beq_iff_eq, eq_comm (a := b)] at tables ⊢
  omega

theorem Redirects.refInv {blockIdx : Nat} {sourceBlock cowBlock : BlockId}
    (h : Redirects m m' pool pool' requestId blockIdx sourceBlock cowBlock)
    (inv : RefInv pool refs free) : ∃ refs' free', RefInv pool' refs' free' :=
  have ⟨refs', free', inv', _⟩ := (h.balanced inv).refs
  ⟨refs', free', inv'⟩

theorem allocateNewBlocks_of_ok (inv : RefInv pool refs free) {numTokens : Nat}
    (h : m.allocateNewBlocks pool requestId numTokens = .ok (blocks, pool', m')) :
    ∃ cowBlocks q n, m.redirectPartialHit pool requestId = .ok (cowBlocks, q, n) ∧
    ((blocks = cowBlocks ∧ pool' = q ∧ m' = n.readBlocks requestId) ∨
    ∃ newBlocks, blocks = cowBlocks ++ newBlocks ∧ Extends n m' q pool' requestId newBlocks) := by
  have ⟨⟨cowBlocks, q, n⟩, hcow, h⟩ := bind_eq_ok.mp h
  refine ⟨cowBlocks, q, n, hcow, ?_⟩
  simp only at h
  split at h
  · cases h
    exact .inl ⟨rfl, rfl, rfl⟩
  · have ⟨⟨ret, r⟩, hget, h⟩ := bind_eq_ok.mp h
    have ⟨refs', free', inv'⟩ : ∃ refs' free', RefInv q refs' free' := by
      rcases redirects_of_ok inv hcow with ⟨_, rfl, _⟩ | ⟨_, _, _, _, _, redirect⟩
      · exact ⟨refs, free, inv⟩
      · exact redirect.refInv inv
    have ⟨_, _, hlen, _⟩ := BlockPool.getNewBlocks_of_ok inv' hget
    cases h
    exact .inr ⟨ret, rfl, by rw [hlen]; exact hget, rfl, rfl, rfl⟩

theorem balanced_free (inv : RefInv pool refs free)
    (enough : ∀ b, b ≠ pool.nullBlock → m.tableCount b ≤ refs b)
    (valid : ∀ b ∈ m.reqBlocks requestId, b < pool.numGpuBlocks)
    (h : m.free pool requestId = .ok (pool', m')) : Balanced m m' pool pool' refs [] := by
  have ⟨q, hfree, h⟩ := bind_eq_ok.mp h
  cases h
  have ⟨free', inv', config⟩ := BlockPool.freeOwnBlocks_of_ok inv (fun b hb => by
      have := enough b hb
      have := m.count_le_tableCount requestId b
      rw [count_reverse]
      exact Nat.le_trans ‹_› ‹_›) (fun b hb => valid b (mem_reverse.mp hb)) hfree
  refine ⟨config, rfl, _, free', inv', fun b hb => ?_⟩
  have pop : (m.popBlocksForFree requestId).2.tableCount b + (m.reqBlocks requestId).count b =
      m.tableCount b := m.tableCount_pop requestId b
  have := enough b hb
  show refs b - (m.reqBlocks requestId).reverse.count b + m.tableCount b =
    refs b + (m.popBlocksForFree requestId).2.tableCount b + 0
  rw [count_reverse]
  omega

end Balance

section Caching

/-- A key that the hashes of a request give to the blocks of its table. -/
def TableKey (m : SingleTypeKVCacheManager) (hashBlockSize : Nat) (request : Request) (b : BlockId)
    (key : BlockHashWithGroupId) : Prop :=
  ∃ i n blockHash, (m.reqBlocks request.requestId)[i]? = some b ∧
    request.HashAt hashBlockSize n blockHash ∧ i * m.blockSize < n ∧ n ≤ (i + 1) * m.blockSize ∧
    key = ⟨blockHash, m.kvCacheGroupId⟩

/-- `cache_blocks` registers keys for blocks of the request's table, and does
nothing to tables, references and the free queue. -/
structure Caches (m m' : SingleTypeKVCacheManager) (pool pool' : BlockPool) (request : Request) :
    Prop where
  config : m'.toManagerConfig = m.toManagerConfig
  tables : ∀ r, m'.reqBlocks r = m.reqBlocks r
  counts : ∀ b, m'.tableCount b = m.tableCount b
  copies : m'.pendingCowCopies = m.pendingCowCopies
  refs : BlockPool.SameRefs pool pool'
  index : BlockPool.IndexInv pool'
  keys : BlockPool.AddsOnly pool pool' (m.TableKey pool.hashBlockSize request)

theorem Caches.refl (index : BlockPool.IndexInv pool) (m : SingleTypeKVCacheManager)
    (request : Request) : Caches m m pool pool request :=
  ⟨rfl, fun _ => rfl, fun _ => rfl, rfl, .refl _, index, fun _ _ hkey => .inl hkey⟩

variable {request : Request}

theorem Caches.trans {n : SingleTypeKVCacheManager} {q : BlockPool}
    (h : Caches m n pool q request) (k : Caches n m' q pool' request) :
    Caches m m' pool pool' request := by
  have same : n.TableKey q.hashBlockSize request = m.TableKey pool.hashBlockSize request := by
    unfold TableKey BlockPool.hashBlockSize blockSize
    rw [h.tables, h.config, h.refs.config]
  refine ⟨k.config.trans h.config, fun r => (k.tables r).trans (h.tables r),
    fun b => (k.counts b).trans (h.counts b), k.copies.trans h.copies, h.refs.trans k.refs,
    k.index, ?_⟩
  exact h.keys.trans (same ▸ k.keys)

variable {numTokens : Nat}

theorem caches_of_ok {retentionInterval : Option Nat}
    {replayBoundaries : List Nat} (index : BlockPool.IndexInv pool)
    (valid : ∀ b ∈ m.reqBlocks request.requestId, b < pool.numGpuBlocks)
    (h : m.cacheBlocks pool request numTokens retentionInterval replayBoundaries =
    .ok (pool', m')) : Caches m m' pool pool' request := by
  unfold cacheBlocks at h
  split at h
  · cases h
    exact .refl index m request
  · simp only at h
    split at h
    · cases h
      exact .refl index m request
    · obtain ⟨q, hcache, h⟩ := bind_eq_ok.mp h
      cases h
      refine ⟨rfl, m.reqBlocks_readBlocks request.requestId,
        m.tableCount_readBlocks request.requestId, rfl,
        BlockPool.sameRefs_cacheFullBlocks hcache,
        (BlockPool.cacheFullBlocks_tracks index valid hcache).inv, ?_⟩
      refine (BlockPool.addsOnly_cacheFullBlocks index m.blockSize_pos valid hcache).mono ?_
      rintro b key ⟨j, blockHash, hj, hhash, hkey⟩
      refine ⟨j, _, blockHash, hj, hhash, ?_, Nat.le_refl _, hkey⟩
      exact Nat.mul_lt_mul_of_pos_right (Nat.lt_succ_self j) m.blockSize_pos

theorem caches_partial_tail (index : BlockPool.IndexInv pool)
    (valid : ∀ b ∈ m.reqBlocks request.requestId, b < pool.numGpuBlocks)
    (h : FullAttentionManager.cachePartialTailBlock m pool request numTokens =
    .ok (pool', m')) : Caches m m' pool pool' request := by
  unfold FullAttentionManager.cachePartialTailBlock at h
  simp only at h
  split at h
  · cases h
    exact .refl index m request
  · split at h
    · cases h
      exact .refl index m request
    · rename_i hpartial
      have read : Caches m (m.readBlocks request.requestId) pool pool request :=
        ⟨rfl, m.reqBlocks_readBlocks request.requestId,
          m.tableCount_readBlocks request.requestId, rfl, .refl _, index,
          fun _ _ hkey => .inl hkey⟩
      have hsize : (m.readBlocks request.requestId).blockSize = m.blockSize := rfl
      split at h
      · cases h
        exact read
      · rename_i block hblock
        have ⟨⟨out, q⟩, hcache, h⟩ := bind_eq_ok.mp h
        cases h
        have hlt := valid block (mem_of_getElem? hblock)
        refine ⟨read.config, read.tables, read.counts, read.copies,
          BlockPool.sameRefs_cachePartialBlock hcache,
          (BlockPool.cachePartialBlock_tracks index hlt hcache).inv, ?_⟩
        refine (BlockPool.addsOnly_cachePartialBlock index hlt hcache).mono ?_
        rintro b key ⟨rfl, blockHash, hhash, hkey⟩
        rw [hsize] at hblock
        generalize request.numPromptTokens / pool.hashBlockSize * pool.hashBlockSize = boundary
          at hblock hhash hpartial
        have hpos := m.blockSize_pos
        have hdiv := Nat.div_add_mod boundary m.blockSize
        have hmod := Nat.mod_lt boundary hpos
        rw [Nat.mul_comm] at hdiv
        refine ⟨boundary / m.blockSize, boundary, blockHash, hblock, hhash, ?_, ?_, hkey⟩
        · omega
        · rw [Nat.add_mul]
          omega

theorem caches_fullAttention {retentionInterval : Option Nat} {replayBoundaries : List Nat}
    (index : BlockPool.IndexInv pool)
    (valid : ∀ b ∈ m.reqBlocks request.requestId, b < pool.numGpuBlocks)
    (h : FullAttentionManager.cacheBlocks m pool request numTokens retentionInterval
    replayBoundaries = .ok (pool', m')) : Caches m m' pool pool' request := by
  have ⟨⟨q, n⟩, hbase, h⟩ := bind_eq_ok.mp h
  have base := caches_of_ok index valid hbase
  simp only at h
  split at h
  · cases h
    exact base
  · refine base.trans (caches_partial_tail base.index (fun b hb => ?_) h)
    rw [base.tables] at hb
    rw [base.refs.config]
    exact valid b hb

end Caching

end SingleTypeKVCacheManager

end VllmAmpere
