import VllmAmpere.CommonPrefix
import VllmAmpere.MaskedCaching
import VllmAmpere.SlidingWindowLongest

/-! Lookups after masked caching: the blocks that the mask leaves out serve no hit, but for
windows of one token. -/

open List Function

namespace VllmAmpere

open SlidingWindowManager (contiguousBlocksForHit)

/-- What the groups of one sliding-window spec share; `dcp_world_size` is 1 for them. -/
structure WindowCaching where
  kvCacheSpec : KVCacheSpec
  window : Nat
  extraRetainedTokens : Nat
  kind : kvCacheSpec.kind = .slidingWindow window extraRetainedTokens
  hasher : BlockHasher
  hash_dvd : hasher.hashBlockSize ∣ kvCacheSpec.blockSize
  alignmentTokens : Nat
  alignment_pos : 0 < alignmentTokens
  useEagle : Bool

/-- A block pool with the managers of the groups. -/
structure CacheSide where
  pool : BlockPool
  managers : Nat → SingleTypeKVCacheManager

/-- One history with the mask and without it. -/
structure CacheSides where
  masked : CacheSide
  all : CacheSide

inductive CacheCall
  /-- `cache_blocks` of a group, with the request's block table on each side. -/
  | cacheBlocks (group : Nat) (request : Request) (numTokens : Nat) (replayBoundaries : List Nat)
      (blocks allBlocks : List BlockId)
  /-- All that happens between two such calls. -/
  | between (masked all : CacheSide)

namespace WindowCaching

variable (w : WindowCaching)

def need : Nat := contiguousBlocksForHit w.window w.kvCacheSpec.blockSize w.useEagle

def perSegment : Nat := w.alignmentTokens / w.kvCacheSpec.blockSize

def shift : Nat := if w.useEagle then 1 else 0

/-- `reachable_block_mask` returns `None`: all blocks are cached. -/
def Unmasked : Prop :=
  w.alignmentTokens % w.kvCacheSpec.blockSize ≠ 0 ∨ w.perSegment ≤ w.need

instance : Decidable w.Unmasked := inferInstanceAs (Decidable (_ ∨ _))

/-- The mask selects block `i`. -/
def Selects (i : Nat) : Prop :=
  w.Unmasked ∨ w.shift ≤ i ∧ w.perSegment - w.need ≤ (i - w.shift) % w.perSegment

theorem selected_iff {start stop i : Nat} (hle : start ≤ i) (hlt : i < stop)
    (boundaries : List Nat) :
    BlockPool.masked (SlidingWindowManager.reachableBlockMask w.kvCacheSpec w.window start stop
    w.alignmentTokens w.useEagle none boundaries 1) (i - start) = false ↔ w.Selects i := by
  unfold SlidingWindowManager.reachableBlockMask Selects Unmasked
  simp only [Nat.mul_one]
  by_cases hmod : w.alignmentTokens % w.kvCacheSpec.blockSize ≠ 0
  · simp [hmod, BlockPool.masked]
  · rw [if_neg hmod]
    by_cases hdense : w.perSegment ≤ w.need
    · have hnone : contiguousBlocksForHit w.window w.kvCacheSpec.blockSize w.useEagle ≥
          w.alignmentTokens / w.kvCacheSpec.blockSize := hdense
      rw [if_pos hnone]
      simp [hdense, BlockPool.masked]
    · have hsome : ¬contiguousBlocksForHit w.window w.kvCacheSpec.blockSize w.useEagle ≥
          w.alignmentTokens / w.kvCacheSpec.blockSize := hdense
      rw [if_neg hsome]
      have hrange : (List.range' start (stop - start))[i - start]? = some i := by
        rw [getElem?_range' (by omega)]
        congr 1
        omega
      simp only [BlockPool.masked, getElem?_map, hrange, Option.map_some, Option.getD_some]
      simp only [hmod, hdense, false_or]
      simp [need, perSegment, shift]

/-- The manager of a group of the spec. -/
structure Manages (m : SingleTypeKVCacheManager) (group : Nat) : Prop where
  kvCacheSpec : m.kvCacheSpec = w.kvCacheSpec
  dcpWorldSize : m.dcpWorldSize = 1
  cacheHitAlignmentTokens : m.cacheHitAlignmentTokens = w.alignmentTokens
  useEagle : m.useEagle = w.useEagle
  kvCacheGroupId : m.kvCacheGroupId = group

/-- What never changes on a side. -/
structure Configured (side : CacheSide) : Prop where
  hasher : side.pool.hasher = w.hasher
  managers : ∀ group, w.Manages (side.managers group) group

/-- The tables of the two sides hold blocks in the same places, fresh where they are cached. -/
structure SameTables (s : CacheSides) (group : Nat) (request : Request) (numTokens : Nat)
    (blocks allBlocks : List BlockId) : Prop where
  built : w.hasher.Built request
  places : ∀ i : Nat, (∃ b, blocks[i]? = some b ∧ (s.masked.pool.blocks b).isNull = false) ↔
    ∃ b, allBlocks[i]? = some b ∧ (s.all.pool.blocks b).isNull = false
  fresh : s.masked.pool.Fresh (slice blocks
    ((s.masked.managers group).cachedBlocks request.requestId)
    ((s.masked.managers group).fullBlocks numTokens))
  allFresh : s.all.pool.Fresh (slice allBlocks
    ((s.all.managers group).cachedBlocks request.requestId)
    ((s.all.managers group).fullBlocks numTokens))

/-- Requests come and go, blocks are allocated, nulled and freed; none is evicted. -/
structure Keeps (before after : CacheSide) : Prop where
  configured : w.Configured after
  caches : ∀ k, after.pool.Caches k ↔ before.pool.Caches k

def step (s : CacheSides) : CacheCall → CacheSides → Prop
  | .cacheBlocks group request numTokens replayBoundaries blocks allBlocks, s' =>
    w.SameTables s group request numTokens blocks allBlocks ∧
    ∃ pool m allPool allM,
      ((s.masked.managers group).setBlocks request.requestId blocks).cacheBlocks s.masked.pool
        request numTokens none replayBoundaries = .ok (pool, m) ∧
      ((s.all.managers group).setBlocks request.requestId allBlocks).cacheAllBlocks s.all.pool
        request numTokens = .ok (allPool, allM) ∧
      s' = ⟨⟨pool, Function.update s.masked.managers group m⟩,
        ⟨allPool, Function.update s.all.managers group allM⟩⟩
  | .between masked all, s' => s' = ⟨masked, all⟩ ∧ w.Keeps s.masked masked ∧ w.Keeps s.all all ∧
    ∀ group, (masked.managers group).numCachedBlock = (all.managers group).numCachedBlock

def history : TransitionSystem CacheSides CacheCall where
  init s := w.Configured s.masked ∧ w.Configured s.all ∧ (∀ k, ¬s.masked.pool.Caches k) ∧
    (∀ k, ¬s.all.pool.Caches k) ∧
    ∀ group, (s.masked.managers group).numCachedBlock = (s.all.managers group).numCachedBlock
  step := w.step

/-- The masked side has the keys of the other whose place the mask selects. -/
structure Inv (s : CacheSides) : Prop where
  masked : w.Configured s.masked
  all : w.Configured s.all
  numCached : ∀ group,
    (s.masked.managers group).numCachedBlock = (s.all.managers group).numCachedBlock
  placed : ∀ k, s.all.pool.Caches k →
    ∃ i, PlaceOf w.hasher w.kvCacheSpec.blockSize k.blockHash i
  selected : ∀ k i, PlaceOf w.hasher w.kvCacheSpec.blockSize k.blockHash i →
    (s.masked.pool.Caches k ↔ s.all.pool.Caches k ∧ w.Selects i)

variable {m : SingleTypeKVCacheManager} {group : Nat}

theorem Manages.blockSize (h : w.Manages m group) : m.blockSize = w.kvCacheSpec.blockSize := by
  rw [SingleTypeKVCacheManager.blockSize, h.kvCacheSpec, h.dcpWorldSize, Nat.mul_one]

theorem Manages.selected (h : w.Manages m group)
    {start stop i : Nat} (hle : start ≤ i) (hlt : i < stop) (boundaries : List Nat) :
    BlockPool.masked (m.reachableBlockMask start stop none boundaries) (i - start) = false ↔
    w.Selects i := by
  rw [← w.selected_iff hle hlt boundaries]
  unfold SingleTypeKVCacheManager.reachableBlockMask
  rw [h.kvCacheSpec, h.dcpWorldSize, h.cacheHitAlignmentTokens, h.useEagle, w.kind]

theorem Manages.of_config {m m' : SingleTypeKVCacheManager} (h : w.Manages m group)
    (same : m'.toManagerConfig = m.toManagerConfig) : w.Manages m' group := by
  constructor
  · rw [same, h.kvCacheSpec]
  · rw [same, h.dcpWorldSize]
  · rw [same, h.cacheHitAlignmentTokens]
  · rw [same, h.useEagle]
  · rw [same, h.kvCacheGroupId]

theorem Configured.update {side : CacheSide} (h : w.Configured side) {pool : BlockPool}
    (hpool : pool.toBlockPoolConfig = side.pool.toBlockPoolConfig)
    (hm : m.toManagerConfig = (side.managers group).toManagerConfig) :
    w.Configured ⟨pool, Function.update side.managers group m⟩ := by
  constructor
  · show pool.hasher = _
    rw [← h.hasher, hpool]
  · intro g
    show w.Manages (Function.update side.managers group m g) g
    rw [update_apply]
    split
    · rename_i hg
      subst hg
      exact (h.managers g).of_config w hm
    · exact h.managers g

theorem Inv.cacheBlocks (free : w.hasher.CollisionFree) {s : CacheSides} (inv : w.Inv s)
    {request : Request} {numTokens : Nat} {replayBoundaries : List Nat}
    {blocks allBlocks : List BlockId}
    (tables : w.SameTables s group request numTokens blocks allBlocks)
    {pool allPool : BlockPool} {m allM : SingleTypeKVCacheManager}
    (h : ((s.masked.managers group).setBlocks request.requestId blocks).cacheBlocks s.masked.pool
    request numTokens none replayBoundaries = .ok (pool, m))
    (hall : ((s.all.managers group).setBlocks request.requestId allBlocks).cacheAllBlocks
    s.all.pool request numTokens = .ok (allPool, allM)) :
    w.Inv ⟨⟨pool, Function.update s.masked.managers group m⟩,
    ⟨allPool, Function.update s.all.managers group allM⟩⟩ := by
  have hmanages := inv.masked.managers group
  have hmanagesAll := inv.all.managers group
  have hcached : (s.all.managers group).cachedBlocks request.requestId =
      (s.masked.managers group).cachedBlocks request.requestId := by
    rw [SingleTypeKVCacheManager.cachedBlocks, ← inv.numCached group]
    rfl
  have hfull : (s.all.managers group).fullBlocks numTokens =
      (s.masked.managers group).fullBlocks numTokens := by
    rw [SingleTypeKVCacheManager.fullBlocks, SingleTypeKVCacheManager.fullBlocks,
      hmanages.blockSize, hmanagesAll.blockSize, hmanages.kvCacheSpec, hmanagesAll.kvCacheSpec]
  obtain ⟨reachable, stores⟩ := SingleTypeKVCacheManager.stores_cacheBlocks
    (by rw [SingleTypeKVCacheManager.reqBlocks_setBlocks, if_pos rfl]; exact tables.fresh) h
  have storesAll := SingleTypeKVCacheManager.stores_cacheAllBlocks
    (by rw [SingleTypeKVCacheManager.reqBlocks_setBlocks, if_pos rfl]; exact tables.allFresh) hall
  have hcaches := stores.caches
  have hcachesAll := storesAll.caches
  rw [SingleTypeKVCacheManager.reqBlocks_setBlocks, if_pos rfl] at hcaches hcachesAll
  -- a call registers the same keys on both sides, but for those the mask leaves out
  have hregisters : ∀ k i, s.masked.pool.Registers request blocks
        ((s.masked.managers group).cachedBlocks request.requestId)
        ((s.masked.managers group).fullBlocks numTokens) (s.masked.managers group).blockSize
        (s.masked.managers group).kvCacheGroupId
        ((s.masked.managers group).reachableBlockMask
          ((s.masked.managers group).cachedBlocks request.requestId)
          ((s.masked.managers group).fullBlocks numTokens) none reachable) i k ↔
      s.all.pool.Registers request allBlocks
        ((s.all.managers group).cachedBlocks request.requestId)
        ((s.all.managers group).fullBlocks numTokens) (s.all.managers group).blockSize
        (s.all.managers group).kvCacheGroupId none i k ∧ w.Selects i := by
    intro k i
    rw [hcached, hfull]
    constructor
    · intro hi
      refine ⟨⟨hi.le, hi.lt, (tables.places i).mp hi.block, rfl, ?_, ?_⟩,
        (hmanages.selected w hi.le hi.lt reachable).mp hi.selected⟩
      · rw [hmanagesAll.blockSize, BlockPool.hashBlockSize, inv.all.hasher, ← hmanages.blockSize,
          ← inv.masked.hasher]
        exact hi.hash
      · rw [hi.group_eq, hmanages.kvCacheGroupId, hmanagesAll.kvCacheGroupId]
    · rintro ⟨hi, hselects⟩
      refine ⟨hi.le, hi.lt, (tables.places i).mpr hi.block,
        (hmanages.selected w hi.le hi.lt reachable).mpr hselects, ?_, ?_⟩
      · rw [hmanages.blockSize, BlockPool.hashBlockSize, inv.masked.hasher,
          ← hmanagesAll.blockSize, ← inv.all.hasher]
        exact hi.hash
      · rw [hi.group_eq, hmanages.kvCacheGroupId, hmanagesAll.kvCacheGroupId]
  have hplace : ∀ k i, s.all.pool.Registers request allBlocks
      ((s.all.managers group).cachedBlocks request.requestId)
      ((s.all.managers group).fullBlocks numTokens) (s.all.managers group).blockSize
      (s.all.managers group).kvCacheGroupId none i k →
      PlaceOf w.hasher w.kvCacheSpec.blockSize k.blockHash i := by
    intro k i hi
    have hhash := hi.hash
    rw [hmanagesAll.blockSize, BlockPool.hashBlockSize, inv.all.hasher] at hhash
    refine ⟨request, _, tables.built, hhash, ?_, Nat.le_refl _⟩
    exact Nat.mul_lt_mul_of_pos_right (Nat.lt_succ_self i) w.kvCacheSpec.blockSize_pos
  refine ⟨inv.masked.update w stores.config stores.manager,
    inv.all.update w storesAll.config storesAll.manager, fun g => ?_, fun k hk => ?_,
    fun k i hi => ?_⟩
  · show (Function.update s.masked.managers group m g).numCachedBlock =
      (Function.update s.all.managers group allM g).numCachedBlock
    by_cases hg : g = group
    · subst hg
      rw [update_self, update_self, stores.cached, storesAll.cached]
      show (if (s.masked.managers g).cachedBlocks request.requestId <
          (s.masked.managers g).fullBlocks numTokens then
            (s.masked.managers g).numCachedBlock.set request.requestId
              ((s.masked.managers g).fullBlocks numTokens)
          else (s.masked.managers g).numCachedBlock) =
        if (s.all.managers g).cachedBlocks request.requestId <
            (s.all.managers g).fullBlocks numTokens then
          (s.all.managers g).numCachedBlock.set request.requestId
            ((s.all.managers g).fullBlocks numTokens)
        else (s.all.managers g).numCachedBlock
      rw [hcached, hfull, inv.numCached g]
    · rw [update_of_ne hg, update_of_ne hg]
      exact inv.numCached g
  · rcases (hcachesAll k).mp hk with hold | ⟨i, hi⟩
    · exact inv.placed k hold
    · exact ⟨i, hplace k i hi⟩
  · show pool.Caches k ↔ allPool.Caches k ∧ w.Selects i
    rw [hcaches, hcachesAll, inv.selected k i hi]
    constructor
    · rintro (⟨hold, hselects⟩ | ⟨j, hj⟩)
      · exact ⟨.inl hold, hselects⟩
      · obtain ⟨hall, hselects⟩ := (hregisters k j).mp hj
        obtain rfl := hi.unique free (hplace k j hall)
        exact ⟨.inr ⟨i, hall⟩, hselects⟩
    · rintro ⟨hold | ⟨j, hj⟩, hselects⟩
      · exact .inl ⟨hold, hselects⟩
      · obtain rfl := hi.unique free (hplace k j hj)
        exact .inr ⟨i, (hregisters k i).mpr ⟨hj, hselects⟩⟩

theorem Inv.keep (free : w.hasher.CollisionFree) {s s' : CacheSides} {call : CacheCall}
    (inv : w.Inv s) (h : w.step s call s') : w.Inv s' := by
  cases call with
  | cacheBlocks group request numTokens replayBoundaries blocks allBlocks =>
    obtain ⟨tables, pool, m, allPool, allM, hmasked, hall, rfl⟩ := h
    exact inv.cacheBlocks w free tables hmasked hall
  | between masked all =>
    obtain ⟨rfl, keepsMasked, keepsAll, numCached⟩ := h
    refine ⟨keepsMasked.configured, keepsAll.configured, numCached, fun k hk => ?_,
      fun k i hi => ?_⟩
    · exact inv.placed k ((keepsAll.caches k).mp hk)
    · rw [keepsMasked.caches, keepsAll.caches]
      exact inv.selected k i hi

theorem reachable_inv (free : w.hasher.CollisionFree) {s : CacheSides}
    (h : w.history.Reachable s) : w.Inv s := by
  refine h.invariant ?_ fun s call s' _ inv step => inv.keep w free step
  rintro s ⟨masked, all, noneMasked, noneAll, numCached⟩
  exact ⟨masked, all, numCached, fun k hk => absurd hk (noneAll k), fun k i _ =>
    ⟨fun hk => absurd hk (noneMasked k), fun hk => absurd hk.1 (noneAll k)⟩⟩

section lookups

variable {w} {s : CacheSides} {request : Request} {groups : List Nat} {maxLength : Nat}

def query (w : WindowCaching) (side : CacheSide) (request : Request) (groups : List Nat) :
    CacheHitQuery :=
  ⟨request.blockHashes, groups, side.pool, w.kvCacheSpec, w.alignmentTokens, 1, 1⟩

theorem getCachedBlock_isSome (pool : BlockPool) (blockHash : BlockHash) (groups : List Nat) :
    (pool.getCachedBlock blockHash groups).isSome ↔
    ∀ group ∈ groups, pool.Caches ⟨blockHash, group⟩ := by
  have hone : ∀ group, (pool.cachedBlockHashToBlock.getOneBlock ⟨blockHash, group⟩).isSome ↔
      pool.Caches ⟨blockHash, group⟩ := by
    intro group
    rw [BlockHashToBlockMap.getOneBlock_eq, BlockPool.Caches]
    cases pool.cachedBlockHashToBlock.blocks ⟨blockHash, group⟩ <;> simp
  unfold BlockPool.getCachedBlock
  induction groups with
  | nil => simp
  | cons group groups ih =>
    refine Iff.trans ?_ ((and_congr (hone group) ih).trans (forall_mem_cons
      (p := fun groupId => pool.Caches ⟨blockHash, groupId⟩)).symm)
    rw [mapM_cons]
    cases pool.cachedBlockHashToBlock.getOneBlock ⟨blockHash, group⟩ with
    | none => simp
    | some block =>
      cases groups.mapM fun groupId =>
        pool.cachedBlockHashToBlock.getOneBlock ⟨blockHash, groupId⟩ <;> simp

theorem exists_place (built : w.hasher.Built request) {blockHash : BlockHash}
    (h : blockHash ∈ request.blockHashes) :
    ∃ i, PlaceOf w.hasher w.kvCacheSpec.blockSize blockHash i := by
  have hbs := w.kvCacheSpec.blockSize_pos
  obtain ⟨k, hk⟩ := mem_iff_getElem?.mp h
  obtain ⟨n, hn⟩ : ∃ n, n = (k + 1) * w.hasher.hashBlockSize := ⟨_, rfl⟩
  have hpos : 0 < n := hn ▸ Nat.mul_pos (Nat.succ_pos k) w.hasher.hashBlockSize_pos
  refine ⟨(n - 1) / w.kvCacheSpec.blockSize, request, n, built, ⟨?_, hpos, ?_⟩, ?_, ?_⟩
  · exact hn ▸ Nat.dvd_mul_left _ _
  · rwa [hn, Nat.mul_div_cancel _ w.hasher.hashBlockSize_pos, Nat.add_sub_cancel]
  · have := Nat.div_mul_le_self (n - 1) w.kvCacheSpec.blockSize
    omega
  · have := Nat.lt_div_mul_add hbs (a := n - 1)
    rw [Nat.add_mul, Nat.one_mul]
    omega

theorem query_blockCached (side : CacheSide) (hside : w.Configured side) (j : Nat) :
    (w.query side request groups).BlockCached j ↔ ∃ blockHash,
    request.HashAt w.hasher.hashBlockSize ((j + 1) * w.kvCacheSpec.blockSize) blockHash ∧
    ∀ group ∈ groups, side.pool.Caches ⟨blockHash, group⟩ := by
  have hhash : side.pool.hashBlockSize = w.hasher.hashBlockSize := by
    rw [BlockPool.hashBlockSize, hside.hasher]
  constructor
  · rintro ⟨row, hdvd, hpos, blockHash, hget, hrow⟩
    refine ⟨blockHash, ⟨hhash ▸ hdvd, hpos, hhash ▸ hget⟩, ?_⟩
    rw [← getCachedBlock_isSome]
    exact Option.isSome_of_eq_some hrow
  · rintro ⟨blockHash, hat, hcaches⟩
    rw [← getCachedBlock_isSome] at hcaches
    obtain ⟨row, hrow⟩ := Option.isSome_iff_exists.mp hcaches
    exact ⟨row, hhash.symm ▸ hat.dvd, hat.pos, blockHash, hhash.symm ▸ hat.hash, hrow⟩

theorem Inv.blockCached (inv : w.Inv s) (built : w.hasher.Built request)
    (hgroups : groups ≠ []) (j : Nat) : (w.query s.masked request groups).BlockCached j ↔
    (w.query s.all request groups).BlockCached j ∧ w.Selects j := by
  rw [query_blockCached _ inv.masked, query_blockCached _ inv.all, ← exists_and_right]
  refine exists_congr fun blockHash => ?_
  rw [and_assoc]
  refine and_congr_right fun hat => ?_
  have hplace : PlaceOf w.hasher w.kvCacheSpec.blockSize blockHash j :=
    ⟨request, _, built, hat, Nat.mul_lt_mul_of_pos_right (Nat.lt_succ_self j)
      w.kvCacheSpec.blockSize_pos, Nat.le_refl _⟩
  obtain ⟨first, hfirst⟩ := exists_mem_of_ne_nil groups hgroups
  constructor
  · intro h
    exact ⟨fun group hg => ((inv.selected _ j hplace).mp (h group hg)).1,
      ((inv.selected _ j hplace).mp (h first hfirst)).2⟩
  · rintro ⟨h, hselects⟩ group hg
    exact (inv.selected _ j hplace).mpr ⟨h group hg, hselects⟩

theorem query_compatible (side : CacheSide) (hside : w.Configured side)
    (hdvd : w.kvCacheSpec.blockSize ∣ w.alignmentTokens) (request : Request)
    (groups : List Nat) : (w.query side request groups).Compatible where
  hash_pos := side.pool.hasher.hashBlockSize_pos
  dcp_pos := Nat.one_pos
  world := .inr ⟨rfl, rfl⟩
  hash_dvd := by
    show side.pool.hashBlockSize ∣ w.kvCacheSpec.blockSize * 1
    rw [Nat.mul_one, BlockPool.hashBlockSize, hside.hasher]
    exact w.hash_dvd
  alignment_pos := w.alignment_pos
  alignment := .inl (by
    show w.kvCacheSpec.blockSize * 1 ∣ w.alignmentTokens
    rwa [Nat.mul_one])

theorem Inv.hits_of_unmasked (inv : w.Inv s) (built : w.hasher.Built request)
    (unmasked : w.Unmasked) (dropEagleBlock : Bool) :
    (SlidingWindowManager.findLongestCacheHit (w.query s.masked request groups) maxLength
    dropEagleBlock).map Prod.snd =
    (SlidingWindowManager.findLongestCacheHit (w.query s.all request groups) maxLength
    dropEagleBlock).map Prod.snd := by
  refine SlidingWindowManager.findLongestCacheHit_against (w.query s.masked request groups)
    s.all.pool w.kind ?_ ?_ maxLength dropEagleBlock
  · show s.all.pool.hasher.hashBlockSize = s.masked.pool.hasher.hashBlockSize
    rw [inv.all.hasher, inv.masked.hasher]
  · intro blockHash hmem
    obtain ⟨i, hplace⟩ := exists_place built hmem
    refine Bool.eq_iff_iff.mpr ?_
    show (s.masked.pool.getCachedBlock blockHash groups).isSome ↔
      (s.all.pool.getCachedBlock blockHash groups).isSome
    rw [getCachedBlock_isSome, getCachedBlock_isSome]
    refine forall₂_congr fun group _ => ?_
    rw [inv.selected ⟨blockHash, group⟩ i hplace]
    exact and_iff_left (.inl unmasked)

theorem tail_mod {n j k need : Nat} (hn : k ∣ n) (hneed : need < k) (hlow : n ≤ j + need)
    (hhigh : j < n) : k - need ≤ j % k := by
  obtain ⟨t, rfl⟩ := hn
  cases t with
  | zero => omega
  | succ t =>
    rw [Nat.mul_succ] at hlow hhigh
    have hj : j = k * t + (j - k * t) := by omega
    rw [hj, Nat.mul_add_mod, Nat.mod_eq_of_lt (by omega)]
    omega

theorem dvd_of_not_unmasked (hmask : ¬w.Unmasked) :
    w.kvCacheSpec.blockSize ∣ w.alignmentTokens ∧ w.need < w.perSegment ∧
    w.alignmentTokens = w.perSegment * w.kvCacheSpec.blockSize := by
  rw [Unmasked, not_or, not_not, Nat.not_le] at hmask
  have hdvd := Nat.dvd_of_mod_eq_zero hmask.1
  exact ⟨hdvd, hmask.2, (Nat.div_mul_cancel hdvd).symm⟩

theorem selects_of_run (hmask : ¬w.Unmasked) {dropEagleBlock : Bool}
    (hdrop : dropEagleBlock → w.useEagle) (hwindow : 1 < w.window ∨ dropEagleBlock) {stop j : Nat}
    (hstop : w.alignmentTokens ∣ (if dropEagleBlock then stop else stop + 1) *
    w.kvCacheSpec.blockSize) (hpos : dropEagleBlock → 0 < stop) (hle : j ≤ stop)
    (hrun : stop < j + max (contiguousBlocksForHit w.window w.kvCacheSpec.blockSize
    dropEagleBlock) 1) : w.Selects j := by
  have hbs := w.kvCacheSpec.blockSize_pos
  obtain ⟨-, hneed, hunit⟩ := dvd_of_not_unmasked hmask
  rw [hunit, Nat.mul_dvd_mul_iff_right hbs] at hstop
  have hsegment : w.perSegment ≤ if dropEagleBlock then stop else stop + 1 := by
    refine Nat.le_of_dvd ?_ hstop
    split
    · exact hpos ‹_›
    · exact Nat.succ_pos stop
  right
  unfold need shift contiguousBlocksForHit at *
  cases dropEagleBlock with
  | true =>
    rw [if_pos rfl] at hstop hsegment
    rw [hdrop rfl, if_pos rfl] at hneed
    rw [hdrop rfl, if_pos rfl]
    simp only [if_true] at hrun
    exact ⟨by omega, tail_mod hstop hneed (by omega) (by omega)⟩
  | false =>
    rw [if_neg Bool.false_ne_true] at hstop hsegment
    simp only [Bool.false_eq_true, if_false, Nat.add_zero, or_false] at hrun hwindow
    have hblocks : 0 < cdiv (w.window - 1) w.kvCacheSpec.blockSize := by
      rw [lt_cdiv_iff hbs]
      omega
    split at hneed
    · rename_i huse
      rw [huse, if_pos rfl]
      exact ⟨by omega, tail_mod hstop hneed (by omega) (by omega)⟩
    · rename_i huse
      rw [if_neg huse]
      exact ⟨Nat.zero_le _, tail_mod hstop hneed (by omega) (by omega)⟩

theorem not_selects_last (hmask : ¬w.Unmasked) (hwindow : w.window ≤ 1) {stop : Nat}
    (hstop : w.alignmentTokens ∣ (stop + 1) * w.kvCacheSpec.blockSize) : ¬w.Selects stop := by
  have hbs := w.kvCacheSpec.blockSize_pos
  obtain ⟨-, hneed, hunit⟩ := dvd_of_not_unmasked hmask
  rw [hunit, Nat.mul_dvd_mul_iff_right hbs] at hstop
  have hblocks : cdiv (w.window - 1) w.kvCacheSpec.blockSize = 0 :=
    Nat.le_zero.mp ((cdiv_le_iff hbs).mpr (by omega))
  rintro (hun | ⟨hshift, hmod⟩)
  · exact hmask hun
  · have hlt := Nat.mod_lt (stop - w.shift) (Nat.zero_lt_of_lt hneed)
    unfold need shift contiguousBlocksForHit at *
    rw [hblocks] at hneed hmod
    obtain ⟨t, ht⟩ := hstop
    split at hneed
    · rename_i huse
      rw [huse] at hmod hlt hshift
      simp only [if_true, Nat.zero_add] at hmod hlt hshift hneed
      have hlast : stop - 1 = w.perSegment * (t - 1) + (w.perSegment - 2) := by
        cases t with
        | zero => omega
        | succ t =>
          rw [Nat.mul_succ] at ht
          rw [Nat.add_sub_cancel]
          omega
      rw [hlast, Nat.mul_add_mod, Nat.mod_eq_of_lt (by omega)] at hmod
      omega
    · rename_i huse
      rw [if_neg huse] at hmod hlt
      omega

theorem Inv.tailLengths_eq (inv : w.Inv s) (built : w.hasher.Built request)
    (hgroups : groups ≠ []) (hmask : ¬w.Unmasked) {dropEagleBlock : Bool}
    (hdrop : dropEagleBlock → w.useEagle) (hwindow : 1 < w.window ∨ dropEagleBlock) :
    SlidingWindowManager.tailLengths (w.query s.masked request groups) w.window maxLength
    dropEagleBlock =
    SlidingWindowManager.tailLengths (w.query s.all request groups) w.window maxLength
    dropEagleBlock := by
  ext len
  constructor
  · rintro (hzero | ⟨stop, hstop, hcached, haligned, hlen⟩)
    · exact .inl hzero
    · exact .inr ⟨stop, hstop, fun j hle hrun =>
        ((inv.blockCached built hgroups j).mp (hcached j hle hrun)).1, haligned, hlen⟩
  · rintro (hzero | ⟨stop, hstop, hcached, haligned, hlen⟩)
    · exact .inl hzero
    · by_cases hfirst : dropEagleBlock ∧ stop = 0
      · obtain ⟨rfl, rfl⟩ := hfirst
        exact .inl (hlen.symm.trans (Nat.zero_mul _))
      · refine .inr ⟨stop, hstop, fun j hle hrun => ?_, haligned, hlen⟩
        refine (inv.blockCached built hgroups j).mpr ⟨hcached j hle hrun, ?_⟩
        refine selects_of_run hmask hdrop hwindow haligned (fun hd => ?_) hle hrun
        exact Nat.pos_of_ne_zero fun hzero => hfirst ⟨hd, hzero⟩

/-- The mask keeps every hit but those of windows of one token looked up without an EAGLE
drop, and loses all of these. -/
theorem reachable_hits_iff (free : w.hasher.CollisionFree) (reach : w.history.Reachable s)
    (built : w.hasher.Built request) (hgroups : groups ≠ [])
    (hlen : maxLength / w.hasher.hashBlockSize ≤ request.blockHashes.length)
    {dropEagleBlock : Bool} (hdrop : dropEagleBlock → w.useEagle) :
    (SlidingWindowManager.findLongestCacheHit (w.query s.masked request groups) maxLength
    dropEagleBlock).map Prod.snd =
    (SlidingWindowManager.findLongestCacheHit (w.query s.all request groups) maxLength
    dropEagleBlock).map Prod.snd ↔ 1 < w.window ∨ dropEagleBlock ∨ w.Unmasked ∨
    ∀ stop, w.alignmentTokens ∣ (stop + 1) * w.kvCacheSpec.blockSize →
    (stop + 1) * w.kvCacheSpec.blockSize ≤ maxLength →
    ¬(w.query s.all request groups).BlockCached stop := by
  have inv := w.reachable_inv free reach
  by_cases hmask : w.Unmasked
  · exact iff_of_true (inv.hits_of_unmasked built hmask dropEagleBlock) (.inr (.inr (.inl hmask)))
  have hbs := w.kvCacheSpec.blockSize_pos
  obtain ⟨hdvd, hneed, hunit⟩ := dvd_of_not_unmasked hmask
  have hlonger : max (contiguousBlocksForHit w.window w.kvCacheSpec.blockSize dropEagleBlock) 1 ≤
      w.alignmentTokens / w.kvCacheSpec.blockSize := by
    show _ ≤ w.perSegment
    have : contiguousBlocksForHit w.window w.kvCacheSpec.blockSize dropEagleBlock ≤ w.need := by
      unfold need contiguousBlocksForHit
      cases dropEagleBlock with
      | false => simp
      | true => rw [hdrop rfl]
    omega
  have hlookup : ∀ side, w.Configured side → ∃ rows len,
      SlidingWindowManager.findLongestCacheHit (w.query side request groups) maxLength
        dropEagleBlock = .ok (rows, len) ∧
      IsGreatest (SlidingWindowManager.tailLengths (w.query side request groups) w.window
        maxLength dropEagleBlock) len := by
    intro side hside
    have hq := w.query_compatible side hside hdvd request groups
    have hlen' : maxLength / (w.query side request groups).blockPool.hashBlockSize ≤
        (w.query side request groups).blockHashes.length := by
      show maxLength / side.pool.hasher.hashBlockSize ≤ _
      rw [hside.hasher]
      exact hlen
    obtain ⟨view, matchFound, i, num, total, rows, hlookup, hfind⟩ :=
      SlidingWindowManager.findLongestCacheHit_lookup hq w.kind hlen' dropEagleBlock
    exact ⟨_, _, hfind, hlookup.greatest_tail hq w.kind hlonger⟩
  obtain ⟨rows, len, hfind, hgreatest⟩ := hlookup s.masked inv.masked
  obtain ⟨allRows, allLen, hfindAll, hgreatestAll⟩ := hlookup s.all inv.all
  rw [hfind, hfindAll, Except.map, Except.map, Except.ok.injEq]
  show len = allLen ↔ _
  by_cases hwindow : 1 < w.window ∨ dropEagleBlock
  · refine iff_of_true ?_ (hwindow.imp_right .inl)
    rw [inv.tailLengths_eq built hgroups hmask hdrop hwindow] at hgreatest
    exact hgreatest.unique hgreatestAll
  obtain ⟨hsmall, hplain⟩ := not_or.mp hwindow
  obtain rfl : dropEagleBlock = false := by simpa using hplain
  have hblocks : cdiv (w.window - 1) w.kvCacheSpec.blockSize = 0 :=
    Nat.le_zero.mp ((cdiv_le_iff hbs).mpr (by omega))
  have hlast : ∀ side stop, SlidingWindowManager.CachedTail (w.query side request groups) w.window
      false stop ↔ (w.query side request groups).BlockCached stop := by
    intro side stop
    have hone : max (contiguousBlocksForHit w.window w.kvCacheSpec.blockSize false) 1 = 1 := by
      rw [contiguousBlocksForHit, hblocks]
      rfl
    constructor
    · intro h
      exact h stop (Nat.le_refl _) (by show stop < stop + max _ 1; omega)
    · intro h j hle hrun
      have hrun' : stop < j + 1 := hone ▸ hrun
      obtain rfl : j = stop := by omega
      exact h
  -- the masked side has no run, so nothing is found there
  have hzero : len = 0 := by
    rcases hgreatest.1 with hzero | ⟨stop, -, hcached, haligned, -⟩
    · exact hzero
    · have hselects := ((inv.blockCached built hgroups stop).mp
        ((hlast s.masked stop).mp hcached)).2
      exact absurd hselects (not_selects_last hmask (Nat.le_of_not_lt hsmall) haligned)
  rw [hzero, or_iff_right hsmall, or_iff_right Bool.false_ne_true, or_iff_right hmask]
  constructor
  · intro hnone stop haligned hle hcached
    have hmem : (stop + 1) * w.kvCacheSpec.blockSize ∈ SlidingWindowManager.tailLengths
        (w.query s.all request groups) w.window maxLength false :=
      .inr ⟨stop, (Nat.le_div_iff_mul_le hbs).mpr hle, (hlast s.all stop).mpr hcached,
        haligned, rfl⟩
    have hfound : (stop + 1) * w.kvCacheSpec.blockSize ≤ 0 := hnone ▸ hgreatestAll.2 hmem
    exact absurd hfound (Nat.not_le_of_lt (Nat.mul_pos (Nat.succ_pos stop) hbs))
  · intro hnone
    rcases hgreatestAll.1 with hall | ⟨stop, hstop, hcached, haligned, -⟩
    · exact hall.symm
    · exact absurd ((hlast s.all stop).mp hcached)
        (hnone stop haligned ((Nat.le_div_iff_mul_le hbs).mp hstop))

end lookups

def tokenHasher : BlockHasher :=
  { ManagerState.taggedHasher with hashBlockSize := 1, hashBlockSize_pos := Nat.one_pos }

theorem tokenHasher_collisionFree : tokenHasher.CollisionFree :=
  ⟨ManagerState.taggedHasher_collisionFree.inj, ManagerState.taggedHasher_collisionFree.fresh,
    ManagerState.taggedHasher_collisionFree.nonempty⟩

variable (window : Nat)

def tokenBlocks : WindowCaching where
  kvCacheSpec := (HybridKVCacheCoordinator.windowGroup window 1 Nat.one_pos).kvCacheSpec
  window := window
  extraRetainedTokens := 0
  kind := rfl
  hasher := tokenHasher
  hash_dvd := Nat.dvd_refl 1
  alignmentTokens := 1
  alignment_pos := Nat.one_pos
  useEagle := false

def emptyGroup (group window : Nat) : SingleTypeKVCacheManager := .new
  { kvCacheSpec := (tokenBlocks window).kvCacheSpec
    dcpWorldSize := 1
    dcp_pos := Nat.one_pos
    cacheHitAlignmentTokens := 1
    enableCaching := true
    recordNewBlockIds := false
    maxAdmissionBlocksPerRequest := none
    kvCacheGroupId := group
    useEagle := false }

def emptySide : CacheSide where
  pool := (BlockPool.new 4 true tokenHasher false false "GPU" .inserted).toOption.get rfl
  managers group := emptyGroup group window

def prompt : Request := tokenHasher.newRequest
  { BlockHasher.clip "" with requestId := "prompt", allTokenIds := [0], mmFeatures := [],
                             mmSorted := noFeatures_sorted }

def maskedCall : Except PyError (BlockPool × SingleTypeKVCacheManager) :=
  (((emptySide window).managers 0).setBlocks "prompt" [1]).cacheBlocks (emptySide window).pool
    prompt 1 none []

def allCall : Except PyError (BlockPool × SingleTypeKVCacheManager) :=
  (((emptySide window).managers 0).setBlocks "prompt" [1]).cacheAllBlocks (emptySide window).pool
    prompt 1

def callResult (call : Except PyError (BlockPool × SingleTypeKVCacheManager)) :
    CacheSide :=
  match call with
  | .ok (pool, m) => ⟨pool, Function.update (emptySide window).managers 0 m⟩
  | .error _ => emptySide window

def promptCached : CacheSides :=
  ⟨callResult window (maskedCall window), callResult window (allCall window)⟩

theorem promptCached_reachable {window : Nat} (hmasked : (maskedCall window).toOption.isSome)
    (hall : (allCall window).toOption.isSome) :
    (tokenBlocks window).history.Reachable (promptCached window) := by
  have hconfigured : (tokenBlocks window).Configured (emptySide window) :=
    ⟨rfl, fun _ => ⟨rfl, rfl, rfl, rfl, rfl⟩⟩
  have hinit : (tokenBlocks window).history.init ⟨emptySide window, emptySide window⟩ :=
    ⟨hconfigured, hconfigured, fun _ h => h rfl, fun _ h => h rfl, fun _ => rfl⟩
  have hfresh : ∀ start stop, (emptySide window).pool.Fresh (slice [1] start stop) := by
    intro start stop
    have hsub : (slice [1] start stop).Sublist [1] :=
      (drop_sublist _ _).trans (take_sublist _ _)
    refine ⟨fun b hb _ => ?_, (nodup_singleton 1).sublist (filter_sublist.trans hsub)⟩
    obtain rfl := mem_singleton.mp (hsub.mem hb)
    exact (by decide +kernel : ((emptySide 0).pool.blocks 1).blockHash = none)
  refine .step (a := .cacheBlocks 0 prompt 1 [] [1] [1]) (.init hinit)
    ⟨⟨.new _, fun _ => .rfl, hfresh _ _, hfresh _ _⟩, ?_⟩
  obtain ⟨masked, hmasked⟩ : ∃ masked, maskedCall window = .ok masked := ⟨_, toOption_get hmasked⟩
  obtain ⟨all, hall⟩ : ∃ all, allCall window = .ok all := ⟨_, toOption_get hall⟩
  refine ⟨masked.1, masked.2, all.1, all.2, hmasked, hall, ?_⟩
  rw [promptCached, hmasked, hall]
  rfl

/-- Under a window of two tokens both lookups find the same. -/
theorem promptCached_hits : (SlidingWindowManager.findLongestCacheHit
    ((tokenBlocks 2).query (promptCached 2).masked prompt [0]) 1 false).map Prod.snd =
    (SlidingWindowManager.findLongestCacheHit
    ((tokenBlocks 2).query (promptCached 2).all prompt [0]) 1 false).map Prod.snd :=
  (reachable_hits_iff (w := tokenBlocks 2) tokenHasher_collisionFree
    (promptCached_reachable (by decide +kernel) (by decide +kernel)) (.new _)
    (cons_ne_nil 0 []) (by decide +kernel) (by simp)).mpr (.inl (by decide))

/-- Under a window of one token the mask leaves the only block out, which a lookup finds where
all blocks are cached. -/
theorem promptCached_loses : (tokenBlocks 1).hasher.CollisionFree ∧
    (tokenBlocks 1).history.Reachable (promptCached 1) ∧ (tokenBlocks 1).hasher.Built prompt ∧
    (SlidingWindowManager.findLongestCacheHit
    ((tokenBlocks 1).query (promptCached 1).masked prompt [0]) 1 false).map Prod.snd = .ok 0 ∧
    (SlidingWindowManager.findLongestCacheHit
    ((tokenBlocks 1).query (promptCached 1).all prompt [0]) 1 false).map Prod.snd = .ok 1 :=
  ⟨tokenHasher_collisionFree, promptCached_reachable (by decide +kernel) (by decide +kernel),
    .new _, by decide +kernel, by decide +kernel⟩

end WindowCaching

end VllmAmpere
