import VllmAmpere.HybridSearch

/-! What the hybrid coordinator's cache hit is worth: its length and, for every
group, the blocks that serve it. -/

open List

namespace VllmAmpere

theorem getCachedBlock_getElem? {pool : BlockPool} {blockHash : BlockHash} {groupIds : List Nat}
    {row : BlockRow} (h : pool.getCachedBlock blockHash groupIds = some row) {k id : Nat}
    (hid : groupIds[k]? = some id) :
    ∃ b, row[k]? = some b ∧ pool.cachedBlockHashToBlock.getOneBlock ⟨blockHash, id⟩ = some b := by
  unfold BlockPool.getCachedBlock at h
  induction groupIds generalizing row k with
  | nil => simp at hid
  | cons first rest ih =>
    simp only [mapM_cons, Option.bind_eq_bind, Option.bind_eq_some_iff, Option.pure_def,
      Option.some.injEq] at h
    have ⟨b, hb, row', hrow', heq⟩ := h
    subst heq
    cases k with
    | zero =>
      simp only [getElem?_cons_zero, Option.some.injEq] at hid
      exact ⟨b, rfl, hid ▸ hb⟩
    | succ k => exact ih hrow' (by simpa using hid)

namespace HybridKVCacheCoordinator

variable {c : HybridKVCacheCoordinator} {blockHashes : List BlockHash} {maxCacheHitLength : Nat}

/-- Group `groupId` has `block` cached for the first `n` tokens. -/
def CachedFor (c : HybridKVCacheCoordinator) (blockHashes : List BlockHash) (groupId n : Nat)
    (block : BlockId) : Prop :=
  c.hashBlockSize ∣ n ∧ 0 < n ∧
    ∃ blockHash, blockHashes[n / c.hashBlockSize - 1]? = some blockHash ∧
      c.blockPool.cachedBlockHashToBlock.getOneBlock ⟨blockHash, groupId⟩ = some block

/-- The blocks listed for a group serve a hit of length `len`. -/
def ServesGroup (c : HybridKVCacheCoordinator) (blockHashes : List BlockHash) (groupId len : Nat)
    (spec : KVCacheSpec) (blocks : List BlockId) : Prop :=
  Serves spec.kind (c.managerBlockSize spec) (c.CachedFor blockHashes groupId)
    (· = c.blockPool.nullBlock) len blocks

variable {group : SpecGroup}

theorem cachedFor_of_row {k id n : Nat} {row : BlockRow}
    (hid : group.groupIds[k]? = some id) (h : (c.query blockHashes group).CachedAt n row) :
    c.CachedFor blockHashes id n (row.getD k c.blockPool.nullBlock) := by
  have ⟨hdvd, hpos, blockHash, hhash, hrow⟩ := h
  have hsize : (c.query blockHashes group).blockPool.hashBlockSize = c.hashBlockSize :=
    c.hashBlockSize_eq
  rw [hsize] at hdvd hhash
  have ⟨b, hb, hone⟩ := getCachedBlock_getElem? hrow hid
  refine ⟨hdvd, hpos, blockHash, hhash, ?_⟩
  rw [getD_eq_getElem?_getD, hb]
  exact hone

theorem null_of_row {k id : Nat} (hid : group.groupIds[k]? = some id)
    {row : BlockRow} (h : row = (c.query blockHashes group).nullRow) :
    row.getD k c.blockPool.nullBlock = c.blockPool.nullBlock := by
  have hk : k < group.groupIds.length := (List.getElem?_eq_some_iff.mp hid).1
  subst h
  simp [CacheHitQuery.nullRow, query, hk]

theorem servesGroup_of_rows {k id len : Nat} {rows : List BlockRow}
    (hid : group.groupIds[k]? = some id) (h : (c.query blockHashes group).ServesRows group.spec.kind
    (c.managerBlockSize group.spec) len rows) : c.ServesGroup blockHashes id len group.spec
    (rows.map fun row => row.getD k c.blockPool.nullBlock) :=
  h.map _ (fun _ _ hrow => cachedFor_of_row hid hrow) fun _ hrow => null_of_row hid hrow

def WholeChunks (c : HybridKVCacheCoordinator) : Prop :=
  c.isSimpleHybrid → ∀ g ∈ c.kvCacheGroups, ∀ chunk,
    g.kvCacheSpec.kind = .chunkedLocalAttention chunk → g.kvCacheSpec.blockSize ∣ chunk

/-- At the end of the search every spec group has been served to the final length,
full attention perhaps beyond it. -/
theorem search_served {p : SearchPoint} (hinv : SearchInv c blockHashes maxCacheHitLength p)
    (hwhole : c.WholeChunks) (hend : c.attentionGroups.length ≤ p.next)
    (hstop : p.st.currHitLength = p.hitLength ∨ c.isSimpleHybrid)
    (hmem : group ∈ c.attentionGroups) : ∃ len rows, p.st.currHitLength ≤ len ∧
    (group.spec.kind.isFullAttention = false → len = p.st.currHitLength) ∧
    (c.query blockHashes group).ServesRows group.spec.kind
    (c.managerBlockSize group.spec) len rows ∧
    ∀ k id, group.groupIds[k]? = some id → p.st.hitBlocksByGroup id =
    some (rows.map fun row => row.getD k c.blockPool.nullBlock) := by
  obtain ⟨i, hi, heq⟩ := mem_iff_getElem.mp hmem
  have hgroup : c.attentionGroups[i]? = some group := heq ▸ getElem?_eq_getElem hi
  have hpassed := hinv.passed i (Nat.lt_of_lt_of_le hi hend) group hgroup
  obtain ⟨maxLength, dropEagleBlock, ⟨rows, hfound, hblocks⟩, hbound⟩ := hpassed.kept
  have hexact : group.spec.kind.isFullAttention = false →
      p.st.hitLengthByGroup group.firstGroupId = p.st.currHitLength := by
    intro hnotfull
    rcases hstop with hstable | hsimple
    · have := hpassed.bounded hnotfull
      have := hpassed.reaches
      omega
    · unfold CoordinatorConfig.isSimpleHybrid at hsimple
      split at hsimple
      · rename_i first other hgroups
        have hnext := hinv.next_le
        rw [hgroups, length_cons, length_singleton] at hend hnext
        rw [hgroups] at hgroup
        have hi2 : i < 2 := by rwa [hgroups] at hi
        cases i with
        | zero =>
          simp only [getElem?_cons_zero, Option.some.injEq] at hgroup
          rw [← hgroup, hsimple] at hnotfull
          exact absurd hnotfull (by simp)
        | succ i =>
          apply hinv.last group (by omega) _ hnotfull
          rw [hgroups, show p.next - 1 = i + 1 by omega]
          exact hgroup
      · simp at hsimple
  have hkept : (c.query blockHashes group).ChunkKept maxLength
      (p.st.hitLengthByGroup group.firstGroupId) := by
    intro chunk hkind
    replace hkind : group.spec.kind = .chunkedLocalAttention chunk := hkind
    rcases hstop with hstable | hsimple
    · right
      have hle := hfound.le
      have hmax := hbound (by simp [hkind, SpecKind.isChunkedLocalAttention])
      have := hexact (by simp [hkind, SpecKind.isFullAttention])
      omega
    · left
      obtain ⟨g, hg, hspec, _⟩ := CoordinatorConfig.specGroup_member hmem
      have := hwhole hsimple g hg chunk (hspec ▸ hkind)
      rw [hspec] at this
      exact this
  exact ⟨_, rows, hpassed.reaches, hexact, hfound.serves hkept, hblocks⟩

theorem truncate_other {hitLength id : Nat} {groups : List SpecGroup} {st : SearchState}
    (h : ∀ group ∈ groups, group.spec.kind.isFullAttention → id ∉ group.groupIds) :
    (groups.foldl (c.truncateFullAttention hitLength) st).hitBlocksByGroup id =
    st.hitBlocksByGroup id := by
  induction groups generalizing st with
  | nil => rfl
  | cons group rest ih =>
    rw [foldl_cons, ih fun g hg => h g (mem_cons_of_mem _ hg)]
    unfold truncateFullAttention
    split
    · rename_i hfull
      simp [h group mem_cons_self hfull]
    · rfl

theorem truncate_fullAttention {hitLength id : Nat} {st : SearchState}
    (hmem : group ∈ c.attentionGroups) (hfull : group.spec.kind.isFullAttention)
    (hid : id ∈ group.groupIds) :
    (c.attentionGroups.foldl (c.truncateFullAttention hitLength) st).hitBlocksByGroup id =
    (st.hitBlocksByGroup id).map (·.take (cdiv hitLength (c.managerBlockSize group.spec))) := by
  have hnodup := c.attentionGroups_splits.nodup
  have ⟨before, after, hsplit⟩ := append_of_mem hmem
  rw [hsplit, flatMap_append, flatMap_cons, nodup_append,
    nodup_append] at hnodup
  have ⟨_, ⟨_, _, hafter⟩, hbefore⟩ := hnodup
  rw [hsplit, foldl_append, foldl_cons, truncate_other, truncateFullAttention,
    if_pos hfull]
  · simp only [hid, if_true]
    rw [truncate_other]
    intro g hg _ hin
    exact hbefore id (mem_flatMap.mpr ⟨g, hg, hin⟩) id
      (mem_append_left _ hid) rfl
  · intro g hg _ hin
    exact hafter id hid id (mem_flatMap.mpr ⟨g, hg, hin⟩) rfl

/-- The search succeeds with an aligned length that every cacheable group serves. -/
theorem findLongestCacheHit_serves (c : HybridKVCacheCoordinator) (hchunk : c.ChunkedSupported)
    (hwhole : c.WholeChunks) (blockHashes : List BlockHash) (maxCacheHitLength : Nat)
    (hlen : maxCacheHitLength / c.hashBlockSize ≤ blockHashes.length) : ∃ blocks hitLength uncached,
    c.findLongestCacheHit blockHashes maxCacheHitLength = .ok (blocks, hitLength, uncached) ∧
    hitLength ≤ maxCacheHitLength ∧ c.cacheHitAlignmentTokens ∣ hitLength ∧
    ∀ i g, c.kvCacheGroups[i]? = some g → g.kvCacheSpec.prefixCacheable →
    ∃ list, blocks[i]? = some list ∧ c.ServesGroup blockHashes i hitLength g.kvCacheSpec list := by
  obtain ⟨p, hreach, hend, hrounds, hstop⟩ := searchRounds_ends hchunk hlen maxCacheHitLength rfl
    (.init rfl)
  have hinv := searchSystem_inv hchunk hlen hreach
  have haligned : c.cacheHitAlignmentTokens ∣ p.st.currHitLength := by
    refine hinv.aligned.resolve_right fun hnone => ?_
    have := length_pos_of_ne_nil c.valid.groups_ne_nil
    omega
  refine ⟨_, _, _, bind_eq_ok.mpr ⟨_, hrounds, rfl⟩, Nat.le_trans hinv.curr_le hinv.le_max,
    haligned, ?_⟩
  intro i g hg hcache
  have hi : i < c.kvCacheGroups.length := (List.getElem?_eq_some_iff.mp hg).1
  obtain ⟨group, hmem, hin, hspec⟩ := CoordinatorConfig.exists_specGroup hg hcache
  obtain ⟨k, hk⟩ := mem_iff_getElem?.mp hin
  obtain ⟨len, rows, hreaches, hexact, hserves, hblocks⟩ := search_served hinv hwhole hend hstop hmem
  have hlist := servesGroup_of_rows hk hserves
  rw [getElem?_map, getElem?_range hi, Option.map_some]
  refine ⟨_, rfl, ?_⟩
  rw [← hspec]
  cases hfull : group.spec.kind.isFullAttention with
  | true =>
    have hkind : group.spec.kind = .fullAttention := by
      cases hk : group.spec.kind <;> simp_all [SpecKind.isFullAttention]
    rw [truncate_fullAttention hmem hfull hin, hblocks k i hk]
    unfold ServesGroup at hlist ⊢
    rw [hkind] at hlist ⊢
    exact Serves.take hlist hreaches
  | false =>
    rw [truncate_other, hblocks k i hk]
    · exact hexact hfull ▸ hlist
    · intro other hother hotherFull hin'
      obtain ⟨a, ha, haeq⟩ := mem_iff_getElem.mp hother
      obtain ⟨b, hb, hbeq⟩ := mem_iff_getElem.mp hmem
      have hne : a ≠ b := by
        intro hab
        subst hab
        rw [haeq] at hbeq
        rw [hbeq, hfull] at hotherFull
        simp at hotherFull
      exact CoordinatorConfig.groupIds_disjoint (haeq ▸ getElem?_eq_getElem ha)
        (hbeq ▸ getElem?_eq_getElem hb) hne i hin' hin

/-- A pool of eight blocks with the given keys in its prefix cache. -/
def cachedPool (hashBlockSize : Nat) (hashBlockSize_pos : 0 < hashBlockSize)
    (cached : List (BlockHashWithGroupId × BlockId)) : BlockPool :=
  let pool := (BlockPool.new 8 true
    ⟨hashBlockSize, hashBlockSize_pos, fun _ => [0], [1], id⟩ true false "GPU"
    .inserted).toOption.get rfl
  cached.foldl
    (fun pool entry => (pool.insertBlockHash entry.1 entry.2 none).toOption.getD pool) pool

theorem insertBlockHash_hasher {pool pool' : BlockPool} {key : BlockHashWithGroupId}
    {b : BlockId} {numTokens : Option Nat}
    (h : pool.insertBlockHash key b numTokens = .ok pool') : pool'.hasher = pool.hasher := by
  unfold BlockPool.insertBlockHash at h
  split at h
  · cases h
    rfl
  · split at h
    · cases h
      rfl
    · have ⟨recorded, hrecord, h⟩ := bind_eq_ok.mp h
      cases h
      unfold BlockPool.recordHash at hrecord
      split at hrecord
      · have ⟨_, _, hrecord⟩ := bind_eq_ok.mp hrecord
        cases hrecord
        rfl
      · cases hrecord
        rfl

theorem cachedPool_hashBlockSize (hashBlockSize : Nat) (hashBlockSize_pos : 0 < hashBlockSize)
    (cached : List (BlockHashWithGroupId × BlockId)) :
    (cachedPool hashBlockSize hashBlockSize_pos cached).hashBlockSize = hashBlockSize := by
  have hfold : ∀ (entries : List (BlockHashWithGroupId × BlockId)) (pool : BlockPool),
      (entries.foldl (fun pool entry =>
        (pool.insertBlockHash entry.1 entry.2 none).toOption.getD pool) pool).hasher =
        pool.hasher := by
    intro entries
    induction entries with
    | nil => exact fun _ => rfl
    | cons entry rest ih =>
      intro pool
      rw [foldl_cons, ih]
      cases h : pool.insertBlockHash entry.1 entry.2 none with
      | error e => rfl
      | ok pool' => exact insertBlockHash_hasher h
  unfold BlockPool.hashBlockSize cachedPool
  simp only [hfold]
  rfl

def plainGroup (kind : SpecKind) (blockSize : Nat) (blockSize_pos : 0 < blockSize)
    (chunk_pos : ∀ chunk, kind = .chunkedLocalAttention chunk → 0 < chunk) : KVCacheGroupSpec :=
  ⟨⟨kind, blockSize, false, true, 0, blockSize_pos, chunk_pos⟩, false⟩

def fullGroup (blockSize : Nat) (h : 0 < blockSize) : KVCacheGroupSpec :=
  plainGroup .fullAttention blockSize h (by simp)

def windowGroup (window blockSize : Nat) (h : 0 < blockSize) : KVCacheGroupSpec :=
  plainGroup (.slidingWindow window 0) blockSize h (by simp)

def chunkGroup (chunk blockSize : Nat) (h : 0 < blockSize) (hc : 0 < chunk) : KVCacheGroupSpec :=
  plainGroup (.chunkedLocalAttention chunk) blockSize h (by simpa using hc)

theorem fourTokens_pos : 0 < 4 := by decide

/-- Blocks of four tokens: two cached for full attention, the second for the window. -/
def sampleHybrid : HybridKVCacheCoordinator where
  kvCacheGroups := [fullGroup 4 fourTokens_pos, windowGroup 5 4 fourTokens_pos]
  useEagle := false
  dcpWorldSize := 1
  pcpWorldSize := 1
  schedulerBlockSize := 4
  hashBlockSize := 4
  allowPartialHashHits := true
  blockPool := cachedPool 4 fourTokens_pos [(⟨[0], 0⟩, 1), (⟨[1], 0⟩, 2), (⟨[1], 1⟩, 3)]
  valid := by decide
  hashBlockSize_eq := cachedPool_hashBlockSize _ _ _

theorem sampleHybrid_serves : ∃ blocks hitLength uncached,
    sampleHybrid.findLongestCacheHit [[0], [1], [2]] 13 = .ok (blocks, hitLength, uncached) ∧
    hitLength ≤ 13 ∧ sampleHybrid.cacheHitAlignmentTokens ∣ hitLength ∧
    ∀ i g, sampleHybrid.kvCacheGroups[i]? = some g → g.kvCacheSpec.prefixCacheable →
    ∃ list, blocks[i]? = some list ∧
    sampleHybrid.ServesGroup [[0], [1], [2]] i hitLength g.kvCacheSpec list :=
  findLongestCacheHit_serves sampleHybrid
    ⟨by decide, by decide⟩
    (by
      intro _ g hg chunk hkind
      simp only [sampleHybrid, mem_cons, not_mem_nil, or_false] at hg
      rcases hg with rfl | rfl <;> simp [fullGroup, windowGroup, plainGroup] at hkind)
    [[0], [1], [2]] 13 (by decide)

example : sampleHybrid.findLongestCacheHit [[0], [1], [2]] 13 =
    .ok ([[1, 2], [0, 3]], 8, 0) := by
  unfold findLongestCacheHit
  rw [searchRounds]
  rfl

/-- Full attention next to chunked-local attention over blocks of half its size. -/
def chunkedBelowAlignment : HybridKVCacheCoordinator where
  kvCacheGroups := [fullGroup 8 (by decide), chunkGroup 8 4 (by decide) (by decide)]
  useEagle := false
  dcpWorldSize := 1
  pcpWorldSize := 1
  schedulerBlockSize := 8
  hashBlockSize := 4
  allowPartialHashHits := true
  blockPool := cachedPool 4 (by decide) []
  valid := by decide
  hashBlockSize_eq := cachedPool_hashBlockSize _ _ _

/-- A full-attention and a chunked-local group over blocks of four tokens; only
full attention has anything cached. -/
def chunkedHybrid (chunk : Nat) (hc : 0 < chunk) (useEagle : Bool)
    (valid : CoordinatorConfig.Valid ⟨[fullGroup 4 (by decide),
      chunkGroup chunk 4 (by decide) hc], useEagle, 1, 1, 4, 4, true⟩) :
    HybridKVCacheCoordinator where
  kvCacheGroups := [fullGroup 4 (by decide), chunkGroup chunk 4 (by decide) hc]
  useEagle := useEagle
  dcpWorldSize := 1
  pcpWorldSize := 1
  schedulerBlockSize := 4
  hashBlockSize := 4
  allowPartialHashHits := true
  blockPool := cachedPool 4 (by decide) [(⟨[0], 0⟩, 1), (⟨[1], 0⟩, 2)]
  valid := valid
  hashBlockSize_eq := cachedPool_hashBlockSize _ _ _

/-- Two window groups without full attention, or full attention and an empty window. -/
def windowHybrid (first second : KVCacheGroupSpec)
    (valid : CoordinatorConfig.Valid ⟨[first, second], false, 1, 1, 4, 4, true⟩) :
    HybridKVCacheCoordinator where
  kvCacheGroups := [first, second]
  useEagle := false
  dcpWorldSize := 1
  pcpWorldSize := 1
  schedulerBlockSize := 4
  hashBlockSize := 4
  allowPartialHashHits := true
  blockPool := cachedPool 4 (by decide) [(⟨[0], 0⟩, 1), (⟨[1], 0⟩, 2), (⟨[1], 1⟩, 3)]
  valid := valid
  hashBlockSize_eq := cachedPool_hashBlockSize _ _ _

/-- Lookups that raise, and two that return lists other than the window's blocks:
a chunk of one and a half blocks whose first block is not cached, and a window of
one token with a block listed for it. -/
theorem lookups_out_of_contract :
    chunkedBelowAlignment.findLongestCacheHit [[0], [1]] 8 = .error (.assertion
    "KV cache groups with different block sizes are not compatible with chunked local attention now") ∧
    (chunkedHybrid 8 (by decide) true (by decide)).findLongestCacheHit [[0], [1]] 8 =
    .error (.assertion "Hybrid KV cache is not supported for eagle + chunked local attention.") ∧
    (windowHybrid (windowGroup 5 4 (by decide)) (windowGroup 9 4 (by decide))
    (by decide)).findLongestCacheHit [] 8 = .error .index ∧
    ((chunkedHybrid 6 (by decide) false (by decide)).findLongestCacheHit [[0], [1]] 8 =
    .ok ([[1], [0]], 4, 4) ∧
    ∀ block, ¬(chunkedHybrid 6 (by decide) false (by decide)).CachedFor [[0], [1]] 1 4 block) ∧
    (windowHybrid (fullGroup 4 (by decide)) (windowGroup 1 4 (by decide))
    (by decide)).findLongestCacheHit [[0], [1]] 8 = .ok ([[1, 2], [0, 3]], 8, 0) := by
  refine ⟨?_, ?_, ?_, ⟨?_, ?_⟩, ?_⟩
  · unfold findLongestCacheHit
    rw [searchRounds]
    rfl
  · unfold findLongestCacheHit
    rw [searchRounds]
    rfl
  · unfold findLongestCacheHit
    rw [searchRounds]
    rfl
  · unfold findLongestCacheHit
    rw [searchRounds]
    rfl
  · rintro block ⟨_, _, blockHash, hhash, hone⟩
    cases hhash
    cases hone
  · unfold findLongestCacheHit
    rw [searchRounds]
    rfl

end HybridKVCacheCoordinator

end VllmAmpere
