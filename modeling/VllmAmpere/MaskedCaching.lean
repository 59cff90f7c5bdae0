import VllmAmpere.FullAttentionRun

/-! Caching the blocks that `reachable_block_mask` selects beside caching every full block:
the keys that the two register over one history of requests. -/

open List

namespace VllmAmpere

namespace BlockPool

variable {p q : BlockPool}

def Caches (p : BlockPool) (key : BlockHashWithGroupId) : Prop :=
  p.cachedBlockHashToBlock.blocks key ≠ []

/-- `q` is `p` with `b` registered under `key`. -/
structure Registered (p q : BlockPool) (b : BlockId) (key : BlockHashWithGroupId) : Prop where
  config : q.toBlockPoolConfig = p.toBlockPoolConfig
  isNull : ∀ c, (q.blocks c).isNull = (p.blocks c).isNull
  others : ∀ c, c ≠ b → (q.blocks c).blockHash = (p.blocks c).blockHash
  caches : ∀ k, q.Caches k ↔ p.Caches k ∨ k = key

theorem caches_insert (p : BlockPool) (key k : BlockHashWithGroupId) (b : BlockId) :
    (p.cachedBlockHashToBlock.insert key b).blocks k ≠ [] ↔ p.Caches k ∨ k = key := by
  rw [BlockHashToBlockMap.blocks_insert]
  by_cases hk : k = key
  · subst hk
    by_cases hb : b ∈ p.cachedBlockHashToBlock.blocks k
    · simp [hb, ne_nil_of_mem hb]
    · simp [hb]
  · simp [hk, Caches]

theorem registered_cacheFullBlock {key : BlockHashWithGroupId} {b : BlockId} {n : Nat}
    (unhashed : (p.blocks b).blockHash = none) (h : p.cacheFullBlock b key n = .ok q) :
    Registered p q b key := by
  unfold cacheFullBlock at h
  rw [unhashed] at h
  simp only [Option.isSome_none, Bool.false_eq_true, if_false] at h
  obtain ⟨_, hp, h⟩ := bind_eq_ok.mp h
  cases hp
  unfold insertBlockHash at h
  rw [unhashed, if_neg (by simp)] at h
  split at h
  · rename_i hcontain
    cases h
    have hmem := (BlockHashToBlockMap.contain_iff _ _ _).mp hcontain
    refine ⟨rfl, fun _ => rfl, fun _ _ => rfl, fun k => ⟨.inl, ?_⟩⟩
    rintro (hk | rfl)
    · exact hk
    · exact ne_nil_of_mem hmem
  · obtain ⟨r, hr, h⟩ := bind_eq_ok.mp h
    cases h
    unfold recordHash at hr
    rw [unhashed] at hr
    obtain ⟨block, hblock, hr⟩ := bind_eq_ok.mp hr
    cases hr
    obtain ⟨_, -, hblock⟩ := bind_eq_ok.mp hblock
    cases hblock
    refine ⟨rfl, fun c => ?_, fun c hc => ?_, fun k => caches_insert p key k b⟩
    · by_cases hc : c = b
      · subst hc
        simp [setBlock]
      · simp [setBlock, hc]
    · simp [setBlock, hc]

/-- Blocks as allocation hands them out: unhashed and each but the null block once. -/
structure Fresh (p : BlockPool) (blocks : List BlockId) : Prop where
  unhashed : ∀ b ∈ blocks, (p.blocks b).isNull = false → (p.blocks b).blockHash = none
  apart : (blocks.filter fun b => !(p.blocks b).isNull).Nodup

/-- The key at position `j` of the blocks that a call caches from index `i` of its hashes on. -/
def CachesAt (p : BlockPool) (hashes : List BlockHash) (mask : Option (List Bool))
    (group : Nat) (blocks : List BlockId) (i j : Nat) (key : BlockHashWithGroupId) : Prop :=
  ∃ b hash, blocks[j]? = some b ∧ (p.blocks b).isNull = false ∧ masked mask (i + j) = false ∧
    hashes[i + j]? = some hash ∧ key = ⟨hash, group⟩

theorem cacheFullLoop_caches {hashes : List BlockHash} {mask : Option (List Bool)}
    {numCached blockSize group : Nat} (blocks : List BlockId) (i : Nat) {found : List BlockHash}
    (fresh : Fresh p blocks)
    (h : cacheFullLoop hashes mask numCached blockSize group blocks i p = .ok (found, q)) :
    q.toBlockPoolConfig = p.toBlockPoolConfig ∧
    ∀ k, q.Caches k ↔ p.Caches k ∨ ∃ j, CachesAt p hashes mask group blocks i j k := by
  induction blocks generalizing i p found with
  | nil =>
    cases h
    refine ⟨rfl, fun k => ⟨.inl, ?_⟩⟩
    rintro (hk | ⟨j, b, hash, hj, -⟩)
    · exact hk
    · simp at hj
  | cons blk rest ih =>
    have hshift : ∀ {r : BlockPool} {k : BlockHashWithGroupId},
        (∀ c, (r.blocks c).isNull = (p.blocks c).isNull) →
        ((∃ j, CachesAt r hashes mask group rest (i + 1) j k) ↔
          ∃ j, CachesAt p hashes mask group (blk :: rest) i (j + 1) k) := by
      intro r k hnull
      refine exists_congr fun j => ?_
      simp only [CachesAt, getElem?_cons_succ, hnull, Nat.add_assoc, Nat.add_comm 1 j]
    have hsplit : ∀ {k : BlockHashWithGroupId},
        (∃ j, CachesAt p hashes mask group (blk :: rest) i j k) ↔
          CachesAt p hashes mask group (blk :: rest) i 0 k ∨
            ∃ j, CachesAt p hashes mask group (blk :: rest) i (j + 1) k := by
      intro k
      constructor
      · rintro ⟨j, hj⟩
        cases j with
        | zero => exact .inl hj
        | succ j => exact .inr ⟨j, hj⟩
      · rintro (h0 | ⟨j, hj⟩)
        · exact ⟨0, h0⟩
        · exact ⟨j + 1, hj⟩
    unfold cacheFullLoop at h
    split at h
    · rename_i hskip
      have hrest : Fresh p rest := by
        refine ⟨fun b hb => fresh.unhashed b (mem_cons_of_mem _ hb), ?_⟩
        refine fresh.apart.sublist (List.Sublist.filter _ (sublist_cons_self _ _))
      obtain ⟨hconfig, hcaches⟩ := ih (i + 1) hrest h
      refine ⟨hconfig, fun k => ?_⟩
      have hnone : ¬CachesAt p hashes mask group (blk :: rest) i 0 k := by
        rintro ⟨b, hash, hb, hnull, hmask, -⟩
        rw [getElem?_cons_zero, Option.some.injEq] at hb
        rw [Bool.or_eq_true] at hskip
        rw [Nat.add_zero] at hmask
        subst hb
        rcases hskip with hs | hs
        · rw [hnull] at hs
          cases hs
        · rw [hmask] at hs
          cases hs
      rw [hcaches, hshift (fun _ => rfl), hsplit, or_iff_right hnone]
    · rename_i hkept
      rw [Bool.or_eq_true, not_or, Bool.not_eq_true, Bool.not_eq_true] at hkept
      obtain ⟨hash, hhash, h⟩ := bind_eq_ok.mp h
      obtain ⟨r, hr, h⟩ := bind_eq_ok.mp h
      obtain ⟨⟨tail, s⟩, hs, h⟩ := bind_eq_ok.mp h
      cases h
      have hreg := registered_cacheFullBlock
        (fresh.unhashed blk mem_cons_self hkept.1) hr
      have hapart : blk ∉ rest.filter (fun b => !(p.blocks b).isNull) ∧
          (rest.filter fun b => !(p.blocks b).isNull).Nodup := by
        have := fresh.apart
        rwa [filter_cons_of_pos (by simp [hkept.1]), nodup_cons] at this
      have hrest : Fresh r rest := by
        refine ⟨fun b hb hnull => ?_, ?_⟩
        · rw [hreg.isNull] at hnull
          have hne : b ≠ blk := by
            rintro rfl
            exact hapart.1 (mem_filter.mpr ⟨hb, by simp [hnull]⟩)
          rw [hreg.others b hne]
          exact fresh.unhashed b (mem_cons_of_mem _ hb) hnull
        · simp only [hreg.isNull]
          exact hapart.2
      obtain ⟨hconfig, hcaches⟩ := ih (i + 1) hrest hs
      refine ⟨hconfig.trans hreg.config, fun k => ?_⟩
      have hfirst : CachesAt p hashes mask group (blk :: rest) i 0 k ↔ k = ⟨hash, group⟩ := by
        constructor
        · rintro ⟨b, hash', -, -, -, hhash', rfl⟩
          rw [Nat.add_zero, pyGet_ok.mp hhash, Option.some.injEq] at hhash'
          rw [hhash']
        · rintro rfl
          exact ⟨blk, hash, rfl, hkept.1, hkept.2, pyGet_ok.mp hhash, rfl⟩
      rw [hcaches, hreg.caches, hshift hreg.isNull, hsplit, hfirst, or_assoc]

theorem resolved_sliceFrom {hashes : List BlockHash} {hashBlockSize blockSize : Nat}
    {view : BlockHashList} (hhash : 0 < hashBlockSize) (hblock : 0 < blockSize)
    (h : resolveBlockHashes (.list hashes) hashBlockSize blockSize false none = .ok view) :
    hashBlockSize ∣ blockSize ∧ ∀ start i, (view.sliceFrom start)[i]? =
    hashes[(start + i + 1) * blockSize / hashBlockSize - 1]? := by
  unfold resolveBlockHashes at h
  split at h
  · rename_i hsame
    cases h
    subst hsame
    refine ⟨Nat.dvd_refl _, fun start i => ?_⟩
    rw [Nat.mul_div_cancel _ hhash, Nat.add_sub_cancel]
    simp [BlockHashList.sliceFrom]
  · simp only [Bool.false_eq_true, if_false] at h
    obtain ⟨_, hmod, h⟩ := bind_eq_ok.mp h
    cases h
    have hdvd := Nat.dvd_of_mod_eq_zero (pyAssert_ok.mp hmod)
    refine ⟨hdvd, fun start i => ?_⟩
    rw [BlockHashList.sliceFrom_getElem? _ (Nat.div_pos (Nat.le_of_dvd hblock hdvd) hhash),
      Nat.mul_div_assoc _ hdvd]

/-- A call registers the block at position `i` of the table under the key. -/
structure Registers (p : BlockPool) (request : Request) (blocks : List BlockId)
    (numCached numFull blockSize group : Nat) (mask : Option (List Bool)) (i : Nat)
    (key : BlockHashWithGroupId) : Prop where
  le : numCached ≤ i
  lt : i < numFull
  block : ∃ b, blocks[i]? = some b ∧ (p.blocks b).isNull = false
  selected : masked mask (i - numCached) = false
  hash : request.HashAt p.hashBlockSize ((i + 1) * blockSize) key.blockHash
  group_eq : key.groupId = group

theorem cacheFullBlocks_caches {request : Request} {blocks : List BlockId}
    {numCached numFull blockSize group : Nat} {mask : Option (List Bool)} (hblock : 0 < blockSize)
    (fresh : Fresh p (slice blocks numCached numFull))
    (h : p.cacheFullBlocks request blocks numCached numFull blockSize group mask = .ok q) :
    q.toBlockPoolConfig = p.toBlockPoolConfig ∧ ∀ k, q.Caches k ↔ p.Caches k ∨
    ∃ i, Registers p request blocks numCached numFull blockSize group mask i k := by
  unfold cacheFullBlocks at h
  split at h
  · cases h
    refine ⟨rfl, fun k => ⟨.inl, ?_⟩⟩
    rintro (hk | ⟨i, hi⟩)
    · exact hk
    · have := hi.le
      have := hi.lt
      omega
  · obtain ⟨_, -, h⟩ := bind_eq_ok.mp h
    obtain ⟨view, hview, h⟩ := bind_eq_ok.mp h
    obtain ⟨⟨found, r⟩, hr, h⟩ := bind_eq_ok.mp h
    obtain ⟨hdvd, hreads⟩ := resolved_sliceFrom p.hasher.hashBlockSize_pos hblock hview
    obtain ⟨hconfig, hcaches⟩ := cacheFullLoop_caches _ _ fresh hr
    have hsame : q.toBlockPoolConfig = r.toBlockPoolConfig ∧
        q.cachedBlockHashToBlock = r.cachedBlockHashToBlock := by
      simp only at h
      split at h
      · obtain ⟨_, -, h⟩ := bind_eq_ok.mp h
        obtain ⟨_, -, h⟩ := bind_eq_ok.mp h
        cases h
        exact ⟨rfl, rfl⟩
      · cases h
        exact ⟨rfl, rfl⟩
    refine ⟨hsame.1.trans hconfig, fun k => ?_⟩
    have hq : q.Caches k ↔ r.Caches k := by rw [Caches, hsame.2, Caches]
    rw [hq, hcaches]
    refine or_congr_right ⟨?_, ?_⟩
    · rintro ⟨j, b, hash, hj, hnull, hmask, hhash, rfl⟩
      rw [slice_getElem?] at hj
      split at hj
      · rename_i hlt
        rw [Nat.zero_add] at hmask hhash
        rw [hreads] at hhash
        refine ⟨numCached + j, Nat.le_add_right _ _, hlt, ⟨b, hj, hnull⟩, ?_, ⟨?_, ?_, hhash⟩, rfl⟩
        · rwa [Nat.add_sub_cancel_left]
        · exact Nat.dvd_mul_left_of_dvd hdvd _
        · exact Nat.mul_pos (Nat.succ_pos _) hblock
      · cases hj
    · rintro ⟨i, hi⟩
      obtain ⟨b, hb, hnull⟩ := hi.block
      have hle := hi.le
      refine ⟨i - numCached, b, k.blockHash, ?_, hnull, ?_, ?_, ?_⟩
      · rw [slice_getElem?, Nat.add_sub_cancel' hle, if_pos hi.lt, hb]
      · rw [Nat.zero_add]
        exact hi.selected
      · rw [Nat.zero_add, hreads, Nat.add_sub_cancel' hle]
        exact hi.hash.hash
      · rw [← hi.group_eq]

end BlockPool

namespace SingleTypeKVCacheManager

variable (m : SingleTypeKVCacheManager) (pool : BlockPool)

/-- `cache_blocks` with every full block selected. -/
def cacheAllBlocks (request : Request) (numTokens : Nat) :
    Except PyError (BlockPool × SingleTypeKVCacheManager) :=
  if !m.kvCacheSpec.prefixCacheable then .ok (pool, m)
  else
    let numCachedBlocks := (m.numCachedBlock.get? request.requestId).getD 0
    let numFullBlocks := numTokens / m.blockSize
    if numCachedBlocks ≥ numFullBlocks then .ok (pool, m)
    else do
      let pool ← pool.cacheFullBlocks request (m.reqBlocks request.requestId) numCachedBlocks
        numFullBlocks m.blockSize m.kvCacheGroupId none
      .ok (pool, { m.readBlocks request.requestId with
        numCachedBlock := m.numCachedBlock.set request.requestId numFullBlocks })

def cachedBlocks (requestId : String) : Nat := (m.numCachedBlock.get? requestId).getD 0

def fullBlocks (numTokens : Nat) : Nat :=
  if m.kvCacheSpec.prefixCacheable then numTokens / m.blockSize else 0

/-- What a call that caches blocks leaves. -/
structure Stores (request : Request) (numTokens : Nat) (mask : Option (List Bool))
    (pool' : BlockPool) (m' : SingleTypeKVCacheManager) : Prop where
  manager : m'.toManagerConfig = m.toManagerConfig
  cached : m'.numCachedBlock =
    if m.cachedBlocks request.requestId < m.fullBlocks numTokens then
      m.numCachedBlock.set request.requestId (m.fullBlocks numTokens)
    else m.numCachedBlock
  config : pool'.toBlockPoolConfig = pool.toBlockPoolConfig
  caches : ∀ k, pool'.Caches k ↔ pool.Caches k ∨
    ∃ i, pool.Registers request (m.reqBlocks request.requestId)
      (m.cachedBlocks request.requestId) (m.fullBlocks numTokens) m.blockSize
      m.kvCacheGroupId mask i k

variable {m pool} {m' : SingleTypeKVCacheManager} {pool' : BlockPool} {request : Request}
  {numTokens : Nat}

theorem Stores.unchanged (mask : Option (List Bool))
    (h : m.fullBlocks numTokens ≤ m.cachedBlocks request.requestId) :
    m.Stores pool request numTokens mask pool m where
  manager := rfl
  cached := by rw [if_neg (Nat.not_lt.mpr h)]
  config := rfl
  caches k := by
    refine ⟨.inl, ?_⟩
    rintro (hk | ⟨i, hi⟩)
    · exact hk
    · have := hi.le
      have := hi.lt
      omega

theorem stores_of_cacheFullBlocks {mask : Option (List Bool)}
    (hcacheable : m.kvCacheSpec.prefixCacheable)
    (hlt : m.cachedBlocks request.requestId < numTokens / m.blockSize)
    (fresh : pool.Fresh (slice (m.reqBlocks request.requestId)
      (m.cachedBlocks request.requestId) (m.fullBlocks numTokens)))
    (h : pool.cacheFullBlocks request (m.reqBlocks request.requestId)
      (m.cachedBlocks request.requestId) (numTokens / m.blockSize) m.blockSize m.kvCacheGroupId
      mask = .ok pool') :
    m.Stores pool request numTokens mask pool' { m.readBlocks request.requestId with
      numCachedBlock := m.numCachedBlock.set request.requestId (numTokens / m.blockSize) } := by
  have hfull : m.fullBlocks numTokens = numTokens / m.blockSize := if_pos hcacheable
  rw [hfull] at fresh
  obtain ⟨hconfig, hcaches⟩ := BlockPool.cacheFullBlocks_caches m.blockSize_pos fresh h
  refine ⟨rfl, ?_, hconfig, ?_⟩
  · rw [hfull, if_pos hlt]
  · rw [hfull]
    exact hcaches

theorem stores_cacheBlocks {bounds : List Nat}
    (fresh : pool.Fresh (slice (m.reqBlocks request.requestId)
    (m.cachedBlocks request.requestId) (m.fullBlocks numTokens)))
    (h : m.cacheBlocks pool request numTokens none bounds = .ok (pool', m')) :
    ∃ reachable, m.Stores pool request numTokens (m.reachableBlockMask
    (m.cachedBlocks request.requestId) (m.fullBlocks numTokens) none reachable) pool' m' := by
  unfold cacheBlocks at h
  split at h
  · rename_i hnot
    cases h
    refine ⟨[], .unchanged _ ?_⟩
    rw [fullBlocks, if_neg (by simpa using hnot)]
    exact Nat.zero_le _
  · rename_i hcacheable
    have hfull : m.fullBlocks numTokens = numTokens / m.blockSize :=
      if_pos (by simpa using hcacheable)
    simp only at h
    split at h
    · rename_i hle
      cases h
      refine ⟨[], .unchanged _ ?_⟩
      rw [hfull]
      exact hle
    · rename_i hlt
      obtain ⟨_, hcache, h⟩ := bind_eq_ok.mp h
      cases h
      refine ⟨bounds ++ if request.sharedPrefixBoundary = 0 then [] else
        [request.sharedPrefixBoundary], ?_⟩
      rw [hfull]
      exact stores_of_cacheFullBlocks (by simpa using hcacheable) (Nat.not_le.mp hlt) fresh hcache

theorem stores_cacheAllBlocks (fresh : pool.Fresh (slice (m.reqBlocks request.requestId)
    (m.cachedBlocks request.requestId) (m.fullBlocks numTokens)))
    (h : m.cacheAllBlocks pool request numTokens = .ok (pool', m')) :
    m.Stores pool request numTokens none pool' m' := by
  unfold cacheAllBlocks at h
  split at h
  · rename_i hnot
    cases h
    refine .unchanged _ ?_
    rw [fullBlocks, if_neg (by simpa using hnot)]
    exact Nat.zero_le _
  · rename_i hcacheable
    simp only at h
    split at h
    · rename_i hle
      cases h
      refine .unchanged _ ?_
      rw [fullBlocks, if_pos (by simpa using hcacheable)]
      exact hle
    · rename_i hlt
      obtain ⟨_, hcache, h⟩ := bind_eq_ok.mp h
      cases h
      exact stores_of_cacheFullBlocks (by simpa using hcacheable) (Nat.not_le.mp hlt) fresh hcache

end SingleTypeKVCacheManager

end VllmAmpere
