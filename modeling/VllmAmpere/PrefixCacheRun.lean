import Mathlib.Algebra.BigOperators.Group.Finset.Piecewise
import VllmAmpere.BlockPoolRun
import VllmAmpere.KVEvents

/-! The prefix cache indexes and the event stream over whole runs of the pools. -/

open Function (update update_apply update_of_ne update_self)

namespace VllmAmpere

open Finset
open BlockPool (IndexInv Tracks SameIndex registrations keysOf)

/-- Operations that put keys into a pool's prefix cache. -/
def PoolOp.registers : PoolOp → PoolId → Prop
  | .cacheFullBlocks p .., p' => p' = p
  | .cachePartialBlock p .., p' => p' = p
  | .moveBlockHashes p .., p' => p' = p
  | _, _ => False

namespace PoolState

/-- What one operation does to a pool and to what the pool has published. -/
inductive PoolStep (p q : BlockPool) (published published' : List KVCacheEvent) : Prop
  | tracked : Tracks p q 0 → published' = published → PoolStep p q published published'
  | taken : q = { p with kvEventQueue := [] } → published' = published ++ p.kvEventQueue →
      PoolStep p q published published'
  | cleared : q.toBlockPoolConfig = p.toBlockPoolConfig → IndexInv q → (∀ b, q.keysOf b = []) →
      (p.enableKvCacheEvents = true → q.kvEventQueue = p.kvEventQueue ++ [.allBlocksCleared]) →
      published' = published → PoolStep p q published published'

variable {s s' : PoolState}

def PoolEffect (s s' : PoolState) (op : PoolOp) (p : PoolId) : Prop :=
  PoolStep (s.pools p) (s'.pools p) (s.published p) (s'.published p) ∧
    (¬ op.registers p → ∀ b, (s.pools p).keysOf b = [] → (s'.pools p).keysOf b = [])

variable {pool : BlockPool}

theorem poolEffect_of_tracks {op : PoolOp} (inv : ∀ p, IndexInv (s.pools p)) {p₀ : PoolId}
    (hpools : s'.pools = update s.pools p₀ pool)
    (hpub : s'.published = s.published) (tracks : Tracks (s.pools p₀) pool 0)
    (keeps : ¬ op.registers p₀ → ∀ b, (s.pools p₀).keysOf b = [] → pool.keysOf b = [])
    (p : PoolId) : PoolEffect s s' op p := by
  unfold PoolEffect
  rw [hpools, hpub]
  by_cases hp : p = p₀
  · subst hp
    rw [update_self]
    exact ⟨.tracked tracks rfl, keeps⟩
  · rw [update_of_ne hp]
    exact ⟨.tracked (.refl (inv p)) rfl, fun _ _ h => h⟩

theorem sameIndex_freeOthers (groups : List (PoolId × List BlockId)) {pools pools' : BlockPools}
    (h : BlockPools.freeOthers groups pools = .ok pools') (p : PoolId) :
    SameIndex (pools p) (pools' p) := by
  induction groups generalizing pools with
  | nil =>
    cases h
    exact .refl _
  | cons group groups ih =>
    have ⟨pool, hpool, h⟩ := bind_eq_ok.mp h
    refine SameIndex.trans ?_ (ih h)
    by_cases hp : p = group.1
    · subst hp
      rw [update_self]
      exact BlockPool.sameIndex_freeOwnBlocks hpool
    · rw [update_of_ne hp]
      exact .refl _

theorem sameIndex_freeBlocks {pools pools' : BlockPools} {self : PoolId} {xs : List BlockRef}
    (h : pools.freeBlocks self xs = .ok pools') (p : PoolId) : SameIndex (pools p) (pools' p) := by
  have ⟨pool, hpool, h⟩ := bind_eq_ok.mp h
  refine SameIndex.trans ?_ (sameIndex_freeOthers _ h p)
  by_cases hp : p = self
  · subst hp
    rw [update_self]
    exact BlockPool.sameIndex_freeOwnBlocks hpool
  · rw [update_of_ne hp]
    exact .refl _

theorem evictBlocks_keeps (ids : List BlockId) {p q : BlockPool} (inv : IndexInv p)
    (h : BlockPool.evictBlocks ids p = .ok q) (c : BlockId) (hc : p.keysOf c = []) :
    q.keysOf c = [] := by
  induction ids generalizing p with
  | nil =>
    cases h
    exact hc
  | cons b rest ih =>
    obtain ⟨_, _, h⟩ := bind_eq_ok.mp h
    rw [BlockPool.maybeEvict_eq] at h
    obtain ⟨tracks, keys⟩ := BlockPool.evictHashes_spec inv b
    exact ih tracks.inv h (by rw [keys, hc, ite_self])

theorem apply_poolEffect {op : PoolOp} (contract : s.Contract op) (h : s.apply op = .ok s')
    (inv : ∀ p, IndexInv (s.pools p)) (p : PoolId) : PoolEffect s s' op p := by
  cases op with
  | getNewBlocks p₀ holder n =>
    obtain ⟨⟨ret, pool⟩, hop, h⟩ := bind_eq_ok.mp h
    cases h
    obtain ⟨tracks, _, kept⟩ := BlockPool.getNewBlocks_tracks (inv p₀) hop
    exact poolEffect_of_tracks inv (by rfl) (by rfl) tracks (fun _ => kept) p
  | touch p₀ holder blocks =>
    obtain ⟨pool, hop, h⟩ := bind_eq_ok.mp h
    cases h
    have same := BlockPool.sameIndex_touch blocks hop
    exact poolEffect_of_tracks inv (by rfl) (by rfl) (same.tracks (inv p₀))
      (fun _ b hb => by rw [same.keysOf, hb]) p
  | freeBlocks p₀ holder xs =>
    obtain ⟨pools, hop, h⟩ := bind_eq_ok.mp h
    cases h
    have same := sameIndex_freeBlocks hop p
    exact ⟨.tracked (same.tracks (inv p)) rfl, fun _ b hb => by rw [same.keysOf, hb]⟩
  | unpinBlocks p₀ holder blocks onReuse =>
    obtain ⟨pool, hop, h⟩ := bind_eq_ok.mp h
    cases h
    have same := BlockPool.sameIndex_unpinBlocks hop
    exact poolEffect_of_tracks inv (by rfl) (by rfl) (same.tracks (inv p₀))
      (fun _ b hb => by rw [same.keysOf, hb]) p
  | cacheFullBlocks p₀ =>
    obtain ⟨pool, hop, h⟩ := bind_eq_ok.mp h
    cases h
    exact poolEffect_of_tracks inv (by rfl) (by rfl) (BlockPool.cacheFullBlocks_tracks (inv p₀) contract hop)
      (by exact fun other => absurd rfl other) p
  | cachePartialBlock p₀ =>
    obtain ⟨⟨key, pool⟩, hop, h⟩ := bind_eq_ok.mp h
    cases h
    exact poolEffect_of_tracks inv (by rfl) (by rfl)
      (BlockPool.cachePartialBlock_tracks (inv p₀) contract hop) (by exact fun other => absurd rfl other) p
  | moveBlockHashes p₀ =>
    obtain ⟨pool, hop, h⟩ := bind_eq_ok.mp h
    cases h
    exact poolEffect_of_tracks inv (by rfl) (by rfl)
      (BlockPool.moveBlockHashes_tracks (inv p₀) contract.2 hop) (by exact fun other => absurd rfl other) p
  | evictBlocks p₀ ids =>
    obtain ⟨pool, hop, h⟩ := bind_eq_ok.mp h
    cases h
    exact poolEffect_of_tracks inv (by rfl) (by rfl) (BlockPool.evictBlocks_tracks ids (inv p₀) hop)
      (fun _ => evictBlocks_keeps ids (inv p₀) hop) p
  | resetPrefixCache p₀ =>
    cases h
    rcases BlockPool.resetPrefixCache_spec (inv p₀) with same | ⟨config, inv', keys, events⟩
    · exact poolEffect_of_tracks inv (by rfl) (by rfl) (by rw [same]; exact .refl (inv p₀))
        (fun _ b hb => by rw [same, hb]) p
    · unfold PoolEffect
      simp only [setPool]
      by_cases hp : p = p₀
      · subst hp
        rw [update_self]
        exact ⟨.cleared config inv' keys events rfl, fun _ b _ => keys b⟩
      · rw [update_of_ne hp]
        exact ⟨.tracked (.refl (inv p)) rfl, fun _ _ h => h⟩
  | takeEvents p₀ =>
    cases h
    unfold PoolEffect
    simp only [setPool]
    by_cases hp : p = p₀
    · subst hp
      rw [update_self, update_self]
      unfold BlockPool.takeEvents
      split
      · exact ⟨.taken rfl rfl, fun _ _ h => h⟩
      · exact ⟨.tracked (.refl (inv p)) (by simp), fun _ _ h => h⟩
    · rw [update_of_ne hp, update_of_ne hp]
      exact ⟨.tracked (.refl (inv p)) rfl, fun _ _ h => h⟩

theorem PoolStep.inv {p q : BlockPool} {pub pub' : List KVCacheEvent}
    (h : PoolStep p q pub pub') (inv : IndexInv p) : IndexInv q := by
  cases h with
  | tracked tracks _ => exact tracks.inv
  | taken hq _ =>
    rw [hq]
    exact ⟨inv.agree, inv.nodup, inv.distinct, inv.primary, inv.inside, inv.isNull⟩
  | cleared _ inv' _ _ _ => exact inv'

theorem PoolStep.config {p q : BlockPool} {pub pub' : List KVCacheEvent}
    (h : PoolStep p q pub pub') : q.toBlockPoolConfig = p.toBlockPoolConfig := by
  cases h with
  | tracked tracks _ => exact tracks.config
  | taken hq _ => rw [hq]
  | cleared config _ _ _ _ => exact config

theorem new_indexInv {numGpuBlocks : Nat} {enableCaching : Bool} {hasher : BlockHasher}
    {enableKvCacheEvents useIntBlockHashes : Bool} {medium : String} {setOrder : SetOrder}
    (h : BlockPool.new numGpuBlocks enableCaching hasher enableKvCacheEvents
    useIntBlockHashes medium setOrder = .ok pool) :
    IndexInv pool ∧ (∀ b, pool.keysOf b = []) ∧ pool.kvEventQueue = [] := by
  have ⟨free, refs⟩ := new_refInv h
  have ⟨_, _, h⟩ := bind_eq_ok.mp h
  have ⟨⟨nullBlock, queue⟩, _, h⟩ := bind_eq_ok.mp h
  cases h
  have keys (b : BlockId) : (update (fun _ => ({} : KVCacheBlock)) nullBlock
      { isNull := true } b).blockHash = none := by
    rw [update_apply]
    split <;> rfl
  refine ⟨⟨fun k b => ?_, fun b => ?_, fun k => List.nodup_nil, fun b _ => rfl, fun b hb => ?_,
    refs.isNull⟩, fun b => ?_, rfl⟩
  · simp [keysOf, keys, BlockHashToBlockMap.blocks_empty]
  · simp [keysOf, keys]
  · simp [keysOf, keys] at hb
  · simp [keysOf, keys]

def CachingContract (s : PoolState) (op : PoolOp) : Prop :=
  s.Contract op ∧ ∀ p, op.registers p → (s.pools p).enableCaching = true

end PoolState

/-! The keys that each call on a pool adds to its blocks: the hashes of the
request for the positions of its blocks, and no others. -/

/-- `blockHash` is the hash of the first `n` tokens of the request. -/
structure Request.HashAt (request : Request) (hashBlockSize n : Nat) (blockHash : BlockHash) :
    Prop where
  dvd : hashBlockSize ∣ n
  pos : 0 < n
  hash : request.blockHashes[n / hashBlockSize - 1]? = some blockHash

namespace BlockPool

variable {p q r : BlockPool}

/-- Keys of `q` are keys of `p` or among the new ones. -/
def AddsOnly (p q : BlockPool) (new : BlockId → BlockHashWithGroupId → Prop) : Prop :=
  ∀ b key, key ∈ q.keysOf b → key ∈ p.keysOf b ∨ new b key

/-- No block gets a key it did not have. -/
abbrev AddsNone (p q : BlockPool) : Prop := ∀ b key, key ∈ q.keysOf b → key ∈ p.keysOf b

variable {new : BlockId → BlockHashWithGroupId → Prop}

theorem AddsNone.addsOnly (h : AddsNone p q) : AddsOnly p q new :=
  fun b key hkey => .inl (h b key hkey)

theorem SameIndex.addsNone (h : SameIndex p q) : AddsNone p q := by
  intro b key hkey
  rwa [h.keysOf] at hkey

theorem AddsNone.trans (h : AddsNone p q) (k : AddsNone q r) : AddsNone p r :=
  fun b key hkey => h b key (k b key hkey)

theorem AddsOnly.trans (h : AddsOnly p q new) (k : AddsOnly q r new) : AddsOnly p r new := by
  intro b key hkey
  rcases k b key hkey with hkey | hnew
  · exact h b key hkey
  · exact .inr hnew

theorem AddsOnly.mono {new' : BlockId → BlockHashWithGroupId → Prop} (h : AddsOnly p q new)
    (sub : ∀ b key, new b key → new' b key) : AddsOnly p q new' :=
  fun b key hkey => (h b key hkey).imp_right (sub b key)

theorem addsNone_evictHashes (inv : IndexInv p) (b : BlockId) : AddsNone p (p.evictHashes b) := by
  intro c key hkey
  rw [(evictHashes_spec inv b).2 c] at hkey
  split at hkey
  · cases hkey
  · exact hkey

variable {b : BlockId}

theorem addsOnly_insert (inv : IndexInv p) {key : BlockHashWithGroupId}
    {numTokens : Option Nat} (hb : b < p.numGpuBlocks ∧ b ≠ p.nullBlock)
    (h : p.insertBlockHash key b numTokens = .ok q) : AddsOnly p q fun c k => c = b ∧ k = key := by
  have ⟨_, rekeyed⟩ := insertBlockHash_spec inv hb h
  intro c k hk
  by_cases hc : c = b
  · subst hc
    rw [rekeyed.self] at hk
    split at hk
    · exact .inl hk
    · rcases List.mem_append.mp hk with hk | hk
      · exact .inl hk
      · exact .inr ⟨rfl, List.mem_singleton.mp hk⟩
  · rw [rekeyed.other c hc] at hk
    exact .inl hk

theorem addsOnly_cacheFullBlock (inv : IndexInv p) {key : BlockHashWithGroupId}
    {numHashTokens : Nat} (hb : b < p.numGpuBlocks ∧ b ≠ p.nullBlock)
    (h : p.cacheFullBlock b key numHashTokens = .ok q) :
    AddsOnly p q fun c k => c = b ∧ k = key := by
  obtain ⟨r, hr, hq⟩ := bind_eq_ok.mp h
  split at hr
  · obtain ⟨_, _, hr⟩ := bind_eq_ok.mp hr
    cases hr
    obtain ⟨tracks, _⟩ := evictHashes_spec inv b
    have hb' : b < (p.evictHashes b).numGpuBlocks ∧ b ≠ (p.evictHashes b).nullBlock := by
      rw [tracks.config]
      exact hb
    exact (addsNone_evictHashes inv b).addsOnly.trans (addsOnly_insert tracks.inv hb' hq)
  · cases hr
    exact addsOnly_insert inv hb hq

theorem addsOnly_cacheFullLoop {hashes : List BlockHash} {mask : Option (List Bool)}
    {numCached blockSize group : Nat} (blocks : List BlockId) (i : Nat) {found : List BlockHash}
    (inv : IndexInv p) (valid : ∀ b ∈ blocks, b < p.numGpuBlocks)
    (h : cacheFullLoop hashes mask numCached blockSize group blocks i p = .ok (found, q)) :
    AddsOnly p q fun c key => ∃ j hash, blocks[j]? = some c ∧ hashes[i + j]? = some hash ∧
    key = ⟨hash, group⟩ := by
  induction blocks generalizing i p found with
  | nil =>
    cases h
    exact fun _ _ hkey => .inl hkey
  | cons blk rest ih =>
    have shift : ∀ c key, (∃ j hash, rest[j]? = some c ∧ hashes[i + 1 + j]? = some hash ∧
        key = (⟨hash, group⟩ : BlockHashWithGroupId)) → ∃ j hash, (blk :: rest)[j]? = some c ∧
        hashes[i + j]? = some hash ∧ key = ⟨hash, group⟩ := by
      rintro c key ⟨j, hash, hj, hhash, hkey⟩
      exact ⟨j + 1, hash, by rw [List.getElem?_cons_succ, hj],
        by rw [← hhash, Nat.add_assoc, Nat.add_comm 1 j], hkey⟩
    unfold cacheFullLoop at h
    split at h
    · exact (ih (i + 1) inv (fun b hb => valid b (by simp [hb])) h).mono shift
    · rename_i skipped
      obtain ⟨hash, hhash, h⟩ := bind_eq_ok.mp h
      obtain ⟨r, hr, h⟩ := bind_eq_ok.mp h
      obtain ⟨⟨tail, s⟩, hs, h⟩ := bind_eq_ok.mp h
      cases h
      have live : blk < p.numGpuBlocks ∧ blk ≠ p.nullBlock := by
        simp only [Bool.or_eq_true, not_or] at skipped
        exact ⟨valid blk (by simp), by rw [ne_eq, ← inv.isNull]; exact skipped.1⟩
      have one := cacheFullBlock_tracks inv live hr
      have first : AddsOnly p r fun c key => ∃ j hash, (blk :: rest)[j]? = some c ∧
          hashes[i + j]? = some hash ∧ key = ⟨hash, group⟩ :=
        (addsOnly_cacheFullBlock inv live hr).mono (by
          rintro c key ⟨rfl, rfl⟩
          exact ⟨0, hash, rfl, pyGet_ok.mp hhash, rfl⟩)
      have more := (ih (i + 1) one.inv (fun b hb => by
        rw [one.config]
        exact valid b (by simp [hb])) hs).mono shift
      exact first.trans more

/-- Key of a block at position `j` of a request's table. -/
def FullBlockKey (hashBlockSize : Nat) (request : Request) (blocks : List BlockId)
    (blockSize group : Nat) (b : BlockId) (key : BlockHashWithGroupId) : Prop :=
  ∃ j hash, blocks[j]? = some b ∧ request.HashAt hashBlockSize ((j + 1) * blockSize) hash ∧
    key = ⟨hash, group⟩

variable {request : Request}

theorem resolved_hashAt {hashBlockSize blockSize : Nat} {view : BlockHashList}
    (hhash : 0 < hashBlockSize) (hblock : 0 < blockSize)
    (h : resolveBlockHashes (.list request.blockHashes) hashBlockSize blockSize false none =
    .ok view) {start i : Nat} {hash : BlockHash} (hi : (view.sliceFrom start)[i]? = some hash) :
    request.HashAt hashBlockSize ((start + i + 1) * blockSize) hash := by
  unfold resolveBlockHashes at h
  split at h
  · rename_i hsame
    cases h
    subst hsame
    refine ⟨Nat.dvd_mul_left _ _, Nat.mul_pos (Nat.succ_pos _) hhash, ?_⟩
    rw [Nat.mul_div_cancel _ hhash, Nat.add_sub_cancel]
    simpa [BlockHashList.sliceFrom] using hi
  · simp only [Bool.false_eq_true, if_false] at h
    obtain ⟨_, hmod, h⟩ := bind_eq_ok.mp h
    cases h
    have hdvd := Nat.dvd_of_mod_eq_zero (pyAssert_ok.mp hmod)
    have hscale : 0 < blockSize / hashBlockSize :=
      Nat.div_pos (Nat.le_of_dvd hblock hdvd) hhash
    rw [BlockHashList.sliceFrom_getElem? _ hscale] at hi
    refine ⟨Nat.dvd_trans hdvd (Nat.dvd_mul_left _ _), Nat.mul_pos (Nat.succ_pos _) hblock, ?_⟩
    rw [Nat.mul_div_assoc _ hdvd]
    exact hi

theorem addsOnly_cacheFullBlocks {blocks : List BlockId}
    {numCached numFull blockSize group : Nat} {mask : Option (List Bool)} (inv : IndexInv p)
    (hblock : 0 < blockSize) (valid : ∀ b ∈ blocks, b < p.numGpuBlocks)
    (h : p.cacheFullBlocks request blocks numCached numFull blockSize group mask = .ok q) :
    AddsOnly p q (FullBlockKey p.hashBlockSize request blocks blockSize group) := by
  unfold cacheFullBlocks at h
  split at h
  · cases h
    exact fun _ _ hkey => .inl hkey
  · obtain ⟨_, _, h⟩ := bind_eq_ok.mp h
    obtain ⟨view, hview, h⟩ := bind_eq_ok.mp h
    obtain ⟨⟨found, r⟩, hr, h⟩ := bind_eq_ok.mp h
    have stored : AddsOnly p r (FullBlockKey p.hashBlockSize request blocks blockSize group) := by
      refine (addsOnly_cacheFullLoop (slice blocks numCached numFull) _ inv
        (fun b hb => valid b (List.mem_of_mem_take (List.mem_of_mem_drop hb))) hr).mono ?_
      rintro b key ⟨j, hash, hj, hhash, hkey⟩
      rw [slice_getElem?] at hj
      split at hj
      · rw [Nat.zero_add] at hhash
        exact ⟨numCached + j, hash, hj,
          resolved_hashAt p.hasher.hashBlockSize_pos hblock hview hhash, hkey⟩
      · cases hj
    simp only at h
    split at h
    · obtain ⟨_, _, h⟩ := bind_eq_ok.mp h
      obtain ⟨_, _, h⟩ := bind_eq_ok.mp h
      cases h
      exact stored
    · cases h
      exact stored

/-- Key of a block for the first `numTokens` tokens of a request. -/
def PartialBlockKey (hashBlockSize : Nat) (request : Request) (block : BlockId)
    (numTokens group : Nat) (b : BlockId) (key : BlockHashWithGroupId) : Prop :=
  b = block ∧ ∃ hash, request.HashAt hashBlockSize numTokens hash ∧ key = ⟨hash, group⟩

theorem addsOnly_cachePartialBlock
    {numTokens group blockSize : Nat} {replace : Bool} {out : Option BlockHashWithGroupId}
    (inv : IndexInv p) (hb : b < p.numGpuBlocks)
    (h : p.cachePartialBlock request b numTokens group blockSize replace = .ok (out, q)) :
    AddsOnly p q (PartialBlockKey p.hashBlockSize request b numTokens group) := by
  unfold cachePartialBlock at h
  split at h
  · cases h
    exact fun _ _ hkey => .inl hkey
  · rename_i live
    have nonnull : b < p.numGpuBlocks ∧ b ≠ p.nullBlock :=
      ⟨hb, by rw [ne_eq, ← inv.isNull]; exact live⟩
    obtain ⟨_, _, h⟩ := bind_eq_ok.mp h
    obtain ⟨_, _, h⟩ := bind_eq_ok.mp h
    obtain ⟨hash, hhash, h⟩ := bind_eq_ok.mp h
    obtain ⟨r, hr, h⟩ := bind_eq_ok.mp h
    have key : request.HashAt p.hashBlockSize numTokens hash := by
      obtain ⟨_, hmod, hhash⟩ := bind_eq_ok.mp hhash
      obtain ⟨_, hrange, hhash⟩ := bind_eq_ok.mp hhash
      have range := pyAssert_ok.mp hrange
      refine ⟨Nat.dvd_of_mod_eq_zero (pyAssert_ok.mp hmod), ?_, pyGet_ok.mp hhash⟩
      exact Nat.pos_of_ne_zero fun hz => by simp [hz] at range
    have inserted : AddsOnly p r (PartialBlockKey p.hashBlockSize request b numTokens group) := by
      have named : ∀ c k, (c = b ∧ k = (⟨hash, group⟩ : BlockHashWithGroupId)) →
          PartialBlockKey p.hashBlockSize request b numTokens group c k :=
        fun _ _ hc => ⟨hc.1, hash, key, hc.2⟩
      split at hr
      · obtain ⟨tracks, _⟩ := evictHashes_spec inv b
        have nonnull' : b < (p.evictHashes b).numGpuBlocks ∧ b ≠ (p.evictHashes b).nullBlock := by
          rw [tracks.config]
          exact nonnull
        exact (addsNone_evictHashes inv b).addsOnly.trans
          ((addsOnly_insert tracks.inv nonnull' hr).mono named)
      · exact (addsOnly_insert inv nonnull hr).mono named
    split at h
    · obtain ⟨_, _, h⟩ := bind_eq_ok.mp h
      cases h
      exact inserted
    · cases h
      exact inserted

theorem addsOnly_insertHashes {dst : BlockId} {numTokens : Option Nat}
    (keys : List BlockHashWithGroupId) (inv : IndexInv p)
    (hd : dst < p.numGpuBlocks ∧ dst ≠ p.nullBlock)
    (h : insertHashes dst numTokens keys p = .ok q) :
    AddsOnly p q fun c key => c = dst ∧ key ∈ keys := by
  induction keys generalizing p with
  | nil =>
    cases h
    exact fun _ _ hkey => .inl hkey
  | cons key rest ih =>
    have ⟨r, hr, h⟩ := bind_eq_ok.mp h
    have ⟨inv', rekeyed⟩ := insertBlockHash_spec inv hd hr
    have first := addsOnly_insert inv hd hr
    have more := ih inv' (by rw [rekeyed.config]; exact hd) h
    refine (first.mono ?_).trans (more.mono ?_)
    · rintro c k ⟨hc, rfl⟩
      exact ⟨hc, List.mem_cons_self⟩
    · rintro c k ⟨hc, hk⟩
      exact ⟨hc, List.mem_cons_of_mem _ hk⟩

theorem addsOnly_moveBlockHashes {src dst : BlockId} (inv : IndexInv p)
    (hd : dst < p.numGpuBlocks ∧ dst ≠ p.nullBlock) (h : p.moveBlockHashes src dst = .ok q) :
    AddsOnly p q fun c key => c = dst ∧ key ∈ p.keysOf src := by
  have ⟨_, _, h⟩ := bind_eq_ok.mp h
  have ⟨_, _, h⟩ := bind_eq_ok.mp h
  have ⟨hkeys, inv', rekeyed⟩ := removeCachedBlockHashes_spec inv src
  have perm := hashKeys_perm p src
  have removed : AddsNone p (p.removeCachedBlockHashes src).2 := by
    intro c key hkey
    by_cases hc : c = src
    · rw [hc, rekeyed.self] at hkey
      cases hkey
    · rwa [rekeyed.other c hc] at hkey
  have moved := addsOnly_insertHashes (p.removeCachedBlockHashes src).1 inv'
    (by rw [rekeyed.config]; exact hd) h
  refine removed.addsOnly.trans (moved.mono ?_)
  rintro c key ⟨hc, hkey⟩
  rw [hkeys] at hkey
  exact ⟨hc, perm.mem_iff.mp hkey⟩

theorem addsNone_evictBlocks (ids : List BlockId) (inv : IndexInv p)
    (h : evictBlocks ids p = .ok q) : AddsNone p q := by
  induction ids generalizing p with
  | nil =>
    cases h
    exact fun _ _ hkey => hkey
  | cons b rest ih =>
    have ⟨_, _, h⟩ := bind_eq_ok.mp h
    rw [maybeEvict_eq] at h
    exact (addsNone_evictHashes inv b).trans (ih (evictHashes_spec inv b).1.inv h)

theorem takeBlocks_keys (blocks : List BlockId) (inv : IndexInv p)
    (h : takeBlocks blocks p = .ok q) (c : BlockId) :
    q.keysOf c = if c ∈ blocks ∧ p.enableCaching = true then [] else p.keysOf c := by
  induction blocks generalizing p with
  | nil =>
    cases h
    simp
  | cons b rest ih =>
    obtain ⟨_, _, h⟩ := bind_eq_ok.mp h
    obtain ⟨r, hr⟩ : ∃ r, r = if p.enableCaching then (p.maybeEvictCachedBlock b).2 else p :=
      ⟨_, rfl⟩
    rw [← hr] at h
    have evicted : Tracks p r 0 ∧
        r.keysOf c = if c = b ∧ p.enableCaching = true then [] else p.keysOf c := by
      rw [hr]
      by_cases on : p.enableCaching = true
      · obtain ⟨tracks, keys⟩ := evictHashes_spec inv b
        rw [if_pos on, maybeEvict_eq]
        exact ⟨tracks, by simp only [on, and_true]; exact keys c⟩
      · rw [if_neg on]
        exact ⟨.refl inv, by simp [on]⟩
    have set := sameIndex_setRefCnt r b ((r.blocks b).refCnt + 1)
    have step := evicted.1.trans (set.tracks evicted.1.inv)
    have caching : (r.setBlock b { r.blocks b with refCnt := (r.blocks b).refCnt + 1 }).enableCaching =
        p.enableCaching := by rw [step.config]
    rw [ih step.inv h, set.keysOf, evicted.2, caching]
    by_cases on : p.enableCaching = true
    · by_cases hc : c = b <;> by_cases hrest : c ∈ rest <;> simp [on, hc, hrest]
    · simp [on]

theorem getNewBlocks_keys {n : Nat} {ret : List BlockId} (inv : IndexInv p)
    (h : p.getNewBlocks n = .ok (ret, q)) (c : BlockId) :
    q.keysOf c = if c ∈ ret ∧ p.enableCaching = true then [] else p.keysOf c := by
  unfold getNewBlocks at h
  split at h
  · cases h
  · have ⟨⟨popped, queue⟩, _, h⟩ := bind_eq_ok.mp h
    have ⟨r, hr, h⟩ := bind_eq_ok.mp h
    cases h
    have same := (sameIndex_queue p queue).trans (sameIndex_notifyReuse _ ret)
    rw [takeBlocks_keys ret (same.tracks inv).inv hr, same.keysOf, same.config]

theorem addsNone_getNewBlocks {n : Nat} {ret : List BlockId} (inv : IndexInv p)
    (h : p.getNewBlocks n = .ok (ret, q)) : AddsNone p q := by
  intro c key hkey
  rw [getNewBlocks_keys inv h] at hkey
  split at hkey
  · cases hkey
  · exact hkey

end BlockPool

def PoolOp.newKeys (s : PoolState) (p : PoolId) (b : BlockId) (key : BlockHashWithGroupId) :
    PoolOp → Prop
  | .cacheFullBlocks p' request blocks _ _ blockSize group _ =>
    p = p' ∧ BlockPool.FullBlockKey (s.pools p).hashBlockSize request blocks blockSize group b key
  | .cachePartialBlock p' request block numTokens group _ _ =>
    p = p' ∧ BlockPool.PartialBlockKey (s.pools p).hashBlockSize request block numTokens group b key
  | .moveBlockHashes p' srcBlock dstBlock =>
    p = p' ∧ b = dstBlock ∧ key ∈ (s.pools p).keysOf srcBlock
  | _ => False

namespace PoolState

open BlockPool (IndexInv AddsOnly AddsNone)

variable {s s' : PoolState}

theorem addsOnly_setPool {new : BlockId → BlockHashWithGroupId → Prop} {p₀ : PoolId}
    {pool : BlockPool} (hpools : s'.pools = update s.pools p₀ pool) {p : PoolId}
    (adds : p = p₀ → AddsOnly (s.pools p) pool new) : AddsOnly (s.pools p) (s'.pools p) new := by
  rw [hpools]
  by_cases hp : p = p₀
  · have here := adds hp
    subst hp
    rwa [update_self]
  · rw [update_of_ne hp]
    exact fun _ _ hkey => .inl hkey

theorem apply_addsOnly {op : PoolOp} (contract : s.Contract op)
    (sized : ∀ p request blocks numCached numFull blockSize group mask,
    op = .cacheFullBlocks p request blocks numCached numFull blockSize group mask → 0 < blockSize)
    (h : s.apply op = .ok s') (inv : ∀ p, IndexInv (s.pools p)) (p : PoolId) :
    AddsOnly (s.pools p) (s'.pools p) fun b key => op.newKeys s p b key := by
  cases op with
  | getNewBlocks p₀ holder n =>
    have ⟨⟨ret, pool⟩, hop, h⟩ := bind_eq_ok.mp h
    cases h
    refine addsOnly_setPool (by rfl) fun hp => ?_
    subst hp
    exact (BlockPool.addsNone_getNewBlocks (inv p) hop).addsOnly
  | touch p₀ holder blocks =>
    have ⟨pool, hop, h⟩ := bind_eq_ok.mp h
    cases h
    refine addsOnly_setPool (by rfl) fun hp => ?_
    subst hp
    exact (BlockPool.sameIndex_touch blocks hop).addsNone.addsOnly
  | freeBlocks p₀ holder xs =>
    have ⟨pools, hop, h⟩ := bind_eq_ok.mp h
    cases h
    exact (sameIndex_freeBlocks hop p).addsNone.addsOnly
  | unpinBlocks p₀ holder blocks onReuse =>
    have ⟨pool, hop, h⟩ := bind_eq_ok.mp h
    cases h
    refine addsOnly_setPool (by rfl) fun hp => ?_
    subst hp
    exact (BlockPool.sameIndex_unpinBlocks hop).addsNone.addsOnly
  | cacheFullBlocks p₀ request blocks numCached numFull blockSize group mask =>
    have ⟨pool, hop, h⟩ := bind_eq_ok.mp h
    cases h
    refine addsOnly_setPool (by rfl) fun hp => ?_
    subst hp
    exact (BlockPool.addsOnly_cacheFullBlocks (inv p) (sized _ _ _ _ _ _ _ _ rfl) contract
      hop).mono fun b key hkey => ⟨rfl, hkey⟩
  | cachePartialBlock p₀ request block numTokens group blockSize replace =>
    have ⟨⟨key, pool⟩, hop, h⟩ := bind_eq_ok.mp h
    cases h
    refine addsOnly_setPool (by rfl) fun hp => ?_
    subst hp
    exact (BlockPool.addsOnly_cachePartialBlock (inv p) contract hop).mono
      fun b key hkey => ⟨rfl, hkey⟩
  | moveBlockHashes p₀ src dst =>
    have ⟨pool, hop, h⟩ := bind_eq_ok.mp h
    cases h
    refine addsOnly_setPool (by rfl) fun hp => ?_
    subst hp
    exact (BlockPool.addsOnly_moveBlockHashes (inv p) contract.2 hop).mono
      fun b key hkey => ⟨rfl, hkey⟩
  | evictBlocks p₀ ids =>
    have ⟨pool, hop, h⟩ := bind_eq_ok.mp h
    cases h
    refine addsOnly_setPool (by rfl) fun hp => ?_
    subst hp
    exact (BlockPool.addsNone_evictBlocks ids (inv p) hop).addsOnly
  | resetPrefixCache p₀ =>
    cases h
    refine addsOnly_setPool (by rfl) fun hp => ?_
    subst hp
    intro b key hkey
    rcases BlockPool.resetPrefixCache_spec (inv p) with same | ⟨_, _, keys, _⟩
    · rw [same] at hkey
      exact .inl hkey
    · rw [keys] at hkey
      cases hkey
  | takeEvents p₀ =>
    cases h
    refine addsOnly_setPool (by rfl) fun hp => ?_
    subst hp
    unfold BlockPool.takeEvents
    split <;> exact fun _ _ hkey => .inl hkey

end PoolState

end VllmAmpere
