import Mathlib.Data.Multiset.AddSub
import VllmAmpere.BlockPoolInvariant
import VllmAmpere.PyDict
import VllmAmpere.TransitionSystem

/-! Runs of block pools under their callers' contract: callers release only
references they hold and name only blocks of the pool. A ledger of the references
handed out goes along with the pools. -/

open List Function

namespace VllmAmpere

/-- Whoever holds references: a request, a connector, the CoW retention list. -/
abbrev Holder := Nat

/-- The pools of an engine, the references their callers hold and the events
each pool has handed to its publisher. -/
structure PoolState where
  pools : BlockPools
  held : Multiset (Holder × BlockRef)
  published : PoolId → List KVCacheEvent

inductive PoolOp
  | getNewBlocks (p : PoolId) (holder : Holder) (numBlocks : Nat)
  | touch (p : PoolId) (holder : Holder) (blocks : List BlockId)
  | freeBlocks (p : PoolId) (holder : Holder) (orderedBlocks : List BlockRef)
  | unpinBlocks (p : PoolId) (holder : Holder) (blocks : List BlockId) (onReuse : Watcher)
  | cacheFullBlocks (p : PoolId) (request : Request) (blocks : List BlockId)
      (numCachedBlocks numFullBlocks blockSize kvCacheGroupId : Nat)
      (blockMask : Option (List Bool))
  | cachePartialBlock (p : PoolId) (request : Request) (block : BlockId)
      (numTokens kvCacheGroupId blockSize : Nat) (replaceExistingHashes : Bool)
  | moveBlockHashes (p : PoolId) (srcBlock dstBlock : BlockId)
  | evictBlocks (p : PoolId) (blockIds : List BlockId)
  | resetPrefixCache (p : PoolId)
  | takeEvents (p : PoolId)

namespace PoolState

def refsOf (p : PoolId) (blocks : List BlockId) : List BlockRef := blocks.map (⟨p, ·⟩)

def owned (holder : Holder) (refs : List BlockRef) : Multiset (Holder × BlockRef) :=
  (refs.map fun ref => (holder, ref) : List (Holder × BlockRef))

variable (s : PoolState)

/-- The references to blocks other than null blocks, whose counts are not kept. -/
def live (refs : List BlockRef) : List BlockRef :=
  refs.filter fun ref => ref.block ≠ (s.pools ref.pool).nullBlock

def refs (p : PoolId) (b : BlockId) : Nat :=
  s.held.countP fun entry => entry.2 = ⟨p, b⟩

def setPool (p : PoolId) (pool : BlockPool) : PoolState :=
  { s with pools := update s.pools p pool }

def apply : PoolOp → Except PyError PoolState
  | .getNewBlocks p holder numBlocks => do
    let (ret, pool) ← (s.pools p).getNewBlocks numBlocks
    .ok { s.setPool p pool with held := s.held + owned holder (refsOf p ret) }
  | .touch p holder blocks => do
    let pool ← BlockPool.touch blocks (s.pools p)
    .ok { s.setPool p pool with held := s.held + owned holder (s.live (refsOf p blocks)) }
  | .freeBlocks p holder orderedBlocks => do
    let pools ← s.pools.freeBlocks p orderedBlocks
    .ok { s with pools, held := s.held - owned holder (s.live orderedBlocks) }
  | .unpinBlocks p holder blocks onReuse => do
    let pool ← (s.pools p).unpinBlocks blocks onReuse
    .ok { s.setPool p pool with held := s.held - owned holder (refsOf p blocks) }
  | .cacheFullBlocks p request blocks numCachedBlocks numFullBlocks blockSize group blockMask => do
    let pool ← (s.pools p).cacheFullBlocks request blocks numCachedBlocks numFullBlocks blockSize
      group blockMask
    .ok (s.setPool p pool)
  | .cachePartialBlock p request block numTokens group blockSize replaceExistingHashes => do
    let (_, pool) ← (s.pools p).cachePartialBlock request block numTokens group blockSize
      replaceExistingHashes
    .ok (s.setPool p pool)
  | .moveBlockHashes p srcBlock dstBlock => do
    let pool ← (s.pools p).moveBlockHashes srcBlock dstBlock
    .ok (s.setPool p pool)
  | .evictBlocks p blockIds => do
    let pool ← BlockPool.evictBlocks blockIds (s.pools p)
    .ok (s.setPool p pool)
  | .resetPrefixCache p => .ok (s.setPool p (s.pools p).resetPrefixCache.2)
  | .takeEvents p =>
    .ok { s.setPool p (s.pools p).takeEvents.2 with
      published := update s.published p (s.published p ++ (s.pools p).takeEvents.1) }

def Contract : PoolOp → Prop
  | .touch p _ blocks => ∀ b ∈ blocks, b < (s.pools p).numGpuBlocks
  | .freeBlocks _ holder orderedBlocks =>
    (∀ ref ∈ orderedBlocks, ref.block < (s.pools ref.pool).numGpuBlocks) ∧
      owned holder (s.live orderedBlocks) ≤ s.held
  | .unpinBlocks p holder blocks _ => owned holder (refsOf p blocks) ≤ s.held
  | .cacheFullBlocks p _ blocks _ _ _ _ _ => ∀ b ∈ blocks, b < (s.pools p).numGpuBlocks
  | .cachePartialBlock p _ block _ _ _ _ => block < (s.pools p).numGpuBlocks
  | .moveBlockHashes p srcBlock dstBlock =>
    srcBlock < (s.pools p).numGpuBlocks ∧ dstBlock < (s.pools p).numGpuBlocks ∧
      dstBlock ≠ (s.pools p).nullBlock
  | .getNewBlocks .. | .evictBlocks .. | .resetPrefixCache .. | .takeEvents .. => True

/-- Pools as they are constructed, with nothing handed out. -/
structure Initial (s : PoolState) : Prop where
  pools : ∀ p, ∃ numGpuBlocks enableCaching hasher enableKvCacheEvents useIntBlockHashes medium
    setOrder, BlockPool.new numGpuBlocks enableCaching hasher enableKvCacheEvents
      useIntBlockHashes medium setOrder = .ok (s.pools p)
  held : s.held = 0
  published : ∀ p, s.published p = []

/-- Runs of the pools in which every call keeps the contract. -/
def system : TransitionSystem PoolState PoolOp where
  init := Initial
  step s op s' := s.Contract op ∧ s.apply op = .ok s'

/-- References in the ledger are references of the pools. -/
structure Inv (s : PoolState) : Prop where
  refs : ∀ p, ∃ free, (s.pools p).RefInv (s.refs p) free
  valid : ∀ entry ∈ s.held, entry.2.block < (s.pools entry.2.pool).numGpuBlocks ∧
    entry.2.block ≠ (s.pools entry.2.pool).nullBlock

section Counting

theorem countP_owned (holder : Holder) (xs : List BlockRef) (p : PoolId) (b : BlockId) :
    (owned holder xs).countP (fun entry => entry.2 = ⟨p, b⟩) = xs.count ⟨p, b⟩ := by
  rw [owned, Multiset.coe_countP, countP_map, count_eq_countP]
  exact countP_congr fun ref _ => by simp

theorem count_refsOf (p p' : PoolId) (blocks : List BlockId) (b : BlockId) :
    (refsOf p blocks).count ⟨p', b⟩ = if p' = p then blocks.count b else 0 := by
  rw [refsOf, count_eq_countP, countP_map, count_eq_countP]
  split
  · exact countP_congr fun c _ => by simp [*]
  · rename_i hp
    refine countP_eq_zero.mpr fun c _ => ?_
    simp [Ne.symm hp]

theorem count_ownBlocks (p : PoolId) (xs : List BlockRef) (b : BlockId) :
    (BlockPools.ownBlocks p xs).count b = xs.count ⟨p, b⟩ := by
  rw [BlockPools.ownBlocks, count_eq_countP, countP_map, countP_filter,
    count_eq_countP]
  refine countP_congr fun ref _ => ?_
  cases ref
  simp [and_comm]

theorem count_live (s : PoolState) (xs : List BlockRef) {p : PoolId} {b : BlockId}
    (hb : b ≠ (s.pools p).nullBlock) : (s.live xs).count ⟨p, b⟩ = xs.count ⟨p, b⟩ :=
  count_filter (by simpa using hb)

end Counting

section Routing

open BlockPools

/-- Groups cover `xs`: one per pool, each with the blocks of its pool in order. -/
structure Groups (groups : List (PoolId × List BlockId)) (xs : List BlockRef) : Prop where
  nodup : (groups.map Prod.fst).Nodup
  own : ∀ group ∈ groups, group.2 = ownBlocks group.1 xs
  rest : ∀ p, p ∉ groups.map Prod.fst → ownBlocks p xs = []
  used : ∀ p ∈ groups.map Prod.fst, ∃ ref ∈ xs, ref.pool = p

theorem mem_dictAppend {p : PoolId} {b : BlockId} {groups : List (PoolId × List BlockId)}
    (nodup : (groups.map Prod.fst).Nodup) {group : PoolId × List BlockId}
    (h : group ∈ dictAppend p b groups) :
    (group ∈ groups ∧ group.1 ≠ p) ∨ (∃ blocks, (p, blocks) ∈ groups ∧ group = (p, blocks ++ [b])) ∨
    (p ∉ groups.map Prod.fst ∧ group = (p, [b])) := by
  induction groups with
  | nil => simpa [dictAppend] using h
  | cons first groups ih =>
    have hn := nodup_cons.mp nodup
    unfold dictAppend at h
    by_cases hp : first.1 = p
    · simp only [hp, if_true, mem_cons] at h
      rcases h with rfl | h
      · exact .inr (.inl ⟨first.2, by simp [← hp], rfl⟩)
      · refine .inl ⟨by simp [h], fun e => hn.1 ?_⟩
        rw [hp, ← e]
        exact mem_map_of_mem h
    · simp only [hp, if_false, mem_cons] at h
      rcases h with rfl | h
      · exact .inl ⟨by simp, hp⟩
      · rcases ih hn.2 h with h | ⟨blocks, h, e⟩ | ⟨h, e⟩
        · exact .inl ⟨by simp [h.1], h.2⟩
        · exact .inr (.inl ⟨blocks, by simp [h], e⟩)
        · exact .inr (.inr ⟨by simp [h, Ne.symm hp], e⟩)

theorem ownBlocks_concat (p : PoolId) (xs : List BlockRef) (ref : BlockRef) :
    ownBlocks p (xs ++ [ref]) = ownBlocks p xs ++ if ref.pool = p then [ref.block] else [] := by
  unfold ownBlocks
  rw [filter_append, map_append]
  by_cases h : ref.pool = p <;> simp [h]

theorem Groups.append {groups : List (PoolId × List BlockId)} {xs : List BlockRef}
    (h : Groups groups xs) (ref : BlockRef) :
    Groups (dictAppend ref.pool ref.block groups) (xs ++ [ref]) where
  nodup := by
    rw [dictAppend_keys]
    split
    · exact h.nodup
    · exact nodup_append.mpr ⟨h.nodup, nodup_singleton _, by simp; grind⟩
  own group hg := by
    rw [ownBlocks_concat]
    rcases mem_dictAppend h.nodup hg with ⟨hg, hne⟩ | ⟨blocks, hold, rfl⟩ | ⟨hp, rfl⟩
    · rw [h.own group hg, if_neg (Ne.symm hne), append_nil]
    · simp only [if_true]
      rw [← h.own _ hold]
    · simp only [if_true]
      rw [h.rest _ hp, nil_append]
  rest p hp := by
    rw [dictAppend_keys] at hp
    have hne : ref.pool ≠ p := by
      rintro rfl
      split at hp <;> simp_all
    have hold : p ∉ groups.map Prod.fst := by
      split at hp
      · exact hp
      · exact fun h => hp (by simp only [mem_append, h, true_or])
    rw [ownBlocks_concat, if_neg hne, h.rest p hold, append_nil]
  used p hp := by
    have hp : p ∈ groups.map Prod.fst ∨ p = ref.pool := by
      rw [dictAppend_keys] at hp
      split at hp
      · exact .inl hp
      · simpa only [mem_append, mem_singleton] using hp
    rcases hp with hp | rfl
    · have ⟨old, hold, e⟩ := h.used p hp
      exact ⟨old, by simp [hold], e⟩
    · exact ⟨ref, by simp, rfl⟩

theorem groups_otherPools (self : PoolId) (xs : List BlockRef) :
    Groups (otherPools self xs) (xs.filter fun ref => ref.pool ≠ self) := by
  unfold otherPools
  have run (todo done : List BlockRef) (groups : List (PoolId × List BlockId))
      (h : Groups groups done) : Groups
        (todo.foldl (fun others ref => dictAppend ref.pool ref.block others) groups)
        (done ++ todo) := by
    induction todo generalizing done groups with
    | nil => simpa using h
    | cons ref todo ih => simpa using ih (done ++ [ref]) _ (h.append ref)
  exact run _ [] [] ⟨nodup_nil, by simp, fun _ _ => rfl, by simp⟩

theorem ownBlocks_filter_ne (self p : PoolId) (xs : List BlockRef) :
    ownBlocks p (xs.filter fun ref => ref.pool ≠ self) =
    if p = self then [] else ownBlocks p xs := by
  unfold ownBlocks
  rw [filter_filter]
  split
  · rename_i hp
    rw [filter_eq_nil_iff.mpr (by simp [hp]), map_nil]
  · rename_i hp
    congr 1
    refine filter_congr fun ref _ => ?_
    by_cases h : ref.pool = p <;> simp [h, hp]

theorem freeOthers_ok {Q : PoolId → BlockPool → Prop} (groups : List (PoolId × List BlockId))
    (pools : BlockPools) (nodup : (groups.map Prod.fst).Nodup)
    (free : ∀ group ∈ groups, ∃ pool, (pools group.1).freeOwnBlocks group.2 = .ok pool ∧
    Q group.1 pool) (keep : ∀ p, p ∉ groups.map Prod.fst → Q p (pools p)) :
    ∃ pools', freeOthers groups pools = .ok pools' ∧ ∀ p, Q p (pools' p) := by
  induction groups generalizing pools with
  | nil => exact ⟨pools, rfl, fun p => keep p (by simp)⟩
  | cons group groups ih =>
    have hn := nodup_cons.mp nodup
    have ⟨pool, hpool, hq⟩ := free group (by simp)
    have other (p : PoolId) (hp : p ≠ group.1) :
        update pools group.1 pool p = pools p := update_of_ne hp _ _
    have ⟨pools', hok, hQ⟩ := ih (update pools group.1 pool) hn.2
      (fun g hg => by
        rw [other g.1 fun e => hn.1 (e ▸ mem_map_of_mem hg)]
        exact free g (by simp [hg]))
      (fun p hp => by
        by_cases e : p = group.1
        · subst e
          rw [update_self]
          exact hq
        · rw [other p e]
          exact keep p (by simp [e, hp]))
    exact ⟨pools', bind_eq_ok.mpr ⟨pool, hpool, hok⟩, hQ⟩

theorem freeBlocks_ok {Q : PoolId → BlockPool → Prop} (pools : BlockPools) (self : PoolId)
    (xs : List BlockRef)
    (free : ∀ p, ∃ pool, (pools p).freeOwnBlocks (ownBlocks p xs) = .ok pool ∧ Q p pool)
    (keep : ∀ p, ownBlocks p xs = [] → Q p (pools p)) :
    ∃ pools', pools.freeBlocks self xs = .ok pools' ∧ ∀ p, Q p (pools' p) := by
  have groups := groups_otherPools self xs
  have ⟨pool, hpool, hq⟩ := free self
  have ⟨pools', hok, hQ⟩ := freeOthers_ok (Q := Q) (otherPools self xs)
    (update pools self pool) groups.nodup
    (fun group hg => by
      have ⟨ref, href, e⟩ := groups.used group.1 (mem_map_of_mem hg)
      have hne : group.1 ≠ self := by
        rw [← e]
        simpa using (mem_filter.mp href).2
      rw [update_of_ne hne, groups.own group hg, ownBlocks_filter_ne, if_neg hne]
      exact free group.1)
    (fun p hp => by
      by_cases e : p = self
      · subst e
        rw [update_self]
        exact hq
      · have none := groups.rest p hp
        rw [ownBlocks_filter_ne, if_neg e] at none
        rw [update_of_ne e]
        exact keep p none)
  exact ⟨pools', bind_eq_ok.mpr ⟨pool, hpool, hok⟩, hQ⟩

end Routing

theorem new_refInv {numGpuBlocks : Nat} {enableCaching : Bool} {hasher : BlockHasher}
    {enableKvCacheEvents useIntBlockHashes : Bool} {medium : String} {setOrder : SetOrder}
    {pool : BlockPool} (h : BlockPool.new numGpuBlocks enableCaching hasher enableKvCacheEvents
    useIntBlockHashes medium setOrder = .ok pool) : ∃ free, pool.RefInv (fun _ => 0) free := by
  have ⟨_, hpos, h⟩ := bind_eq_ok.mp h
  have hpos := pyAssert_ok.mp hpos
  obtain ⟨n, rfl⟩ : ∃ n, numGpuBlocks = n + 1 := ⟨numGpuBlocks - 1, by omega⟩
  have hrange : List.range (n + 1) = 0 :: (List.range n).map Nat.succ := range_succ_eq_map
  have rep := FreeKVCacheBlockQueue.new_represents (nodup_range (n := n + 1))
  rw [hrange] at rep h
  have ⟨queue, hq, rep⟩ := FreeKVCacheBlockQueue.popleft_ok rep
  have ⟨⟨nullBlock, queue'⟩, hq', h⟩ := bind_eq_ok.mp h
  rw [hq] at hq'
  cases hq'
  cases h
  refine ⟨_, rep, fun b => ?_, fun b _ _ => ?_, fun b => ?_, Nat.succ_pos n⟩
  · change b ∈ (List.range n).map Nat.succ ↔ b < n + 1 ∧ b ≠ 0 ∧
      (update (fun _ => ({} : KVCacheBlock)) 0 { isNull := true } b).refCnt = 0
    simp only [mem_map, mem_range, update_apply]
    constructor
    · rintro ⟨a, ha, rfl⟩
      exact ⟨Nat.succ_lt_succ ha, Nat.succ_ne_zero a, rfl⟩
    · rintro ⟨hb, hn, _⟩
      exact ⟨b.pred, Nat.pred_lt_pred hn hb, Nat.succ_pred_eq_of_ne_zero hn⟩
  · simp only [update_apply]
    split <;> rfl
  · simp only [update_apply]
    split <;> simp [*]

variable {s : PoolState}

theorem init_inv (h : Initial s) : Inv s where
  refs p := by
    have ⟨_, _, _, _, _, _, _, hp⟩ := h.pools p
    have ⟨free, inv⟩ := new_refInv hp
    exact ⟨free, inv.congr fun b _ => by simp [refs, h.held]⟩
  valid entry he := by simp [h.held] at he

theorem Inv.setPool {s s' : PoolState} (inv : Inv s) (p : PoolId) (pool : BlockPool)
    (hpools : s'.pools = update s.pools p pool)
    (config : pool.toBlockPoolConfig = (s.pools p).toBlockPoolConfig)
    (here : ∃ free, pool.RefInv (s'.refs p) free)
    (others : ∀ p' ≠ p, ∀ b, s'.refs p' b = s.refs p' b)
    (valid : ∀ entry ∈ s'.held, entry.2.block < (s.pools entry.2.pool).numGpuBlocks ∧
      entry.2.block ≠ (s.pools entry.2.pool).nullBlock) : Inv s' where
  refs p' := by
    rw [hpools]
    by_cases hp : p' = p
    · subst hp
      rw [update_self]
      exact here
    · have ⟨free, old⟩ := inv.refs p'
      rw [update_of_ne hp]
      exact ⟨free, old.congr fun b _ => (others p' hp b).symm⟩
  valid entry he := by
    have := valid entry he
    rw [hpools]
    by_cases hp : entry.2.pool = p
    · rw [hp, update_self, config, ← hp]
      exact this
    · rw [update_of_ne hp]
      exact this

variable {p : PoolId}

theorem Inv.sameRefs {s s' : PoolState} (inv : Inv s) {pool : BlockPool}
    (hpools : s'.pools = update s.pools p pool) (held : s'.held = s.held)
    (same : BlockPool.SameRefs (s.pools p) pool) : Inv s' := by
  have refs (p' : PoolId) (b : BlockId) : s'.refs p' b = s.refs p' b := by
    rw [PoolState.refs, held, PoolState.refs]
  have ⟨free, old⟩ := inv.refs p
  exact inv.setPool _ _ hpools same.config
    ⟨free, (old.sameRefs same).congr fun b _ => (refs p b).symm⟩ (fun p' _ => refs p')
    (fun entry he => inv.valid entry (held ▸ he))

variable {holder : Holder} {xs : List BlockRef}

theorem refs_add (s' : PoolState)
    (h : s'.held = s.held + owned holder xs) (p : PoolId) (b : BlockId) :
    s'.refs p b = s.refs p b + xs.count ⟨p, b⟩ := by
  rw [refs, h, Multiset.countP_add, countP_owned, refs]

theorem refs_sub {s s' : PoolState}
    (h : s'.held = s.held - owned holder xs) (hle : owned holder xs ≤ s.held) (p : PoolId)
    (b : BlockId) : s'.refs p b = s.refs p b - xs.count ⟨p, b⟩ := by
  rw [refs, h, Multiset.countP_sub hle, countP_owned, refs]

theorem count_le_refs (hle : owned holder xs ≤ s.held) (p : PoolId) (b : BlockId) :
    xs.count ⟨p, b⟩ ≤ s.refs p b := by
  rw [← countP_owned holder]
  exact Multiset.countP_le_of_le _ hle

theorem mem_owned {entry : Holder × BlockRef} (he : entry ∈ owned holder xs) : entry.2 ∈ xs := by
  have ⟨ref, href, e⟩ := mem_map.mp (Multiset.mem_coe.mp he)
  rw [← e]
  exact href

variable {blocks : List BlockId}

theorem mem_refsOf {ref : BlockRef} (h : ref ∈ refsOf p blocks) : ref.pool = p ∧ ref.block ∈ blocks := by
  have ⟨b, hb, e⟩ := mem_map.mp h
  rw [← e]
  exact ⟨rfl, hb⟩

theorem getNewBlocks_inv {s s' : PoolState} (inv : Inv s) {n : Nat}
    (h : s.apply (.getNewBlocks p holder n) = .ok s') : Inv s' := by
  have ⟨⟨ret, pool⟩, hget, h⟩ := bind_eq_ok.mp h
  cases h
  have ⟨free, old⟩ := inv.refs p
  have hn : n ≤ free.length := by
    by_contra hlt
    rw [BlockPool.getNewBlocks_error old (by omega)] at hget
    cases hget
  have ⟨q, hq, new, config⟩ := BlockPool.getNewBlocks_ok old hn
  rw [hq] at hget
  cases hget
  refine inv.setPool _ _ rfl config ⟨_, new.congr fun b _ => ?_⟩ (fun p' hp b => ?_) fun entry he => ?_
  · symm
    rw [refs_add _ rfl, count_refsOf, if_pos rfl]
  · rw [refs_add _ rfl, count_refsOf, if_neg hp, Nat.add_zero]
  · rcases Multiset.mem_add.mp he with he | he
    · exact inv.valid entry he
    · have ⟨hp, hb⟩ := mem_refsOf (mem_owned he)
      have hfree := (old.mem_free _).mp (mem_of_mem_take hb)
      rw [hp]
      exact ⟨hfree.1, hfree.2.1⟩

theorem touch_inv {s s' : PoolState} (inv : Inv s) (contract : s.Contract (.touch p holder blocks))
    (h : s.apply (.touch p holder blocks) = .ok s') : Inv s' := by
  have ⟨pool, htouch, h⟩ := bind_eq_ok.mp h
  cases h
  have ⟨free, old⟩ := inv.refs p
  have ⟨q, free', hq, new, config⟩ := BlockPool.touch_ok old contract
  rw [hq] at htouch
  cases htouch
  refine inv.setPool _ _ rfl config ⟨_, new.congr fun b hb => ?_⟩ (fun p' hp b => ?_) fun entry he => ?_
  · rw [config] at hb
    symm
    rw [refs_add _ rfl, count_live s _ hb, count_refsOf, if_pos rfl]
  · have none : (s.live (refsOf p blocks)).count ⟨p', b⟩ = 0 :=
      count_eq_zero_of_not_mem fun h => hp (mem_refsOf (mem_of_mem_filter h)).1
    rw [refs_add _ rfl, none, Nat.add_zero]
  · rcases Multiset.mem_add.mp he with he | he
    · exact inv.valid entry he
    · have hlive := mem_filter.mp (mem_owned he)
      have ⟨hp, hb⟩ := mem_refsOf hlive.1
      refine ⟨?_, by simpa using hlive.2⟩
      rw [hp]
      exact contract _ hb

theorem unpinBlocks_inv {s s' : PoolState} (inv : Inv s) {onReuse : Watcher}
    (contract : s.Contract (.unpinBlocks p holder blocks onReuse))
    (h : s.apply (.unpinBlocks p holder blocks onReuse) = .ok s') : Inv s' := by
  have ⟨pool, hunpin, h⟩ := bind_eq_ok.mp h
  cases h
  have ⟨free, old⟩ := inv.refs p
  have valid (b : BlockId) (hb : b ∈ blocks) :
      b < (s.pools p).numGpuBlocks ∧ b ≠ (s.pools p).nullBlock :=
    inv.valid (holder, ⟨p, b⟩) (Multiset.mem_of_le contract
      (Multiset.mem_coe.mpr (mem_map_of_mem (mem_map_of_mem hb))))
  have ⟨q, free', hq, new, config⟩ := BlockPool.unpinBlocks_ok old onReuse
    (fun b _ => by
      have := count_le_refs contract p b
      rwa [count_refsOf, if_pos rfl] at this)
    (fun b hb => (valid b hb).1) (fun b hb => (valid b hb).2)
  rw [hq] at hunpin
  cases hunpin
  refine inv.setPool _ _ rfl config ⟨_, new.congr fun b _ => ?_⟩ (fun p' hp b => ?_) fun entry he => ?_
  · symm
    rw [refs_sub rfl contract, count_refsOf, if_pos rfl]
  · rw [refs_sub rfl contract, count_refsOf, if_neg hp, Nat.sub_zero]
  · exact inv.valid entry (Multiset.mem_of_le (Multiset.sub_le_self _ _) he)

theorem freeBlocks_inv {s s' : PoolState} (inv : Inv s)
    (contract : s.Contract (.freeBlocks p holder xs))
    (h : s.apply (.freeBlocks p holder xs) = .ok s') : Inv s' := by
  have ⟨pools, hfree, h⟩ := bind_eq_ok.mp h
  cases h
  have ⟨pools', hfree', hQ⟩ := freeBlocks_ok
    (Q := fun p pool => (∃ free, pool.RefInv
        (fun b => s.refs p b - (BlockPools.ownBlocks p xs).count b) free) ∧
      pool.toBlockPoolConfig = (s.pools p).toBlockPoolConfig) s.pools p xs
    (fun p => by
      have ⟨free, old⟩ := inv.refs p
      have ⟨q, free', hq, new, config⟩ := BlockPool.freeOwnBlocks_ok old
        (BlockPools.ownBlocks p xs) (fun b hb => by
          rw [count_ownBlocks, ← count_live s xs hb]
          exact count_le_refs contract.2 p b)
        (fun b hb => by
          have hmem := count_pos_iff.mpr hb
          rw [count_ownBlocks] at hmem
          exact contract.1 _ (count_pos_iff.mp hmem))
      exact ⟨q, hq, ⟨free', new⟩, config⟩)
    (fun p hp => by
      have ⟨free, old⟩ := inv.refs p
      exact ⟨⟨free, old.congr fun b _ => by simp [hp]⟩, rfl⟩)
  rw [hfree'] at hfree
  cases hfree
  constructor
  · intro p
    have ⟨⟨free, new⟩, config⟩ := hQ p
    refine ⟨free, new.congr fun b hb => ?_⟩
    rw [config] at hb
    symm
    rw [refs_sub rfl contract.2, count_live s xs hb, count_ownBlocks]
  · intro entry he
    have := inv.valid entry (Multiset.mem_of_le (Multiset.sub_le_self _ _) he)
    rw [(hQ entry.2.pool).2]
    exact this

theorem step_inv {s s' : PoolState} {op : PoolOp} (inv : Inv s) (contract : s.Contract op)
    (h : s.apply op = .ok s') : Inv s' := by
  cases op with
  | getNewBlocks p holder n => exact getNewBlocks_inv inv h
  | touch p holder blocks => exact touch_inv inv contract h
  | freeBlocks p holder xs => exact freeBlocks_inv inv contract h
  | unpinBlocks p holder blocks onReuse => exact unpinBlocks_inv inv contract h
  | cacheFullBlocks =>
    have ⟨pool, hop, h⟩ := bind_eq_ok.mp h
    cases h
    exact inv.sameRefs rfl rfl (BlockPool.sameRefs_cacheFullBlocks hop)
  | cachePartialBlock =>
    have ⟨⟨key, pool⟩, hop, h⟩ := bind_eq_ok.mp h
    cases h
    exact inv.sameRefs rfl rfl (BlockPool.sameRefs_cachePartialBlock hop)
  | moveBlockHashes =>
    have ⟨pool, hop, h⟩ := bind_eq_ok.mp h
    cases h
    exact inv.sameRefs rfl rfl (BlockPool.sameRefs_moveBlockHashes hop)
  | evictBlocks =>
    have ⟨pool, hop, h⟩ := bind_eq_ok.mp h
    cases h
    exact inv.sameRefs rfl rfl (BlockPool.sameRefs_evictBlocks _ hop)
  | resetPrefixCache p =>
    cases h
    exact inv.sameRefs rfl rfl (BlockPool.sameRefs_resetPrefixCache _)
  | takeEvents p =>
    cases h
    exact inv.sameRefs rfl rfl (BlockPool.sameRefs_takeEvents _)

theorem reachable_inv (h : system.Reachable s) : Inv s := by
  refine h.invariant (fun s => init_inv) (fun s op s' _ inv hs => ?_)
  obtain ⟨contract, h⟩ := hs
  exact step_inv inv contract h

/-- The free queue of a pool is `free`, it agrees with the reference counts, and
allocation hands out blocks that nobody holds. -/
structure Accounted (s : PoolState) (p : PoolId) (free : List BlockId) : Prop where
  queue : (s.pools p).freeBlockQueue.Represents free
  mem_free : ∀ b < (s.pools p).numGpuBlocks, b ≠ (s.pools p).nullBlock →
    (b ∈ free ↔ ((s.pools p).blocks b).refCnt = 0)
  nodup : free.Nodup
  null : (s.pools p).nullBlock ∉ free
  total : (s.pools p).getNumFreeBlocks + ((List.range (s.pools p).numGpuBlocks).filter fun b =>
    b ≠ (s.pools p).nullBlock ∧ 0 < ((s.pools p).blocks b).refCnt).length + 1 =
      (s.pools p).numGpuBlocks
  succeeds : ∀ n : Nat, (∃ out, (s.pools p).getNewBlocks n = .ok out) ↔
    n ≤ (s.pools p).getNumFreeBlocks
  fresh : ∀ n ret pool, (s.pools p).getNewBlocks n = .ok (ret, pool) →
    ret.length = n ∧ ret.Nodup ∧ ∀ b ∈ ret, b ≠ (s.pools p).nullBlock ∧
      ∀ holder, (holder, ⟨p, b⟩) ∉ s.held

theorem not_held_of_free {free : List BlockId} {b : BlockId}
    (inv : (s.pools p).RefInv (s.refs p) free) (hb : b ∈ free) (holder : Holder) :
    (holder, ⟨p, b⟩) ∉ s.held := by
  have ⟨hlt, hn, hz⟩ := (inv.mem_free b).mp hb
  have none : s.refs p b = 0 := by
    have := inv.refCnt b hlt hn
    omega
  exact fun h => Multiset.countP_eq_zero.mp none _ h rfl

theorem reachable_accounted {s : PoolState} (h : system.Reachable s) (p : PoolId) :
    ∃ free, s.Accounted p free := by
  have ⟨free, inv⟩ := (reachable_inv h).refs p
  have error (n : Nat) (hn : free.length < n) (out : List BlockId × BlockPool) :
      (s.pools p).getNewBlocks n ≠ .ok out := by
    rw [BlockPool.getNewBlocks_error inv hn]
    exact fun h => nomatch h
  refine ⟨free, inv.queue, fun b hb hn => ?_, inv.queue.nodup, fun hnull => ?_, ?_, fun n => ?_,
    fun n ret pool hget => ?_⟩
  · rw [inv.mem_free]
    exact ⟨fun h => h.2.2, fun h => ⟨hb, hn, h⟩⟩
  · exact ((inv.mem_free _).mp hnull).2.1 rfl
  · rw [inv.numFree]
    exact_mod_cast inv.count
  · rw [inv.numFree]
    constructor
    · rintro ⟨out, hout⟩
      by_contra hlt
      exact error n (by omega) out hout
    · intro hn
      have ⟨q, hq, _⟩ := BlockPool.getNewBlocks_ok inv (n := n) (by omega)
      exact ⟨_, hq⟩
  · have hn : n ≤ free.length := by
      by_contra hlt
      exact error n (by omega) _ hget
    have ⟨q, hq, _⟩ := BlockPool.getNewBlocks_ok inv hn
    rw [hq] at hget
    cases hget
    refine ⟨by simp [hn], inv.queue.nodup.sublist (take_sublist n free), fun b hb => ?_⟩
    have hfree := mem_of_mem_take hb
    exact ⟨((inv.mem_free b).mp hfree).2.1, not_held_of_free inv hfree⟩

theorem sampleHash_pos : 0 < 16 := by decide

def samplePool : BlockPool :=
  (BlockPool.new 4 true ⟨16, sampleHash_pos, fun _ => [0], [1], id⟩ true false "GPU"
    .inserted).toOption.get rfl

def sample : PoolState := ⟨fun _ => samplePool, 0, fun _ => []⟩

theorem sample_initial : Initial sample :=
  ⟨fun _ => ⟨4, true, ⟨16, by decide, fun _ => [0], [1], id⟩, true, false, "GPU",
    ⟨id, fun _ => .refl _⟩, rfl⟩, rfl, fun _ => rfl⟩

def sampleTaken : PoolState := (sample.apply (.getNewBlocks 0 7 2)).toOption.get rfl

theorem sampleTaken_accounted : ∃ free, sampleTaken.Accounted 0 free :=
  reachable_accounted (.step (a := .getNewBlocks 0 7 2) (.init sample_initial) ⟨trivial, rfl⟩) 0

end PoolState

end VllmAmpere
