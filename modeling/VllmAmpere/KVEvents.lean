import Mathlib.Algebra.BigOperators.Group.Finset.Basic
import VllmAmpere.BlockPoolRefs

/-! The two prefix cache indexes of a pool as one relation between keys and blocks.
Removing and inserting keys are its only primitive changes. -/

open Function (update_of_ne update_self)

namespace VllmAmpere

namespace BlockPool

def keysOf (p : BlockPool) (b : BlockId) : List BlockHashWithGroupId :=
  (p.blocks b).blockHash.toList ++ (p.cachedBlockHashesByBlock b).getD []

/-- The forward and the reverse index describe one relation, in which only blocks
of the pool take part and secondary keys never stand without a primary one. -/
structure IndexInv (p : BlockPool) : Prop where
  agree : ∀ k b, b ∈ p.cachedBlockHashToBlock.blocks k ↔ k ∈ p.keysOf b
  nodup : ∀ b, (p.keysOf b).Nodup
  distinct : ∀ k, (p.cachedBlockHashToBlock.blocks k).Nodup
  primary : ∀ b, (p.blocks b).blockHash = none → (p.cachedBlockHashesByBlock b).getD [] = []
  inside : ∀ b, p.keysOf b ≠ [] → b < p.numGpuBlocks ∧ b ≠ p.nullBlock
  isNull : ∀ b, (p.blocks b).isNull = true ↔ b = p.nullBlock

variable {p q : BlockPool}

theorem IndexInv.keysOf_eq_nil (inv : IndexInv p) {b : BlockId}
    (h : (p.blocks b).blockHash = none) : p.keysOf b = [] := by
  rw [keysOf, h, inv.primary b h]
  rfl

theorem hashKeys_perm (p : BlockPool) (b : BlockId) : (p.hashKeys b).Perm (p.keysOf b) :=
  (p.setOrder.perm _).append_left _

/-- `q` is `p` with the keys of `b` replaced. -/
structure Rekeyed (p q : BlockPool) (b : BlockId) (keys : List BlockHashWithGroupId) : Prop where
  config : q.toBlockPoolConfig = p.toBlockPoolConfig
  isNull : ∀ c, (q.blocks c).isNull = (p.blocks c).isNull
  events : q.kvEventQueue = p.kvEventQueue
  self : q.keysOf b = keys
  other : ∀ c, c ≠ b → q.keysOf c = p.keysOf c

theorem popHashes_spec (b : BlockId) (keys : List BlockHashWithGroupId)
    (cache : BlockHashToBlockMap) (nodup : keys.Nodup) (all : ∀ k ∈ keys, b ∈ cache.blocks k) :
    (popHashes b keys cache).1 = keys ∧ ∀ k, (popHashes b keys cache).2.blocks k =
    if k ∈ keys then (cache.blocks k).erase b else cache.blocks k := by
  induction keys generalizing cache with
  | nil => exact ⟨rfl, fun _ => rfl⟩
  | cons key rest ih =>
    have hn := List.nodup_cons.mp nodup
    have stays (k : BlockHashWithGroupId) (hk : k ≠ key) :
        (cache.pop key b).2.blocks k = cache.blocks k := by
      rw [cache.blocks_pop, if_neg hk]
    have tail := ih (cache.pop key b).2 hn.2 fun k hk => by
      rw [stays k fun e => hn.1 (e ▸ hk)]
      exact all k (by simp [hk])
    simp only [popHashes]
    constructor
    · rw [cache.pop_fst, if_pos (all key (by simp)), tail.1]
      rfl
    · intro k
      rw [tail.2]
      by_cases hk : k = key
      · subst hk
        simp [hn.1, cache.blocks_pop]
      · simp [hk, stays k hk]

theorem removeCachedBlockHashes_spec (inv : IndexInv p) (b : BlockId) :
    (p.removeCachedBlockHashes b).1 = p.hashKeys b ∧ IndexInv (p.removeCachedBlockHashes b).2 ∧
    Rekeyed p (p.removeCachedBlockHashes b).2 b [] := by
  have perm := hashKeys_perm p b
  have spec := popHashes_spec b (p.hashKeys b) p.cachedBlockHashToBlock
    (perm.nodup_iff.mpr (inv.nodup b))
    (fun k hk => (inv.agree k b).mpr (perm.mem_iff.mp hk))
  obtain ⟨q, hq⟩ : ∃ q, q = (p.removeCachedBlockHashes b).2 := ⟨_, rfl⟩
  have cache (k : BlockHashWithGroupId) : q.cachedBlockHashToBlock.blocks k =
      if k ∈ p.keysOf b then (p.cachedBlockHashToBlock.blocks k).erase b
      else p.cachedBlockHashToBlock.blocks k := by
    rw [hq]
    simp only [removeCachedBlockHashes]
    split
    · rename_i hnil
      rw [hnil] at perm
      simp [List.nil_perm.mp perm]
    · simp only [setBlock, spec.2, perm.mem_iff]
  have rekeyed : Rekeyed p q b [] := by
    rw [hq]
    simp only [removeCachedBlockHashes]
    split
    · rename_i hnil
      rw [hnil] at perm
      have hold := List.nil_perm.mp perm
      have hash : (p.blocks b).blockHash = none := by
        rw [keysOf, List.append_eq_nil_iff] at hold
        simpa using hold.1
      refine ⟨rfl, fun _ => rfl, rfl, ?_, fun c hc => ?_⟩
      · simp [keysOf, hash]
      · simp [keysOf, update_of_ne hc]
    · refine ⟨rfl, fun c => ?_, rfl, ?_, fun c hc => ?_⟩
      · rw [setBlock_blocks]
        split <;> simp [*, KVCacheBlock.resetHash]
      · simp [keysOf, setBlock, KVCacheBlock.resetHash]
      · simp [keysOf, setBlock, update_of_ne hc]
  have primary (c : BlockId) : (q.blocks c).blockHash = none →
      (q.cachedBlockHashesByBlock c).getD [] = [] := by
    intro hc
    by_cases hb : c = b
    · have := rekeyed.self
      rw [keysOf, List.append_eq_nil_iff] at this
      rw [hb]
      exact this.2
    · have same := rekeyed.other c hb
      have old : (q.cachedBlockHashesByBlock c).getD [] =
          (p.cachedBlockHashesByBlock c).getD [] := by
        rw [hq]
        simp only [removeCachedBlockHashes]
        split <;> simp [setBlock, update_of_ne hb]
      rw [keysOf, keysOf, hc, old, Option.toList_none, List.nil_append] at same
      rw [old]
      cases hp : (p.blocks c).blockHash with
      | none => exact inv.primary c hp
      | some k => simp [hp] at same
  refine ⟨?_, hq ▸ ⟨fun k c => ?_, fun c => ?_, fun k => ?_, primary, fun c hc => ?_, fun c => ?_⟩,
    hq ▸ rekeyed⟩
  · simp only [removeCachedBlockHashes]
    split
    · rename_i hnil
      exact hnil.symm
    · exact spec.1
  · rw [cache]
    by_cases hcb : c = b
    · subst hcb
      rw [rekeyed.self]
      split
      · simp [(inv.distinct k).mem_erase_iff]
      · rename_i hk
        rw [inv.agree]
        simp [hk]
    · have same := rekeyed.other c hcb
      have old := inv.agree k c
      rw [same]
      split
      · rw [(inv.distinct k).mem_erase_iff, old]
        simp [hcb]
      · exact old
  · by_cases hcb : c = b
    · rw [hcb, rekeyed.self]
      exact List.nodup_nil
    · rw [rekeyed.other c hcb]
      exact inv.nodup c
  · rw [cache]
    split
    · exact (inv.distinct k).erase b
    · exact inv.distinct k
  · rw [rekeyed.config]
    by_cases hcb : c = b
    · rw [hcb] at hc
      exact absurd rekeyed.self hc
    · rw [rekeyed.other c hcb] at hc
      exact inv.inside c hc
  · rw [rekeyed.isNull, rekeyed.config]
    exact inv.isNull c

theorem insertBlockHash_spec (inv : IndexInv p) {key : BlockHashWithGroupId} {b : BlockId}
    {numTokens : Option Nat} (hb : b < p.numGpuBlocks ∧ b ≠ p.nullBlock)
    (h : p.insertBlockHash key b numTokens = .ok q) : IndexInv q ∧
    Rekeyed p q b (if key ∈ p.keysOf b then p.keysOf b else p.keysOf b ++ [key]) := by
  have present : key ∈ p.keysOf b → p = q → IndexInv q ∧
      Rekeyed p q b (if key ∈ p.keysOf b then p.keysOf b else p.keysOf b ++ [key]) := by
    rintro hk rfl
    rw [if_pos hk]
    exact ⟨inv, rfl, fun _ => rfl, rfl, rfl, fun _ _ => rfl⟩
  unfold insertBlockHash at h
  split at h
  · rename_i hash
    exact present (by simp [keysOf, hash]) (Except.ok.inj h)
  · split at h
    · rename_i hc
      exact present ((inv.agree key b).mp ((p.cachedBlockHashToBlock.contain_iff key b).mp hc))
        (Except.ok.inj h)
    · rename_i hc
      have absent : key ∉ p.keysOf b := by
        rw [← inv.agree, ← BlockHashToBlockMap.contain_iff]
        exact hc
      rw [if_neg absent]
      obtain ⟨r, hr, hq⟩ := bind_eq_ok.mp h
      have recorded := recordHash_spec inv absent hr
      have cache : q.cachedBlockHashToBlock = p.cachedBlockHashToBlock.insert key b := by
        rw [← Except.ok.inj hq, ← recorded.2.2]
      have rekeyed : Rekeyed p q b (p.keysOf b ++ [key]) := by
        rw [← Except.ok.inj hq]
        exact ⟨recorded.1.config, recorded.1.isNull, recorded.1.events, recorded.1.self,
          recorded.1.other⟩
      have primary (c : BlockId) : (q.blocks c).blockHash = none →
          (q.cachedBlockHashesByBlock c).getD [] = [] := by
        rw [← Except.ok.inj hq]
        exact recorded.2.1 c
      refine ⟨⟨fun k c => ?_, fun c => ?_, fun k => ?_, primary, fun c hc => ?_, fun c => ?_⟩,
        rekeyed⟩
      · rw [cache, BlockHashToBlockMap.blocks_insert]
        have old := inv.agree k c
        have fresh : b ∉ p.cachedBlockHashToBlock.blocks key := fun h =>
          absent ((inv.agree key b).mp h)
        by_cases hcb : c = b
        · subst hcb
          rw [rekeyed.self, List.mem_append, List.mem_singleton]
          by_cases hk : k = key
          · subst hk
            simp [fresh]
          · simp [hk, old]
        · rw [rekeyed.other c hcb]
          by_cases hk : k = key
          · subst hk
            simp [fresh, hcb, old]
          · simp [hk, old]
      · by_cases hcb : c = b
        · rw [hcb, rekeyed.self]
          exact List.nodup_append.mpr ⟨inv.nodup b, List.nodup_singleton _, by
            intro k hk j hj e
            rw [List.mem_singleton] at hj
            exact absent (hj ▸ e ▸ hk)⟩
        · rw [rekeyed.other c hcb]
          exact inv.nodup c
      · rw [cache, BlockHashToBlockMap.blocks_insert]
        split
        · rename_i hk
          exact List.nodup_append.mpr ⟨inv.distinct key, List.nodup_singleton _, by
            intro c hc d hd e
            rw [List.mem_singleton] at hd
            exact hk.2 (hd ▸ e ▸ hc)⟩
        · exact inv.distinct k
      · rw [rekeyed.config]
        by_cases hcb : c = b
        · exact hcb ▸ hb
        · rw [rekeyed.other c hcb] at hc
          exact inv.inside c hc
      · rw [rekeyed.isNull, rekeyed.config]
        exact inv.isNull c
where
  recordHash_spec {r : BlockPool} (inv : IndexInv p) (absent : key ∉ p.keysOf b)
      (h : p.recordHash key b numTokens = .ok r) :
      Rekeyed p r b (p.keysOf b ++ [key]) ∧
        (∀ c, (r.blocks c).blockHash = none → (r.cachedBlockHashesByBlock c).getD [] = []) ∧
        r.cachedBlockHashToBlock = p.cachedBlockHashToBlock := by
    unfold recordHash at h
    split at h
    · rename_i hash
      have ⟨block, hset, h⟩ := bind_eq_ok.mp h
      have ⟨_, _, hset⟩ := bind_eq_ok.mp hset
      cases hset
      cases h
      refine ⟨⟨rfl, fun c => ?_, rfl, ?_, fun c hc => ?_⟩, fun c hc => ?_, rfl⟩
      · rw [setBlock_blocks]
        split <;> simp [*]
      · rw [inv.keysOf_eq_nil hash]
        simp [keysOf, setBlock, inv.primary b hash]
      · simp [keysOf, setBlock, update_of_ne hc]
      · rw [setBlock_blocks] at hc
        split at hc
        · cases hc
        · exact inv.primary c hc
    · rename_i k hash
      cases h
      have new : key ∉ (p.cachedBlockHashesByBlock b).getD [] := fun h =>
        absent (List.mem_append_right _ h)
      refine ⟨⟨rfl, fun _ => rfl, rfl, ?_, fun c hc => ?_⟩, fun c hc => ?_, rfl⟩
      · simp only [keysOf, update_self, Option.getD_some, if_neg new, List.append_assoc]
      · simp [keysOf, update_of_ne hc]
      · have hcb : c ≠ b := by
          rintro rfl
          rw [hash] at hc
          cases hc
        simp only [update_of_ne hcb]
        exact inv.primary c hc

end BlockPool

/-! KV events against the prefix cache: what the events of an operation say about
a key is what the operation did to the blocks registered under it. -/

open Finset

variable (hash : ExternalBlockHash) (group : Nat)

/-- Blocks an event adds to (or takes from) a published hash of a group. -/
def KVCacheEvent.delta : KVCacheEvent → Int
  | .blockStored event => if event.groupIdx = group then event.blockHashes.count hash else 0
  | .blockRemoved event => if event.groupIdx = group then -event.blockHashes.count hash else 0
  | .allBlocksCleared => 0

def publishedAs (useInt : Bool) (hash : ExternalBlockHash) (group : Nat)
    (key : BlockHashWithGroupId) : Bool :=
  maybeConvertBlockHash useInt key.blockHash = hash ∧ key.groupId = group

theorem delta_stored (useInt : Bool) (hash : ExternalBlockHash) (group : Nat)
    (event : BlockStored) (hashes : List BlockHash)
    (h : event.blockHashes = hashes.map (maybeConvertBlockHash useInt)) :
    (KVCacheEvent.blockStored event).delta hash group =
    ((hashes.map (BlockHashWithGroupId.mk · event.groupIdx)).countP
    (publishedAs useInt hash group) : Int) := by
  simp only [KVCacheEvent.delta, h, List.count_eq_countP, List.countP_map]
  split
  · congr 1
    refine List.countP_congr fun x _ => ?_
    simp [publishedAs, *]
  · rename_i hg
    rw [eq_comm, Int.natCast_eq_zero, List.countP_eq_zero]
    intro x _
    simp [publishedAs, hg]

theorem delta_removed (useInt : Bool) (hash : ExternalBlockHash) (group : Nat) (medium : String)
    (keys : List BlockHashWithGroupId) : ((keys.map fun key => KVCacheEvent.blockRemoved
    ⟨[maybeConvertBlockHash useInt key.blockHash], medium, key.groupId⟩).map
    (KVCacheEvent.delta hash group)).sum =
    -(keys.countP (publishedAs useInt hash group) : Int) := by
  induction keys with
  | nil => rfl
  | cons key keys ih =>
    rw [List.map_cons, List.map_cons, List.sum_cons, ih, List.countP_cons]
    simp only [KVCacheEvent.delta, publishedAs, List.count_singleton, beq_iff_eq]
    by_cases hg : key.groupId = group <;>
      by_cases hh : maybeConvertBlockHash useInt key.blockHash = hash <;> simp [hg, hh]

namespace BlockPool

variable {p q r : BlockPool}

/-- Registrations under the keys that `P` selects, over all blocks of the pool. -/
def registrations (p : BlockPool) (P : BlockHashWithGroupId → Bool) : Nat :=
  ∑ b ∈ range p.numGpuBlocks, (p.keysOf b).countP P

theorem registrations_congr (size : q.numGpuBlocks = p.numGpuBlocks)
    (keys : ∀ b, q.keysOf b = p.keysOf b) (P : BlockHashWithGroupId → Bool) :
    q.registrations P = p.registrations P := by
  unfold registrations
  rw [size]
  exact sum_congr rfl fun b _ => by rw [keys]

variable {b : BlockId}

theorem Rekeyed.registrations {keys : List BlockHashWithGroupId}
    (h : Rekeyed p q b keys) (hb : b < p.numGpuBlocks) (P : BlockHashWithGroupId → Bool) :
    q.registrations P + (p.keysOf b).countP P = p.registrations P + keys.countP P := by
  have size : q.numGpuBlocks = p.numGpuBlocks := by rw [h.config]
  have split (r : BlockPool) : (r.keysOf b).countP P +
      ∑ c ∈ (range p.numGpuBlocks).erase b, (r.keysOf c).countP P =
      ∑ c ∈ range p.numGpuBlocks, (r.keysOf c).countP P :=
    add_sum_erase _ (fun c => (r.keysOf c).countP P) (mem_range.mpr hb)
  have rest : ∑ c ∈ (range p.numGpuBlocks).erase b, (q.keysOf c).countP P =
      ∑ c ∈ (range p.numGpuBlocks).erase b, (p.keysOf c).countP P :=
    sum_congr rfl fun c hc => by rw [h.other c (ne_of_mem_erase hc)]
  rw [BlockPool.registrations, BlockPool.registrations, size, ← split q, ← split p, rest, h.self]
  omega

/-- From `p` to `q` the events account for every registration gained or lost but
for `owed`, which no event has reported yet. -/
structure Tracks (p q : BlockPool) (owed : (BlockHashWithGroupId → Bool) → Int) : Prop where
  config : q.toBlockPoolConfig = p.toBlockPoolConfig
  inv : IndexInv q
  events : p.enableKvCacheEvents = true → ∃ new, q.kvEventQueue = p.kvEventQueue ++ new ∧
    .allBlocksCleared ∉ new ∧ ∀ hash group,
      (q.registrations (publishedAs p.useIntBlockHashes hash group) : Int) =
        p.registrations (publishedAs p.useIntBlockHashes hash group) +
          (new.map (KVCacheEvent.delta hash group)).sum +
          owed (publishedAs p.useIntBlockHashes hash group)

theorem Tracks.refl (inv : IndexInv p) : Tracks p p 0 :=
  ⟨rfl, inv, fun _ => ⟨[], by simp, by simp, fun _ _ => by simp⟩⟩

theorem Tracks.trans {owed owed' : (BlockHashWithGroupId → Bool) → Int} (h : Tracks p q owed)
    (k : Tracks q r owed') : Tracks p r (owed + owed') where
  config := k.config.trans h.config
  inv := k.inv
  events enabled := by
    obtain ⟨new, hq, hc, hsum⟩ := h.events enabled
    have kevents := k.events
    rw [h.config] at kevents
    obtain ⟨new', hq', hc', hsum'⟩ := kevents enabled
    refine ⟨new ++ new', by rw [hq', hq, List.append_assoc], by simp [hc, hc'], fun e g => ?_⟩
    rw [hsum', hsum, List.map_append, List.sum_append, Pi.add_apply]
    omega

theorem Tracks.congr {owed owed' : (BlockHashWithGroupId → Bool) → Int} (h : Tracks p q owed)
    (same : ∀ P, owed P = owed' P) : Tracks p q owed' := by
  have e : owed = owed' := funext same
  rwa [← e]

theorem Tracks.of_keys (inv : IndexInv q) (config : q.toBlockPoolConfig = p.toBlockPoolConfig)
    (queue : q.kvEventQueue = p.kvEventQueue) (keys : ∀ b, q.keysOf b = p.keysOf b) :
    Tracks p q 0 :=
  ⟨config, inv, fun _ => ⟨[], by simp [queue], by simp, fun e g => by
    rw [registrations_congr (by rw [config]) keys]
    simp⟩⟩

theorem Rekeyed.tracks {keys : List BlockHashWithGroupId} (h : Rekeyed p q b keys)
    (inv : IndexInv p) (inv' : IndexInv q) :
    Tracks p q fun P => keys.countP P - (p.keysOf b).countP P :=
  ⟨h.config, inv', fun _ => ⟨[], by simp [h.events], by simp, fun e g => by
    simp only [List.map_nil, List.sum_nil]
    by_cases hb : b < p.numGpuBlocks
    · have := h.registrations hb (publishedAs p.useIntBlockHashes e g)
      omega
    · have old : p.keysOf b = [] := by
        by_contra hne
        exact hb (inv.inside b hne).1
      have new : keys = [] := by
        by_contra hne
        have := (inv'.inside b (by rw [h.self]; exact hne)).1
        rw [h.config] at this
        exact hb this
      have all (c : BlockId) : q.keysOf c = p.keysOf c := by
        by_cases hc : c = b
        · rw [hc, h.self, old, new]
        · exact h.other c hc
      rw [registrations_congr (by rw [h.config]) all, old, new]
      simp⟩⟩

theorem emit_spec (keys : List BlockHashWithGroupId) (inv : IndexInv p) :
    Tracks p (p.emitBlockRemovedEvents keys) (fun P => keys.countP P) ∧
    ∀ b, (p.emitBlockRemovedEvents keys).keysOf b = p.keysOf b := by
  unfold emitBlockRemovedEvents
  split
  · refine ⟨⟨rfl, ?_, fun _ => ⟨_, rfl, by simp, fun e g => ?_⟩⟩, fun _ => rfl⟩
    · exact ⟨inv.agree, inv.nodup, inv.distinct, inv.primary, inv.inside, inv.isNull⟩
    · rw [delta_removed]
      refine (congrArg Nat.cast (registrations_congr (p := p) rfl (fun _ => rfl) _)).trans ?_
      omega
  · rename_i off
    exact ⟨⟨rfl, inv, fun on => absurd on off⟩, fun _ => rfl⟩

theorem evictHashes_spec (inv : IndexInv p) (b : BlockId) : Tracks p (p.evictHashes b) 0 ∧
    ∀ c, (p.evictHashes b).keysOf c = if c = b then [] else p.keysOf c := by
  have ⟨hkeys, inv', rekeyed⟩ := removeCachedBlockHashes_spec inv b
  have ⟨emitted, same⟩ := emit_spec (p.removeCachedBlockHashes b).1 inv'
  refine ⟨((rekeyed.tracks inv inv').trans emitted).congr fun P => ?_, fun c => ?_⟩
  · rw [hkeys, Pi.add_apply, (hashKeys_perm p b).countP_eq]
    simp
  · simp only [evictHashes]
    rw [same]
    split
    · rename_i hc
      rw [hc, rekeyed.self]
    · rename_i hc
      exact rekeyed.other c hc

theorem Tracks.disabled {owed : (BlockHashWithGroupId → Bool) → Int} (h : Tracks p q owed)
    (off : ¬ p.enableKvCacheEvents = true) : Tracks p q 0 :=
  ⟨h.config, h.inv, fun on => absurd on off⟩

theorem tracks_stored (inv : IndexInv p) {event : BlockStored} (hashes : List BlockHash)
    (h : event.blockHashes = hashes.map (maybeConvertBlockHash p.useIntBlockHashes)) :
    Tracks p { p with kvEventQueue := p.kvEventQueue ++ [.blockStored event] }
      fun P => -((hashes.map (BlockHashWithGroupId.mk · event.groupIdx)).countP P : Int) := by
  refine ⟨rfl, ⟨inv.agree, inv.nodup, inv.distinct, inv.primary, inv.inside, inv.isNull⟩,
    fun _ => ⟨_, rfl, by simp, fun e g => ?_⟩⟩
  refine (congrArg Nat.cast (registrations_congr (p := p) rfl (fun _ => rfl) _)).trans ?_
  rw [List.map_singleton, List.sum_singleton, delta_stored p.useIntBlockHashes e g event hashes h]
  omega

theorem insertBlockHash_tracks (inv : IndexInv p) {key : BlockHashWithGroupId}
    {numTokens : Option Nat} (hb : b < p.numGpuBlocks ∧ b ≠ p.nullBlock)
    (h : p.insertBlockHash key b numTokens = .ok q) :
    Tracks p q fun P => if key ∈ p.keysOf b then 0 else [key].countP P := by
  have ⟨inv', rekeyed⟩ := insertBlockHash_spec inv hb h
  refine (rekeyed.tracks inv inv').congr fun P => ?_
  split
  · omega
  · rw [List.countP_append]
    push_cast
    omega

theorem cacheFullBlock_tracks (inv : IndexInv p) {key : BlockHashWithGroupId}
    {numHashTokens : Nat} (hb : b < p.numGpuBlocks ∧ b ≠ p.nullBlock)
    (h : p.cacheFullBlock b key numHashTokens = .ok q) : Tracks p q fun P => [key].countP P := by
  obtain ⟨r, hr, hq⟩ := bind_eq_ok.mp h
  have cleared : Tracks p r 0 ∧ r.keysOf b = [] := by
    split at hr
    · obtain ⟨_, _, hr⟩ := bind_eq_ok.mp hr
      cases hr
      obtain ⟨tracks, keys⟩ := evictHashes_spec inv b
      exact ⟨tracks, by rw [keys, if_pos rfl]⟩
    · rename_i hash
      cases hr
      refine ⟨.refl inv, inv.keysOf_eq_nil ?_⟩
      simpa using hash
  have hb' : b < r.numGpuBlocks ∧ b ≠ r.nullBlock := by
    rw [cleared.1.config]
    exact hb
  refine (cleared.1.trans (insertBlockHash_tracks cleared.1.inv hb' hq)).congr fun P => ?_
  rw [cleared.2]
  simp

theorem cacheFullLoop_tracks {hashes : List BlockHash} {mask : Option (List Bool)}
    {numCached blockSize group : Nat} (blocks : List BlockId) (i : Nat) {new : List BlockHash}
    (inv : IndexInv p) (valid : ∀ b ∈ blocks, b < p.numGpuBlocks)
    (h : cacheFullLoop hashes mask numCached blockSize group blocks i p = .ok (new, q)) :
    Tracks p q fun P => (new.map (BlockHashWithGroupId.mk · group)).countP P := by
  induction blocks generalizing i p new with
  | nil =>
    cases h
    exact (Tracks.refl inv).congr fun P => by simp
  | cons blk rest ih =>
    unfold cacheFullLoop at h
    split at h
    · exact ih (i + 1) inv (fun b hb => valid b (by simp [hb])) h
    · rename_i skipped
      obtain ⟨hash, _, h⟩ := bind_eq_ok.mp h
      obtain ⟨r, hr, h⟩ := bind_eq_ok.mp h
      obtain ⟨⟨tail, s⟩, hs, h⟩ := bind_eq_ok.mp h
      cases h
      have nonnull : blk ≠ p.nullBlock := by
        rw [ne_eq, ← inv.isNull]
        simp only [Bool.or_eq_true, not_or] at skipped
        exact skipped.1
      have one := cacheFullBlock_tracks inv ⟨valid blk (by simp), nonnull⟩ hr
      have more := ih (i + 1) one.inv (fun b hb => by
        rw [one.config]
        exact valid b (by simp [hb])) hs
      refine (one.trans more).congr fun P => ?_
      simp only [Pi.add_apply, List.map_cons, List.countP_cons, List.countP_nil]
      push_cast
      omega

variable {request : Request} {blocks : List BlockId}

theorem cacheFullBlocks_tracks
    {numCached numFull blockSize group : Nat} {mask : Option (List Bool)} (inv : IndexInv p)
    (valid : ∀ b ∈ blocks, b < p.numGpuBlocks)
    (h : p.cacheFullBlocks request blocks numCached numFull blockSize group mask = .ok q) :
    Tracks p q 0 := by
  unfold cacheFullBlocks at h
  split at h
  · cases h
    exact .refl inv
  · obtain ⟨_, _, h⟩ := bind_eq_ok.mp h
    obtain ⟨_, _, h⟩ := bind_eq_ok.mp h
    obtain ⟨⟨new, r⟩, hr, h⟩ := bind_eq_ok.mp h
    have stored := cacheFullLoop_tracks _ _ inv
      (fun b hb => valid b (List.mem_of_mem_take (List.mem_of_mem_drop hb))) hr
    simp only at h
    split at h
    · obtain ⟨_, _, h⟩ := bind_eq_ok.mp h
      obtain ⟨_, _, h⟩ := bind_eq_ok.mp h
      cases h
      refine (stored.trans (tracks_stored stored.inv new rfl)).congr fun P => ?_
      simp [buildBlockStoredEvent]
    · rename_i off
      cases h
      rw [stored.config] at off
      exact stored.disabled off

theorem partialBlockStored_eq {blockHash : BlockHash} {numTokens group : Nat}
    {event : BlockStored} (h : p.partialBlockStored request blockHash numTokens group = .ok event) :
    event.blockHashes = [blockHash].map (maybeConvertBlockHash p.useIntBlockHashes) ∧
    event.groupIdx = group := by
  have ⟨_, _, h⟩ := bind_eq_ok.mp h
  cases h
  exact ⟨rfl, rfl⟩

theorem cachePartialBlock_tracks
    {numTokens group blockSize : Nat} {replace : Bool} {out : Option BlockHashWithGroupId}
    (inv : IndexInv p) (hb : b < p.numGpuBlocks)
    (h : p.cachePartialBlock request b numTokens group blockSize replace = .ok (out, q)) :
    Tracks p q 0 := by
  unfold cachePartialBlock at h
  split at h
  · cases h
    exact .refl inv
  · rename_i live
    have nonnull : b < p.numGpuBlocks ∧ b ≠ p.nullBlock :=
      ⟨hb, by rw [ne_eq, ← inv.isNull]; exact live⟩
    obtain ⟨_, _, h⟩ := bind_eq_ok.mp h
    obtain ⟨_, _, h⟩ := bind_eq_ok.mp h
    obtain ⟨hash, _, h⟩ := bind_eq_ok.mp h
    obtain ⟨r, hr, h⟩ := bind_eq_ok.mp h
    have known : ((p.blocks b).blockHash == some ⟨hash, group⟩ ||
        p.cachedBlockHashToBlock.contain ⟨hash, group⟩ b) = true ↔ ⟨hash, group⟩ ∈ p.keysOf b := by
      rw [← inv.agree, ← BlockHashToBlockMap.contain_iff, Bool.or_eq_true, beq_iff_eq]
      refine or_iff_right_of_imp fun hash => ?_
      rw [BlockHashToBlockMap.contain_iff, inv.agree]
      simp [keysOf, hash]
    generalize hac : (!replace && ((p.blocks b).blockHash == some ⟨hash, group⟩ ||
      p.cachedBlockHashToBlock.contain ⟨hash, group⟩ b)) = alreadyCached at hr h
    -- the key is new for the block exactly when it was not cached already
    have inserted : Tracks p r fun P =>
        if alreadyCached then 0 else [(⟨hash, group⟩ : BlockHashWithGroupId)].countP P := by
      split at hr
      · rename_i evict
        have fresh : alreadyCached = false := by
          cases replace <;> cases alreadyCached <;> simp_all
        obtain ⟨tracks, keys⟩ := evictHashes_spec inv b
        have nonnull' : b < (p.evictHashes b).numGpuBlocks ∧ b ≠ (p.evictHashes b).nullBlock := by
          rw [tracks.config]
          exact nonnull
        refine (tracks.trans (insertBlockHash_tracks tracks.inv nonnull' hr)).congr fun P => ?_
        simp [keys, fresh]
      · rename_i keep
        have same : alreadyCached = true ↔ ⟨hash, group⟩ ∈ p.keysOf b := by
          cases replace
          · rw [← hac, Bool.not_false, Bool.true_and]
            exact known
          · simp at keep
        refine (insertBlockHash_tracks inv nonnull hr).congr fun P => ?_
        simp only [same]
    split at h
    · rename_i due
      obtain ⟨event, he, h⟩ := bind_eq_ok.mp h
      cases h
      obtain ⟨hashes, hgroup⟩ := partialBlockStored_eq he
      refine (inserted.trans (tracks_stored inserted.inv _ hashes)).congr fun P => ?_
      simp only [Bool.and_eq_true, Bool.not_eq_true'] at due
      simp [due.2, hgroup]
    · rename_i notDue
      cases h
      by_cases on : p.enableKvCacheEvents = true
      · rw [inserted.config, on, Bool.true_and, Bool.not_eq_true', Bool.not_eq_false] at notDue
        exact inserted.congr fun P => if_pos notDue
      · exact inserted.disabled on

theorem insertHashes_tracks {dst : BlockId} {numTokens : Option Nat}
    (keys : List BlockHashWithGroupId) (inv : IndexInv p) (nodup : keys.Nodup)
    (apart : ∀ k ∈ keys, k ∉ p.keysOf dst) (hd : dst < p.numGpuBlocks ∧ dst ≠ p.nullBlock)
    (h : insertHashes dst numTokens keys p = .ok q) : Tracks p q fun P => keys.countP P := by
  induction keys generalizing p with
  | nil =>
    cases h
    exact (Tracks.refl inv).congr fun P => by simp
  | cons key rest ih =>
    have ⟨r, hr, h⟩ := bind_eq_ok.mp h
    have hn := List.nodup_cons.mp nodup
    have one := insertBlockHash_tracks inv hd hr
    have ⟨inv', rekeyed⟩ := insertBlockHash_spec inv hd hr
    have more := ih inv' hn.2 (fun k hk => by
      rw [rekeyed.self, if_neg (apart key (by simp)), List.mem_append, List.mem_singleton, not_or]
      exact ⟨apart k (by simp [hk]), fun e => hn.1 (e ▸ hk)⟩)
      (by rw [rekeyed.config]; exact hd) h
    refine (one.trans more).congr fun P => ?_
    simp only [Pi.add_apply, if_neg (apart key (by simp)), List.countP_cons, List.countP_nil]
    push_cast
    omega

theorem moveBlockHashes_tracks {src dst : BlockId} (inv : IndexInv p)
    (hd : dst < p.numGpuBlocks ∧ dst ≠ p.nullBlock)
    (h : p.moveBlockHashes src dst = .ok q) : Tracks p q 0 := by
  have ⟨_, hash, h⟩ := bind_eq_ok.mp h
  have ⟨_, _, h⟩ := bind_eq_ok.mp h
  have none := inv.keysOf_eq_nil (pyAssert_ok.mp hash)
  have ⟨hkeys, inv', rekeyed⟩ := removeCachedBlockHashes_spec inv src
  have perm := hashKeys_perm p src
  have empty : (p.removeCachedBlockHashes src).2.keysOf dst = [] := by
    by_cases hs : dst = src
    · rw [hs, rekeyed.self]
    · rw [rekeyed.other dst hs, none]
  have moved := insertHashes_tracks (p.removeCachedBlockHashes src).1 inv'
    (by rw [hkeys, perm.nodup_iff]; exact inv.nodup src) (fun k _ => by simp [empty])
    (by rw [rekeyed.config]; exact hd) h
  refine ((rekeyed.tracks inv inv').trans moved).congr fun P => ?_
  rw [Pi.add_apply, hkeys, perm.countP_eq]
  simp

theorem evictBlocks_tracks (ids : List BlockId) (inv : IndexInv p)
    (h : evictBlocks ids p = .ok q) : Tracks p q 0 := by
  induction ids generalizing p with
  | nil =>
    cases h
    exact .refl inv
  | cons b rest ih =>
    obtain ⟨_, _, h⟩ := bind_eq_ok.mp h
    rw [maybeEvict_eq] at h
    obtain ⟨tracks, _⟩ := evictHashes_spec inv b
    exact (tracks.trans (ih tracks.inv h)).congr fun P => by simp

/-- Neither index, no event and no null flag changed. -/
structure SameIndex (p q : BlockPool) : Prop where
  config : q.toBlockPoolConfig = p.toBlockPoolConfig
  cache : q.cachedBlockHashToBlock = p.cachedBlockHashToBlock
  byBlock : q.cachedBlockHashesByBlock = p.cachedBlockHashesByBlock
  events : q.kvEventQueue = p.kvEventQueue
  hash : ∀ b, (q.blocks b).blockHash = (p.blocks b).blockHash
  isNull : ∀ b, (q.blocks b).isNull = (p.blocks b).isNull

theorem SameIndex.refl (p : BlockPool) : SameIndex p p :=
  ⟨rfl, rfl, rfl, rfl, fun _ => rfl, fun _ => rfl⟩

theorem SameIndex.trans (h : SameIndex p q) (k : SameIndex q r) : SameIndex p r :=
  ⟨k.config.trans h.config, k.cache.trans h.cache, k.byBlock.trans h.byBlock,
    k.events.trans h.events, fun b => (k.hash b).trans (h.hash b),
    fun b => (k.isNull b).trans (h.isNull b)⟩

theorem SameIndex.keysOf (h : SameIndex p q) (b : BlockId) : q.keysOf b = p.keysOf b := by
  rw [BlockPool.keysOf, BlockPool.keysOf, h.hash, h.byBlock]

theorem SameIndex.tracks (h : SameIndex p q) (inv : IndexInv p) : Tracks p q 0 := by
  refine .of_keys ⟨fun k b => ?_, fun b => ?_, fun k => ?_, fun b hb => ?_, fun b hb => ?_,
    fun b => ?_⟩ h.config h.events h.keysOf
  · rw [h.cache, h.keysOf]
    exact inv.agree k b
  · rw [h.keysOf]
    exact inv.nodup b
  · rw [h.cache]
    exact inv.distinct k
  · rw [h.hash] at hb
    rw [h.byBlock]
    exact inv.primary b hb
  · rw [h.keysOf] at hb
    rw [h.config]
    exact inv.inside b hb
  · rw [h.isNull, h.config]
    exact inv.isNull b

theorem sameIndex_setRefCnt (p : BlockPool) (b : BlockId) (n : Int) :
    SameIndex p (p.setBlock b { p.blocks b with refCnt := n }) := by
  refine ⟨rfl, rfl, rfl, rfl, fun c => ?_, fun c => ?_⟩ <;> rw [setBlock_blocks] <;> split <;>
    simp [*]

theorem sameIndex_queue (p : BlockPool) (queue : FreeKVCacheBlockQueue) :
    SameIndex p { p with freeBlockQueue := queue } :=
  ⟨rfl, rfl, rfl, rfl, fun _ => rfl, fun _ => rfl⟩

theorem sameIndex_notifyReuse (p : BlockPool) (blocks : List BlockId) :
    SameIndex p (p.notifyReuse blocks) := by
  unfold notifyReuse
  induction blocks generalizing p with
  | nil => exact .refl p
  | cons b rest ih =>
    refine SameIndex.trans ?_ (ih _)
    exact ⟨rfl, rfl, rfl, rfl, fun _ => rfl, fun _ => rfl⟩

theorem sameIndex_touch (blocks : List BlockId) (h : touch blocks p = .ok q) : SameIndex p q := by
  induction blocks generalizing p with
  | nil =>
    cases h
    exact .refl _
  | cons b rest ih =>
    have ⟨queue, _, h⟩ := bind_eq_ok.mp h
    exact ((sameIndex_queue p queue).trans (sameIndex_setRefCnt _ b _)).trans (ih h)

theorem sameIndex_freeLoop (blocks : List BlockId) (p : BlockPool) :
    SameIndex p (freeLoop blocks p).2 := by
  induction blocks generalizing p with
  | nil => exact .refl p
  | cons b rest ih =>
    have same := (sameIndex_setRefCnt p b ((p.blocks b).refCnt - 1)).trans (ih (p.dropRef b))
    simp only [freeLoop]
    split
    · split <;> exact same
    · exact same

theorem sameIndex_freeOwnBlocks (h : p.freeOwnBlocks blocks = .ok q) : SameIndex p q := by
  have same := sameIndex_freeLoop blocks p
  unfold freeOwnBlocks at h
  rcases hl : freeLoop blocks p with ⟨⟨first, last⟩, r⟩
  rw [hl] at h same
  have ⟨_, _, h⟩ := bind_eq_ok.mp h
  have ⟨queue, _, h⟩ := bind_eq_ok.mp h
  cases h
  exact same.trans (sameIndex_queue r queue)

theorem sameIndex_unpinLoop {onReuse : Watcher} (blocks : List BlockId) {released : List BlockId}
    (h : unpinLoop onReuse blocks p = .ok (released, q)) : SameIndex p q := by
  induction blocks generalizing p released with
  | nil =>
    cases h
    exact .refl _
  | cons b rest ih =>
    have ⟨_, _, h⟩ := bind_eq_ok.mp h
    have ⟨⟨tail, r⟩, hr, h⟩ := bind_eq_ok.mp h
    cases h
    have drop := sameIndex_setRefCnt p b ((p.blocks b).refCnt - 1)
    refine SameIndex.trans ?_ (ih hr)
    exact ⟨rfl, rfl, rfl, rfl, drop.hash, drop.isNull⟩

theorem sameIndex_unpinBlocks {onReuse : Watcher}
    (h : p.unpinBlocks blocks onReuse = .ok q) : SameIndex p q := by
  have ⟨⟨released, r⟩, hr, h⟩ := bind_eq_ok.mp h
  have ⟨queue, _, h⟩ := bind_eq_ok.mp h
  cases h
  exact (sameIndex_unpinLoop blocks hr).trans (sameIndex_queue r queue)

theorem takeBlocks_tracks (blocks : List BlockId) (inv : IndexInv p)
    (h : takeBlocks blocks p = .ok q) :
    Tracks p q 0 ∧ (p.enableCaching = true → ∀ b ∈ blocks, q.keysOf b = []) ∧
    ∀ c, p.keysOf c = [] → q.keysOf c = [] := by
  induction blocks generalizing p with
  | nil =>
    cases h
    exact ⟨.refl inv, by simp, fun _ h => h⟩
  | cons b rest ih =>
    obtain ⟨_, _, h⟩ := bind_eq_ok.mp h
    obtain ⟨r, hr⟩ : ∃ r, r = if p.enableCaching then (p.maybeEvictCachedBlock b).2 else p :=
      ⟨_, rfl⟩
    rw [← hr] at h
    have evicted : Tracks p r 0 ∧ (p.enableCaching = true → r.keysOf b = []) ∧
        ∀ c, p.keysOf c = [] → r.keysOf c = [] := by
      rw [hr]
      split
      · obtain ⟨tracks, keys⟩ := evictHashes_spec inv b
        rw [maybeEvict_eq]
        refine ⟨tracks, fun _ => by rw [keys, if_pos rfl], fun c hc => ?_⟩
        rw [keys, hc, ite_self]
      · rename_i off
        exact ⟨.refl inv, fun on => absurd on off, fun _ h => h⟩
    have set := sameIndex_setRefCnt r b ((r.blocks b).refCnt + 1)
    have step := evicted.1.trans (set.tracks evicted.1.inv)
    obtain ⟨tracks, gone, kept⟩ := ih step.inv h
    refine ⟨(step.trans tracks).congr fun P => by simp, fun on c hc => ?_, fun c hc => ?_⟩
    · rcases List.mem_cons.mp hc with rfl | hc
      · exact kept c (by rw [set.keysOf, evicted.2.1 on])
      · exact gone (by rw [step.config]; exact on) c hc
    · exact kept c (by rw [set.keysOf, evicted.2.2 c hc])

theorem getNewBlocks_tracks {n : Nat} {ret : List BlockId} (inv : IndexInv p)
    (h : p.getNewBlocks n = .ok (ret, q)) :
    Tracks p q 0 ∧ (p.enableCaching = true → ∀ b ∈ ret, q.keysOf b = []) ∧
    ∀ c, p.keysOf c = [] → q.keysOf c = [] := by
  unfold getNewBlocks at h
  split at h
  · cases h
  · obtain ⟨⟨popped, queue⟩, _, h⟩ := bind_eq_ok.mp h
    obtain ⟨r, hr, h⟩ := bind_eq_ok.mp h
    cases h
    have same := (sameIndex_queue p queue).trans (sameIndex_notifyReuse _ ret)
    have first := same.tracks inv
    obtain ⟨tracks, gone, kept⟩ := takeBlocks_tracks ret first.inv hr
    refine ⟨(first.trans tracks).congr fun P => by simp, fun on => ?_, fun c hc => ?_⟩
    · exact gone (by rw [same.config]; exact on)
    · exact kept c (by rw [same.keysOf, hc])

theorem resetPrefixCache_spec (inv : IndexInv p) :
    p.resetPrefixCache.2 = p ∨ (p.resetPrefixCache.2.toBlockPoolConfig = p.toBlockPoolConfig ∧
    IndexInv p.resetPrefixCache.2 ∧ (∀ b, p.resetPrefixCache.2.keysOf b = []) ∧
    (p.enableKvCacheEvents = true →
    p.resetPrefixCache.2.kvEventQueue = p.kvEventQueue ++ [.allBlocksCleared])) := by
  unfold resetPrefixCache
  simp only
  split
  · exact .inl rfl
  · right
    obtain ⟨q, hq⟩ : ∃ q, q = { p with
        cachedBlockHashToBlock := .empty
        cachedBlockHashesByBlock := fun _ => none } := ⟨_, rfl⟩
    obtain ⟨r, hr⟩ : ∃ r, r = q.notifyReuse (p.reuseWatchers.map Prod.fst) := ⟨_, rfl⟩
    have same : SameIndex q r := hr ▸ sameIndex_notifyReuse _ _
    have config : r.toBlockPoolConfig = p.toBlockPoolConfig := by
      rw [same.config, hq]
    have cleared (events : List KVCacheEvent) : IndexInv { r with
        blocks := fun b => (r.blocks b).resetHash, kvEventQueue := events } ∧
        ∀ b, keysOf { r with
          blocks := fun b => (r.blocks b).resetHash, kvEventQueue := events } b = [] := by
      have byBlock : r.cachedBlockHashesByBlock = fun _ => none := by rw [same.byBlock, hq]
      have cache : r.cachedBlockHashToBlock = .empty := by rw [same.cache, hq]
      have keys (b : BlockId) : keysOf { r with
          blocks := fun b => (r.blocks b).resetHash, kvEventQueue := events } b = [] := by
        simp [keysOf, KVCacheBlock.resetHash, byBlock]
      refine ⟨⟨fun k b => ?_, fun b => ?_, fun k => ?_, fun b _ => ?_, fun b hb => ?_, fun b => ?_⟩,
        keys⟩
      · rw [keys]
        simp [cache]
      · rw [keys]
        exact List.nodup_nil
      · simp [cache]
      · simp [byBlock]
      · exact absurd (keys b) hb
      · have := inv.isNull b
        simp only [KVCacheBlock.resetHash, config, same.isNull, hq]
        exact this
    rw [← hq, ← hr]
    split
    · refine ⟨config, (cleared _).1, (cleared _).2, fun _ => ?_⟩
      simp only
      rw [same.events, hq]
    · rename_i off
      have off : ¬ p.enableKvCacheEvents = true := by
        rw [← config]
        exact off
      exact ⟨config, (cleared r.kvEventQueue).1, (cleared r.kvEventQueue).2, fun on =>
        absurd on off⟩

end BlockPool

end VllmAmpere
