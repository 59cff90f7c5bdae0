import VllmAmpere.HybridCacheHit
import VllmAmpere.PrefixCacheRun
import VllmAmpere.PrefixIdentity

/-! The event of a call that caches full blocks: its hashes and its extra keys are those of
the blocks that are not skipped, its tokens are those of all blocks of the range. -/

open List

namespace VllmAmpere

namespace BlockPool

variable (p : BlockPool) (request : Request) (blocks : List BlockId) (mask : Option (List Bool))
  (numCached blockSize : Nat)

/-- Block `j` of a request is cached, neither null nor masked out. -/
def caches (j : Nat) : Bool :=
  (blocks[j]?.any fun b => !(p.blocks b).isNull) && !masked mask (j - numCached)

/-- The tokens of block `j`. -/
def eventTokens (j : Nat) : List Nat :=
  slice request.allTokenIds (j * blockSize) (j * blockSize + blockSize)

/-- The extra keys of block `j`, as events publish them. -/
def eventKeys (j : Nat) : Option (List EventExtraKey) :=
  (generateBlockHashExtraKeys p.hasher request (j * blockSize) (j * blockSize + blockSize) 0).1.map
    (List.map ExtraKey.toEvent)

/-- A published hash is that of block `j`. -/
def EventHash (j : Nat) (hash : ExternalBlockHash) : Prop :=
  ∃ blockHash, request.HashAt p.hashBlockSize ((j + 1) * blockSize) blockHash ∧
    hash = maybeConvertBlockHash p.useIntBlockHashes blockHash

/-- A consumer can align the tokens and the extra keys of an event with its hashes: entry by
entry they are of one block. -/
structure SelfConsistent (event : BlockStored) : Prop where
  entries : ∃ js : List Nat, List.Forall₂ (p.EventHash request blockSize) js event.blockHashes ∧
    event.tokenIds = js.flatMap (eventTokens request blockSize) ∧
    event.extraKeys.getD [] = js.map (p.eventKeys request blockSize)
  tokens : event.tokenIds.length = blockSize * event.blockHashes.length

variable {p request blocks mask numCached blockSize} {q : BlockPool}

theorem caches_of_getElem? {j : Nat} {b : BlockId} (hb : blocks[j]? = some b) :
    p.caches blocks mask numCached j = !((p.blocks b).isNull || masked mask (j - numCached)) := by
  rw [caches, hb, Option.any_some, Bool.not_or]

theorem cacheFullLoop_hashes {hashes : List BlockHash} {group : Nat} (suffix : List BlockId)
    (i : Nat) {found : List BlockHash}
    (hsuffix : ∀ t b, suffix[t]? = some b → blocks[numCached + i + t]? = some b)
    (h : cacheFullLoop hashes mask numCached blockSize group suffix i p = .ok (found, q)) :
    List.Forall₂ (fun j hash => ∃ t, j = numCached + t ∧ hashes[t]? = some hash)
    ((List.range' (numCached + i) suffix.length).filter (p.caches blocks mask numCached))
    found := by
  induction suffix generalizing i p found with
  | nil =>
    cases h
    exact .nil
  | cons blk rest ih =>
    have hblk : blocks[numCached + i]? = some blk := hsuffix 0 blk rfl
    have hrest : ∀ t b, rest[t]? = some b → blocks[numCached + (i + 1) + t]? = some b := by
      intro t b hb
      have := hsuffix (t + 1) b hb
      rwa [show numCached + i + (t + 1) = numCached + (i + 1) + t by omega] at this
    have hfirst : p.caches blocks mask numCached (numCached + i) = _ := caches_of_getElem? hblk
    rw [Nat.add_sub_cancel_left] at hfirst
    rw [length_cons, range'_succ, List.filter_cons, hfirst]
    unfold cacheFullLoop at h
    split at h
    · rename_i hskip
      rw [hskip, Bool.not_true, if_neg Bool.false_ne_true]
      exact ih (i + 1) hrest h
    · rename_i hkept
      rw [Bool.not_eq_true] at hkept
      obtain ⟨hash, hhash, h⟩ := bind_eq_ok.mp h
      obtain ⟨r, hr, h⟩ := bind_eq_ok.mp h
      obtain ⟨⟨tail, s⟩, hs, h⟩ := bind_eq_ok.mp h
      cases h
      have hsame : r.caches blocks mask numCached = p.caches blocks mask numCached := by
        funext j
        simp only [caches, (sameRefs_cacheFullBlock hr).isNull]
      rw [hkept, Bool.not_false, if_pos rfl, ← hsame]
      exact .cons ⟨i, rfl, pyGet_ok.mp hhash⟩ (ih (i + 1) hrest hs)

theorem extraKeys_of_passed {h : BlockHasher} {start stop mmIdx : Nat} (hss : start < stop)
    (hp : Passed request start mmIdx) : (generateBlockHashExtraKeys h request start stop mmIdx).1 =
    (generateBlockHashExtraKeys h request start stop 0).1 := by
  simp only [generateBlockHashExtraKeys]
  rw [genMm_eq_of_passed hss hp]

theorem fullBlockExtraKeys_eq (hbs : 0 < blockSize) (n a : Nat) {mmIdx : Nat}
    (hp : Passed request (a * blockSize) mmIdx) {keys : List (Option (List ExtraKey))}
    (h : p.fullBlockExtraKeys request blocks mask numCached blockSize (List.range' a n) mmIdx =
    .ok keys) : keys = ((List.range' a n).filter (p.caches blocks mask numCached)).map (fun j =>
    (generateBlockHashExtraKeys p.hasher request (j * blockSize)
    (j * blockSize + blockSize) 0).1) ∧ (0 < n → a + n ≤ blocks.length) := by
  induction n generalizing a mmIdx keys with
  | zero =>
    cases h
    exact ⟨rfl, fun h => absurd h (Nat.lt_irrefl 0)⟩
  | succ n ih =>
    rw [range'_succ, fullBlockExtraKeys] at h
    obtain ⟨blk, hblk, h⟩ := bind_eq_ok.mp h
    rw [pyGet_ok] at hblk
    have hin : a < blocks.length := (List.getElem?_eq_some_iff.mp hblk).1
    have hnext : a * blockSize + blockSize = (a + 1) * blockSize := by
      rw [Nat.add_mul, Nat.one_mul]
    have hlen : ∀ h : 0 < n → a + 1 + n ≤ blocks.length, 0 < n + 1 → a + (n + 1) ≤ blocks.length := by
      intro h _
      rcases Nat.eq_zero_or_pos n with hzero | hpos
      · omega
      · have := h hpos
        omega
    rw [range'_succ, List.filter_cons, caches_of_getElem? hblk]
    by_cases hskip : ((p.blocks blk).isNull || masked mask (a - numCached)) = true
    · rw [if_pos hskip] at h
      rw [hskip, Bool.not_true, if_neg Bool.false_ne_true]
      have hp' : Passed request ((a + 1) * blockSize) mmIdx := hp.mono (by omega)
      obtain ⟨hkeys, hrest⟩ := ih (a + 1) hp' h
      exact ⟨hkeys, hlen hrest⟩
    · rw [if_neg hskip] at h
      rw [Bool.not_eq_true] at hskip
      obtain ⟨rest, hrest, h⟩ := bind_eq_ok.mp h
      cases h
      have hp' : Passed request ((a + 1) * blockSize) (generateBlockHashExtraKeys p.hasher request
          (a * blockSize) (a * blockSize + blockSize) mmIdx).2 := by
        rw [← hnext]
        exact passed_next (Nat.le_add_right _ _) hp
      obtain ⟨hkeys, hmore⟩ := ih (a + 1) hp' hrest
      rw [hskip, Bool.not_false, if_pos rfl, map_cons, ← hkeys]
      exact ⟨congrArg (List.cons · rest)
        (extraKeys_of_passed (Nat.lt_add_of_pos_right hbs) hp), hlen hmore⟩

theorem eventKeys_getD (p : BlockPool) (request : Request) (blockSize : Nat) (js : List Nat) :
    (toEventExtraKeys (js.map fun j => (generateBlockHashExtraKeys p.hasher request
    (j * blockSize) (j * blockSize + blockSize) 0).1)).getD [] =
    js.map (p.eventKeys request blockSize) := by
  unfold toEventExtraKeys
  split
  · rename_i hnil
    rw [map_eq_nil_iff] at hnil
    rw [hnil]
    rfl
  · rw [Option.getD_some, map_map]
    rfl

theorem slice_append_slice {xs : List Nat} {a b c : Nat} (hab : a ≤ b) (hbc : b ≤ c) :
    slice xs a b ++ slice xs b c = slice xs a c := by
  have hsplit := take_add (l := xs.drop a) (i := b - a) (j := c - b)
  rw [drop_drop, show b - a + (c - b) = c - a by omega, Nat.add_sub_cancel' hab] at hsplit
  simp only [slice, drop_take]
  exact hsplit.symm

theorem flatMap_eventTokens (a n : Nat) :
    (List.range' a n).flatMap (eventTokens request blockSize) =
    slice request.allTokenIds (a * blockSize) ((a + n) * blockSize) := by
  induction n generalizing a with
  | zero => simp [slice]
  | succ n ih =>
    rw [range'_succ, flatMap_cons, ih, eventTokens,
      show a * blockSize + blockSize = (a + 1) * blockSize by rw [Nat.add_mul, Nat.one_mul],
      slice_append_slice (Nat.mul_le_mul_right _ (Nat.le_succ a))
        (Nat.mul_le_mul_right _ (Nat.le_add_right _ n))]
    congr 2
    omega

theorem cacheFullBlocks_event (hbs : 0 < blockSize)
    {numFull group : Nat} (hlt : numCached < numFull) (events : p.enableKvCacheEvents = true)
    (h : p.cacheFullBlocks request blocks numCached numFull blockSize group mask = .ok q) :
    ∃ event, q.kvEventQueue.getLast? = some (.blockStored event) ∧
    List.Forall₂ (p.EventHash request blockSize)
    ((List.range' numCached (numFull - numCached)).filter (p.caches blocks mask numCached))
    event.blockHashes ∧ event.tokenIds =
    slice request.allTokenIds (numCached * blockSize) (numFull * blockSize) ∧
    event.extraKeys.getD [] = ((List.range' numCached (numFull - numCached)).filter
    (p.caches blocks mask numCached)).map (p.eventKeys request blockSize) := by
  unfold cacheFullBlocks at h
  rw [if_neg (Nat.not_le.mpr hlt)] at h
  obtain ⟨-, -, h⟩ := bind_eq_ok.mp h
  obtain ⟨view, hview, h⟩ := bind_eq_ok.mp h
  obtain ⟨⟨found, r⟩, hr, h⟩ := bind_eq_ok.mp h
  have hsame := sameRefs_cacheFullLoop _ _ hr
  dsimp only at h
  rw [show r.enableKvCacheEvents = p.enableKvCacheEvents by rw [hsame.config], if_pos events] at h
  obtain ⟨parent, -, h⟩ := bind_eq_ok.mp h
  obtain ⟨keys, hkeys, h⟩ := bind_eq_ok.mp h
  cases h
  have hcaches : r.caches blocks mask numCached = p.caches blocks mask numCached := by
    funext j
    simp only [caches, hsame.isNull]
  have hhasher : r.hasher = p.hasher := by rw [hsame.config]
  obtain ⟨rfl, hlen⟩ := fullBlockExtraKeys_eq hbs _ _ (passed_zero _ _) hkeys
  have hroom := hlen (Nat.sub_pos_of_lt hlt)
  have hsize : (slice blocks numCached numFull).length = numFull - numCached := by
    rw [slice_length]
    omega
  have hhashes := @cacheFullLoop_hashes p blocks _ _ _ _ _ _ _ 0 _ (fun t b hb => ?_) hr
  · rw [hsize, Nat.add_zero] at hhashes
    rw [hcaches, hhasher]
    refine ⟨_, getLast?_concat, ?_, rfl, eventKeys_getD _ _ _ _⟩
    have hconvert : r.useIntBlockHashes = p.useIntBlockHashes := by rw [hsame.config]
    refine forall₂_map_right_iff.mpr (hhashes.imp ?_)
    rintro j hash ⟨t, rfl, ht⟩
    exact ⟨hash, resolved_hashAt p.hasher.hashBlockSize_pos hbs hview ht, by rw [hconvert]⟩
  · rw [slice_getElem?] at hb
    split at hb
    · exact hb
    · cases hb

/-- The event of a call is one that a consumer can align exactly where no block of the range is
skipped. -/
theorem cacheFullBlocks_consistent_iff (hbs : 0 < blockSize)
    {numFull group : Nat} (hlt : numCached < numFull) (events : p.enableKvCacheEvents = true)
    (full : numFull * blockSize ≤ request.numTokens)
    (h : p.cacheFullBlocks request blocks numCached numFull blockSize group mask = .ok q) :
    ∃ event, q.kvEventQueue.getLast? = some (.blockStored event) ∧
    (p.SelfConsistent request blockSize event ↔
    ∀ j, numCached ≤ j → j < numFull → p.caches blocks mask numCached j = true) := by
  obtain ⟨event, hlast, hhashes, htokens, hkeys⟩ := cacheFullBlocks_event hbs hlt events h
  refine ⟨event, hlast, ?_⟩
  have hall : (∀ j, numCached ≤ j → j < numFull → p.caches blocks mask numCached j = true) ↔
      ∀ j ∈ List.range' numCached (numFull - numCached), p.caches blocks mask numCached j = true := by
    refine forall_congr' fun j => ?_
    rw [mem_range'_1, and_imp]
    refine imp_congr_right fun _ => ?_
    rw [Nat.add_sub_cancel' (Nat.le_of_lt hlt)]
  have hsize : event.tokenIds.length = blockSize * (numFull - numCached) := by
    have hroom : numFull * blockSize ≤ request.allTokenIds.length := full
    rw [htokens, slice_length, Nat.min_eq_left hroom, ← Nat.sub_mul, Nat.mul_comm]
  rw [hall]
  constructor
  · intro hconsistent
    have hcount := Nat.eq_of_mul_eq_mul_left hbs (hsize.symm.trans hconsistent.tokens)
    rw [← hhashes.length_eq] at hcount
    refine filter_eq_self.mp (filter_sublist.eq_of_length ?_)
    rw [length_range', ← hcount]
  · intro hkept
    rw [filter_eq_self.mpr hkept] at hhashes hkeys
    refine ⟨⟨_, hhashes, ?_, hkeys⟩, ?_⟩
    · rw [flatMap_eventTokens, htokens, Nat.add_sub_cancel' (Nat.le_of_lt hlt)]
    · rw [hsize, ← hhashes.length_eq, length_range']

def twoBlocks : Request where
  requestId := "a"
  allTokenIds := [0, 1, 2, 3, 4, 5, 6, 7]
  mmFeatures := []
  mmSorted := noFeatures_sorted
  loraRequest := none
  cacheSalt := none
  promptEmbeds := none
  sessionId := none
  blockHashes := [[0], [1]]

def emptyPool : BlockPool :=
  HybridKVCacheCoordinator.cachedPool 4 HybridKVCacheCoordinator.fourTokens_pos []

theorem emptyPool_consistent :
    ∃ event, ((emptyPool.cacheFullBlocks twoBlocks [1, 2] 0 2 4 0 none).toOption.get
    (by decide +kernel)).kvEventQueue.getLast? = some (.blockStored event) ∧
    (emptyPool.SelfConsistent twoBlocks 4 event ↔
    ∀ j, 0 ≤ j → j < 2 → emptyPool.caches [1, 2] none 0 j = true) :=
  cacheFullBlocks_consistent_iff HybridKVCacheCoordinator.fourTokens_pos Nat.two_pos
    (by decide +kernel) (Nat.le_refl 8) (toOption_get _)

/-- The event of a range that begins with the null block has eight tokens for one hash. -/
theorem null_block_not_consistent :
    ∃ q event, emptyPool.cacheFullBlocks twoBlocks [0, 2] 0 2 4 0 none = .ok q ∧
    q.kvEventQueue.getLast? = some (.blockStored event) ∧
    ¬emptyPool.SelfConsistent twoBlocks 4 event := by
  refine ⟨(emptyPool.cacheFullBlocks twoBlocks [0, 2] 0 2 4 0 none).toOption.get
    (by decide +kernel), ⟨[.bytes [1]], none, [0, 1, 2, 3, 4, 5, 6, 7], 4, none, "GPU", none,
      some [none], 0, none⟩, toOption_get _, by decide +kernel, fun h => ?_⟩
  exact absurd h.tokens (by decide)

end BlockPool

end VllmAmpere
