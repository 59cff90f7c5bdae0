import VllmAmpere.OffloadJobCopies

/-! The store jobs that `_build_store_jobs` builds: their groups hold the chunks the manager
takes, and the job stands for their blocks if and only if no group has a hole. -/

open List

namespace VllmAmpere.OffloadTransfer

open OffloadEvents (OffloadKey)

variable {config : SchedulerOffloadConfig}

/-! Slices -/

theorem filterMap_getElem?_of_some {α β : Type*} {f : α → Option β} {xs : List α}
    (h : ∀ x ∈ xs, (f x).isSome = true) (i : Nat) : (xs.filterMap f)[i]? = xs[i]?.bind f := by
  induction xs generalizing i with
  | nil => rfl
  | cons x xs ih =>
    obtain ⟨y, hy⟩ := Option.isSome_iff_exists.mp (h x mem_cons_self)
    rw [filterMap_cons_some hy]
    cases i with
    | zero => simp [hy]
    | succ i => simpa using ih (fun x hx => h x (mem_cons_of_mem _ hx)) i

theorem strided_getElem? {α : Type*} {xs : List α} {start stop step : Nat} (hstep : 0 < step)
    (inside : stop ≤ xs.length) (i : Nat) : (strided xs start stop step)[i]? =
    if start + i * step < stop then xs[start + i * step]? else none := by
  have within : ∀ i, i < cdiv (stop - start) step ↔ start + i * step < stop := by
    intro i
    rw [lt_cdiv_iff hstep]
    omega
  have some_each : ∀ i ∈ List.range (cdiv (stop - start) step),
      (xs[start + i * step]?).isSome = true := by
    intro i hi
    have := (within i).mp (mem_range.mp hi)
    rw [getElem?_eq_getElem (by omega)]
    rfl
  rw [strided, filterMap_getElem?_of_some some_each]
  by_cases hi : start + i * step < stop
  · rw [if_pos hi, getElem?_range ((within i).mpr hi)]
    rfl
  · rw [if_neg hi, getElem?_eq_none]
    · rfl
    · rw [length_range]
      exact Nat.not_lt.mp fun h => hi ((within i).mp h)

theorem filter_slice_zipIdx {α : Type*} {xs : List α} {start stop : Nat} {p : α × Nat → Bool}
    (inside : ∀ x ∈ xs.zipIdx, p x = true → start ≤ x.2 ∧ x.2 < stop) :
    ((slice xs start stop).zipIdx start).filter p = xs.zipIdx.filter p := by
  have sliced : (slice xs start stop).zipIdx start = (xs.zipIdx.take stop).drop start := by
    apply ext_getElem?
    intro i
    simp only [slice, getElem?_zipIdx, getElem?_drop, getElem?_take]
    split <;> simp
  have before : ((xs.zipIdx.take stop).take start).filter p = [] := by
    rw [filter_eq_nil_iff]
    intro x hx hp
    have mem := mem_of_mem_take (mem_of_mem_take hx)
    obtain ⟨i, hi, rfl⟩ := getElem_of_mem hx
    have := (inside _ mem hp).1
    simp at this hi
    omega
  have after : (xs.zipIdx.drop stop).filter p = [] := by
    rw [filter_eq_nil_iff]
    intro x hx hp
    have mem := mem_of_mem_drop hx
    obtain ⟨i, hi, rfl⟩ := getElem_of_mem hx
    have := (inside _ mem hp).2
    simp at this
  rw [sliced]
  conv_rhs => rw [← take_append_drop stop xs.zipIdx, filter_append, after,
    ← take_append_drop start (xs.zipIdx.take stop), filter_append, before]
  simp

/-! The offered keys -/

theorem offerLoop_offers {offer : (blockId keyIdx : Nat) → Except PyError Bool}
    {loop : List ((OffloadKey × Nat) × Nat)} {keys : List OffloadKey}
    (h : offerLoop offer loop = .ok keys) : keys.Sublist (loop.map (·.1.1)) ∧
    ∀ key ∈ keys, ∃ blockId keyIdx, ((key, blockId), keyIdx) ∈ loop ∧
    offer blockId keyIdx = .ok true := by
  induction loop generalizing keys with
  | nil =>
    cases h
    exact ⟨List.Sublist.refl _, nofun⟩
  | cons entry rest ih =>
    obtain ⟨⟨offloadKey, blockId⟩, keyIdx⟩ := entry
    simp only [offerLoop, bind_eq_ok] at h
    obtain ⟨offered, hoffered, more, hmore, result⟩ := h
    have ⟨sub, each⟩ := ih hmore
    have later : ∀ key ∈ more, ∃ blockId' keyIdx', ((key, blockId'), keyIdx') ∈
        ((offloadKey, blockId), keyIdx) :: rest ∧ offer blockId' keyIdx' = .ok true := by
      intro key hkey
      obtain ⟨blockId', keyIdx', mem, ok⟩ := each key hkey
      exact ⟨blockId', keyIdx', mem_cons_of_mem _ mem, ok⟩
    cases offered with
    | false =>
      cases result
      exact ⟨sub.cons _, later⟩
    | true =>
      cases result
      refine ⟨sub.cons_cons _, ?_⟩
      intro key hkey
      rcases mem_cons.mp hkey with rfl | hkey
      · exact ⟨blockId, keyIdx, mem_cons_self, hoffered⟩
      · exact later key hkey

theorem offers_read {s : RequestGroupState} {range : StoreRange}
    {blockMask promptHorizonBlockMask : Option (List Bool)} {blockId keyIdx : Nat}
    (h : @offers config s range blockMask promptHorizonBlockMask blockId keyIdx =
    .ok true) : blockId ≠ 0 := by
  rintro rfl
  cases h

section Offered

variable {reachableStoreBlockMask : GroupOffloadConfig → Nat → Nat → Option Nat → List Nat →
  Option (List Bool)} {req : RequestOffloadState config} {g : GroupOffloadConfig}
  {s : RequestGroupState}

theorem storableChunks_allocated (numOffloadableTokens : Nat) :
    req.storableChunks g s numOffloadableTokens * config.blocksPerChunk ≤ s.blockIds.length := by
  have least : req.storableChunks g s numOffloadableTokens ≤
      s.blockIds.length / config.blocksPerChunk := by
    rw [RequestOffloadState.storableChunks]
    exact Nat.le_trans (Nat.min_le_left _ _) (Nat.min_le_right _ _)
  exact Nat.le_trans (Nat.mul_le_mul_right _ least) (Nat.div_mul_le_self _ _)

theorem newOffloadKeys_ok {range : StoreRange} {keys : List OffloadKey}
    (allocated : range.numChunks * config.blocksPerChunk ≤ s.blockIds.length)
    (h : newOffloadKeys reachableStoreBlockMask req g s range = .ok keys) :
    keys.Sublist s.offloadKeys ∧ ∀ key ∈ keys, ∃ c, range.startChunkIdx ≤ c ∧
    c < range.numChunks ∧ s.offloadKeys[c]? = some key ∧
    s.blockIds.getD (c * config.blocksPerChunk + (config.blocksPerChunk - 1)) 0 ≠ 0 := by
  have chunked := config.chunked
  rw [newOffloadKeys] at h
  split at h
  · cases h
    exact ⟨nil_sublist _, (by simp)⟩
  split at h
  · cases h
    exact ⟨nil_sublist _, (by simp)⟩
  simp only [bind_eq_ok, pyAssert_ok] at h
  obtain ⟨_, sameLength, ran⟩ := h
  obtain ⟨sub, each⟩ := offerLoop_offers ran
  constructor
  · refine sub.trans ?_
    have firsts : ((List.zip (slice s.offloadKeys range.startChunkIdx range.numChunks)
        (strided s.blockIds (range.startChunkIdx * config.blocksPerChunk + config.blocksPerChunk - 1)
          (range.numChunks * config.blocksPerChunk) config.blocksPerChunk)).zipIdx).map (·.1.1) =
        slice s.offloadKeys range.startChunkIdx range.numChunks := by
      rw [show (fun x : (OffloadKey × Nat) × Nat => x.1.1) = Prod.fst ∘ Prod.fst from rfl,
        ← map_map, zipIdx_map_fst, map_fst_zip sameLength.le]
    rw [firsts, slice]
    exact (drop_sublist _ _).trans (take_sublist _ _)
  · intro key hkey
    obtain ⟨blockId, keyIdx, mem, offered⟩ := each key hkey
    have read := offers_read offered
    rw [mem_zipIdx_iff_getElem?, getElem?_zip_eq_some] at mem
    obtain ⟨hkeyAt, hblock⟩ := mem
    rw [slice_getElem?] at hkeyAt
    rw [strided_getElem? chunked allocated] at hblock
    split at hkeyAt
    · rename_i inRange
      refine ⟨range.startChunkIdx + keyIdx, Nat.le_add_right _ _, inRange, hkeyAt, ?_⟩
      split at hblock
      · have place : (range.startChunkIdx + keyIdx) * config.blocksPerChunk +
            (config.blocksPerChunk - 1) = range.startChunkIdx * config.blocksPerChunk +
              config.blocksPerChunk - 1 + keyIdx * config.blocksPerChunk := by
          rw [Nat.add_mul]
          omega
        rw [place, getD_eq_getElem?_getD, hblock]
        exact read
      · cases hblock
    · cases hkeyAt

end Offered

/-! The keys of a request -/

section Keys

variable (req : RequestOffloadState config)

variable {g : GroupOffloadConfig} {s : RequestGroupState}

theorem groups_at (mem : (g, s) ∈ req.groups) :
    ∃ i : Nat, config.kvGroupConfigs[i]? = some g ∧ req.groupStates[i]? = some s := by
  obtain ⟨i, hi⟩ := mem_iff_getElem?.mp mem
  exact ⟨i, getElem?_zip_eq_some.mp hi⟩

theorem hashesPerChunk_pos (mem : g ∈ config.kvGroupConfigs) : 0 < g.hashesPerChunk := by
  have hashes := config.hashTokens g mem
  have chunk := config.chunkTokens g mem
  have tokens := Nat.mul_pos (config.blockTokens g mem) config.chunked
  rw [← chunk, ← hashes] at tokens
  exact Nat.pos_of_mul_pos_right tokens

variable {key : OffloadKey}

theorem chunkKey_inj (mem : g ∈ config.kvGroupConfigs) {c c' : Nat}
    (h : chunkKey req.blockHashes g c = some key)
    (h' : chunkKey req.blockHashes g c' = some key) : c = c' := by
  have positive := hashesPerChunk_pos mem
  rw [chunkKey, Option.map_eq_some_iff] at h h'
  obtain ⟨hash, hhash, rfl⟩ := h
  obtain ⟨hash', hhash', same⟩ := h'
  obtain rfl : hash' = hash := congrArg OffloadKey.blockHash same
  have bound := (List.getElem?_eq_some_iff.mp hhash).1
  have := (getElem?_inj bound req.chained).mp (hhash.trans hhash'.symm)
  have : g.hashesPerChunk * c = g.hashesPerChunk * c' := by omega
  exact Nat.eq_of_mul_eq_mul_left positive this

theorem offloadKeys_inj (mem : (g, s) ∈ req.groups) {c c' : Nat}
    (h : s.offloadKeys[c]? = some key) (h' : s.offloadKeys[c']? = some key) : c = c' := by
  obtain ⟨i, hg, hs⟩ := groups_at req mem
  exact chunkKey_inj req (mem_of_getElem? hg) (req.keyed i g s hg hs c key h)
    (req.keyed i g s hg hs c' key h')

theorem offloadKey_groupIdx (mem : (g, s) ∈ req.groups) (h : key ∈ s.offloadKeys) :
    key.groupIdx = g.groupIdx := by
  obtain ⟨i, hg, hs⟩ := groups_at req mem
  obtain ⟨c, hc⟩ := mem_iff_getElem?.mp h
  have := req.keyed i g s hg hs c key hc
  rw [chunkKey, Option.map_eq_some_iff] at this
  obtain ⟨hash, -, rfl⟩ := this
  rfl

theorem groups_fst : req.groups.map (·.1) = config.kvGroupConfigs :=
  map_fst_zip req.perGroup.ge

theorem groupIdx_nodup : (req.groups.map fun gs => gs.1.groupIdx).Nodup := by
  have := config.groupIds
  rwa [← groups_fst req, map_map] at this

theorem offloadKeys_nodup : (req.groups.flatMap fun gs => gs.2.offloadKeys).Nodup := by
  rw [nodup_flatMap]
  constructor
  · intro gs hgs
    rw [nodup_iff_getElem?_ne_getElem?]
    intro i j hij hj same
    obtain ⟨key, hkey⟩ : ∃ key, gs.2.offloadKeys[j]? = some key :=
      ⟨_, getElem?_eq_getElem hj⟩
    have := offloadKeys_inj req hgs (same.trans hkey) hkey
    omega
  · have apart := groupIdx_nodup req
    rw [List.Nodup, pairwise_map] at apart
    refine apart.imp_of_mem ?_
    intro a b ha hb apart key hkeyA hkeyB
    exact apart ((offloadKey_groupIdx req ha hkeyA).symm.trans (offloadKey_groupIdx req hb hkeyB))

theorem group_of_key {a b : GroupOffloadConfig × RequestGroupState} (ha : a ∈ req.groups)
    (hb : b ∈ req.groups) (hkeyA : key ∈ a.2.offloadKeys) (hkeyB : key ∈ b.2.offloadKeys) : a = b := by
  apply inj_on_of_nodup_map (groupIdx_nodup req) ha hb
  exact (offloadKey_groupIdx req ha hkeyA).symm.trans (offloadKey_groupIdx req hb hkeyB)

end Keys

/-! The collected source blocks -/

theorem map_eq_of_forall₂ {α β : Type*} {f : α → β} {xs : List α} {ys : List β}
    (h : List.Forall₂ (fun x y => f x = y) xs ys) : xs.map f = ys := by
  induction h with
  | nil => rfl
  | cons hxy _ ih => rw [map_cons, hxy, ih]

theorem chunkBlocks_ok {blockIds : List Nat} {k chunkIdx : Nat} {blocks : List (Nat × Nat)}
    (h : chunkBlocks blockIds k chunkIdx = .ok blocks) :
    blocks = (List.range k).map fun i => (chunkIdx * k + i, blockIds.getD (chunkIdx * k + i) 0) := by
  refine (map_eq_of_forall₂ ((mapM_eq_ok.mp h).imp ?_)).symm
  intro i block hblock
  simp only [bind_eq_ok, pyGet_ok] at hblock
  obtain ⟨blockId, hget, hok⟩ := hblock
  rw [getD_eq_getElem?_getD, hget]
  exact Except.ok.inj hok

theorem sourceBlocks_ok {blockIds : List Nat} {k : Nat} {keysToStore : List OffloadKey}
    {chunks : List (OffloadKey × Nat)} {blocks : List (Nat × Nat)}
    (h : sourceBlocks blockIds k keysToStore chunks = .ok blocks) :
    blocks = (chunkCopies k blockIds (chunks.filter (·.1 ∈ keysToStore))).map
    fun copy => (copy.position, copy.blockId) := by
  induction chunks generalizing blocks with
  | nil =>
    cases h
    rfl
  | cons chunk rest ih =>
    obtain ⟨offloadKey, chunkIdx⟩ := chunk
    rw [sourceBlocks] at h
    split at h
    · rename_i refused
      rw [filter_cons_of_neg (by simpa using refused)]
      exact ih h
    · rename_i taken
      simp only [bind_eq_ok] at h
      obtain ⟨own, hown, more, hmore, result⟩ := h
      rw [filter_cons_of_pos (by simpa using taken)]
      have head : own.filter (·.2 ≠ 0) = (chunkCopies k blockIds [(offloadKey, chunkIdx)]).map
          fun copy => (copy.position, copy.blockId) := by
        rw [chunkBlocks_ok hown, chunkCopies, subBlocks_cons, subBlocks_nil, append_nil,
          filter_map, filter_map, map_map, map_map]
        rfl
      have split : chunkCopies k blockIds
          ((offloadKey, chunkIdx) :: rest.filter (·.1 ∈ keysToStore)) =
          chunkCopies k blockIds [(offloadKey, chunkIdx)] ++
            chunkCopies k blockIds (rest.filter (·.1 ∈ keysToStore)) := by
        rw [chunkCopies, chunkCopies, chunkCopies, ← map_append, ← filter_append,
          ← subBlocks_append, singleton_append]
      rw [split, map_append, ← head, ← ih hmore]
      exact (Except.ok.inj result).symm

/-! Stored jobs -/

section Jobs

variable {manager : OffloadingManager}
  {reachableStoreBlockMask : GroupOffloadConfig → Nat → Nat → Option Nat → List Nat →
    Option (List Bool)}
  {req req' : RequestOffloadState config} {numScheduledTokens : Nat} {job : TransferJob}

def RequestOffloadState.storedChunks (req : RequestOffloadState config)
    (keysToStore : List OffloadKey) : List StoredChunks :=
  req.groups.map fun gs => ⟨gs.2.blockIds, acceptedChunks gs.2 keysToStore⟩

theorem mem_right_of_forall₂ {α β : Type*} {R : α → β → Prop} {xs : List α} {ys : List β}
    (h : List.Forall₂ R xs ys) {y : β} (mem : y ∈ ys) : ∃ x ∈ xs, R x y := by
  induction h with
  | nil => cases mem
  | @cons x z xs zs hxz _ ih =>
    rcases mem_cons.mp mem with rfl | mem
    · exact ⟨x, mem_cons_self, hxz⟩
    · obtain ⟨x', hx', hr⟩ := ih mem
      exact ⟨x', mem_cons_of_mem _ hx', hr⟩

theorem flatten_sublist_of_forall₂ {α β : Type*} {f : α → List β} {xs : List α}
    {ys : List (List β)} (h : List.Forall₂ (fun x y => y.Sublist (f x)) xs ys) :
    ys.flatten.Sublist (xs.flatMap f) := by
  induction h with
  | nil => exact List.Sublist.refl _
  | cons hxy _ ih =>
    rw [flatten_cons, flatMap_cons]
    exact hxy.append ih

theorem forall₂_and_mem {α β : Type*} {R : α → β → Prop} {xs : List α} {ys : List β}
    (h : List.Forall₂ R xs ys) : List.Forall₂ (fun x y => x ∈ xs ∧ R x y) xs ys := by
  induction h with
  | nil => exact .nil
  | cons hxy _ ih =>
    exact .cons ⟨mem_cons_self, hxy⟩
      (ih.imp fun _ _ h => ⟨mem_cons_of_mem _ h.1, h.2⟩)

theorem GPULoadStoreSpec.new_ok {blockIds groupSizes blockIndices : List Nat}
    {spec : GPULoadStoreSpec}
    (h : GPULoadStoreSpec.new blockIds groupSizes blockIndices = .ok spec) :
    spec = ⟨blockIds, groupSizes, blockIndices⟩ := by
  simp only [GPULoadStoreSpec.new, bind_eq_ok] at h
  obtain ⟨_, -, _, -, result⟩ := h
  exact (Except.ok.inj result).symm

theorem acceptedChunks_keys (s : RequestGroupState) (keysToStore : List OffloadKey) :
    (acceptedChunks s keysToStore).map (·.1) = s.offloadKeys.filter (· ∈ keysToStore) := by
  conv_rhs => rw [← zipIdx_map_fst 0 s.offloadKeys, filter_map]
  rfl

theorem mem_acceptedChunks {s : RequestGroupState} {keysToStore : List OffloadKey}
    {chunk : OffloadKey × Nat} (mem : chunk ∈ acceptedChunks s keysToStore) :
    s.offloadKeys[chunk.2]? = some chunk.1 ∧ chunk.1 ∈ keysToStore := by
  rw [acceptedChunks, mem_filter] at mem
  exact ⟨mem_zipIdx_iff_getElem?.mp mem.1, by simpa using mem.2⟩

theorem buildStoreJob_ok (h : buildStoreJob manager reachableStoreBlockMask req numScheduledTokens =
    .ok (req', some job)) : job.isStore = true ∧
    job.LaidOut ((req.storedChunks job.keys).map (·.view manager config.blocksPerChunk)) ∧
    ∀ g ∈ req.storedChunks job.keys, g.Sound manager config.blocksPerChunk := by
  simp only [buildStoreJob, bind_eq_ok] at h
  obtain ⟨newKeys, hnew, h⟩ := h
  obtain ⟨rangeOf, hrangeOf⟩ : ∃ rangeOf, rangeOf = fun g s => storeRange req g s
    (req.calcNumOffloadableTokens (req.numTokensAfterBatch numScheduledTokens))
    (req.calcNumOffloadableTokens req.numPromptTokens) := ⟨_, rfl⟩
  have allocated : ∀ g s, (rangeOf g s).numChunks * config.blocksPerChunk ≤ s.blockIds.length := by
    intro g s
    rw [hrangeOf]
    exact storableChunks_allocated _
  have offered := (mapM_eq_ok.mp hnew).imp fun gs keys hkeys => by
    rw [hrangeOf] at allocated
    exact newOffloadKeys_ok (allocated gs.1 gs.2) hkeys
  split at h
  · cases h
  split at h
  · cases h
  · cases h
  rename_i keysToStore _ htaken
  simp only [bind_eq_ok] at h
  obtain ⟨sources, hsources, gpuSpec, hspec, result⟩ := h
  cases result
  -- the manager takes distinct keys of the groups
  have offeredKeys : newKeys.flatten.Sublist (req.groups.flatMap fun gs => gs.2.offloadKeys) :=
    flatten_sublist_of_forall₂ (offered.imp fun _ _ h => h.1)
  have newNodup := (offloadKeys_nodup req).sublist offeredKeys
  have takenKeys := manager.taken _ _ htaken
  have separate := manager.separate _ _ newNodup htaken
  have inRange : ∀ gs ∈ req.groups, ∀ c key, gs.2.offloadKeys[c]? = some key → key ∈ keysToStore →
      (rangeOf gs.1 gs.2).startChunkIdx ≤ c ∧ c < (rangeOf gs.1 gs.2).numChunks ∧
        gs.2.blockIds.getD (c * config.blocksPerChunk + (config.blocksPerChunk - 1)) 0 ≠ 0 := by
    intro gs hgs c key hc hkey
    obtain ⟨keys, hkeys, mem⟩ := mem_flatten.mp (takenKeys.subset hkey)
    obtain ⟨gs', hgs', sub, each⟩ := mem_right_of_forall₂ offered hkeys
    obtain rfl := group_of_key req hgs hgs' (mem_of_getElem? hc) (sub.subset mem)
    obtain ⟨c', lower, upper, hc', read⟩ := each key mem
    obtain rfl := offloadKeys_inj req hgs hc hc'
    rw [hrangeOf]
    exact ⟨lower, upper, read⟩
  -- the collected blocks are those of the taken chunks
  have collected : sources = (req.storedChunks keysToStore).map fun g =>
      (g.reads config.blocksPerChunk).map fun copy => (copy.position, copy.blockId) := by
    rw [RequestOffloadState.storedChunks, map_map]
    refine (map_eq_of_forall₂ ((forall₂_and_mem (mapM_eq_ok.mp hsources)).imp ?_)).symm
    rintro gs blocks ⟨hgs, hblocks⟩
    have sliced := @filter_slice_zipIdx _ gs.2.offloadKeys (rangeOf gs.1 gs.2).startChunkIdx
      (rangeOf gs.1 gs.2).numChunks (·.1 ∈ keysToStore) (by
        intro x hx taken
        have := inRange gs hgs x.2 x.1 (mem_zipIdx_iff_getElem?.mp hx) (by simpa using taken)
        exact ⟨this.1, this.2.1⟩)
    rw [hrangeOf] at sliced
    have := sourceBlocks_ok hblocks
    rw [rangeKeys, sliced] at this
    exact this.symm
  have keys : ((req.storedChunks keysToStore).flatMap fun g => g.chunks.map (·.1)) =
      keysToStore := by
    rw [RequestOffloadState.storedChunks, flatMap_map]
    simp only [acceptedChunks_keys]
    rw [← filter_flatMap]
    exact filter_mem_kept (offloadKeys_nodup req) (takenKeys.trans offeredKeys)
  refine ⟨rfl, ⟨?_, ?_⟩, ?_⟩
  · rw [GPULoadStoreSpec.new_ok hspec, collected]
    have blocks : ((req.storedChunks keysToStore).map fun g => (g.reads config.blocksPerChunk).map
        fun copy => (copy.position, copy.blockId)).flatten.map (·.2) =
        ((req.storedChunks keysToStore).map (·.view manager config.blocksPerChunk)).flatMap
          (·.blocks) := by
      rw [map_flatten, map_map, flatMap_map, ← flatMap_def]
      congr 1
      funext g
      rw [Function.comp_apply, map_map]
      rfl
    have sizes : ((req.storedChunks keysToStore).map fun g => (g.reads config.blocksPerChunk).map
        fun copy => (copy.position, copy.blockId)).map (·.length) =
        ((req.storedChunks keysToStore).map (·.view manager config.blocksPerChunk)).map
          (·.blocks.length) := by
      simp [StoredChunks.view, storedGroup, groupCopies, StoredChunks.reads]
    have starts : ((req.storedChunks keysToStore).map fun g => (g.reads config.blocksPerChunk).map
        fun copy => (copy.position, copy.blockId)).map
          (fun blocks => (blocks.head?.map (·.1)).getD 0) =
        ((req.storedChunks keysToStore).map (·.view manager config.blocksPerChunk)).map
          (·.start) := by
      simp [StoredChunks.view, storedGroup, groupCopies, StoredChunks.reads, Function.comp_def]
    rw [blocks, sizes, starts]
  · rw [flatMap_map]
    conv_lhs => rw [← keys, map_flatMap]
    rfl
  · intro g hg
    obtain ⟨gs, hgs, rfl⟩ := mem_map.mp hg
    constructor
    · have own := (offloadKeys_nodup req)
      rw [nodup_flatMap] at own
      have nodup : ((acceptedChunks gs.2 keysToStore).map (·.1)).Nodup := by
        rw [acceptedChunks_keys]
        exact (own.1 gs hgs).filter _
      show ((acceptedChunks gs.2 keysToStore).map (manager.chunkOf ∘ Prod.fst)).Nodup
      rw [← map_map]
      apply List.Nodup.map_on _ nodup
      intro key hkey key' hkey' same
      rw [acceptedChunks_keys, mem_filter] at hkey hkey'
      exact inj_on_of_nodup_map separate (by simpa using hkey.2) (by simpa using hkey'.2) same
    · intro chunk hchunk
      obtain ⟨place, taken⟩ := mem_acceptedChunks hchunk
      exact (inRange gs hgs chunk.2 chunk.1 place taken).2.2

end Jobs

/-! The other jobs of the scheduler: loads, whose groups are gap-free ranges of blocks, and the
stores of one boundary block for each group. -/

variable {manager : OffloadingManager}

/-! Loads -/

section Load

/-- The key behind which a chunk is loaded: that of the partial tail for the last chunk when one
is loaded, otherwise the chunk's own. -/
def loadKey (req : RequestOffloadState config) (g : GroupOffloadConfig) (numCachedTokens chunkIdx : Nat) :
    Option OffloadKey :=
  match req.partialTailBoundary with
  | some boundary =>
    if chunkIdx + 1 = cdiv numCachedTokens g.tokensPerChunk then
      (req.makeBoundaryKey g.groupIdx boundary).toOption
    else chunkKey req.blockHashes g chunkIdx
  | none => chunkKey req.blockHashes g chunkIdx

def loadCopies (req : RequestOffloadState config) (g : GroupOffloadConfig)
    (groupBlocks : List KVCacheBlock) (numCachedTokens : Nat) : List LogicalCopy :=
  let numGpuBlocks := cdiv numCachedTokens g.tokensPerBlock
  let loadStart := loadStartGpuBlockIdx groupBlocks
    (cdiv req.numLocallyComputedTokens g.tokensPerBlock) numGpuBlocks
  ((slice groupBlocks loadStart numGpuBlocks).zipIdx loadStart).filterMap fun (block, position) =>
    (loadKey req g numCachedTokens (position / config.blocksPerChunk)).map fun key =>
      ⟨position, block.blockId, key⟩

theorem loadStart_le {groupBlocks : List KVCacheBlock} {first numGpuBlocks : Nat}
    (h : first ≤ numGpuBlocks) :
    loadStartGpuBlockIdx groupBlocks first numGpuBlocks ≤ numGpuBlocks := by
  rw [loadStartGpuBlockIdx]
  split
  · rename_i i found
    have inside := (findIdx?_eq_some_iff_getElem.mp found).1
    rw [slice_length] at inside
    omega
  · exact Nat.le_refl _

theorem cdiv_cdiv {a b c : Nat} (hb : 0 < b) (hc : 0 < c) : cdiv (cdiv a b) c = cdiv a (b * c) := by
  have hbc := Nat.mul_pos hb hc
  apply Nat.le_antisymm
  · rw [cdiv_le_iff hc, cdiv_le_iff hb, Nat.mul_assoc, Nat.mul_comm c b]
    exact cdiv_mul_ge hbc
  · rw [cdiv_le_iff hbc, Nat.mul_comm b c, ← Nat.mul_assoc]
    refine Nat.le_trans (cdiv_mul_ge hb) (Nat.mul_le_mul_right _ (cdiv_mul_ge hc))

theorem range_numChunks {k start stop : Nat} (hk : 0 < k) (h : start < stop) :
    cdiv (stop - start + start % k) k = cdiv stop k - start / k := by
  have split : stop - start + start % k + start / k * k = stop := by
    have := Nat.mod_add_div start k
    rw [Nat.mul_comm] at this
    omega
  have shifted : cdiv stop k = cdiv (stop - start + start % k) k + start / k := by
    conv_lhs => rw [← split]
    unfold cdiv
    rw [show stop - start + start % k + start / k * k + k - 1 =
      stop - start + start % k + k - 1 + k * (start / k) by rw [Nat.mul_comm k]; omega,
      Nat.add_mul_div_left _ _ hk]
  omega

variable {req : RequestOffloadState config} {g : GroupOffloadConfig} {s : RequestGroupState}
  {groupBlocks : List KVCacheBlock} {numCachedTokens : Nat} {load : GroupLoad}

theorem slice_chunkKey (mem : (g, s) ∈ req.groups) {start stop i : Nat}
    (stored : stop ≤ s.offloadKeys.length) (inside : start + i < stop) :
    (slice s.offloadKeys start stop)[i]? = chunkKey req.blockHashes g (start + i) := by
  obtain ⟨j, hg, hs⟩ := groups_at req mem
  rw [slice_getElem?, if_pos inside]
  obtain ⟨key, hkey⟩ : ∃ key, s.offloadKeys[start + i]? = some key :=
    ⟨_, getElem?_eq_getElem (by omega)⟩
  rw [hkey, req.keyed j g s hg hs _ _ hkey]

theorem cdiv_tokensPerChunk (mem : (g, s) ∈ req.groups) (n : Nat) :
    cdiv n g.tokensPerChunk = cdiv (cdiv n g.tokensPerBlock) config.blocksPerChunk := by
  obtain ⟨j, hg, -⟩ := groups_at req mem
  have inConfig := mem_of_getElem? hg
  rw [config.chunkTokens g inConfig, cdiv_cdiv (config.blockTokens g inConfig) config.chunked]

theorem loadGroup_keys (mem : (g, s) ∈ req.groups) {loadStart : Nat}
    (hstart : loadStart = loadStartGpuBlockIdx groupBlocks
    (cdiv req.numLocallyComputedTokens g.tokensPerBlock) (cdiv numCachedTokens g.tokensPerBlock))
    (pending : loadStart < cdiv numCachedTokens g.tokensPerBlock)
    (h : loadGroup req g s groupBlocks numCachedTokens = .ok load) :
    load.keys.length = cdiv numCachedTokens g.tokensPerChunk - loadStart / config.blocksPerChunk ∧
    ∀ i < load.keys.length, load.keys[i]? =
    loadKey req g numCachedTokens (loadStart / config.blocksPerChunk + i) := by
  have chunks := cdiv_tokensPerChunk mem numCachedTokens
  have first : loadStart / config.blocksPerChunk < cdiv numCachedTokens g.tokensPerChunk := by
    rw [chunks, lt_cdiv_iff config.chunked]
    exact Nat.lt_of_le_of_lt (Nat.div_mul_le_self _ _) pending
  simp only [loadGroup, bind_eq_ok, pyAssert_ok, ← hstart] at h
  obtain ⟨_, -, _, -, _, -, keys, hkeys, result⟩ := h
  obtain rfl := Except.ok.inj result
  rw [groupKeysToLoad, if_neg (by omega)] at hkeys
  simp only [bind_eq_ok, pyAssert_ok] at hkeys
  obtain ⟨_, stored, hkeys⟩ := hkeys
  cases boundary : req.partialTailBoundary with
  | none =>
    simp only [boundary, Option.isSome_none, Bool.false_eq_true, if_false, Nat.sub_zero] at hkeys stored
    obtain rfl := Except.ok.inj hkeys
    have length : (slice s.offloadKeys (loadStart / config.blocksPerChunk)
        (cdiv numCachedTokens g.tokensPerChunk)).length =
        cdiv numCachedTokens g.tokensPerChunk - loadStart / config.blocksPerChunk := by
      rw [slice_length, Nat.min_eq_left stored]
    refine ⟨length, ?_⟩
    intro i hi
    rw [length] at hi
    rw [loadKey, boundary]
    exact slice_chunkKey mem stored (by omega)
  | some boundaryTokens =>
    simp only [boundary, Option.isSome_some, if_true, bind_eq_ok] at hkeys stored
    obtain ⟨tailKey, htail, hkeys⟩ := hkeys
    obtain rfl := Except.ok.inj hkeys
    have length : (slice s.offloadKeys (loadStart / config.blocksPerChunk)
        (cdiv numCachedTokens g.tokensPerChunk - 1)).length =
        cdiv numCachedTokens g.tokensPerChunk - 1 - loadStart / config.blocksPerChunk := by
      rw [slice_length, Nat.min_eq_left stored]
    have total : (slice s.offloadKeys (loadStart / config.blocksPerChunk)
        (cdiv numCachedTokens g.tokensPerChunk - 1) ++ [tailKey]).length =
        cdiv numCachedTokens g.tokensPerChunk - loadStart / config.blocksPerChunk := by
      rw [length_append, length, length_singleton]
      omega
    refine ⟨total, ?_⟩
    intro i hi
    rw [total] at hi
    rw [loadKey, boundary]
    by_cases last : i + 1 = cdiv numCachedTokens g.tokensPerChunk - loadStart / config.blocksPerChunk
    · -- the last chunk is the partial tail
      simp only
      rw [if_pos (by omega), htail, getElem?_append_right (by omega), length]
      simp only [Except.toOption]
      rw [show i - (cdiv numCachedTokens g.tokensPerChunk - 1 -
        loadStart / config.blocksPerChunk) = 0 by omega]
      rfl
    · simp only
      rw [if_neg (by omega), getElem?_append_left (by omega)]
      exact slice_chunkKey mem stored (by omega)

theorem loadGroup_blocks (cached : req.numLocallyComputedTokens ≤ numCachedTokens)
    (h : loadGroup req g s groupBlocks numCachedTokens = .ok load) :
    load.blockIndex = loadStartGpuBlockIdx groupBlocks
    (cdiv req.numLocallyComputedTokens g.tokensPerBlock) (cdiv numCachedTokens g.tokensPerBlock) ∧
    load.blockIds = (slice groupBlocks load.blockIndex
    (cdiv numCachedTokens g.tokensPerBlock)).map (·.blockId) ∧ load.size = load.blockIds.length ∧
    load.size = cdiv numCachedTokens g.tokensPerBlock - load.blockIndex ∧
    (load.size = 0 → load.keys = []) := by
  simp only [loadGroup, bind_eq_ok, pyAssert_ok] at h
  obtain ⟨_, long, _, -, _, -, keys, hkeys, result⟩ := h
  obtain rfl := Except.ok.inj result
  have before := @loadStart_le groupBlocks _ _ (cdiv_mono (b := g.tokensPerBlock) cached)
  refine ⟨rfl, rfl, ?_, rfl, ?_⟩
  · simp only [length_map, slice_length]
    omega
  · intro nothing
    rw [groupKeysToLoad, if_pos nothing] at hkeys
    exact (Except.ok.inj hkeys).symm

def GroupLoad.view (manager : OffloadingManager) (load : GroupLoad) : GroupCopies where
  blocks := load.blockIds
  start := load.blockIndex
  chunks := load.keys.map manager.chunkOf

theorem loadGroup_pairs (mem : (g, s) ∈ req.groups)
    (cached : req.numLocallyComputedTokens ≤ numCachedTokens)
    (h : loadGroup req g s groupBlocks numCachedTokens = .ok load) :
    (load.view manager).chunks.length = (load.view manager).numChunks config.blocksPerChunk ∧
    (load.view manager).pairs config.blocksPerChunk =
    (loadCopies req g groupBlocks numCachedTokens).map
    (·.toBlockCopy manager config.blocksPerChunk) := by
  have chunked := config.chunked
  obtain ⟨index, blockIds, size, pending, noKeys⟩ := loadGroup_blocks cached h
  have chunks := cdiv_tokensPerChunk mem numCachedTokens
  have copies : loadCopies req g groupBlocks numCachedTokens =
      ((slice groupBlocks load.blockIndex (cdiv numCachedTokens g.tokensPerBlock)).zipIdx
        load.blockIndex).filterMap fun x => (loadKey req g numCachedTokens
          (x.2 / config.blocksPerChunk)).map fun key => ⟨x.2, x.1.blockId, key⟩ := by
    rw [loadCopies, ← index]
  by_cases nothing : load.size = 0
  · have noBlocks : load.blockIds = [] := length_eq_zero_iff.mp (size ▸ nothing)
    have noSlice : slice groupBlocks load.blockIndex (cdiv numCachedTokens g.tokensPerBlock) = [] := by
      rw [noBlocks] at blockIds
      exact map_eq_nil_iff.mp blockIds.symm
    rw [copies, noSlice]
    simp [GroupLoad.view, GroupCopies.numChunks, GroupCopies.pairs, noBlocks, noKeys nothing]
  obtain ⟨k, hk⟩ : ∃ k, k = config.blocksPerChunk := ⟨_, rfl⟩
  have started : load.blockIndex < cdiv numCachedTokens g.tokensPerBlock := by omega
  obtain ⟨count, keyAt⟩ := loadGroup_keys mem index started h
  have occupied : ¬ (load.view manager).blocks.length = 0 := by
    rw [show (load.view manager).blocks = load.blockIds from rfl, ← size]
    exact nothing
  have numChunks : (load.view manager).numChunks config.blocksPerChunk = load.keys.length := by
    rw [GroupCopies.numChunks, if_neg occupied, count, chunks,
      ← range_numChunks chunked started, GroupLoad.view, ← size, pending]
  refine ⟨by rw [numChunks, GroupLoad.view, length_map], ?_⟩
  rw [← hk] at numChunks chunks count keyAt chunked copies ⊢
  have room : load.blockIds.length + load.blockIndex % k ≤ load.keys.length * k := by
    rw [← numChunks, GroupCopies.numChunks, if_neg occupied]
    exact cdiv_mul_ge chunked
  -- the block at index `p` goes with sub-block `p % k` of the chunk of `p / k`
  have place : ∀ i < load.blockIds.length, (load.blockIndex % k + i) / k < load.keys.length ∧
      (load.blockIndex + i) / k = load.blockIndex / k + (load.blockIndex % k + i) / k ∧
        (load.blockIndex + i) % k = (load.blockIndex % k + i) % k := by
    intro i hi
    have split : load.blockIndex + i = load.blockIndex % k + i + k * (load.blockIndex / k) := by
      have := Nat.mod_add_div load.blockIndex k
      omega
    refine ⟨(Nat.div_lt_iff_lt_mul chunked).mpr (by omega), ?_, ?_⟩
    · rw [split, Nat.add_mul_div_left _ _ chunked, Nat.add_comm]
    · rw [split, Nat.add_mul_mod_self_left]
  have eachKey : ∀ x ∈ (slice groupBlocks load.blockIndex
      (cdiv numCachedTokens g.tokensPerBlock)).zipIdx load.blockIndex,
      ((loadKey req g numCachedTokens (x.2 / k)).map fun key =>
        (⟨x.2, x.1.blockId, key⟩ : LogicalCopy)).isSome = true := by
    intro x hx
    obtain ⟨i, hi⟩ := mem_iff_getElem?.mp hx
    rw [getElem?_zipIdx, Option.map_eq_some_iff] at hi
    obtain ⟨block, hblock, rfl⟩ := hi
    have inside : i < load.blockIds.length := by
      rw [blockIds, length_map]
      exact (List.getElem?_eq_some_iff.mp hblock).1
    obtain ⟨bound, chunk, -⟩ := place i inside
    simp only [chunk]
    rw [← keyAt _ bound, getElem?_eq_getElem bound]
    rfl
  rw [copies]
  apply ext_getElem?
  intro i
  rw [getElem?_map, filterMap_getElem?_of_some eachKey, GroupCopies.pairs,
    getElem?_zipWith, getElem?_zipIdx]
  have blockAt : (load.view manager).blocks[i]? = ((slice groupBlocks load.blockIndex
      (cdiv numCachedTokens g.tokensPerBlock))[i]?).map (·.blockId) := by
    rw [show (load.view manager).blocks = load.blockIds from rfl, ← getElem?_map, ← blockIds]
  rw [blockAt]
  cases hblock : (slice groupBlocks load.blockIndex
      (cdiv numCachedTokens g.tokensPerBlock))[i]? with
  | none => simp
  | some block =>
    have inside : i < load.blockIds.length := by
      rw [blockIds, length_map]
      exact (List.getElem?_eq_some_iff.mp hblock).1
    obtain ⟨bound, chunk, sub⟩ := place i inside
    have key := keyAt _ bound
    rw [getElem?_eq_getElem bound] at key
    have label : (((subBlocks k (load.view manager).chunks).drop
        ((load.view manager).start % k)).take (load.view manager).blocks.length)[i]? =
          some (manager.chunkOf (load.keys[(load.blockIndex % k + i) / k]),
            (load.blockIndex % k + i) % k) := by
      have own : i < (load.view manager).blocks.length := inside
      rw [getElem?_take, if_pos own, getElem?_drop, subBlocks_getElem? chunked]
      simp only [GroupLoad.view, getElem?_map]
      rw [getElem?_eq_getElem bound]
      rfl
    rw [label]
    simp only [Option.map_some, Option.bind_some]
    rw [chunk, ← key]
    simp only [Option.map_some, LogicalCopy.toBlockCopy, sub]

variable {req' : RequestOffloadState config} {blocks : List (List KVCacheBlock)}
  {numExternalTokens : Nat} {job : TransferJob}

theorem updateStateAfterAlloc_stands
    (h : updateStateAfterAlloc manager req blocks numExternalTokens = .ok (req', some job)) :
    job.Stands manager config (req.groups.map fun gs =>
    loadCopies req gs.1 (blocks.getD gs.1.groupIdx [])
    (req.numLocallyComputedTokens + numExternalTokens)) := by
  rw [updateStateAfterAlloc] at h
  split at h
  · cases h
  simp only [bind_eq_ok] at h
  obtain ⟨_, -, loads, hloads, gpuSpec, hspec, result⟩ := h
  cases result
  have each := (forall₂_and_mem (mapM_eq_ok.mp hloads)).imp fun gs load hload => by
    have ran := hload.2
    simp only [bind_eq_ok, pyGet_ok] at ran
    obtain ⟨groupBlocks, hget, hgroup⟩ := ran
    have given : blocks.getD gs.1.groupIdx [] = groupBlocks := by
      rw [getD_eq_getElem?_getD, hget]
      rfl
    have sized := loadGroup_blocks (Nat.le_add_right _ numExternalTokens) hgroup
    have paired := @loadGroup_pairs _ manager _ _ _ _ _ _ hload.1
      (Nat.le_add_right _ numExternalTokens) hgroup
    rw [← given] at paired
    exact And.intro sized.2.2.1 paired
  have sizes : loads.map (·.size) = loads.map (·.blockIds.length) := by
    apply map_congr_left
    intro load hload
    obtain ⟨gs, -, hgs⟩ := mem_right_of_forall₂ each hload
    exact hgs.1
  have laidOut : TransferJob.LaidOut
      { isStore   := false
        keys      := loads.flatMap (·.keys)
        gpuSpec   := gpuSpec
        cpuChunks := (loads.flatMap (·.keys)).map manager.chunkOf }
      (loads.map (·.view manager)) := by
    constructor
    · rw [GPULoadStoreSpec.new_ok hspec, sizes, flatMap_map, map_map, map_map]
      rfl
    · rw [map_flatMap, flatMap_map]
      rfl
  apply stands_of_fits laidOut
  · rw [length_map, ← each.length_eq, ← groups_fst req, length_map]
  · intro view hview
    obtain ⟨load, hload, rfl⟩ := mem_map.mp hview
    obtain ⟨gs, -, hgs⟩ := mem_right_of_forall₂ each hload
    exact hgs.2.1
  · rw [map_map, map_map]
    refine (map_eq_of_forall₂ ?_).symm
    rw [forall₂_map_right_iff]
    exact each.imp fun gs load h => h.2.2.symm

end Load

end VllmAmpere.OffloadTransfer
