import VllmAmpere.BuiltTransfers

/-! The store jobs of boundary states: at most one block for each group. -/

open List

namespace VllmAmpere.OffloadTransfer

open OffloadEvents (OffloadKey)

variable {config : SchedulerOffloadConfig} {manager : OffloadingManager}

def singleView (manager : OffloadingManager) : Option LogicalCopy → GroupCopies
  | none => ⟨[], 0, []⟩
  | some copy => ⟨[copy.blockId], copy.position, [manager.chunkOf copy.key]⟩

theorem singleView_fits (chunked : 0 < config.blocksPerChunk) (copy : Option LogicalCopy) :
    (singleView manager copy).chunks.length =
    (singleView manager copy).numChunks config.blocksPerChunk := by
  cases copy with
  | none => rfl
  | some copy =>
    have one : cdiv (1 + copy.position % config.blocksPerChunk) config.blocksPerChunk = 1 := by
      have := Nat.mod_lt copy.position chunked
      apply Nat.le_antisymm
      · exact (cdiv_le_iff chunked).mpr (by omega)
      · exact (lt_cdiv_iff chunked).mpr (by omega)
    simp [singleView, GroupCopies.numChunks, one]

theorem singleView_pairs (chunked : 0 < config.blocksPerChunk) (copy : Option LogicalCopy) :
    (singleView manager copy).pairs config.blocksPerChunk =
    copy.toList.map (·.toBlockCopy manager config.blocksPerChunk) := by
  cases copy with
  | none => rfl
  | some copy =>
    have bound := Nat.mod_lt copy.position chunked
    have first : ((subBlocks config.blocksPerChunk [manager.chunkOf copy.key]).drop
        (copy.position % config.blocksPerChunk)).take 1 =
          [(manager.chunkOf copy.key, copy.position % config.blocksPerChunk)] := by
      apply ext_getElem?
      intro i
      cases i with
      | zero =>
        rw [getElem?_take, if_pos Nat.zero_lt_one, getElem?_drop, Nat.add_zero,
          subBlocks_getElem? chunked, Nat.div_eq_of_lt bound, Nat.mod_mod]
        rfl
      | succ i => simp
    rw [GroupCopies.pairs]
    simp only [singleView, length_singleton, first]
    rfl

theorem stands_of_single {job : TransferJob} {copies : List (Option LogicalCopy)}
    (laidOut : job.LaidOut (copies.map (singleView manager)))
    (count : copies.length = config.kvGroupConfigs.length) :
    job.Stands manager config (copies.map (·.toList)) := by
  apply stands_of_fits laidOut
  · rw [length_map, count]
  · intro view hview
    obtain ⟨copy, -, rfl⟩ := mem_map.mp hview
    exact singleView_fits config.chunked copy
  · rw [map_map, map_map]
    apply map_congr_left
    intro copy _
    exact singleView_pairs config.chunked copy

/-! A state at a chunk boundary -/

section Aligned

variable {req : RequestOffloadState config} {entry : BoundaryState} {job : TransferJob}

def alignedCopies (req : RequestOffloadState config) (entry : BoundaryState) :
    List (Option LogicalCopy) :=
  req.groups.map fun (g, _) =>
    if g.groupIdx = entry.groupIdx then
      let position := entry.boundary / g.tokensPerBlock - 1
      (chunkKey req.blockHashes g (position / config.blocksPerChunk)).map fun key =>
        ⟨position, entry.blockId, key⟩
    else none

theorem flatMap_set_replicate {α β : Type*} {f : α → List β} {e : α} (empty : f e = [])
    (n i : Nat) (x : α) (hi : i < n) : ((List.replicate n e).set i x).flatMap f = f x := by
  induction n generalizing i with
  | zero => omega
  | succ n ih =>
    rw [replicate_succ]
    cases i with
    | zero => simp [empty]
    | succ i =>
      rw [set_cons_succ, flatMap_cons, empty, nil_append, ih i (by omega)]

theorem makeBoundaryKey_aligned {g : GroupOffloadConfig} (mem : g ∈ config.kvGroupConfigs)
    {boundary : Nat} (positive : 0 < boundary) (aligned : boundary % g.tokensPerChunk = 0)
    {key : OffloadKey} (h : req.makeBoundaryKey g.groupIdx boundary = .ok key) :
    chunkKey req.blockHashes g
    ((boundary / g.tokensPerBlock - 1) / config.blocksPerChunk) = some key := by
  have chunked := config.chunked
  have tokens := config.blockTokens g mem
  have chunk := config.chunkTokens g mem
  have hashes := config.hashTokens g mem
  have hashCount := hashesPerChunk_pos mem
  obtain ⟨m, hm⟩ : ∃ m, boundary = g.tokensPerChunk * m :=
    ⟨boundary / g.tokensPerChunk, (Nat.mul_div_cancel' (Nat.dvd_of_mod_eq_zero aligned)).symm⟩
  obtain ⟨c, rfl⟩ : ∃ c, m = c + 1 := by
    refine ⟨m - 1, ?_⟩
    have : m ≠ 0 := by rintro rfl; omega
    omega
  have blocks : boundary / g.tokensPerBlock = config.blocksPerChunk * (c + 1) := by
    rw [hm, chunk, Nat.mul_assoc, Nat.mul_div_cancel_left _ tokens]
  have chunkIdx : (boundary / g.tokensPerBlock - 1) / config.blocksPerChunk = c := by
    rw [blocks, Nat.mul_succ]
    rw [show config.blocksPerChunk * c + config.blocksPerChunk - 1 =
      (config.blocksPerChunk - 1) + config.blocksPerChunk * c by omega,
      Nat.add_mul_div_left _ _ chunked, Nat.div_eq_of_lt (by omega), Nat.zero_add]
  have hashIdx : boundary / config.tokensPerHash =
      g.hashesPerChunk * c + g.hashesPerChunk - 1 + 1 := by
    rw [hm, ← hashes, Nat.mul_right_comm, Nat.mul_div_cancel _ config.hashed, Nat.mul_succ]
    omega
  rw [RequestOffloadState.makeBoundaryKey, hashIdx] at h
  simp only [bind_eq_ok, pyGet_ok] at h
  obtain ⟨hash, hget, result⟩ := h
  rw [chunkIdx, chunkKey, hget]
  exact congrArg some (Except.ok.inj result)

theorem buildAlignedBoundaryStoreJob_stands
    (h : buildAlignedBoundaryStoreJob manager req entry = .ok (some job)) :
    job.Stands manager config ((alignedCopies req entry).map (·.toList)) := by
  rw [buildAlignedBoundaryStoreJob] at h
  split at h
  · cases h
  rename_i g configIdx found
  split at h
  · cases h
  rename_i eligible
  simp only [bind_eq_ok] at h
  obtain ⟨key, hkey, h⟩ := h
  split at h
  · cases h
  · cases h
  rename_i keysToStore notEmpty taken
  simp only [bind_eq_ok] at h
  obtain ⟨gpuSpec, hspec, result⟩ := h
  cases result
  have mem := mem_of_find?_eq_some found
  have sameGroup : g.groupIdx = entry.groupIdx := by simpa using find?_some found
  have place := mem_zipIdx_iff_getElem?.mp mem
  have inConfig : g ∈ config.kvGroupConfigs := mem_of_getElem? place
  have inside := (List.getElem?_eq_some_iff.mp place).1
  have only : keysToStore = [key] := by
    have sub := manager.taken _ _ taken
    rcases sublist_singleton.mp sub with rfl | rfl
    · exact absurd rfl (notEmpty · )
    · rfl
  have aligned : entry.boundary % g.tokensPerChunk = 0 := by
    by_contra off
    exact eligible (.inr (.inr off))
  have chunk := makeBoundaryKey_aligned inConfig entry.positive aligned (sameGroup ▸ hkey)
  have copies : alignedCopies req entry =
      (List.replicate config.kvGroupConfigs.length none).set configIdx
        (some ⟨entry.boundary / g.tokensPerBlock - 1, entry.blockId, key⟩) := by
    have count : req.groups.length = config.kvGroupConfigs.length := by
      rw [← groups_fst req, length_map]
    apply ext_getElem
    · rw [alignedCopies, length_map, length_set, length_replicate, count]
    · intro j hj hj'
      have hgroup : j < req.groups.length := by simpa [alignedCopies] using hj
      have hconfig : j < config.kvGroupConfigs.length := count ▸ hgroup
      have itsConfig : (req.groups[j]).1 = config.kvGroupConfigs[j] := by
        have := congrArg (·[j]?) (groups_fst req)
        simpa [hgroup, hconfig] using this
      simp only [alignedCopies, getElem_map, getElem_set, itsConfig]
      by_cases here : configIdx = j
      · subst here
        have : config.kvGroupConfigs[configIdx] = g := (List.getElem?_eq_some_iff.mp place).2
        rw [if_pos rfl, this, if_pos sameGroup, chunk]
        rfl
      · have apart : config.kvGroupConfigs[j].groupIdx ≠ entry.groupIdx := by
          intro same
          apply here
          have atIdx := (List.getElem?_eq_some_iff.mp place).2
          have nodup := config.groupIds
          rw [nodup_iff_injective_getElem] at nodup
          have := @nodup ⟨configIdx, by simpa using inside⟩ ⟨j, by simpa using hconfig⟩
            (by simp [atIdx, sameGroup, same])
          exact congrArg Fin.val this
        rw [if_neg here, if_neg apart, getElem_replicate]
  rw [copies]
  apply stands_of_single
  · constructor
    · rw [GPULoadStoreSpec.new_ok hspec, map_set, map_replicate, map_set,
        map_replicate, map_set, map_replicate,
        flatMap_set_replicate (by rfl) _ _ _ inside]
      rfl
    · rw [only, map_set, map_replicate, flatMap_set_replicate (by rfl) _ _ _ inside]
      rfl
  · rw [length_set, length_replicate]

end Aligned

/-! A state behind the last full chunk -/

section Tail

variable {req : RequestOffloadState config} {handoffs : List BoundaryState} {job : TransferJob}

/-- The block of each group at the boundary, where the manager takes its key. -/
def tailCopies (req : RequestOffloadState config) (handoffs : List BoundaryState)
    (keysToStore : List OffloadKey) : List (Option LogicalCopy) :=
  let entries := handoffs.filter fun entry => entry.boundary % partialTailBlockSize config ≠ 0
  let boundary := (entries.head?.map (·.boundary)).getD 0
  let blockIdx := boundary / partialTailBlockSize config
  req.groups.map fun (g, s) => do
    let key ← (req.makeBoundaryKey g.groupIdx boundary).toOption
    let blockId ← (tailBlock entries blockIdx g s).toOption
    if key ∈ keysToStore then some ⟨blockIdx, blockId, key⟩ else none

theorem foldl_set_getElem? {α : Type*} (v : α) (indices : List Nat) (xs : List α) (j : Nat) :
    (indices.foldl (fun xs i => xs.set i v) xs)[j]? =
    if j ∈ indices then xs[j]?.map fun _ => v else xs[j]? := by
  induction indices generalizing xs with
  | nil => simp
  | cons i rest ih =>
    rw [foldl_cons, ih, getElem?_set]
    by_cases here : i = j
    · subst here
      by_cases inside : i < xs.length
      · simp [inside]
      · simp [inside]
    · have : j ≠ i := fun h => here h.symm
      simp [here, this]

theorem flatMap_kept {α β : Type*} (p : α → Bool) (f : α → β) (xs : List α) :
    (xs.flatMap fun x => if p x then [f x] else []) = (xs.filter p).map f := by
  induction xs with
  | nil => rfl
  | cons x xs ih =>
    rw [flatMap_cons, ih]
    cases hx : p x <;> simp [hx]

theorem idxOf?_of_mem_zipIdx {α : Type*} [DecidableEq α] {xs : List α} (distinct : xs.Nodup)
    {x : α × Nat} (mem : x ∈ xs.zipIdx) : xs.idxOf? x.1 = some x.2 := by
  have place := mem_zipIdx_iff_getElem?.mp mem
  obtain ⟨inside, value⟩ := List.getElem?_eq_some_iff.mp place
  rw [List.idxOf?, findIdx?_eq_some_iff_getElem]
  refine ⟨inside, by simpa using value, ?_⟩
  intro j hj same
  have injective := nodup_iff_injective_getElem.mp distinct
  have := @injective ⟨j, by omega⟩ ⟨x.2, inside⟩ (by simpa [value] using same)
  have := congrArg Fin.val this
  simp only at this
  omega

theorem acceptedGroups_ok {keys keysToStore : List OffloadKey} (distinct : keys.Nodup)
    (taken : keysToStore.Sublist keys) {accepted : List Nat}
    (h : acceptedGroups keys keysToStore = .ok accepted) :
    accepted = (keys.zipIdx.filter (·.1 ∈ keysToStore)).map (·.2) := by
  have listed : (keys.zipIdx.filter (·.1 ∈ keysToStore)).map (·.1) = keysToStore := by
    have := filter_mem_kept distinct taken
    rw [← zipIdx_map_fst 0 keys, filter_map] at this
    exact this
  rw [acceptedGroups, mapM_eq_ok] at h
  conv at h => arg 2; rw [← listed]
  rw [forall₂_map_left_iff] at h
  refine (map_eq_of_forall₂ ((forall₂_and_mem h).imp ?_)).symm
  intro x idx ⟨hx, hidx⟩
  rw [idxOf?_of_mem_zipIdx distinct (mem_of_mem_filter hx)] at hidx
  exact Except.ok.inj hidx

theorem foldl_set_accepted {keys keysToStore : List OffloadKey} (n v : Nat)
    (count : keys.length = n) :
    ((keys.zipIdx.filter (·.1 ∈ keysToStore)).map (·.2)).foldl (fun xs i => xs.set i v)
    (List.replicate n 0) = keys.zipIdx.map fun z => if z.1 ∈ keysToStore then v else 0 := by
  apply ext_getElem?
  intro j
  rw [foldl_set_getElem?, getElem?_map, getElem?_zipIdx, getElem?_replicate]
  by_cases inside : j < n
  · obtain ⟨key, hkey⟩ : ∃ key, keys[j]? = some key :=
      ⟨_, getElem?_eq_getElem (count ▸ inside)⟩
    have mem : j ∈ (keys.zipIdx.filter (·.1 ∈ keysToStore)).map (·.2) ↔ key ∈ keysToStore := by
      rw [mem_map]
      constructor
      · rintro ⟨z, hz, rfl⟩
        rw [mem_filter] at hz
        have := mem_zipIdx_iff_getElem?.mp hz.1
        obtain rfl : z.1 = key := Option.some.inj (this.symm.trans hkey)
        simpa using hz.2
      · intro hin
        exact ⟨(key, j), mem_filter.mpr ⟨mem_zipIdx_iff_getElem?.mpr hkey, by simpa using hin⟩,
          rfl⟩
    rw [hkey, if_pos inside]
    by_cases hin : key ∈ keysToStore
    · rw [if_pos (mem.mpr hin)]
      simp [hin]
    · rw [if_neg (fun h => hin (mem.mp h))]
      simp [hin]
  · have none_there : keys[j]? = none := getElem?_eq_none (by omega)
    rw [none_there, if_neg inside]
    simp

theorem makeBoundaryKey_groupIdx {groupIdx boundary : Nat} {key : OffloadKey}
    (h : req.makeBoundaryKey groupIdx boundary = .ok key) : key.groupIdx = groupIdx := by
  rw [RequestOffloadState.makeBoundaryKey] at h
  split at h
  · obtain ⟨hash, -, result⟩ := bind_eq_ok.mp h
    rw [← Except.ok.inj result]
  · obtain ⟨hash, -, result⟩ := bind_eq_ok.mp h
    rw [← Except.ok.inj result]

theorem buildPartialTailStoreJob_stands
    (h : buildPartialTailStoreJob manager req handoffs = .ok (some job)) :
    job.Stands manager config ((tailCopies req handoffs job.keys).map (·.toList)) := by
  rw [buildPartialTailStoreJob] at h
  split at h
  · cases h
  obtain ⟨entries, hentries⟩ : ∃ entries, entries =
    handoffs.filter fun entry => entry.boundary % partialTailBlockSize config ≠ 0 := ⟨_, rfl⟩
  simp only [← hentries] at h
  split at h
  · cases h
  rename_i first others
  obtain ⟨blockIdx, hblockIdx⟩ : ∃ blockIdx, blockIdx =
    first.boundary / partialTailBlockSize config := ⟨_, rfl⟩
  simp only [bind_eq_ok, ← hblockIdx] at h
  obtain ⟨_, -, _, -, _, -, _, -, h⟩ := h
  split at h
  · cases h
  simp only [bind_eq_ok] at h
  obtain ⟨keys, hkeys, blockIds, hblocks, _, -, h⟩ := h
  split at h
  · cases h
  · cases h
  rename_i keysToStore _ taken
  simp only [bind_eq_ok] at h
  obtain ⟨accepted, haccepted, sources, hsources, gpuSpec, hspec, result⟩ := h
  cases result
  have keysAt := mapM_eq_ok.mp hkeys
  have blocksAt := mapM_eq_ok.mp hblocks
  have keyCount := keysAt.length_eq
  have groupCount : req.groups.length = config.kvGroupConfigs.length := by
    rw [← groups_fst req, length_map]
  have distinct : keys.Nodup := by
    have ids : config.kvGroupConfigs.map (·.groupIdx) = keys.map (·.groupIdx) := by
      refine map_eq_of_forall₂ ?_
      rw [forall₂_map_right_iff]
      exact keysAt.imp fun g key h => (makeBoundaryKey_groupIdx h).symm
    exact (ids ▸ config.groupIds).of_map _
  have takenKeys := manager.taken _ _ taken
  obtain rfl := acceptedGroups_ok distinct takenKeys haccepted
  -- the copies, key by key
  have copies : tailCopies req handoffs keysToStore = keys.zipIdx.map fun z =>
      if z.1 ∈ keysToStore then some ⟨blockIdx, blockIds.getD z.2 0, z.1⟩ else none := by
    apply ext_getElem
    · simp [tailCopies, groupCount, keyCount]
    · intro j hj hj'
      have hkey : j < keys.length := by simpa using hj'
      have hgroup : j < req.groups.length := by omega
      have hconfig : j < config.kvGroupConfigs.length := by omega
      have hblock : j < blockIds.length := by
        rw [← blocksAt.length_eq]
        exact hgroup
      have itsConfig : (req.groups[j]).1 = config.kvGroupConfigs[j] := by
        have := congrArg (·[j]?) (groups_fst req)
        simpa [hgroup, hconfig] using this
      have itsKey := keysAt.get hconfig hkey
      have itsBlock := blocksAt.get hgroup hblock
      simp only [get_eq_getElem] at itsKey itsBlock
      have head : (((first :: others).head?.map (·.boundary)).getD 0) = first.boundary := rfl
      rw [← itsConfig] at itsKey
      simp only [tailCopies, ← hentries, head, ← hblockIdx, getElem_map, getElem_zipIdx,
        itsKey, itsBlock, Nat.zero_add]
      rw [getD_eq_getElem?_getD, getElem?_eq_getElem hblock]
      rfl
  have sourceIds : sources = (keys.zipIdx.filter (·.1 ∈ keysToStore)).map fun z =>
      blockIds.getD z.2 0 := by
    rw [mapM_eq_ok, forall₂_map_left_iff] at hsources
    refine (map_eq_of_forall₂ (hsources.imp ?_)).symm
    intro z blockId hblock
    rw [getD_eq_getElem?_getD, pyGet_ok.mp hblock]
    rfl
  have listed : (keys.zipIdx.filter (·.1 ∈ keysToStore)).map (·.1) = keysToStore := by
    have := filter_mem_kept distinct takenKeys
    rw [← zipIdx_map_fst 0 keys, filter_map] at this
    exact this
  simp only [copies]
  apply stands_of_single
  · constructor
    · rw [GPULoadStoreSpec.new_ok hspec, foldl_set_accepted _ _ keyCount.symm,
        foldl_set_accepted _ _ keyCount.symm, sourceIds, map_map, flatMap_map,
        map_map, map_map]
      refine congr (congr (congrArg GPULoadStoreSpec.mk ?_) ?_) ?_
      · rw [← flatMap_kept]
        congr 1
        funext z
        by_cases hz : z.1 ∈ keysToStore <;> simp [hz, singleView]
      · apply map_congr_left
        intro z _
        by_cases hz : z.1 ∈ keysToStore <;> simp [hz, singleView]
      · apply map_congr_left
        intro z _
        by_cases hz : z.1 ∈ keysToStore <;> simp [hz, singleView]
    · simp only
      conv_lhs => rw [← listed, map_map, ← flatMap_kept]
      rw [map_map, flatMap_map]
      congr 1
      funext z
      by_cases hz : z.1 ∈ keysToStore <;> simp [hz, singleView]
  · rw [length_map, length_zipIdx, keyCount]

end Tail

/-! Every job the scheduler builds and what the worker makes of it: each block goes with its
sub-block of its chunk, in every job but the stores in which a zeroed block stands behind one
that is read. -/

/-- What makes the scheduler build a job for a request. -/
inductive JobCall
  | store (numScheduledTokens : Nat)
  | alignedBoundary (entry : BoundaryState)
  | partialTail (handoffs : List BoundaryState)
  | load (blocks : List (List KVCacheBlock)) (numExternalTokens : Nat)

def JobCall.run (manager : OffloadingManager)
    (reachableStoreBlockMask : GroupOffloadConfig → Nat → Nat → Option Nat → List Nat →
      Option (List Bool)) (req : RequestOffloadState config) :
    JobCall → Except PyError (Option TransferJob)
  | store numScheduledTokens =>
    (buildStoreJob manager reachableStoreBlockMask req numScheduledTokens).map (·.2)
  | alignedBoundary entry => buildAlignedBoundaryStoreJob manager req entry
  | partialTail handoffs => buildPartialTailStoreJob manager req handoffs
  | load blocks numExternalTokens =>
    (updateStateAfterAlloc manager req blocks numExternalTokens).map (·.2)

def JobCall.copies (req : RequestOffloadState config) (keys : List OffloadKey) :
    JobCall → List (List LogicalCopy)
  | store _ => req.groups.map fun gs =>
    chunkCopies config.blocksPerChunk gs.2.blockIds (acceptedChunks gs.2 keys)
  | alignedBoundary entry => (alignedCopies req entry).map (·.toList)
  | partialTail handoffs => (tailCopies req handoffs keys).map (·.toList)
  | load blocks numExternalTokens => req.groups.map fun gs =>
    loadCopies req gs.1 (blocks.getD gs.1.groupIdx [])
      (req.numLocallyComputedTokens + numExternalTokens)

/-- In no group of a store does a zeroed block stand behind another block of the chunks that the
manager takes. -/
def JobCall.HoleFree (req : RequestOffloadState config) (keys : List OffloadKey) : JobCall → Prop
  | store _ => ∀ gs ∈ req.groups,
    NoHole (chunkBlockIds config.blocksPerChunk gs.2.blockIds (acceptedChunks gs.2 keys))
  | _ => True

variable
  {reachableStoreBlockMask : GroupOffloadConfig → Nat → Nat → Option Nat → List Nat → Option (List Bool)}
  {req req' : RequestOffloadState config} {job : TransferJob}

theorem buildStoreJob_stands_iff {numScheduledTokens : Nat}
    (h : buildStoreJob manager reachableStoreBlockMask req numScheduledTokens =
    .ok (req', some job)) :
    job.Stands manager config ((JobCall.store numScheduledTokens).copies req job.keys) ↔
    (JobCall.store numScheduledTokens).HoleFree req job.keys := by
  obtain ⟨isStore, laidOut, sound⟩ := buildStoreJob_ok h
  have count : (req.storedChunks job.keys).length = config.kvGroupConfigs.length := by
    rw [RequestOffloadState.storedChunks, length_map, ← groups_fst req, length_map]
  have copies : (JobCall.store numScheduledTokens).copies req job.keys =
      (req.storedChunks job.keys).map (·.reads config.blocksPerChunk) := by
    rw [JobCall.copies, RequestOffloadState.storedChunks, map_map]
    rfl
  have holes : (JobCall.store numScheduledTokens).HoleFree req job.keys ↔
      ∀ g ∈ req.storedChunks job.keys, g.HoleFree config.blocksPerChunk := by
    rw [RequestOffloadState.storedChunks, forall_mem_map]
    rfl
  rw [copies, holes]
  exact ⟨holeFree_of_stands laidOut isStore count sound, stands_of_holeFree laidOut count sound⟩

/-- A job pairs its blocks with the right sub-blocks of the right chunks exactly when it is not a
store with a hole. -/
theorem built_stands_iff {call : JobCall}
    (h : call.run manager reachableStoreBlockMask req = .ok (some job)) :
    job.Stands manager config (call.copies req job.keys) ↔ call.HoleFree req job.keys := by
  have ran : ∀ {x : Except PyError (RequestOffloadState config × Option TransferJob)},
      x.map (·.2) = .ok (some job) → ∃ req', x = .ok (req', some job) := by
    rintro (e | ⟨req', result⟩) hx
    · cases hx
    · cases hx
      exact ⟨req', rfl⟩
  cases call with
  | store numScheduledTokens =>
    obtain ⟨req', hbuilt⟩ := ran h
    exact buildStoreJob_stands_iff hbuilt
  | alignedBoundary entry =>
    exact ⟨fun _ => trivial, fun _ => buildAlignedBoundaryStoreJob_stands h⟩
  | partialTail handoffs =>
    exact ⟨fun _ => trivial, fun _ => buildPartialTailStoreJob_stands h⟩
  | load blocks numExternalTokens =>
    obtain ⟨req', hbuilt⟩ := ran h
    exact ⟨fun _ => trivial, fun _ => updateStateAfterAlloc_stands hbuilt⟩

/-! A window of four blocks in two chunks whose third block has been given to another request -/

def windowConfig : SchedulerOffloadConfig where
  kvGroupConfigs := [⟨0, 1, 2, 2, some 2, true, false, false⟩]
  blocksPerChunk := 2
  tokensPerHash := 1
  offloadPromptOnly := false
  supportsPartialTail := false
  alignmentTokens := none
  retentionInterval := none
  chunked := by decide
  hashed := by decide
  groupIds := by decide
  blockTokens := by simp
  chunkTokens := by simp
  hashTokens := by simp
  aligned := nofun
  partialTails := nofun

/-- Takes every key whose chunks stay apart; a key's chunk is its first byte. -/
def openManager : OffloadingManager where
  chunkOf := fun key => (key.blockHash.headD 0).toNat
  keysToStore := fun keys =>
    if (keys.map fun key => (key.blockHash.headD 0).toNat).Nodup then some keys else none
  taken := by
    intro keys accepted h
    split at h
    · cases h
      exact List.Sublist.refl _
    · cases h
  separate := by
    intro keys accepted _ h
    split at h
    · rename_i apart
      cases h
      exact apart
    · cases h

/-- A request of four tokens with the given block table. -/
def windowRequest (blockIds : List Nat) : RequestOffloadState windowConfig where
  numPromptTokens := 4
  numTokens := 4
  numComputedTokens := 0
  isFinished := false
  isAborted := false
  sharedPrefixBoundary := 0
  blockHashes := [[1], [2], [3], [4]]
  maxOffloadTokens := none
  numLocallyComputedTokens := 0
  partialTailBoundary := none
  chunkLevel := true
  groupStates := [⟨[⟨[2], 0⟩, ⟨[4], 0⟩], blockIds, 0⟩]
  tail := nofun
  chained := by decide
  perGroup := rfl
  keyed := by
    intro i g s hg hs c key hkey
    cases i with
    | succ i => cases hg
    | zero =>
      cases hg
      cases hs
      match c with
      | 0 => cases hkey; rfl
      | 1 => cases hkey; rfl
      | c + 2 => cases hkey

/-- With its whole table the request is stored as it should. -/
theorem whole_window_stands :
    ∃ job, (JobCall.store 4).run openManager (fun _ _ _ _ _ => none) (windowRequest [5, 6, 7, 8]) =
    .ok (some job) ∧ job.Stands openManager windowConfig
    ((JobCall.store 4).copies (windowRequest [5, 6, 7, 8]) job.keys) := by
  obtain ⟨job, hjob, holeFree⟩ : ∃ job,
      (JobCall.store 4).run openManager (fun _ _ _ _ _ => none) (windowRequest [5, 6, 7, 8]) =
        .ok (some job) ∧
      (JobCall.store 4).HoleFree (windowRequest [5, 6, 7, 8]) job.keys := by
    refine ⟨_, rfl, ?_⟩
    simp only [JobCall.HoleFree]
    decide
  exact ⟨job, hjob, (built_stands_iff hjob).mpr holeFree⟩

/-- With a hole the last block, at index 3, goes to the first half of its chunk. -/
theorem hole_shifts_blocks :
    ∃ job, (JobCall.store 4).run openManager (fun _ _ _ _ _ => none) (windowRequest [5, 6, 0, 8]) =
    .ok (some job) ∧ ((JobCall.store 4).copies (windowRequest [5, 6, 0, 8]) job.keys =
    [[⟨0, 5, ⟨[2], 0⟩⟩, ⟨1, 6, ⟨[2], 0⟩⟩, ⟨3, 8, ⟨[4], 0⟩⟩]]) ∧
    (probe true 2 (by decide) 0 0).transferAsync job.gpuSpec job.cpuChunks =
    .ok [⟨5, 2 * 2, 1⟩, ⟨6, 2 * 2 + 1, 1⟩, ⟨8, 4 * 2, 1⟩] ∧ ¬ job.Stands openManager windowConfig
    ((JobCall.store 4).copies (windowRequest [5, 6, 0, 8]) job.keys) := by
  refine ⟨_, rfl, by decide, by decide, ?_⟩
  intro stands
  have ran := stands (probe true 2 (by decide) 0 0) rfl rfl rfl
  revert ran
  decide

end VllmAmpere.OffloadTransfer
