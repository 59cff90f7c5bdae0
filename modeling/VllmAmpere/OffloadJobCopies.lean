import VllmAmpere.OffloadJobs
import VllmAmpere.TransferPairing

/-! The copies a job stands for, block by block, and how the worker pairs the blocks of one
group of a store: as it should unless a zeroed block stands behind one that is read. -/

open List

namespace VllmAmpere.OffloadTransfer

open OffloadEvents (OffloadKey)

/-- A block at its index in the request, with the key of the chunk it lies in. -/
structure LogicalCopy where
  position : Nat
  blockId : Nat
  key : OffloadKey
  deriving DecidableEq

def LogicalCopy.toBlockCopy (manager : OffloadingManager) (blocksPerChunk : Nat)
    (copy : LogicalCopy) : BlockCopy :=
  ⟨copy.blockId, manager.chunkOf copy.key, copy.position % blocksPerChunk⟩

def TransferJob.Stands (manager : OffloadingManager) (config : SchedulerOffloadConfig)
    (job : TransferJob) (copies : List (List LogicalCopy)) : Prop :=
  ∀ h : SingleDirectionOffloadingHandler, h.blocksPerChunk = config.blocksPerChunk →
    h.gpuToCpu = job.isStore → h.layerRefsPerGroup.length = config.kvGroupConfigs.length →
      h.transferAsync job.gpuSpec job.cpuChunks =
        .ok (h.transferOps (copies.map (·.map (·.toBlockCopy manager config.blocksPerChunk))))

def groupCopies (manager : OffloadingManager) (keys : List OffloadKey) (start : Nat)
    (copies : List LogicalCopy) : GroupCopies where
  blocks := copies.map (·.blockId)
  start := start
  chunks := keys.map manager.chunkOf

section Store

variable (manager : OffloadingManager) (blocksPerChunk : Nat) (blockIds : List Nat)
  (chunks : List (OffloadKey × Nat))

def acceptedChunks (s : RequestGroupState) (keysToStore : List OffloadKey) :
    List (OffloadKey × Nat) :=
  s.offloadKeys.zipIdx.filter (·.1 ∈ keysToStore)

def blockAt (cell : (OffloadKey × Nat) × Nat) : Nat :=
  blockIds.getD (cell.1.2 * blocksPerChunk + cell.2) 0

def chunkCopies : List LogicalCopy :=
  ((subBlocks blocksPerChunk chunks).filter (blockAt blocksPerChunk blockIds · ≠ 0)).map fun cell =>
    ⟨cell.1.2 * blocksPerChunk + cell.2, blockAt blocksPerChunk blockIds cell, cell.1.1⟩

def chunkBlockIds : List Nat :=
  (subBlocks blocksPerChunk chunks).map (blockAt blocksPerChunk blockIds)

def NoHole (ids : List Nat) : Prop :=
  0 ∉ ids.dropWhile (· = 0)

instance (ids : List Nat) : Decidable (NoHole ids) :=
  inferInstanceAs (Decidable (0 ∉ ids.dropWhile (· = 0)))

def storedGroup : GroupCopies :=
  groupCopies manager (chunks.map (·.1))
    (((chunkCopies blocksPerChunk blockIds chunks).head?.map (·.position)).getD 0)
    (chunkCopies blocksPerChunk blockIds chunks)

def cellLabel (cell : (OffloadKey × Nat) × Nat) : Nat × Nat :=
  (manager.chunkOf cell.1.1, cell.2)

theorem dropWhile_eq_drop_findIdx {α : Type*} (p : α → Bool) (xs : List α) :
    xs.dropWhile (fun x => !p x) = xs.drop (xs.findIdx p) := by
  induction xs with
  | nil => rfl
  | cons x xs ih =>
    rw [findIdx_cons]
    cases kept : p x <;> simp [kept, ih]

variable {manager blocksPerChunk blockIds chunks}

theorem noHole_iff : NoHole (chunkBlockIds blocksPerChunk blockIds chunks) ↔
    ∀ cell ∈ (subBlocks blocksPerChunk chunks).drop
    ((subBlocks blocksPerChunk chunks).findIdx (blockAt blocksPerChunk blockIds · ≠ 0)),
    decide (blockAt blocksPerChunk blockIds cell ≠ 0) = true := by
  have zeros : (fun id : Nat => decide (id = 0)) = fun id => !decide (id ≠ 0) := by
    funext id
    by_cases zero : id = 0 <;> simp [zero]
  rw [NoHole, zeros, dropWhile_eq_drop_findIdx, chunkBlockIds, findIdx_map, ← map_drop]
  simp only [mem_map, not_exists, not_and, decide_eq_true_eq]
  rfl

theorem chunkCopies_blocks : (chunkCopies blocksPerChunk blockIds chunks).map (·.blockId) =
    ((subBlocks blocksPerChunk chunks).filter (blockAt blocksPerChunk blockIds · ≠ 0)).map
    (blockAt blocksPerChunk blockIds) := by
  rw [chunkCopies, map_map]
  rfl

theorem chunkCopies_toBlockCopy :
    (chunkCopies blocksPerChunk blockIds chunks).map (·.toBlockCopy manager blocksPerChunk) =
    List.zipWith (fun blockId s => ⟨blockId, s.1, s.2⟩)
    (((subBlocks blocksPerChunk chunks).filter (blockAt blocksPerChunk blockIds · ≠ 0)).map
    (blockAt blocksPerChunk blockIds))
    (((subBlocks blocksPerChunk chunks).filter (blockAt blocksPerChunk blockIds · ≠ 0)).map
    (cellLabel manager)) := by
  rw [chunkCopies, map_map, zipWith_map, zipWith_self]
  apply map_congr_left
  intro cell hcell
  have inside := (mem_subBlocks.mp (mem_of_mem_filter hcell)).2
  simp [LogicalCopy.toBlockCopy, cellLabel, Nat.mod_eq_of_lt inside]

theorem chunk_labels : subBlocks blocksPerChunk ((chunks.map (·.1)).map manager.chunkOf) =
    (subBlocks blocksPerChunk chunks).map (cellLabel manager) := by
  rw [map_map, subBlocks_map]
  rfl

theorem storedGroup_skip (positive : 0 < blocksPerChunk)
    (last : ∀ chunk ∈ chunks, blockAt blocksPerChunk blockIds (chunk, blocksPerChunk - 1) ≠ 0)
    (some_chunk : chunks ≠ []) :
    (storedGroup manager blocksPerChunk blockIds chunks).start % blocksPerChunk =
    (subBlocks blocksPerChunk chunks).findIdx (blockAt blocksPerChunk blockIds · ≠ 0) := by
  cases chunks with
  | nil => exact absurd rfl some_chunk
  | cons c rest =>
    obtain ⟨bound, found⟩ := @subBlocks_first _ _ positive c rest
      (blockAt blocksPerChunk blockIds · ≠ 0) (decide_eq_true (last c mem_cons_self))
    rw [storedGroup, groupCopies, chunkCopies, head?_map, head?_filter, found]
    simp only [Option.map_some, Option.getD_some]
    rw [Nat.mul_comm, Nat.mul_add_mod, Nat.mod_eq_of_lt bound]

theorem read_length :
    ((subBlocks blocksPerChunk chunks).filter (blockAt blocksPerChunk blockIds · ≠ 0)).length +
    (subBlocks blocksPerChunk chunks).findIdx (blockAt blocksPerChunk blockIds · ≠ 0) ≤
    chunks.length * blocksPerChunk := by
  have kept := filter_drop_findIdx (fun cell => decide (blockAt blocksPerChunk blockIds cell ≠ 0))
    (subBlocks blocksPerChunk chunks)
  have short := length_filter_le
    (fun cell => decide (blockAt blocksPerChunk blockIds cell ≠ 0))
    ((subBlocks blocksPerChunk chunks).drop
      ((subBlocks blocksPerChunk chunks).findIdx (blockAt blocksPerChunk blockIds · ≠ 0)))
  have index : (subBlocks blocksPerChunk chunks).findIdx (blockAt blocksPerChunk blockIds · ≠ 0) ≤
    (subBlocks blocksPerChunk chunks).length := findIdx_le_length
  rw [kept, length_drop] at short
  rw [subBlocks_length] at short index
  omega

theorem storedGroup_blocks_length :
    (storedGroup manager blocksPerChunk blockIds chunks).blocks.length =
    ((subBlocks blocksPerChunk chunks).filter (blockAt blocksPerChunk blockIds · ≠ 0)).length := by
  rw [storedGroup, groupCopies, chunkCopies_blocks, length_map]

theorem zipWith_right_inj {α β γ : Type*} {f : α → β → γ}
    (inj : ∀ x y y', f x y = f x y' → y = y') {xs : List α} {ys zs : List β}
    (hys : ys.length = xs.length) (hzs : zs.length = xs.length)
    (h : List.zipWith f xs ys = List.zipWith f xs zs) : ys = zs := by
  apply ext_getElem (hys.trans hzs.symm)
  intro i hy hz
  have hx : i < xs.length := hys ▸ hy
  have := congrArg (·[i]?) h
  simp [hx, hy, hz] at this
  exact inj _ _ _ this

/-- The worker's pairs of a stored group are the ones it stands for if no hole lies in it, and
only then when the chunks are distinct. -/
theorem storedGroup_pairs (positive : 0 < blocksPerChunk)
    (last : ∀ chunk ∈ chunks, blockAt blocksPerChunk blockIds (chunk, blocksPerChunk - 1) ≠ 0)
    (distinct : (chunks.map fun chunk => manager.chunkOf chunk.1).Nodup) :
    (storedGroup manager blocksPerChunk blockIds chunks).pairs blocksPerChunk =
    (chunkCopies blocksPerChunk blockIds chunks).map (·.toBlockCopy manager blocksPerChunk) ↔
    NoHole (chunkBlockIds blocksPerChunk blockIds chunks) := by
  by_cases empty : chunks = []
  · subst empty
    simp [storedGroup, groupCopies, chunkCopies, GroupCopies.pairs, chunkBlockIds, NoHole]
  obtain ⟨kept, hkept⟩ : ∃ kept, kept = fun cell => decide (blockAt blocksPerChunk blockIds cell ≠ 0)
    := ⟨_, rfl⟩
  obtain ⟨cells, hcells⟩ : ∃ cells, cells = subBlocks blocksPerChunk chunks := ⟨_, rfl⟩
  have skip := @storedGroup_skip manager _ _ _ positive last empty
  have enough := @read_length blocksPerChunk blockIds chunks
  have count := @storedGroup_blocks_length manager blocksPerChunk blockIds chunks
  have total := subBlocks_length blocksPerChunk chunks
  rw [← hkept, ← hcells] at skip enough
  rw [← hkept, ← hcells] at count
  rw [← hcells] at total
  have left : (storedGroup manager blocksPerChunk blockIds chunks).pairs blocksPerChunk =
      List.zipWith (fun blockId s => ⟨blockId, s.1, s.2⟩)
        ((cells.filter kept).map (blockAt blocksPerChunk blockIds))
        (((cells.drop (cells.findIdx kept)).map (cellLabel manager)).take
          (cells.filter kept).length) := by
    rw [GroupCopies.pairs, skip, count, map_drop, hcells, ← chunk_labels, hkept,
      ← chunkCopies_blocks]
    rfl
  have lastKept : ∀ cell, cells.getLast? = some cell → kept cell = true := by
    intro cell hcell
    rw [hcells, subBlocks_getLast? positive, Option.map_eq_some_iff] at hcell
    obtain ⟨chunk, hchunk, rfl⟩ := hcell
    rw [hkept]
    exact decide_eq_true (last chunk (mem_of_getLast? hchunk))
  have labels : (cells.map (cellLabel manager)).Nodup := by
    rw [hcells, ← chunk_labels, map_map]
    exact subBlocks_nodup _ distinct
  rw [left, chunkCopies_toBlockCopy, noHole_iff, ← hkept, ← hcells]
  constructor
  · intro same
    have run := zipWith_right_inj (by
      intro blockId s s' h
      have := BlockCopy.mk.inj h
      exact Prod.ext this.2.1 this.2.2) (by simp; omega) (by simp) same
    have := no_gap_of_run labels lastKept run
    rw [hkept] at this ⊢
    exact this
  · intro noGap
    rw [run_of_no_gap]
    rw [hkept] at noGap ⊢
    exact noGap

theorem storedGroup_numChunks_le (positive : 0 < blocksPerChunk)
    (last : ∀ chunk ∈ chunks, blockAt blocksPerChunk blockIds (chunk, blocksPerChunk - 1) ≠ 0) :
    (storedGroup manager blocksPerChunk blockIds chunks).numChunks blocksPerChunk ≤
    chunks.length := by
  by_cases empty : chunks = []
  · subst empty
    simp [storedGroup, groupCopies, chunkCopies, GroupCopies.numChunks]
  rw [GroupCopies.numChunks]
  split
  · exact Nat.zero_le _
  · rw [cdiv_le_iff positive, storedGroup_skip positive last empty, storedGroup_blocks_length]
    exact read_length

theorem storedGroup_numChunks (positive : 0 < blocksPerChunk)
    (last : ∀ chunk ∈ chunks, blockAt blocksPerChunk blockIds (chunk, blocksPerChunk - 1) ≠ 0)
    (noHole : NoHole (chunkBlockIds blocksPerChunk blockIds chunks)) :
    (storedGroup manager blocksPerChunk blockIds chunks).numChunks blocksPerChunk =
    chunks.length := by
  by_cases empty : chunks = []
  · subst empty
    simp [storedGroup, groupCopies, chunkCopies, GroupCopies.numChunks]
  have noGap := noHole_iff.mp noHole
  have kept := filter_drop_findIdx (fun cell => decide (blockAt blocksPerChunk blockIds cell ≠ 0))
    (subBlocks blocksPerChunk chunks)
  rw [filter_eq_self.mpr noGap] at kept
  have length := congrArg List.length kept
  rw [length_drop, subBlocks_length] at length
  have skip := @storedGroup_skip manager _ _ _ positive last empty
  have bound : (storedGroup manager blocksPerChunk blockIds chunks).start % blocksPerChunk <
    blocksPerChunk := Nat.mod_lt _ positive
  have some_chunk : 0 < chunks.length := length_pos_iff.mpr empty
  have full : blocksPerChunk ≤ chunks.length * blocksPerChunk := Nat.le_mul_of_pos_left _ some_chunk
  have sum : (storedGroup manager blocksPerChunk blockIds chunks).blocks.length +
      (storedGroup manager blocksPerChunk blockIds chunks).start % blocksPerChunk =
        chunks.length * blocksPerChunk := by
    rw [storedGroup_blocks_length]
    omega
  rw [GroupCopies.numChunks, if_neg (by omega), sum, cdiv_mul_self positive]

end Store

/-! A job whose groups fit their chunks stands for its copies, and a store job only if none of
its groups has a hole: a worker with one layer in the first group that has one misplaces it. -/

variable {manager : OffloadingManager} {config : SchedulerOffloadConfig} {job : TransferJob}
  {copies : List (List LogicalCopy)}

/-- A job laid out group by group. -/
structure TransferJob.LaidOut (job : TransferJob) (groups : List GroupCopies) : Prop where
  spec : job.gpuSpec =
    ⟨groups.flatMap (·.blocks), groups.map (·.blocks.length), groups.map (·.start)⟩
  chunks : job.cpuChunks = groups.flatMap (·.chunks)

theorem stands_of_fits {groups : List GroupCopies} (laidOut : job.LaidOut groups)
    (count : groups.length = config.kvGroupConfigs.length)
    (fits : ∀ g ∈ groups, g.chunks.length = g.numChunks config.blocksPerChunk)
    (pairs : groups.map (·.pairs config.blocksPerChunk) =
    copies.map (·.map (·.toBlockCopy manager config.blocksPerChunk))) :
    job.Stands manager config copies := by
  intro h chunked _ perGroup
  rw [laidOut.spec, laidOut.chunks, ← pairs, ← chunked]
  apply h.transferAsync_eq (count.trans perGroup.symm)
  intro g hg
  rw [SingleDirectionOffloadingHandler.Fits, chunked]
  exact fits g hg

namespace SingleDirectionOffloadingHandler

variable (h : SingleDirectionOffloadingHandler)

theorem fillGroups_of_transferAsync {spec : GPULoadStoreSpec} {chunks : List Nat}
    {ops : List Descriptor} (returned : h.transferAsync spec chunks = .ok ops) : ∃ srcLast dstLast,
    h.fillGroups (if h.gpuToCpu then spec.blockIds else chunks)
    (if h.gpuToCpu then chunks else spec.blockIds)
    ((spec.groupSizes.zip spec.blockIndices).zip h.layerRefsPerGroup) 0 0 =
    .ok (srcLast, dstLast, ops) := by
  simp only [transferAsync, bind_eq_ok] at returned
  obtain ⟨_, -, _, -, ⟨srcLast, dstLast, filled⟩, ran, _, -, _, -, _, -, result⟩ := returned
  obtain rfl : filled = ops := by simpa using result
  exact ⟨srcLast, dstLast, ran⟩

theorem fillGroups_no_layers {srcBlocks dstBlocks : List Nat}
    {loop : List ((Nat × Nat) × List CanonicalKVCacheRef)} (bare : ∀ e ∈ loop, e.2 = [])
    {srcAt dstAt srcLast dstLast : Nat} {ops : List Descriptor}
    (ran : h.fillGroups srcBlocks dstBlocks loop srcAt dstAt = .ok (srcLast, dstLast, ops)) :
    ops = [] := by
  induction loop generalizing srcAt dstAt srcLast dstLast ops with
  | nil => cases ran; rfl
  | cons e rest ih =>
    obtain ⟨⟨groupSize, blockIdx⟩, layerRefs⟩ := e
    obtain rfl : layerRefs = [] := bare _ mem_cons_self
    have restBare : ∀ e ∈ rest, e.2 = [] := fun e he => bare e (mem_cons_of_mem _ he)
    rw [fillGroups] at ran
    split at ran
    · exact ih restBare ran
    · simp only [fillGroupOps, bind_eq_ok] at ran
      obtain ⟨_, -, _, -, _, hops, ⟨_, _, more⟩, tail, result⟩ := ran
      cases hops
      cases result
      rw [ih restBare tail]
      rfl

end SingleDirectionOffloadingHandler

/-- A worker with one layer, in one of the groups, whose addresses are the ids themselves. -/
def probe (isStore : Bool) (blocksPerChunk : Nat) (chunked : 0 < blocksPerChunk)
    (before after : Nat) : SingleDirectionOffloadingHandler where
  gpuTensors := [⟨0, 1, 1⟩]
  cpuTensors := [⟨0, blocksPerChunk, blocksPerChunk⟩]
  blocksPerChunk := blocksPerChunk
  layerRefsPerGroup := List.replicate before [] ++ [⟨0, 1, none⟩] :: List.replicate after []
  gpuToCpu := isStore
  canonicalLayout := false
  sameLength := rfl
  chunked := chunked
  mapped := nofun
  pages := by
    intro t gpu cpu hgpu hcpu
    cases t with
    | zero => cases hgpu; cases hcpu; simp
    | succ t => cases hgpu
  inRange := by simp

theorem probe_groupOps {blocksPerChunk : Nat} (chunked : 0 < blocksPerChunk) (before after : Nat)
    {copies : List BlockCopy} (inside : ∀ copy ∈ copies, copy.sub < blocksPerChunk) :
    ((probe true blocksPerChunk chunked before after).groupOps [⟨0, 1, none⟩] copies).map
    (fun d => ⟨d.src, d.dst / blocksPerChunk, d.dst % blocksPerChunk⟩) = copies := by
  induction copies with
  | nil => rfl
  | cons copy rest ih =>
    have sub := inside copy mem_cons_self
    have tail := ih fun c hc => inside c (mem_cons_of_mem _ hc)
    have one : (probe true blocksPerChunk chunked before after).copyOps ⟨0, 1, none⟩ copy =
        [⟨copy.blockId, copy.chunk * blocksPerChunk + copy.sub, 1⟩] := by
      simp [SingleDirectionOffloadingHandler.copyOps, SingleDirectionOffloadingHandler.ends, probe,
        Nat.div_self chunked]
    have chunk : (copy.chunk * blocksPerChunk + copy.sub) / blocksPerChunk = copy.chunk := by
      rw [Nat.mul_comm, Nat.mul_add_div chunked, Nat.div_eq_of_lt sub, Nat.add_zero]
    have place : (copy.chunk * blocksPerChunk + copy.sub) % blocksPerChunk = copy.sub := by
      rw [Nat.mul_comm, Nat.mul_add_mod, Nat.mod_eq_of_lt sub]
    simp only [SingleDirectionOffloadingHandler.groupOps, flatMap_cons, flatMap_nil,
      append_nil] at tail ⊢
    rw [one, map_append, tail]
    simp [chunk, place]

theorem pairs_take_chunks {group : GroupCopies} {k : Nat} (hk : 0 < k) :
    ({ group with chunks := group.chunks.take (group.numChunks k) } : GroupCopies).pairs k =
      group.pairs k := by
  by_cases empty : group.blocks.length = 0
  · have none_left := length_eq_zero_iff.mp empty
    simp [GroupCopies.pairs, none_left]
  have room : group.blocks.length + group.start % k ≤ group.numChunks k * k := by
    rw [GroupCopies.numChunks, if_neg empty]
    exact cdiv_mul_ge hk
  simp only [GroupCopies.pairs]
  rw [subBlocks_take, drop_take, take_take, Nat.min_eq_left (by omega)]

theorem pairs_sub_lt {group : GroupCopies} {k : Nat} {copy : BlockCopy}
    (mem : copy ∈ group.pairs k) : copy.sub < k := by
  rw [GroupCopies.pairs, ← map_uncurry_zip_eq_zipWith, mem_map] at mem
  obtain ⟨⟨blockId, s⟩, hs, rfl⟩ := mem
  have inside := mem_of_mem_drop (mem_of_mem_take (of_mem_zip hs).2)
  exact (mem_subBlocks.mp inside).2

theorem split_at_first {α : Type*} {P : α → Prop} {xs : List α} (h : ¬ ∀ x ∈ xs, P x) :
    ∃ before x after, xs = before ++ x :: after ∧ (∀ y ∈ before, P y) ∧ ¬ P x := by
  induction xs with
  | nil => exact absurd nofun h
  | cons x xs ih =>
    by_cases hx : P x
    · have rest : ¬ ∀ y ∈ xs, P y := fun all => h (forall_mem_cons.mpr ⟨hx, all⟩)
      obtain ⟨before, bad, after, rfl, good, fails⟩ := ih rest
      exact ⟨x :: before, bad, after, rfl, forall_mem_cons.mpr ⟨hx, good⟩, fails⟩
    · exact ⟨[], x, xs, rfl, nofun, hx⟩

/-- A group of a store: its block ids and the chunks of it that the manager takes. -/
structure StoredChunks where
  blockIds : List Nat
  chunks : List (OffloadKey × Nat)

namespace StoredChunks

/-- Distinct CPU chunks, each ending in a block that is read. -/
structure Sound (manager : OffloadingManager) (blocksPerChunk : Nat) (group : StoredChunks) :
    Prop where
  distinct : (group.chunks.map fun chunk => manager.chunkOf chunk.1).Nodup
  last : ∀ chunk ∈ group.chunks,
    blockAt blocksPerChunk group.blockIds (chunk, blocksPerChunk - 1) ≠ 0

def view (manager : OffloadingManager) (blocksPerChunk : Nat) (group : StoredChunks) :
    GroupCopies :=
  storedGroup manager blocksPerChunk group.blockIds group.chunks

def reads (blocksPerChunk : Nat) (group : StoredChunks) : List LogicalCopy :=
  chunkCopies blocksPerChunk group.blockIds group.chunks

def HoleFree (blocksPerChunk : Nat) (group : StoredChunks) : Prop :=
  NoHole (chunkBlockIds blocksPerChunk group.blockIds group.chunks)

end StoredChunks

theorem stands_of_holeFree {groups : List StoredChunks}
    (laidOut : job.LaidOut (groups.map (·.view manager config.blocksPerChunk)))
    (count : groups.length = config.kvGroupConfigs.length)
    (sound : ∀ g ∈ groups, g.Sound manager config.blocksPerChunk)
    (holeFree : ∀ g ∈ groups, g.HoleFree config.blocksPerChunk) :
    job.Stands manager config (groups.map (·.reads config.blocksPerChunk)) := by
  apply stands_of_fits laidOut
  · rw [length_map, count]
  · intro view hview
    obtain ⟨g, hg, rfl⟩ := mem_map.mp hview
    rw [StoredChunks.view, storedGroup_numChunks config.chunked (sound g hg).last (holeFree g hg)]
    simp [storedGroup, groupCopies]
  · rw [map_map, map_map]
    apply map_congr_left
    intro g hg
    exact (storedGroup_pairs config.chunked (sound g hg).last (sound g hg).distinct).mpr
      (holeFree g hg)

theorem zip_replicate_length {α β γ : Type*} (f : α → β) (c : γ) (xs : List α) :
    (xs.map f).zip (List.replicate xs.length c) = xs.map fun x => (f x, c) := by
  induction xs with
  | nil => rfl
  | cons x xs ih => simp [replicate_succ, ih]

theorem transferOps_probe {blocksPerChunk : Nat} (chunked : 0 < blocksPerChunk)
    {α : Type*} (f : α → List BlockCopy) (before after : List α) (bad : α) :
    (probe true blocksPerChunk chunked before.length after.length).transferOps
    ((before ++ bad :: after).map f) =
    (probe true blocksPerChunk chunked before.length after.length).groupOps [⟨0, 1, none⟩]
    (f bad) := by
  have silent : ∀ xs : List α, ((xs.map fun x => (f x, ([] : List CanonicalKVCacheRef))).flatMap
      fun pair => (probe true blocksPerChunk chunked before.length
        after.length).groupOps pair.2 pair.1) = [] := by
    intro xs
    simp [SingleDirectionOffloadingHandler.groupOps]
  have layers : (probe true blocksPerChunk chunked before.length after.length).layerRefsPerGroup =
      List.replicate before.length [] ++ [⟨0, 1, none⟩] :: List.replicate after.length [] := rfl
  rw [SingleDirectionOffloadingHandler.transferOps, layers, map_append, map_cons,
    zip_append (by simp), zip_cons_cons, zip_replicate_length, zip_replicate_length,
    flatMap_append, flatMap_cons, silent, silent]
  simp

theorem holeFree_of_stands {groups : List StoredChunks}
    (laidOut : job.LaidOut (groups.map (·.view manager config.blocksPerChunk)))
    (isStore : job.isStore = true) (count : groups.length = config.kvGroupConfigs.length)
    (sound : ∀ g ∈ groups, g.Sound manager config.blocksPerChunk)
    (stands : job.Stands manager config (groups.map (·.reads config.blocksPerChunk))) :
    ∀ g ∈ groups, g.HoleFree config.blocksPerChunk := by
  by_contra hole
  obtain ⟨before, bad, after, rfl, good, fails⟩ := split_at_first hole
  obtain ⟨k, hk⟩ : ∃ k, k = config.blocksPerChunk := ⟨_, rfl⟩
  have chunked : 0 < k := hk ▸ config.chunked
  rw [← hk] at laidOut sound stands good fails
  obtain ⟨h, hh⟩ : ∃ h, h = probe true k chunked before.length after.length := ⟨_, rfl⟩
  have hchunked : h.blocksPerChunk = k := by rw [hh]; rfl
  have htoCpu : h.gpuToCpu = true := by rw [hh]; rfl
  have layers : h.layerRefsPerGroup =
      List.replicate before.length [] ++ [⟨0, 1, none⟩] :: List.replicate after.length [] := by
    rw [hh]; rfl
  have hcount : h.layerRefsPerGroup.length = config.kvGroupConfigs.length := by
    rw [layers, ← count]
    simp
  have ran := stands h (hchunked.trans hk) (htoCpu.trans isStore.symm) hcount
  obtain ⟨srcLast, dstLast, filled⟩ := h.fillGroups_of_transferAsync ran
  have badSound := sound bad (by simp)
  -- the worker takes the first chunks of the bad group for it
  obtain ⟨taken, htaken⟩ : ∃ taken : GroupCopies, taken =
    { bad.view manager k with
      chunks := (bad.view manager k).chunks.take ((bad.view manager k).numChunks k) } := ⟨_, rfl⟩
  have sameCount : taken.numChunks k = (bad.view manager k).numChunks k := by rw [htaken]; rfl
  have takenFits : taken.chunks.length = taken.numChunks k := by
    have few := @storedGroup_numChunks_le manager _ _ _ chunked badSound.last
    have long : (bad.view manager k).chunks.length = bad.chunks.length := by
      simp [StoredChunks.view, storedGroup, groupCopies]
    rw [sameCount, htaken, length_take, long]
    exact Nat.min_eq_left few
  obtain ⟨loop, hloop⟩ : ∃ loop : List (GroupCopies × List CanonicalKVCacheRef), loop =
    before.map (fun g => (g.view manager k, [])) ++ [(taken, [⟨0, 1, none⟩])] := ⟨_, rfl⟩
  obtain ⟨rest, hrest⟩ : ∃ rest, rest =
    after.map fun g => SingleDirectionOffloadingHandler.entry (g.view manager k) [] := ⟨_, rfl⟩
  have entries : (job.gpuSpec.groupSizes.zip job.gpuSpec.blockIndices).zip h.layerRefsPerGroup =
      loop.map (fun g => SingleDirectionOffloadingHandler.entry g.1 g.2) ++ rest := by
    rw [laidOut.spec, layers, map_map, map_map, zip_map', map_append,
      map_cons, zip_append (by simp), zip_cons_cons, zip_replicate_length,
      zip_replicate_length, hloop, hrest, htaken]
    simp [SingleDirectionOffloadingHandler.entry, Function.comp_def]
  have own : ∀ g ∈ loop, ∀ ref ∈ g.2, ref ∈ h.layerRefsPerGroup.flatten := by
    intro g hg ref href
    rw [hloop, mem_append, mem_map, mem_singleton] at hg
    rcases hg with ⟨_, -, rfl⟩ | rfl
    · cases href
    · rw [layers]
      simpa using href
  have fits : ∀ g ∈ loop, h.Fits g.1 := by
    intro g hg
    rw [SingleDirectionOffloadingHandler.Fits, hchunked]
    rw [hloop, mem_append, mem_map, mem_singleton] at hg
    rcases hg with ⟨g', hg', rfl⟩ | rfl
    · rw [StoredChunks.view, storedGroup_numChunks chunked (sound g' (by simp [hg'])).last
        (good g' hg')]
      simp [storedGroup, groupCopies]
    · exact takenFits
  have itsBlocks : job.gpuSpec.blockIds.drop 0 = (loop.flatMap fun g => g.1.blocks) ++
      (after.map (·.view manager k)).flatMap (·.blocks) := by
    rw [laidOut.spec, hloop, htaken]
    simp [flatMap_map]
  have itsChunks : job.cpuChunks.drop 0 = (loop.flatMap fun g => g.1.chunks) ++
      ((bad.view manager k).chunks.drop ((bad.view manager k).numChunks k) ++
        (after.map (·.view manager k)).flatMap (·.chunks)) := by
    have whole := take_append_drop ((bad.view manager k).numChunks k)
      (bad.view manager k).chunks
    rw [laidOut.chunks, hloop, htaken, drop_zero, flatMap_append, append_assoc]
    simp only [map_append, map_cons, flatMap_append, flatMap_cons,
      flatMap_map, flatMap_nil, append_nil]
    rw [← append_assoc (List.take _ _), whole]
  have start := @SingleDirectionOffloadingHandler.fillGroups_append h _ _ _ _ rest loop own fits 0 0
    itsBlocks itsChunks
  rw [ite_self, ← entries, filled] at start
  obtain ⟨more, tail, all⟩ := SingleDirectionOffloadingHandler.prepend_eq_ok.mp start.symm
  have bare : ∀ e ∈ rest, e.2 = [] := by
    intro e he
    rw [hrest, mem_map] at he
    obtain ⟨g, -, rfl⟩ := he
    rfl
  have nothing := h.fillGroups_no_layers bare tail
  have silent : (before.map fun g => (g.view manager k, ([] : List CanonicalKVCacheRef))).flatMap
      (fun g => h.groupOps g.2 (g.1.pairs h.blocksPerChunk)) = [] := by
    simp [SingleDirectionOffloadingHandler.groupOps]
  have same : h.groupOps [⟨0, 1, none⟩] ((bad.reads k).map (·.toBlockCopy manager k)) =
      h.groupOps [⟨0, 1, none⟩] ((bad.view manager k).pairs k) := by
    rw [nothing, append_nil, hloop, flatMap_append, silent, ← hk, map_map, hh,
      transferOps_probe] at all
    rw [hh]
    refine all.trans ?_
    simp only [nil_append, flatMap_cons, flatMap_nil, append_nil]
    rw [htaken]
    exact congrArg _ (pairs_take_chunks chunked)
  have decoded := congrArg (List.map fun d => (⟨d.src, d.dst / k, d.dst % k⟩ : BlockCopy)) same
  rw [hh, probe_groupOps, probe_groupOps] at decoded
  · exact fails ((storedGroup_pairs chunked badSound.last badSound.distinct).mp decoded.symm)
  · intro copy hcopy
    exact pairs_sub_lt hcopy
  · intro copy hcopy
    obtain ⟨logical, -, rfl⟩ := mem_map.mp hcopy
    exact Nat.mod_lt _ chunked

end VllmAmpere.OffloadTransfer
