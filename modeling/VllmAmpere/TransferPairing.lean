import Mathlib.Algebra.Order.BigOperators.Group.List
import VllmAmpere.OffloadTransfers
import VllmAmpere.SubBlocks

/-! What a transfer copies: the worker pairs the GPU blocks of a group with the sub-blocks of
the group's chunks, one behind the other from the sub-block where the group starts. -/

open List Function

namespace VllmAmpere.OffloadTransfer

open Canonical

/-- A GPU block, a CPU chunk and a sub-block in it. -/
structure BlockCopy where
  blockId : Nat
  chunk : Nat
  sub : Nat
  deriving DecidableEq, Repr

/-- The copies of one group of a job. -/
structure GroupCopies where
  blocks : List Nat
  start : Nat
  chunks : List Nat

namespace SingleDirectionOffloadingHandler

variable (h : SingleDirectionOffloadingHandler)

/-- Source and destination of a copy of a block in one tensor. -/
def ends (gpu cpu : ByteTensor) (copy : BlockCopy) : Nat × Nat :=
  let onGpu := gpu.dataPtr + copy.blockId * gpu.rowStride
  let onCpu := cpu.dataPtr + copy.chunk * cpu.rowStride +
    copy.sub * (cpu.pageSize / h.blocksPerChunk)
  if h.gpuToCpu then (onGpu, onCpu) else (onCpu, onGpu)

/-- Whether this rank is elected to write a page, or the page is only read. -/
def writes (mapping : CanonicalPageMapping) (copy : BlockCopy) : Bool :=
  !(h.gpuToCpu && decide (1 < mapping.numWriters)) ||
    (copy.chunk * h.blocksPerChunk + copy.sub) % mapping.numWriters = mapping.writerIndex

def copyOps (ref : CanonicalKVCacheRef) (copy : BlockCopy) : List Descriptor :=
  match h.gpuTensors[ref.tensorIdx]?, h.cpuTensors[ref.tensorIdx]? with
  | some gpu, some cpu =>
    let (src, dst) := h.ends gpu cpu copy
    if h.canonicalLayout then
      match ref.mapping with
      | none => []
      | some mapping =>
        if h.writes mapping copy then
          (buildCopyPlan mapping h.gpuToCpu).map fun (fragSrc, fragDst, size) =>
            ⟨src + fragSrc, dst + fragDst, size⟩
        else []
    else [⟨src, dst, ref.pageSizeBytes⟩]
  | _, _ => []

def groupOps (layerRefs : List CanonicalKVCacheRef) (copies : List BlockCopy) : List Descriptor :=
  layerRefs.flatMap fun ref => copies.flatMap (h.copyOps ref)

def transferOps (copies : List (List BlockCopy)) : List Descriptor :=
  (copies.zip h.layerRefsPerGroup).flatMap fun (group, layerRefs) => h.groupOps layerRefs group

end SingleDirectionOffloadingHandler

def GroupCopies.numChunks (group : GroupCopies) (blocksPerChunk : Nat) : Nat :=
  if group.blocks.length = 0 then 0
  else cdiv (group.blocks.length + group.start % blocksPerChunk) blocksPerChunk

/-- The pairs the worker forms: blocks with sub-blocks from the start on. -/
def GroupCopies.pairs (group : GroupCopies) (blocksPerChunk : Nat) : List BlockCopy :=
  List.zipWith (fun blockId s => ⟨blockId, s.1, s.2⟩) group.blocks
    (((subBlocks blocksPerChunk group.chunks).drop (group.start % blocksPerChunk)).take
      group.blocks.length)

theorem computeSubBlockPtrs_eq {chunks : List Nat} {k count skip : Nat} {tensor : ByteTensor}
    (hskip : skip < k) (page : tensor.pageSize % k = 0) (enough : count + skip ≤ chunks.length * k) :
    computeSubBlockPtrs chunks k count tensor skip =
    .ok ((((subBlocks k chunks).drop skip).take count).map fun s =>
    tensor.dataPtr + s.1 * tensor.rowStride + s.2 * (tensor.pageSize / k)) := by
  have long : (((subBlocks k chunks).drop skip).take count).length = count := by
    simp
    omega
  unfold computeSubBlockPtrs
  rw [show pyAssert (skip < k) "skip_count < blocks_per_chunk" = .ok () from if_pos hskip]
  by_cases one : k = 1
  · subst one
    obtain rfl : skip = 0 := by omega
    rw [drop_zero, subBlocks_one, ← map_take] at long ⊢
    rw [length_map] at long
    simp only [bind, Except.bind, if_true, assignAll, length_map, map_map]
    rw [if_pos long]
    simp [comp_def]
  · simp only [bind, Except.bind, if_neg one]
    rw [show pyAssert (tensor.pageSize % k = 0) "tensor.shape[1] % blocks_per_chunk == 0" = .ok ()
      from if_pos page]
    have flat : (chunks.flatMap fun b => (List.range k).map fun j =>
        tensor.dataPtr + b * tensor.rowStride + j * (tensor.pageSize / k)) =
        (subBlocks k chunks).map fun s =>
          tensor.dataPtr + s.1 * tensor.rowStride + s.2 * (tensor.pageSize / k) := by
      simp [subBlocks, map_flatMap, comp_def]
    simp only [flat, assignAll]
    rw [← map_drop, ← map_take, length_map, if_pos long]

theorem canonicalPageIds_eq {chunks : List Nat} {k count skip : Nat} (hskip : skip < k) :
    canonicalPageIds chunks k count skip =
    (((subBlocks k chunks).drop skip).take count).map fun s => s.1 * k + s.2 := by
  unfold canonicalPageIds
  by_cases one : k = 1
  · subst one
    obtain rfl : skip = 0 := by omega
    rw [if_pos rfl, drop_zero, subBlocks_one, ← map_take, map_map]
    simp [comp_def]
  · rw [if_neg one]
    have flat : (chunks.flatMap fun b => (List.range k).map fun j => b * k + j) =
        (subBlocks k chunks).map fun s => s.1 * k + s.2 := by
      simp [subBlocks, map_flatMap, comp_def]
    simp only [flat, map_drop, map_take]

theorem computeSubBlockPtrs_blocks (blocks : List Nat) (tensor : ByteTensor) :
    computeSubBlockPtrs blocks 1 blocks.length tensor 0 =
    .ok (blocks.map fun b => tensor.dataPtr + b * tensor.rowStride) := by
  rw [computeSubBlockPtrs_eq Nat.zero_lt_one (Nat.mod_one _) (by omega), drop_zero,
    subBlocks_one, ← map_take, take_length, map_map]
  simp [comp_def]

namespace SingleDirectionOffloadingHandler

variable (h : SingleDirectionOffloadingHandler)

theorem tensors_of_ref {ref : CanonicalKVCacheRef} (mem : ref ∈ h.layerRefsPerGroup.flatten) :
    ∃ gpu cpu, h.gpuTensors[ref.tensorIdx]? = some gpu ∧ h.cpuTensors[ref.tensorIdx]? = some cpu ∧
    cpu.pageSize % h.blocksPerChunk = 0 := by
  have onGpu := h.inRange ref mem
  have onCpu := h.sameLength ▸ onGpu
  refine ⟨_, _, getElem?_eq_getElem onGpu, getElem?_eq_getElem onCpu, ?_⟩
  rw [h.pages _ _ _ (getElem?_eq_getElem onGpu) (getElem?_eq_getElem onCpu)]
  exact Nat.mul_mod_left _ _

variable {group : GroupCopies} {ref : CanonicalKVCacheRef} {gpu cpu : ByteTensor}

theorem group_ptrs (onGpu : h.gpuTensors[ref.tensorIdx]? = some gpu)
    (onCpu : h.cpuTensors[ref.tensorIdx]? = some cpu) (page : cpu.pageSize % h.blocksPerChunk = 0)
    (enough : group.blocks.length + group.start % h.blocksPerChunk ≤
    group.chunks.length * h.blocksPerChunk) :
    ptrs h.gpuTensors ref.tensorIdx group.blocks 1 group.blocks.length (group.start % 1) =
    .ok (group.blocks.map fun b => gpu.dataPtr + b * gpu.rowStride) ∧
    ptrs h.cpuTensors ref.tensorIdx group.chunks h.blocksPerChunk group.blocks.length
    (group.start % h.blocksPerChunk) = .ok ((((subBlocks h.blocksPerChunk group.chunks).drop
    (group.start % h.blocksPerChunk)).take group.blocks.length).map fun s =>
    cpu.dataPtr + s.1 * cpu.rowStride + s.2 * (cpu.pageSize / h.blocksPerChunk)) := by
  constructor
  · rw [ptrs, pyGet_ok.mpr onGpu, Nat.mod_one]
    exact computeSubBlockPtrs_blocks group.blocks gpu
  · rw [ptrs, pyGet_ok.mpr onCpu]
    exact computeSubBlockPtrs_eq (Nat.mod_lt _ h.chunked) page enough

theorem ends_ptrs (onGpu : h.gpuTensors[ref.tensorIdx]? = some gpu)
    (onCpu : h.cpuTensors[ref.tensorIdx]? = some cpu) (page : cpu.pageSize % h.blocksPerChunk = 0)
    (enough : group.blocks.length + group.start % h.blocksPerChunk ≤
    group.chunks.length * h.blocksPerChunk) : ∃ src dst,
    ptrs h.srcTensors ref.tensorIdx (if h.gpuToCpu then group.blocks else group.chunks)
    h.srcBlocksPerChunk group.blocks.length (group.start % h.srcBlocksPerChunk) = .ok src ∧
    ptrs h.dstTensors ref.tensorIdx (if h.gpuToCpu then group.chunks else group.blocks)
    h.dstBlocksPerChunk group.blocks.length (group.start % h.dstBlocksPerChunk) = .ok dst ∧
    src.zip dst = (group.pairs h.blocksPerChunk).map (h.ends gpu cpu) := by
  have ⟨blocks, chunks⟩ := h.group_ptrs onGpu onCpu page enough
  cases toCpu : h.gpuToCpu with
  | true =>
    simp only [srcTensors, dstTensors, srcBlocksPerChunk, dstBlocksPerChunk, toCpu, if_true]
    refine ⟨_, _, blocks, chunks, ?_⟩
    rw [zip_map, zip_eq_zipWith, GroupCopies.pairs, map_zipWith, map_zipWith]
    simp [ends, toCpu]
  | false =>
    simp only [srcTensors, dstTensors, srcBlocksPerChunk, dstBlocksPerChunk, toCpu,
      Bool.false_eq_true, if_false]
    refine ⟨_, _, chunks, blocks, ?_⟩
    rw [zip_map, zip_eq_zipWith, GroupCopies.pairs, map_zipWith, map_zipWith,
      zipWith_comm]
    simp [ends, toCpu]

theorem fillDirectOps_eq (direct : h.canonicalLayout = false)
    (onGpu : h.gpuTensors[ref.tensorIdx]? = some gpu)
    (onCpu : h.cpuTensors[ref.tensorIdx]? = some cpu) (page : cpu.pageSize % h.blocksPerChunk = 0)
    (enough : group.blocks.length + group.start % h.blocksPerChunk ≤
    group.chunks.length * h.blocksPerChunk) :
    h.fillDirectOps (if h.gpuToCpu then group.blocks else group.chunks)
    (if h.gpuToCpu then group.chunks else group.blocks) group.blocks.length
    (group.start % h.srcBlocksPerChunk) (group.start % h.dstBlocksPerChunk) ref =
    .ok ((group.pairs h.blocksPerChunk).flatMap (h.copyOps ref)) := by
  have ⟨src, dst, hsrc, hdst, zipped⟩ := h.ends_ptrs onGpu onCpu page enough
  have single : h.copyOps ref = fun copy =>
      [⟨(h.ends gpu cpu copy).1, (h.ends gpu cpu copy).2, ref.pageSizeBytes⟩] := by
    funext copy
    simp [copyOps, onGpu, onCpu, direct]
  have ops : List.zipWith (fun s d => (⟨s, d, ref.pageSizeBytes⟩ : Descriptor)) src dst =
      (src.zip dst).map fun e => ⟨e.1, e.2, ref.pageSizeBytes⟩ := by
    rw [zip_eq_zipWith, map_zipWith]
  simp only [fillDirectOps, hsrc, hdst, bind, Except.bind]
  rw [ops, zipped, map_map, single]
  exact congrArg _ map_eq_flatMap

theorem elected_flatMap {α β γ : Type*} (xs : List α) (keep : α → Bool) (f : α → β)
    (g : β → List γ) : (xs.filterMap fun x => if keep x then some (f x) else none).flatMap g =
    xs.flatMap fun x => if keep x then g (f x) else [] := by
  induction xs with
  | nil => rfl
  | cons x rest ih =>
    rw [flatMap_cons, filterMap_cons, ← ih]
    cases keep x <;> simp

theorem zip_beside {α β γ δ : Type*} (f : α → β → γ) (g : β → δ) (xs : List α) (ys : List β) :
    (List.zipWith f xs ys).zip (ys.map g) = List.zipWith (fun x y => (f x y, g y)) xs ys := by
  induction xs generalizing ys with
  | nil => rfl
  | cons x xs ih =>
    cases ys with
    | nil => rfl
    | cons y ys => simp [ih]

theorem fillCanonicalOps_eq (canonical : h.canonicalLayout = true)
    (mem : ref ∈ h.layerRefsPerGroup.flatten) (onGpu : h.gpuTensors[ref.tensorIdx]? = some gpu)
    (onCpu : h.cpuTensors[ref.tensorIdx]? = some cpu) (page : cpu.pageSize % h.blocksPerChunk = 0)
    (enough : group.blocks.length + group.start % h.blocksPerChunk ≤
    group.chunks.length * h.blocksPerChunk) :
    h.fillCanonicalOps (if h.gpuToCpu then group.blocks else group.chunks)
    (if h.gpuToCpu then group.chunks else group.blocks) group.blocks.length
    (group.start % h.srcBlocksPerChunk) (group.start % h.dstBlocksPerChunk) ref =
    .ok ((group.pairs h.blocksPerChunk).flatMap (h.copyOps ref)) := by
  obtain ⟨mapping, hm⟩ := Option.isSome_iff_exists.mp (h.mapped canonical ref mem)
  have ⟨src, dst, hsrc, hdst, zipped⟩ := h.ends_ptrs onGpu onCpu page enough
  obtain ⟨plan, hplan⟩ : ∃ plan, plan = buildCopyPlan mapping h.gpuToCpu := ⟨_, rfl⟩
  have fragments : h.copyOps ref = fun copy => if h.writes mapping copy then
      plan.map fun (fragSrc, fragDst, size) =>
        ⟨(h.ends gpu cpu copy).1 + fragSrc, (h.ends gpu cpu copy).2 + fragDst, size⟩
      else [] := by
    funext copy
    simp [copyOps, onGpu, onCpu, canonical, hm, hplan]
  rw [fillCanonicalOps, hm]
  simp only [← hplan]
  by_cases nothing : plan.length = 0
  · obtain rfl := length_eq_zero_iff.mp nothing
    rw [if_pos nothing, fragments]
    simp
  rw [if_neg nothing]
  simp only [hsrc, hdst, bind, Except.bind]
  rw [fragments]
  congr 1
  by_cases elected : h.gpuToCpu = true ∧ 1 < mapping.numWriters
  · -- a store: the pages are those of the chunks' sub-blocks
    have pages : canonicalPageIds (if h.gpuToCpu then group.chunks else group.blocks)
        h.dstBlocksPerChunk group.blocks.length (group.start % h.dstBlocksPerChunk) =
        (((subBlocks h.blocksPerChunk group.chunks).drop (group.start % h.blocksPerChunk)).take
          group.blocks.length).map fun s => s.1 * h.blocksPerChunk + s.2 := by
      simp only [elected.1, dstBlocksPerChunk, if_true]
      exact canonicalPageIds_eq (Nat.mod_lt _ h.chunked)
    have withPages : (src.zip dst).zip (canonicalPageIds
        (if h.gpuToCpu then group.chunks else group.blocks) h.dstBlocksPerChunk
        group.blocks.length (group.start % h.dstBlocksPerChunk)) =
        (group.pairs h.blocksPerChunk).map fun copy =>
          (h.ends gpu cpu copy, copy.chunk * h.blocksPerChunk + copy.sub) := by
      rw [pages, zipped, GroupCopies.pairs, map_zipWith, map_zipWith, zip_beside]
    have kept : ∀ copy, h.writes mapping copy =
        decide ((copy.chunk * h.blocksPerChunk + copy.sub) % mapping.numWriters =
          mapping.writerIndex) := by
      intro copy
      simp [writes, elected.1, elected.2]
    rw [if_pos elected, withPages, filterMap_map]
    simp only [kept]
    refine Eq.trans ?_ (elected_flatMap _ _ (h.ends gpu cpu) fun e =>
      plan.map fun (fragSrc, fragDst, size) =>
        (⟨e.1 + fragSrc, e.2 + fragDst, size⟩ : Descriptor))
    simp
  · have all : ∀ copy, h.writes mapping copy = true := by
      intro copy
      by_cases toCpu : h.gpuToCpu = true
      · have : ¬ 1 < mapping.numWriters := fun many => elected ⟨toCpu, many⟩
        simp [writes, this]
      · simp [writes, toCpu]
    rw [if_neg elected, zipped, flatMap_map]
    simp [all]

theorem fillGroupOps_eq {layerRefs : List CanonicalKVCacheRef}
    (own : ∀ ref ∈ layerRefs, ref ∈ h.layerRefsPerGroup.flatten)
    (enough : group.blocks.length + group.start % h.blocksPerChunk ≤
    group.chunks.length * h.blocksPerChunk) :
    h.fillGroupOps (if h.gpuToCpu then group.blocks else group.chunks)
    (if h.gpuToCpu then group.chunks else group.blocks) group.blocks.length
    (group.start % h.srcBlocksPerChunk) (group.start % h.dstBlocksPerChunk) layerRefs =
    .ok (h.groupOps layerRefs (group.pairs h.blocksPerChunk)) := by
  induction layerRefs with
  | nil => rfl
  | cons ref rest ih =>
    have mem := own ref mem_cons_self
    have ⟨gpu, cpu, onGpu, onCpu, page⟩ := h.tensors_of_ref mem
    have tail := ih fun other hother => own other (mem_cons_of_mem _ hother)
    rw [fillGroupOps]
    cases layout : h.canonicalLayout with
    | true =>
      rw [if_pos rfl, h.fillCanonicalOps_eq layout mem onGpu onCpu page enough, tail]
      rfl
    | false =>
      rw [if_neg Bool.false_ne_true, h.fillDirectOps_eq layout onGpu onCpu page enough, tail]
      rfl

/-- The descriptors of a group in front of those of the groups behind it. -/
def prepend (ops : List Descriptor) (rest : Except PyError (Nat × Nat × List Descriptor)) :
    Except PyError (Nat × Nat × List Descriptor) := do
  let (srcLast, dstLast, more) ← rest
  .ok (srcLast, dstLast, ops ++ more)

@[simp] theorem prepend_nil (rest : Except PyError (Nat × Nat × List Descriptor)) :
    prepend [] rest = rest := by
  cases rest <;> rfl

theorem prepend_prepend (first second : List Descriptor)
    (rest : Except PyError (Nat × Nat × List Descriptor)) :
    prepend first (prepend second rest) = prepend (first ++ second) rest := by
  cases rest with
  | error e => rfl
  | ok r => simp [prepend, bind, Except.bind]

theorem prepend_eq_ok {ops all : List Descriptor}
    {rest : Except PyError (Nat × Nat × List Descriptor)} {srcLast dstLast : Nat} :
    prepend ops rest = .ok (srcLast, dstLast, all) ↔
    ∃ more, rest = .ok (srcLast, dstLast, more) ∧ all = ops ++ more := by
  cases rest with
  | error e => simp [prepend, bind, Except.bind]
  | ok r => simp [prepend, bind, Except.bind, Prod.ext_iff]; tauto

def entry (group : GroupCopies) (layerRefs : List CanonicalKVCacheRef) :
    (Nat × Nat) × List CanonicalKVCacheRef :=
  ((group.blocks.length, group.start), layerRefs)

theorem numChunks_pos (positive : group.blocks.length ≠ 0) : group.numChunks h.blocksPerChunk =
    cdiv (group.blocks.length + group.start % h.blocksPerChunk) h.blocksPerChunk :=
  if_neg positive

/-- The worker's step over one group, from its place in the blocks and in the chunks. -/
theorem fillGroups_cons {blocks chunks : List Nat} {layerRefs : List CanonicalKVCacheRef}
    {rest : List ((Nat × Nat) × List CanonicalKVCacheRef)} {blocksAt chunksAt : Nat}
    (own : ∀ ref ∈ layerRefs, ref ∈ h.layerRefsPerGroup.flatten)
    (itsBlocks : (blocks.drop blocksAt).take group.blocks.length = group.blocks)
    (itsChunks : (chunks.drop chunksAt).take (group.numChunks h.blocksPerChunk) = group.chunks)
    (enough : group.chunks.length = group.numChunks h.blocksPerChunk) :
    h.fillGroups (if h.gpuToCpu then blocks else chunks) (if h.gpuToCpu then chunks else blocks)
    (entry group layerRefs :: rest) (if h.gpuToCpu then blocksAt else chunksAt)
    (if h.gpuToCpu then chunksAt else blocksAt) =
    prepend (h.groupOps layerRefs (group.pairs h.blocksPerChunk))
    (h.fillGroups (if h.gpuToCpu then blocks else chunks)
    (if h.gpuToCpu then chunks else blocks) rest
    (if h.gpuToCpu then blocksAt + group.blocks.length else chunksAt + group.chunks.length)
    (if h.gpuToCpu then chunksAt + group.chunks.length else blocksAt + group.blocks.length)) := by
  by_cases empty : group.blocks.length = 0
  · have noChunks : group.chunks.length = 0 := by rw [enough, GroupCopies.numChunks, if_pos empty]
    have noPairs : group.pairs h.blocksPerChunk = [] := by
      rw [GroupCopies.pairs, length_eq_zero_iff.mp empty]
      rfl
    have noOps : h.groupOps layerRefs [] = [] := by simp [groupOps]
    rw [entry, fillGroups, if_pos empty, empty, noChunks, noPairs, noOps]
    simp only [Nat.add_zero, prepend_nil]
  have count := h.numChunks_pos empty
  have blocksEnd : blocksAt + group.blocks.length ≤ blocks.length := by
    have := congrArg List.length itsBlocks
    simp at this
    omega
  have chunksEnd : chunksAt + group.chunks.length ≤ chunks.length := by
    have := congrArg List.length itsChunks
    have positive : 0 < group.numChunks h.blocksPerChunk := by
      rw [count, lt_cdiv_iff h.chunked]
      omega
    rw [← enough] at this positive
    simp at this
    omega
  have blockSlice : slice blocks blocksAt (blocksAt + group.blocks.length) = group.blocks := by
    rw [slice, drop_take, Nat.add_sub_cancel_left, itsBlocks]
  have chunkSlice : slice chunks chunksAt (chunksAt + group.chunks.length) = group.chunks := by
    rw [slice, drop_take, Nat.add_sub_cancel_left, enough, itsChunks]
  have room : group.blocks.length + group.start % h.blocksPerChunk ≤
      group.chunks.length * h.blocksPerChunk := by
    rw [enough, count]
    exact cdiv_mul_ge h.chunked
  have filled := h.fillGroupOps_eq own room
  have whole : cdiv (group.blocks.length + group.start % 1) 1 = group.blocks.length := by
    rw [Nat.mod_one, cdiv, Nat.div_one]
    omega
  have split : cdiv (group.blocks.length + group.start % h.blocksPerChunk) h.blocksPerChunk =
      group.chunks.length := by
    rw [enough, count]
  rw [entry, fillGroups, if_neg empty]
  cases toCpu : h.gpuToCpu with
  | true =>
    simp only [srcBlocksPerChunk, dstBlocksPerChunk, toCpu, if_true] at filled ⊢
    rw [whole, split, pyAssert, if_pos chunksEnd, pyAssert, if_pos blocksEnd, blockSlice, chunkSlice,
      filled]
    rfl
  | false =>
    simp only [srcBlocksPerChunk, dstBlocksPerChunk, toCpu, Bool.false_eq_true, if_false] at filled ⊢
    rw [whole, split, pyAssert, if_pos blocksEnd, pyAssert, if_pos chunksEnd, blockSlice, chunkSlice,
      filled]
    rfl

/-- A group whose chunks are as many as its blocks need. -/
def Fits (group : GroupCopies) : Prop :=
  group.chunks.length = group.numChunks h.blocksPerChunk

theorem fillGroups_append {blocks chunks blocksLeft chunksLeft : List Nat}
    {rest : List ((Nat × Nat) × List CanonicalKVCacheRef)}
    (groups : List (GroupCopies × List CanonicalKVCacheRef))
    (own : ∀ g ∈ groups, ∀ ref ∈ g.2, ref ∈ h.layerRefsPerGroup.flatten)
    (fits : ∀ g ∈ groups, h.Fits g.1) {blocksAt chunksAt : Nat}
    (itsBlocks : blocks.drop blocksAt = (groups.flatMap fun g => g.1.blocks) ++ blocksLeft)
    (itsChunks : chunks.drop chunksAt = (groups.flatMap fun g => g.1.chunks) ++ chunksLeft) :
    h.fillGroups (if h.gpuToCpu then blocks else chunks) (if h.gpuToCpu then chunks else blocks)
    (groups.map (fun g => entry g.1 g.2) ++ rest) (if h.gpuToCpu then blocksAt else chunksAt)
    (if h.gpuToCpu then chunksAt else blocksAt) =
    prepend (groups.flatMap fun g => h.groupOps g.2 (g.1.pairs h.blocksPerChunk))
    (h.fillGroups (if h.gpuToCpu then blocks else chunks)
    (if h.gpuToCpu then chunks else blocks) rest
    (if h.gpuToCpu then blocksAt + (groups.flatMap fun g => g.1.blocks).length
    else chunksAt + (groups.flatMap fun g => g.1.chunks).length)
    (if h.gpuToCpu then chunksAt + (groups.flatMap fun g => g.1.chunks).length
    else blocksAt + (groups.flatMap fun g => g.1.blocks).length)) := by
  induction groups generalizing blocksAt chunksAt with
  | nil =>
    simp only [map_nil, nil_append, flatMap_nil, length_nil, Nat.add_zero,
      prepend_nil]
  | cons g groups ih =>
    have fit : g.1.chunks.length = g.1.numChunks h.blocksPerChunk := fits g mem_cons_self
    rw [flatMap_cons, append_assoc] at itsBlocks itsChunks
    have headBlocks : (blocks.drop blocksAt).take g.1.blocks.length = g.1.blocks := by
      rw [itsBlocks, take_left]
    have headChunks : (chunks.drop chunksAt).take (g.1.numChunks h.blocksPerChunk) =
        g.1.chunks := by
      rw [itsChunks, ← fit, take_left]
    have tailBlocks : blocks.drop (blocksAt + g.1.blocks.length) =
        (groups.flatMap fun g => g.1.blocks) ++ blocksLeft := by
      rw [← drop_drop, itsBlocks, drop_left]
    have tailChunks : chunks.drop (chunksAt + g.1.chunks.length) =
        (groups.flatMap fun g => g.1.chunks) ++ chunksLeft := by
      rw [← drop_drop, itsChunks, drop_left]
    rw [map_cons, cons_append,
      h.fillGroups_cons (own g mem_cons_self) headBlocks headChunks fit,
      ih (fun g' hg' => own g' (mem_cons_of_mem _ hg'))
        (fun g' hg' => fits g' (mem_cons_of_mem _ hg')) tailBlocks tailChunks]
    simp only [flatMap_cons, length_append, Nat.add_assoc, prepend_prepend]

def opsPerBlock (ref : CanonicalKVCacheRef) : Nat :=
  if h.canonicalLayout then h.numFrags ref else 1

theorem copyOps_length (ref : CanonicalKVCacheRef) (copy : BlockCopy) :
    (h.copyOps ref copy).length ≤ h.opsPerBlock ref := by
  unfold copyOps opsPerBlock
  split
  · cases h.canonicalLayout with
    | false => simp
    | true =>
      simp only [if_true, numFrags]
      cases ref.mapping with
      | none => simp
      | some mapping =>
        by_cases elected : h.writes mapping copy <;> simp [elected]
  · simp

theorem groupOps_length (layerRefs : List CanonicalKVCacheRef) (copies : List BlockCopy) :
    (h.groupOps layerRefs copies).length ≤ copies.length * (layerRefs.map h.opsPerBlock).sum := by
  induction layerRefs with
  | nil => simp [groupOps]
  | cons ref rest ih =>
    have one : (copies.flatMap (h.copyOps ref)).length ≤ copies.length * h.opsPerBlock ref := by
      clear ih
      induction copies with
      | nil => simp
      | cons copy copies ih =>
        have := h.copyOps_length ref copy
        rw [flatMap_cons, length_append, length_cons, Nat.succ_mul]
        omega
    rw [groupOps, flatMap_cons, length_append, map_cons, sum_cons, Nat.mul_add]
    exact Nat.add_le_add one ih

theorem estimate_of_group (layerRefs : List CanonicalKVCacheRef) (groupSize : Nat) :
    (if h.canonicalLayout then groupSize * (layerRefs.map h.numFrags).sum
    else groupSize * layerRefs.length) = groupSize * (layerRefs.map h.opsPerBlock).sum := by
  have each : layerRefs.map h.opsPerBlock =
      layerRefs.map fun ref => if h.canonicalLayout then h.numFrags ref else 1 := rfl
  rw [each]
  cases h.canonicalLayout <;> simp

theorem pairs_length (group : GroupCopies) (k : Nat) :
    (group.pairs k).length ≤ group.blocks.length := by
  simp [GroupCopies.pairs]

/-- What `transfer_async` hands over when every group has the chunks its blocks need. -/
theorem transferAsync_eq {groups : List GroupCopies}
    (perGroup : groups.length = h.layerRefsPerGroup.length) (fits : ∀ g ∈ groups, h.Fits g) :
    h.transferAsync ⟨groups.flatMap (·.blocks), groups.map (·.blocks.length),
    groups.map (·.start)⟩ (groups.flatMap (·.chunks)) =
    .ok (h.transferOps (groups.map (·.pairs h.blocksPerChunk))) := by
  obtain ⟨loop, hloop⟩ : ∃ loop, loop = groups.zip h.layerRefsPerGroup := ⟨_, rfl⟩
  have firsts : loop.map Prod.fst = groups := by
    rw [hloop, map_fst_zip perGroup.le]
  have own : ∀ g ∈ loop, ∀ ref ∈ g.2, ref ∈ h.layerRefsPerGroup.flatten := by
    intro g hg ref href
    rw [hloop] at hg
    exact mem_flatten.mpr ⟨g.2, (of_mem_zip hg).2, href⟩
  have loopFits : ∀ g ∈ loop, h.Fits g.1 := by
    intro g hg
    rw [hloop] at hg
    exact fits g.1 (of_mem_zip hg).1
  have blocks : groups.flatMap (·.blocks) = loop.flatMap fun g => g.1.blocks := by
    rw [← firsts, flatMap_map]
  have chunks : groups.flatMap (·.chunks) = loop.flatMap fun g => g.1.chunks := by
    rw [← firsts, flatMap_map]
  have entries : ((groups.map (·.blocks.length)).zip (groups.map (·.start))).zip
      h.layerRefsPerGroup = loop.map fun g => entry g.1 g.2 := by
    rw [zip_map', hloop, zip_map_left]
    rfl
  have ops : h.transferOps (groups.map (·.pairs h.blocksPerChunk)) =
      loop.flatMap fun g => h.groupOps g.2 (g.1.pairs h.blocksPerChunk) := by
    rw [transferOps, zip_map_left, flatMap_map, hloop]
    rfl
  have ran := @fillGroups_append h (groups.flatMap (·.blocks)) (groups.flatMap (·.chunks)) [] [] []
    loop own loopFits 0 0 (by simp [blocks]) (by simp [chunks])
  have within : (h.transferOps (groups.map (·.pairs h.blocksPerChunk))).length ≤
      h.estimateMaxCopyOps (groups.map (·.blocks.length)) := by
    rw [ops, estimateMaxCopyOps, zip_map_left, map_map, ← hloop, length_flatMap]
    apply sum_le_sum
    intro g _
    refine Nat.le_trans (h.groupOps_length _ _) ?_
    rw [comp_apply]
    refine Nat.le_trans ?_ (Nat.le_of_eq (h.estimate_of_group g.2 g.1.blocks.length).symm)
    exact Nat.mul_le_mul_right _ (pairs_length _ _)
  have firstAssert : (groups.map (·.blocks.length)).length = h.layerRefsPerGroup.length := by
    rw [length_map, perGroup]
  have secondAssert : (groups.map (·.start)).length = h.layerRefsPerGroup.length := by
    rw [length_map, perGroup]
  rw [append_nil, ← entries, ← blocks, ← chunks, ← ops, fillGroups] at ran
  simp only [transferAsync]
  rw [pyAssert, if_pos firstAssert, pyAssert, if_pos secondAssert]
  cases toCpu : h.gpuToCpu with
  | true =>
    simp only [toCpu, if_true] at ran ⊢
    simp only [bind, Except.bind, ran, prepend, Nat.zero_add, append_nil, pyAssert, if_pos within,
      if_true]
  | false =>
    simp only [toCpu, Bool.false_eq_true, if_false] at ran ⊢
    simp only [bind, Except.bind, ran, prepend, Nat.zero_add, append_nil, pyAssert, if_pos within,
      if_true]

end SingleDirectionOffloadingHandler

end VllmAmpere.OffloadTransfer
