import VllmAmpere.CanonicalMapping
import VllmAmpere.Python

/-! The worker's side of an offload transfer: the copy descriptors that
`SingleDirectionOffloadingHandler.transfer_async` derives from a job. -/

namespace VllmAmpere.OffloadTransfer

open Canonical

/-- A tensor of bytes with two dimensions: its address, `stride(0)` and `shape[1]`. -/
structure ByteTensor where
  dataPtr : Nat
  rowStride : Nat
  pageSize : Nat

structure CanonicalKVCacheRef where
  tensorIdx : Nat
  pageSizeBytes : Nat
  mapping : Option CanonicalPageMapping := none

structure GPULoadStoreSpec where
  blockIds : List Nat
  groupSizes : List Nat
  blockIndices : List Nat

/-- `GPULoadStoreSpec.__init__`. -/
def GPULoadStoreSpec.new (blockIds groupSizes blockIndices : List Nat) :
    Except PyError GPULoadStoreSpec := do
  pyAssert (groupSizes.sum = blockIds.length) "sum(group_sizes) == len(block_ids)"
  pyAssert (blockIndices.length = groupSizes.length) "len(block_indices) == len(group_sizes)"
  .ok ⟨blockIds, groupSizes, blockIndices⟩

/-- One copy: the addresses of its source and destination and its bytes. -/
structure Descriptor where
  src : Nat
  dst : Nat
  size : Nat
  deriving DecidableEq, Repr

/-- `output[:] = values` for an output of `count` elements. -/
def assignAll (count : Nat) (values : List Nat) : Except PyError (List Nat) :=
  if values.length = count then .ok values
  else match values with
    | [value] => .ok (List.replicate count value)
    | _ => .error (.value "could not broadcast input array")

/-- `compute_sub_block_ptrs` for an output of `count` pointers; addresses do not overflow. -/
def computeSubBlockPtrs (blockIds : List Nat) (blocksPerChunk count : Nat) (tensor : ByteTensor)
    (skipCount : Nat) : Except PyError (List Nat) := do
  pyAssert (skipCount < blocksPerChunk) "skip_count < blocks_per_chunk"
  if blocksPerChunk = 1 then
    assignAll count ((blockIds.take count).map fun b => tensor.dataPtr + b * tensor.rowStride)
  else
    pyAssert (tensor.pageSize % blocksPerChunk = 0) "tensor.shape[1] % blocks_per_chunk == 0"
    let blockPageSize := tensor.pageSize / blocksPerChunk
    let flat := blockIds.flatMap fun b => (List.range blocksPerChunk).map fun j =>
      tensor.dataPtr + b * tensor.rowStride + j * blockPageSize
    assignAll count ((flat.drop skipCount).take count)

/-- The fragments of a block: source offset, destination offset and size. -/
def buildCopyPlan (mapping : CanonicalPageMapping) (gpuToCpu : Bool) : List (Nat × Nat × Nat) :=
  mapping.runs.flatMap fun run => (List.range run.numFragments).map fun i =>
    let l := run.localOffset + i * run.localStride
    let canonical := run.canonicalOffset + i * run.canonicalStride
    if gpuToCpu then (l, canonical, run.fragmentSize) else (canonical, l, run.fragmentSize)

/-- `_canonical_page_ids`. -/
def canonicalPageIds (blockIds : List Nat) (blocksPerChunk count skipCount : Nat) : List Nat :=
  if blocksPerChunk = 1 then blockIds.take count
  else
    let flat := blockIds.flatMap fun b => (List.range blocksPerChunk).map fun j =>
      b * blocksPerChunk + j
    (flat.drop skipCount).take count

/-- `_canonical_block_sizes` for one tensor. -/
def canonicalBlockSize (layerRefsPerGroup : List (List CanonicalKVCacheRef)) (tensorIdx : Nat) :
    Nat :=
  (layerRefsPerGroup.flatten.filter (·.tensorIdx = tensorIdx)).foldl
    (fun size ref => max size ((ref.mapping.map (·.canonicalPageSizeBytes)).getD 0)) 0

/-- A handler with what its constructor asserts. -/
structure SingleDirectionOffloadingHandler where
  gpuTensors : List ByteTensor
  cpuTensors : List ByteTensor
  blocksPerChunk : Nat
  layerRefsPerGroup : List (List CanonicalKVCacheRef)
  gpuToCpu : Bool
  canonicalLayout : Bool
  sameLength : gpuTensors.length = cpuTensors.length
  chunked : 0 < blocksPerChunk
  mapped : canonicalLayout = true → ∀ ref ∈ layerRefsPerGroup.flatten, ref.mapping.isSome = true
  pages : ∀ (t : Nat) gpu cpu, gpuTensors[t]? = some gpu → cpuTensors[t]? = some cpu →
    cpu.pageSize =
      (if canonicalLayout then canonicalBlockSize layerRefsPerGroup t else gpu.pageSize) *
        blocksPerChunk
  inRange : ∀ ref ∈ layerRefsPerGroup.flatten, ref.tensorIdx < gpuTensors.length

namespace SingleDirectionOffloadingHandler

variable (h : SingleDirectionOffloadingHandler)

def srcTensors : List ByteTensor := if h.gpuToCpu then h.gpuTensors else h.cpuTensors

def dstTensors : List ByteTensor := if h.gpuToCpu then h.cpuTensors else h.gpuTensors

def srcBlocksPerChunk : Nat := if h.gpuToCpu then 1 else h.blocksPerChunk

def dstBlocksPerChunk : Nat := if h.gpuToCpu then h.blocksPerChunk else 1

/-- `self.src_tensors[t_idx]` with the pointers of a group in it. -/
def ptrs (tensors : List ByteTensor) (tensorIdx : Nat) (blockIds : List Nat)
    (blocksPerChunk count skipCount : Nat) : Except PyError (List Nat) := do
  let tensor ← pyGet tensors tensorIdx
  computeSubBlockPtrs blockIds blocksPerChunk count tensor skipCount

/-- `num_frags` of a ref's plan. -/
def numFrags (ref : CanonicalKVCacheRef) : Nat :=
  (ref.mapping.map fun m => (buildCopyPlan m h.gpuToCpu).length).getD 0

def estimateMaxCopyOps (groupSizes : List Nat) : Nat :=
  ((groupSizes.zip h.layerRefsPerGroup).map fun (groupSize, layerRefs) =>
    if h.canonicalLayout then groupSize * (layerRefs.map h.numFrags).sum
    else groupSize * layerRefs.length).sum

/-- The descriptors of one ref: `_fill_direct_ops` and `_fill_canonical_ops`. -/
def fillDirectOps (groupSrc groupDst : List Nat) (groupSize srcSkipCount dstSkipCount : Nat)
    (dataRef : CanonicalKVCacheRef) : Except PyError (List Descriptor) := do
  let src ← ptrs h.srcTensors dataRef.tensorIdx groupSrc h.srcBlocksPerChunk groupSize srcSkipCount
  let dst ← ptrs h.dstTensors dataRef.tensorIdx groupDst h.dstBlocksPerChunk groupSize dstSkipCount
  .ok (List.zipWith (fun s d => ⟨s, d, dataRef.pageSizeBytes⟩) src dst)

def fillCanonicalOps (groupSrc groupDst : List Nat) (groupSize srcSkipCount dstSkipCount : Nat)
    (dataRef : CanonicalKVCacheRef) : Except PyError (List Descriptor) :=
  match dataRef.mapping with
  | none => .error (.assertion "mapping is not None")
  | some mapping =>
    let plan := buildCopyPlan mapping h.gpuToCpu
    if plan.length = 0 then .ok []
    else do
      let src ← ptrs h.srcTensors dataRef.tensorIdx groupSrc h.srcBlocksPerChunk groupSize
        srcSkipCount
      let dst ← ptrs h.dstTensors dataRef.tensorIdx groupDst h.dstBlocksPerChunk groupSize
        dstSkipCount
      -- on a store only the blocks that this rank is elected to write are kept
      let bases := if h.gpuToCpu ∧ 1 < mapping.numWriters then
          let pages := canonicalPageIds groupDst h.dstBlocksPerChunk groupSize dstSkipCount
          ((src.zip dst).zip pages).filterMap fun (ends, page) =>
            if page % mapping.numWriters = mapping.writerIndex then some ends else none
        else src.zip dst
      .ok (bases.flatMap fun (s, d) => plan.map fun (fragSrc, fragDst, size) =>
        ⟨s + fragSrc, d + fragDst, size⟩)

/-- `self._fill_group_ops`. -/
def fillGroupOps (groupSrc groupDst : List Nat) (groupSize srcSkipCount dstSkipCount : Nat) :
    List CanonicalKVCacheRef → Except PyError (List Descriptor)
  | [] => .ok []
  | dataRef :: rest => do
    let ops ← if h.canonicalLayout then
        h.fillCanonicalOps groupSrc groupDst groupSize srcSkipCount dstSkipCount dataRef
      else h.fillDirectOps groupSrc groupDst groupSize srcSkipCount dstSkipCount dataRef
    let more ← fillGroupOps groupSrc groupDst groupSize srcSkipCount dstSkipCount rest
    .ok (ops ++ more)

/-- The loop over the groups with their sizes, block indices and refs. -/
def fillGroups (srcBlocks dstBlocks : List Nat) :
    List ((Nat × Nat) × List CanonicalKVCacheRef) → (srcOffset dstOffset : Nat) →
      Except PyError (Nat × Nat × List Descriptor)
  | [], srcOffset, dstOffset => .ok (srcOffset, dstOffset, [])
  | ((groupSize, blockIdx), layerRefs) :: rest, srcOffset, dstOffset =>
    if groupSize = 0 then fillGroups srcBlocks dstBlocks rest srcOffset dstOffset
    else do
      let srcSkip := blockIdx % h.srcBlocksPerChunk
      let dstSkip := blockIdx % h.dstBlocksPerChunk
      let dstEnd := dstOffset + cdiv (groupSize + dstSkip) h.dstBlocksPerChunk
      pyAssert (dstEnd ≤ dstBlocks.length) "dst_end_offset <= num_dst_blocks"
      let srcEnd := srcOffset + cdiv (groupSize + srcSkip) h.srcBlocksPerChunk
      pyAssert (srcEnd ≤ srcBlocks.length) "src_end_offset <= num_src_blocks"
      let ops ← h.fillGroupOps (slice srcBlocks srcOffset srcEnd)
        (slice dstBlocks dstOffset dstEnd) groupSize srcSkip dstSkip layerRefs
      let (srcLast, dstLast, more) ← fillGroups srcBlocks dstBlocks rest srcEnd dstEnd
      .ok (srcLast, dstLast, ops ++ more)

/-- `transfer_async` up to the descriptors it hands over, for the blocks of the GPU and the
chunks of the CPU. -/
def transferAsync (gpuSpec : GPULoadStoreSpec) (cpuChunks : List Nat) :
    Except PyError (List Descriptor) := do
  let srcBlocks := if h.gpuToCpu then gpuSpec.blockIds else cpuChunks
  let dstBlocks := if h.gpuToCpu then cpuChunks else gpuSpec.blockIds
  pyAssert (gpuSpec.groupSizes.length = h.layerRefsPerGroup.length)
    "len(group_sizes) == len(self.layer_refs_per_group)"
  pyAssert (gpuSpec.blockIndices.length = h.layerRefsPerGroup.length)
    "len(block_indices) == len(self.layer_refs_per_group)"
  let (srcOffset, dstOffset, ops) ← h.fillGroups srcBlocks dstBlocks
    ((gpuSpec.groupSizes.zip gpuSpec.blockIndices).zip h.layerRefsPerGroup) 0 0
  pyAssert (srcOffset = srcBlocks.length) "src_offset == num_src_blocks"
  pyAssert (dstOffset = dstBlocks.length) "dst_offset == num_dst_blocks"
  pyAssert (ops.length ≤ h.estimateMaxCopyOps gpuSpec.groupSizes) "op_idx <= num_copy_ops"
  .ok ops

end SingleDirectionOffloadingHandler

end VllmAmpere.OffloadTransfer
