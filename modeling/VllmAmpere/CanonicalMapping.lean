import Mathlib.Data.Rat.Floor
import VllmAmpere.ByteTilings

/-! Canonical page mappings: where each rank of a tensor and context parallel group places
the bytes of its page of a layer in the page of the block without parallelism. -/

namespace VllmAmpere.Canonical

open Tilings

/-- Sharding parameters of one worker rank within the offload group. -/
structure RankContext where
  tpSize : Nat
  dcpSize : Nat
  pcpSize : Nat
  interleave : Nat
  totalKvHeads : Nat
  rank : Nat

namespace RankContext

variable (ctx : RankContext)

def cpSize : Nat := ctx.dcpSize * ctx.pcpSize

def tpRank : Nat := ctx.rank % ctx.tpSize

def totalCpRank : Nat :=
  let pcpRank := ctx.rank / ctx.tpSize
  pcpRank * ctx.dcpSize + ctx.tpRank % ctx.dcpSize

end RankContext

/-- A byte region within a page that repeats once per token. -/
structure ByteRegion where
  localOffset : Nat
  canonicalOffset : Nat
  bytesPerToken : Nat
  canonicalTokenStride : Nat

/-- Fragments of a worker's page and where they stand in the canonical page. -/
structure CopyRun where
  localOffset : Nat
  canonicalOffset : Nat
  fragmentSize : Nat
  numFragments : Nat
  localStride : Nat
  canonicalStride : Nat
  deriving DecidableEq

structure CanonicalPageMapping where
  canonicalPageSizeBytes : Nat
  localPageSizeBytes : Nat
  runs : List CopyRun
  numWriters : Nat
  writerIndex : Nat
  parallelismAgnostic : Bool
  deriving DecidableEq

def CanonicalPageMapping.isWriter (mapping : CanonicalPageMapping) (blockId : Nat) : Bool :=
  blockId % mapping.numWriters == mapping.writerIndex

/-- The fragments of a run as one, when they are contiguous. -/
def CopyRun.collapse (run : CopyRun) : CopyRun :=
  if 1 < run.numFragments ∧ run.localStride = run.fragmentSize ∧
      run.canonicalStride = run.fragmentSize then
    let size := run.fragmentSize * run.numFragments
    ⟨run.localOffset, run.canonicalOffset, size, 1, size, size⟩
  else run

/-- The body of the loop of `_coalesce_runs`. -/
def coalesce (out : List CopyRun) (run : CopyRun) : List CopyRun :=
  let run := run.collapse
  match out.getLast? with
  | none => out ++ [run]
  | some prev =>
    if prev.numFragments = 1 ∧ run.numFragments = 1 ∧
        prev.localOffset + prev.fragmentSize = run.localOffset ∧
        prev.canonicalOffset + prev.fragmentSize = run.canonicalOffset then
      let size := prev.fragmentSize + run.fragmentSize
      out.dropLast ++ [⟨prev.localOffset, prev.canonicalOffset, size, 1, size, size⟩]
    else out ++ [run]

def coalesceRuns (runs : List CopyRun) : List CopyRun := runs.foldl coalesce []

def localToCanonicalToken (localIdx : Nat) (ctx : RankContext) : Nat :=
  let chunk := localIdx / ctx.interleave
  let posInChunk := localIdx % ctx.interleave
  (chunk * ctx.cpSize + ctx.totalCpRank) * ctx.interleave + posInChunk

/-- `range(0, stop, step)`. -/
def pyRange (stop step : Nat) : List Nat :=
  (List.range ((stop + step - 1) / step)).map fun i => i * step

/-- The runs of one region in `_interleave_cp_tokens`. -/
def regionRuns (numTokens : Nat) (ctx : RankContext) (region : ByteRegion) : List CopyRun :=
  if ctx.cpSize = 1 then
    [⟨region.localOffset, region.canonicalOffset, region.bytesPerToken, numTokens,
      region.bytesPerToken, region.canonicalTokenStride⟩]
  else
    (pyRange numTokens ctx.interleave).map fun chunkStart =>
      let canonicalToken := localToCanonicalToken chunkStart ctx
      ⟨region.localOffset + chunkStart * region.bytesPerToken,
        region.canonicalOffset + canonicalToken * region.canonicalTokenStride,
        region.bytesPerToken, ctx.interleave, region.bytesPerToken, region.canonicalTokenStride⟩

def interleaveCpTokens (regions : List ByteRegion) (numTokens : Nat) (ctx : RankContext) :
    List CopyRun :=
  coalesceRuns (regions.flatMap (regionRuns numTokens ctx))

inductive KVQuantMode where
  | none
  | fp8PerTensor
  | int8PerTokenHead
  | fp8PerTokenHead
  | int4PerTokenHead
  | nvfp4
  | turboquantK8V4
  | turboquant4BitNC
  | turboquantK3V4NC
  | turboquant3BitNC
  | nvfp4DsMla
  deriving DecidableEq

def KVQuantMode.isPerTokenHead : KVQuantMode → Bool
  | .int8PerTokenHead | .fp8PerTokenHead | .int4PerTokenHead => true
  | _ => false

/-- The sizes of an `AttentionSpec`; `mla` marks an `MLAAttentionSpec`. -/
structure AttentionSpec where
  mla : Bool
  blockSize : Nat
  numKvHeads : Nat
  headSize : Nat
  headSizeV : Nat
  dtypeSize : Nat
  kvQuantMode : KVQuantMode
  numHeadSlots : Option Nat
  stateContentBytes : Option Nat
  tokensPerState : ℚ
  blockSize_pos : 0 < blockSize
  numKvHeads_pos : 0 < numKvHeads
  headSize_pos : 0 < headSize
  dtypeSize_pos : 0 < dtypeSize
  numHeadSlots_pos : ∀ n ∈ numHeadSlots, 0 < n
  stateContentBytes_pos : ∀ n ∈ stateContentBytes, 0 < n

namespace AttentionSpec

variable (spec : AttentionSpec)

def numHeads : Nat := spec.numHeadSlots.getD spec.numKvHeads

def numStates : Nat :=
  if 0 < spec.tokensPerState then (Rat.floor (spec.blockSize / spec.tokensPerState)).toNat else 1

def stateContentSizeBytes : Nat :=
  spec.stateContentBytes.getD ((spec.headSize + spec.headSizeV) * spec.dtypeSize)

def realPageSizeBytes : Nat := spec.numHeads * spec.numStates * spec.stateContentSizeBytes

end AttentionSpec

inductive KVCacheSpec where
  | attention (spec : AttentionSpec)
  | other

/-- What `_layer_mapping` reads of a tensor. -/
structure Tensor where
  shape : List Nat
  stride : List Nat
  elementSize : Nat
  elementSize_pos : 0 < elementSize

variable (kvCache : Tensor) (spec : AttentionSpec)

/-- K and V adjacent per (token, head), in NHD or HND stride order. -/
def packedKvRegions
    (headShard numHeadShards cpSize : Nat) : Option (List ByteRegion) :=
  let bs := spec.blockSize
  let heads := spec.numKvHeads
  let elem := kvCache.elementSize
  let headElems := 2 * spec.headSize
  if heads * bs * headElems * elem ≠ spec.realPageSizeBytes then none
  else
    match kvCache.stride with
    | [_, headStride, tokenStride, innerStride] =>
      if innerStride ≠ 1 then none
      else
        let headBytes := headElems * elem
        let tokenRowBytes := heads * headBytes
        if headStride = headElems ∧ tokenStride = heads * headElems then
          some [⟨0, headShard * tokenRowBytes, tokenRowBytes, numHeadShards * tokenRowBytes⟩]
        else if headStride = bs * headElems ∧ tokenStride = headElems then
          let canonicalSpan := bs * cpSize
          some ((List.range heads).map fun head =>
            ⟨head * bs * headBytes, (headShard * heads + head) * canonicalSpan * headBytes,
              headBytes, headBytes⟩)
        else none
    | _ => none

/-- K and V in separate page halves, in NHD or HND stride order. -/
def splitKvRegions
    (headShard numHeadShards cpSize : Nat) : Option (List ByteRegion) :=
  let bs := spec.blockSize
  let heads := spec.numKvHeads
  let headSize := spec.headSize
  let elem := kvCache.elementSize
  if 2 * bs * heads * headSize * elem ≠ spec.realPageSizeBytes then none
  else
    match kvCache.stride with
    | [_, halfStride, tokenStride, headStride, innerStride] =>
      if innerStride ≠ 1 ∨ halfStride ≠ bs * heads * headSize then none
      else
        let headBytes := headSize * elem
        let tokenRowBytes := heads * headBytes
        let canonicalSpan := bs * cpSize
        if tokenStride = heads * headSize ∧ headStride = headSize then
          let canonicalHalfBytes := canonicalSpan * numHeadShards * tokenRowBytes
          some ((List.range 2).map fun half =>
            ⟨half * bs * tokenRowBytes, half * canonicalHalfBytes + headShard * tokenRowBytes,
              tokenRowBytes, numHeadShards * tokenRowBytes⟩)
        else if headStride = bs * headSize ∧ tokenStride = headSize then
          let localHalfBytes := bs * heads * headBytes
          let totalHeads := numHeadShards * heads
          some ((List.range 2).flatMap fun half => (List.range heads).map fun head =>
            ⟨half * localHalfBytes + head * bs * headBytes,
              (half * totalHeads + headShard * heads + head) * canonicalSpan * headBytes,
              headBytes, headBytes⟩)
        else none
    | _ => none

def attentionByteRegions (numBlocks : Nat)
    (headShard numHeadShards cpSize : Nat) : Option (List ByteRegion) :=
  let bs := spec.blockSize
  let heads := spec.numKvHeads
  let headSize := spec.headSize
  if kvCache.shape = [numBlocks, heads, bs, 2 * headSize] then
    packedKvRegions kvCache spec headShard numHeadShards cpSize
  else if kvCache.shape = [numBlocks, 2, bs, heads, headSize] then
    splitKvRegions kvCache spec headShard numHeadShards cpSize
  else none

variable (spec : AttentionSpec)

/-- The head shards of a layer and the ranks that replicate one, when its heads are those of
the shards. -/
def headShards (ctx : RankContext) : Option (Nat × Nat) :=
  let total := ctx.totalKvHeads
  let tp := ctx.tpSize
  if spec.numKvHeads ≠ max 1 (total / tp) then none
  else if tp ≤ total then
    if total % tp ≠ 0 then none else some (tp, 1)
  else if tp % total ≠ 0 then none
  else some (total, tp / total)

/-- `_layer_mapping` for an `MLAAttentionSpec`: tensor parallelism replicates the latent. -/
def latentMapping (ctx : RankContext) : Option CanonicalPageMapping :=
  let bs := spec.blockSize
  let page := spec.realPageSizeBytes
  if spec.tokensPerState ≠ 1 ∨ page % bs ≠ 0 ∨ ctx.tpSize % ctx.dcpSize ≠ 0 ∨
      spec.kvQuantMode.isPerTokenHead then none
  else
    let row := page / bs
    some {
      canonicalPageSizeBytes := ctx.cpSize * page
      localPageSizeBytes := page
      runs := interleaveCpTokens [⟨0, 0, row, row⟩] bs ctx
      numWriters := ctx.tpSize / ctx.dcpSize
      writerIndex := ctx.tpRank / ctx.dcpSize
      parallelismAgnostic := ctx.cpSize == 1 }

/-- `_layer_mapping` for the other attention layers, whose heads are sharded or replicated. -/
def headsMapping (kvCache : Option Tensor) (numBlocks : Nat)
    (ctx : RankContext) : Option CanonicalPageMapping :=
  let bs := spec.blockSize
  let page := spec.realPageSizeBytes
  match kvCache with
  | none => none
  | some kvCache =>
    if spec.kvQuantMode.isPerTokenHead then none
    else
      match headShards spec ctx with
      | none => none
      | some (numHeadShards, replication) =>
        if replication % ctx.dcpSize ≠ 0 then none
        else
          let headShard := ctx.tpRank / replication
          match attentionByteRegions kvCache spec numBlocks headShard numHeadShards ctx.cpSize with
          | none => none
          | some regions =>
            some {
              canonicalPageSizeBytes := ctx.cpSize * numHeadShards * page
              localPageSizeBytes := page
              runs := interleaveCpTokens regions bs ctx
              numWriters := replication / ctx.dcpSize
              writerIndex := ctx.tpRank % replication / ctx.dcpSize
              parallelismAgnostic := ctx.cpSize == 1 }

/-- The mapping for one layer at one rank; no tensor for a layer that has none or several. -/
def layerMapping (spec : KVCacheSpec) (kvCache : Option Tensor) (numBlocks : Nat)
    (ctx : RankContext) : Option CanonicalPageMapping :=
  match spec with
  | .other => none
  | .attention spec =>
    let bs := spec.blockSize
    if 1 < ctx.cpSize ∧ (bs < ctx.interleave ∨ bs % ctx.interleave ≠ 0) then none
    else if spec.mla then latentMapping spec ctx
    else headsMapping spec kvCache numBlocks ctx

/-- The intervals of one run in `_run_intervals`. -/
def CopyRun.intervals (canonical : Bool) (run : CopyRun) : List (Nat × Nat) :=
  let offset := if canonical then run.canonicalOffset else run.localOffset
  let stride := if canonical then run.canonicalStride else run.localStride
  (List.range run.numFragments).map fun i =>
    let start := offset + i * stride
    (start, start + run.fragmentSize)

def runIntervals (runs : List CopyRun) (canonical : Bool) : List (Nat × Nat) :=
  sorted (runs.flatMap (CopyRun.intervals canonical))

def isExactPartition (intervals : List (Nat × Nat)) (size : Nat) : Bool :=
  !intervals.isEmpty && (intervals.head?.map Prod.fst == some 0) &&
    (intervals.getLast?.map Prod.snd == some size) &&
      (intervals.zip intervals.tail).all fun (a, b) => a.2 == b.1

/-- What the writers of a block store, in `_verify_tiling`. -/
def stored (perRank : List CanonicalPageMapping) (blockId : Nat) : List (Nat × Nat) :=
  sorted ((perRank.filter fun mapping => mapping.isWriter blockId).flatMap fun mapping =>
    runIntervals mapping.runs true)

/-- `_verify_tiling`: whether none of its assertions fails. -/
def verifyTiling : List CanonicalPageMapping → Bool
  | [] => false
  | first :: rest =>
    let perRank := first :: rest
    let size := first.canonicalPageSizeBytes
    let numWriters := first.numWriters
    (perRank.all fun mapping =>
      mapping.canonicalPageSizeBytes == size && mapping.numWriters == numWriters &&
        isExactPartition (runIntervals mapping.runs false) mapping.localPageSizeBytes) &&
      (List.range numWriters).all fun blockId => isExactPartition (stored perRank blockId) size

/-- What `derive_canonical_mappings` takes of the configuration; the sizes are at least one. -/
structure ParallelConfig where
  tpSize : Nat
  pcpSize : Nat
  dcpSize : Nat
  interleave : Nat
  totalKvHeads : Nat
  tpSize_pos : 0 < tpSize
  pcpSize_pos : 0 < pcpSize
  dcpSize_pos : 0 < dcpSize
  totalKvHeads_pos : 0 < totalKvHeads

def ParallelConfig.groupSize (config : ParallelConfig) : Nat := config.tpSize * config.pcpSize

def ParallelConfig.ctx (config : ParallelConfig) (rank : Nat) : RankContext :=
  { config with rank }

/-- A layer of a deployment. -/
structure Layer where
  config : ParallelConfig
  spec : KVCacheSpec
  kvCache : Option Tensor
  numBlocks : Nat

def Layer.mapping (layer : Layer) (rank : Nat) : Option CanonicalPageMapping :=
  layerMapping layer.spec layer.kvCache layer.numBlocks (layer.config.ctx rank)

def Layer.perRank (layer : Layer) : Option (List CanonicalPageMapping) :=
  (List.range layer.config.groupSize).mapM layer.mapping

end VllmAmpere.Canonical
