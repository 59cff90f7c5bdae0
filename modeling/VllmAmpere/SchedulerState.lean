import VllmAmpere.FreeKVCacheBlockQueue
import VllmAmpere.RequestQueue
import VllmAmpere.SchedRequest

/-! The scheduler: its configuration, the objects it works with, its state and the
methods that move a request between the containers. -/

namespace VllmAmpere.Sched

/-- Block ids, one list for each KV cache group. -/
abbrev KVCacheBlocks := List (List BlockId)

/-- The configuration a scheduler reads. Optional parts that are only tested for
their presence are flags. -/
structure SchedulerConfig where
  policy : SchedulingPolicy := .fcfs
  /-- Whether the scheduler is an `AsyncScheduler`. -/
  isAsync : Bool := false
  maxNumRunningReqs : Nat
  maxNumActiveReqs : Nat
  maxNumScheduledTokens : Nat
  maxNumBatchedTokens : Nat
  longPrefillTokenThreshold : Nat := 0
  adaptiveLongPrefillThreshold : Bool := false
  enableChunkedPrefill : Bool := true
  maxModelLen : Nat
  /-- 1, or 0 for a diffusion model. -/
  numSampledTokensPerStep : Nat := 1
  hasConnector : Bool := false
  supportsDivergentLocalHybridHits : Bool := false
  recomputeKvLoadFailures : Bool := true
  deferBlockFree : Bool := false
  requiresKvDelivery : Bool := false
  hasEcConnector : Bool := false
  blockSize : Nat := 16
  hashBlockSize : Nat := 16
  /-- `cache_config.block_size`. -/
  cacheBlockSize : Nat := 16
  numKvCacheGroups : Nat := 1
  maxLoras : Option Nat := none
  maxNumEncoderInputTokens : Nat := 0
  isEncoderDecoder : Bool := false
  disableChunkedMmInput : Bool := false
  isMmEncoderOnly : Bool := false
  /-- `max_num_new_slots_for_drafting`, 0 without speculative decoding. -/
  draftSlots : Nat := 0
  numSpecTokens : Nat := 0
  dynamicSdLookup : Option (List Nat) := none
  numLookaheadTokens : Nat := 0
  numPrefillLookahead : Nat := 0
  prefixReplayTokens : Nat := 0
  useEagleBlockDrop : Bool := false
  needMambaBlockAlignedSplit : Bool := false
  mambaPrefillCheckpointAlignment : Option Nat := none
  mambaHasPrefillCheckpointBlocks : Bool := false
  mambaPartialCacheHit : Bool := false
  mambaSharedPrefixCheckpoint : Bool := false
  schedulerReserveFullIsl : Bool := false
  useV2ModelRunner : Bool := false
  decodeStagger : Nat := 1

/-- The arguments of `KVCacheManager.allocate_slots` besides the request. -/
structure SlotArgs where
  numNewTokens : Int
  numNewComputedTokens : Nat := 0
  newComputedBlocks : KVCacheBlocks := []
  numLookaheadTokens : Nat := 0
  numExternalComputedTokens : Nat := 0
  delayCacheBlocks : Bool := false
  numEncoderTokens : Nat := 0
  fullSequenceMustFit : Bool := false
  reservedBlocks : Nat := 0
  hasScheduledReqs : Bool := false

/-- A prefix hit: its blocks, its tokens and the shared-prefix boundary found with it. -/
structure PrefixHit where
  blocks : KVCacheBlocks
  numTokens : Nat
  sharedPrefixBoundary : Nat

inductive GrammarState
  | compiling
  | failed
  | ready
  deriving DecidableEq

/-- What a worker reports about KV transfers. -/
structure KVConnectorOutput where
  finishedSending : List String := []
  finishedRecving : List String := []
  failedRecving : List String := []
  invalidBlockIds : List BlockId := []

/-- The objects the scheduler calls and does not decide for: the KV cache manager,
the KV and encoder-cache connectors, the encoder cache manager and the structured
output manager. `ω` is their joint state; a call that raises ends the run. -/
structure Components (ω : Type) where
  newStepStarts : ω → ω
  getComputedBlocks : ω → Request → PrefixHit × ω
  getComputedBlocksForConnector : ω → Request → (PrefixHit × Bool) × ω
  truncateComputedBlocks : ω → KVCacheBlocks → Nat → KVCacheBlocks
  allocateSlots : ω → Request → SlotArgs → Option KVCacheBlocks × ω
  getBlocks : ω → String → KVCacheBlocks
  getNumBlocksToAllocate : ω → Request → Nat → Nat
  cacheBlocks : ω → Request → Int → ω
  removeSkippedBlocks : ω → Request → Int → ω
  evictBlocks : ω → List BlockId → ω
  free : ω → Request → ω
  popBlocksForFree : ω → Request → List BlockId × ω
  freeBlocks : ω → List BlockId → ω
  takeKvCacheBlockCopies : ω → List (BlockId × BlockId) × List BlockId × ω
  resetPrefixCache : ω → Bool × ω
  hasPendingBlockFrees : ω → Bool × ω
  getNumNewMatchedTokens : ω → Request → Nat → (Option Nat × Bool) × ω
  updateStateAfterAlloc : ω → Request → KVCacheBlocks → Nat → ω
  requestFinished : ω → Request → KVCacheBlocks → Bool × ω
  updateConnectorOutput : ω → KVConnectorOutput → ω
  onNewRequest : ω → Request → ω
  ensureCacheAvailable : ω → Request → Int → Bool × ω
  hasCacheItem : ω → String → Bool × ω
  ecUpdateStateAfterAlloc : ω → Request → Nat → ω
  ecUpdateStateAfterFree : ω → Request → Nat → ω
  ecRequestFinished : ω → Request → Bool × ω
  takeUnavailableRequests : ω → List String × ω
  getCachedNumEncoderEmbeds : ω → Request → Nat → Option Nat
  checkAndUpdateCache : ω → Request → Nat → Bool × ω
  canAllocate : ω → Request → Nat → Int → Nat → Bool × ω
  allocateEncoder : ω → Request → Nat → ω
  freeEncoderInput : ω → Request → Nat → ω
  getCachedInputIds : ω → Request → List Nat
  freeEncoder : ω → Request → ω
  grammar : ω → Request → GrammarState
  acceptTokens : ω → Request → List Int → Bool × ω
  validateTokens : ω → Request → List Int → List Int

/-- Components without connectors or caches: `allocate_slots` answers from a list, and
gives empty blocks once it is used up; a grammar never gets ready. -/
def Components.scripted : Components (List Bool) where
  newStepStarts answers := answers
  getComputedBlocks answers _ := (⟨[], 0, 0⟩, answers)
  getComputedBlocksForConnector answers _ := ((⟨[], 0, 0⟩, false), answers)
  truncateComputedBlocks _ blocks _ := blocks
  allocateSlots answers _ _ := (if answers.headD true then some [] else none, answers.tail)
  getBlocks _ _ := []
  getNumBlocksToAllocate _ _ _ := 0
  cacheBlocks answers _ _ := answers
  removeSkippedBlocks answers _ _ := answers
  evictBlocks answers _ := answers
  free answers _ := answers
  popBlocksForFree answers _ := ([], answers)
  freeBlocks answers _ := answers
  takeKvCacheBlockCopies answers := ([], [], answers)
  resetPrefixCache answers := (true, answers)
  hasPendingBlockFrees answers := (false, answers)
  getNumNewMatchedTokens answers _ _ := ((some 0, false), answers)
  updateStateAfterAlloc answers _ _ _ := answers
  requestFinished answers _ _ := (false, answers)
  updateConnectorOutput answers _ := answers
  onNewRequest answers _ := answers
  ensureCacheAvailable answers _ _ := (true, answers)
  hasCacheItem answers _ := (false, answers)
  ecUpdateStateAfterAlloc answers _ _ := answers
  ecUpdateStateAfterFree answers _ _ := answers
  ecRequestFinished answers _ := (false, answers)
  takeUnavailableRequests answers := ([], answers)
  getCachedNumEncoderEmbeds _ _ _ := none
  checkAndUpdateCache answers _ _ := (false, answers)
  canAllocate answers _ _ _ _ := (true, answers)
  allocateEncoder answers _ _ := answers
  freeEncoderInput answers _ _ := answers
  getCachedInputIds _ _ := []
  freeEncoder answers _ := answers
  grammar _ r := if r.useStructuredOutput then .compiling else .ready
  acceptTokens answers _ _ := (true, answers)
  validateTokens _ _ tokens := tokens

/-- Components that hold nothing: every request gets empty blocks, nothing is cached. -/
def Components.idle {ω : Type} : Components ω where
  newStepStarts w := w
  getComputedBlocks w _ := (⟨[], 0, 0⟩, w)
  getComputedBlocksForConnector w _ := ((⟨[], 0, 0⟩, false), w)
  truncateComputedBlocks _ blocks _ := blocks
  allocateSlots w _ _ := (some [], w)
  getBlocks _ _ := []
  getNumBlocksToAllocate _ _ _ := 0
  cacheBlocks w _ _ := w
  removeSkippedBlocks w _ _ := w
  evictBlocks w _ := w
  free w _ := w
  popBlocksForFree w _ := ([], w)
  freeBlocks w _ := w
  takeKvCacheBlockCopies w := ([], [], w)
  resetPrefixCache w := (true, w)
  hasPendingBlockFrees w := (false, w)
  getNumNewMatchedTokens w _ _ := ((some 0, false), w)
  updateStateAfterAlloc w _ _ _ := w
  requestFinished w _ _ := (false, w)
  updateConnectorOutput w _ := w
  onNewRequest w _ := w
  ensureCacheAvailable w _ _ := (true, w)
  hasCacheItem w _ := (false, w)
  ecUpdateStateAfterAlloc w _ _ := w
  ecUpdateStateAfterFree w _ _ := w
  ecRequestFinished w _ := (false, w)
  takeUnavailableRequests w := ([], w)
  getCachedNumEncoderEmbeds _ _ _ := none
  checkAndUpdateCache w _ _ := (false, w)
  canAllocate w _ _ _ _ := (true, w)
  allocateEncoder w _ _ := w
  freeEncoderInput w _ _ := w
  getCachedInputIds _ _ := []
  freeEncoder w _ := w
  grammar _ _ := .ready
  acceptTokens w _ _ := (true, w)
  validateTokens _ _ tokens := tokens

inductive PauseState
  | unpaused
  | pausedNew
  | pausedAll
  deriving DecidableEq

/-- The scheduler. Requests are objects: `request` holds them by id, `requests` is
the dict of those still registered, in insertion order. -/
structure Scheduler (ω : Type) where
  request : String → Request
  requests : List String
  waiting : RequestQueue String
  kvHoldingWaiting : RequestQueue String
  deferredWaiting : List String
  running : List String
  finishedReqIds : List String
  resetPreemptedReqIds : List String
  numWaitingForStreamingInput : Int
  finishedRecvingKvReqIds : List String
  failedRecvingKvReqIds : List String
  grammarCompileErrorReqs : List String
  encoderCacheMismatchReqs : List String
  currentStep : Nat
  prefillCapacityBound : Bool
  schedStepSeq : Nat
  processedStepSeq : Nat
  deferredFrees : List (Nat × List BlockId)
  pauseState : PauseState
  inflightPrefills : List String
  specTokenPlaceholders : List Int
  world : ω

/-- `set.discard`. -/
def discard (ids : List String) (id : String) : List String := ids.filter (· ≠ id)

/-- `set.add`. -/
def setAdd (ids : List String) (id : String) : List String :=
  if id ∈ ids then ids else ids ++ [id]

namespace Scheduler

variable {ω : Type} (cfg : SchedulerConfig) (parts : Components ω) (s : Scheduler ω)

def init (world : ω) : Scheduler ω where
  request id := { requestId := id }
  requests := []
  waiting := ⟨cfg.policy, []⟩
  kvHoldingWaiting := ⟨cfg.policy, []⟩
  deferredWaiting := []
  running := []
  finishedReqIds := []
  resetPreemptedReqIds := []
  numWaitingForStreamingInput := 0
  finishedRecvingKvReqIds := []
  failedRecvingKvReqIds := []
  grammarCompileErrorReqs := []
  encoderCacheMismatchReqs := []
  currentStep := 0
  prefillCapacityBound := false
  schedStepSeq := 0
  processedStepSeq := 0
  deferredFrees := []
  pauseState := .unpaused
  inflightPrefills := []
  specTokenPlaceholders := List.replicate cfg.numSpecTokens (-1)
  world := world

variable (id : String)

def setRequest (r : Request) : Scheduler ω :=
  { s with request := Function.update s.request id r }

/-- The order of the waiting queues, read from the request objects. -/
def orderKey (id : String) : Int ×ₗ ℚ ×ₗ String := (s.request id).orderKey

/-- `self.requests.get(id)`. -/
def getRequest : Option Request :=
  if id ∈ s.requests then some (s.request id) else none

def isBlockedWaitingStatus : RequestStatus → Bool
  | .waitingForStructuredOutputGrammar | .waitingForRemoteKvs | .waitingForStreamingReq => true
  | _ => false

def holdsKvBlocks (r : Request) : Bool :=
  0 < r.numComputedTokens ∨ r.status = .waitingForRemoteKvs

def enqueueWaitingRequest : Scheduler ω :=
  let s := if isBlockedWaitingStatus (s.request id).status then
      { s with deferredWaiting := setAdd s.deferredWaiting id } else s
  if holdsKvBlocks (s.request id) then
    { s with kvHoldingWaiting := s.kvHoldingWaiting.addRequest s.orderKey id }
  else { s with waiting := s.waiting.addRequest s.orderKey id }

def requestBlocksCanBeFreed (r : Request) : Bool :=
  !cfg.deferBlockFree || decide (r.lastSchedSeq ≤ s.processedStepSeq)

def freeRequestBlocks : Scheduler ω :=
  if s.requestBlocksCanBeFreed cfg (s.request id) then
    { s with world := parts.free s.world (s.request id) }
  else
    let (blocks, world) := parts.popBlocksForFree s.world (s.request id)
    if blocks.isEmpty then { s with world := world }
    else { s with world := world,
                  deferredFrees := s.deferredFrees ++ [(s.schedStepSeq, blocks)] }

def freeCowRetainedBlocks (blocks : List BlockId) (fenceSeq : Nat) : Scheduler ω :=
  if !cfg.deferBlockFree || decide (fenceSeq ≤ s.processedStepSeq) then
    { s with world := parts.freeBlocks s.world blocks }
  else { s with deferredFrees := s.deferredFrees ++ [(fenceSeq, blocks.reverse)] }

/-- The loop of `_drain_deferred_frees`: the entries left and the joint state. -/
def drainLoop (processedStepSeq : Nat) : List (Nat × List BlockId) → ω →
    List (Nat × List BlockId) × ω
  | [], world => ([], world)
  | (fence, blocks) :: rest, world =>
    if fence > processedStepSeq then ((fence, blocks) :: rest, world)
    else drainLoop processedStepSeq rest (parts.freeBlocks world blocks.reverse)

def drainDeferredFrees : Scheduler ω :=
  let (deferredFrees, world) := drainLoop parts s.processedStepSeq s.deferredFrees s.world
  { s with deferredFrees := deferredFrees, world := world }

/-- `_preempt_request`, for a request that was just taken out of `running`. -/
def preemptRequest (dropStaleOutput : Bool) : Except PyError (Scheduler ω) := do
  pyAssert ((s.request id).status = .running) "Only running requests can be preempted"
  let s := s.freeRequestBlocks cfg parts id
  let s := { s with world := parts.freeEncoder s.world (s.request id),
                    inflightPrefills := discard s.inflightPrefills id }
  let r := s.request id
  let s := s.setRequest id { r with
    status := .preempted
    numComputedTokens := 0
    specTokenIds := []
    dropStaleOutput :=
      dropStaleOutput || (r.dropStaleOutput && decide (0 < r.numStaleOutputTokens))
    numStaleOutputTokens := r.numInFlightTokens
    numOutputPlaceholders := 0
    numPreemptions := r.numPreemptions + 1 }
  .ok { s with
    waiting := s.waiting.prependRequest s.orderKey id
    resetPreemptedReqIds := setAdd s.resetPreemptedReqIds id }

/-- `_update_request_as_session`. -/
def updateRequestAsSession (update : StreamingUpdate) :
    Except PyError (Scheduler ω) := do
  let session ← (s.request id).updateAsSession update
  let s := if (s.request id).status = .waitingForStreamingReq then
      { s with numWaitingForStreamingInput := s.numWaitingForStreamingInput - 1 } else s
  .ok (s.setRequest id session)

def getRequestCounts : Nat × Nat :=
  (s.running.length, s.waiting.items.length + s.kvHoldingWaiting.items.length)

end Scheduler

end VllmAmpere.Sched
