import VllmAmpere.SchedulerRunning

/-! The second half of a scheduling step: the waiting requests, block holders first. -/

namespace VllmAmpere.Sched

/-- Where a waiting request would start. -/
structure Admission where
  newComputedBlocks : KVCacheBlocks := []
  numNewLocalComputedTokens : Nat := 0
  numExternalComputedTokens : Nat := 0
  numComputedTokens : Int
  loadKvAsync : Bool := false
  didPrefixCacheLookup : Bool := false

/-- The chunk of a waiting request. -/
structure Chunk where
  plan : EncoderPlan
  numComputedTokens : Int
  numReplayTokens : Int := 0
  padSpecDecode : Bool := false

namespace Scheduler

variable {ω : Type} (cfg : SchedulerConfig) (parts : Components ω) (s : Scheduler ω) (id : String)

/-- `_mark_prefix_replay`. -/
def markPrefixReplay (numHitTokens : Int) : Int × Scheduler ω :=
  if cfg.prefixReplayTokens = 0 then (0, s)
  else
    let numReplayTokens := min (cfg.prefixReplayTokens : Int) numHitTokens
    (numReplayTokens,
      s.setRequest id { s.request id with replayStart := numHitTokens - numReplayTokens })

/-- The part of `_update_waiting_for_remote_kv` that keeps what was received: a failed
load keeps the valid prefix, and frees the blocks when there is none. -/
def cacheReceivedKv : Scheduler ω :=
  let r := s.request id
  if id ∈ s.failedRecvingKvReqIds then
    { s with
      world := if r.numComputedTokens ≠ 0 then parts.cacheBlocks s.world r r.numComputedTokens
        else parts.free s.world r
      failedRecvingKvReqIds := discard s.failedRecvingKvReqIds id }
  else { s with world := parts.cacheBlocks s.world r r.numComputedTokens }

/-- `_update_waiting_for_remote_kv`. -/
def updateWaitingForRemoteKv : Except PyError (Scheduler ω) := do
  pyAssert (cfg.hasConnector) "self.connector is not None"
  let r := s.request id
  let s := s.cacheReceivedKv parts id
  let (numReplayTokens, s) := s.markPrefixReplay cfg id r.numComputedTokens
  let r := s.request id
  let numComputedTokens : Int :=
    if numReplayTokens > 0 then r.numComputedTokens - numReplayTokens
    else if r.numComputedTokens = r.numTokens then r.numTokens - 1
    else r.numComputedTokens
  let s := s.setRequest id { r with numComputedTokens := numComputedTokens }
  .ok { s with finishedRecvingKvReqIds := discard s.finishedRecvingKvReqIds id }

/-- `_handle_blocked_waiting_request`: whether scheduling of the request proceeds. -/
def handleBlockedWaitingRequest : Except PyError (Bool × Scheduler ω) :=
  let r := s.request id
  match r.status with
  | .waitingForRemoteKvs =>
    if id ∉ s.finishedRecvingKvReqIds then .ok (false, s)
    else do
      let s ← s.updateWaitingForRemoteKv cfg parts id
      let r := s.request id
      .ok (true, s.setRequest id { r with
        status := if r.numPreemptions ≠ 0 then .preempted else .waiting })
  | .waitingForStructuredOutputGrammar =>
    match parts.grammar s.world r with
    | .compiling => .ok (false, s)
    | .failed =>
      .ok (false, { s with grammarCompileErrorReqs := setAdd s.grammarCompileErrorReqs id })
    | .ready => .ok (true, s.setRequest id { r with status := .waiting })
  | .waitingForStreamingReq => do
    pyAssert (r.streamingQueue.getD [] = []) "not request.streaming_queue"
    .ok (false, s)
  | _ => .ok (true, s)

/-- `_ec_transfer_pending`. -/
def ecTransferPending (numComputedTokens : Int) : Bool × Scheduler ω :=
  if cfg.hasEcConnector ∧ (s.request id).hasEncoderInputs then
    let (available, world) :=
      parts.ensureCacheAvailable s.world (s.request id) numComputedTokens
    (!available, { s with world := world })
  else (false, s)

variable (hit : PrefixHit)

def setSharedPrefixBoundary : Scheduler ω :=
  s.setRequest id { s.request id with sharedPrefixBoundary := hit.sharedPrefixBoundary }

/-- `_get_local_prefix_cache_hit`, with the boundary it finds recorded. -/
def localPrefixCacheHit : (PrefixHit × Bool) × Scheduler ω :=
  let r := s.request id
  let (found, world) : (PrefixHit × Bool) × ω :=
    if cfg.hasConnector ∧ cfg.supportsDivergentLocalHybridHits then
      parts.getComputedBlocksForConnector s.world r
    else
      let (hit, world) := parts.getComputedBlocks s.world r
      ((hit, false), world)
  (found, { s with world := world }.setSharedPrefixBoundary id found.1)

/-- A local hit with the external tokens behind it, and whether these are loaded
asynchronously. -/
structure JoinedHit where
  hit : PrefixHit
  numExternalComputedTokens : Nat := 0
  loadKvAsync : Bool := false

/-- A strictly longer external hit replaces the sub-block tail of the local one. -/
def joinExternal (extTokens : Nat) (loadKvAsync : Bool) : JoinedHit :=
  let partialTail := hit.numTokens % cfg.blockSize
  let blockAlignedLocal := hit.numTokens - partialTail
  if partialTail ≠ 0 ∧ extTokens > partialTail then
    { hit := { hit with blocks := parts.truncateComputedBlocks s.world hit.blocks blockAlignedLocal
                        numTokens := blockAlignedLocal }
      numExternalComputedTokens := extTokens
      loadKvAsync := loadKvAsync }
  else if partialTail ≠ 0 then { hit := hit }
  else { hit := hit, numExternalComputedTokens := extTokens, loadKvAsync := loadKvAsync }

/-- A diverged hit without external tokens falls back to what every group agrees on. -/
def reconcileHit (hitDiverged : Bool) (joined : JoinedHit) :
    JoinedHit × Scheduler ω :=
  if hitDiverged ∧ joined.numExternalComputedTokens = 0 then
    let (hit, world) := parts.getComputedBlocks s.world (s.request id)
    ({ joined with hit := hit }, { s with world := world }.setSharedPrefixBoundary id hit)
  else (joined, s)

/-- The external tokens behind a local hit: `none` while the connector is undecided. -/
def externalHit (hitDiverged : Bool) :
    Option JoinedHit × Scheduler ω :=
  let r := s.request id
  let blockAlignedLocal := hit.numTokens - hit.numTokens % cfg.blockSize
  let (matched, world) := parts.getNumNewMatchedTokens s.world r blockAlignedLocal
  let s := { s with world := world }
  match if r.skipReadingPrefixCache then (some 0, false) else matched with
  | (none, _) => (none, s)
  | (some extTokens, loadKvAsync) =>
    let extTokens :=
      if cfg.prefixReplayTokens ≠ 0 then extTokens - extTokens % cfg.blockSize else extTokens
    let loadKvAsync := loadKvAsync && (cfg.prefixReplayTokens = 0 || decide (0 < extTokens))
    let (joined, s) := s.reconcileHit parts id hitDiverged
      (s.joinExternal cfg parts hit extTokens loadKvAsync)
    (some joined, s)

/-- The prefix hit of a waiting request: `none` when it is skipped. -/
def prefixHit : Option JoinedHit × Scheduler ω :=
  let ((hit, hitDiverged), s) := s.localPrefixCacheHit cfg parts id
  if cfg.hasConnector then s.externalHit cfg parts id hit hitDiverged
  else (some { hit := hit }, s)

/-- A hit no longer than the replayed window is dropped. -/
def admissionOf (joined : JoinedHit) : Admission :=
  let numComputedTokens := joined.hit.numTokens + joined.numExternalComputedTokens
  if 0 < numComputedTokens ∧ numComputedTokens ≤ cfg.prefixReplayTokens then
    { numComputedTokens := 0, didPrefixCacheLookup := true }
  else
    { newComputedBlocks := joined.hit.blocks
      numNewLocalComputedTokens := joined.hit.numTokens
      numExternalComputedTokens := joined.numExternalComputedTokens
      numComputedTokens := numComputedTokens
      loadKvAsync := joined.loadKvAsync
      didPrefixCacheLookup := true }

/-- What is already computed for a waiting request: `none` when it is skipped. -/
def computedTokens : Except PyError (Option Admission × Scheduler ω) :=
  let r := s.request id
  if r.numComputedTokens = 0 then
    match s.prefixHit cfg parts id with
    | (none, s) => .ok (none, s)
    | (some joined, s) => do
      pyAssert (joined.hit.numTokens + joined.numExternalComputedTokens ≤ r.numTokens)
        "num_computed_tokens <= request.num_tokens"
      let a := admissionOf cfg joined
      match s.ecTransferPending cfg parts id a.numComputedTokens with
      | (true, s) => .ok (none, s)
      | (false, s) => do
        pyAssert (r.prefillStats ∧ r.numPreemptions = 0 → a.numComputedTokens ≤ r.numPromptTokens)
          "num_computed_tokens <= request.num_prompt_tokens"
        .ok (some a, s)
  else
    match s.ecTransferPending cfg parts id r.numComputedTokens with
    | (true, s) => .ok (none, s)
    | (false, s) => .ok (some { numComputedTokens := r.numComputedTokens }, s)

end Scheduler

namespace Step

variable {ω : Type} (cfg : SchedulerConfig) (parts : Components ω) (limits : StepLimits)
  (st : Step ω)

/-- The queue the next request comes from, block holders first. -/
def fromKvHolding : Bool := !st.sched.kvHoldingWaiting.items.isEmpty

def requestQueue : RequestQueue String :=
  if st.fromKvHolding then st.sched.kvHoldingWaiting else st.sched.waiting

variable (fromKv : Bool)

def popFrom : Except PyError (String × Step ω) := do
  let s := st.sched
  if fromKv then
    let (id, queue) ← s.kvHoldingWaiting.popRequest s.orderKey
    .ok (id, { st with sched := { s with kvHoldingWaiting := queue } })
  else
    let (id, queue) ← s.waiting.popRequest s.orderKey
    .ok (id, { st with sched := { s with waiting := queue } })

/-- `skip_request`. -/
def skipRequest : Except PyError (Step ω) := do
  let (id, st) ← st.popFrom fromKv
  let s := { st.sched with deferredWaiting := setAdd st.sched.deferredWaiting id }
  if Scheduler.holdsKvBlocks (s.request id) then
    .ok { st with sched := s, stepSkippedKvHolding := id :: st.stepSkippedKvHolding }
  else .ok { st with sched := s, stepSkippedWaiting := id :: st.stepSkippedWaiting }

/-- Whether the LoRA of a request has no slot left in this step. -/
def exceedsMaxLoras (r : Request) : Bool :=
  match cfg.maxLoras, r.loraIntId with
  | some maxLoras, some loraIntId =>
    st.scheduledLoras.length = maxLoras ∧ loraIntId ∉ st.scheduledLoras
  | _, _ => false

/-- The tokens of a decode are padded to the uniform size of speculative decoding:
`none` when the padding does not fit the budget. -/
def padDecode (numComputedTokens numNewTokens requestTokenBudget : Int) : Option (Int × Bool) :=
  let paddedNumTokens : Int := 1 + cfg.numSpecTokens
  if (0 < cfg.numSpecTokens ∧ cfg.dynamicSdLookup = none) ∧ 0 < cfg.numSampledTokensPerStep ∧
      numNewTokens = 1 ∧ ¬st.prefillScheduled ∧
      (st.scheduledRunningReqs ≠ [] ∨ numComputedTokens > 0) ∧
      numComputedTokens + paddedNumTokens + cfg.numSampledTokensPerStep ≤ cfg.maxModelLen then
    if paddedNumTokens > requestTokenBudget then none else some (paddedNumTokens, true)
  else some (numNewTokens, false)

/-- The Mamba alignment of a waiting chunk, which drops a padding it would clip:
`none` when nothing is left. -/
def alignChunk (r : Request) (a : Admission) (numNewTokens : Int) (padSpecDecode : Bool) :
    Option (Int × Bool) :=
  if cfg.needMambaBlockAlignedSplit then
    let n := cfg.mambaBlockAlignedSplit r numNewTokens a.numNewLocalComputedTokens
      a.numExternalComputedTokens
    if n = 0 then none
    else if padSpecDecode ∧ n ≠ 1 + cfg.numSpecTokens then some (1, false)
    else some (n, padSpecDecode)
  else some (numNewTokens, padSpecDecode)

variable (id : String)

/-- The chunk of a waiting request: `none` when the scan stops at it. -/
def waitingChunk (a : Admission) : Except PyError (Option Chunk × Scheduler ω) :=
  let s := st.sched
  if a.loadKvAsync then do
    pyAssert (a.numExternalComputedTokens > 0) "num_external_computed_tokens > 0"
    .ok (some { plan := { numNewTokens := 0, encoderComputeBudget := st.encoderComputeBudget }
                numComputedTokens := a.numComputedTokens }, s)
  else if limits.deferPrefills ∧ a.numComputedTokens < (s.request id).numTokens - 1 then
    .ok (none, s)
  else
    let requestTokenBudget := min st.tokenBudget (st.inputBudget - cfg.draftSlots)
    let (numReplayTokens, s) :=
      if a.didPrefixCacheLookup then s.markPrefixReplay cfg id a.numComputedTokens else (0, s)
    let numComputedTokens := a.numComputedTokens - numReplayTokens
    let r := s.request id
    match st.padDecode cfg numComputedTokens (r.numTokens - numComputedTokens)
        requestTokenBudget with
    | none => .ok (none, s)
    | some (numNewTokens, padSpecDecode) =>
      let numNewTokens := limits.cap numNewTokens
      if ¬cfg.enableChunkedPrefill ∧ numNewTokens > requestTokenBudget then .ok (none, s)
      else do
        let numNewTokens := min numNewTokens requestTokenBudget
        pyAssert (numNewTokens > 0) "num_new_tokens > 0"
        match alignChunk cfg r a numNewTokens padSpecDecode with
        | none => .ok (none, s)
        | some (numNewTokens, padSpecDecode) => do
          let (plan, s) ← s.encoderPlan cfg parts id numComputedTokens numNewTokens
            st.encoderComputeBudget
          let plan := { plan with numNewTokens :=
            cfg.reservePrefillLookahead r numComputedTokens plan.numNewTokens }
          if plan.numNewTokens = 0 then .ok (none, s)
          else .ok (some { plan := plan, numComputedTokens := numComputedTokens,
                           numReplayTokens := numReplayTokens,
                           padSpecDecode := padSpecDecode }, s)

/-- `_spec_decode_step_blocks`. -/
def specDecodeStepBlocks : Nat :=
  if cfg.numSpecTokens = 0 then 0
  else cdiv (1 + cfg.numSpecTokens + cfg.numLookaheadTokens) cfg.blockSize

/-- `_inflight_prefill_reserved_blocks`. -/
def inflightPrefillReservedBlocks (s : Scheduler ω) : Nat :=
  (s.inflightPrefills.map fun id =>
    parts.getNumBlocksToAllocate s.world (s.request id)
      (min (s.request id).numTokens cfg.maxModelLen) + specDecodeStepBlocks cfg).sum

/-- The arguments `allocate_slots` gets for a waiting request. -/
def waitingSlotArgs (s : Scheduler ω) (id : String) (a : Admission) (chunk : Chunk) : SlotArgs where
  numNewTokens := max (chunk.plan.numNewTokens - chunk.numReplayTokens) 0
  numNewComputedTokens := a.numNewLocalComputedTokens
  newComputedBlocks := a.newComputedBlocks
  numLookaheadTokens :=
    if a.loadKvAsync ∧ 0 < cfg.numLookaheadTokens then 0 else cfg.numLookaheadTokens
  numExternalComputedTokens := a.numExternalComputedTokens
  delayCacheBlocks := a.loadKvAsync
  numEncoderTokens :=
    if cfg.isEncoderDecoder ∧ (s.request id).hasEncoderInputs then
      (chunk.plan.encoderInputsToSchedule.map fun i =>
        ((s.request id).mmFeatures[i]?.elim 0 MultiModalFeature.getNumEmbeds)).sum
    else 0
  fullSequenceMustFit := cfg.schedulerReserveFullIsl
  reservedBlocks :=
    if a.loadKvAsync then inflightPrefillReservedBlocks cfg parts s + specDecodeStepBlocks cfg
    else 0
  hasScheduledReqs := !s.running.isEmpty

/-- A request whose KV is loaded asynchronously waits for it, holding its blocks. -/
def startAsyncLoad (id : String) (a : Admission) : Except PyError (Step ω) :=
  let s := st.sched
  let s := s.setRequest id { s.request id with
    status := .waitingForRemoteKvs
    numComputedTokens := a.numComputedTokens }
  let s := { s with inflightPrefills := setAdd s.inflightPrefills id }
  { st with sched := s }.skipRequest fromKv

def noteAdmitted : Except PyError (Step ω) :=
  match (st.sched.request id).status with
  | .waiting => .ok { st with scheduledNewReqs := st.scheduledNewReqs ++ [id] }
  | .preempted => .ok { st with scheduledResumedReqs := st.scheduledResumedReqs ++ [id] }
  | _ => .error (.runtime "Invalid request status")

variable (chunk : Chunk)

/-- Charge the budgets for an admitted request, which runs from here on. -/
def chargeAdmitted : Step ω :=
  let r := st.sched.request id
  let n := chunk.plan.numNewTokens
  { st with
    scheduledLoras := match cfg.maxLoras, r.loraIntId with
      | some _, some loraIntId => st.scheduledLoras.insert loraIntId
      | _, _ => st.scheduledLoras
    reqToNewBlocks := dictSet id (parts.getBlocks st.sched.world id) st.reqToNewBlocks
    numScheduledTokens := dictSet id n st.numScheduledTokens
    tokenBudget := st.tokenBudget - n
    inputBudget := st.inputBudget - (n + cfg.draftSlots)
    sched := st.sched.setRequest id { r with
      status := .running, numComputedTokens := chunk.numComputedTokens } }

def padAdmitted : Except PyError (Step ω) :=
  if chunk.padSpecDecode then do
    pyAssert (chunk.plan.numNewTokens = 1 + cfg.numSpecTokens)
      "num_new_tokens == 1 + self.num_spec_tokens"
    .ok { st with
      scheduledSpecDecodeTokens :=
        dictSet id (List.replicate cfg.numSpecTokens (-1)) st.scheduledSpecDecodeTokens }
  else .ok st

/-- An admitted request whose prefill goes on after this step. -/
def trackPrefill : Step ω :=
  if chunk.numComputedTokens + chunk.plan.numNewTokens < (st.sched.request id).numTokens then
    { st with sched := { st.sched with
      inflightPrefills := setAdd st.sched.inflightPrefills id } }
  else st

def encodeAdmitted : Step ω :=
  let st :=
    if chunk.plan.encoderInputsToSchedule.isEmpty then st
    else { st with
      scheduledEncoderInputs :=
        dictSet id chunk.plan.encoderInputsToSchedule st.scheduledEncoderInputs
      sched := st.sched.allocateEncoderInputs cfg parts id chunk.plan.encoderInputsToSchedule
      encoderComputeBudget := chunk.plan.encoderComputeBudget }
  { st with
    sched := st.sched.allocateEncoderInputs cfg parts id chunk.plan.externalLoadEncoderInput }

/-- Take the request out of its queue and run it in this step. -/
def admitRequest (a : Admission) (chunk : Chunk) : Except PyError (Step ω) := do
  let (id, st) ← st.popFrom fromKv
  let st := { st with
    sched := { st.sched with
      deferredWaiting := discard st.sched.deferredWaiting id
      running := st.sched.running ++ [id] }
    hasSyncKvLoads := st.hasSyncKvLoads || decide (a.numExternalComputedTokens > 0) }
  let st ← st.noteAdmitted id
  let st ← (st.chargeAdmitted cfg parts id chunk).padAdmitted cfg id chunk
  .ok ((st.trackPrefill id chunk).encodeAdmitted cfg parts id chunk)

/-- The part of a round after the request's chunk is known. -/
def allocateWaiting (id : String) (a : Admission) (chunk : Chunk) :
    Except PyError (Round (Step ω)) := do
  let s := st.sched
  let (newBlocks, world) := parts.allocateSlots s.world (s.request id)
    (waitingSlotArgs cfg parts s id a chunk)
  match newBlocks with
  | none =>
    let world :=
      if (s.request id).hasEncoderInputs then parts.freeEncoder world (s.request id) else world
    .ok (.leave { st with sched := { s with world := world } })
  | some _ =>
    let world :=
      if cfg.hasConnector then
        parts.updateStateAfterAlloc world (s.request id) (parts.getBlocks world id)
          a.numExternalComputedTokens
      else world
    let st := { st with sched := { s with world := world } }
    if a.loadKvAsync then
      let st ← st.startAsyncLoad fromKv id a
      .ok (.next st)
    else
      let st ← st.admitRequest cfg parts fromKv a chunk
      .ok (.next st)

def waitingRound : Except PyError (Round (Step ω)) :=
  if ¬0 < st.tokenBudget ∨ st.requestQueue.items = [] ∨ st.inputBudget ≤ cfg.draftSlots ∨
      st.sched.running.length + st.sched.numWaitingForStreamingInput ≥ cfg.maxNumActiveReqs then
    .ok (.leave st)
  else do
    let fromKv := st.fromKvHolding
    let id ← st.requestQueue.peekRequest
    let (ready, s) ← st.sched.handleBlockedWaitingRequest cfg parts id
    let st := { st with sched := s }
    let r := s.request id
    if ¬ready ∨ (r.numStaleOutputTokens ≠ 0 ∧ ¬r.dropStaleOutput) ∨ st.exceedsMaxLoras cfg r then
      let st ← st.skipRequest fromKv
      .ok (.next st)
    else do
      let (admission, s) ← s.computedTokens cfg parts id
      let st := { st with sched := s }
      match admission with
      | none =>
        let st ← st.skipRequest fromKv
        .ok (.next st)
      | some a => do
        let (chunk, s) ← st.waitingChunk cfg parts limits id a
        let st := { st with sched := s }
        match chunk with
        | none => .ok (.leave st)
        | some chunk => st.allocateWaiting cfg parts fromKv id a chunk

/-- Put the skipped requests back, ahead of the ones not reached. -/
def requeueSkipped : Step ω :=
  let s := st.sched
  { st with sched := { s with
    kvHoldingWaiting := s.kvHoldingWaiting.prependRequests s.orderKey st.stepSkippedKvHolding
    waiting := s.waiting.prependRequests s.orderKey st.stepSkippedWaiting } }

/-- The loop over the waiting requests: `none` when it does not end. -/
def waitingLoop : Except PyError (Option (Step ω)) :=
  iterate (waitingRound cfg parts limits)
    (st.sched.waiting.items.length + st.sched.kvHoldingWaiting.items.length + 1) st

def scheduleWaitingReqs : Except PyError (Step ω) := do
  let ended ← st.waitingLoop cfg parts limits
  match ended with
  | none => .error (.runtime "the loop over the waiting requests did not end")
  | some st =>
    let st := st.requeueSkipped
    if limits.deferPrefills then .ok st
    else .ok { st with sched := { st.sched with
      prefillCapacityBound :=
        decide (st.sched.getRequestCounts.2 > st.sched.deferredWaiting.length) } }

end Step

end VllmAmpere.Sched
