import VllmAmpere.SchedulerWaiting

/-! A scheduling step: both halves, the checks on their result and the counters the
step advances. -/

namespace VllmAmpere.Sched

/-- What a step hands to the model runner. -/
structure SchedulerOutput where
  scheduledNewReqs : List String
  scheduledResumedReqs : List String
  scheduledRunningReqs : List String
  reqToNewBlocks : List (String × KVCacheBlocks)
  numScheduledTokens : List (String × Int)
  totalNumScheduledTokens : Int
  scheduledSpecDecodeTokens : List (String × List Int)
  scheduledEncoderInputs : List (String × List Nat)
  preemptedReqIds : List String
  finishedReqIds : List String
  kvCacheBlockCopies : List (BlockId × BlockId)
  hasSyncKvLoads : Bool
  numSpecTokensToSchedule : Nat

namespace Scheduler

variable {ω : Type} (cfg : SchedulerConfig) (parts : Components ω) (s : Scheduler ω)

/-- What `_update_after_schedule` does to a scheduled request. -/
def advanceRequest (r : Request) (numScheduledToken : Int) : Request :=
  let numComputedTokens := r.numComputedTokens + numScheduledToken
  { r with
    numComputedTokens := numComputedTokens
    numInFlightTokens := r.numInFlightTokens + numScheduledToken
    lastSchedSeq := if cfg.deferBlockFree then s.schedStepSeq else r.lastSchedSeq
    isPrefillChunk := decide (numComputedTokens < r.numTokens + r.numOutputPlaceholders) }

def advanceRequests : List (String × Int) → Scheduler ω → Except PyError (Scheduler ω)
  | [], s => .ok s
  | (id, n) :: rest, s => do
    pyAssert (id ∈ s.requests) "self.requests[req_id]"
    let r := s.advanceRequest cfg (s.request id) n
    let s := s.setRequest id r
    let s := if r.isPrefillChunk then s
      else { s with inflightPrefills := discard s.inflightPrefills id }
    advanceRequests rest s

/-- What the `AsyncScheduler` adds: placeholders for the output to come. -/
def placeOutput (r : Request) (curNumSpecTokens : Nat) : Request :=
  { r with
    numOutputPlaceholders :=
      r.numOutputPlaceholders + (cfg.numSampledTokensPerStep + curNumSpecTokens)
    specTokenIds := s.specTokenPlaceholders
    nextDecodeEligibleStep :=
      if cfg.useV2ModelRunner then s.currentStep + cfg.decodeStagger
      else r.nextDecodeEligibleStep }

def placeOutputs (spec : List (String × List Int)) : List (String × Int) → Scheduler ω → Scheduler ω
  | [], s => s
  | (id, _) :: rest, s =>
    let r := s.request id
    let s := if r.isPrefillChunk then s
      else s.setRequest id (s.placeOutput cfg r ((spec.lookup id).getD []).length)
    placeOutputs spec rest s

def updateAfterSchedule (out : SchedulerOutput) : Except PyError (Scheduler ω) := do
  let s ← advanceRequests cfg out.numScheduledTokens s
  let s := { s with finishedReqIds := [], resetPreemptedReqIds := [] }
  if cfg.isAsync then
    let s := { s with specTokenPlaceholders := List.replicate out.numSpecTokensToSchedule (-1) }
    .ok (placeOutputs cfg out.scheduledSpecDecodeTokens out.numScheduledTokens s)
  else .ok s

/-- `long_prefill_token_threshold`, when there is another request to starve. -/
def longPrefillThreshold : Int :=
  let numEligibleReqs := s.getRequestCounts.1 + s.getRequestCounts.2
  let threshold : Int := if numEligibleReqs > 1 then cfg.longPrefillTokenThreshold else 0
  if threshold > 0 ∧ cfg.adaptiveLongPrefillThreshold then
    max threshold (cfg.maxNumBatchedTokens / numEligibleReqs : Nat)
  else threshold

variable (throttlePrefills : Bool)

def stepLimits : StepLimits where
  deferPrefills := (throttlePrefills && !s.prefillCapacityBound) &&
    s.running.any fun id => !(s.request id).isPrefillChunk
  longPrefillTokenThreshold := s.longPrefillThreshold cfg

def startStep : Step ω where
  sched := { s with currentStep := s.currentStep + 1, world := parts.newStepStarts s.world }
  tokenBudget := if s.pauseState = .pausedAll then 0 else cfg.maxNumScheduledTokens
  inputBudget := cfg.maxNumBatchedTokens
  encoderComputeBudget := cfg.maxNumEncoderInputTokens

def checkStep (st : Step ω) : Except PyError Unit := do
  pyAssert ((st.numScheduledTokens.map Prod.snd).sum ≤ cfg.maxNumScheduledTokens)
    "total_num_scheduled_tokens <= self.max_num_scheduled_tokens"
  pyAssert (0 ≤ st.tokenBudget) "token_budget >= 0"
  pyAssert (0 ≤ st.inputBudget) "input_budget >= 0"
  pyAssert (st.sched.running.length ≤ cfg.maxNumRunningReqs)
    "len(self.running) <= self.max_num_running_reqs"
  pyAssert (st.scheduledNewReqs.length + st.scheduledResumedReqs.length +
    st.scheduledRunningReqs.length ≤ st.sched.running.length)
    "the scheduled requests are not more than len(self.running)"

/-- The copies of a step. Their blocks are free once the step is processed, which is the
next one. -/
def takeCopies : List (BlockId × BlockId) × Scheduler ω :=
  let (copies, retained, world) := parts.takeKvCacheBlockCopies s.world
  let s := { s with world := world }
  (copies, if copies.isEmpty then s
    else s.freeCowRetainedBlocks cfg parts retained (s.schedStepSeq + 1))

def numSpecTokensToSchedule (numScheduledTokens : List (String × Int)) : Except PyError Nat :=
  match cfg.dynamicSdLookup with
  | some table =>
    if numScheduledTokens = [] then .ok cfg.numSpecTokens
    else pyGet table numScheduledTokens.length
  | none => .ok cfg.numSpecTokens

def stepOutput (st : Step ω) : Except PyError (SchedulerOutput × Scheduler ω) := do
  let (copies, s) := st.sched.takeCopies cfg parts
  let numSpecTokensToSchedule ← numSpecTokensToSchedule cfg st.numScheduledTokens
  .ok ({ scheduledNewReqs := if cfg.useV2ModelRunner then
          st.scheduledNewReqs ++ st.scheduledResumedReqs else st.scheduledNewReqs
         scheduledResumedReqs := if cfg.useV2ModelRunner then [] else st.scheduledResumedReqs
         scheduledRunningReqs := st.scheduledRunningReqs
         reqToNewBlocks := st.reqToNewBlocks
         numScheduledTokens := st.numScheduledTokens
         totalNumScheduledTokens := (st.numScheduledTokens.map Prod.snd).sum
         scheduledSpecDecodeTokens := st.scheduledSpecDecodeTokens
         scheduledEncoderInputs := st.scheduledEncoderInputs
         preemptedReqIds := s.resetPreemptedReqIds
         finishedReqIds := s.finishedReqIds
         kvCacheBlockCopies := copies
         hasSyncKvLoads := st.hasSyncKvLoads
         numSpecTokensToSchedule := numSpecTokensToSchedule }, s)

def scheduleReqs : Except PyError (Step ω) := do
  let limits := s.stepLimits cfg throttlePrefills
  let st ← (s.startStep cfg parts).scheduleRunningReqs cfg parts limits
  if st.preemptedReqs = [] ∧ s.pauseState = .unpaused then
    st.scheduleWaitingReqs cfg parts limits
  else .ok st

/-- `schedule`. -/
def schedule : Except PyError (SchedulerOutput × Scheduler ω) := do
  let st ← s.scheduleReqs cfg parts throttlePrefills
  checkStep cfg st
  let (out, s) ← stepOutput cfg parts st
  let s := if cfg.deferBlockFree ∧ out.totalNumScheduledTokens > 0 then
    { s with schedStepSeq := s.schedStepSeq + 1 } else s
  let s ← s.updateAfterSchedule cfg out
  .ok (out, s)

end Scheduler

/-! What the scheduler does outside of a step: it takes the output of a step, finishes
requests and adds them. -/

/-- What the model runner returns for a step. -/
structure ModelRunnerOutput where
  /-- `sampled_token_ids`, by request. -/
  sampledTokenIds : List (String × List Int) := []
  /-- The requests with a pooler output. -/
  poolerOutput : List String := []
  kvConnectorOutput : Option KVConnectorOutput := none

/-- What is sent to the client of a request. -/
structure EngineCoreOutput where
  requestId : String
  newTokenIds : List Int
  finished : Bool
  deriving DecidableEq

/-- What the loop over the scheduled requests gathers. -/
structure OutputScan (ω : Type) where
  sched : Scheduler ω
  stoppedRunningReqs : List String := []
  stoppedPreemptedReqs : List String := []
  outputs : List EngineCoreOutput := []

/-- `remove_all`. -/
def removeAll (ids itemsToRemove : List String) : List String :=
  match itemsToRemove with
  | [id] => ids.erase id
  | _ => ids.filter (· ∉ itemsToRemove)

namespace Scheduler

variable {ω : Type} (cfg : SchedulerConfig) (parts : Components ω) (s : Scheduler ω)

def removeRunning (ids : List String) : Scheduler ω :=
  if ids = [] then s else { s with running := removeAll s.running ids }

def removeWaiting (ids : List String) : Scheduler ω :=
  if ids = [] then s else { s with
    waiting := s.waiting.removeRequests s.orderKey ids
    kvHoldingWaiting := s.kvHoldingWaiting.removeRequests s.orderKey ids
    deferredWaiting := s.deferredWaiting.filter (· ∉ ids) }

variable (id : String)

/-- `_free_encoder_inputs`. -/
def freeEncoderInputs : Scheduler ω :=
  let r := s.request id
  let free := fun world i =>
    let world := parts.freeEncoderInput world r i
    if cfg.hasEcConnector then parts.ecUpdateStateAfterFree world r i else world
  let stop := fun (i : Nat) => r.mmFeatures[i]?.elim 0 fun f => f.toMultiModalFeatureSpec.stop
  let done := fun i => decide ((cfg.isEncoderDecoder ∧ r.numComputedTokens > 0) ∨
    (stop i + cfg.numPrefillLookahead : Int) ≤ r.numComputedTokens - r.numOutputPlaceholders)
  { s with world := ((parts.getCachedInputIds s.world r).filter done).foldl free s.world }

variable (r : Request)

/-- A stopped session without its unverified tokens; what is in flight for it is stale. -/
def stoppedSession : Request :=
  { r with
    numComputedTokens := r.numComputedTokens - r.numOutputPlaceholders
    specTokenIds := []
    dropStaleOutput := true
    numStaleOutputTokens := r.numInFlightTokens
    numOutputPlaceholders := 0 }

/-- `_handle_stopped_request`: whether the request is finished. -/
def handleStoppedRequest : Except PyError (Bool × Scheduler ω) := do
  let r := s.request id
  if ¬r.resumable then .ok (true, s)
  else do
    pyAssert (0 ≤ r.numComputedTokens - r.numOutputPlaceholders) "safe_frontier >= 0"
    match r.streamingQueue.getD [] with
    | none :: rest =>
      .ok (true, s.setRequest id { stoppedSession r with streamingQueue := some rest })
    | some update :: rest => do
      let s ← (s.setRequest id { stoppedSession r with
        streamingQueue := some rest }).updateRequestAsSession id update
      .ok (false, s.enqueueWaitingRequest id)
    | [] =>
      let s := { s with numWaitingForStreamingInput := s.numWaitingForStreamingInput + 1 }
      let s := s.setRequest id { stoppedSession r with status := .waitingForStreamingReq }
      .ok (false, s.enqueueWaitingRequest id)

/-- `_connector_finished`: whether the connector delays the free. -/
def connectorFinished : Bool × Scheduler ω :=
  if cfg.hasConnector then
    let r := s.request id
    let world := parts.removeSkippedBlocks s.world r
      (max 0 (r.numComputedTokens - r.numInFlightTokens))
    let (delay, world) := parts.requestFinished world r (parts.getBlocks world id)
    (delay, { s with world := world })
  else (false, s)

/-- `_free_blocks`. -/
def freeBlocks : Except PyError (Scheduler ω) := do
  pyAssert ((s.request id).isFinished) "request.is_finished()"
  let s := s.freeRequestBlocks cfg parts id
  pyAssert (id ∈ s.requests) "del self.requests[request.request_id]"
  .ok { s with requests := s.requests.erase id }

/-- The part of `_free_request` before the blocks: whether a connector delays their free. -/
def releaseRequest : Bool × Scheduler ω :=
  let s := { s with inflightPrefills := discard s.inflightPrefills id }
  let (connectorDelay, s) := s.connectorFinished cfg parts id
  let (ecDelay, world) :=
    if cfg.hasEcConnector then parts.ecRequestFinished s.world (s.request id)
    else (false, s.world)
  (connectorDelay || ecDelay, { s with
    world := parts.freeEncoder world (s.request id)
    finishedReqIds := setAdd s.finishedReqIds id })

/-- `_free_request`. -/
def freeRequest (delayFreeBlocks : Bool) : Except PyError (Scheduler ω) := do
  pyAssert ((s.request id).isFinished) "request.is_finished()"
  let (delay, s) := s.releaseRequest cfg parts id
  if delayFreeBlocks || delay then .ok s else s.freeBlocks cfg parts id

/-- A request once `numKept` tokens have arrived: an `AsyncScheduler` settles the
placeholders it put for them. -/
def settlePlaceholders (isStale : Bool) (numKept : Nat) : Request :=
  if ¬cfg.isAsync ∨ isStale then r
  else { r with numOutputPlaceholders := r.numOutputPlaceholders - numKept }

/-- `_update_request_with_output`, of both scheduler classes: the tokens kept and
whether the request stopped. -/
def updateRequestWithOutput (newTokenIds : List Int) (isStale : Bool) :
    Except PyError (List Int × Bool × Scheduler ω) := do
  let statusBeforeUpdate := (s.request id).status
  let (r, kept, stopped) ← appendOutput cfg.maxModelLen (s.request id) newTokenIds
  let r := settlePlaceholders cfg r isStale kept.length
  pyAssert (¬cfg.isAsync ∨ isStale ∨ 0 ≤ r.numOutputPlaceholders)
    "request.num_output_placeholders >= 0"
  let s := s.setRequest id r
  let cached := parts.cacheBlocks s.world r (r.numComputedTokens - r.numOutputPlaceholders)
  .ok (kept, stopped,
    if cfg.isAsync ∧ statusBeforeUpdate = .running then { s with world := cached } else s)

/-- The counters that a returned step drains from a request, and whether its output
is stale. -/
def drainInFlight (numTokensScheduled : Int) : Except PyError (Bool × Request) := do
  let r := { r with numInFlightTokens := r.numInFlightTokens - numTokensScheduled }
  if r.numStaleOutputTokens > 0 then
    let r := { r with numStaleOutputTokens := r.numStaleOutputTokens - numTokensScheduled }
    pyAssert (0 ≤ r.numStaleOutputTokens) "request.num_stale_output_tokens >= 0"
    .ok (true, r)
  else .ok (false, r)

def rejectDrafts (numDraftTokens numGenerated : Nat) : Request :=
  let numAccepted : Int := max ((numGenerated : Int) - cfg.numSampledTokensPerStep) 0
  let numRejected : Int := numDraftTokens - numAccepted
  { r with
    numComputedTokens :=
      if r.numComputedTokens > 0 then r.numComputedTokens - numRejected else r.numComputedTokens
    numOutputPlaceholders :=
      if r.numOutputPlaceholders > 0 then r.numOutputPlaceholders - numRejected
      else r.numOutputPlaceholders }

/-- The request that an output is delivered to: its rejected drafts are taken back. -/
def outputRequest (drafts generated : List Int) (isStale : Bool) : Request :=
  if drafts ≠ [] ∧ (generated ≠ [] ∨ cfg.numSampledTokensPerStep = 0) ∧ ¬isStale then
    rejectDrafts cfg r drafts.length generated.length
  else r

variable (generated : List Int)

/-- What the tokens of an output, or its lack of any, do to the request: the tokens it keeps
and whether it stopped. -/
def takeOutput (hasPoolerOutput isStale : Bool) :
    Except PyError (List Int × Bool × Scheduler ω) :=
  let r := s.request id
  if generated ≠ [] then s.updateRequestWithOutput cfg parts id generated isStale
  else if (r.pooling ∧ hasPoolerOutput) ∨
      (cfg.isMmEncoderOnly ∧ r.numComputedTokens ≥ r.numPromptTokens) then
    .ok ([], true, s.setRequest id { r with status := .finishedStopped })
  else .ok ([], false, s)

/-- The output of a request that is delivered. The grammar may reject the tokens kept. -/
def deliverOutput (hasPoolerOutput isStale : Bool) :
    Except PyError (List Int × Bool × Scheduler ω) := do
  let (kept, stopped, s) ← s.takeOutput cfg parts id generated hasPoolerOutput isStale
  if kept = [] then .ok (kept, stopped, s)
  else
    let (accepted, world) := parts.acceptTokens s.world (s.request id) kept
    let s := { s with world := world }
    if accepted then .ok (kept, stopped, s)
    else .ok (kept, true, s.setRequest id
      { s.request id with status := .finishedError, resumable := false })

/-- A stopped request is taken out of the queues after the loop. -/
def noteStopped (statusBeforeStop : RequestStatus) (scan : OutputScan ω) :
    OutputScan ω :=
  if statusBeforeStop = .running then
    { scan with stoppedRunningReqs := setAdd scan.stoppedRunningReqs id }
  else { scan with stoppedPreemptedReqs := setAdd scan.stoppedPreemptedReqs id }

/-- What becomes of a request that the step's output stopped. -/
def stopRequest (statusBeforeStop : RequestStatus) (scan : OutputScan ω) :
    Except PyError (OutputScan ω) := do
  let (finished, s) ← scan.sched.handleStoppedRequest id
  let s ← if finished then s.freeRequest cfg parts id false else .ok s
  .ok (noteStopped id statusBeforeStop { scan with sched := s })

def takePrefillStats (emits : Bool) : Scheduler ω :=
  if emits then s.setRequest id { s.request id with prefillStats := false } else s

def emitOutput (output : EngineCoreOutput) (emits : Bool) (scan : OutputScan ω) : OutputScan ω :=
  if emits then { scan with outputs := scan.outputs ++ [output] } else scan

/-- Deliver an output to its request, and stop the request where the output does. -/
def applyOutput (hasPoolerOutput isStale : Bool)
    (statusBeforeStop : RequestStatus) (scan : OutputScan ω) : Except PyError (OutputScan ω) := do
  let (kept, stopped, s) ←
    scan.sched.deliverOutput cfg parts id generated hasPoolerOutput isStale
  let emits := decide (kept ≠ []) || hasPoolerOutput || stopped
  let scan := { scan with sched := s.takePrefillStats id emits }
  let scan ← if stopped then stopRequest cfg parts id statusBeforeStop scan else .ok scan
  .ok (emitOutput { requestId := id, newTokenIds := kept, finished := stopped } emits scan)

/-- The loop body of `update_from_output`. -/
def updateRequest (out : SchedulerOutput) (output : ModelRunnerOutput)
    (failedKvLoadReqIds : List String) (scan : OutputScan ω) (id : String)
    (numTokensScheduled : Int) : Except PyError (OutputScan ω) := do
  pyAssert (numTokensScheduled > 0) "num_tokens_scheduled > 0"
  let s := scan.sched
  if id ∉ s.requests then .ok scan
  else do
    let (isStale, r) ← drainInFlight (s.request id) numTokensScheduled
    let s := s.setRequest id r
    if id ∈ failedKvLoadReqIds ∨ r.isFinished ∨ (isStale ∧ r.dropStaleOutput) then
      .ok { scan with sched := s }
    else
      let generated := (output.sampledTokenIds.lookup id).getD []
      let drafts := (out.scheduledSpecDecodeTokens.lookup id).getD []
      let s := s.setRequest id (outputRequest cfg r drafts generated isStale)
      let s := if r.hasEncoderInputs then s.freeEncoderInputs cfg parts id else s
      applyOutput cfg parts id generated (id ∈ output.poolerOutput) isStale r.status
        { scan with sched := s }

def updateRequests (out : SchedulerOutput) (output : ModelRunnerOutput)
    (failedKvLoadReqIds : List String) : List (String × Int) → OutputScan ω →
      Except PyError (OutputScan ω)
  | [], scan => .ok scan
  | (id, n) :: rest, scan => do
    let scan ← updateRequest cfg parts out output failedKvLoadReqIds scan id n
    updateRequests out output failedKvLoadReqIds rest scan

/-- A request that is finished is not waited for any more. -/
def dropRemote : Scheduler ω :=
  if (s.request id).status = .waitingForRemoteKvs then { s with
    finishedRecvingKvReqIds := discard s.finishedRecvingKvReqIds id
    failedRecvingKvReqIds := discard s.failedRecvingKvReqIds id }
  else s

/-- Set the status of a request that is finished from outside, and free it. -/
def finishRequest (finishedStatus : RequestStatus) :
    Except PyError (Scheduler ω) :=
  let r := s.request id
  let delayFreeBlocks := r.status = .waitingForRemoteKvs ∧ id ∉ s.finishedRecvingKvReqIds
  ((s.dropRemote id).setRequest id { r with status := finishedStatus }).freeRequest cfg parts id
    delayFreeBlocks

def finishEach (finishedStatus : RequestStatus) : List String → Scheduler ω →
    Except PyError (Scheduler ω)
  | [], s => .ok s
  | id :: rest, s => do
    let s ← s.finishRequest cfg parts id finishedStatus
    finishEach finishedStatus rest s

/-- `finish_requests`; no ids means every request. Returns the requests it finished. -/
def finishRequests (requestIds : Option (List String)) (finishedStatus : RequestStatus) :
    Except PyError (List String × Scheduler ω) := do
  pyAssert (finishedStatus.isFinished) "RequestStatus.is_finished(finished_status)"
  let ids := (requestIds.getD s.requests).dedup
  let valid := ids.filter fun id => id ∈ s.requests ∧ ¬(s.request id).isFinished
  let isRunning := fun id => decide ((s.request id).status = .running)
  let runningToRemove := valid.filter isRunning
  let waitingToRemove := valid.filter fun id => !isRunning id
  let streaming := valid.filter fun id => (s.request id).status = .waitingForStreamingReq
  let s := { s with
    numWaitingForStreamingInput := s.numWaitingForStreamingInput - streaming.length }
  let s := (s.removeRunning runningToRemove).removeWaiting waitingToRemove
  let s ← finishEach cfg parts finishedStatus valid s
  .ok (valid, s)

variable (request : Request)

def startSession : Request :=
  if request.resumable then { request with streamingQueue := some [] } else request

/-- The part of `add_request` for an id that is not taken. -/
def registerRequest : Scheduler ω :=
  let id := request.requestId
  let s := (s.setRequest id request).enqueueWaitingRequest id
  { s with
    requests := s.requests ++ [id]
    world := if cfg.hasConnector then parts.onNewRequest s.world request else s.world }

/-- `add_request`. -/
def addRequest : Except PyError (Scheduler ω) :=
  let id := request.requestId
  if id ∈ s.requests then
    let existing := s.request id
    let update := StreamingUpdate.fromRequest request
    if existing.status ≠ .waitingForStreamingReq then
      match existing.streamingQueue with
      | none => .error (.assertion "duplicate request id")
      | some queue =>
        .ok (s.setRequest id { existing with streamingQueue := some (queue ++ [update]) })
    else
      match update with
      | some update => s.updateRequestAsSession id update
      | none => do
        let (_, s) ← s.finishRequests cfg parts (some [id]) .finishedAborted
        .ok s
  else .ok (s.registerRequest cfg parts (startSession request))

end Scheduler

end VllmAmpere.Sched
