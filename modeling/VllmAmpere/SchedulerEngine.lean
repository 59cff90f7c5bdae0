import VllmAmpere.SchedulerUpdate
import VllmAmpere.TransitionSystem

/-! The scheduler as the engine drives it: failed and finished KV transfers, the
output of a whole step, and runs with any number of steps in flight. -/

namespace VllmAmpere.Sched

/-- What a scan for invalid blocks has found in one request. -/
structure BlockScan where
  isAffected : Bool := false
  markedInvalidBlock : Bool := false
  markedInvalidBlockIds : List BlockId
  numComputedTokens : Int

/-- The loop over the blocks `idx`, `idx + 1`, … of a request. -/
def scanBlocks (blockSize : Nat) (invalidBlockIds : List BlockId) :
    Nat → List BlockId → BlockScan → BlockScan
  | _, [], scan => scan
  | idx, blockId :: rest, scan =>
    let scan :=
      if blockId ∉ invalidBlockIds then scan
      else if blockId ∈ scan.markedInvalidBlockIds then { scan with isAffected := true }
      else if scan.markedInvalidBlock then
        { scan with
          isAffected := true
          markedInvalidBlockIds := blockId :: scan.markedInvalidBlockIds }
      else
        { isAffected := true
          markedInvalidBlock := true
          markedInvalidBlockIds := blockId :: scan.markedInvalidBlockIds
          numComputedTokens := idx * blockSize }
    scanBlocks blockSize invalidBlockIds (idx + 1) rest scan

/-- What `_update_requests_with_invalid_blocks` gathers over the requests. -/
structure InvalidScan where
  markedInvalidBlockIds : List BlockId := []
  affectedReqIds : List String := []
  totalAffectedTokens : Int := 0
  blocksToEvict : List BlockId := []

namespace Scheduler

variable {ω : Type} (cfg : SchedulerConfig) (parts : Components ω) (s : Scheduler ω)

/-- The body of `_update_requests_with_invalid_blocks` for one request. -/
def updateRequestWithInvalidBlocks (invalidBlockIds : List BlockId)
    (numScheduledTokens : List (String × Int)) (evictBlocks : Bool) (scan : InvalidScan)
    (id : String) : Except PyError (InvalidScan × Scheduler ω) :=
  match parts.getBlocks s.world id with
  | [reqBlockIds] =>
    let r := s.request id
    let reqNumComputedTokens := r.numComputedTokens - (numScheduledTokens.lookup id).getD 0
    let reqNumComputedBlocks := (reqNumComputedTokens + cfg.blockSize - 1) / cfg.blockSize
    let found := scanBlocks cfg.blockSize invalidBlockIds 0
      (reqBlockIds.take reqNumComputedBlocks.toNat)
      { markedInvalidBlockIds := scan.markedInvalidBlockIds,
        numComputedTokens := r.numComputedTokens }
    let numComputedTokens :=
      if found.isAffected ∧ ¬found.markedInvalidBlock then reqNumComputedTokens
      else found.numComputedTokens
    let affectedTokens :=
      if found.markedInvalidBlock then reqNumComputedTokens - found.numComputedTokens
      else if found.isAffected then r.numComputedTokens - reqNumComputedTokens
      else 0
    let evict :=
      if evictBlocks ∧ found.markedInvalidBlock then
        reqBlockIds.drop (found.numComputedTokens / cfg.blockSize).toNat
      else []
    .ok ({ markedInvalidBlockIds := found.markedInvalidBlockIds
           affectedReqIds :=
             if found.isAffected then setAdd scan.affectedReqIds id else scan.affectedReqIds
           totalAffectedTokens := scan.totalAffectedTokens + affectedTokens
           blocksToEvict := scan.blocksToEvict ++ evict },
      s.setRequest id { r with numComputedTokens := numComputedTokens })
  | _ => .error (.value "not enough values to unpack (expected 1)")

/-- `_update_requests_with_invalid_blocks`. -/
def updateRequestsWithInvalidBlocks (invalidBlockIds : List BlockId)
    (numScheduledTokens : List (String × Int)) (evictBlocks : Bool) :
    List String → InvalidScan → Scheduler ω → Except PyError (InvalidScan × Scheduler ω)
  | [], scan, s => .ok (scan, s)
  | id :: rest, scan, s => do
    let (scan, s) ← s.updateRequestWithInvalidBlocks cfg parts invalidBlockIds numScheduledTokens
      evictBlocks scan id
    updateRequestsWithInvalidBlocks invalidBlockIds numScheduledTokens evictBlocks rest scan s

/-- `_handle_failed_recving`: the requests to skip, and the state. -/
def handleFailedRecving (failedReqIds : List String) : List String × Scheduler ω :=
  let affected := failedReqIds.filter fun id =>
    id ∈ s.requests ∧ (s.request id).status = .waitingForRemoteKvs
  if cfg.recomputeKvLoadFailures then
    ([], affected.foldl (fun s id =>
      { s.setRequest id { s.request id with numComputedTokens := 0 } with
        failedRecvingKvReqIds := setAdd s.failedRecvingKvReqIds id }) s)
  else (affected, s)

/-- `_handle_invalid_blocks`: the requests to skip, and the state. -/
def handleInvalidBlocks (invalidBlockIds : List BlockId)
    (numScheduledTokens : List (String × Int)) : Except PyError (List String × Scheduler ω) :=
  if cfg.numKvCacheGroups > 1 then
    .error (.runtime "A KV connector reported block-level load failures")
  else do
    let asyncLoadReqs := (s.kvHoldingWaiting.iter s.orderKey).filter fun id =>
      (s.request id).status = .waitingForRemoteKvs
    let (asyncScan, s) ← updateRequestsWithInvalidBlocks cfg parts invalidBlockIds
      numScheduledTokens false asyncLoadReqs {} s
    let (syncScan, s) ← updateRequestsWithInvalidBlocks cfg parts invalidBlockIds
      numScheduledTokens true s.running {} s
    if asyncScan.affectedReqIds.length + syncScan.affectedReqIds.length = 0 then .ok ([], s)
    else if ¬cfg.recomputeKvLoadFailures then
      let s := if syncScan.blocksToEvict = [] then s
        else { s with world := parts.evictBlocks s.world syncScan.blocksToEvict.dedup }
      .ok (syncScan.affectedReqIds.foldl setAdd asyncScan.affectedReqIds, s)
    else
      .ok (syncScan.affectedReqIds, { s with
        failedRecvingKvReqIds :=
          asyncScan.affectedReqIds.foldl setAdd s.failedRecvingKvReqIds })

/-- `finished_recving` of `_update_from_kv_xfer_finished`. -/
def recvFinished : List String → Scheduler ω → Except PyError (Scheduler ω)
  | [], s => .ok s
  | id :: rest, s => do
    pyAssert (id ∈ s.requests) "req_id in self.requests"
    let s ←
      if (s.request id).status = .waitingForRemoteKvs then
        .ok { s with finishedRecvingKvReqIds := setAdd s.finishedRecvingKvReqIds id }
      else s.freeBlocks cfg parts id
    recvFinished rest s

/-- `finished_sending` of `_update_from_kv_xfer_finished`. -/
def sendFinished : List String → Scheduler ω → Except PyError (Scheduler ω)
  | [], s => .ok s
  | id :: rest, s => do
    pyAssert (id ∈ s.requests) "req_id in self.requests"
    let s ← s.freeBlocks cfg parts id
    sendFinished rest s

/-- `_update_from_kv_xfer_finished`. -/
def updateFromKvXferFinished (output : KVConnectorOutput) : Except PyError (Scheduler ω) := do
  let s := if cfg.hasConnector then
    { s with world := parts.updateConnectorOutput s.world output } else s
  let s ← recvFinished cfg parts output.finishedRecving s
  sendFinished cfg parts output.finishedSending s

variable (out : SchedulerOutput)

/-- The failed KV loads of a step: the requests whose output is skipped. -/
def handleKvFailures (output : KVConnectorOutput) :
    Except PyError (List String × Scheduler ω) := do
  let (failed, s) := if output.failedRecving = [] then ([], s)
    else s.handleFailedRecving cfg output.failedRecving
  if output.invalidBlockIds = [] then .ok (failed, s)
  else do
    let (invalid, s) ← s.handleInvalidBlocks cfg parts output.invalidBlockIds
      out.numScheduledTokens
    .ok (invalid.foldl setAdd failed, s)

/-- Remove the requests that the outputs stopped from the queues. -/
def removeStopped (scan : OutputScan ω) : Scheduler ω :=
  (scan.sched.removeRunning scan.stoppedRunningReqs).removeWaiting scan.stoppedPreemptedReqs

/-- The requests to finish with an error after a step, and the state without them. -/
def takeErrorReqs (failedKvLoadReqIds : List String) : List String × Scheduler ω :=
  let (unavailable, world) :=
    if cfg.hasEcConnector then parts.takeUnavailableRequests s.world else ([], s.world)
  let failed := if cfg.recomputeKvLoadFailures then [] else failedKvLoadReqIds
  ((s.grammarCompileErrorReqs ++ s.encoderCacheMismatchReqs ++ failed ++ unavailable).dedup,
    { s with grammarCompileErrorReqs := [], encoderCacheMismatchReqs := [], world := world })

/-- The step is over: the blocks whose free waited for it are free. -/
def processStep : Scheduler ω :=
  if cfg.deferBlockFree ∧ out.totalNumScheduledTokens > 0 then
    { s with processedStepSeq := s.processedStepSeq + 1 }.drainDeferredFrees parts
  else s

def finishErrorReqs (errorReqIds : List String) : Except PyError (List String × Scheduler ω) :=
  if errorReqIds = [] then .ok ([], s)
  else s.finishRequests cfg parts (some errorReqIds) .finishedError

def updateFromKvConnector : Option KVConnectorOutput → Except PyError (Scheduler ω)
  | some output => s.updateFromKvXferFinished cfg parts output
  | none => .ok s

/-- `update_from_output`. -/
def updateFromOutput (output : ModelRunnerOutput) :
    Except PyError (List EngineCoreOutput × Scheduler ω) := do
  let (failed, s) ← (s.processStep cfg parts out).handleKvFailures cfg parts out
    (output.kvConnectorOutput.getD {})
  let scan ← updateRequests cfg parts out output failed out.numScheduledTokens { sched := s }
  let (errorReqIds, s) := (removeStopped scan).takeErrorReqs cfg parts failed
  let (errorReqs, s) ← s.finishErrorReqs cfg parts errorReqIds
  let s ← s.updateFromKvConnector cfg parts output.kvConnectorOutput
  .ok (scan.outputs ++ errorReqs.map fun id => ⟨id, [], true⟩, s)

/-- `update_draft_token_ids`. -/
def updateDraftTokenIds : List (String × List Int) → Scheduler ω → Scheduler ω
  | [], s => s
  | (id, specTokenIds) :: rest, s =>
    let r := s.request id
    let s :=
      if id ∉ s.requests ∨ r.isFinished then s
      else if r.isPrefillChunk then s.setRequest id { r with specTokenIds := [] }
      else s.setRequest id { r with
        specTokenIds := parts.validateTokens s.world r specTokenIds }
    updateDraftTokenIds rest s

/-- The loop of `reset_prefix_cache` that preempts every running request, last first. -/
def preemptAll : Nat → Scheduler ω → Except PyError (Scheduler ω)
  | 0, s => .ok s
  | n + 1, s =>
    match s.running.getLast? with
    | none => .ok s
    | some id => do
      let s ← { s with running := s.running.dropLast }.preemptRequest cfg parts id true
      preemptAll n s

/-- `reset_prefix_cache`. -/
def resetPrefixCache (resetRunningRequests : Bool) : Except PyError (Bool × Scheduler ω) := do
  let s ← preemptAll cfg parts (if resetRunningRequests then s.running.length else 0) s
  let (successful, world) := parts.resetPrefixCache s.world
  if resetRunningRequests ∧ ¬successful then
    .error (.runtime "Failed to reset KV cache even when all the running requests are preempted")
  else .ok (successful, { s with world := world })

end Scheduler

/-- A scheduler with the steps whose output it has not seen yet, oldest first. -/
structure Engine (ω : Type) where
  sched : Scheduler ω
  inFlight : List SchedulerOutput

/-- What the engine may do next. -/
inductive EngineCall
  | addRequest (request : Request)
  | schedule (throttlePrefills : Bool)
  | updateFromOutput (output : ModelRunnerOutput)
  | updateDraftTokenIds (drafts : List (String × List Int))
  | finishRequests (requestIds : Option (List String)) (finishedStatus : RequestStatus)
  | resetPrefixCache (resetRunningRequests : Bool)
  | setPauseState (pauseState : PauseState)

namespace Engine

variable {ω : Type} (cfg : SchedulerConfig) (parts : Components ω)

/-- A call that does not raise. Steps are processed in the order they were scheduled. -/
def call (e : Engine ω) : EngineCall → Except PyError (Engine ω)
  | .addRequest request => do
    let s ← e.sched.addRequest cfg parts request
    .ok { e with sched := s }
  | .schedule throttlePrefills => do
    let (out, s) ← e.sched.schedule cfg parts throttlePrefills
    .ok { sched := s, inFlight := e.inFlight ++ [out] }
  | .updateFromOutput output =>
    match e.inFlight with
    | [] => .error .index
    | out :: rest => do
      let (_, s) ← e.sched.updateFromOutput cfg parts out output
      .ok { sched := s, inFlight := rest }
  | .updateDraftTokenIds drafts =>
    .ok { e with sched := Scheduler.updateDraftTokenIds parts drafts e.sched }
  | .finishRequests requestIds finishedStatus => do
    let (_, s) ← e.sched.finishRequests cfg parts requestIds finishedStatus
    .ok { e with sched := s }
  | .resetPrefixCache resetRunningRequests => do
    let (_, s) ← e.sched.resetPrefixCache cfg parts resetRunningRequests
    .ok { e with sched := s }
  | .setPauseState pauseState => .ok { e with sched := { e.sched with pauseState := pauseState } }

def runCalls : List EngineCall → Engine ω → Except PyError (Engine ω)
  | [], e => .ok e
  | call :: rest, e => do
    let e ← e.call cfg parts call
    runCalls rest e

end Engine

end VllmAmpere.Sched
