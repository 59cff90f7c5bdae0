import VllmAmpere.OutboundRound
import VllmAmpere.PyCalls

/-! The server role of a peer session: it matches stored blocks with the peer's fetches,
submits transfers, and reports the store jobs that are done with. -/

namespace VllmAmpere.P2P

/-- `ReqContext`, by its `req_id`. -/
abbrev ReqContext := String

inductive LookupResult
  | hit
  | hitPending
  | retry
  | miss
  deriving DecidableEq

inductive CancelMode
  | immediate
  | wait
  deriving DecidableEq

/-- What `create_store_job` returns. -/
structure StoreJob where
  jobId : JobId
  keys : List OffloadKey
  chunkIds : List Nat

structure PollResult where
  done : List TransferId := []
  failed : List TransferId := []

/-- What the role calls: the clock, the data transport and the parent manager. -/
structure ServerParts (ω : Type) where
  monotonic : ω → Time × ω
  writeBlocks : ω → String → List Nat → List Nat → Option TransferId × ω
  poll : ω → String → PollResult × ω
  cancel : ω → List TransferId → CancelMode → List TransferId × ω
  lookup : ω → OffloadKey → ReqContext → LookupResult × ω
  createStoreJob : ω → List OffloadKey → ReqContext → StoreJob × ω
  onNewRequest : ω → ReqContext → ω
  onRequestFinished : ω → ReqContext → ω

def storeTimeout : Time := 30000000

def cancelDrainTimeout : Time := 10000000

def lookupPendingTimeout : Time := 5000000

/-- A round object. Transfers hold on to it when its request has dropped it. -/
abbrev RoundId := Nat

structure InflightXfer where
  kvRequestId : String
  blockCount : Nat
  jobIds : List JobId
  round : RoundId
  roundKey : Nat

structure ActiveLookup where
  lookupId : Nat
  kvRequestId : String
  ctx : ReqContext
  roundSeq : Nat := 0
  keys : List OffloadKey := []
  resolved : PyDict OffloadKey Bool := .empty
  pending : List OffloadKey := []
  deadline : Time := 0

structure PendingLookup where
  keys : List OffloadKey
  enqueuedAt : Time
  roundSeq : Nat := 0

structure ServerRequestState where
  outbound : PyDict Nat RoundId := .empty
  pendingLookups : List PendingLookup := []
  lookups : PyDict Nat ActiveLookup := .empty
  inflightTids : List TransferId := []

/-- `outbox` holds the messages handed to `send`, `rounds` the round objects. -/
structure ServerRole (ω : Type) where
  world : ω
  peerId : String := ""
  outbox : List Msg := []
  requests : PyDict String ServerRequestState := .empty
  servePending : List String := []
  inflight : PyDict TransferId InflightXfer := .empty
  storeJobs : PyDict JobId Time := .empty
  pendingStoreResults : List StoreResult := []
  finishedLookupCtxs : List ReqContext := []
  lookupIdCounter : Nat := 0
  pendingAborts : PyDict (String × Nat) Time := .empty
  rounds : RoundId → OutboundRequestState := fun _ => {}
  nextRound : RoundId := 0

namespace ServerRole

variable {ω : Type} (s : ServerRole ω)

def send (msg : Msg) : ServerRole ω := { s with outbox := s.outbox ++ [msg] }

variable (kvRequestId : String)

def request : ServerRequestState :=
  (s.requests.get? kvRequestId).getD {}

def setRequest (st : ServerRequestState) :
    ServerRole ω :=
  { s with requests := s.requests.set kvRequestId st }

/-- `_get_or_create_request`. -/
def getOrCreateRequest : ServerRole ω :=
  s.setRequest kvRequestId (s.request kvRequestId)

variable (round : RoundId)

def updateRound
    (f : OutboundRequestState → OutboundRequestState) : ServerRole ω :=
  { s with rounds := Function.update s.rounds round (f (s.rounds round)) }

def outboundRound (roundKey : Nat) : Option RoundId :=
  (s.requests.get? kvRequestId).bind fun st => st.outbound.get? roundKey

/-- The round a request has under a key, made when there is none. -/
def getOrCreateRound (roundKey : Nat) :
    RoundId × ServerRole ω :=
  match s.outboundRound kvRequestId roundKey with
  | some round => (round, s)
  | none =>
    let st := s.request kvRequestId
    let s := { s with
      rounds := Function.update s.rounds s.nextRound {}
      nextRound := s.nextRound + 1 }
    (s.nextRound - 1,
      s.setRequest kvRequestId { st with outbound := st.outbound.set roundKey (s.nextRound - 1) })

variable (kvRequestId : String)

/-- `_maybe_prune`. -/
def maybePrune (s : ServerRole ω) : ServerRole ω :=
  match s.requests.get? kvRequestId with
  | some st =>
    if st.outbound.items.isEmpty && st.inflightTids.isEmpty && st.lookups.items.isEmpty &&
        st.pendingLookups.isEmpty &&
        !(s.pendingAborts.items.any fun item => item.1.1 = kvRequestId) then
      { s with requests := s.requests.pop kvRequestId }
    else s
  | none => s

def setWorld (world : ω) : ServerRole ω := { s with world := world }

variable (round : RoundId)

def markFinishing (s : ServerRole ω) : ServerRole ω :=
  s.updateRound round fun r => { r with finishing := true }

def hasInflightFor : Bool :=
  (s.requests.get? kvRequestId).any fun st => !st.inflightTids.isEmpty

def hasInflightTransfers : Bool := !s.inflight.items.isEmpty

variable (tid : TransferId)

/-- `_inflight_add`. -/
def inflightAdd (xfer : InflightXfer) : ServerRole ω :=
  let s := { s with inflight := s.inflight.set tid xfer }
  let st := s.request xfer.kvRequestId
  s.setRequest xfer.kvRequestId { st with inflightTids := st.inflightTids.insert tid }

/-- Take a transfer out of `_inflight` and off its round. -/
def takeInflight (xfer : InflightXfer) : ServerRole ω :=
  { s with inflight := s.inflight.pop tid }.updateRound xfer.round fun r =>
    { r with inflight := r.inflight - 1 }

def discardTid (kvRequestId : String) : ServerRole ω :=
  match s.requests.get? kvRequestId with
  | some st =>
    s.setRequest kvRequestId { st with inflightTids := st.inflightTids.filter (· ≠ tid) }
  | none => s

/-- `_inflight_pop`. -/
def inflightPop : PyM (ServerRole ω) (Option InflightXfer) := do
  let s ← PyM.get
  match s.inflight.get? tid with
  | none => pure none
  | some xfer =>
    let s := s.takeInflight tid xfer
    PyM.set s
    PyM.lift (pyAssert ((s.rounds xfer.round).inflight ≥ 0) "")
    PyM.set (s.discardTid tid xfer.kvRequestId)
    pure (some xfer)

/-- `_inflight_pop`, without what it returns. -/
def popTransfer : PyM (ServerRole ω) Unit := do
  let _ ← inflightPop tid

/-- The loops that pop jobs from `_store_jobs` and give a result to those they find. -/
def settle (success : Bool) : List JobId → ServerRole ω → List StoreResult × ServerRole ω
  | [], s => ([], s)
  | jobId :: rest, s =>
    match s.storeJobs.get? jobId with
    | none => settle success rest s
    | some _ =>
      let (results, s) := settle success rest { s with storeJobs := s.storeJobs.pop jobId }
      (⟨jobId, success⟩ :: results, s)

/-- `_settle_xfer_jobs`. -/
def settleXferJobs (xfer : InflightXfer) (success : Bool) (s : ServerRole ω) :
    List StoreResult × ServerRole ω :=
  let (results, s) := settle success xfer.jobIds s
  (results, s.updateRound xfer.round fun r =>
    { r with pendingJobIds := r.pendingJobIds.filter (· ∉ results.map StoreResult.jobId) })

def settleRoundJobs (success : Bool) (s : ServerRole ω) :
    List StoreResult × ServerRole ω :=
  let (results, s) := settle success (s.rounds round).pendingJobIds s
  (results, s.updateRound round fun r => { r with pendingJobIds := [] })

/-- `_fail_round_jobs`. -/
def failRoundJobs (s : ServerRole ω) : List StoreResult × ServerRole ω :=
  settleRoundJobs round false s

def deferRoundJobs (success : Bool) (s : ServerRole ω) : ServerRole ω :=
  let (settled, s) := settleRoundJobs round success s
  { s with pendingStoreResults := s.pendingStoreResults ++ settled }

def dropRound (st : ServerRequestState)
    (roundKey : Nat) : ServerRole ω :=
  s.setRequest kvRequestId { st with outbound := st.outbound.pop roundKey }

/-- `_finalize_outbound` behind the look-ups of the round. -/
def closeRound (roundKey : Nat) (st : ServerRequestState)
    (round : RoundId) (success : Bool) (sendDone : Bool) (s : ServerRole ω) : ServerRole ω :=
  let demandReceived := (s.rounds round).demandReceived
  let s := (s.dropRound kvRequestId st roundKey).deferRoundJobs round success
  let s :=
    if sendDone && demandReceived then s.send (.transferDone kvRequestId success roundKey)
    else s
  s.maybePrune kvRequestId

/-- `_finalize_outbound`. -/
def finalizeOutbound (roundKey : Nat) (success : Option Bool)
    (sendDone : Bool) : PyM (ServerRole ω) Unit := do
  let s ← PyM.get
  let st ← PyM.lift (s.requests.getItem kvRequestId)
  let round ← PyM.lift (st.outbound.getItem roundKey)
  let req := s.rounds round
  let success := success.getD (req.demandReceived && req.remaining = 0)
  PyM.set (s.closeRound kvRequestId roundKey st round success sendDone)

/-- Finalize a round whose request is finishing once nothing of it is in flight. -/
def finalizeFinishing (roundKey : Nat) :
    PyM (ServerRole ω) Unit := do
  let s ← PyM.get
  if (s.rounds round).finishing ∧ (s.rounds round).inflight = 0 then
    finalizeOutbound kvRequestId roundKey none true

/-- What `_submit_transfer` does with a transfer that was submitted. -/
def startTransfer (result : MatchResult) (round : RoundId)
    (roundKey : Nat) (tid : TransferId) (s : ServerRole ω) : ServerRole ω :=
  let s := s.updateRound round fun r => { r with inflight := r.inflight + 1 }
  s.inflightAdd tid
    { kvRequestId := kvRequestId
      blockCount := result.localIdxs.length
      jobIds := result.jobIds
      round := round
      roundKey := roundKey }

/-- What `_submit_transfer` does when `write_blocks` failed. -/
def rejectTransfer (roundKey : Nat) :
    PyM (ServerRole ω) Unit := do
  PyM.modify (markFinishing round)
  let s ← PyM.get
  if s.outboundRound kvRequestId roundKey = some round ∧ (s.rounds round).inflight = 0 then
    finalizeOutbound kvRequestId roundKey (some false) true

/-- `_finalize_abort`. -/
def finalizeAbort (roundSeq : Nat) (s : ServerRole ω) : ServerRole ω :=
  let s := { s with pendingAborts := s.pendingAborts.pop (kvRequestId, roundSeq) }
  (s.send (.abortAck kvRequestId roundSeq)).maybePrune kvRequestId

/-- The transfers of a selection, in the order of `_inflight`. -/
def transfers (select : InflightXfer → Bool) : List TransferId :=
  (s.inflight.items.filter fun item => select item.2).map Prod.fst

/-- `_finish_inbound_lookups`. -/
def finishInboundLookups (s : ServerRole ω) : ServerRole ω :=
  match s.requests.get? kvRequestId with
  | none => s
  | some st =>
    let s := s.setRequest kvRequestId { st with pendingLookups := [], lookups := .empty }
    let s := { s with
      finishedLookupCtxs :=
        s.finishedLookupCtxs ++ st.lookups.values.map ActiveLookup.ctx
      servePending := s.servePending.filter (· ≠ kvRequestId) }
    s.maybePrune kvRequestId

/-- A round of the loop of `finish`. -/
def finishRound (item : Nat × RoundId) : PyM (ServerRole ω) Unit := do
  let s ← PyM.get
  let s := s.markFinishing item.2
  PyM.set s
  let req := s.rounds item.2
  if ¬req.demandReceived ∨ req.inflight ≠ 0 then pure ()
  else finalizeOutbound kvRequestId item.1 none true

def finish : PyM (ServerRole ω) Unit := do
  let s ← PyM.get
  let s := s.finishInboundLookups kvRequestId
  PyM.set s
  match s.requests.get? kvRequestId with
  | none => pure ()
  | some st => PyM.forEach (finishRound kvRequestId) st.outbound.items

section

variable (parts : ServerParts ω) (s : ServerRole ω)

/-- `time.monotonic()`. -/
def now : Time × ServerRole ω :=
  let (t, world) := parts.monotonic s.world
  (t, s.setWorld world)

/-- `self._transport.cancel(ids, mode)`. -/
def cancel (ids : List TransferId) (mode : CancelMode) (s : ServerRole ω) :
    List TransferId × ServerRole ω :=
  let (still, world) := parts.cancel s.world ids mode
  (still, s.setWorld world)

variable (kvRequestId : String)

/-- `_submit_transfer`. -/
def submitTransfer (result : MatchResult) (round : RoundId)
    (roundKey : Nat) : PyM (ServerRole ω) Unit := do
  let s ← PyM.get
  let (transferId, world) :=
    parts.writeBlocks s.world s.peerId result.localIdxs result.remoteIdxs
  PyM.set (s.setWorld world)
  match transferId with
  | some tid =>
    PyM.modify (startTransfer kvRequestId result round roundKey tid)
  | none => rejectTransfer kvRequestId round roundKey

def submitMatched (result : MatchResult) (round : RoundId)
    (roundKey : Nat) : PyM (ServerRole ω) Unit :=
  if result.localIdxs ≠ [] then submitTransfer parts kvRequestId result round roundKey
  else pure ()

def addStoredBlocks (kvRequestId : String) (keys : List OffloadKey) (blockIds : List Nat)
    (jobId : JobId) (roundSeq : Nat) (fromLookup : Bool) : PyM (ServerRole ω) Unit := do
  let submittedAt ← PyM.update (now parts)
  let s ← PyM.get
  let s := { s with storeJobs := s.storeJobs.set jobId submittedAt }
  let (round, s) := (s.getOrCreateRequest kvRequestId).getOrCreateRound kvRequestId roundSeq
  let rnd := s.rounds round
  let rnd := { rnd with lookupSupplied := rnd.lookupSupplied || fromLookup }
  let (rnd, result) := rnd.addStoredBlocks keys blockIds jobId
  PyM.set (s.updateRound round fun _ => rnd)
  if rnd.demandReceived then submitMatched parts kvRequestId result round roundSeq

def onFetch (keys : List OffloadKey) (blockIndexes : List Nat)
    (roundSeq : Nat) : PyM (ServerRole ω) Unit := do
  let s ← PyM.get
  if (s.outboundRound kvRequestId roundSeq).any fun round => (s.rounds round).demandReceived then
    PyM.lift (.error (.value
      s!"duplicate fetch for kv_request_id={kvRequestId} round={roundSeq}"))
  else
    let (round, s) := (s.getOrCreateRequest kvRequestId).getOrCreateRound kvRequestId roundSeq
    let (req, result) := (s.rounds round).addFetchDemand keys blockIndexes
    let s := s.updateRound round fun _ => req
    if keys = [] then
      let s := s.finishInboundLookups kvRequestId
      PyM.set s
      PyM.forEach (fun key => finalizeOutbound kvRequestId key none false)
        ((s.request kvRequestId).outbound.keys)
    else
      PyM.set s
      if req.lookupSupplied ∧ req.demanded.items ≠ [] then
        finalizeOutbound kvRequestId roundSeq (some false) true
      else
        submitMatched parts kvRequestId result round roundSeq
        finalizeFinishing kvRequestId round roundSeq

variable (roundSeq : Nat)

/-- Take the round of an abort out of its request and fail its jobs. -/
def detachRound (st : ServerRequestState)
    (s : ServerRole ω) : ServerRole ω :=
  match st.outbound.get? roundSeq with
  | some round => (s.dropRound kvRequestId st roundSeq).deferRoundJobs round false
  | none => s

/-- What `_drain_abort` does about the transfers that are in flight. -/
def cancelAborted (ids : List TransferId) :
    PyM (ServerRole ω) Unit := do
  let s ← PyM.get
  let startedAt ← PyM.lift (s.pendingAborts.getItem (kvRequestId, roundSeq))
  let t ← PyM.update (now parts)
  if startedAt + cancelDrainTimeout ≤ t then
    PyM.forEach popTransfer ids
    let _ ← PyM.update (cancel parts ids .immediate)
    PyM.modify (finalizeAbort kvRequestId roundSeq)
  else
    let still ← PyM.update (cancel parts ids .wait)
    PyM.forEach popTransfer (ids.filter (· ∉ still))
    if still = [] then PyM.modify (finalizeAbort kvRequestId roundSeq)

/-- `_drain_abort`. -/
def drainAbort : PyM (ServerRole ω) Unit := do
  let s ← PyM.get
  let st ← PyM.lift (s.requests.getItem kvRequestId)
  PyM.modify (detachRound kvRequestId roundSeq st)
  let s ← PyM.get
  let ids := s.transfers fun xfer => xfer.kvRequestId = kvRequestId ∧ xfer.roundKey = roundSeq
  if ids = [] then PyM.modify (finalizeAbort kvRequestId roundSeq)
  else cancelAborted parts kvRequestId roundSeq ids

def onAbortFetch : PyM (ServerRole ω) Unit := do
  let startedAt ← PyM.update (now parts)
  let s ← PyM.get
  let s := s.getOrCreateRequest kvRequestId
  PyM.set (match s.pendingAborts.get? (kvRequestId, roundSeq) with
    | some _ => s
    | none => { s with pendingAborts := s.pendingAborts.set (kvRequestId, roundSeq) startedAt })
  drainAbort parts kvRequestId roundSeq

def drainPendingAborts : PyM (ServerRole ω) Unit := do
  let s ← PyM.get
  PyM.forEach (fun item => drainAbort parts item.1.1 item.1.2) s.pendingAborts.items

def onLookup (keys : List OffloadKey) (roundSeq : Nat) :
    PyM (ServerRole ω) Unit := do
  let enqueuedAt ← PyM.update (now parts)
  let s ← PyM.get
  let st := s.request kvRequestId
  let s := s.setRequest kvRequestId
    { st with pendingLookups := st.pendingLookups ++ [⟨keys, enqueuedAt, roundSeq⟩] }
  PyM.set { s with servePending := s.servePending.insert kvRequestId }

/-- `_timeout_pending_store_jobs`. -/
def timeoutPendingStoreJobs : List StoreResult × ServerRole ω :=
  if s.storeJobs.items.isEmpty then ([], s)
  else
    let (t, s) := s.now parts
    let timedOut := (s.storeJobs.items.filter fun item => item.2 + storeTimeout ≤ t).map Prod.fst
    settle false timedOut s

def collectIdleTimeouts : List StoreResult × ServerRole ω :=
  s.timeoutPendingStoreJobs parts

variable (xfer : InflightXfer)

/-- Whether a request still has the round of a transfer under its key. -/
def registers : Bool :=
  s.outboundRound xfer.kvRequestId xfer.roundKey = some xfer.round

def countDone : PyM (ServerRole ω) Unit := do
  let s ← PyM.get
  if s.registers xfer then
    let s := s.updateRound xfer.round fun r => { r with remaining := r.remaining - xfer.blockCount }
    PyM.set s
    let rnd := s.rounds xfer.round
    PyM.lift (pyAssert (rnd.remaining ≥ 0)
      s!"remaining went negative for kv_request_id={xfer.kvRequestId}")
    if rnd.remaining = 0 then finalizeOutbound xfer.kvRequestId xfer.roundKey (some true) true
    else if rnd.finishing ∧ rnd.inflight = 0 then
      finalizeOutbound xfer.kvRequestId xfer.roundKey (some false) true

def collectDone (tid : TransferId) : PyM (ServerRole ω) (List StoreResult) := do
  match ← inflightPop tid with
  | none => pure []
  | some xfer =>
    let results ← PyM.update (settleXferJobs xfer true)
    countDone xfer
    PyM.modify (maybePrune xfer.kvRequestId)
    pure results

/-- Drop the round of a failed transfer and tell the peer. -/
def dropFailed (s : ServerRole ω) :
    List (String × RoundId) × ServerRole ω :=
  if s.registers xfer then
    let st := s.request xfer.kvRequestId
    let s := s.dropRound xfer.kvRequestId st xfer.roundKey
    ([(xfer.kvRequestId, xfer.round)], s.send (.transferDone xfer.kvRequestId false xfer.roundKey))
  else ([], s)

/-- The loop over the transfers that failed: the results and the rounds they end. -/
def collectFailed : List TransferId →
    PyM (ServerRole ω) (List StoreResult × List (String × RoundId))
  | [] => pure ([], [])
  | tid :: rest => do
    match ← inflightPop tid with
    | none => collectFailed rest
    | some xfer =>
      let results ← PyM.update (settleXferJobs xfer false)
      let failed ← PyM.update (dropFailed xfer)
      PyM.modify (maybePrune xfer.kvRequestId)
      let others ← collectFailed rest
      pure (results ++ others.1, failed ++ others.2)

/-- Cancel what else a failed round has in flight and fail its jobs. -/
def failRound (item : String × RoundId) : PyM (ServerRole ω) (List StoreResult) := do
  let s ← PyM.get
  let idsToCancel := s.transfers fun xfer => xfer.round = item.2
  PyM.forEach popTransfer idsToCancel
  if idsToCancel ≠ [] then
    let _ ← PyM.update (cancel parts idsToCancel .immediate)
  let results ← PyM.update (failRoundJobs item.2)
  PyM.modify (maybePrune item.1)
  pure results

def drainDeferred : List StoreResult × ServerRole ω :=
  (s.pendingStoreResults, { s with pendingStoreResults := [] })

/-- `self._transport.poll(self._peer_id)`. -/
def pollTransport : PollResult × ServerRole ω :=
  let (result, world) := parts.poll s.world s.peerId
  (result, s.setWorld world)

def collectResults : PyM (ServerRole ω) (List StoreResult) := do
  let timedOut ← PyM.update (timeoutPendingStoreJobs parts)
  let deferred ← PyM.update drainDeferred
  let pollResult ← PyM.update (pollTransport parts)
  let done ← PyM.collect collectDone pollResult.done
  let (failed, failedRounds) ← collectFailed pollResult.failed
  let cancelled ← PyM.collect (failRound parts) failedRounds
  pure (timedOut ++ deferred ++ done ++ failed ++ cancelled)

/-- The failed store jobs and the lookup contexts that still need `on_request_finished`. -/
def close : (List JobId × List ReqContext) × ServerRole ω :=
  let failedStores := s.storeJobs.keys
  let world := if s.inflight.items.isEmpty then s.world
    else (parts.cancel s.world (s.inflight.keys) .immediate).2
  let failedServes :=
    (s.requests.values.flatMap fun st => st.lookups.values.map ActiveLookup.ctx) ++
      s.finishedLookupCtxs
  ((failedStores, failedServes),
    { s with
      world := world
      storeJobs := .empty
      inflight := .empty
      pendingStoreResults := []
      requests := .empty
      servePending := []
      pendingAborts := .empty
      finishedLookupCtxs := [] })

end

end ServerRole

end VllmAmpere.P2P

/-! The inbound lookups of the server role: hits are pinned at once and parked as the
supply of their round, and each lookup is answered when all its keys are settled. -/

namespace VllmAmpere.P2P.ServerRole

variable {ω : Type} (parts : ServerParts ω)

/-- `parent.lookup(key, ctx)`. -/
def parentLookup (key : OffloadKey) (ctx : ReqContext) (s : ServerRole ω) :
    LookupResult × ServerRole ω :=
  let (result, world) := parts.lookup s.world key ctx
  (result, s.setWorld world)

/-- `parent.create_store_job(keys, ctx)`. -/
def parentCreateStoreJob (keys : List OffloadKey) (ctx : ReqContext) (s : ServerRole ω) :
    StoreJob × ServerRole ω :=
  let (job, world) := parts.createStoreJob s.world keys ctx
  (job, s.setWorld world)

/-- `parent.on_request_finished(ctx)`. -/
def parentRequestFinished (ctx : ReqContext) (s : ServerRole ω) : ServerRole ω :=
  s.setWorld (parts.onRequestFinished s.world ctx)

variable (lookup : ActiveLookup)

/-- `_pin_and_register_hits`. -/
def pinAndRegisterHits (keys : List OffloadKey) :
    PyM (ServerRole ω) Unit := do
  let job ← PyM.update (parentCreateStoreJob parts keys lookup.ctx)
  addStoredBlocks parts lookup.kvRequestId job.keys job.chunkIds job.jobId lookup.roundSeq true

/-- The loop of `_poll_lookup_keys`, with the keys that are new hits. -/
def pollKeys : List OffloadKey → ActiveLookup → ServerRole ω →
    (ActiveLookup × List OffloadKey) × ServerRole ω
  | [], lookup, s => ((lookup, []), s)
  | key :: rest, lookup, s =>
    if (lookup.resolved.get? key).isSome then pollKeys rest lookup s
    else
      let (result, s) := s.parentLookup parts key lookup.ctx
      match result with
      | .hit =>
        let ((lookup, newHits), s) := pollKeys rest { lookup with
          resolved := lookup.resolved.set key true
          pending := lookup.pending.filter (· ≠ key) } s
        ((lookup, key :: newHits), s)
      | .miss =>
        pollKeys rest { lookup with
          resolved := lookup.resolved.set key false
          pending := lookup.pending.filter (· ≠ key) } s
      | .hitPending | .retry =>
        pollKeys rest { lookup with pending := lookup.pending.insert key } s

/-- `_poll_lookup_keys`. -/
def pollLookupKeys (keys : List OffloadKey) :
    PyM (ServerRole ω) ActiveLookup := do
  let (lookup, newHits) ← PyM.update (pollKeys parts keys lookup)
  if newHits ≠ [] then pinAndRegisterHits parts lookup newHits
  pure lookup

/-- `_finalize_lookup`. -/
def finalizeLookup : PyM (ServerRole ω) Unit := do
  if lookup.keys ≠ [] then
    let hits ← PyM.lift (lookup.keys.mapM lookup.resolved.getItem)
    PyM.modify fun s => s.send (.lookupResp lookup.kvRequestId lookup.keys hits)
  PyM.modify (parentRequestFinished parts lookup.ctx)

variable (kvRequestId : String)

/-- `_process_inbound_lookup`. -/
def processInboundLookup (pl : PendingLookup) :
    PyM (ServerRole ω) Unit := do
  let s ← PyM.get
  let lookupId := s.lookupIdCounter + 1
  let ctx := s!"p2p:{s.peerId}:{kvRequestId}:lu{lookupId}"
  PyM.set { s with
    lookupIdCounter := lookupId
    world := parts.onNewRequest s.world ctx }
  let lookup ← pollLookupKeys parts
    { lookupId := lookupId
      kvRequestId := kvRequestId
      ctx := ctx
      roundSeq := pl.roundSeq
      keys := pl.keys
      deadline := pl.enqueuedAt + lookupPendingTimeout }
    pl.keys.eraseDups
  if lookup.pending ≠ [] then
    let s ← PyM.get
    let st := s.request kvRequestId
    PyM.set (s.setRequest kvRequestId { st with lookups := st.lookups.set lookupId lookup })
  else finalizeLookup parts lookup

/-- What the deadline does to the keys that are still pending. -/
def expire (t : Time) (lookup : ActiveLookup) : ActiveLookup :=
  if lookup.pending ≠ [] ∧ lookup.deadline ≤ t then
    { lookup with
      resolved := lookup.pending.foldl (fun resolved key => resolved.set key false)
        lookup.resolved
      pending := [] }
  else lookup

/-- The loop of `_resolve_pending_lookups` over the parked lookups, with those it finished. -/
def resolveLookup (t : Time) (item : Nat × ActiveLookup) :
    PyM (ServerRole ω) (List Nat) := do
  let lookup ← pollLookupKeys parts item.2 item.2.pending
  let lookup := expire t lookup
  let s ← PyM.get
  let st := s.request kvRequestId
  PyM.set (s.setRequest kvRequestId { st with lookups := st.lookups.set item.1 lookup })
  pure (if lookup.pending = [] then [item.1] else [])

def popLookup (lookupId : Nat) : PyM (ServerRole ω) Unit := do
  let s ← PyM.get
  let st := s.request kvRequestId
  let lookup ← PyM.lift (st.lookups.getItem lookupId)
  PyM.set (s.setRequest kvRequestId { st with lookups := st.lookups.pop lookupId })
  finalizeLookup parts lookup

/-- `_resolve_pending_lookups`. -/
def resolvePendingLookups : PyM (ServerRole ω) Unit := do
  let s ← PyM.get
  match s.requests.get? kvRequestId with
  | none => pure ()
  | some st =>
    if st.lookups.items = [] then pure ()
    else
      let t ← PyM.update (now parts)
      let finished ← PyM.collect (resolveLookup parts kvRequestId t) st.lookups.items
      PyM.forEach (popLookup parts kvRequestId) finished

def serveRequest : PyM (ServerRole ω) Unit := do
  let s ← PyM.get
  match s.requests.get? kvRequestId with
  | none => PyM.set { s with servePending := s.servePending.filter (· ≠ kvRequestId) }
  | some st =>
    PyM.set (s.setRequest kvRequestId { st with pendingLookups := [] })
    PyM.forEach (processInboundLookup parts kvRequestId) st.pendingLookups
    resolvePendingLookups parts kvRequestId
    let s ← PyM.get
    let idle := (s.requests.get? kvRequestId).all fun st =>
      st.pendingLookups.isEmpty && st.lookups.items.isEmpty
    if idle then
      let s := { s with servePending := s.servePending.filter (· ≠ kvRequestId) }
      PyM.set (s.maybePrune kvRequestId)

def releaseFinished (s : ServerRole ω) : ServerRole ω :=
  { s.finishedLookupCtxs.foldl (fun s ctx => s.parentRequestFinished parts ctx) s with
    finishedLookupCtxs := [] }

def serveExternalRequests : PyM (ServerRole ω) Unit := do
  let s ← PyM.get
  PyM.forEach (serveRequest parts) s.servePending
  PyM.modify (releaseFinished parts)

end VllmAmpere.P2P.ServerRole
