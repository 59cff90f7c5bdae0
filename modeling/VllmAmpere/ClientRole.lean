import VllmAmpere.OutboundRound
import VllmAmpere.PyCalls

/-! The client role of a peer session: it probes the peer for blocks, fetches them round
by round, and reports the loads that are done with. -/

namespace VllmAmpere.P2P

def loadTimeout : Time := 30000000

def abortAckTimeout : Time := 10000000

structure InboundLoadState where
  jobId : JobId
  submittedAt : Time
  abortedAt : Option Time := none

structure ClientRequestState where
  probes : PyDict OffloadKey (Option Bool) := .empty
  unsent : List OffloadKey := []
  roundSeq : Nat := 0
  probed : Bool := false
  peerLookupOpen : Bool := false
  loads : PyDict Nat InboundLoadState := .empty

/-- `outbox` holds the messages handed to `send`. -/
structure ClientRole where
  outbox : List Msg := []
  requests : PyDict String ClientRequestState := .empty
  flushPending : List String := []
  activeLoads : List String := []
  completedLoads : List LoadResult := []

structure ClientCloseResult where
  failedJobs : List JobId
  failedReqIds : List String

namespace ClientRole

variable (c : ClientRole)

def send (msg : Msg) : ClientRole := { c with outbox := c.outbox ++ [msg] }

variable (kvRequestId : String)

def request : ClientRequestState :=
  (c.requests.get? kvRequestId).getD {}

def setRequest (st : ClientRequestState) : ClientRole :=
  { c with requests := c.requests.set kvRequestId st }

/-- `_maybe_prune`. -/
def maybePrune : ClientRole :=
  match c.requests.get? kvRequestId with
  | some st =>
    if st.loads.items.isEmpty && st.probes.items.isEmpty && st.unsent.isEmpty then
      { c with requests := c.requests.pop kvRequestId }
    else c
  | none => c

/-- `_on_load_terminal`. -/
def onLoadTerminal : ClientRole :=
  if !(c.request kvRequestId).loads.items.isEmpty then c
  else
    { c with activeLoads := c.activeLoads.filter (· ≠ kvRequestId) }.maybePrune kvRequestId

def hasActiveLoads : Bool := !c.activeLoads.isEmpty

/-- `request_blocks`, at a time. -/
def requestBlocks (jobId : JobId) (kvRequestId : String) (keys : List OffloadKey)
    (blockIds : List Nat) (t : Time) : PyM ClientRole Unit := do
  let c ← PyM.get
  let st := c.request kvRequestId
  let roundSeq := st.roundSeq
  let st := { st with
    roundSeq := st.roundSeq + 1
    loads := st.loads.set roundSeq { jobId := jobId, submittedAt := t }
    peerLookupOpen := false }
  let c := { c.setRequest kvRequestId st with activeLoads := c.activeLoads.insert kvRequestId }
  let c := c.send (.fetch kvRequestId keys blockIds roundSeq)
  PyM.set c
  if st.probed ∧ keys ≠ [] then
    PyM.lift (pyAssert (st.probes.items ≠ [])
      s!"symmetric fetch for {kvRequestId} has keys but no probes")
    PyM.lift (pyAssert (∀ key ∈ keys, st.probes.get? key = some (some true)) "")
  PyM.set (c.setRequest kvRequestId { st with probes := .empty })

/-- The loop of `finish` over the loads, with the times at which it aborts them. -/
def abortLoads (kvRequestId : String) (clock : Nat → Time) : List (Nat × InboundLoadState) →
    ClientRole → ClientRole
  | [], c => c
  | (roundSeq, load) :: rest, c =>
    match load.abortedAt with
    | some _ => abortLoads kvRequestId clock rest c
    | none =>
      let c := c.send (.abortFetch kvRequestId roundSeq)
      let st := c.request kvRequestId
      abortLoads kvRequestId clock rest (c.setRequest kvRequestId { st with
        loads := st.loads.set roundSeq { load with abortedAt := some (clock roundSeq) } })

variable (kvRequestId : String)

/-- `finish`, with the times at which it aborts the loads by their rounds. -/
def finish (clock : Nat → Time) (c : ClientRole) : ClientRole :=
  match c.requests.get? kvRequestId with
  | none => c
  | some st =>
    let c := c.abortLoads kvRequestId clock st.loads.items
    let c :=
      if st.peerLookupOpen then c.send (.fetch kvRequestId [] [] st.roundSeq) else c
    let c := c.setRequest kvRequestId { c.request kvRequestId with
      peerLookupOpen := false
      probes := .empty
      unsent := [] }
    { c with flushPending := c.flushPending.filter (· ≠ kvRequestId) }.maybePrune kvRequestId

/-- End a load with a result, when there is one in flight under the round. -/
def completeLoad (roundSeq : Nat) (success : Bool) (c : ClientRole) :
    ClientRole :=
  match c.requests.get? kvRequestId with
  | none => c
  | some st =>
    match st.loads.get? roundSeq with
    | none => c
    | some load =>
      let c := c.setRequest kvRequestId { st with loads := st.loads.pop roundSeq }
      let result : LoadResult := ⟨load.jobId, kvRequestId, success⟩
      onLoadTerminal { c with completedLoads := c.completedLoads ++ [result] } kvRequestId

def onTransferDone (success : Bool) (roundSeq : Nat) (c : ClientRole) :
    ClientRole :=
  c.completeLoad kvRequestId roundSeq success

def onAbortAck (roundSeq : Nat) (c : ClientRole) : ClientRole :=
  c.completeLoad kvRequestId roundSeq false

def registerLookup (key : OffloadKey) (c : ClientRole) :
    Option Bool × ClientRole :=
  let st := { c.request kvRequestId with probed := true }
  match st.probes.get? key with
  | some answer => (answer, c.setRequest kvRequestId st)
  | none =>
    let c := c.setRequest kvRequestId { st with
      probes := st.probes.set key none
      unsent := st.unsent ++ [key] }
    (none, { c with flushPending := c.flushPending.insert kvRequestId })

/-- A round of the loop of `flush_pending_lookups`. -/
def flushRequest (reqId : String) : ClientRole :=
  match c.requests.get? reqId with
  | none => c
  | some st =>
    if st.unsent = [] then c
    else
      (c.send (.lookup reqId st.unsent st.roundSeq)).setRequest reqId
        { st with peerLookupOpen := true, unsent := [] }

def flushPendingLookups : ClientRole :=
  { c.flushPending.foldl flushRequest c with flushPending := [] }

/-- The loop of `on_lookup_resp`. -/
def answerProbes (answers : List (OffloadKey × Bool)) (probes : PyDict OffloadKey (Option Bool)) :
    PyDict OffloadKey (Option Bool) :=
  answers.foldl (fun probes answer =>
    if (probes.get? answer.1).isSome then probes.set answer.1 (some answer.2) else probes) probes

def onLookupResp (keys : List OffloadKey) (hits : List Bool)
    (c : ClientRole) : ClientRole :=
  match c.requests.get? kvRequestId with
  | none => c
  | some st => c.setRequest kvRequestId { st with probes := answerProbes (keys.zip hits) st.probes }

/-- The loop of `collect_results` over the loads of a request, with the rounds it gives up. -/
def timeOutLoads (reqId : String) (t : Time) : List (Nat × InboundLoadState) → ClientRole →
    List Nat × ClientRole
  | [], c => ([], c)
  | (roundSeq, load) :: rest, c =>
    match load.abortedAt with
    | none =>
      if load.submittedAt + loadTimeout ≤ t then
        let st := c.request reqId
        let c := c.setRequest reqId { st with
          loads := st.loads.set roundSeq { load with abortedAt := some t } }
        timeOutLoads reqId t rest (c.send (.abortFetch reqId roundSeq))
      else timeOutLoads reqId t rest c
    | some abortedAt =>
      if abortedAt + abortAckTimeout ≤ t then
        let c := { c with completedLoads := c.completedLoads ++ [⟨load.jobId, reqId, false⟩] }
        let (given, c) := timeOutLoads reqId t rest c
        (roundSeq :: given, c)
      else timeOutLoads reqId t rest c

/-- A round of the loop of `collect_results` over the active loads. -/
def timeOutRequest (t : Time) (reqId : String) : PyM ClientRole (List (String × Nat)) := do
  let c ← PyM.get
  let st ← PyM.lift (c.requests.getItem reqId)
  PyM.lift (pyAssert (st.loads.items ≠ []) "")
  let given ← PyM.update (timeOutLoads reqId t st.loads.items)
  pure (given.map fun roundSeq => (reqId, roundSeq))

def removeLoad (item : String × Nat) : PyM ClientRole Unit := do
  let c ← PyM.get
  let st ← PyM.lift (c.requests.getItem item.1)
  let _ ← PyM.lift (st.loads.getItem item.2)
  PyM.set ((c.setRequest item.1 { st with loads := st.loads.pop item.2 }).onLoadTerminal item.1)

/-- `collect_results`, at a time. -/
def collectResults (t : Time) : PyM ClientRole (List LoadResult) := do
  let c ← PyM.get
  let toRemove ← PyM.collect (timeOutRequest t) c.activeLoads
  PyM.forEach removeLoad toRemove
  PyM.update fun c => (c.completedLoads, { c with completedLoads := [] })

def close : ClientCloseResult × ClientRole :=
  let failedJobs := c.requests.values.flatMap fun st => st.loads.values.map InboundLoadState.jobId
  let failedReqIds := (c.requests.items.filter fun item =>
    !item.2.loads.items.isEmpty || item.2.probes.values.any (· = none)).map Prod.fst
  (⟨failedJobs, failedReqIds⟩,
    { c with requests := .empty, flushPending := [], activeLoads := [], completedLoads := [] })

end ClientRole

end VllmAmpere.P2P
