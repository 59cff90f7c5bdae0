import VllmAmpere.PyDict
import VllmAmpere.Request

/-! The messages two peers exchange and the results a session reports, as
`session/protocol.py` and the two roles define them. -/

namespace VllmAmpere.P2P

abbrev OffloadKey := Bytes

abbrev JobId := Nat

abbrev TransferId := Nat

/-- Readings of `time.monotonic`, in microseconds. -/
abbrev Time := Nat

/-- What a peer announces of its memory when it connects. -/
structure ConnectMsg where
  peerId : String
  agentMetadata : Bytes
  baseAddr : Nat
  numBlocks : Nat
  blockLen : Nat
  configFingerprint : String
  hashSeed : String
  deriving DecidableEq

inductive Msg
  | connect (msg : ConnectMsg)
  | connectAck (peerId : String)
  | disconnect
  | fetch (kvRequestId : String) (keys : List OffloadKey) (blockIndexes : List Nat)
      (roundSeq : Nat)
  | lookup (kvRequestId : String) (keys : List OffloadKey) (roundSeq : Nat)
  | lookupResp (kvRequestId : String) (keys : List OffloadKey) (hits : List Bool)
  | transferDone (kvRequestId : String) (success : Bool) (roundSeq : Nat)
  | abortFetch (kvRequestId : String) (roundSeq : Nat)
  | abortAck (kvRequestId : String) (roundSeq : Nat)
  /-- A message of a known type with a field that is missing or of the wrong type. -/
  | malformed (reason : String)
  | unknown (msgType : String)
  deriving DecidableEq

/-- The checks of the messages' `validate` that their types leave. -/
def Msg.validate : Msg → Except PyError Unit
  | .connect msg =>
    if msg.numBlocks = 0 then .error (.value "num_blocks: expected positive int, got 0")
    else if msg.blockLen = 0 then .error (.value "block_len: expected positive int, got 0")
    else .ok ()
  | .fetch _ keys blockIndexes _ =>
    if keys.length ≠ blockIndexes.length then
      .error (.value s!"keys/block_indexes length mismatch: {keys.length} vs {blockIndexes.length}")
    else .ok ()
  | .lookupResp _ keys hits =>
    if keys.length ≠ hits.length then
      .error (.value s!"keys/hits length mismatch: {keys.length} vs {hits.length}")
    else .ok ()
  | .malformed reason => .error (.value reason)
  | _ => .ok ()

structure StoreResult where
  jobId : JobId
  success : Bool
  deriving DecidableEq

structure LoadResult where
  jobId : JobId
  kvRequestId : String
  success : Bool
  deriving DecidableEq

/-! A fetch round of a peer request as the server role keeps it: the blocks it has, the
blocks the peer wants, and the pairs of both. -/

/-- The block pairs that are ready to be written, and the store jobs they come from. -/
structure MatchResult where
  localIdxs : List Nat := []
  remoteIdxs : List Nat := []
  jobIds : List JobId := []

structure OutboundRequestState where
  lookupSupplied : Bool := false
  demandReceived : Bool := false
  available : PyDict OffloadKey (JobId × Nat) := .empty
  demanded : PyDict OffloadKey Nat := .empty
  remaining : Int := 0
  finishing : Bool := false
  inflight : Int := 0
  pendingJobIds : List JobId := []

namespace OutboundRequestState

/-- The loop of `add_stored_blocks`. -/
def supply (jobId : JobId) : List (OffloadKey × Nat) → OutboundRequestState → MatchResult →
    OutboundRequestState × MatchResult
  | [], r, result => (r, result)
  | (key, localIdx) :: rest, r, result =>
    match r.demanded.get? key with
    | some remoteIdx =>
      supply jobId rest { r with demanded := r.demanded.pop key }
        { result with
          localIdxs := result.localIdxs ++ [localIdx]
          remoteIdxs := result.remoteIdxs ++ [remoteIdx] }
    | none => supply jobId rest { r with available := r.available.set key (jobId, localIdx) } result

def addStoredBlocks (r : OutboundRequestState) (keys : List OffloadKey) (blockIds : List Nat)
    (jobId : JobId) : OutboundRequestState × MatchResult :=
  let r := { r with pendingJobIds := r.pendingJobIds.insert jobId }
  let (r, result) := supply jobId (keys.zip blockIds) r {}
  (r, { result with jobIds := if result.localIdxs.isEmpty then [] else [jobId] })

/-- The loop of `add_fetch_demand`. -/
def demand : List (OffloadKey × Nat) → OutboundRequestState → MatchResult →
    OutboundRequestState × MatchResult
  | [], r, result => (r, result)
  | (key, remoteIdx) :: rest, r, result =>
    match r.available.get? key with
    | some (storedJobId, localIdx) =>
      demand rest { r with available := r.available.pop key }
        { localIdxs := result.localIdxs ++ [localIdx]
          remoteIdxs := result.remoteIdxs ++ [remoteIdx]
          jobIds := result.jobIds.insert storedJobId }
    | none => demand rest { r with demanded := r.demanded.set key remoteIdx } result

def addFetchDemand (r : OutboundRequestState) (keys : List OffloadKey)
    (blockIndexes : List Nat) : OutboundRequestState × MatchResult :=
  demand (keys.zip blockIndexes) { r with demandReceived := true, remaining := keys.length } {}

section supply

variable (jobId : JobId) (pairs : List (OffloadKey × Nat)) (r : OutboundRequestState)
  (result : MatchResult)

end supply

section demand

variable (pairs : List (OffloadKey × Nat)) (r : OutboundRequestState) (result : MatchResult)

end demand

end OutboundRequestState

end VllmAmpere.P2P
