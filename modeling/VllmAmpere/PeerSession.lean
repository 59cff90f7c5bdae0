import VllmAmpere.ClientRole
import VllmAmpere.ServerRole

/-! A peer session: it owns the connection, gates what the two roles send, and hands
each message to the role it is for. -/

namespace VllmAmpere.P2P

/-- What the session calls besides the parts of its server role: the connection and the
registration of the peer. `connSend` and `addRemotePeer` may raise. -/
structure SessionParts (ω : Type) extends ServerParts ω where
  connAlive : ω → Bool
  connRecv : ω → List Msg × ω
  connSend : ω → Msg → Except PyError Unit × ω
  connClose : ω → ω
  addRemotePeer : ω → String → ConnectMsg → Except PyError Unit × ω
  localConnect : ω → ConnectMsg

def maxConsecutiveDispatchErrors : Nat := 5

structure SessionPollResult where
  loads : List LoadResult
  stores : List StoreResult
  newFetchIds : List String

structure SessionCloseResult where
  failedJobs : List JobId
  failedReqIds : List String
  failedStores : List JobId
  failedServes : List ReqContext

/-- `conn` is `none` in a pending session, else whether the session marked it dead. -/
structure P2PSession (ω : Type) where
  localId : String := ""
  localBlockLen : Nat := 1
  localHashSeed : String := ""
  conn : Option Bool := none
  sendReady : Bool := false
  queued : List Msg := []
  dispatchErrorCount : Nat := 0
  newFetchIds : List String := []
  client : ClientRole := {}
  server : ServerRole ω

namespace P2PSession

variable {ω : Type}

/-- The transport, the clock and the connection are the world of the server role. -/
def setWorld (s : P2PSession ω) (world : ω) : P2PSession ω :=
  { s with server := { s.server with world := world } }

def markDead (s : P2PSession ω) : P2PSession ω := { s with conn := s.conn.map fun _ => true }

def connected (s : P2PSession ω) : Bool := s.conn.isSome

def hasPendingWork (s : P2PSession ω) : Bool :=
  s.client.hasActiveLoads || s.server.hasInflightTransfers

variable (parts : SessionParts ω)

def alive (s : P2PSession ω) : Bool :=
  s.conn.all fun dead => !dead && parts.connAlive s.server.world

/-- `self._conn.send(msg)`. -/
def connSend (msg : Msg) : PyM (P2PSession ω) Unit := do
  let s ← PyM.get
  let (sent, world) := parts.connSend s.server.world msg
  PyM.set (s.setWorld world)
  PyM.lift sent

/-- `_do_send`. -/
def doSend (msg : Msg) (s : P2PSession ω) : P2PSession ω :=
  match s.conn with
  | none => s
  | some _ =>
    match (connSend parts msg).run s with
    | (.ok _, s) => s
    | (.error _, s) => s.markDead

/-- `_send`. -/
def send (s : P2PSession ω) (msg : Msg) : P2PSession ω :=
  if s.conn = none ∨ s.sendReady = false then { s with queued := s.queued ++ [msg] }
  else s.doSend parts msg

def onServer {α : Type} (x : PyM (ServerRole ω) α) : PyM (P2PSession ω) α where
  run s :=
    let (result, server) := x.run s.server
    (result, server.outbox.foldl (send parts) { s with server := { server with outbox := [] } })

def onClient {α : Type} (x : PyM ClientRole α) : PyM (P2PSession ω) α where
  run s :=
    let (result, client) := x.run s.client
    (result, client.outbox.foldl (send parts) { s with client := { client with outbox := [] } })

/-- `_protocol_error`. -/
def protocolError (s : P2PSession ω) : P2PSession ω :=
  match s.conn with
  | none => s
  | some _ => ((connSend parts .disconnect).run s).2.markDead

/-- `self._transport.add_remote_peer`. -/
def addRemotePeer (msg : ConnectMsg) : PyM (P2PSession ω) Unit := do
  let s ← PyM.get
  let (added, world) := parts.addRemotePeer s.server.world s.server.peerId msg
  PyM.set (s.setWorld world)
  PyM.lift added

/-- The checks of `_on_connect`, and the registration of the peer. -/
def acceptConnect (msg : ConnectMsg) : PyM (P2PSession ω) Unit := do
  let s ← PyM.get
  PyM.lift (Msg.validate (.connect msg))
  if msg.blockLen ≠ s.localBlockLen then
    PyM.lift (.error (.value s!"block_len mismatch from {s.server.peerId}: remote={msg.blockLen}, local={s.localBlockLen}"))
  else
    let localFp := (parts.localConnect s.server.world).configFingerprint
    if localFp ≠ "" ∧ msg.configFingerprint ≠ "" ∧ msg.configFingerprint ≠ localFp then
      PyM.lift (.error (.value s!"config fingerprint mismatch from {s.server.peerId}: remote='{msg.configFingerprint}', local='{localFp}'"))
    else if msg.hashSeed ≠ s.localHashSeed then
      PyM.lift (.error (.value s!"hash seed mismatch from {s.server.peerId}: remote='{msg.hashSeed}', local='{s.localHashSeed}'. Ensure PYTHONHASHSEED (if set) matches on all P2P peers."))
    else addRemotePeer parts msg

/-- `_on_connect`. -/
def onConnect (msg : ConnectMsg) : PyM (P2PSession ω) Unit where
  run s :=
    if s.sendReady then (.ok (), s.protocolError parts)
    else
      match (acceptConnect parts msg).run s with
      | (.error (.value _), s) => (.ok (), s.markDead)
      | (.error e, s) => (.error e, s)
      | (.ok _, s) =>
        match s.conn with
        | none => (.ok (), s)
        | some _ => (connSend parts (.connectAck s.localId)).run s

/-- `_on_connect_ack`. -/
def onConnectAck (s : P2PSession ω) : P2PSession ω :=
  { s.queued.foldl (fun s msg => s.doSend parts msg) { s with sendReady := true } with
    queued := [] }

/-- `_dispatch_message`. -/
def dispatchMessage (msg : Msg) : PyM (P2PSession ω) Unit := do
  let s ← PyM.get
  if s.conn ≠ none ∧ s.alive parts = false then pure ()
  else
    match msg with
    | .connect connect => onConnect parts connect
    | msg@(.connectAck _) =>
      PyM.lift msg.validate
      PyM.modify (onConnectAck parts)
    | msg@(.fetch kvRequestId keys blockIndexes roundSeq) =>
      PyM.lift msg.validate
      onServer parts (ServerRole.onFetch parts.toServerParts kvRequestId keys blockIndexes roundSeq)
      PyM.modify fun s => { s with newFetchIds := s.newFetchIds ++ [kvRequestId] }
    | .abortFetch kvRequestId roundSeq =>
      onServer parts (ServerRole.onAbortFetch parts.toServerParts kvRequestId roundSeq)
    | .transferDone kvRequestId success roundSeq =>
      onClient parts (PyM.modify (ClientRole.onTransferDone kvRequestId success roundSeq))
    | .abortAck kvRequestId roundSeq =>
      onClient parts (PyM.modify (ClientRole.onAbortAck kvRequestId roundSeq))
    | .lookup kvRequestId keys roundSeq =>
      onServer parts (ServerRole.onLookup parts.toServerParts kvRequestId keys roundSeq)
    | msg@(.lookupResp kvRequestId keys hits) =>
      PyM.lift msg.validate
      onClient parts (PyM.modify (ClientRole.onLookupResp kvRequestId keys hits))
    | .disconnect => PyM.modify markDead
    | .malformed reason => PyM.lift (.error (.value reason))
    | .unknown _ => pure ()

/-- `_on_message`. -/
def onMessage (msg : Msg) : PyM (P2PSession ω) Unit where
  run s :=
    match (dispatchMessage parts msg).run s with
    | (.ok _, s) => (.ok (), { s with dispatchErrorCount := 0 })
    | (.error (.value _), s) => (.ok (), s.protocolError parts)
    | (.error _, s) =>
      let s := { s with dispatchErrorCount := s.dispatchErrorCount + 1 }
      (.ok (), if maxConsecutiveDispatchErrors ≤ s.dispatchErrorCount then s.protocolError parts
        else s)

/-- `attach_connection`. -/
def attachConnection : PyM (P2PSession ω) Unit := do
  let s ← PyM.get
  if s.conn ≠ none then
    PyM.lift (.error (.value s!"P2PSession {s.server.peerId}: already connected"))
  else
    PyM.set { s with conn := some false }
    connSend parts (.connect (parts.localConnect s.server.world))

/-- `time.monotonic()`, for the client role. -/
def readClock : PyM (P2PSession ω) Time :=
  PyM.update fun s => ((s.server.now parts.toServerParts).1,
    { s with server := (s.server.now parts.toServerParts).2 })

def requestBlocks (jobId : JobId) (kvRequestId : String) (keys : List OffloadKey)
    (blockIds : List Nat) : PyM (P2PSession ω) Unit := do
  let t ← readClock parts
  onClient parts (ClientRole.requestBlocks jobId kvRequestId keys blockIds t)

def addStoredBlocks (kvRequestId : String) (keys : List OffloadKey) (blockIds : List Nat)
    (jobId : JobId) : PyM (P2PSession ω) Unit :=
  onServer parts
    (ServerRole.addStoredBlocks parts.toServerParts kvRequestId keys blockIds jobId 0 false)

/-- `finish_request`, with the times at which the client role aborts its loads. -/
def finishRequest (kvRequestId : String) (clock : Nat → Time) : PyM (P2PSession ω) Unit := do
  onClient parts (PyM.modify (ClientRole.finish kvRequestId clock))
  onServer parts (ServerRole.finish kvRequestId)

def registerLookup (kvRequestId : String) (key : OffloadKey) :
    PyM (P2PSession ω) (Option Bool) :=
  onClient parts (PyM.update (ClientRole.registerLookup kvRequestId key))

def flushPendingLookups : PyM (P2PSession ω) Unit :=
  onClient parts (PyM.modify ClientRole.flushPendingLookups)

def serveExternalRequests : PyM (P2PSession ω) Unit :=
  onServer parts (ServerRole.serveExternalRequests parts.toServerParts)

/-- `self._conn.recv()`. -/
def recv (s : P2PSession ω) : List Msg × P2PSession ω :=
  let (msgs, world) := parts.connRecv s.server.world
  (msgs, s.setWorld world)

def takeFetchIds (s : P2PSession ω) : List String × P2PSession ω :=
  (s.newFetchIds, { s with newFetchIds := [] })

def poll : PyM (P2PSession ω) SessionPollResult := do
  let s ← PyM.get
  if s.conn = none then
    let stores ← onServer parts
      (PyM.update (ServerRole.collectIdleTimeouts parts.toServerParts))
    pure ⟨[], stores, []⟩
  else
    let msgs ← PyM.update (recv parts)
    PyM.forEach (onMessage parts) msgs
    let t ← readClock parts
    let loads ← onClient parts (ClientRole.collectResults t)
    let stores ← onServer parts (ServerRole.collectResults parts.toServerParts)
    onServer parts (ServerRole.drainPendingAborts parts.toServerParts)
    let newFetchIds ← PyM.update takeFetchIds
    pure ⟨loads, stores, newFetchIds⟩

def close (s : P2PSession ω) : SessionCloseResult × P2PSession ω :=
  let (clientResult, client) := s.client.close
  let ((failedStores, failedServes), server) := s.server.close parts.toServerParts
  let s := { s with client := client, server := server }
  let s := match s.conn with
    | none => s
    | some _ =>
      let s := ((connSend parts .disconnect).run s).2
      { s.setWorld (parts.connClose s.server.world) with conn := none }
  (⟨clientResult.failedJobs, clientResult.failedReqIds, failedStores, failedServes⟩, s)

end P2PSession

end VllmAmpere.P2P
