import VllmAmpere.StoreLedger
import VllmAmpere.TransitionSystem

/-! The store jobs of a peer session from its first call to its close: none is reported
twice, and all are reported unless the close finds deferred results. -/

open List

namespace VllmAmpere.P2P

variable {ω : Type}

namespace P2PSession

variable {s s' : P2PSession (ω × List JobId)}

def Balances (s s' : P2PSession (ω × List JobId)) : Prop := s.server.Balances s'.server

instance : IsRefl (P2PSession (ω × List JobId)) Balances := ⟨fun s => refl s.server⟩

instance : IsTrans (P2PSession (ω × List JobId)) Balances :=
  ⟨fun s s₁ s₂ first second => IsTrans.trans s.server s₁.server s₂.server first second⟩

theorem Balances.of_ledger (same : s'.server.ledger = s.server.ledger) : s.Balances s' :=
  ServerRole.Balances.of_ledger same

section

variable (parts : SessionParts ω)

theorem ledger_connSend (msg : Msg) (s : P2PSession (ω × List JobId)) :
    ((connSend parts.recording msg).run s).2.server.ledger = s.server.ledger := rfl

@[simp] theorem ledger_doSend (msg : Msg) (s : P2PSession (ω × List JobId)) :
    (s.doSend parts.recording msg).server.ledger = s.server.ledger := by
  have sent := ledger_connSend parts msg s
  unfold doSend
  split
  · rfl
  · generalize (connSend parts.recording msg).run s = result at sent
    match result with
    | (.ok _, s') => exact sent
    | (.error _, s') => exact sent

@[simp] theorem ledger_send (msg : Msg) (s : P2PSession (ω × List JobId)) :
    (s.send parts.recording msg).server.ledger = s.server.ledger := by
  unfold send
  split
  · rfl
  · exact ledger_doSend parts msg s

theorem ledger_sendAll (msgs : List Msg) (s : P2PSession (ω × List JobId)) :
    (msgs.foldl (send parts.recording) s).server.ledger = s.server.ledger := by
  induction msgs generalizing s with
  | nil => rfl
  | cons msg rest ih => exact (ih _).trans (ledger_send parts msg s)

theorem keeps_onServer {α : Type} {x : PyM (ServerRole (ω × List JobId)) α}
    (hx : PyM.Keeps ServerRole.Balances x) : PyM.Keeps Balances (onServer parts.recording x) := by
  intro s
  refine IsTrans.trans s.server _ _ (hx s.server) (ServerRole.Balances.of_ledger ?_)
  exact ledger_sendAll parts (x.run s.server).2.outbox _

theorem keeps_onClient {α : Type} (x : PyM ClientRole α) :
    PyM.Keeps Balances (onClient parts.recording x) :=
  fun s => .of_ledger (ledger_sendAll parts (x.run s.client).2.outbox _)

theorem ledger_protocolError (s : P2PSession (ω × List JobId)) :
    (s.protocolError parts.recording).server.ledger = s.server.ledger := by
  unfold protocolError
  split
  · rfl
  · exact ledger_connSend parts .disconnect s

theorem keeps_acceptConnect (msg : ConnectMsg) :
    PyM.Keeps Balances (acceptConnect parts.recording msg) := by
  intro s
  unfold acceptConnect
  rw [PyM.run_get_bind]
  refine PyM.keeps_behind (refl s) fun _ => ?_
  split
  · exact PyM.keeps_lift _
  dsimp only
  split
  · exact PyM.keeps_lift _
  split
  · exact PyM.keeps_lift _
  · exact fun s => .of_ledger rfl

theorem keeps_onConnect (msg : ConnectMsg) :
    PyM.Keeps Balances (onConnect parts.recording msg) := by
  intro s
  have accepted := keeps_acceptConnect parts msg s
  unfold onConnect
  dsimp only
  split
  · exact .of_ledger (ledger_protocolError parts s)
  generalize (acceptConnect parts.recording msg).run s = result at accepted
  split
  · exact accepted
  · exact accepted
  · split
    · exact accepted
    · exact IsTrans.trans s _ _ accepted (.of_ledger (ledger_connSend parts _ _))

theorem ledger_onConnectAck (s : P2PSession (ω × List JobId)) :
    (s.onConnectAck parts.recording).server.ledger = s.server.ledger := by
  have flushed : ∀ (msgs : List Msg) (s : P2PSession (ω × List JobId)),
      (msgs.foldl (fun s msg => s.doSend parts.recording msg) s).server.ledger =
        s.server.ledger := by
    intro msgs
    induction msgs with
    | nil => exact fun s => rfl
    | cons msg rest ih => exact fun s => (ih _).trans (ledger_doSend parts msg s)
  exact flushed s.queued { s with sendReady := true }

theorem keeps_dispatchMessage (msg : Msg) :
    PyM.Keeps Balances (dispatchMessage parts.recording msg) := by
  intro s
  unfold dispatchMessage
  rw [PyM.run_get_bind]
  split
  · exact refl s
  cases msg with
  | connect connect => exact keeps_onConnect parts connect s
  | connectAck peerId =>
    exact PyM.keeps_behind (refl s) fun _ s => .of_ledger (ledger_onConnectAck parts s)
  | fetch kvRequestId keys blockIndexes roundSeq =>
    exact PyM.keeps_behind (refl s) fun _ =>
      (keeps_onServer parts (ServerRole.keeps_onFetch _ _ _ _ _)).bind fun _ s => .of_ledger rfl
  | abortFetch kvRequestId roundSeq =>
    exact keeps_onServer parts (ServerRole.keeps_onAbortFetch _ _ _) s
  | transferDone kvRequestId success roundSeq => exact keeps_onClient parts _ s
  | abortAck kvRequestId roundSeq => exact keeps_onClient parts _ s
  | lookup kvRequestId keys roundSeq =>
    exact keeps_onServer parts (ServerRole.keeps_onLookup _ _ _ _) s
  | lookupResp kvRequestId keys hits =>
    exact PyM.keeps_behind (refl s) fun _ => keeps_onClient parts _
  | disconnect => exact .of_ledger rfl
  | malformed reason => exact refl s
  | unknown msgType => exact refl s

theorem keeps_onMessage (msg : Msg) : PyM.Keeps Balances (onMessage parts.recording msg) := by
  intro s
  have dispatched := keeps_dispatchMessage parts msg s
  unfold onMessage
  dsimp only
  generalize (dispatchMessage parts.recording msg).run s = result at dispatched
  split
  · exact dispatched
  · exact IsTrans.trans s _ _ dispatched (.of_ledger (ledger_protocolError parts _))
  · split
    · exact IsTrans.trans s _ _ dispatched (.of_ledger (ledger_protocolError parts _))
    · exact dispatched

theorem keeps_attachConnection : PyM.Keeps Balances (attachConnection parts.recording) := by
  intro s
  unfold attachConnection
  rw [PyM.run_get_bind]
  split
  · exact refl s
  · exact .of_ledger (ledger_connSend parts _ _)

theorem keeps_requestBlocks (jobId : JobId) (kvRequestId : String) (keys : List OffloadKey)
    (blockIds : List Nat) :
    PyM.Keeps Balances (requestBlocks parts.recording jobId kvRequestId keys blockIds) :=
  PyM.Keeps.bind (fun _ => .of_ledger rfl) fun _ => keeps_onClient parts _

theorem keeps_finishRequest (kvRequestId : String) (clock : Nat → Time) :
    PyM.Keeps Balances (finishRequest parts.recording kvRequestId clock) :=
  (keeps_onClient parts _).bind fun _ => keeps_onServer parts (ServerRole.keeps_finish _)

theorem keeps_serveExternalRequests : PyM.Keeps Balances (serveExternalRequests parts.recording) :=
  keeps_onServer parts (ServerRole.keeps_serveExternalRequests _)

theorem onServer_ok {α : Type} {x : PyM (ServerRole (ω × List JobId)) α} {a : α}
    (h : (onServer parts.recording x).run s = (.ok a, s')) :
    ∃ server, x.run s.server = (.ok a, server) ∧ server.Balances s'.server := by
  have result : (x.run s.server).1 = .ok a := congrArg Prod.fst h
  have session : ((onServer parts.recording x).run s).2 = s' := congrArg Prod.snd h
  refine ⟨(x.run s.server).2, Prod.ext result rfl, .of_ledger ?_⟩
  rw [← session]
  exact ledger_sendAll parts (x.run s.server).2.outbox _

theorem poll_reports {result : SessionPollResult}
    (h : (poll parts.recording).run s = (.ok result, s')) :
    s.server.Reports result.stores s'.server := by
  unfold poll at h
  rw [PyM.run_get_bind] at h
  split at h
  · obtain ⟨stores, s₁, hstores, h⟩ := PyM.bind_ok.mp h
    obtain ⟨server, hserver, sent⟩ := onServer_ok parts hstores
    cases h
    cases hserver
    exact (ServerRole.timeoutPendingStoreJobs_reports _ _).balances sent
  · rw [PyM.run_update_bind] at h
    obtain ⟨_, s₁, hmsgs, h⟩ := PyM.bind_ok.mp h
    obtain ⟨t, s₂, hclock, h⟩ := PyM.bind_ok.mp h
    obtain ⟨loads, s₃, hloads, h⟩ := PyM.bind_ok.mp h
    obtain ⟨stores, s₄, hstores, h⟩ := PyM.bind_ok.mp h
    obtain ⟨_, s₅, hdrain, h⟩ := PyM.bind_ok.mp h
    cases h
    have handled := (PyM.keeps_forEach (keeps_onMessage parts) _).of_run hmsgs
    have collected := (keeps_onClient parts (ClientRole.collectResults t)).of_run hloads
    obtain ⟨server, hserver, sent⟩ := onServer_ok parts hstores
    have drained := (keeps_onServer parts (ServerRole.keeps_drainPendingAborts _)).of_run hdrain
    cases hclock
    have before : s.Balances s₃ := IsTrans.trans s _ s₃ (.of_ledger rfl)
      (IsTrans.trans _ s₁ s₃ handled (IsTrans.trans s₁ _ s₃ (.of_ledger rfl) collected))
    exact ServerRole.Balances.reports before
      ((ServerRole.collectResults_reports _ hserver).balances
        (IsTrans.trans server s₄.server s₅.server sent drained))

theorem ledger_close (s : P2PSession (ω × List JobId)) : (s.close parts.recording).2.server.ledger =
    (s.server.close parts.toServerParts.recording).2.ledger := by
  unfold close
  dsimp only
  split <;> rfl

end

end P2PSession

/-- A session, the jobs that were passed to `add_stored_blocks` from outside, and the jobs
of the results the polls and the close have returned. The world of the session records
the jobs of its inbound lookups. -/
structure SessionRun (ω : Type) where
  session : P2PSession (ω × List JobId)
  added : List JobId := []
  reported : List JobId := []
  closed : Bool := false

inductive SessionCall (ω : Type)
  | attachConnection
  | addStoredBlocks (kvRequestId : String) (keys : List OffloadKey) (blockIds : List Nat)
      (jobId : JobId)
  | requestBlocks (jobId : JobId) (kvRequestId : String) (keys : List OffloadKey)
      (blockIds : List Nat)
  | registerLookup (kvRequestId : String) (key : OffloadKey)
  | flushPendingLookups
  | serveExternalRequests
  | finishRequest (kvRequestId : String) (clock : Nat → Time)
  | poll
  | close
  /-- Time passes, messages and completions arrive, or the connection dies. -/
  | outside (world : ω)

namespace SessionRun

/-- The jobs that `add_stored_blocks` was called with. -/
def jobs (s : SessionRun ω) : List JobId := s.added ++ s.session.server.world.2

variable (parts : SessionParts ω)

/-- The session behind a call, whether it returned or raised. -/
def behind {α : Type} (s : SessionRun ω) (x : PyM (P2PSession (ω × List JobId)) α) :
    SessionRun ω :=
  { s with session := (x.run s.session).2 }

def call (s : SessionRun ω) : SessionCall ω → Except PyError (SessionRun ω)
  | .attachConnection => .ok (s.behind (P2PSession.attachConnection parts.recording))
  | .addStoredBlocks kvRequestId keys blockIds jobId =>
    .ok { s.behind (P2PSession.addStoredBlocks parts.recording kvRequestId keys blockIds jobId) with
      added := s.added ++ [jobId] }
  | .requestBlocks jobId kvRequestId keys blockIds =>
    .ok (s.behind (P2PSession.requestBlocks parts.recording jobId kvRequestId keys blockIds))
  | .registerLookup kvRequestId key =>
    .ok (s.behind (P2PSession.registerLookup parts.recording kvRequestId key))
  | .flushPendingLookups => .ok (s.behind (P2PSession.flushPendingLookups parts.recording))
  | .serveExternalRequests => .ok (s.behind (P2PSession.serveExternalRequests parts.recording))
  | .finishRequest kvRequestId clock =>
    .ok (s.behind (P2PSession.finishRequest parts.recording kvRequestId clock))
  | .poll =>
    match (P2PSession.poll parts.recording).run s.session with
    | (.ok result, session) => .ok { s with
        session := session
        reported := s.reported ++ result.stores.map StoreResult.jobId }
    | (.error e, _) => .error e
  | .close =>
    let (result, session) := s.session.close parts.recording
    .ok { s with
      session := session
      reported := s.reported ++ result.failedStores
      closed := true }
  | .outside world => .ok { s with
      session := s.session.setWorld (world, s.session.server.world.2) }

end SessionRun

/-- The runs of a session, from a new one to its close. The tiering manager gives no job
id twice. -/
def sessionRuns (parts : SessionParts ω) : TransitionSystem (SessionRun ω) (SessionCall ω) where
  init s := ∃ session : P2PSession (ω × List JobId), s = { session := session } ∧
    session.server = { world := (session.server.world.1, []), peerId := session.server.peerId }
  step s c s' := s.closed = false ∧ s.call parts c = .ok s' ∧ s'.jobs.Nodup

namespace SessionRun

variable {parts : SessionParts ω} {s s' : SessionRun ω}

theorem balanced_behind {α : Type} {x : PyM (P2PSession (ω × List JobId)) α}
    (hx : PyM.Keeps P2PSession.Balances x) (h : s.session.server.Balanced s.added s.reported) :
    (s.behind x).session.server.Balanced (s.behind x).added (s.behind x).reported :=
  hx s.session s.added s.reported h

theorem step_balanced {c : SessionCall ω} (step : (sessionRuns parts).step s c s')
    (h : s.session.server.Balanced s.added s.reported) (isOpen : s'.closed = false) :
    s'.session.server.Balanced s'.added s'.reported := by
  obtain ⟨-, hcall, -⟩ := step
  cases c with
  | attachConnection =>
    cases hcall
    exact balanced_behind (P2PSession.keeps_attachConnection parts) h
  | addStoredBlocks kvRequestId keys blockIds jobId =>
    cases hcall
    have new : ((s.added ++ [jobId]) ++ s.session.server.world.2).Perm
        (jobId :: (s.added ++ s.session.server.world.2)) := by
      rw [append_assoc]
      exact perm_middle
    have counted := ServerRole.addStoredBlocks_balanced parts.toServerParts kvRequestId keys
      blockIds jobId 0 false h rfl rfl new
    exact counted.congr (P2PSession.ledger_sendAll parts _ _)
  | requestBlocks jobId kvRequestId keys blockIds =>
    cases hcall
    exact balanced_behind (P2PSession.keeps_requestBlocks parts _ _ _ _) h
  | registerLookup kvRequestId key =>
    cases hcall
    exact balanced_behind (P2PSession.keeps_onClient parts _) h
  | flushPendingLookups =>
    cases hcall
    exact balanced_behind (P2PSession.keeps_onClient parts _) h
  | serveExternalRequests =>
    cases hcall
    exact balanced_behind (P2PSession.keeps_serveExternalRequests parts) h
  | finishRequest kvRequestId clock =>
    cases hcall
    exact balanced_behind (P2PSession.keeps_finishRequest parts _ _) h
  | poll =>
    simp only [call] at hcall
    split at hcall
    next result session hpoll =>
      cases hcall
      exact P2PSession.poll_reports parts hpoll s.added s.reported h
    next => cases hcall
  | close =>
    cases hcall
    cases isOpen
  | outside world =>
    cases hcall
    exact h.congr rfl

theorem reachable_balanced (reached : (sessionRuns parts).Reachable s)
    (isOpen : s.closed = false) : s.session.server.Balanced s.added s.reported := by
  refine reached.invariant
    (P := fun s => s.closed = false → s.session.server.Balanced s.added s.reported) ?_ ?_ isOpen
  · rintro s ⟨session, rfl, fresh⟩ - distinct j
    have jobs : session.server.owed j = 0 := by
      rw [fresh]
      rfl
    have recorded : session.server.world.2 = [] := by rw [fresh]
    simp [jobs, recorded]
  · intro s c s' _ h step isOpen
    exact step_balanced step (h step.1) isOpen

/-- No job is reported twice, and a close leaves no job without its report exactly when it
finds no deferred result. -/
theorem close_reports_iff (reached : (sessionRuns parts).Reachable s)
    (step : (sessionRuns parts).step s .close s') : (∀ j, s'.reported.count j ≤ 1) ∧
    ((∀ j ∈ s'.jobs, s'.reported.count j = 1) ↔ s.session.server.pendingStoreResults = []) := by
  obtain ⟨isOpen, hcall, distinct⟩ := step
  have balanced := reachable_balanced reached isOpen
  have closed : s' = { s with
      session := (s.session.close parts.recording).2
      reported := s.reported ++ (s.session.close parts.recording).1.failedStores
      closed := true } := (Except.ok.inj hcall).symm
  subst closed
  have recorded : (s.session.close parts.recording).2.server.world.2 = s.session.server.world.2 :=
    (congrArg (·.2.2) (P2PSession.ledger_close parts s.session)).trans
      (ServerRole.close_recorded parts.toServerParts)
  simp only [jobs, recorded] at distinct ⊢
  have counts : ∀ j, (s.reported ++ (s.session.close parts.recording).1.failedStores).count j +
      (s.session.server.pendingStoreResults.map StoreResult.jobId).count j =
        (s.added ++ s.session.server.world.2).count j := by
    intro j
    have owes := balanced distinct j
    have failed : (s.session.close parts.recording).1.failedStores.count j =
      if (s.session.server.storeJobs.get? j).isSome then 1 else 0 :=
      s.session.server.storeJobs.count_keys j
    unfold ServerRole.owed at owes
    rw [count_append, failed]
    omega
  have once := nodup_iff_count.mp distinct
  refine ⟨fun j => by have := counts j; have := once j; omega, ?_, ?_⟩
  · intro all
    by_contra deferred
    have ⟨result, hresult⟩ := exists_mem_of_ne_nil _ deferred
    have lost : 0 < (s.session.server.pendingStoreResults.map StoreResult.jobId).count
        result.jobId := count_pos_iff.mpr (mem_map_of_mem hresult)
    have total := counts result.jobId
    have known := all result.jobId (count_pos_iff.mp (by omega))
    have := once result.jobId
    omega
  · intro drained j known
    have total := counts j
    rw [drained, map_nil, count_nil, distinct.count, if_pos known] at total
    omega

end SessionRun

/-- A world that is scripted from outside: its clock, what arrives and what completes,
whether submissions succeed and whether sends raise. -/
structure ScriptedWorld where
  clock : Time := 0
  inbox : List Msg := []
  done : List TransferId := []
  failed : List TransferId := []
  nextTransfer : TransferId := 0
  refuses : Bool := false
  broken : Bool := false
  found : LookupResult := .hit
  nextJob : JobId := 100

def scriptedConnect : ConnectMsg := ⟨"peer", [], 0, 8, 1, "", ""⟩

def scriptedParts : SessionParts ScriptedWorld where
  monotonic w := (w.clock, w)
  writeBlocks w _ _ _ :=
    if w.refuses then (none, w)
    else (some w.nextTransfer, { w with nextTransfer := w.nextTransfer + 1 })
  poll w _ := (⟨w.done, w.failed⟩, { w with done := [], failed := [] })
  cancel w _ _ := ([], w)
  lookup w _ _ := (w.found, w)
  createStoreJob w keys _ :=
    (⟨w.nextJob, keys, List.range keys.length⟩, { w with nextJob := w.nextJob + 1 })
  onNewRequest w _ := w
  onRequestFinished w _ := w
  connAlive _ := true
  connRecv w := (w.inbox, { w with inbox := [] })
  connSend w _ := (if w.broken then .error (.runtime "") else .ok (), w)
  connClose w := w
  addRemotePeer w _ _ := (.ok (), w)
  localConnect _ := scriptedConnect

namespace SessionRun

def scriptedRun : SessionRun ScriptedWorld := { session := { server := { world := ({}, []) } } }

theorem scriptedRun_init : (sessionRuns scriptedParts).init scriptedRun := ⟨_, rfl, rfl⟩

/-- A stored block that no peer asks for, reported by the close. -/
theorem unfetched_reports : ∃ s s' : SessionRun ScriptedWorld, s'.jobs = [1] ∧
    (∀ j, s'.reported.count j ≤ 1) ∧
    ((∀ j ∈ s'.jobs, s'.reported.count j = 1) ↔ s.session.server.pendingStoreResults = []) := by
  have stored : (sessionRuns scriptedParts).Reachable _ :=
    .step (a := .addStoredBlocks "r" [[1]] [0] 1) (.init scriptedRun_init)
      ⟨rfl, rfl, by decide +kernel⟩
  have reports := close_reports_iff stored ⟨rfl, rfl, by decide +kernel⟩
  exact ⟨_, _, by decide +kernel, reports⟩

/-- The peer fetches one of two stored blocks, and the message that its transfer is done
breaks the connection: the result of the other job is deferred in the last poll, and the
close drops it. -/
theorem broken_loses : ¬∀ s s' : SessionRun ScriptedWorld,
    (sessionRuns scriptedParts).Reachable s → (sessionRuns scriptedParts).step s .close s' →
    ∀ j ∈ s'.jobs, s'.reported.count j = 1 := by
  intro all
  have attached : (sessionRuns scriptedParts).Reachable _ :=
    .step (a := .attachConnection) (.init scriptedRun_init) ⟨rfl, rfl, by decide +kernel⟩
  have first : (sessionRuns scriptedParts).Reachable _ :=
    .step (a := .addStoredBlocks "r" [[1]] [0] 1) attached ⟨rfl, rfl, by decide +kernel⟩
  have second : (sessionRuns scriptedParts).Reachable _ :=
    .step (a := .addStoredBlocks "r" [[2]] [1] 2) first ⟨rfl, rfl, by decide +kernel⟩
  have arrived : (sessionRuns scriptedParts).Reachable _ :=
    .step (a := .outside { inbox := [.connectAck "peer", .fetch "r" [[1]] [5] 0] }) second
      ⟨rfl, rfl, by decide +kernel⟩
  have fetched : (sessionRuns scriptedParts).Reachable _ :=
    .step (a := .poll) arrived ⟨rfl, rfl, by decide +kernel⟩
  have completed : (sessionRuns scriptedParts).Reachable _ :=
    .step (a := .outside { done := [0], broken := true }) fetched ⟨rfl, rfl, by decide +kernel⟩
  have polled : (sessionRuns scriptedParts).Reachable _ :=
    .step (a := .poll) completed ⟨rfl, rfl, by decide +kernel⟩
  have lost := all _ _ polled ⟨rfl, rfl, by decide +kernel⟩ 2
  exact absurd lost (by decide +kernel)

end SessionRun

end VllmAmpere.P2P
