import VllmAmpere.PeerSession

/-! What a server role owes its store jobs: a job it was given is in `_store_jobs` or has
one deferred result until a result is reported, and no call loses or repeats one. -/

open List

namespace VllmAmpere.P2P

variable {ω : Type}

/-- The parts, with the ids of the jobs the parent creates recorded. -/
def ServerParts.recording (parts : ServerParts ω) : ServerParts (ω × List JobId) where
  monotonic w := ((parts.monotonic w.1).1, (parts.monotonic w.1).2, w.2)
  writeBlocks w peerId localIdxs remoteIdxs :=
    let answer := parts.writeBlocks w.1 peerId localIdxs remoteIdxs
    (answer.1, answer.2, w.2)
  poll w peerId := ((parts.poll w.1 peerId).1, (parts.poll w.1 peerId).2, w.2)
  cancel w ids mode := ((parts.cancel w.1 ids mode).1, (parts.cancel w.1 ids mode).2, w.2)
  lookup w key ctx := ((parts.lookup w.1 key ctx).1, (parts.lookup w.1 key ctx).2, w.2)
  createStoreJob w keys ctx :=
    let answer := parts.createStoreJob w.1 keys ctx
    (answer.1, answer.2, w.2 ++ [answer.1.jobId])
  onNewRequest w ctx := (parts.onNewRequest w.1 ctx, w.2)
  onRequestFinished w ctx := (parts.onRequestFinished w.1 ctx, w.2)

def SessionParts.recording (parts : SessionParts ω) : SessionParts (ω × List JobId) where
  toServerParts := parts.toServerParts.recording
  connAlive w := parts.connAlive w.1
  connRecv w := ((parts.connRecv w.1).1, (parts.connRecv w.1).2, w.2)
  connSend w msg := ((parts.connSend w.1 msg).1, (parts.connSend w.1 msg).2, w.2)
  connClose w := (parts.connClose w.1, w.2)
  addRemotePeer w peerId msg :=
    let answer := parts.addRemotePeer w.1 peerId msg
    (answer.1, answer.2, w.2)
  localConnect w := parts.localConnect w.1

namespace ServerRole

variable {s s' : ServerRole (ω × List JobId)}

def ledger (s : ServerRole (ω × List JobId)) : PyDict JobId Time × List StoreResult × List JobId :=
  (s.storeJobs, s.pendingStoreResults, s.world.2)

def owed (s : ServerRole (ω × List JobId)) (j : JobId) : Nat :=
  (if (s.storeJobs.get? j).isSome then 1 else 0) +
    (s.pendingStoreResults.map StoreResult.jobId).count j

/-- Each job that was added or recorded has as many results, owed and reported, as it was
added; `added` and `reported` are counted outside the role. -/
def Balanced (added reported : List JobId) (s : ServerRole (ω × List JobId)) : Prop :=
  (added ++ s.world.2).Nodup →
    ∀ j, s.owed j + reported.count j = (added ++ s.world.2).count j

theorem Balanced.congr {added reported : List JobId} (h : s.Balanced added reported)
    (same : s'.ledger = s.ledger) : s'.Balanced added reported := by
  simp only [ledger, Prod.mk.injEq] at same
  obtain ⟨jobs, deferred, recorded⟩ := same
  intro distinct j
  rw [recorded] at distinct ⊢
  rw [owed, jobs, deferred]
  exact h distinct j

/-- A call with results keeps the balance when these count as reported. -/
def Reports (s : ServerRole (ω × List JobId)) (results : List StoreResult)
    (s' : ServerRole (ω × List JobId)) : Prop :=
  ∀ added reported, s.Balanced added reported →
    s'.Balanced added (reported ++ results.map StoreResult.jobId)

def Balances (s s' : ServerRole (ω × List JobId)) : Prop :=
  ∀ added reported, s.Balanced added reported → s'.Balanced added reported

instance : IsRefl (ServerRole (ω × List JobId)) Balances := ⟨fun _ _ _ h => h⟩

instance : IsTrans (ServerRole (ω × List JobId)) Balances :=
  ⟨fun _ _ _ first second added reported h => second added reported (first added reported h)⟩

theorem Balances.of_ledger (same : s'.ledger = s.ledger) : s.Balances s' :=
  fun _ _ h => h.congr same

theorem Reports.of_balances (h : s.Balances s') : s.Reports [] s' := by
  intro added reported balanced
  rw [map_nil, append_nil]
  exact h added reported balanced

variable {results : List StoreResult}

theorem Balances.reports {s₁ s₂ : ServerRole (ω × List JobId)}
    (first : s.Balances s₁) (second : s₁.Reports results s₂) : s.Reports results s₂ :=
  fun added reported h => second added reported (first added reported h)

theorem Reports.balances {s₁ s₂ : ServerRole (ω × List JobId)}
    (first : s.Reports results s₁) (second : s₁.Balances s₂) : s.Reports results s₂ :=
  fun added reported h => second added _ (first added reported h)

theorem Reports.append {s₁ s₂ : ServerRole (ω × List JobId)} {first second : List StoreResult}
    (hfirst : s.Reports first s₁) (hsecond : s₁.Reports second s₂) :
    s.Reports (first ++ second) s₂ := by
  intro added reported h
  rw [map_append, ← append_assoc]
  exact hsecond added _ (hfirst added reported h)

section frames

@[simp] theorem ledger_dropRound (kvRequestId : String) (st : ServerRequestState)
    (roundKey : Nat) : (s.dropRound kvRequestId st roundKey).ledger = s.ledger := rfl

@[simp] theorem ledger_discardTid (tid : TransferId) (kvRequestId : String) :
    (s.discardTid tid kvRequestId).ledger = s.ledger := by
  unfold discardTid
  split <;> rfl

@[simp] theorem ledger_maybePrune (kvRequestId : String) :
    (s.maybePrune kvRequestId).ledger = s.ledger := by
  unfold maybePrune
  split
  · split <;> rfl
  · rfl

@[simp] theorem ledger_getOrCreateRound (kvRequestId : String) (roundKey : Nat) :
    (s.getOrCreateRound kvRequestId roundKey).2.ledger = s.ledger := by
  unfold getOrCreateRound
  split <;> rfl

@[simp] theorem ledger_finalizeAbort (kvRequestId : String) (roundSeq : Nat) :
    (s.finalizeAbort kvRequestId roundSeq).ledger = s.ledger := by
  unfold finalizeAbort
  simp only [ledger_maybePrune]
  rfl

@[simp] theorem ledger_finishInboundLookups (kvRequestId : String) :
    (s.finishInboundLookups kvRequestId).ledger = s.ledger := by
  unfold finishInboundLookups
  split
  · rfl
  · simp only [ledger_maybePrune]
    rfl

@[simp] theorem ledger_now (parts : ServerParts ω) :
    (s.now parts.recording).2.ledger = s.ledger := rfl

@[simp] theorem ledger_cancel (parts : ServerParts ω) (ids : List TransferId)
    (mode : CancelMode) : (s.cancel parts.recording ids mode).2.ledger = s.ledger := rfl

theorem keeps_inflightPop (tid : TransferId) : PyM.Keeps (Balances (ω := ω)) (inflightPop tid) := by
  intro s
  unfold inflightPop
  rw [PyM.run_get_bind]
  cases s.inflight.get? tid with
  | none => exact refl s
  | some xfer =>
    dsimp only
    rw [PyM.run_set_bind]
    unfold pyAssert
    split
    · exact .of_ledger (ledger_discardTid tid xfer.kvRequestId)
    · exact .of_ledger rfl

theorem keeps_popTransfer (tid : TransferId) : PyM.Keeps (Balances (ω := ω)) (popTransfer tid) :=
  (keeps_inflightPop tid).bind fun _ => PyM.keeps_pure _

end frames

theorem settle_reports (success : Bool) (jobIds : List JobId) (s : ServerRole (ω × List JobId)) :
    s.Reports (settle success jobIds s).1 (settle success jobIds s).2 := by
  induction jobIds generalizing s with
  | nil => exact .of_balances (refl s)
  | cons jobId rest ih =>
    unfold settle
    split
    next => exact ih s
    next submittedAt found =>
      intro added reported h
      have popped : Balanced added (reported ++ [jobId])
          { s with storeJobs := s.storeJobs.pop jobId } := by
        intro distinct j
        have before := h distinct j
        simp only [owed, PyDict.get?_pop, count_append, count_singleton] at before ⊢
        by_cases hj : j = jobId
        · subst hj
          simp [found] at before ⊢
          omega
        · simp [hj, Ne.symm hj] at before ⊢
          exact before
      have settled := ih _ added _ popped
      rwa [append_assoc] at settled

theorem settleXferJobs_reports (xfer : InflightXfer) (success : Bool)
    (s : ServerRole (ω × List JobId)) :
    s.Reports (s.settleXferJobs xfer success).1 (s.settleXferJobs xfer success).2 :=
  (settle_reports success xfer.jobIds s).balances (.of_ledger rfl)

theorem settleRoundJobs_reports (round : RoundId) (success : Bool)
    (s : ServerRole (ω × List JobId)) :
    s.Reports (s.settleRoundJobs round success).1 (s.settleRoundJobs round success).2 :=
  (settle_reports success _ s).balances (.of_ledger rfl)

theorem deferRoundJobs_balances (round : RoundId) (success : Bool)
    (s : ServerRole (ω × List JobId)) : s.Balances (s.deferRoundJobs round success) := by
  intro added reported h distinct j
  have settled := settleRoundJobs_reports round success s added reported h distinct j
  unfold deferRoundJobs
  simp only [owed, map_append, count_append] at settled ⊢
  omega

theorem closeRound_balances (kvRequestId : String) (roundKey : Nat) (st : ServerRequestState)
    (round : RoundId) (success sendDone : Bool) (s : ServerRole (ω × List JobId)) :
    s.Balances (s.closeRound kvRequestId roundKey st round success sendDone) := by
  have deferred := deferRoundJobs_balances round success (s.dropRound kvRequestId st roundKey)
  unfold closeRound
  refine IsTrans.trans s _ _ (.of_ledger (ledger_dropRound kvRequestId st roundKey))
    (IsTrans.trans _ _ _ deferred (.of_ledger ?_))
  rw [ledger_maybePrune]
  split <;> rfl

theorem keeps_finalizeOutbound (kvRequestId : String) (roundKey : Nat) (success : Option Bool)
    (sendDone : Bool) :
    PyM.Keeps (Balances (ω := ω)) (finalizeOutbound kvRequestId roundKey success sendDone) := by
  intro s
  unfold finalizeOutbound
  rw [PyM.run_get_bind]
  cases s.requests.getItem kvRequestId with
  | error e => exact refl s
  | ok st =>
    rw [PyM.run_lift_ok_bind]
    cases st.outbound.getItem roundKey with
    | error e => exact refl s
    | ok round => exact closeRound_balances kvRequestId roundKey st round _ sendDone s

theorem keeps_rejectTransfer (kvRequestId : String) (round : RoundId) (roundKey : Nat) :
    PyM.Keeps (Balances (ω := ω)) (rejectTransfer kvRequestId round roundKey) := by
  refine PyM.Keeps.bind (fun s => .of_ledger rfl) fun _ s => ?_
  rw [PyM.run_get_bind]
  split
  · exact keeps_finalizeOutbound kvRequestId roundKey (some false) true s
  · exact refl s

theorem keeps_submitTransfer (parts : ServerParts ω) (kvRequestId : String)
    (result : MatchResult) (round : RoundId) (roundKey : Nat) : PyM.Keeps Balances
    (submitTransfer parts.recording kvRequestId result round roundKey) := by
  intro s
  unfold submitTransfer
  rw [PyM.run_get_bind]
  dsimp only
  refine PyM.keeps_behind (.of_ledger rfl) fun _ => ?_
  split
  · exact fun s => .of_ledger rfl
  · exact keeps_rejectTransfer kvRequestId round roundKey

theorem keeps_submitMatched (parts : ServerParts ω) (kvRequestId : String)
    (result : MatchResult) (round : RoundId) (roundKey : Nat) : PyM.Keeps Balances
    (submitMatched parts.recording kvRequestId result round roundKey) := by
  unfold submitMatched
  split
  · exact keeps_submitTransfer parts kvRequestId result round roundKey
  · exact PyM.keeps_pure ()

theorem keeps_finalizeFinishing (kvRequestId : String) (round : RoundId) (roundKey : Nat) :
    PyM.Keeps (Balances (ω := ω)) (finalizeFinishing kvRequestId round roundKey) := by
  intro s
  unfold finalizeFinishing
  rw [PyM.run_get_bind]
  split
  · exact keeps_finalizeOutbound kvRequestId roundKey none true s
  · exact refl s

theorem Balanced.add {added reported recorded : List JobId} {t : Time}
    (h : s.Balanced added reported) (jobId : JobId)
    (storeJobs : s'.storeJobs = s.storeJobs.set jobId t)
    (deferred : s'.pendingStoreResults = s.pendingStoreResults)
    (new : (recorded ++ s'.world.2).Perm (jobId :: (added ++ s.world.2))) :
    s'.Balanced recorded reported := by
  intro distinct j
  have fresh := nodup_cons.mp (new.nodup_iff.mp distinct)
  have before := h fresh.2 j
  rw [new.count_eq, count_cons]
  simp only [owed, storeJobs, deferred, PyDict.get?_set] at before ⊢
  by_cases hj : j = jobId
  · subst hj
    rw [count_eq_zero_of_not_mem fresh.1] at before
    rw [count_eq_zero_of_not_mem fresh.1]
    simp
    omega
  · simp [hj, Ne.symm hj] at before ⊢
    exact before

theorem addStoredBlocks_balanced (parts : ServerParts ω) (kvRequestId : String)
    (keys : List OffloadKey) (blockIds : List Nat) (jobId : JobId) (roundSeq : Nat)
    (fromLookup : Bool) {base : ServerRole (ω × List JobId)} {added recorded reported : List JobId}
    (h : base.Balanced added reported) (storeJobs : s.storeJobs = base.storeJobs)
    (deferred : s.pendingStoreResults = base.pendingStoreResults)
    (new : (recorded ++ s.world.2).Perm (jobId :: (added ++ base.world.2))) :
    ((addStoredBlocks parts.recording kvRequestId keys blockIds jobId roundSeq fromLookup).run
    s).2.Balanced recorded reported := by
  unfold addStoredBlocks
  rw [PyM.run_update_bind, PyM.run_get_bind]
  dsimp only
  rw [PyM.run_set_bind]
  have counted : Balanced recorded reported { (s.now parts.recording).2 with
      storeJobs := s.storeJobs.set jobId (s.now parts.recording).1 } :=
    h.add jobId (by rw [storeJobs]) deferred new
  split
  · refine keeps_submitMatched parts kvRequestId _ _ roundSeq _ recorded reported ?_
    exact counted.congr (ledger_getOrCreateRound kvRequestId roundSeq)
  · exact counted.congr (ledger_getOrCreateRound kvRequestId roundSeq)

theorem keeps_onFetch (parts : ServerParts ω) (kvRequestId : String) (keys : List OffloadKey)
    (blockIndexes : List Nat) (roundSeq : Nat) :
    PyM.Keeps Balances (onFetch parts.recording kvRequestId keys blockIndexes roundSeq) := by
  intro s
  unfold onFetch
  rw [PyM.run_get_bind]
  split
  · exact refl s
  dsimp only
  split
  · refine PyM.keeps_behind (.of_ledger ?_) fun _ =>
      PyM.keeps_forEach (fun key => keeps_finalizeOutbound kvRequestId key none false) _
    rw [PyM.run_set, ledger_finishInboundLookups]
    exact ledger_getOrCreateRound kvRequestId roundSeq
  · refine PyM.keeps_behind (.of_ledger (ledger_getOrCreateRound kvRequestId roundSeq)) fun _ => ?_
    split
    · exact keeps_finalizeOutbound kvRequestId roundSeq (some false) true
    · exact (keeps_submitMatched parts kvRequestId _ _ roundSeq).bind fun _ =>
        keeps_finalizeFinishing kvRequestId _ roundSeq

theorem keeps_finalizeAbort (kvRequestId : String) (roundSeq : Nat) :
    PyM.Keeps (Balances (ω := ω)) (PyM.modify (finalizeAbort kvRequestId roundSeq)) :=
  fun _ => .of_ledger (ledger_finalizeAbort kvRequestId roundSeq)

theorem detachRound_balances (kvRequestId : String) (roundSeq : Nat) (st : ServerRequestState)
    (s : ServerRole (ω × List JobId)) : s.Balances (s.detachRound kvRequestId roundSeq st) := by
  unfold detachRound
  split
  next round _ => exact deferRoundJobs_balances round false (s.dropRound kvRequestId st roundSeq)
  next => exact refl s

theorem keeps_cancelAborted (parts : ServerParts ω) (kvRequestId : String) (roundSeq : Nat)
    (ids : List TransferId) :
    PyM.Keeps Balances (cancelAborted parts.recording kvRequestId roundSeq ids) := by
  intro s
  unfold cancelAborted
  rw [PyM.run_get_bind]
  refine PyM.keeps_behind (refl s) fun startedAt =>
    PyM.Keeps.bind (fun s => .of_ledger (ledger_now parts)) fun t => ?_
  split
  · exact (PyM.keeps_forEach keeps_popTransfer ids).bind fun _ =>
      PyM.Keeps.bind (fun s => .of_ledger (ledger_cancel parts ids .immediate)) fun _ =>
        keeps_finalizeAbort kvRequestId roundSeq
  · refine PyM.Keeps.bind (fun s => .of_ledger (ledger_cancel parts ids .wait)) fun still =>
      (PyM.keeps_forEach keeps_popTransfer _).bind fun _ => ?_
    split
    · exact keeps_finalizeAbort kvRequestId roundSeq
    · exact PyM.keeps_pure _

theorem keeps_drainAbort (parts : ServerParts ω) (kvRequestId : String) (roundSeq : Nat) :
    PyM.Keeps Balances (drainAbort parts.recording kvRequestId roundSeq) := by
  intro s
  unfold drainAbort
  rw [PyM.run_get_bind]
  refine PyM.keeps_behind (refl s) fun st =>
    PyM.Keeps.bind (detachRound_balances kvRequestId roundSeq st) fun _ s => ?_
  rw [PyM.run_get_bind]
  dsimp only
  split
  · exact keeps_finalizeAbort kvRequestId roundSeq s
  · exact keeps_cancelAborted parts kvRequestId roundSeq _ s

theorem keeps_onAbortFetch (parts : ServerParts ω) (kvRequestId : String) (roundSeq : Nat) :
    PyM.Keeps Balances (onAbortFetch parts.recording kvRequestId roundSeq) := by
  refine PyM.Keeps.bind (fun s => .of_ledger (ledger_now parts)) fun startedAt s => ?_
  rw [PyM.run_get_bind]
  refine PyM.keeps_behind (.of_ledger ?_) fun _ => keeps_drainAbort parts kvRequestId roundSeq
  rw [PyM.run_set]
  split <;> rfl

theorem keeps_drainPendingAborts (parts : ServerParts ω) :
    PyM.Keeps Balances (drainPendingAborts parts.recording) := by
  intro s
  unfold drainPendingAborts
  rw [PyM.run_get_bind]
  exact PyM.keeps_forEach (fun _ => keeps_drainAbort parts _ _) _ s

theorem keeps_onLookup (parts : ServerParts ω) (kvRequestId : String) (keys : List OffloadKey)
    (roundSeq : Nat) : PyM.Keeps Balances (onLookup parts.recording kvRequestId keys roundSeq) :=
  PyM.Keeps.bind (fun _ => .of_ledger (ledger_now parts)) fun _ _ => .of_ledger rfl

theorem keeps_finish (kvRequestId : String) :
    PyM.Keeps (Balances (ω := ω)) (finish kvRequestId) := by
  intro s
  unfold finish
  rw [PyM.run_get_bind]
  dsimp only
  refine PyM.keeps_behind (.of_ledger (ledger_finishInboundLookups kvRequestId)) fun _ => ?_
  split
  · exact PyM.keeps_pure _
  · refine PyM.keeps_forEach (fun item s => ?_) _
    unfold finishRound
    rw [PyM.run_get_bind]
    dsimp only
    refine PyM.keeps_behind (.of_ledger rfl) fun _ => ?_
    split
    · exact PyM.keeps_pure _
    · exact keeps_finalizeOutbound kvRequestId item.1 none true

theorem ledger_pollKeys (parts : ServerParts ω) (keys : List OffloadKey)
    (lookup : ActiveLookup) (s : ServerRole (ω × List JobId)) :
    (s.pollKeys parts.recording keys lookup).2.ledger = s.ledger := by
  induction keys generalizing lookup s with
  | nil => rfl
  | cons key rest ih =>
    unfold pollKeys
    split
    · exact ih lookup s
    dsimp only
    split
    all_goals exact ih _ _

theorem keeps_pinAndRegisterHits (parts : ServerParts ω) (lookup : ActiveLookup)
    (keys : List OffloadKey) :
    PyM.Keeps Balances (pinAndRegisterHits parts.recording lookup keys) := by
  intro s added reported h
  unfold pinAndRegisterHits
  rw [PyM.run_update_bind]
  refine addStoredBlocks_balanced parts _ _ _ _ _ _ h rfl rfl ?_
  exact (append_assoc added s.world.2 _ ▸ perm_append_singleton _ _ :)

theorem keeps_pollLookupKeys (parts : ServerParts ω) (lookup : ActiveLookup)
    (keys : List OffloadKey) : PyM.Keeps Balances (pollLookupKeys parts.recording lookup keys) := by
  refine PyM.Keeps.bind (fun s => .of_ledger (ledger_pollKeys parts keys lookup s)) fun polled => ?_
  dsimp only
  split
  · exact (keeps_pinAndRegisterHits parts _ _).bind fun _ => PyM.keeps_pure _
  · exact PyM.keeps_pure _

theorem keeps_finalizeLookup (parts : ServerParts ω) (lookup : ActiveLookup) :
    PyM.Keeps Balances (finalizeLookup parts.recording lookup) := by
  have finished : PyM.Keeps Balances
      (PyM.modify (parentRequestFinished parts.recording lookup.ctx)) := fun s => .of_ledger rfl
  unfold finalizeLookup
  dsimp only
  split
  · exact (PyM.keeps_lift _).bind fun hits =>
      PyM.Keeps.bind (fun s => .of_ledger rfl) fun _ => finished
  · exact finished

theorem keeps_processInboundLookup (parts : ServerParts ω) (kvRequestId : String)
    (pl : PendingLookup) :
    PyM.Keeps Balances (processInboundLookup parts.recording kvRequestId pl) := by
  intro s
  unfold processInboundLookup
  rw [PyM.run_get_bind]
  dsimp only
  refine PyM.keeps_behind (.of_ledger rfl) fun _ =>
    (keeps_pollLookupKeys parts _ _).bind fun lookup => ?_
  split
  · exact fun s => .of_ledger rfl
  · exact keeps_finalizeLookup parts lookup

theorem keeps_resolveLookup (parts : ServerParts ω) (kvRequestId : String) (t : Time)
    (item : Nat × ActiveLookup) :
    PyM.Keeps Balances (resolveLookup parts.recording kvRequestId t item) :=
  (keeps_pollLookupKeys parts _ _).bind fun _ _ => .of_ledger rfl

theorem keeps_popLookup (parts : ServerParts ω) (kvRequestId : String) (lookupId : Nat) :
    PyM.Keeps Balances (popLookup parts.recording kvRequestId lookupId) := by
  intro s
  unfold popLookup
  rw [PyM.run_get_bind]
  dsimp only
  cases (s.request kvRequestId).lookups.getItem lookupId with
  | error e => exact refl s
  | ok lookup =>
    rw [PyM.run_lift_ok_bind]
    exact PyM.keeps_behind (.of_ledger rfl) fun _ => keeps_finalizeLookup parts lookup

theorem keeps_resolvePendingLookups (parts : ServerParts ω) (kvRequestId : String) :
    PyM.Keeps Balances (resolvePendingLookups parts.recording kvRequestId) := by
  intro s
  unfold resolvePendingLookups
  rw [PyM.run_get_bind]
  split
  · exact refl s
  split
  · exact refl s
  · exact PyM.keeps_behind (.of_ledger (ledger_now parts)) (fun t =>
      (PyM.keeps_collect (keeps_resolveLookup parts kvRequestId t) _).bind fun finished =>
        PyM.keeps_forEach (keeps_popLookup parts kvRequestId) finished)

theorem keeps_serveRequest (parts : ServerParts ω) (kvRequestId : String) :
    PyM.Keeps Balances (serveRequest parts.recording kvRequestId) := by
  intro s
  unfold serveRequest
  rw [PyM.run_get_bind]
  split
  · exact .of_ledger rfl
  · refine PyM.keeps_behind (.of_ledger rfl) fun _ =>
      (PyM.keeps_forEach (keeps_processInboundLookup parts kvRequestId) _).bind fun _ =>
        (keeps_resolvePendingLookups parts kvRequestId).bind fun _ s => ?_
    rw [PyM.run_get_bind]
    dsimp only
    split
    · exact .of_ledger (ledger_maybePrune kvRequestId)
    · exact refl s

theorem ledger_releaseFinished (parts : ServerParts ω) (s : ServerRole (ω × List JobId)) :
    (s.releaseFinished parts.recording).ledger = s.ledger := by
  have kept : ∀ (ctxs : List ReqContext) (s : ServerRole (ω × List JobId)),
      (ctxs.foldl (fun s ctx => s.parentRequestFinished parts.recording ctx) s).ledger =
        s.ledger := by
    intro ctxs
    induction ctxs with
    | nil => exact fun s => rfl
    | cons ctx rest ih => exact fun s => ih _
  exact kept s.finishedLookupCtxs s

theorem keeps_serveExternalRequests (parts : ServerParts ω) :
    PyM.Keeps Balances (serveExternalRequests parts.recording) := by
  intro s
  unfold serveExternalRequests
  rw [PyM.run_get_bind]
  exact PyM.keeps_behind (PyM.keeps_forEach (keeps_serveRequest parts) _ s) fun _ s =>
    .of_ledger (ledger_releaseFinished parts s)

theorem timeoutPendingStoreJobs_reports (parts : ServerParts ω) (s : ServerRole (ω × List JobId)) :
    s.Reports (s.timeoutPendingStoreJobs parts.recording).1
    (s.timeoutPendingStoreJobs parts.recording).2 := by
  unfold timeoutPendingStoreJobs
  split
  · exact .of_balances (refl s)
  · exact Balances.reports (.of_ledger (ledger_now parts)) (settle_reports false _ _)

theorem drainDeferred_reports (s : ServerRole (ω × List JobId)) :
    s.Reports s.drainDeferred.1 s.drainDeferred.2 := by
  intro added reported h distinct j
  have before : s.owed j + reported.count j = (added ++ s.world.2).count j := h distinct j
  have after : s.drainDeferred.2.owed j = if (s.storeJobs.get? j).isSome then 1 else 0 := rfl
  rw [after, count_append]
  unfold owed at before
  change _ + (_ + (s.pendingStoreResults.map StoreResult.jobId).count j) =
    (added ++ s.world.2).count j
  omega

theorem keeps_countDone (xfer : InflightXfer) : PyM.Keeps (Balances (ω := ω)) (countDone xfer) := by
  intro s
  unfold countDone
  rw [PyM.run_get_bind]
  split
  · refine PyM.keeps_behind (.of_ledger rfl) fun _ => (PyM.keeps_lift _).bind fun _ => ?_
    split
    · exact keeps_finalizeOutbound xfer.kvRequestId xfer.roundKey (some true) true
    split
    · exact keeps_finalizeOutbound xfer.kvRequestId xfer.roundKey (some false) true
    · exact PyM.keeps_pure _
  · exact refl s

theorem ledger_dropFailed (xfer : InflightXfer) (s : ServerRole (ω × List JobId)) :
    (s.dropFailed xfer).2.ledger = s.ledger := by
  unfold dropFailed
  split <;> rfl

theorem collectDone_reports {tid : TransferId}
    (h : (collectDone tid).run s = (.ok results, s')) : s.Reports results s' := by
  obtain ⟨popped, s₁, hpop, h⟩ := PyM.bind_ok.mp h
  have kept : s.Balances s₁ := (keeps_inflightPop tid).of_run hpop
  cases popped with
  | none =>
    cases h
    exact .of_balances kept
  | some xfer =>
    rw [PyM.run_update_bind] at h
    obtain ⟨_, s₂, hcount, h⟩ := PyM.bind_ok.mp h
    have counted : Balances (s₁.settleXferJobs xfer true).2 s₂ :=
      (keeps_countDone xfer).of_run hcount
    cases h
    exact kept.reports ((settleXferJobs_reports xfer true s₁).balances
      (IsTrans.trans _ s₂ _ counted (.of_ledger (ledger_maybePrune xfer.kvRequestId))))

theorem collectFailed_reports {tids : List TransferId} {failed : List (String × RoundId)}
    (h : (collectFailed tids).run s = (.ok (results, failed), s')) : s.Reports results s' := by
  induction tids generalizing s results failed with
  | nil =>
    cases h
    exact .of_balances (refl _)
  | cons tid rest ih =>
    obtain ⟨popped, s₁, hpop, h⟩ := PyM.bind_ok.mp h
    have kept : s.Balances s₁ := (keeps_inflightPop tid).of_run hpop
    cases popped with
    | none => exact kept.reports (ih h)
    | some xfer =>
      simp only [PyM.run_update_bind, PyM.run_modify_bind] at h
      obtain ⟨others, s₂, hothers, h⟩ := PyM.bind_ok.mp h
      cases h
      refine kept.reports ((settleXferJobs_reports xfer false s₁).append ?_)
      refine Balances.reports (.of_ledger ?_) (ih hothers)
      rw [ledger_maybePrune, ledger_dropFailed]

theorem failRound_reports (parts : ServerParts ω) {item : String × RoundId}
    (h : (failRound parts.recording item).run s = (.ok results, s')) : s.Reports results s' := by
  unfold failRound at h
  rw [PyM.run_get_bind] at h
  obtain ⟨_, s₁, hpops, h⟩ := PyM.bind_ok.mp h
  have kept : s.Balances s₁ := (PyM.keeps_forEach keeps_popTransfer _).of_run hpops
  refine kept.reports ?_
  split at h
  · cases h
    exact Balances.reports (.of_ledger (ledger_cancel parts _ .immediate))
      ((settleRoundJobs_reports item.2 false _).balances (.of_ledger (ledger_maybePrune item.1)))
  · cases h
    exact (settleRoundJobs_reports item.2 false s₁).balances (.of_ledger (ledger_maybePrune item.1))

theorem collect_reports {α : Type} {f : α → PyM (ServerRole (ω × List JobId)) (List StoreResult)}
    (each : ∀ a s results s', (f a).run s = (.ok results, s') → Reports s results s') {xs : List α}
    (h : (PyM.collect f xs).run s = (.ok results, s')) : s.Reports results s' := by
  induction xs generalizing s results with
  | nil =>
    cases h
    exact .of_balances (refl _)
  | cons x rest ih =>
    obtain ⟨found, s₁, hfound, h⟩ := PyM.bind_ok.mp h
    obtain ⟨others, s₂, hothers, h⟩ := PyM.bind_ok.mp h
    cases h
    exact (each x s found s₁ hfound).append (ih hothers)

theorem collectResults_reports (parts : ServerParts ω)
    (h : (collectResults parts.recording).run s = (.ok results, s')) : s.Reports results s' := by
  unfold collectResults at h
  simp only [PyM.run_update_bind] at h
  obtain ⟨done, s₁, hdone, h⟩ := PyM.bind_ok.mp h
  obtain ⟨⟨failed, failedRounds⟩, s₂, hfailed, h⟩ := PyM.bind_ok.mp h
  obtain ⟨cancelled, s₃, hcancelled, h⟩ := PyM.bind_ok.mp h
  cases h
  have swept := (timeoutPendingStoreJobs_reports parts s).append (drainDeferred_reports _)
  refine ((swept.append ?_).append (collectFailed_reports hfailed)).append
    (collect_reports (fun _ _ _ _ => failRound_reports parts) hcancelled)
  have polled : ∀ s : ServerRole (ω × List JobId), s.Balances (s.pollTransport parts.recording).2 :=
    fun _ => .of_ledger rfl
  exact (polled _).reports (collect_reports (fun _ _ _ _ => collectDone_reports) hdone)

theorem close_recorded (parts : ServerParts ω) :
    (s.close parts.recording).2.world.2 = s.world.2 := by
  unfold close
  dsimp only
  split <;> rfl

end ServerRole

end VllmAmpere.P2P
