import VllmAmpere.EnginePlacement

/-! Priority scheduling. Between the calls of the engine both waiting queues are heaps,
unless a session that is queued gets a key that does not fit where it is. -/

open List

namespace VllmAmpere.Sched

/-- The waiting queues and the order of the requests are the same. -/
structure SameQueues {ω : Type} (s s' : Scheduler ω) : Prop where
  waiting : s'.waiting = s.waiting
  kvHoldingWaiting : s'.kvHoldingWaiting = s.kvHoldingWaiting
  orderKey : s'.orderKey = s.orderKey

variable {ω : Type} {cfg : SchedulerConfig} {parts : Components ω} {s s' : Scheduler ω}
  {lost : List String} {id : String}

theorem SameQueues.trans {s s' s'' : Scheduler ω} (h : SameQueues s s')
    (h' : SameQueues s' s'') : SameQueues s s'' where
  waiting := h'.waiting.trans h.waiting
  kvHoldingWaiting := h'.kvHoldingWaiting.trans h.kvHoldingWaiting
  orderKey := h'.orderKey.trans h.orderKey

theorem Still.sameQueues {s s' : Scheduler ω} (h : Still s s') : SameQueues s s' :=
  ⟨h.waiting, h.kvHoldingWaiting, h.orderKey⟩

/-- Both waiting queues are heaps. -/
structure Heaps {ω : Type} (s : Scheduler ω) : Prop where
  waiting : s.waiting.Heap s.orderKey
  kvHolding : s.kvHoldingWaiting.Heap s.orderKey

theorem Heaps.same {s s' : Scheduler ω} (h : Heaps s) (same : SameQueues s s') : Heaps s' := by
  constructor
  · rw [same.waiting, same.orderKey]
    exact h.waiting
  · rw [same.kvHoldingWaiting, same.orderKey]
    exact h.kvHolding

namespace Scheduler

theorem setRequest_orderKey_of_ne {i : String} (hi : i ≠ id) (r : Request) :
    (s.setRequest id r).orderKey i = s.orderKey i := by
  simp [setRequest, orderKey, hi]

theorem setRequest_heaps (h : Heaps s) (waiting : id ∉ s.waiting.items)
    (kvHolding : id ∉ s.kvHoldingWaiting.items) (r : Request) : Heaps (s.setRequest id r) := by
  constructor
  · exact h.waiting.congr fun i hi =>
      setRequest_orderKey_of_ne (ne_of_mem_of_not_mem hi waiting) r
  · exact h.kvHolding.congr fun i hi =>
      setRequest_orderKey_of_ne (ne_of_mem_of_not_mem hi kvHolding) r

theorem setRequest_sameQueues {r : Request} (orderKey : r.orderKey = (s.request id).orderKey) :
    SameQueues s (s.setRequest id r) :=
  ⟨rfl, rfl, setRequest_orderKey orderKey⟩

theorem enqueueWaitingRequest_heaps (h : Heaps s) (id : String) :
    Heaps (s.enqueueWaitingRequest id) := by
  unfold enqueueWaitingRequest
  dsimp only
  split <;> split
  · exact ⟨h.waiting, h.kvHolding.addRequest id⟩
  · exact ⟨h.waiting.addRequest id, h.kvHolding⟩
  · exact ⟨h.waiting, h.kvHolding.addRequest id⟩
  · exact ⟨h.waiting.addRequest id, h.kvHolding⟩

theorem preempted_heaps (h : Heaps s) (running : List String) (id : String)
    (dropStaleOutput : Bool) :
    Heaps (({ s with running := running } : Scheduler ω).preempted id dropStaleOutput) := by
  have same : (({ s with running := running } : Scheduler ω).preempted id
      dropStaleOutput).orderKey = s.orderKey := setRequest_orderKey rfl
  constructor
  · rw [preempted_waiting, same]
    exact h.waiting.prependRequest id
  · rw [same]
    exact h.kvHolding

theorem removeWaiting_heaps (waiting : s.waiting.policy = .priority)
    (kvHolding : s.kvHoldingWaiting.policy = .priority) {ids : List String}
    (h : ids = [] → Heaps s) : Heaps (s.removeWaiting ids) := by
  unfold removeWaiting
  split
  · rename_i hnil
    exact h hnil
  · exact ⟨RequestQueue.heap_removeRequests waiting ids,
      RequestQueue.heap_removeRequests kvHolding ids⟩

end Scheduler

namespace Step

variable {st st' : Step ω}

theorem withQueue_heaps (h : Heaps st.sched) {fromKv : Bool} {queue : RequestQueue String}
    (hpop : (st.queueOf fromKv).popRequest st.sched.orderKey = .ok (id, queue)) :
    Heaps (st.withQueue fromKv queue).sched := by
  unfold queueOf at hpop
  unfold withQueue
  cases fromKv with
  | true => exact ⟨h.waiting, h.kvHolding.popRequest hpop⟩
  | false => exact ⟨h.waiting.popRequest hpop, h.kvHolding⟩

theorem Preempts.heaps {victim : String} {s : Scheduler ω} (hs : Preempts cfg parts st victim s)
    (h : Heaps st.sched) : Heaps s :=
  (Scheduler.preempted_heaps h _ victim _).same (Still.of_core hs.core.2).sameQueues

theorem PrepareMove.heaps (move : PrepareMove cfg parts st st') (h : Heaps st.sched) :
    Heaps st'.sched := by
  cases move with
  | quiet s hs => exact h.same (Still.of_core hs).sameQueues
  | unblock id ready s _ hs =>
    exact h.same (Scheduler.handleBlockedWaitingRequest_still hs).sameQueues

theorem TakeMove.heaps (move : TakeMove cfg parts st st') (h : Heaps st.sched) :
    Heaps st'.sched := by
  cases move with
  | skip hskip =>
    have ⟨id, queue, holdsKv, hpop, hst'⟩ := skipRequest_ok _ hskip
    rw [hst']
    exact (withQueue_heaps h hpop).same ⟨rfl, rfl, rfl⟩
  | load id a _ _ _ hload =>
    have ⟨popped, queue, holdsKv, hpop, hst'⟩ := startAsyncLoad_ok hload
    have assigned : SameQueues st.sched (st.sched.setRequest id { st.sched.request id with
        status := .waitingForRemoteKvs, numComputedTokens := a.numComputedTokens }) :=
      Scheduler.setRequest_sameQueues rfl
    have loading : Heaps (st.withLoading id a).sched :=
      h.same (assigned.trans ⟨rfl, rfl, rfl⟩)
    rw [hst']
    exact (withQueue_heaps loading hpop).same ⟨rfl, rfl, rfl⟩
  | run id a chunk _ _ _ hadmit =>
    have ⟨popped, queue, hpop, admits⟩ := admit_ok hadmit
    have ⟨inflight, hcore⟩ := admits.sched
    have ran : Heaps ((st.withQueue st.fromKvHolding queue).sched.admitted popped
        chunk.numComputedTokens inflight) :=
      (withQueue_heaps h hpop).same ⟨rfl, rfl, Scheduler.setRequest_orderKey rfl⟩
    exact ran.same (Still.of_core hcore).sameQueues

end Step

namespace Scheduler

theorem schedule_heaps (h : Heaps s) {throttlePrefills : Bool} {out : SchedulerOutput}
    (hs : s.schedule cfg parts throttlePrefills = .ok (out, s')) : Heaps s' := by
  have ⟨st, hloops, still⟩ := Still.schedule hs
  refine Heaps.same ?_ still.sameQueues
  have run : ∀ (st : Step ω) (id : String) (newBlocks : KVCacheBlocks) (plan : EncoderPlan),
      st.sched.running[st.reqIndex]? = some id → Heaps st.sched →
        Heaps (st.scheduleRunning cfg parts id newBlocks plan).sched := by
    intro st id newBlocks plan _ h
    exact h.same (st.scheduleRunning_still cfg parts id newBlocks plan).sameQueues
  rcases scheduleReqs_rule (P := fun st => Heaps st.sched)
    (fun _ _ hcore h => h.same (Still.of_core hcore).sameQueues) (fun _ h => h)
    (fun _ _ _ hs h => hs.heaps h) run (fun _ _ h => h) (fun _ _ move h => move.heaps h)
    (fun _ _ move h => move.heaps h) hloops (h.same ⟨rfl, rfl, rfl⟩) with
    kept | ⟨st₁, s₁, kept, requeued, rfl⟩
  · exact kept
  · refine Heaps.same ?_ requeued.sameQueues
    exact ⟨kept.waiting.prependRequests _, kept.kvHolding.prependRequests _⟩

theorem preemptAll_heaps {n : Nat} (h : Heaps s) (hs : preemptAll cfg parts n s = .ok s') :
    Heaps s' := by
  induction n generalizing s with
  | zero =>
    cases hs
    exact h
  | succ n ih =>
    unfold preemptAll at hs
    split at hs
    · cases hs
      exact h
    · rename_i id hlast
      have ⟨s₁, hpreempt, hs⟩ := bind_eq_ok.mp hs
      have ⟨_, core⟩ := preemptRequest_ok hpreempt
      exact ih ((preempted_heaps h _ id true).same (Still.of_core core).sameQueues) hs

theorem resetPrefixCache_heaps {resetRunningRequests successful : Bool} (h : Heaps s)
    (hs : s.resetPrefixCache cfg parts resetRunningRequests = .ok (successful, s')) : Heaps s' := by
  have ⟨s₁, hpreempt, hs⟩ := bind_eq_ok.mp hs
  have first := preemptAll_heaps h hpreempt
  dsimp only at hs
  split at hs
  · cases hs
  · cases hs
    exact first.same ⟨rfl, rfl, rfl⟩

theorem sameQueues_of_freed
    (freed : Still s s' ∨ Still (s.withRequests (s.requests.erase id)) s') : SameQueues s s' := by
  rcases freed with still | still
  · exact still.sameQueues
  · have erased : SameQueues s (s.withRequests (s.requests.erase id)) := ⟨rfl, rfl, rfl⟩
    exact erased.trans still.sameQueues

variable {status : RequestStatus}

theorem finishRequest_sameQueues
    (hs : s.finishRequest cfg parts id status = .ok s') : SameQueues s s' := by
  have ⟨_, _, freed⟩ := freeRequest_ok hs
  have dropped := dropRemote_still (s := s) id
  have key : (s.request id).orderKey = ((s.dropRemote id).request id).orderKey :=
    (congrFun dropped.orderKey id).symm
  have marked : SameQueues (s.dropRemote id)
      ((s.dropRemote id).setRequest id { s.request id with status := status }) :=
    setRequest_sameQueues key
  exact (dropped.sameQueues.trans marked).trans (sameQueues_of_freed freed)

variable {ids : List String}

theorem finishEach_sameQueues (hs : finishEach cfg parts status ids s = .ok s') : SameQueues s s' := by
  induction ids generalizing s with
  | nil =>
    cases hs
    exact ⟨rfl, rfl, rfl⟩
  | cons id rest ih =>
    have ⟨s₁, hfirst, hs⟩ := bind_eq_ok.mp hs
    exact (finishRequest_sameQueues hfirst).trans (ih hs)

theorem removeRunning_sameQueues (ids : List String) : SameQueues s (s.removeRunning ids) := by
  unfold removeRunning
  split <;> exact ⟨rfl, rfl, rfl⟩

theorem finishRequests_heaps {requestIds : Option (List String)}
    {finished : List String} (h : Heaps s)
    (hs : s.finishRequests cfg parts requestIds status = .ok (finished, s')) : Heaps s' := by
  have ⟨_, _, hs⟩ := bind_eq_ok.mp hs
  have ⟨s₁, hfinish, hs⟩ := bind_eq_ok.mp hs
  cases hs
  refine Heaps.same ?_ (finishEach_sameQueues hfinish)
  have dropped : ∀ (t : Scheduler ω) (running waiting : List String), Heaps t →
      Heaps ((t.removeRunning running).removeWaiting waiting) := by
    intro t running waiting ht
    have kept := ht.same (removeRunning_sameQueues running)
    exact removeWaiting_heaps kept.waiting.policy kept.kvHolding.policy fun _ => kept
  exact dropped _ _ _ (h.same ⟨rfl, rfl, rfl⟩)

theorem finishErrorReqs_heaps {ids finished : List String} (h : Heaps s)
    (hs : s.finishErrorReqs cfg parts ids = .ok (finished, s')) : Heaps s' := by
  unfold finishErrorReqs at hs
  split at hs
  · cases hs
    exact h
  · exact finishRequests_heaps h hs

theorem freeBlocks_sameQueues (hs : s.freeBlocks cfg parts id = .ok s') : SameQueues s s' := by
  have ⟨_, _, still⟩ := freeBlocks_ok hs
  exact sameQueues_of_freed (.inr still)

theorem recvFinished_sameQueues (hs : recvFinished cfg parts ids s = .ok s') : SameQueues s s' := by
  induction ids generalizing s with
  | nil =>
    cases hs
    exact ⟨rfl, rfl, rfl⟩
  | cons id rest ih =>
    have ⟨_, _, hs⟩ := bind_eq_ok.mp hs
    dsimp only at hs
    split at hs
    · have marked : SameQueues s { s with
          finishedRecvingKvReqIds := setAdd s.finishedRecvingKvReqIds id } := ⟨rfl, rfl, rfl⟩
      exact marked.trans (ih hs)
    · have ⟨s₁, hfree, hs⟩ := bind_eq_ok.mp hs
      exact (freeBlocks_sameQueues hfree).trans (ih hs)

theorem sendFinished_sameQueues (hs : sendFinished cfg parts ids s = .ok s') : SameQueues s s' := by
  induction ids generalizing s with
  | nil =>
    cases hs
    exact ⟨rfl, rfl, rfl⟩
  | cons id rest ih =>
    have ⟨_, _, hs⟩ := bind_eq_ok.mp hs
    have ⟨s₁, hfree, hs⟩ := bind_eq_ok.mp hs
    exact (freeBlocks_sameQueues hfree).trans (ih hs)

theorem updateFromKvConnector_sameQueues {output : Option KVConnectorOutput}
    (hs : s.updateFromKvConnector cfg parts output = .ok s') : SameQueues s s' := by
  cases output with
  | none =>
    cases hs
    exact ⟨rfl, rfl, rfl⟩
  | some output =>
    have ⟨s₁, hrecv, hs⟩ := bind_eq_ok.mp hs
    refine SameQueues.trans ?_ ((recvFinished_sameQueues hrecv).trans (sendFinished_sameQueues hs))
    split <;> exact ⟨rfl, rfl, rfl⟩

theorem Outcome.sameQueues {r : Request} {stopped : Bool} (h : Outcome s s' id r stopped) :
    SameQueues s s' :=
  (setRequest_sameQueues h.delivered.orderKey).trans h.still.sameQueues

end Scheduler

/-- While the outputs of a step are taken, the queues are heaps until a request is stopped
in one of them. -/
structure ScanHeaps {ω : Type} (scan : OutputScan ω) : Prop where
  waiting : scan.sched.waiting.policy = .priority
  kvHolding : scan.sched.kvHoldingWaiting.policy = .priority
  heaps : scan.stoppedPreemptedReqs = [] → Heaps scan.sched

theorem ScanHeaps.same {scan scan' : OutputScan ω} (h : ScanHeaps scan)
    (same : SameQueues scan.sched scan'.sched)
    (nil : scan'.stoppedPreemptedReqs = [] → scan.stoppedPreemptedReqs = []) :
    ScanHeaps scan' where
  waiting := same.waiting ▸ h.waiting
  kvHolding := same.kvHoldingWaiting ▸ h.kvHolding
  heaps hnil := (h.heaps (nil hnil)).same same

namespace Scheduler

theorem setAdd_ne_nil (ids : List String) (id : String) : setAdd ids id ≠ [] := by
  have hmem : id ∈ setAdd ids id := mem_setAdd.mpr (.inl rfl)
  exact ne_nil_of_mem hmem

theorem noteStopped_preempted_nil {status : RequestStatus} {scan : OutputScan ω}
    (h : (noteStopped id status scan).stoppedPreemptedReqs = []) :
    status = .running ∧ scan.stoppedPreemptedReqs = [] := by
  unfold noteStopped at h
  split at h
  · rename_i hstatus
    exact ⟨hstatus, h⟩
  · exact absurd h (setAdd_ne_nil _ _)

theorem enqueueWaitingRequest_policy (id : String) :
    (s.enqueueWaitingRequest id).waiting.policy = s.waiting.policy ∧
    (s.enqueueWaitingRequest id).kvHoldingWaiting.policy = s.kvHoldingWaiting.policy := by
  unfold enqueueWaitingRequest
  dsimp only
  split <;> split <;> simp

theorem OutputMove.heaps {again : Prop} {scan scan' : OutputScan ω} (sound : ScanSound lost scan)
    (h : ScanHeaps scan)
    (move : OutputMove id (scan.sched.request id).status again scan scan') : ScanHeaps scan' := by
  cases move with
  | keep still _ _ preempted => exact h.same still.sameQueues fun hnil => preempted ▸ hnil
  | finish s r outcome freed _ _ preempted =>
    refine h.same (outcome.sameQueues.trans (sameQueues_of_freed freed)) fun hnil => ?_
    rw [preempted] at hnil
    exact (noteStopped_preempted_nil hnil).2
  | wait s r session idle outcome _ _ hs _ preempted =>
    have same := outcome.sameQueues
    have ⟨waiting, kvHolding⟩ := enqueueWaitingRequest_policy
      (s := s.withSession id session idle) id
    rw [← hs] at waiting kvHolding
    refine ⟨?_, ?_, fun hnil => ?_⟩
    · exact (waiting.trans (congrArg RequestQueue.policy same.waiting)).trans h.waiting
    · exact (kvHolding.trans (congrArg RequestQueue.policy same.kvHoldingWaiting)).trans h.kvHolding
    · rw [preempted] at hnil
      have ⟨hstatus, hnone⟩ := noteStopped_preempted_nil hnil
      have heaps : Heaps { s with numWaitingForStreamingInput := idle } :=
        ((h.heaps hnone).same same).same ⟨rfl, rfl, rfl⟩
      have absent : id ∉ scan.sched.roster.waiting := by
        intro hid
        have waits := sound.sound.waits id (mem_filter.mpr ⟨hid, by simp [hnone]⟩)
        have runs : scan.sched.roster.stage id = .runs := RequestStatus.stage_eq_runs.mpr hstatus
        exact Stage.noConfusion (runs.symm.trans waits)
      have waiting : id ∉ s.waiting.items := fun hid =>
        absent (mem_append_left _ (same.waiting ▸ hid))
      have kvHolding : id ∉ s.kvHoldingWaiting.items := fun hid =>
        absent (mem_append_right _ (same.kvHoldingWaiting ▸ hid))
      have updated : Heaps (s.withSession id session idle) :=
        setRequest_heaps heaps waiting kvHolding session
      rw [hs]
      exact enqueueWaitingRequest_heaps updated id

theorem updateRequests_heaps {out : SchedulerOutput} {output : ModelRunnerOutput}
    {failed : List String} {scheduled : List (String × Int)} {scan scan' : OutputScan ω}
    (sound : ScanSound lost scan) (h : ScanHeaps scan)
    (hs : updateRequests cfg parts out output failed scheduled scan = .ok scan') :
    ScanHeaps scan' := by
  induction scheduled generalizing scan lost with
  | nil =>
    cases hs
    exact h
  | cons p rest ih =>
    obtain ⟨id, n⟩ := p
    have ⟨scan₁, hfirst, hs⟩ := bind_eq_ok.mp hs
    rcases updateRequest_ok hfirst with ⟨still, _, running, preempted⟩ | ⟨known, unfinished, move⟩
    · exact ih (sound.keep still running preempted)
        (h.same still.sameQueues fun hnil => preempted ▸ hnil) hs
    · have heaps := OutputMove.heaps sound h move
      rcases move.sound sound known unfinished with sound' | ⟨_, _, sound'⟩
      · exact ih sound' heaps hs
      · exact ih sound' heaps hs

theorem updateFromOutput_heaps {out : SchedulerOutput} {output : ModelRunnerOutput}
    {outputs : List EngineCoreOutput} (sound : Roster.Sound lost s.roster) (h : Heaps s)
    (hs : s.updateFromOutput cfg parts out output = .ok (outputs, s')) : Heaps s' := by
  have ⟨⟨failed, s₁⟩, hfail, hs⟩ := bind_eq_ok.mp hs
  have ⟨scan, hscan, hs⟩ := bind_eq_ok.mp hs
  have still := (processStep_still out).trans (Still.handleKvFailures hfail)
  have start : ScanSound lost { sched := s₁ : OutputScan ω } := .start (still.roster ▸ sound)
  have heaps : Heaps s₁ := h.same still.sameQueues
  have scanned := updateRequests_heaps start
    ⟨heaps.waiting.policy, heaps.kvHolding.policy, fun _ => heaps⟩ hscan
  have taken : Heaps (removeStopped scan) := by
    have same := removeRunning_sameQueues (s := scan.sched) scan.stoppedRunningReqs
    refine removeWaiting_heaps ?_ ?_ fun hnil => (scanned.heaps hnil).same same
    · exact same.waiting ▸ scanned.waiting
    · exact same.kvHoldingWaiting ▸ scanned.kvHolding
  have errors : Still (removeStopped scan)
      ((removeStopped scan).takeErrorReqs cfg parts failed).2 := .takeErrorReqs failed
  generalize (removeStopped scan).takeErrorReqs cfg parts failed = asked at hs errors
  obtain ⟨errorReqIds, s₂⟩ := asked
  have ⟨⟨errorReqs, s₃⟩, hfinish, hs⟩ := bind_eq_ok.mp hs
  have ⟨s₄, hkv, hs⟩ := bind_eq_ok.mp hs
  cases hs
  have finished := finishErrorReqs_heaps (taken.same errors.sameQueues) hfinish
  exact finished.same (updateFromKvConnector_sameQueues hkv)

/-- The order of a session once it has taken a chunk that arrived at `arrivalTime`. -/
def orderAt (r : Request) (arrivalTime : ℚ) : Int ×ₗ ℚ ×ₗ String :=
  toLex (r.priority, toLex (arrivalTime, r.requestId))

/-- A chunk that moves the session `id` nowhere in the queues. -/
def ChunkFits (s : Scheduler ω) (id : String) (arrivalTime : ℚ) : Prop :=
  Heapq.Fits s.orderKey s.waiting.items id (orderAt (s.request id) arrivalTime) ∧
    Heapq.Fits s.orderKey s.kvHoldingWaiting.items id (orderAt (s.request id) arrivalTime)

variable {update : StreamingUpdate}

theorem updateAsSession_orderKey {r session : Request}
    (h : r.updateAsSession update = .ok session) :
    session.orderKey = orderAt r update.arrivalTime := by
  unfold Request.updateAsSession at h
  split at h
  · cases h
  · cases h
    rfl

theorem updateRequestAsSession_heaps_iff (sound : Roster.Sound lost s.roster) (h : Heaps s)
    (hs : s.updateRequestAsSession id update = .ok s') :
    Heaps s' ↔ s.ChunkFits id update.arrivalTime := by
  obtain ⟨session, idle, hsession, hs'⟩ := updateRequestAsSession_ok hs
  have key : s'.orderKey = Function.update s.orderKey id
      (orderAt (s.request id) update.arrivalTime) := by
    rw [hs', ← updateAsSession_orderKey hsession]
    funext i
    by_cases hi : i = id
    · subst hi
      simp [withSession, setRequest, Scheduler.orderKey]
    · simp [withSession, setRequest, Scheduler.orderKey, hi]
  obtain ⟨waiting, kvHolding, _⟩ := nodup_append.mp sound.waiting_nodup
  have waitingIff := Heapq.isHeap_update_iff waiting h.waiting.isHeap id
    (orderAt (s.request id) update.arrivalTime)
  have kvHoldingIff := Heapq.isHeap_update_iff kvHolding h.kvHolding.isHeap id
    (orderAt (s.request id) update.arrivalTime)
  rw [← key] at waitingIff kvHoldingIff
  have same : s'.waiting = s.waiting ∧ s'.kvHoldingWaiting = s.kvHoldingWaiting := by
    rw [hs']
    exact ⟨rfl, rfl⟩
  constructor
  · intro h'
    exact ⟨waitingIff.mp (same.1 ▸ h'.waiting.isHeap),
      kvHoldingIff.mp (same.2 ▸ h'.kvHolding.isHeap)⟩
  · intro fits
    constructor
    · rw [same.1]
      exact ⟨h.waiting.policy, waitingIff.mpr fits.1⟩
    · rw [same.2]
      exact ⟨h.kvHolding.policy, kvHoldingIff.mpr fits.2⟩

variable {request : Request}

theorem fromRequest_ok (h : StreamingUpdate.fromRequest request = some update) :
    request.resumable ∧ update.arrivalTime = request.arrivalTime := by
  unfold StreamingUpdate.fromRequest at h
  split at h
  · rename_i hresumable
    cases h
    exact ⟨hresumable, rfl⟩
  · cases h

/-- A request that is added while its session waits for a chunk, if it is one, fits. -/
def AddFits (s : Scheduler ω) (request : Request) : Prop :=
  request.requestId ∈ s.requests →
    (s.request request.requestId).status = .waitingForStreamingReq → request.resumable →
      s.ChunkFits request.requestId request.arrivalTime

theorem registerRequest_heaps (sound : Roster.Sound lost s.roster)
    (fresh : request.requestId ∉ s.requests) (h : Heaps s) :
    Heaps (s.registerRequest cfg parts request) := by
  have absent : request.requestId ∉ s.roster.waiting :=
    fun hid => fresh (sound.live_of_waiting hid).1.1
  have assigned := setRequest_heaps h (fun hid => absent (mem_append_left _ hid))
    (fun hid => absent (mem_append_right _ hid)) request
  exact (enqueueWaitingRequest_heaps assigned request.requestId).same ⟨rfl, rfl, rfl⟩

theorem addRequest_heaps (sound : Roster.Sound lost s.roster)
    (h : Heaps s) (fits : s.AddFits request) (hs : s.addRequest cfg parts request = .ok s') :
    Heaps s' := by
  unfold addRequest at hs
  dsimp only at hs
  split at hs
  · rename_i known
    split at hs
    · split at hs
      · cases hs
      · cases hs
        exact h.same (setRequest_sameQueues rfl)
    · rename_i hstatus
      split at hs
      · rename_i update hupdate
        have ⟨resumable, arrival⟩ := fromRequest_ok hupdate
        refine (updateRequestAsSession_heaps_iff sound h hs).mpr ?_
        rw [arrival]
        exact fits known (not_not.mp hstatus) resumable
      · have ⟨⟨_, s₁⟩, hfinish, hs⟩ := bind_eq_ok.mp hs
        cases hs
        exact finishRequests_heaps h hfinish
  · rename_i hnew
    have same := (startSession_same request).1
    cases hs
    exact registerRequest_heaps sound (same ▸ hnew) h

/-- The waiting queues hand out their requests by priority and arrival, also after any
further calls on them. -/
def ServesByPriority (s : Scheduler ω) : Prop :=
  ∀ q, q = s.waiting ∨ q = s.kvHoldingWaiting → ∀ calls q',
    RequestQueue.runCalls s.orderKey calls q = .ok q' →
      q'.Serves s.orderKey fun id => toLex ((s.request id).priority, (s.request id).arrivalTime)

theorem serves_of_heaps (h : Heaps s) : s.ServesByPriority := by
  have mono : ∀ x y, s.orderKey x ≤ s.orderKey y →
      toLex ((s.request x).priority, (s.request x).arrivalTime) ≤
        toLex ((s.request y).priority, (s.request y).arrivalTime) := by
    intro x y hxy
    unfold orderKey Request.orderKey at hxy
    rw [Prod.Lex.toLex_le_toLex] at hxy ⊢
    dsimp only at hxy ⊢
    rcases hxy with hlt | ⟨heq, hle⟩
    · exact .inl hlt
    · rw [Prod.Lex.toLex_le_toLex] at hle
      exact .inr ⟨heq, hle.elim le_of_lt fun h => le_of_eq h.1⟩
  rintro q (rfl | rfl) calls q' hrun
  · exact (h.waiting.runCalls hrun).serves mono
  · exact (h.kvHolding.runCalls hrun).serves mono

end Scheduler

namespace Engine

variable {e e' : Engine ω}

def KeepsOrder (e : Engine ω) : EngineCall → Prop
  | .addRequest request => e.sched.AddFits request
  | _ => True

theorem call_heaps {call : EngineCall} (placed : Placed lost e) (h : Heaps e.sched)
    (fits : e.KeepsOrder call) (hcall : e.call cfg parts call = .ok e') : Heaps e'.sched := by
  cases call with
  | addRequest request =>
    have ⟨s, hs, hcall⟩ := bind_eq_ok.mp hcall
    cases hcall
    exact Scheduler.addRequest_heaps placed.sound h fits hs
  | schedule throttlePrefills =>
    have ⟨⟨out, s⟩, hs, hcall⟩ := bind_eq_ok.mp hcall
    cases hcall
    exact Scheduler.schedule_heaps h hs
  | updateFromOutput output =>
    obtain ⟨s, inFlight⟩ := e
    cases inFlight with
    | nil => cases hcall
    | cons out rest =>
      have ⟨⟨outputs, s'⟩, hs, hcall⟩ := bind_eq_ok.mp hcall
      cases hcall
      exact Scheduler.updateFromOutput_heaps placed.sound h hs
  | updateDraftTokenIds drafts =>
    cases hcall
    exact h.same (Still.updateDraftTokenIds drafts).sameQueues
  | finishRequests requestIds finishedStatus =>
    have ⟨⟨finished, s⟩, hs, hcall⟩ := bind_eq_ok.mp hcall
    cases hcall
    exact Scheduler.finishRequests_heaps h hs
  | resetPrefixCache resetRunningRequests =>
    have ⟨⟨successful, s⟩, hs, hcall⟩ := bind_eq_ok.mp hcall
    cases hcall
    exact Scheduler.resetPrefixCache_heaps h hs
  | setPauseState pauseState =>
    cases hcall
    exact h.same ⟨rfl, rfl, rfl⟩

/-- Under the priority policy, in a run in which every chunk of a queued session fits, the
queues hand out their requests by priority and arrival. -/
theorem reachable_servesByPriority (policy : cfg.policy = .priority)
    (h : (system cfg parts KeepsOrder).Reachable e) : e.sched.ServesByPriority := by
  refine Scheduler.serves_of_heaps (s := e.sched) ?_
  have both : (∃ lost, Placed lost e) ∧ Heaps e.sched := by
    refine h.invariant (P := fun e => (∃ lost, Placed lost e) ∧ Heaps e.sched) ?_ ?_
    · rintro e ⟨world, rfl⟩
      have empty : ∀ key : String → Int ×ₗ ℚ ×ₗ String, Heapq.IsHeap key [] := by
        intro key i x y _ _ hx
        simp at hx
      exact ⟨⟨[], init_placed world⟩, ⟨policy, empty _⟩, ⟨policy, empty _⟩⟩
    · intro e a e' _ ⟨⟨lost, placed⟩, heaps⟩ hstep
      cases a with
      | none =>
        obtain ⟨world, rfl⟩ := hstep
        exact ⟨⟨lost, placed.sound, placed.inFlight⟩, heaps.same ⟨rfl, rfl, rfl⟩⟩
      | some call =>
        have ⟨lost', placed', _⟩ := call_placed placed hstep.1 hstep.2.2
        exact ⟨⟨lost', placed'⟩, call_heaps placed heaps hstep.2.1 hstep.2.2⟩
  exact both.2

def priorityConfig : SchedulerConfig :=
  { policy := .priority, maxNumRunningReqs := 4, maxNumActiveReqs := 4,
    maxNumScheduledTokens := 32, maxNumBatchedTokens := 32, maxModelLen := 64 }

def chunkAt (id : String) (arrivalTime : ℚ) : Request :=
  { Request.new id [1, 2] 8 with
    arrivalTime := arrivalTime, resumable := true, samplingParams := some { eosTokenId := some 9 } }

/-- One turn of the sessions `ids`, which arrive one after the other. -/
def turnOf (ids : List (String × ℚ)) : List EngineCall :=
  ids.map (fun p => .addRequest (chunkAt p.1 p.2)) ++
    [.schedule false, .updateFromOutput { sampledTokenIds := ids.map fun p => (p.1, [9]) }]

theorem contract_turnOf {ids : List (String × ℚ)} {call : EngineCall} (h : call ∈ turnOf ids)
    (e : Engine ω) : e.Contract call := by
  rcases mem_append.mp h with h | h
  · have ⟨p, _, hp⟩ := mem_map.mp h
    rw [← hp]
    exact fun _ => .inl rfl
  · simp only [mem_cons, not_mem_nil, or_false] at h
    rcases h with rfl | rfl <;> trivial

/-- The first session takes a chunk that arrives after the second one's. -/
theorem session_breaks_heap : ∃ e : Engine (List Bool),
    (system priorityConfig .scripted fun _ _ => True).Reachable e ∧ ¬e.sched.ServesByPriority := by
  have ends : (runCalls priorityConfig .scripted
      (turnOf [("a", 1), ("b", 2)] ++ [.addRequest (chunkAt "a" 3)])
      ⟨.init priorityConfig [], []⟩).map (fun e => (e.sched.kvHoldingWaiting.items,
          (e.sched.request "a").priority, (e.sched.request "a").arrivalTime,
          (e.sched.request "b").priority, (e.sched.request "b").arrivalTime)) =
      .ok (["a", "b"], 0, 3, 0, 2) := by decide +kernel
  generalize hrun : runCalls priorityConfig .scripted
    (turnOf [("a", 1), ("b", 2)] ++ [.addRequest (chunkAt "a" 3)])
    ⟨.init priorityConfig [], []⟩ = result at ends
  cases result with
  | error err => cases ends
  | ok e =>
    refine ⟨e, reachable_runCalls (fun call hmem e => ⟨?_, trivial⟩) (.init ⟨_, rfl⟩) hrun, ?_⟩
    · rcases mem_append.mp hmem with hmem | hmem
      · exact contract_turnOf hmem e
      · rw [mem_singleton.mp hmem]
        exact fun _ => .inl rfl
    · intro serves
      have ends := Except.ok.inj ends
      simp only [Prod.mk.injEq] at ends
      obtain ⟨items, priorityA, arrivalA, priorityB, arrivalB⟩ := ends
      have queue := serves e.sched.kvHoldingWaiting (.inr rfl) [] _ rfl
      have ⟨_, least⟩ := queue.peek "a" (RequestQueue.peekRequest_ok.mpr (by rw [items]; rfl))
      have le := least "b" (by rw [items]; decide)
      rw [priorityA, arrivalA, priorityB, arrivalB] at le
      revert le
      decide

/-- A lone session takes its next chunk in its queue. -/
theorem session_keeps_heap : ∃ e e' : Engine (List Bool),
    runCalls priorityConfig .scripted (turnOf [("a", 1)]) ⟨.init priorityConfig [], []⟩ = .ok e ∧
    e.call priorityConfig .scripted (.addRequest (chunkAt "a" 3)) = .ok e' ∧
    e'.sched.kvHoldingWaiting.items = ["a"] ∧ e'.sched.ServesByPriority := by
  have ends : (runCalls priorityConfig .scripted (turnOf [("a", 1)])
      ⟨.init priorityConfig [], []⟩).bind (fun e =>
        (e.call priorityConfig .scripted (.addRequest (chunkAt "a" 3))).map fun e' =>
          (e.sched.waiting.items, e.sched.kvHoldingWaiting.items,
            e'.sched.kvHoldingWaiting.items)) =
      .ok ([], ["a"], ["a"]) := by decide +kernel
  generalize hrun : runCalls priorityConfig .scripted (turnOf [("a", 1)])
    ⟨.init priorityConfig [], []⟩ = result at ends
  cases result with
  | error err => cases ends
  | ok e =>
    simp only [Except.bind] at ends
    generalize hcall : e.call priorityConfig .scripted (.addRequest (chunkAt "a" 3)) = last at ends
    cases last with
    | error err => cases ends
    | ok e' =>
      have ends := Except.ok.inj ends
      simp only [Prod.mk.injEq] at ends
      obtain ⟨waiting, kvHolding, after⟩ := ends
      have alone : ∀ (key : String → Int ×ₗ ℚ ×ₗ String) k, Heapq.Fits key ["a"] "a" k := by
        intro key k i hi
        have hlt := (List.getElem?_eq_some_iff.mp hi).1
        rw [length_singleton] at hlt
        refine ⟨fun p hpos => absurd hpos (by omega), fun j c hj hp hc => ?_⟩
        have hlt' := (List.getElem?_eq_some_iff.mp hc).1
        rw [length_singleton] at hlt'
        omega
      have reach : (system priorityConfig .scripted KeepsOrder).Reachable e := by
        have ⟨e₁, hfirst, hrest⟩ := bind_eq_ok.mp hrun
        refine reachable_runCalls (fun call hmem e₀ => ?_)
          (.step (a := some (.addRequest (chunkAt "a" 1))) (.init ⟨_, rfl⟩)
            ⟨fun _ => .inl rfl, nofun, hfirst⟩) hrest
        rcases mem_cons.mp hmem with rfl | hmem
        · exact ⟨trivial, trivial⟩
        · rw [mem_singleton.mp hmem]
          exact ⟨trivial, trivial⟩
      refine ⟨e, e', rfl, hcall, after, reachable_servesByPriority rfl
        (.step (a := some (.addRequest (chunkAt "a" 3))) reach ⟨fun _ => .inl rfl, ?_, hcall⟩)⟩
      intro _ _ _
      refine ⟨?_, ?_⟩
      · rw [waiting]
        intro i hi
        simp at hi
      · rw [kvHolding]
        exact alone _ _

end Engine

end VllmAmpere.Sched
