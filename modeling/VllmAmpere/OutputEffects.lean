import VllmAmpere.SchedulerStill

/-! What the output of a step does to its requests: the effect of delivering tokens, of
a stop and of freeing a request, one lemma for each. -/

namespace VllmAmpere.Sched.Scheduler

variable {ω : Type} {cfg : SchedulerConfig} {parts : Components ω} {s s' : Scheduler ω}
  {id : String}

/-- A scheduler that other requests are registered with. -/
def withRequests (s : Scheduler ω) (requests : List String) : Scheduler ω :=
  { s with requests := requests }

theorem freeRequestBlocks_request (id : String) :
    (s.freeRequestBlocks cfg parts id).request = s.request := by
  unfold freeRequestBlocks
  split
  · rfl
  · dsimp only
    split <;> rfl

theorem freeBlocks_ok (h : s.freeBlocks cfg parts id = .ok s') :
    (s.request id).isFinished ∧ s'.request = s.request ∧
    Still (s.withRequests (s.requests.erase id)) s' := by
  have ⟨_, hfinished, h⟩ := bind_eq_ok.mp h
  have ⟨_, _, h⟩ := bind_eq_ok.mp h
  refine ⟨pyAssert_ok.mp hfinished, ?_⟩
  have freed : Still s (s.freeRequestBlocks cfg parts id) := .of_core (core_freeRequestBlocks id)
  cases h
  exact ⟨freeRequestBlocks_request id, freed.running, freed.waiting, freed.kvHoldingWaiting, freed.deferredWaiting,
    congrArg (·.erase id) freed.requests, freed.stage, freed.orderKey⟩

variable (cfg parts) in
theorem connectorFinished_still (id : String) : Still s (s.connectorFinished cfg parts id).2 :=
  .of_core (core_connectorFinished id)

theorem releaseRequest_request (id : String) :
    (s.releaseRequest cfg parts id).2.request = s.request := by
  unfold releaseRequest connectorFinished
  dsimp only
  split <;> rfl

theorem releaseRequest_still (id : String) : Still s (s.releaseRequest cfg parts id).2 := by
  unfold releaseRequest
  dsimp only
  have first : Still s { s with inflightPrefills := discard s.inflightPrefills id } :=
    ⟨rfl, rfl, rfl, rfl, rfl, fun _ => rfl, rfl⟩
  refine (first.trans (connectorFinished_still cfg parts id)).trans ?_
  exact ⟨rfl, rfl, rfl, rfl, rfl, fun _ => rfl, rfl⟩

theorem freeRequest_ok {delayFreeBlocks : Bool}
    (h : s.freeRequest cfg parts id delayFreeBlocks = .ok s') :
    (s.request id).isFinished ∧ s'.request = s.request ∧
    (Still s s' ∨ Still (s.withRequests (s.requests.erase id)) s') := by
  have ⟨_, hfinished, h⟩ := bind_eq_ok.mp h
  have released : Still s (s.releaseRequest cfg parts id).2 := releaseRequest_still id
  have request : (s.releaseRequest cfg parts id).2.request = s.request :=
    releaseRequest_request id
  refine ⟨pyAssert_ok.mp hfinished, ?_⟩
  generalize s.releaseRequest cfg parts id = result at h released request
  obtain ⟨delay, s₁⟩ := result
  dsimp only at h released request
  split at h
  · cases h
    exact ⟨request, .inl released⟩
  · have ⟨_, same, freed⟩ := freeBlocks_ok h
    refine ⟨same.trans request, .inr (Still.trans ?_ freed)⟩
    exact ⟨released.running, released.waiting, released.kvHoldingWaiting,
      released.deferredWaiting, congrArg (·.erase id) released.requests, released.stage,
      released.orderKey⟩

def goesOn (r : Request) : Prop :=
  r.resumable ∧ (r.streamingQueue.getD []).head? ≠ some none

instance (r : Request) : Decidable (goesOn r) := inferInstanceAs (Decidable (_ ∧ _))

def withSession (s : Scheduler ω) (id : String) (session : Request) (idle : Int) : Scheduler ω :=
  { s with numWaitingForStreamingInput := idle }.setRequest id session

theorem updateRequestAsSession_ok {update : StreamingUpdate}
    (h : s.updateRequestAsSession id update = .ok s') :
    ∃ session idle, (s.request id).updateAsSession update = .ok session ∧
    s' = s.withSession id session idle := by
  have ⟨session, hsession, h⟩ := bind_eq_ok.mp h
  cases h
  unfold withSession
  split
  · exact ⟨session, _, hsession, rfl⟩
  · exact ⟨session, _, hsession, rfl⟩

theorem updateAsSession_stage {r session : Request} {update : StreamingUpdate}
    (h : r.updateAsSession update = .ok session) : session.status = .waiting := by
  unfold Request.updateAsSession at h
  split at h
  · cases h
  · cases h
    rfl

theorem handleStoppedRequest_ok {finished : Bool}
    (h : s.handleStoppedRequest id = .ok (finished, s')) :
    if finished then Still s s' ∧ ∀ i, i ≠ id → s'.request i = s.request i
    else goesOn (s.request id) ∧ ∃ session idle, session.status.stage = .waits ∧
    s' = (s.withSession id session idle).enqueueWaitingRequest id := by
  unfold handleStoppedRequest at h
  dsimp only at h
  split at h
  · cases h
    exact ⟨.refl _, fun _ _ => rfl⟩
  · rename_i hresumable
    obtain ⟨_, _, h⟩ := bind_eq_ok.mp h
    split at h
    · cases h
      exact ⟨.setRequest rfl rfl, fun i hi => by simp [setRequest, hi]⟩
    · rename_i update rest hqueue
      obtain ⟨s₁, hupdate, h⟩ := bind_eq_ok.mp h
      obtain ⟨session, idle, hsession, hs₁⟩ := updateRequestAsSession_ok hupdate
      cases h
      refine ⟨⟨not_not.mp hresumable, ?_⟩, session, idle, ?_, ?_⟩
      · rw [hqueue]
        simp
      · rw [updateAsSession_stage hsession]
        rfl
      · rw [hs₁]
        simp [withSession, setRequest]
    · rename_i hqueue
      cases h
      refine ⟨⟨not_not.mp hresumable, ?_⟩,
        { stoppedSession (s.request id) with status := .waitingForStreamingReq },
        s.numWaitingForStreamingInput + 1, rfl, rfl⟩
      rw [hqueue]
      simp

/-- What delivering tokens keeps of a request, and when it ends it. -/
structure Delivered (r r' : Request) (stopped : Bool) : Prop where
  orderKey : r'.orderKey = r.orderKey
  queue : r'.streamingQueue = r.streamingQueue
  resumable : r'.resumable → r.resumable
  stage : r'.status.stage = if stopped then .done else r.status.stage

variable {maxModelLen : Nat} {stopped : Bool}

theorem checkStop_ok {r r' : Request}
    (h : checkStop r maxModelLen = .ok (stopped, r')) : Delivered r r' stopped := by
  have ⟨_, _, h⟩ := bind_eq_ok.mp h
  split at h
  · cases h
  · cases h
  · split at h
    · cases h
      exact ⟨rfl, rfl, id, rfl⟩
    · split at h
      · cases h
        exact ⟨rfl, rfl, id, rfl⟩
      · split at h
        · cases h
          exact ⟨rfl, rfl, id, rfl⟩
        · split at h
          · cases h
            exact ⟨rfl, rfl, id, rfl⟩
          · split at h
            · cases h
              exact ⟨rfl, rfl, id, rfl⟩
            · split at h
              · cases h
                exact ⟨rfl, rfl, id, rfl⟩
              · cases h
                exact ⟨rfl, rfl, id, rfl⟩

theorem appendOutput_ok {tokens : List Int} {r r' : Request} {kept : List Int}
    (h : appendOutput maxModelLen r tokens = .ok (r', kept, stopped)) : Delivered r r' stopped := by
  induction tokens generalizing r kept with
  | nil =>
    cases h
    exact ⟨rfl, rfl, id, rfl⟩
  | cons token rest ih =>
    have ⟨⟨stops, r₁⟩, hcheck, h⟩ := bind_eq_ok.mp h
    have first := checkStop_ok hcheck
    dsimp only at h
    split at h
    · rename_i hstops
      cases h
      have hstops : stops = true := hstops
      subst hstops
      exact ⟨first.orderKey, first.queue, first.resumable, first.stage⟩
    · rename_i hstops
      have ⟨⟨r₂, kept₂, stopped₂⟩, hrest, h⟩ := bind_eq_ok.mp h
      cases h
      have last := ih hrest
      refine ⟨last.orderKey.trans first.orderKey, last.queue.trans first.queue,
        fun h => first.resumable (last.resumable h), ?_⟩
      rw [last.stage, first.stage]
      simp [hstops, Request.appendOutputTokenId]

variable (cfg) in
theorem settlePlaceholders_delivered {r r' : Request} (isStale : Bool)
    (numKept : Nat) (h : Delivered r r' stopped) :
    Delivered r (settlePlaceholders cfg r' isStale numKept) stopped := by
  unfold settlePlaceholders
  split
  · exact h
  · exact ⟨h.orderKey, h.queue, h.resumable, h.stage⟩

theorem updateRequestWithOutput_ok {generated kept : List Int} {isStale stopped : Bool}
    (h : s.updateRequestWithOutput cfg parts id generated isStale = .ok (kept, stopped, s')) :
    ∃ r, appendOutput cfg.maxModelLen (s.request id) generated = .ok (r, kept, stopped) ∧
    s'.core = (s.setRequest id (settlePlaceholders cfg r isStale kept.length)).core ∧ s'.request =
    (s.setRequest id (settlePlaceholders cfg r isStale kept.length)).request := by
  have ⟨⟨r, kept₁, stopped₁⟩, happend, h⟩ := bind_eq_ok.mp h
  have ⟨_, _, h⟩ := bind_eq_ok.mp h
  cases h
  refine ⟨r, happend, ?_, ?_⟩
  · split <;> rfl
  · split <;> rfl

/-- The output stops the request, and the grammar may accept its tokens. -/
def Stops (cfg : SchedulerConfig) (parts : Components ω) (r : Request) (generated : List Int)
    (hasPoolerOutput isStale : Bool) : Prop :=
  if generated ≠ [] then
    ∃ r' kept, appendOutput cfg.maxModelLen r generated = .ok (r', kept, true) ∧
      ∃ world, (parts.acceptTokens world (settlePlaceholders cfg r' isStale kept.length) kept).1
  else (r.pooling ∧ hasPoolerOutput) ∨
    (cfg.isMmEncoderOnly ∧ r.numComputedTokens ≥ r.numPromptTokens)

theorem appendOutput_kept {tokens : List Int} {r r' : Request} {kept : List Int}
    (h : appendOutput maxModelLen r tokens = .ok (r', kept, stopped)) (some : tokens ≠ []) :
    kept ≠ [] := by
  cases tokens with
  | nil => exact absurd rfl some
  | cons token rest =>
    have ⟨_, _, h⟩ := bind_eq_ok.mp h
    dsimp only at h
    split at h
    · cases h
      simp
    · have ⟨_, _, h⟩ := bind_eq_ok.mp h
      cases h
      simp

/-- What an output makes of its request, and of nobody else. -/
structure Outcome (s s' : Scheduler ω) (id : String) (r : Request) (stopped : Bool) : Prop where
  still : Still (s.setRequest id r) s'
  request : s'.request = (s.setRequest id r).request
  delivered : Delivered (s.request id) r stopped

variable {r : Request}

theorem still_reassign (h : Still (s.setRequest id r) s') (r' : Request) :
    Still (s.setRequest id r') (s'.setRequest id r') where
  running := h.running
  waiting := h.waiting
  kvHoldingWaiting := h.kvHoldingWaiting
  deferredWaiting := h.deferredWaiting
  requests := h.requests
  stage i := by
    have stage := h.stage i
    by_cases hi : i = id
    · subst hi
      simp [setRequest]
    · simpa [setRequest, hi] using stage
  orderKey := by
    funext i
    have orderKey := congrFun h.orderKey i
    by_cases hi : i = id
    · subst hi
      simp [setRequest, Scheduler.orderKey]
    · simpa [setRequest, Scheduler.orderKey, hi] using orderKey

theorem Outcome.reassign {stopped stopped' : Bool} (h : Outcome s s' id r stopped)
    (r' : Request) (delivered : Delivered (s.request id) r' stopped') :
    Outcome s (s'.setRequest id r') id r' stopped' := by
  refine ⟨still_reassign h.still r', ?_, delivered⟩
  funext i
  have request := congrFun h.request i
  by_cases hi : i = id
  · subst hi
    simp [setRequest]
  · simpa [setRequest, hi] using request

theorem Outcome.request_self (h : Outcome s s' id r stopped) : s'.request id = r := by
  rw [h.request]
  simp [setRequest]

theorem Outcome.others (h : Outcome s s' id r stopped) {i : String}
    (hi : i ≠ id) : s'.request i = s.request i := by
  rw [h.request]
  simp [setRequest, hi]

theorem takeOutput_ok {generated kept : List Int} {hasPoolerOutput isStale stopped : Bool}
    (h : s.takeOutput cfg parts id generated hasPoolerOutput isStale = .ok (kept, stopped, s')) :
    ∃ r, Outcome s s' id r stopped ∧
    (stopped → (kept = [] ∨ ∃ world, (parts.acceptTokens world r kept).1) →
    Stops cfg parts (s.request id) generated hasPoolerOutput isStale) := by
  unfold takeOutput at h
  dsimp only at h
  split at h
  · rename_i hgenerated
    have ⟨r, happend, core, request⟩ := updateRequestWithOutput_ok h
    have delivered := settlePlaceholders_delivered cfg isStale kept.length
      (appendOutput_ok happend)
    refine ⟨_, ⟨.of_core core, request, delivered⟩, fun hstopped accepted => ?_⟩
    subst hstopped
    unfold Stops
    rw [if_pos hgenerated]
    exact ⟨r, kept, happend, accepted.resolve_left (appendOutput_kept happend hgenerated)⟩
  · rename_i hgenerated
    split at h
    · rename_i hstops
      cases h
      refine ⟨_, ⟨.refl _, rfl, ⟨rfl, rfl, fun h => h, rfl⟩⟩, fun _ _ => ?_⟩
      unfold Stops
      rwa [if_neg hgenerated]
    · cases h
      refine ⟨s.request id, ⟨?_, ?_, ⟨rfl, rfl, fun h => h, rfl⟩⟩, fun h => absurd h (by simp)⟩
      · exact .of_core (core_setRequest rfl).symm
      · simp [setRequest]

theorem deliverOutput_ok {generated kept : List Int} {hasPoolerOutput isStale stopped : Bool}
    (h : s.deliverOutput cfg parts id generated hasPoolerOutput isStale = .ok (kept, stopped, s')) :
    ∃ r, Outcome s s' id r stopped ∧ (stopped → r.resumable →
    Stops cfg parts (s.request id) generated hasPoolerOutput isStale) := by
  have ⟨⟨kept₁, stopped₁, s₁⟩, htake, h⟩ := bind_eq_ok.mp h
  have ⟨r, outcome, stops⟩ := takeOutput_ok htake
  dsimp only at h
  split at h
  · rename_i hkept
    cases h
    exact ⟨r, outcome, fun hstopped _ => stops hstopped (.inl hkept)⟩
  · have same := outcome.request_self
    split at h
    · rename_i haccepted
      cases h
      rw [same] at haccepted
      exact ⟨r, ⟨outcome.still.trans (.of_core rfl), outcome.request, outcome.delivered⟩,
        fun hstopped _ => stops hstopped (.inr ⟨_, haccepted⟩)⟩
    · cases h
      rw [same]
      have delivered : Delivered (s.request id)
          { r with status := .finishedError, resumable := false } true :=
        ⟨outcome.delivered.orderKey, outcome.delivered.queue, nofun, rfl⟩
      have marked := outcome.reassign _ delivered
      exact ⟨_, ⟨marked.still.trans (.of_core rfl), marked.request, delivered⟩,
        fun _ hresumable => nomatch hresumable⟩

theorem Outcome.after {s₁ : Scheduler ω} {r₀ r : Request}
    (h : Outcome s s₁ id r₀ false) (h' : Outcome s₁ s' id r stopped) :
    Outcome s s' id r stopped where
  still := (still_reassign h.still r).trans h'.still
  request := by
    funext i
    have first := congrFun h.request i
    have last := congrFun h'.request i
    by_cases hi : i = id
    · subst hi
      simpa [setRequest] using last
    · simp only [setRequest, Function.update_of_ne hi] at first last ⊢
      exact last.trans first
  delivered := by
    have first := h.request_self ▸ h.delivered
    have last := h'.delivered
    rw [h.request_self] at last
    refine ⟨last.orderKey.trans h.delivered.orderKey, last.queue.trans h.delivered.queue,
      fun hr => h.delivered.resumable (last.resumable hr), ?_⟩
    rw [last.stage, h.delivered.stage]
    simp

/-- What the output of one request does to a scan: the request goes on as it was, or it
is finished and freed, or it is a session that waits for its next chunk. -/
inductive OutputMove (id : String) (status : RequestStatus) (again : Prop)
    (scan scan' : OutputScan ω) : Prop
  | keep : Still scan.sched scan'.sched →
      (∀ i, i ≠ id → scan'.sched.request i = scan.sched.request i) →
      scan'.stoppedRunningReqs = scan.stoppedRunningReqs →
      scan'.stoppedPreemptedReqs = scan.stoppedPreemptedReqs → OutputMove id status again scan scan'
  | finish (s : Scheduler ω) (r : Request) : Outcome scan.sched s id r true →
      (Still s scan'.sched ∨ Still (s.withRequests (s.requests.erase id)) scan'.sched) →
      (∀ i, i ≠ id → scan'.sched.request i = scan.sched.request i) →
      scan'.stoppedRunningReqs = (noteStopped id status scan).stoppedRunningReqs →
      scan'.stoppedPreemptedReqs = (noteStopped id status scan).stoppedPreemptedReqs →
      OutputMove id status again scan scan'
  | wait (s : Scheduler ω) (r session : Request) (idle : Int) : Outcome scan.sched s id r true →
      again → session.status.stage = .waits →
      scan'.sched = (s.withSession id session idle).enqueueWaitingRequest id →
      scan'.stoppedRunningReqs = (noteStopped id status scan).stoppedRunningReqs →
      scan'.stoppedPreemptedReqs = (noteStopped id status scan).stoppedPreemptedReqs →
      OutputMove id status again scan scan'

theorem still_withRequests (h : Still s s') (requests : List String) :
    Still (s.withRequests requests) (s'.withRequests requests) :=
  ⟨h.running, h.waiting, h.kvHoldingWaiting, h.deferredWaiting, rfl, h.stage, h.orderKey⟩

theorem noteStopped_lists (id : String) (status : RequestStatus) (scan scan' : OutputScan ω)
    (running : scan'.stoppedRunningReqs = scan.stoppedRunningReqs)
    (preempted : scan'.stoppedPreemptedReqs = scan.stoppedPreemptedReqs) :
    (noteStopped id status scan').stoppedRunningReqs =
    (noteStopped id status scan).stoppedRunningReqs ∧
    (noteStopped id status scan').stoppedPreemptedReqs =
    (noteStopped id status scan).stoppedPreemptedReqs ∧
    (noteStopped id status scan').sched = scan'.sched := by
  unfold noteStopped
  split
  · exact ⟨by rw [running], preempted, rfl⟩
  · exact ⟨running, by rw [preempted], rfl⟩

variable {status : RequestStatus}

theorem stopRequest_ok {scan scan' : OutputScan ω} (outcome : Outcome s scan.sched id r true)
    (h : stopRequest cfg parts id status scan = .ok scan') :
    OutputMove id status (goesOn r) { scan with sched := s } scan' := by
  have ⟨⟨finished, s₁⟩, hstop, h⟩ := bind_eq_ok.mp h
  have stop := handleStoppedRequest_ok hstop
  dsimp only at h
  split at h
  · rename_i hfinished
    have ⟨s₂, hfree, h⟩ := bind_eq_ok.mp h
    cases h
    have hfinished : finished = true := hfinished
    subst hfinished
    have still : Still scan.sched s₁ := stop.1
    have ⟨_, request, freed⟩ := freeRequest_ok hfree
    have ⟨running, preempted, sched⟩ := noteStopped_lists id status
      { scan with sched := s } { scan with sched := s₂ } rfl rfl
    refine .finish scan.sched r outcome ?_ (fun i hi => ?_) running preempted
    · rw [sched]
      refine freed.imp still.trans fun freed => Still.trans ?_ freed
      rw [still.requests]
      exact still_withRequests still _
    · rw [sched]
      exact ((congrFun request i).trans (stop.2 i hi)).trans (outcome.others hi)
  · rename_i hfinished
    cases h
    rw [Bool.not_eq_true] at hfinished
    subst hfinished
    have ⟨hgoes, session, idle, hstage, hs₁⟩ := stop
    rw [outcome.request_self] at hgoes
    have ⟨running, preempted, sched⟩ := noteStopped_lists id status
      { scan with sched := s } { scan with sched := s₁ } rfl rfl
    exact .wait scan.sched r session idle outcome hgoes hstage (sched.trans hs₁) running preempted

theorem Outcome.takePrefillStats (h : Outcome s s' id r stopped)
    (emits : Bool) : ∃ r', Outcome s (s'.takePrefillStats id emits) id r' stopped ∧
    r'.resumable = r.resumable := by
  unfold Scheduler.takePrefillStats
  split
  · rw [h.request_self]
    refine ⟨_, h.reassign _ ⟨?_, ?_, ?_, ?_⟩, rfl⟩
    · exact h.delivered.orderKey
    · exact h.delivered.queue
    · exact h.delivered.resumable
    · exact h.delivered.stage
  · exact ⟨r, h, rfl⟩

theorem emitOutput_same (output : EngineCoreOutput) (emits : Bool) (scan : OutputScan ω) :
    (emitOutput output emits scan).sched = scan.sched ∧
    (emitOutput output emits scan).stoppedRunningReqs = scan.stoppedRunningReqs ∧
    (emitOutput output emits scan).stoppedPreemptedReqs = scan.stoppedPreemptedReqs := by
  unfold emitOutput
  split <;> exact ⟨rfl, rfl, rfl⟩

theorem OutputMove.congr {waits waits' : Prop}
    {scan scan' scan'' : OutputScan ω} (h : OutputMove id status waits scan scan')
    (implied : waits → waits') (sched : scan''.sched = scan'.sched)
    (running : scan''.stoppedRunningReqs = scan'.stoppedRunningReqs)
    (preempted : scan''.stoppedPreemptedReqs = scan'.stoppedPreemptedReqs) :
    OutputMove id status waits' scan scan'' := by
  cases h with
  | keep still others hr hp =>
    exact .keep (sched ▸ still) (sched ▸ others) (running.trans hr) (preempted.trans hp)
  | finish s r outcome freed others hr hp =>
    exact .finish s r outcome (sched ▸ freed) (sched ▸ others) (running.trans hr)
      (preempted.trans hp)
  | wait s r session idle outcome hgoes stage hs hr hp =>
    exact .wait s r session idle outcome (implied hgoes) stage (sched.trans hs)
      (running.trans hr) (preempted.trans hp)

theorem applyOutput_ok {generated : List Int} {hasPoolerOutput isStale : Bool}
    {scan scan' : OutputScan ω}
    (h : applyOutput cfg parts id generated hasPoolerOutput isStale status scan = .ok scan') :
    OutputMove id status (goesOn (scan.sched.request id) ∧
    Stops cfg parts (scan.sched.request id) generated hasPoolerOutput isStale) scan scan' := by
  have ⟨⟨kept, stopped, s⟩, hdeliver, h⟩ := bind_eq_ok.mp h
  have ⟨r, outcome, stops⟩ := deliverOutput_ok hdeliver
  have ⟨r', outcome', resumable⟩ := outcome.takePrefillStats
    (decide (kept ≠ []) || hasPoolerOutput || stopped)
  dsimp only at h
  split at h
  · rename_i hstopped
    have ⟨scan₁, hstop, h⟩ := bind_eq_ok.mp h
    cases h
    have hstopped : stopped = true := hstopped
    subst hstopped
    have ⟨sched, running, preempted⟩ := emitOutput_same ⟨id, kept, true⟩
      (decide (kept ≠ []) || hasPoolerOutput || true) scan₁
    refine (stopRequest_ok outcome' hstop).congr (fun goes => ⟨⟨?_, ?_⟩, ?_⟩) sched running preempted
    · exact outcome'.delivered.resumable goes.1
    · exact outcome'.delivered.queue ▸ goes.2
    · exact stops rfl (resumable ▸ goes.1)
  · rename_i hstopped
    cases h
    have hstopped : stopped = false := Bool.eq_false_iff.mpr hstopped
    subst hstopped
    have ⟨sched, running, preempted⟩ := emitOutput_same ⟨id, kept, false⟩
      (decide (kept ≠ []) || hasPoolerOutput || false)
      { scan with sched := s.takePrefillStats id (decide (kept ≠ []) || hasPoolerOutput || false) }
    refine .keep ?_ (fun i hi => ?_) running preempted
    · rw [sched]
      refine Still.trans ?_ outcome'.still
      exact .setRequest outcome'.delivered.stage outcome'.delivered.orderKey
    · rw [sched]
      exact outcome'.others hi

theorem OutputMove.after {again : Prop} {scan scan' : OutputScan ω}
    (outcome : Outcome scan.sched s id r false)
    (h : OutputMove id status again { scan with sched := s } scan') :
    OutputMove id status again scan scan' := by
  have ⟨running, preempted, _⟩ := noteStopped_lists id status scan { scan with sched := s } rfl rfl
  cases h with
  | keep still others hr hp =>
    refine .keep (Still.trans ?_ (outcome.still.trans still)) (fun i hi => ?_) hr hp
    · exact .setRequest outcome.delivered.stage outcome.delivered.orderKey
    · exact (others i hi).trans (outcome.others hi)
  | finish s' r' outcome' freed others hr hp =>
    exact .finish s' r' (outcome.after outcome') freed
      (fun i hi => (others i hi).trans (outcome.others hi)) (hr.trans running) (hp.trans preempted)
  | wait s' r' session idle outcome' hagain stage hs hr hp =>
    exact .wait s' r' session idle (outcome.after outcome') hagain stage hs (hr.trans running)
      (hp.trans preempted)

theorem drainInFlight_ok {r r' : Request} {n : Int} {isStale : Bool}
    (h : drainInFlight r n = .ok (isStale, r')) : r'.status = r.status ∧ Delivered r r' false := by
  unfold drainInFlight at h
  dsimp only at h
  split at h
  · obtain ⟨_, _, h⟩ := bind_eq_ok.mp h
    cases h
    exact ⟨rfl, rfl, rfl, fun h => h, rfl⟩
  · cases h
    exact ⟨rfl, rfl, rfl, fun h => h, rfl⟩

theorem outputRequest_delivered (cfg : SchedulerConfig) (r : Request)
    (drafts generated : List Int) (isStale : Bool) :
    Delivered r (outputRequest cfg r drafts generated isStale) false := by
  unfold outputRequest
  split <;> exact ⟨rfl, rfl, fun h => h, rfl⟩

theorem Outcome.prepared (h : Outcome s s' id r false) (cfg : SchedulerConfig)
    (parts : Components ω) (drafts generated : List Int) (isStale : Bool) :
    Outcome s (if r.hasEncoderInputs then
    (s'.setRequest id (outputRequest cfg r drafts generated isStale)).freeEncoderInputs cfg parts id
    else s'.setRequest id (outputRequest cfg r drafts generated isStale)) id
    (outputRequest cfg r drafts generated isStale) false := by
  have assigned := outputRequest_delivered cfg r drafts generated isStale
  have last : Outcome s' (s'.setRequest id (outputRequest cfg r drafts generated isStale)) id
      (outputRequest cfg r drafts generated isStale) false :=
    ⟨.refl _, rfl, by rwa [h.request_self]⟩
  have first := h.after last
  split
  · exact ⟨first.still.trans (.of_core (core_freeEncoderInputs id)), first.request, first.delivered⟩
  · exact first

/-- The output of a step ends the turn of a session, which will wait for its next chunk. -/
def EndsTurn (cfg : SchedulerConfig) (parts : Components ω) (out : SchedulerOutput)
    (output : ModelRunnerOutput) (failedKvLoadReqIds : List String) (r : Request) (id : String)
    (numTokensScheduled : Int) : Prop :=
  ∃ isStale drained, drainInFlight r numTokensScheduled = .ok (isStale, drained) ∧
    ¬(id ∈ failedKvLoadReqIds ∨ drained.isFinished ∨ (isStale ∧ drained.dropStaleOutput)) ∧
    let generated := (output.sampledTokenIds.lookup id).getD []
    let drafts := (out.scheduledSpecDecodeTokens.lookup id).getD []
    let r := outputRequest cfg drained drafts generated isStale
    goesOn r ∧ Stops cfg parts r generated (id ∈ output.poolerOutput) isStale

theorem updateRequest_ok {out : SchedulerOutput} {output : ModelRunnerOutput}
    {failed : List String} {scan scan' : OutputScan ω} {n : Int}
    (h : updateRequest cfg parts out output failed scan id n = .ok scan') :
    (Still scan.sched scan'.sched ∧ (∀ i, i ≠ id → scan'.sched.request i = scan.sched.request i) ∧
    scan'.stoppedRunningReqs = scan.stoppedRunningReqs ∧
    scan'.stoppedPreemptedReqs = scan.stoppedPreemptedReqs) ∨
    id ∈ scan.sched.requests ∧ ¬(scan.sched.request id).isFinished ∧
    OutputMove id (scan.sched.request id).status
    (EndsTurn cfg parts out output failed (scan.sched.request id) id n) scan scan' := by
  have ⟨_, _, h⟩ := bind_eq_ok.mp h
  dsimp only at h
  split at h
  · cases h
    exact .inl ⟨.refl _, fun _ _ => rfl, rfl, rfl⟩
  · rename_i hknown
    have ⟨⟨isStale, drained⟩, hdrain, h⟩ := bind_eq_ok.mp h
    have ⟨status, first⟩ := drainInFlight_ok hdrain
    dsimp only at h
    split at h
    · cases h
      refine .inl ⟨.setRequest first.stage first.orderKey, fun i hi => ?_, rfl, rfl⟩
      simp [setRequest, hi]
    · rename_i hgoes
      refine .inr ⟨not_not.mp hknown, ?_, ?_⟩
      · intro finished
        refine hgoes (.inr (.inl ?_))
        unfold Request.isFinished at finished ⊢
        rwa [status]
      · rw [status] at h
        have start : Outcome scan.sched (scan.sched.setRequest id drained) id drained false :=
          ⟨.refl _, rfl, first⟩
        have ready := start.prepared cfg parts ((out.scheduledSpecDecodeTokens.lookup id).getD [])
          ((output.sampledTokenIds.lookup id).getD []) isStale
        refine ((applyOutput_ok h).congr (fun again => ?_) rfl rfl rfl).after ready
        dsimp only at again
        rw [ready.request_self] at again
        exact ⟨isStale, drained, hdrain, hgoes, again⟩

theorem OutputMove.others {again : Prop} {scan scan' : OutputScan ω}
    (h : OutputMove id status again scan scan') :
    (∀ i, i ≠ id → scan'.sched.request i = scan.sched.request i) ∧
    ∀ i ∈ scan'.sched.requests, i ∈ scan.sched.requests := by
  cases h with
  | keep still others _ _ => exact ⟨others, fun i hi => still.requests ▸ hi⟩
  | finish s r outcome freed others _ _ =>
    have same : s.requests = scan.sched.requests := outcome.still.requests
    refine ⟨others, fun i hi => ?_⟩
    rcases freed with still | still
    · exact same ▸ still.requests ▸ hi
    · rw [still.requests] at hi
      exact same ▸ List.mem_of_mem_erase hi
  | wait s r session idle outcome _ _ hs _ _ =>
    have same : s.requests = scan.sched.requests := outcome.still.requests
    rw [hs]
    have request : ∀ t : Scheduler ω, (t.enqueueWaitingRequest id).request = t.request ∧
        (t.enqueueWaitingRequest id).requests = t.requests := by
      intro t
      unfold enqueueWaitingRequest
      dsimp only
      split <;> split <;> exact ⟨rfl, rfl⟩
    rw [(request _).1, (request _).2]
    refine ⟨fun i hi => ?_, fun i hi => same ▸ hi⟩
    refine Eq.trans ?_ (outcome.others hi)
    simp [withSession, setRequest, hi]

theorem updateRequest_others {out : SchedulerOutput} {output : ModelRunnerOutput}
    {failed : List String} {scan scan' : OutputScan ω} {n : Int}
    (h : updateRequest cfg parts out output failed scan id n = .ok scan') :
    (∀ i, i ≠ id → scan'.sched.request i = scan.sched.request i) ∧
    ∀ i ∈ scan'.sched.requests, i ∈ scan.sched.requests := by
  rcases updateRequest_ok h with ⟨still, others, _⟩ | ⟨_, _, move⟩
  · exact ⟨others, fun i hi => still.requests ▸ hi⟩
  · exact move.others

end VllmAmpere.Sched.Scheduler
