import VllmAmpere.SchedulerEngine

/-! What the calls of a scheduling step leave alone. The core of a scheduler is its
state without the marks that no decision about another request reads; most calls
keep it. -/

namespace VllmAmpere.Sched

def Request.core (r : Request) : Request := { r with sharedPrefixBoundary := 0, replayStart := 0 }

namespace Scheduler

variable {ω : Type} {cfg : SchedulerConfig} {parts : Components ω} {s s' : Scheduler ω}

/-- The containers, the counters and the requests of a scheduler. -/
def core (s : Scheduler ω) : Scheduler Unit :=
  { s with
    request := fun id => (s.request id).core
    encoderCacheMismatchReqs := []
    grammarCompileErrorReqs := []
    deferredFrees := []
    world := () }

section

variable (h : s'.core = s.core)
include h

theorem core_request (id : String) :
    (s'.request id).core = (s.request id).core :=
  congrFun (congrArg Scheduler.request h) id

theorem core_status (id : String) :
    (s'.request id).status = (s.request id).status := by
  have same := congrArg Request.status (core_request h id)
  exact same

theorem core_running : s'.running = s.running :=
  congrArg (fun t : Scheduler Unit => t.running) h

theorem core_waiting : s'.waiting = s.waiting :=
  congrArg (fun t : Scheduler Unit => t.waiting) h

theorem core_kvHoldingWaiting : s'.kvHoldingWaiting = s.kvHoldingWaiting :=
  congrArg (fun t : Scheduler Unit => t.kvHoldingWaiting) h

theorem core_deferredWaiting : s'.deferredWaiting = s.deferredWaiting :=
  congrArg (fun t : Scheduler Unit => t.deferredWaiting) h

theorem core_requests : s'.requests = s.requests :=
  congrArg (fun t : Scheduler Unit => t.requests) h

theorem core_orderKey : s'.orderKey = s.orderKey := by
  funext id
  have same := congrArg Request.orderKey (core_request h id)
  exact same

end

variable {id : String}

theorem core_setRequest {r : Request} (h : r.core = (s.request id).core) :
    (s.setRequest id r).core = s.core := by
  have same : (fun i => ((s.setRequest id r).request i).core) = fun i => (s.request i).core := by
    funext i
    by_cases hi : i = id
    · subst hi
      simpa [setRequest] using h
    · simp [setRequest, hi]
  simp only [core, same]
  rfl

theorem core_freeRequestBlocks (id : String) : (s.freeRequestBlocks cfg parts id).core = s.core := by
  unfold freeRequestBlocks
  split
  · rfl
  · dsimp only
    split <;> rfl

theorem core_congr_setRequest (h : s'.core = s.core) (id : String) {r r' : Request}
    (hr : r'.core = r.core) : (s'.setRequest id r').core = (s.setRequest id r).core := by
  have same : (fun i => ((s'.setRequest id r').request i).core) =
      fun i => ((s.setRequest id r).request i).core := by
    funext i
    by_cases hi : i = id
    · subst hi
      simpa [setRequest] using hr
    · simpa [setRequest, hi] using core_request h i
  have rest := congrArg (fun t : Scheduler Unit => { t with request := fun _ => (s.request id) }) h
  simp only [core, same]
  simp only [core] at rest
  simp only [Scheduler.mk.injEq] at rest ⊢
  simp only [setRequest]
  tauto

def preemptedRequest (r : Request) (dropStaleOutput : Bool) : Request :=
  { r with
    status := .preempted
    numComputedTokens := 0
    specTokenIds := []
    dropStaleOutput :=
      dropStaleOutput || (r.dropStaleOutput && decide (0 < r.numStaleOutputTokens))
    numStaleOutputTokens := r.numInFlightTokens
    numOutputPlaceholders := 0
    numPreemptions := r.numPreemptions + 1 }

def preempted (s : Scheduler ω) (id : String) (dropStaleOutput : Bool) : Scheduler ω :=
  let s := { s with inflightPrefills := discard s.inflightPrefills id }
  let s := s.setRequest id (preemptedRequest (s.request id) dropStaleOutput)
  { s with
    waiting := s.waiting.prependRequest s.orderKey id
    resetPreemptedReqIds := setAdd s.resetPreemptedReqIds id }

theorem setRequest_orderKey {r : Request}
    (h : r.orderKey = (s.request id).orderKey) : (s.setRequest id r).orderKey = s.orderKey := by
  funext i
  by_cases hi : i = id
  · subst hi
    simpa [setRequest, Scheduler.orderKey] using h
  · simp [setRequest, Scheduler.orderKey, hi]

theorem preempted_waiting (id : String) (dropStaleOutput : Bool) :
    (s.preempted id dropStaleOutput).waiting = s.waiting.prependRequest s.orderKey id := by
  have same : (({ s with inflightPrefills := discard s.inflightPrefills id } :
      Scheduler ω).setRequest id (preemptedRequest (s.request id) dropStaleOutput)).orderKey =
        s.orderKey := setRequest_orderKey rfl
  exact congrArg (fun key => s.waiting.prependRequest key id) same

theorem preemptRequest_ok {dropStaleOutput : Bool}
    (h : s.preemptRequest cfg parts id dropStaleOutput = .ok s') :
    (s.request id).status = .running ∧ s'.core = (s.preempted id dropStaleOutput).core := by
  have ⟨_, hstatus, h⟩ := bind_eq_ok.mp h
  refine ⟨pyAssert_ok.mp hstatus, ?_⟩
  cases h
  unfold freeRequestBlocks
  split
  · rfl
  · dsimp only
    split <;> rfl

theorem core_drainDeferredFrees : (s.drainDeferredFrees parts).core = s.core := rfl

theorem core_freeCowRetainedBlocks (blocks : List BlockId) (fenceSeq : Nat) :
    (s.freeCowRetainedBlocks cfg parts blocks fenceSeq).core = s.core := by
  unfold freeCowRetainedBlocks
  split <;> rfl

theorem core_takeCopies : (s.takeCopies cfg parts).2.core = s.core := by
  unfold takeCopies
  dsimp only
  split
  · rfl
  · exact core_freeCowRetainedBlocks _ _

theorem core_freeEncoderInputs (id : String) : (s.freeEncoderInputs cfg parts id).core = s.core :=
  rfl

theorem core_connectorFinished (id : String) :
    (s.connectorFinished cfg parts id).2.core = s.core := by
  unfold connectorFinished
  split <;> rfl

theorem core_pendingBlockFrees : (s.pendingBlockFrees cfg parts).2.core = s.core := by
  unfold pendingBlockFrees
  split <;> rfl

theorem core_markPrefixReplay (id : String) (numHitTokens : Int) :
    (s.markPrefixReplay cfg id numHitTokens).2.core = s.core := by
  unfold markPrefixReplay
  split
  · rfl
  · exact core_setRequest rfl

theorem core_ecTransferPending (id : String) (numComputedTokens : Int) :
    (s.ecTransferPending cfg parts id numComputedTokens).2.core = s.core := by
  unfold ecTransferPending
  split <;> rfl

theorem core_setSharedPrefixBoundary (id : String) (hit : PrefixHit) :
    (s.setSharedPrefixBoundary id hit).core = s.core :=
  core_setRequest rfl

theorem core_localPrefixCacheHit (id : String) :
    (s.localPrefixCacheHit cfg parts id).2.core = s.core := by
  unfold localPrefixCacheHit
  exact core_setSharedPrefixBoundary id _

theorem core_reconcileHit (id : String) (hitDiverged : Bool) (joined : JoinedHit) :
    (s.reconcileHit parts id hitDiverged joined).2.core = s.core := by
  unfold reconcileHit
  split
  · exact core_setSharedPrefixBoundary id _
  · rfl

theorem core_externalHit (id : String) (hit : PrefixHit) (hitDiverged : Bool) :
    (s.externalHit cfg parts id hit hitDiverged).2.core = s.core := by
  unfold externalHit
  dsimp only
  split
  · rfl
  · exact core_reconcileHit id hitDiverged _

theorem core_prefixHit (id : String) : (s.prefixHit cfg parts id).2.core = s.core := by
  have hit : (s.localPrefixCacheHit cfg parts id).2.core = s.core := core_localPrefixCacheHit id
  unfold prefixHit
  split
  rename_i heq
  rw [heq] at hit
  split
  · exact (core_externalHit id _ _).trans hit
  · exact hit

theorem core_rejectOnEncoderCacheEmbedMismatch (id : String) (cached requested : Nat) :
    (s.rejectOnEncoderCacheEmbedMismatch id cached requested).2.core = s.core := by
  unfold rejectOnEncoderCacheEmbedMismatch
  split <;> rfl

theorem core_computedTokens {found : Option Admission}
    (h : s.computedTokens cfg parts id = .ok (found, s')) : s'.core = s.core := by
  have hit : (s.prefixHit cfg parts id).2.core = s.core := core_prefixHit id
  unfold computedTokens at h
  dsimp only at h
  split at h
  · split at h
    · rename_i heq
      rw [heq] at hit
      cases h
      exact hit
    · rename_i joined s₁ heq
      rw [heq] at hit
      have pending : (s₁.ecTransferPending cfg parts id
          (admissionOf cfg joined).numComputedTokens).2.core = s₁.core :=
        core_ecTransferPending id _
      obtain ⟨_, _, h⟩ := bind_eq_ok.mp h
      split at h
      · rename_i heq
        rw [heq] at pending
        cases h
        exact pending.trans hit
      · rename_i heq
        rw [heq] at pending
        obtain ⟨_, _, h⟩ := bind_eq_ok.mp h
        cases h
        exact pending.trans hit
  · have pending : (s.ecTransferPending cfg parts id
        (s.request id).numComputedTokens).2.core = s.core := core_ecTransferPending id _
    split at h
    all_goals
      rename_i heq
      rw [heq] at pending
      cases h
      exact pending

theorem core_rejectOnCachedMismatch (id : String) (requested : Nat) (cached : Option Nat) :
    (s.rejectOnCachedMismatch id requested cached).2.core = s.core := by
  cases cached with
  | none => rfl
  | some cached => exact core_rejectOnEncoderCacheEmbedMismatch id _ _

theorem core_knownEncoderInput (id : String) (i : Nat) (f : MultiModalFeature)
    (scheduled : Option Nat) :
    (s.knownEncoderInput cfg parts id i f scheduled).2.core = s.core := by
  unfold knownEncoderInput
  dsimp only
  split
  · rfl
  · split
    · exact core_rejectOnEncoderCacheEmbedMismatch id _ _
    · have reject := core_rejectOnCachedMismatch (s := s) id f.getNumEmbeds
        (parts.getCachedNumEncoderEmbeds s.world (s.request id) i)
      split
      all_goals
        rename_i heq
        rw [heq] at reject
        exact reject

theorem core_fitEncoderInput (id : String) (numComputedTokens shift windowEnd : Int) (i : Nat)
    (f : MultiModalFeature) (scan : EncoderScan) :
    (s.fitEncoderInput cfg parts id numComputedTokens shift windowEnd i f scan).2.core =
    s.core := by
  unfold fitEncoderInput
  dsimp only
  split
  · rfl
  · split
    · rfl
    · split
      · rfl
      · unfold planEncoderInput
        dsimp only
        split <;> split <;> rfl

theorem core_scanEncoderInput {numComputedTokens shift windowEnd : Int} {i : Nat}
    {f : MultiModalFeature} {scan : EncoderScan} {outcome : Option (EncoderScan × Bool)}
    (h : s.scanEncoderInput cfg parts id numComputedTokens shift windowEnd i f scan =
    .ok (outcome, s')) : s'.core = s.core := by
  unfold scanEncoderInput at h
  split at h
  · obtain ⟨_, _, h⟩ := bind_eq_ok.mp h
    cases h
    rfl
  · have known : (s.knownEncoderInput cfg parts id i f
        (scan.mmHashesToSchedule.lookup f.identifier)).2.core = s.core :=
      core_knownEncoderInput id i f _
    split at h
    all_goals
      rename_i heq
      rw [heq] at known
      cases h
    · exact known
    · exact known
    · exact (core_fitEncoderInput id _ _ _ _ _ _).trans known

theorem core_scanEncoderInputs {numComputedTokens shift windowEnd : Int}
    (features : List MultiModalFeature) {i : Nat} {scan : EncoderScan}
    {outcome : Option EncoderScan}
    (h : scanEncoderInputs cfg parts id numComputedTokens shift windowEnd i features scan s =
    .ok (outcome, s')) : s'.core = s.core := by
  induction features generalizing i scan s with
  | nil =>
    cases h
    rfl
  | cons f rest ih =>
    have ⟨⟨found, s₁⟩, hscan, h⟩ := bind_eq_ok.mp h
    have first := core_scanEncoderInput hscan
    cases found with
    | none =>
      cases h
      exact first
    | some found =>
      obtain ⟨scan₁, goesOn⟩ := found
      cases goesOn with
      | false =>
        cases h
        exact first
      | true => exact (ih h).trans first

theorem core_encoderPlan {numComputedTokens numNewTokens budget : Int} {plan : EncoderPlan}
    (h : s.encoderPlan cfg parts id numComputedTokens numNewTokens budget = .ok (plan, s')) :
    s'.core = s.core := by
  unfold encoderPlan at h
  split at h
  · unfold tryScheduleEncoderInputs at h
    dsimp only at h
    split at h
    · cases h
      rfl
    · have ⟨⟨found, s₁⟩, hscan, h⟩ := bind_eq_ok.mp h
      have same := core_scanEncoderInputs _ hscan
      cases found <;> cases h <;> exact same
  · cases h
    rfl

end Scheduler

namespace Step

variable {ω : Type} {cfg : SchedulerConfig} {parts : Components ω} {limits : StepLimits}
  {st : Step ω}

theorem core_skipsRunning (id : String) :
    (st.skipsRunning cfg parts limits id).2.core = st.sched.core := by
  unfold skipsRunning
  dsimp only
  split
  · rfl
  · split
    · rfl
    · split
      · rfl
      · split <;> rfl

theorem core_waitingChunk {id : String} {a : Admission} {found : Option Chunk}
    {s' : Scheduler ω} (h : st.waitingChunk cfg parts limits id a = .ok (found, s')) :
    s'.core = st.sched.core := by
  unfold waitingChunk at h
  dsimp only at h
  split at h
  · obtain ⟨_, _, h⟩ := bind_eq_ok.mp h
    cases h
    rfl
  · split at h
    · cases h
      rfl
    · have replay : (if a.didPrefixCacheLookup then
          st.sched.markPrefixReplay cfg id a.numComputedTokens else (0, st.sched)).2.core =
            st.sched.core := by
        split
        · exact Scheduler.core_markPrefixReplay id _
        · rfl
      generalize (if a.didPrefixCacheLookup then
          st.sched.markPrefixReplay cfg id a.numComputedTokens else (0, st.sched)) = marked
        at h replay
      obtain ⟨numReplayTokens, s₁⟩ := marked
      dsimp only at h replay
      split at h
      · cases h
        exact replay
      · split at h
        · cases h
          exact replay
        · obtain ⟨_, _, h⟩ := bind_eq_ok.mp h
          split at h
          · cases h
            exact replay
          · obtain ⟨⟨plan, s₂⟩, hplan, h⟩ := bind_eq_ok.mp h
            have same := Scheduler.core_encoderPlan hplan
            dsimp only at h
            split at h <;> cases h <;> exact same.trans replay

end Step

end VllmAmpere.Sched
