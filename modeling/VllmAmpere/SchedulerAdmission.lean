import VllmAmpere.SchedulerMoves
import VllmAmpere.SchedulerStill

/-! The moves of the loop over the waiting requests. A round first prepares the request
at the head of a queue, which leaves the queues alone, and then takes it out of its
queue or ends the loop. -/

namespace VllmAmpere.Sched

namespace Scheduler

variable {ω : Type} {cfg : SchedulerConfig} {parts : Components ω} {s s' : Scheduler ω}

/-- A scheduler in which a request got another status and another start, and the
marks of finished KV transfers changed. -/
def withUnblocked (s : Scheduler ω) (id : String) (status : RequestStatus)
    (numComputedTokens : Int) (finished failed : List String) : Scheduler ω :=
  { s.setRequest id { s.request id with
      status := status, numComputedTokens := numComputedTokens } with
    finishedRecvingKvReqIds := finished
    failedRecvingKvReqIds := failed }

theorem core_withUnblocked (h : s'.core = s.core) (id : String) (status : RequestStatus)
    (numComputedTokens : Int) (finished failed : List String) :
    (s'.withUnblocked id status numComputedTokens finished failed).core =
    (s.withUnblocked id status numComputedTokens finished failed).core := by
  have moved : ∀ r r' : Request, r.core = r'.core →
      { r with status := status, numComputedTokens := numComputedTokens }.core =
        { r' with status := status, numComputedTokens := numComputedTokens }.core :=
    fun _ _ hr => congrArg (fun r : Request => { r with
      status := status, numComputedTokens := numComputedTokens }) hr
  have same := core_congr_setRequest h id (moved _ _ (core_request h id))
  exact congrArg (fun t : Scheduler Unit => { t with
    finishedRecvingKvReqIds := finished, failedRecvingKvReqIds := failed }) same

variable (parts s) in
theorem core_cacheReceivedKv (id : String) : ∃ failed,
    (s.cacheReceivedKv parts id).core = { s with failedRecvingKvReqIds := failed }.core := by
  unfold cacheReceivedKv
  dsimp only
  split
  · exact ⟨_, rfl⟩
  · exact ⟨_, rfl⟩

variable {id : String}

theorem updateWaitingForRemoteKv_ok (h : s.updateWaitingForRemoteKv cfg parts id = .ok s') :
    ∃ status numComputedTokens finished failed,
    s'.core = (s.withUnblocked id status numComputedTokens finished failed).core ∧
    status = (s.request id).status := by
  have ⟨_, _, h⟩ := bind_eq_ok.mp h
  have ⟨failed, hcache⟩ := core_cacheReceivedKv parts s id
  have replay : ((s.cacheReceivedKv parts id).markPrefixReplay cfg id
      (s.request id).numComputedTokens).2.core = (s.cacheReceivedKv parts id).core :=
    core_markPrefixReplay id _
  dsimp only at h
  generalize (s.cacheReceivedKv parts id).markPrefixReplay cfg id
    (s.request id).numComputedTokens = marked at h replay
  obtain ⟨numReplayTokens, s₁⟩ := marked
  have same := replay.trans hcache
  have hs' := Except.ok.inj h
  subst hs'
  exact ⟨_, _, _, _, core_withUnblocked same id _ _ _ _, core_status same id⟩

theorem withUnblocked_self (id : String) : s.withUnblocked id (s.request id).status
    (s.request id).numComputedTokens s.finishedRecvingKvReqIds s.failedRecvingKvReqIds = s := by
  simp [withUnblocked, setRequest]

theorem withUnblocked_idem (id : String) (status status' : RequestStatus)
    (numComputedTokens numComputedTokens' : Int) (finished finished' failed failed' : List String) :
    (s.withUnblocked id status numComputedTokens finished failed).withUnblocked id status'
    numComputedTokens' finished' failed' =
    s.withUnblocked id status' numComputedTokens' finished' failed' := by
  simp [withUnblocked, setRequest]

theorem handleBlockedWaitingRequest_ok {ready : Bool}
    (h : s.handleBlockedWaitingRequest cfg parts id = .ok (ready, s')) :
    ∃ status numComputedTokens finished failed,
    s'.core = (s.withUnblocked id status numComputedTokens finished failed).core ∧
    (status = (s.request id).status ∨ isBlockedWaitingStatus (s.request id).status ∧
    (status = .waiting ∨ status = .preempted)) := by
  have unchanged : ∀ t : Scheduler ω, t.core = s.core →
      ∃ status numComputedTokens finished failed,
        t.core = (s.withUnblocked id status numComputedTokens finished failed).core ∧
        (status = (s.request id).status ∨ isBlockedWaitingStatus (s.request id).status ∧
          (status = .waiting ∨ status = .preempted)) := by
    intro t ht
    refine ⟨(s.request id).status, (s.request id).numComputedTokens, s.finishedRecvingKvReqIds,
      s.failedRecvingKvReqIds, ?_, .inl rfl⟩
    rw [withUnblocked_self]
    exact ht
  unfold handleBlockedWaitingRequest at h
  dsimp only at h
  split at h
  · rename_i hstatus
    split at h
    · cases h
      exact unchanged _ rfl
    · have ⟨s₁, hupdate, h⟩ := bind_eq_ok.mp h
      have ⟨_, _, _, _, hcore, _⟩ := updateWaitingForRemoteKv_ok hupdate
      cases h
      refine ⟨if (s₁.request id).numPreemptions ≠ 0 then .preempted else .waiting,
        (s₁.request id).numComputedTokens, s₁.finishedRecvingKvReqIds, s₁.failedRecvingKvReqIds,
        ?_, .inr ⟨by rw [hstatus]; rfl, ?_⟩⟩
      · have twice := core_withUnblocked hcore id
          (if (s₁.request id).numPreemptions ≠ 0 then .preempted else .waiting)
          (s₁.request id).numComputedTokens s₁.finishedRecvingKvReqIds s₁.failedRecvingKvReqIds
        rw [withUnblocked_idem] at twice
        exact twice
      · split
        · exact .inr rfl
        · exact .inl rfl
  · rename_i hstatus
    split at h
    · cases h
      exact unchanged _ rfl
    · cases h
      exact unchanged _ rfl
    · cases h
      exact ⟨.waiting, (s.request id).numComputedTokens, s.finishedRecvingKvReqIds,
        s.failedRecvingKvReqIds, rfl, .inr ⟨by rw [hstatus]; rfl, .inl rfl⟩⟩
  · have ⟨_, _, h⟩ := bind_eq_ok.mp h
    cases h
    exact unchanged _ rfl
  · cases h
    exact unchanged _ rfl

theorem handleBlockedWaitingRequest_still {ready : Bool}
    (h : s.handleBlockedWaitingRequest cfg parts id = .ok (ready, s')) : Still s s' := by
  have ⟨status, numComputedTokens, _, _, hcore, hstatus⟩ := handleBlockedWaitingRequest_ok h
  refine Still.trans ?_ (.of_core hcore)
  have stage : status.stage = (s.request id).status.stage := by
    rcases hstatus with rfl | ⟨hblocked, rfl | rfl⟩
    · rfl
    · cases hs : (s.request id).status <;> simp [hs, isBlockedWaitingStatus] at hblocked <;> rfl
    · cases hs : (s.request id).status <;> simp [hs, isBlockedWaitingStatus] at hblocked <;> rfl
  have assigned : Still s (s.setRequest id { s.request id with
      status := status, numComputedTokens := numComputedTokens }) := .setRequest stage rfl
  exact assigned.trans ⟨rfl, rfl, rfl, rfl, rfl, fun _ => rfl, rfl⟩

def admitted (s : Scheduler ω) (id : String) (numComputedTokens : Int)
    (inflightPrefills : List String) : Scheduler ω :=
  { s.setRequest id { s.request id with
      status := .running, numComputedTokens := numComputedTokens } with
    deferredWaiting := discard s.deferredWaiting id
    running := s.running ++ [id]
    inflightPrefills := inflightPrefills }

end Scheduler

namespace Step

variable {ω : Type} {cfg : SchedulerConfig} {parts : Components ω} {limits : StepLimits}
  {st st' : Step ω} {fromKv : Bool} {id : String}

variable (cfg parts st) in
theorem scheduleRunning_still (id : String) (newBlocks : KVCacheBlocks) (plan : EncoderPlan) :
    Still st.sched (st.scheduleRunning cfg parts id newBlocks plan).sched := by
  refine Still.trans ?_ (.of_core (scheduleRunning_sched id newBlocks plan))
  exact .setRequest rfl rfl

/-- A step without the request that was popped from one of its queues. -/
def withQueue (st : Step ω) (fromKv : Bool) (queue : RequestQueue String) : Step ω :=
  if fromKv then { st with sched := { st.sched with kvHoldingWaiting := queue } }
  else { st with sched := { st.sched with waiting := queue } }

variable (st) in
theorem withQueue_same (fromKv : Bool) (queue : RequestQueue String) :
    (st.withQueue fromKv queue).stepSkippedKvHolding = st.stepSkippedKvHolding ∧
    (st.withQueue fromKv queue).stepSkippedWaiting = st.stepSkippedWaiting ∧
    (st.withQueue fromKv queue).sched.running = st.sched.running := by
  cases fromKv <;> exact ⟨rfl, rfl, rfl⟩

def queueOf (st : Step ω) (fromKv : Bool) : RequestQueue String :=
  if fromKv then st.sched.kvHoldingWaiting else st.sched.waiting

theorem popFrom_ok (h : st.popFrom fromKv = .ok (id, st')) :
    ∃ queue, (st.queueOf fromKv).popRequest st.sched.orderKey = .ok (id, queue) ∧
    st' = st.withQueue fromKv queue := by
  unfold popFrom at h
  cases fromKv with
  | true =>
    have ⟨⟨popped, queue⟩, hpop, h⟩ := bind_eq_ok.mp h
    cases h
    exact ⟨queue, hpop, rfl⟩
  | false =>
    have ⟨⟨popped, queue⟩, hpop, h⟩ := bind_eq_ok.mp h
    cases h
    exact ⟨queue, hpop, rfl⟩

def withSkipped (st : Step ω) (id : String) (holdsKv : Bool) : Step ω :=
  { st with
    sched := { st.sched with deferredWaiting := setAdd st.sched.deferredWaiting id }
    stepSkippedKvHolding :=
      if holdsKv then id :: st.stepSkippedKvHolding else st.stepSkippedKvHolding
    stepSkippedWaiting :=
      if holdsKv then st.stepSkippedWaiting else id :: st.stepSkippedWaiting }

variable (st) in
theorem skipRequest_ok (h : st.skipRequest fromKv = .ok st') : ∃ id queue holdsKv,
    (st.queueOf fromKv).popRequest st.sched.orderKey = .ok (id, queue) ∧
    st' = (st.withQueue fromKv queue).withSkipped id holdsKv := by
  have ⟨⟨id, st₁⟩, hpop, h⟩ := bind_eq_ok.mp h
  have ⟨queue, hqueue, heq⟩ := popFrom_ok hpop
  refine ⟨id, queue, Scheduler.holdsKvBlocks (st₁.sched.request id), hqueue, ?_⟩
  rw [← heq]
  dsimp only at h
  split at h
  · rename_i holds
    cases h
    have holds : Scheduler.holdsKvBlocks (st₁.sched.request id) = true := holds
    simp [withSkipped, holds]
  · rename_i holds
    cases h
    have holds : Scheduler.holdsKvBlocks (st₁.sched.request id) = false :=
      Bool.eq_false_iff.mpr holds
    simp [withSkipped, holds]

variable (cfg) in
/-- What an admission adds to a step. -/
structure Admits (st st' : Step ω) (id : String) (a : Admission) (chunk : Chunk) : Prop where
  status : (st.sched.request id).status = .waiting ∨ (st.sched.request id).status = .preempted
  sched : ∃ inflightPrefills, st'.sched.core =
    (st.sched.admitted id chunk.numComputedTokens inflightPrefills).core
  skippedWaiting : st'.stepSkippedWaiting = st.stepSkippedWaiting
  skippedKvHolding : st'.stepSkippedKvHolding = st.stepSkippedKvHolding
  tokens : st'.numScheduledTokens = dictSet id chunk.plan.numNewTokens st.numScheduledTokens
  tokenBudget : st'.tokenBudget = st.tokenBudget - chunk.plan.numNewTokens
  inputBudget : st'.inputBudget = st.inputBudget - (chunk.plan.numNewTokens + cfg.draftSlots)
  running : st'.scheduledRunningReqs = st.scheduledRunningReqs
  preempted : st'.preemptedReqs = st.preemptedReqs
  fresh : (st'.scheduledNewReqs = st.scheduledNewReqs ++ [id] ∧
      st'.scheduledResumedReqs = st.scheduledResumedReqs) ∨
    (st'.scheduledNewReqs = st.scheduledNewReqs ∧
      st'.scheduledResumedReqs = st.scheduledResumedReqs ++ [id])
  padded : chunk.padSpecDecode → chunk.plan.numNewTokens = 1 + cfg.numSpecTokens

theorem noteAdmitted_ok (h : st.noteAdmitted id = .ok st') :
    ((st.sched.request id).status = .waiting ∨ (st.sched.request id).status = .preempted) ∧
      ∃ fresh resumed, st' = { st with
        scheduledNewReqs := fresh, scheduledResumedReqs := resumed } ∧
          (fresh = st.scheduledNewReqs ++ [id] ∧ resumed = st.scheduledResumedReqs ∨
            fresh = st.scheduledNewReqs ∧ resumed = st.scheduledResumedReqs ++ [id]) := by
  unfold noteAdmitted at h
  split at h
  · rename_i hstatus
    cases h
    exact ⟨.inl hstatus, _, _, rfl, .inl ⟨rfl, rfl⟩⟩
  · rename_i hstatus
    cases h
    exact ⟨.inr hstatus, _, _, rfl, .inr ⟨rfl, rfl⟩⟩
  · cases h

variable {chunk : Chunk}

theorem padAdmitted_ok (h : st.padAdmitted cfg id chunk = .ok st') :
    (chunk.padSpecDecode → chunk.plan.numNewTokens = 1 + cfg.numSpecTokens) ∧
    ∃ spec, st' = { st with scheduledSpecDecodeTokens := spec } := by
  unfold padAdmitted at h
  split at h
  · obtain ⟨_, hn, h⟩ := bind_eq_ok.mp h
    cases h
    exact ⟨fun _ => pyAssert_ok.mp hn, _, rfl⟩
  · rename_i hpad
    cases h
    exact ⟨fun padded => absurd padded hpad, _, rfl⟩

variable (st id) in
theorem trackPrefill_eq (chunk : Chunk) : ∃ inflight, st.trackPrefill id chunk =
    { st with sched := { st.sched with inflightPrefills := inflight } } := by
  unfold trackPrefill
  split <;> exact ⟨_, rfl⟩

variable (cfg parts st id) in
theorem encodeAdmitted_eq (chunk : Chunk) : ∃ world inputs budget,
    st.encodeAdmitted cfg parts id chunk = { st with
      sched := { st.sched with world := world }
      scheduledEncoderInputs := inputs
      encoderComputeBudget := budget } := by
  unfold encodeAdmitted
  dsimp only
  split <;> exact ⟨_, _, _, rfl⟩

variable {a : Admission}

theorem admit_ok (h : st.admitRequest cfg parts fromKv a chunk = .ok st') :
    ∃ id queue, (st.queueOf fromKv).popRequest st.sched.orderKey = .ok (id, queue) ∧
    Admits cfg (st.withQueue fromKv queue) st' id a chunk := by
  have ⟨⟨id, st₁⟩, hpop, h⟩ := bind_eq_ok.mp h
  have ⟨queue, hqueue, heq⟩ := popFrom_ok hpop
  refine ⟨id, queue, hqueue, ?_⟩
  rw [← heq]
  have ⟨st₂, hnote, h⟩ := bind_eq_ok.mp h
  have ⟨st₃, hpad, h⟩ := bind_eq_ok.mp h
  have ⟨status, fresh, resumed, hst₂, listed⟩ := noteAdmitted_ok hnote
  have ⟨padded, spec, hst₃⟩ := padAdmitted_ok hpad
  have ⟨inflight, htrack⟩ := trackPrefill_eq st₃ id chunk
  have ⟨world, inputs, budget, hencode⟩ := encodeAdmitted_eq cfg parts
    (st₃.trackPrefill id chunk) id chunk
  have hst' := Except.ok.inj h
  rw [hencode, htrack, hst₃, hst₂] at hst'
  subst hst'
  exact {
    status := status
    sched := ⟨inflight, rfl⟩
    skippedWaiting := rfl
    skippedKvHolding := rfl
    tokens := rfl
    tokenBudget := rfl
    inputBudget := rfl
    running := rfl
    preempted := rfl
    fresh := listed
    padded := padded }

theorem markPrefixReplay_bounds (s : Scheduler ω) (id : String) {numHitTokens : Int}
    (h : 0 ≤ numHitTokens) : 0 ≤ (s.markPrefixReplay cfg id numHitTokens).1 ∧
    (s.markPrefixReplay cfg id numHitTokens).1 ≤ numHitTokens := by
  unfold Scheduler.markPrefixReplay
  split
  · exact ⟨le_refl _, h⟩
  · dsimp only
    omega

/-- Where the chunk of a waiting request starts. -/
structure StartsAt (a : Admission) (chunk : Chunk) : Prop where
  looked : a.didPrefixCacheLookup = false → chunk.numComputedTokens = a.numComputedTokens
  nonneg : 0 ≤ a.numComputedTokens → 0 ≤ chunk.numComputedTokens
  le : 0 ≤ a.numComputedTokens → chunk.numComputedTokens ≤ a.numComputedTokens

theorem waitingChunk_ok {s' : Scheduler ω}
    (h : st.waitingChunk cfg parts limits id a = .ok (some chunk, s'))
    (sync : a.loadKvAsync = false) :
    WaitingCaps cfg st (st.sched.request id) chunk ∧ StartsAt a chunk := by
  unfold waitingChunk at h
  dsimp only at h
  rw [sync] at h
  split at h
  · rename_i hasync
    cases hasync
  · split at h
    · cases h
    · have replay : (if a.didPrefixCacheLookup then
          st.sched.markPrefixReplay cfg id a.numComputedTokens else (0, st.sched)).2.core =
            st.sched.core := by
        split
        · exact Scheduler.core_markPrefixReplay id _
        · rfl
      have start : (a.didPrefixCacheLookup = false → (if a.didPrefixCacheLookup then
          st.sched.markPrefixReplay cfg id a.numComputedTokens else (0, st.sched)).1 = 0) ∧
          (0 ≤ a.numComputedTokens → 0 ≤ (if a.didPrefixCacheLookup then
          st.sched.markPrefixReplay cfg id a.numComputedTokens else (0, st.sched)).1 ∧
            (if a.didPrefixCacheLookup then
          st.sched.markPrefixReplay cfg id a.numComputedTokens else (0, st.sched)).1 ≤
            a.numComputedTokens) := by
        split
        · exact ⟨fun h => by simp_all, markPrefixReplay_bounds _ _⟩
        · exact ⟨fun _ => rfl, fun h => ⟨le_refl _, h⟩⟩
      generalize (if a.didPrefixCacheLookup then
          st.sched.markPrefixReplay cfg id a.numComputedTokens else (0, st.sched)) = marked
        at h replay start
      obtain ⟨numReplayTokens, s₁⟩ := marked
      dsimp only at h replay start
      have same : (s₁.request id).numTokens = (st.sched.request id).numTokens := by
        have e := congrArg Request.numTokens (Scheduler.core_request replay id)
        exact e
      split at h
      · cases h
      · rename_i n₁ pad hpad
        have padded := padDecode_ok hpad
        split at h
        · cases h
        · obtain ⟨_, hpos, h⟩ := bind_eq_ok.mp h
          have positive := pyAssert_ok.mp hpos
          split at h
          · cases h
          · rename_i n₂ pad' halign
            obtain ⟨⟨plan, s₂⟩, hplan, h⟩ := bind_eq_ok.mp h
            have planned := Scheduler.encoderPlan_le hplan
            have reserved := cfg.reservePrefillLookahead_le (s₁.request id)
              (a.numComputedTokens - numReplayTokens) plan.numNewTokens
            have nonneg := cfg.reservePrefillLookahead_nonneg (s₁.request id)
              (a.numComputedTokens - numReplayTokens) plan.numNewTokens
            have alignPad := alignChunk_pad halign
            have cap := limits.cap_le n₁
            dsimp only at h
            split at h
            · cases h
            · rename_i hne
              cases h
              have align : 0 < cfg.cacheBlockSize → n₂ ≤ min (limits.cap n₁)
                  (min st.tokenBudget (st.inputBudget - cfg.draftSlots)) :=
                fun valid => alignChunk_ok valid positive halign
              rw [same] at padded
              refine ⟨⟨?_, fun valid => ?_, fun valid => ?_, fun valid hpad' => ?_, fun hpad' => ?_⟩,
                ⟨fun looked => ?_, fun h => ?_, fun h => ?_⟩⟩
              · exact lt_of_le_of_ne nonneg (Ne.symm hne)
              · have := align valid
                dsimp only
                omega
              · have := align valid
                dsimp only
                omega
              · have := align valid
                dsimp only at hpad' ⊢
                cases pad with
                | false =>
                  have padded : n₁ = _ := padded
                  omega
                | true =>
                  have single := alignPad.2 rfl hpad'
                  have padded := padded.1
                  omega
              · rw [alignPad.1 hpad'] at padded
                exact padded
              · have := start.1 looked
                dsimp only
                omega
              · have := start.2 h
                dsimp only
                omega
              · have := start.2 h
                dsimp only
                omega

theorem computedTokens_ok {s s' : Scheduler ω}
    (h : s.computedTokens cfg parts id = .ok (some a, s')) :
    ((s.request id).numComputedTokens ≠ 0 →
      a = { numComputedTokens := (s.request id).numComputedTokens }) ∧
    ((s.request id).numComputedTokens = 0 →
      0 ≤ a.numComputedTokens ∧ a.numComputedTokens ≤ (s.request id).numTokens) := by
  unfold Scheduler.computedTokens at h
  dsimp only at h
  split at h
  · rename_i hzero
    refine ⟨fun hne => absurd hzero hne, fun _ => ?_⟩
    split at h
    · cases h
    · obtain ⟨_, hle, h⟩ := bind_eq_ok.mp h
      have fits := pyAssert_ok.mp hle
      split at h
      · cases h
      · obtain ⟨_, _, h⟩ := bind_eq_ok.mp h
        cases h
        unfold Scheduler.admissionOf
        dsimp only
        split
        · dsimp only
          omega
        · dsimp only
          omega
  · rename_i hne
    refine ⟨fun _ => ?_, fun hzero => absurd hzero hne⟩
    split at h
    · cases h
    · cases h
      rfl

/-- What lets a waiting request be taken out of its queue. -/
structure Eligible (cfg : SchedulerConfig) (st : Step ω) (id : String) : Prop where
  head : st.requestQueue.items.head? = some id
  tokenBudget : 0 < st.tokenBudget
  inputBudget : cfg.draftSlots < st.inputBudget
  active : (st.sched.running.length : Int) + st.sched.numWaitingForStreamingInput <
    cfg.maxNumActiveReqs
  stale : (st.sched.request id).numStaleOutputTokens = 0 ∨ (st.sched.request id).dropStaleOutput
  loras : st.exceedsMaxLoras cfg (st.sched.request id) = false

/-- A request without computed tokens starts behind its hit, another one where it is. -/
structure Continues (r : Request) (numComputedTokens : Int) : Prop where
  same : r.numComputedTokens ≠ 0 → numComputedTokens = r.numComputedTokens
  nonneg : r.numComputedTokens = 0 → 0 ≤ numComputedTokens
  le : r.numComputedTokens = 0 → numComputedTokens ≤ r.numTokens

/-- What prepares the request at the head of a queue. -/
inductive PrepareMove (cfg : SchedulerConfig) (parts : Components ω) : Step ω → Step ω → Prop
  | quiet {st : Step ω} (s : Scheduler ω) : s.core = st.sched.core →
      PrepareMove cfg parts st { st with sched := s }
  | unblock {st : Step ω} (id : String) (ready : Bool) (s : Scheduler ω) :
      st.requestQueue.items.head? = some id →
      st.sched.handleBlockedWaitingRequest cfg parts id = .ok (ready, s) →
      PrepareMove cfg parts st { st with sched := s }

/-- What takes the request at the head of a queue out of it. -/
inductive TakeMove (cfg : SchedulerConfig) (parts : Components ω) : Step ω → Step ω → Prop
  | skip {st st' : Step ω} : st.skipRequest st.fromKvHolding = .ok st' →
      TakeMove cfg parts st st'
  | load {st st' : Step ω} (id : String) (a : Admission) : Eligible cfg st id →
      (st.sched.request id).numComputedTokens = 0 →
      Continues (st.sched.request id) a.numComputedTokens →
      st.startAsyncLoad st.fromKvHolding id a = .ok st' → TakeMove cfg parts st st'
  | run {st st' : Step ω} (id : String) (a : Admission) (chunk : Chunk) : Eligible cfg st id →
      Continues (st.sched.request id) chunk.numComputedTokens →
      WaitingCaps cfg st (st.sched.request id) chunk →
      st.admitRequest cfg parts st.fromKvHolding a chunk = .ok st' → TakeMove cfg parts st st'

def PrepareMoves (cfg : SchedulerConfig) (parts : Components ω) : Step ω → Step ω → Prop :=
  Relation.ReflTransGen (PrepareMove cfg parts)

/-- A round that goes on has taken a request, one that leaves the loop has not. -/
def RoundMoves (cfg : SchedulerConfig) (parts : Components ω) (st : Step ω) :
    Round (Step ω) → Prop
  | .next st' => ∃ st₁, PrepareMoves cfg parts st st₁ ∧ TakeMove cfg parts st₁ st'
  | .leave st' => PrepareMoves cfg parts st st'

theorem PrepareMove.queues (move : PrepareMove cfg parts st st') :
    st'.sched.waiting = st.sched.waiting ∧
    st'.sched.kvHoldingWaiting = st.sched.kvHoldingWaiting := by
  cases move with
  | quiet s hs => exact ⟨Scheduler.core_waiting hs, Scheduler.core_kvHoldingWaiting hs⟩
  | unblock id ready s _ hs =>
    have ⟨_, _, _, _, hcore, _⟩ := Scheduler.handleBlockedWaitingRequest_ok hs
    have waiting := Scheduler.core_waiting hcore
    have kvHolding := Scheduler.core_kvHoldingWaiting hcore
    exact ⟨waiting, kvHolding⟩

variable (st st') in
theorem requestQueue_congr (waiting : st'.sched.waiting = st.sched.waiting)
    (kvHolding : st'.sched.kvHoldingWaiting = st.sched.kvHoldingWaiting) :
    st'.requestQueue = st.requestQueue ∧ st'.fromKvHolding = st.fromKvHolding := by
  unfold Step.requestQueue fromKvHolding
  rw [waiting, kvHolding]
  exact ⟨rfl, rfl⟩

variable {s : Scheduler ω}

theorem Eligible.congr (h : Eligible cfg st id) (same : s.core = st.sched.core) :
    Eligible cfg { st with sched := s } id := by
  have request := Scheduler.core_request same id
  have queue := requestQueue_congr st { st with sched := s }
    (Scheduler.core_waiting same) (Scheduler.core_kvHoldingWaiting same)
  constructor
  · rw [queue.1]
    exact h.head
  · exact h.tokenBudget
  · exact h.inputBudget
  · have active := h.active
    have streaming : s.numWaitingForStreamingInput = st.sched.numWaitingForStreamingInput :=
      congrArg (fun t : Scheduler Unit => t.numWaitingForStreamingInput) same
    rw [← Scheduler.core_running same, ← streaming] at active
    exact active
  · have stale : (s.request id).numStaleOutputTokens =
        (st.sched.request id).numStaleOutputTokens := by
      have e := congrArg Request.numStaleOutputTokens request
      exact e
    have drop : (s.request id).dropStaleOutput = (st.sched.request id).dropStaleOutput := by
      have e := congrArg Request.dropStaleOutput request
      exact e
    dsimp only
    rw [stale, drop]
    exact h.stale
  · have lora : (s.request id).loraIntId = (st.sched.request id).loraIntId := by
      have e := congrArg Request.loraIntId request
      exact e
    have loras := h.loras
    unfold exceedsMaxLoras at loras ⊢
    rw [lora]
    exact loras

theorem Continues.congr {r r' : Request} {n : Int} (h : Continues r n)
    (same : r'.core = r.core) : Continues r' n := by
  have computed : r'.numComputedTokens = r.numComputedTokens := by
    have e := congrArg Request.numComputedTokens same
    exact e
  have tokens : r'.numTokens = r.numTokens := by
    have e := congrArg Request.numTokens same
    exact e
  constructor
  · rw [computed]
    exact h.same
  · rw [computed]
    exact h.nonneg
  · rw [computed, tokens]
    exact h.le

theorem WaitingCaps.congr {r r' : Request}
    (h : WaitingCaps cfg st r chunk) (same : r'.core = r.core) :
    WaitingCaps cfg { st with sched := s } r' chunk := by
  have tokens : r'.numTokens = r.numTokens := by
    have e := congrArg Request.numTokens same
    exact e
  constructor
  · exact h.positive
  · exact h.token
  · exact h.input
  · rw [tokens]
    exact h.plain
  · rw [tokens]
    exact h.padded

variable {round : Round (Step ω)}

theorem allocateWaiting_moves (eligible : Eligible cfg st id)
    (load : a.loadKvAsync = true → (st.sched.request id).numComputedTokens = 0 ∧
    Continues (st.sched.request id) a.numComputedTokens)
    (runs : a.loadKvAsync = false → Continues (st.sched.request id) chunk.numComputedTokens ∧
    WaitingCaps cfg st (st.sched.request id) chunk)
    (h : st.allocateWaiting cfg parts st.fromKvHolding id a chunk = .ok round) :
    RoundMoves cfg parts st round := by
  have world : ∀ world : ω, PrepareMoves cfg parts st
      { st with sched := { st.sched with world := world } } := fun _ => .single (.quiet _ rfl)
  have eligible' : ∀ world : ω, Eligible cfg
      { st with sched := { st.sched with world := world } } id := fun _ => eligible.congr rfl
  unfold allocateWaiting at h
  dsimp only at h
  split at h
  · cases h
    exact world _
  · split at h
    · rename_i hload
      have ⟨st₂, hstart, h⟩ := bind_eq_ok.mp h
      cases h
      have ⟨zero, continues⟩ := load hload
      refine ⟨_, ?_, .load id a ?_ ?_ ?_ hstart⟩
      · exact world _
      · exact eligible' _
      · exact zero
      · exact continues
    · rename_i hload
      have ⟨st₂, hadmit, h⟩ := bind_eq_ok.mp h
      cases h
      have ⟨continues, caps⟩ := runs (Bool.eq_false_iff.mpr hload)
      refine ⟨_, ?_, .run id a chunk ?_ ?_ ?_ hadmit⟩
      · exact world _
      · exact eligible' _
      · exact continues
      · exact caps.congr rfl

theorem allocateWaiting_rounds
    (before : PrepareMoves cfg parts st st') (eligible : Eligible cfg st' id)
    (load : a.loadKvAsync = true → (st'.sched.request id).numComputedTokens = 0 ∧
    Continues (st'.sched.request id) a.numComputedTokens)
    (runs : a.loadKvAsync = false → Continues (st'.sched.request id) chunk.numComputedTokens ∧
    WaitingCaps cfg st' (st'.sched.request id) chunk)
    (h : st'.allocateWaiting cfg parts st'.fromKvHolding id a chunk = .ok round) :
    RoundMoves cfg parts st round := by
  have moves := allocateWaiting_moves eligible load runs h
  cases round with
  | next last =>
    have ⟨st₁, prepare, take⟩ := moves
    exact ⟨st₁, before.trans prepare, take⟩
  | leave last => exact before.trans moves

theorem eligible_of_round {ready : Bool} (head : st.requestQueue.items.head? = some id)
    (hblocked : st.sched.handleBlockedWaitingRequest cfg parts id = .ok (ready, s))
    (hgo : ¬(¬0 < st.tokenBudget ∨ st.requestQueue.items = [] ∨ st.inputBudget ≤ cfg.draftSlots ∨
      st.sched.running.length + st.sched.numWaitingForStreamingInput ≥ cfg.maxNumActiveReqs))
    (hready : ¬(¬ready ∨ ((s.request id).numStaleOutputTokens ≠ 0 ∧
      ¬(s.request id).dropStaleOutput) ∨
        Step.exceedsMaxLoras cfg { st with sched := s } (s.request id))) :
    Eligible cfg { st with sched := s } id := by
  have ⟨_, _, _, _, hcore, _⟩ := Scheduler.handleBlockedWaitingRequest_ok hblocked
  have waiting := Scheduler.core_waiting hcore
  have kvHolding := Scheduler.core_kvHoldingWaiting hcore
  have running := Scheduler.core_running hcore
  have streaming := congrArg (fun t : Scheduler Unit => t.numWaitingForStreamingInput) hcore
  have queue := requestQueue_congr st { st with sched := s } waiting kvHolding
  simp only [not_or, not_not] at hgo hready
  have ⟨tokens, _, input, active⟩ := hgo
  have ⟨_, stale, loras⟩ := hready
  constructor
  · rw [queue.1]
    exact head
  · exact tokens
  · exact not_le.mp input
  · have running : s.running = st.sched.running := running
    have streaming : s.numWaitingForStreamingInput = st.sched.numWaitingForStreamingInput :=
      streaming
    dsimp only
    rw [running, streaming]
    exact not_le.mp active
  · dsimp only
    tauto
  · exact Bool.eq_false_iff.mpr loras

theorem waitingRound_moves (h : st.waitingRound cfg parts limits = .ok round) :
    RoundMoves cfg parts st round := by
  unfold waitingRound at h
  split at h
  · cases h
    exact .refl
  · rename_i hgo
    dsimp only at h
    have ⟨id, hpeek, h⟩ := bind_eq_ok.mp h
    have head := RequestQueue.peekRequest_ok.mp hpeek
    have ⟨⟨ready, s₁⟩, hblocked, h⟩ := bind_eq_ok.mp h
    have first : PrepareMove cfg parts st { st with sched := s₁ } :=
      .unblock id ready s₁ head hblocked
    have queue₁ := requestQueue_congr _ _ first.queues.1 first.queues.2
    dsimp only at h
    split at h
    · have ⟨st₂, hskip, h⟩ := bind_eq_ok.mp h
      cases h
      refine ⟨_, .single first, .skip ?_⟩
      rw [queue₁.2]
      exact hskip
    · rename_i hready
      have ⟨⟨admission, s₂⟩, hcomputed, h⟩ := bind_eq_ok.mp h
      have computed := Scheduler.core_computedTokens hcomputed
      have second : PrepareMoves cfg parts st { st with sched := s₂ } :=
        .tail (.single first) (.quiet s₂ computed)
      have queue₂ := requestQueue_congr { st with sched := s₁ }
        { st with sched := s₂ } (Scheduler.core_waiting computed)
        (Scheduler.core_kvHoldingWaiting computed)
      dsimp only at h
      split at h
      · have ⟨st₂, hskip, h⟩ := bind_eq_ok.mp h
        cases h
        refine ⟨_, second, .skip ?_⟩
        rw [queue₂.2, queue₁.2]
        exact hskip
      · rename_i a
        have ⟨⟨chunk, s₃⟩, hchunk, h⟩ := bind_eq_ok.mp h
        have chunked := core_waitingChunk hchunk
        have third : PrepareMoves cfg parts st { st with sched := s₃ } :=
          second.tail (.quiet s₃ chunked)
        dsimp only at h
        split at h
        · cases h
          exact third
        · rename_i chunk
          have same := chunked.trans computed
          have queue₃ := requestQueue_congr { st with sched := s₁ }
            { st with sched := s₃ } (Scheduler.core_waiting same)
            (Scheduler.core_kvHoldingWaiting same)
          have request := Scheduler.core_request computed id
          have ⟨resumes, begins⟩ := computedTokens_ok hcomputed
          have eligible : Eligible cfg { st with sched := s₃ } id :=
            (eligible_of_round head hblocked hgo hready).congr same
          have continues : Continues (s₁.request id) a.numComputedTokens := by
            refine ⟨fun hne => ?_, fun hzero => (begins hzero).1, fun hzero => (begins hzero).2⟩
            rw [resumes hne]
          rw [← queue₁.2, ← queue₃.2] at h
          refine allocateWaiting_rounds third eligible (fun hload => ?_) (fun hload => ?_) h
          · have zero : (s₁.request id).numComputedTokens = 0 := by
              by_contra hne
              rw [resumes hne] at hload
              cases hload
            have kept : (s₃.request id).numComputedTokens = (s₁.request id).numComputedTokens := by
              have e := congrArg Request.numComputedTokens (Scheduler.core_request same id)
              exact e
            exact ⟨kept.trans zero, continues.congr (Scheduler.core_request same id)⟩
          · have ⟨caps, starts⟩ := waitingChunk_ok hchunk hload
            refine ⟨Continues.congr ?_ (Scheduler.core_request same id),
              caps.congr (Scheduler.core_request chunked id)⟩
            refine ⟨fun hne => ?_, fun hzero => ?_, fun hzero => ?_⟩
            · have looked := starts.looked (by rw [resumes hne])
              rw [looked, continues.same hne]
            · exact starts.nonneg (begins hzero).1
            · exact (starts.le (begins hzero).1).trans (begins hzero).2

/-- A step whose request waits for its KV from here on. -/
def withLoading (st : Step ω) (id : String) (a : Admission) : Step ω :=
  { st with sched := { st.sched.setRequest id { st.sched.request id with
      status := .waitingForRemoteKvs
      numComputedTokens := a.numComputedTokens } with
    inflightPrefills := setAdd st.sched.inflightPrefills id } }

theorem startAsyncLoad_ok (h : st.startAsyncLoad fromKv id a = .ok st') : ∃ popped queue holdsKv,
    (st.queueOf fromKv).popRequest (st.withLoading id a).sched.orderKey = .ok (popped, queue) ∧
    st' = ((st.withLoading id a).withQueue fromKv queue).withSkipped popped holdsKv := by
  have ⟨popped, queue, holdsKv, hpop, hst'⟩ := skipRequest_ok (st.withLoading id a) h
  refine ⟨popped, queue, holdsKv, ?_, hst'⟩
  cases fromKv <;> exact hpop

/-- What becomes of the request a round takes: it is set aside or it runs. -/
inductive Placed (st st' : Step ω) (id : String) : Prop
  | aside (holdsKv : Bool) :
      st'.stepSkippedKvHolding =
        (if holdsKv then id :: st.stepSkippedKvHolding else st.stepSkippedKvHolding) →
      st'.stepSkippedWaiting =
        (if holdsKv then st.stepSkippedWaiting else id :: st.stepSkippedWaiting) →
      st'.sched.running = st.sched.running → Placed st st' id
  | runs : st'.stepSkippedKvHolding = st.stepSkippedKvHolding →
      st'.stepSkippedWaiting = st.stepSkippedWaiting →
      st'.sched.running = st.sched.running ++ [id] → Placed st st' id

theorem TakeMove.pops (move : TakeMove cfg parts st st') :
    ∃ id queue, (∃ key : String → Int ×ₗ ℚ ×ₗ String,
    (st.queueOf st.fromKvHolding).popRequest key = .ok (id, queue)) ∧
    st'.sched.waiting = (st.withQueue st.fromKvHolding queue).sched.waiting ∧
    st'.sched.kvHoldingWaiting = (st.withQueue st.fromKvHolding queue).sched.kvHoldingWaiting ∧
    Placed st st' id := by
  cases move with
  | skip h =>
    have ⟨id, queue, holdsKv, hpop, hst'⟩ := skipRequest_ok _ h
    subst hst'
    refine ⟨id, queue, ⟨_, hpop⟩, rfl, rfl, ?_⟩
    unfold withQueue
    split <;> exact .aside holdsKv rfl rfl rfl
  | load id a _ _ _ h =>
    have ⟨popped, queue, holdsKv, hpop, hst'⟩ := startAsyncLoad_ok h
    subst hst'
    refine ⟨popped, queue, ⟨_, hpop⟩, ?_, ?_, ?_⟩
    · unfold withQueue
      split <;> rfl
    · unfold withQueue
      split <;> rfl
    · unfold withQueue
      split <;> exact .aside holdsKv rfl rfl rfl
  | run id a chunk _ _ _ h =>
    have ⟨popped, queue, hpop, admits⟩ := admit_ok h
    have ⟨inflight, hcore⟩ := admits.sched
    have waiting := Scheduler.core_waiting hcore
    have kvHolding := Scheduler.core_kvHoldingWaiting hcore
    have running := Scheduler.core_running hcore
    have same := withQueue_same st st.fromKvHolding queue
    refine ⟨popped, queue, ⟨_, hpop⟩, waiting, kvHolding, .runs ?_ ?_ ?_⟩
    · rw [admits.skippedKvHolding, same.1]
    · rw [admits.skippedWaiting, same.2.1]
    · rw [← same.2.2]
      exact running

theorem PrepareMoves.queues (moves : PrepareMoves cfg parts st st') :
    st'.sched.waiting = st.sched.waiting ∧
    st'.sched.kvHoldingWaiting = st.sched.kvHoldingWaiting := by
  induction moves with
  | refl => exact ⟨rfl, rfl⟩
  | tail _ move ih => exact ⟨move.queues.1.trans ih.1, move.queues.2.trans ih.2⟩

def queued (st : Step ω) : Nat :=
  st.sched.waiting.items.length + st.sched.kvHoldingWaiting.items.length

theorem TakeMove.queued (move : TakeMove cfg parts st st') : st'.queued < st.queued := by
  have ⟨id, queue, ⟨key, hpop⟩, waiting, kvHolding, _⟩ := move.pops
  have shorter := (RequestQueue.popRequest_ok hpop).2.2.length_eq
  unfold Step.queued
  rw [waiting, kvHolding]
  unfold withQueue
  unfold queueOf at shorter
  rw [List.length_cons] at shorter
  split
  · rename_i hfrom
    rw [if_pos hfrom] at shorter
    dsimp only
    omega
  · rename_i hfrom
    rw [if_neg hfrom] at shorter
    dsimp only
    omega

theorem waitingLoop_ends : st.waitingLoop cfg parts limits ≠ .ok none := by
  refine iterate_ends (P := fun _ => True) queued (fun st₁ st₂ _ h => ⟨trivial, ?_⟩) trivial ?_
  · have ⟨st₃, prepare, take⟩ := waitingRound_moves h
    have same : st₃.queued = st₁.queued := by
      unfold queued
      rw [prepare.queues.1, prepare.queues.2]
    rw [← same]
    exact take.queued
  · unfold queued
    omega

theorem waitingLoop_rule {P : Step ω → Prop}
    (prepare : ∀ st st', PrepareMove cfg parts st st' → P st → P st')
    (take : ∀ st st', TakeMove cfg parts st st' → P st → P st')
    (h : st.waitingLoop cfg parts limits = .ok (some st')) (start : P st) : P st' := by
  have prepares : ∀ st st', PrepareMoves cfg parts st st' → P st → P st' := by
    intro st st' moves hst
    induction moves with
    | refl => exact hst
    | tail _ move ih => exact prepare _ _ move ih
  refine iterate_rule (P := P) (Q := P) (fun st₁ st₂ hst hround => ?_) (fun st₁ st₂ hst hround => ?_)
    start h
  · have ⟨st₃, before, move⟩ := waitingRound_moves hround
    exact take _ _ move (prepares _ _ before hst)
  · exact prepares _ _ (waitingRound_moves hround) hst

theorem scheduleWaitingReqs_ok (h : st.scheduleWaitingReqs cfg parts limits = .ok st') :
    ∃ st₁, st.waitingLoop cfg parts limits = .ok (some st₁) ∧
    Still st₁.requeueSkipped.sched st'.sched ∧
    ∃ s, st' = { st₁.requeueSkipped with sched := s } := by
  have ⟨ended, hloop, h⟩ := bind_eq_ok.mp h
  cases ended with
  | none => cases h
  | some st₁ =>
    refine ⟨st₁, hloop, ?_⟩
    dsimp only at h
    split at h
    · cases h
      exact ⟨.refl _, _, rfl⟩
    · cases h
      exact ⟨⟨rfl, rfl, rfl, rfl, rfl, fun _ => rfl, rfl⟩, _, rfl⟩

end Step

end VllmAmpere.Sched
