import VllmAmpere.OutputPlacement
import VllmAmpere.PyDict

/-! The tokens that a step hands out: an entry for each scheduled request, and what both
loops do to them. -/

open List Function

namespace VllmAmpere.Sched

variable {ω : Type} {cfg : SchedulerConfig} {parts : Components ω} {s s' : Scheduler ω}

namespace Scheduler

theorem scheduleReqs_rule {P : Step ω → Prop}
    (quiet : ∀ (st : Step ω) (s : Scheduler ω), s.core = st.sched.core → P st →
      P { st with sched := s })
    (pass : ∀ st : Step ω, P st → P { st with reqIndex := st.reqIndex + 1 })
    (preempt : ∀ (st : Step ω) (victim : String) (s : Scheduler ω),
      st.Preempts cfg parts victim s → P st → P (st.withPreempted cfg victim s))
    (run : ∀ (st : Step ω) (id : String) (newBlocks : KVCacheBlocks) (plan : EncoderPlan),
      st.sched.running[st.reqIndex]? = some id → P st →
        P (st.scheduleRunning cfg parts id newBlocks plan))
    (loras : ∀ (st : Step ω) (ids : List Nat), P st → P { st with scheduledLoras := ids })
    (prepare : ∀ st st' : Step ω, Step.PrepareMove cfg parts st st' → P st → P st')
    (take : ∀ st st' : Step ω, Step.TakeMove cfg parts st st' → P st → P st')
    {throttlePrefills : Bool} {st : Step ω}
    (h : s.scheduleReqs cfg parts throttlePrefills = .ok st) (start : P (s.startStep cfg parts)) :
    P st ∨ ∃ st₁ s₁, P st₁ ∧ Still st₁.requeueSkipped.sched s₁ ∧
      st = { st₁.requeueSkipped with sched := s₁ } := by
  have ⟨st₁, hrunning, h⟩ := bind_eq_ok.mp h
  have ⟨st₀, moves, hst₁⟩ := Step.scheduleRunningReqs_moves hrunning
  have ran : P st₀ := moves.invariant quiet pass preempt run start
  have ready : P st₁ := by
    rcases hst₁ with rfl | rfl
    · exact ran
    · exact loras st₀ _ ran
  split at h
  · have ⟨st₂, hloop, still, s₁, hst⟩ := Step.scheduleWaitingReqs_ok h
    subst hst
    exact .inr ⟨st₂, s₁, Step.waitingLoop_rule prepare take hloop ready, still, rfl⟩
  · cases h
    exact .inl ready

end Scheduler

namespace Step

variable {st st' : Step ω}

def OneEntry (st : Step ω) : Prop := (st.numScheduledTokens.map Prod.fst).Nodup

theorem nodup_dictSet {κ α : Type*} [DecidableEq κ] {items : List (κ × α)}
    (h : (items.map Prod.fst).Nodup) (key : κ) (value : α) :
    ((dictSet key value items).map Prod.fst).Nodup := by
  rw [map_fst_dictSet]
  split
  · exact h
  · rename_i hkey
    exact nodup_append.mpr ⟨h, nodup_singleton key, by
      rintro k hk _ hk' rfl
      exact hkey (mem_singleton.mp hk' ▸ hk)⟩

theorem OneEntry.preempt (h : st.OneEntry) (victim : String) (s : Scheduler ω) :
    (st.withPreempted cfg victim s).OneEntry := by
  have kept : (st.withPreempted cfg victim s).numScheduledTokens.Sublist
      st.numScheduledTokens := by
    unfold withPreempted removeVictim
    dsimp only
    split
    · unfold unschedule
      dsimp only
      split
      · exact filter_sublist
      · exact .refl _
    · exact .refl _
  exact h.sublist (kept.map Prod.fst)

theorem PrepareMove.numScheduledTokens (move : PrepareMove cfg parts st st') :
    st'.numScheduledTokens = st.numScheduledTokens := by
  cases move <;> rfl

/-- A taken request is set aside without tokens, or runs with the tokens of its chunk. -/
theorem TakeMove.numScheduledTokens (move : TakeMove cfg parts st st') :
    st'.numScheduledTokens = st.numScheduledTokens ∨
    ∃ id n, st'.numScheduledTokens = dictSet id n st.numScheduledTokens := by
  cases move with
  | skip h =>
    have ⟨id, queue, holdsKv, _, hst'⟩ := skipRequest_ok _ h
    subst hst'
    left
    cases st.fromKvHolding <;> cases holdsKv <;> rfl
  | load id a _ _ _ h =>
    have ⟨popped, queue, holdsKv, _, hst'⟩ := startAsyncLoad_ok h
    subst hst'
    left
    cases st.fromKvHolding <;> cases holdsKv <;> rfl
  | run id a chunk _ _ _ h =>
    have ⟨popped, queue, _, admits⟩ := admit_ok h
    have same : (st.withQueue st.fromKvHolding queue).numScheduledTokens =
        st.numScheduledTokens := by
      cases st.fromKvHolding <;> rfl
    exact .inr ⟨popped, _, same ▸ admits.tokens⟩

end Step

namespace Scheduler

theorem scheduleReqs_oneEntry {throttlePrefills : Bool} {st : Step ω}
    (h : s.scheduleReqs cfg parts throttlePrefills = .ok st) : st.OneEntry := by
  have start : (s.startStep cfg parts).OneEntry := nodup_nil
  have run : ∀ (st : Step ω) (id : String) (newBlocks : KVCacheBlocks) (plan : EncoderPlan),
      st.sched.running[st.reqIndex]? = some id → st.OneEntry →
        (st.scheduleRunning cfg parts id newBlocks plan).OneEntry := by
    intro st id newBlocks plan _ h
    unfold Step.OneEntry
    rw [Step.scheduleRunning_numScheduledTokens]
    exact Step.nodup_dictSet h id _
  have prepare : ∀ st st' : Step ω, Step.PrepareMove cfg parts st st' → st.OneEntry →
      st'.OneEntry := by
    intro st st' move h
    unfold Step.OneEntry
    rwa [move.numScheduledTokens]
  have take : ∀ st st' : Step ω, Step.TakeMove cfg parts st st' → st.OneEntry →
      st'.OneEntry := by
    intro st st' move h
    unfold Step.OneEntry
    rcases move.numScheduledTokens with same | ⟨id, n, same⟩
    · rwa [same]
    · rw [same]
      exact Step.nodup_dictSet h id n
  rcases scheduleReqs_rule (P := Step.OneEntry) (fun _ _ _ h => h) (fun _ h => h)
    (fun _ victim s _ h => h.preempt victim s) run (fun _ _ h => h) prepare take h start with
    kept | ⟨st₁, s₁, kept, _, rfl⟩
  · exact kept
  · exact kept

theorem schedule_numScheduledTokens {throttlePrefills : Bool} {out : SchedulerOutput}
    (h : s.schedule cfg parts throttlePrefills = .ok (out, s')) :
    ∃ st, s.scheduleReqs cfg parts throttlePrefills = .ok st ∧
    out.numScheduledTokens = st.numScheduledTokens := by
  have ⟨st, hloops, h⟩ := bind_eq_ok.mp h
  have ⟨_, _, h⟩ := bind_eq_ok.mp h
  have ⟨⟨out₁, s₁⟩, hout, h⟩ := bind_eq_ok.mp h
  have ⟨s₂, _, h⟩ := bind_eq_ok.mp h
  have ⟨_, _, hout⟩ := bind_eq_ok.mp hout
  cases h
  cases hout
  exact ⟨st, hloops, rfl⟩

end Scheduler

/-! Where every request is, over whole runs of the engine. Each call keeps the roster
sound, but for sessions that drop out while their output is taken. -/

variable {lost : List String} {id : String}

namespace Scheduler

def rosterWithDone (s : Scheduler ω) (ids : List String) : Roster String :=
  { s.roster with stage := fun i => if i ∈ ids then .done else s.roster.stage i }

theorem rosterWithDone_of_still (h : Still s s') (ids : List String) :
    s'.rosterWithDone ids = s.rosterWithDone ids := by
  unfold rosterWithDone
  rw [h.roster]

variable {ids : List String}

theorem forget_sound (h : Roster.Sound lost (s.rosterWithDone ids)) (done : id ∈ ids)
    (freed : Still s s' ∨ Still (s.withRequests (s.requests.erase id)) s') :
    Roster.Sound lost (s'.rosterWithDone ids) := by
  rcases freed with still | still
  · rwa [rosterWithDone_of_still still]
  · rw [rosterWithDone_of_still still]
    exact h.forget id (if_pos done) rfl rfl rfl rfl rfl

theorem dropRemote_still (id : String) : Still s (s.dropRemote id) := by
  unfold dropRemote
  split
  · exact ⟨rfl, rfl, rfl, rfl, rfl, fun _ => rfl, rfl⟩
  · exact .refl s

variable {status : RequestStatus}

theorem finishRequest_sound (h : Roster.Sound lost (s.rosterWithDone ids)) (done : id ∈ ids)
    (hs : s.finishRequest cfg parts id status = .ok s') :
    Roster.Sound lost (s'.rosterWithDone ids) ∧
    s'.roster.stage = Function.update s.roster.stage id status.stage := by
  have ⟨_, request, freed⟩ := freeRequest_ok hs
  have dropped := dropRemote_still (s := s) id
  have stage := setRequest_stage (s.dropRemote id) id
    { s.request id with status := status }
  rw [dropped.roster] at stage
  have marked : ((s.dropRemote id).setRequest id
      { s.request id with status := status }).rosterWithDone ids = s.rosterWithDone ids := by
    have same : (fun i => if i ∈ ids then Stage.done else
        Function.update s.roster.stage id status.stage i) =
          fun i => if i ∈ ids then Stage.done else s.roster.stage i := by
      funext i
      by_cases hi : i = id
      · rw [hi, if_pos done, if_pos done]
      · rw [update_of_ne hi]
    unfold rosterWithDone
    rw [stage, same]
    exact congrArg (fun r : Roster String => { r with
      stage := fun i => if i ∈ ids then Stage.done else s.roster.stage i }) dropped.roster
  refine ⟨forget_sound (marked ▸ h) done freed, ?_⟩
  rw [← stage]
  funext i
  exact congrArg (fun r : Request => r.status.stage) (congrFun request i)

theorem finishEach_sound {ids rest : List String}
    (finished : status.isFinished) (h : Roster.Sound lost (s.rosterWithDone ids))
    (done : ∀ i ∈ ids, i ∈ rest ∨ s.roster.stage i = .done) (sub : ∀ i ∈ rest, i ∈ ids)
    (hs : finishEach cfg parts status rest s = .ok s') : Roster.Sound lost s'.roster := by
  induction rest generalizing s with
  | nil =>
    have hs := Except.ok.inj hs
    subst hs
    have same : s.rosterWithDone ids = s.roster := by
      have stage : (fun i => if i ∈ ids then Stage.done else s.roster.stage i) =
          s.roster.stage := by
        funext i
        split
        · rename_i hi
          exact ((done i hi).resolve_left (not_mem_nil)).symm
        · rfl
      exact congrArg (fun stage => { s.roster with stage := stage }) stage
    exact same ▸ h
  | cons id rest ih =>
    have ⟨s₁, hfirst, hs⟩ := bind_eq_ok.mp hs
    have ⟨first, stage⟩ := finishRequest_sound h (sub id mem_cons_self) hfirst
    refine ih first (fun i hi => ?_) (fun i hi => sub i (mem_cons_of_mem _ hi)) hs
    rw [stage]
    by_cases hid : i = id
    · rw [hid, update_self]
      exact .inr (RequestStatus.stage_eq_done.mpr finished)
    · rw [update_of_ne hid]
      exact (done i hi).imp_left fun hi => (mem_cons.mp hi).resolve_left hid

theorem finishRequests_sound {requestIds : Option (List String)}
    {finished : List String} (h : Roster.Sound lost s.roster)
    (hs : s.finishRequests cfg parts requestIds status = .ok (finished, s')) :
    Roster.Sound lost s'.roster := by
  have ⟨_, hstatus, hs⟩ := bind_eq_ok.mp hs
  have hstatus := pyAssert_ok.mp hstatus
  dsimp only at hs
  generalize (requestIds.getD s.requests).dedup.filter
    (fun id => decide (id ∈ s.requests ∧ ¬(s.request id).isFinished)) = valid at hs
  have ⟨s₁, hfinish, hs⟩ := bind_eq_ok.mp hs
  cases hs
  have runs : ∀ i ∈ s.running, (s.request i).status = .running := fun i hi =>
    RequestStatus.stage_eq_runs.mp (h.runs i hi)
  have waits : ∀ i ∈ s.roster.waiting, (s.request i).status ≠ .running := by
    intro i hi hrunning
    have stage := h.waits i hi
    rw [show s.roster.stage i = (s.request i).status.stage from rfl, hrunning] at stage
    cases stage
  generalize hstart : { s with numWaitingForStreamingInput := s.numWaitingForStreamingInput -
    (finished.filter fun id => (s.request id).status = RequestStatus.waitingForStreamingReq).length } = start
    at hfinish
  have roster : start.roster = s.roster := by
    rw [← hstart]
    rfl
  have nodup : start.running.Nodup := by
    rw [← hstart]
    exact h.running_nodup
  have running := removeRunning_roster nodup
    (finished.filter fun id => (s.request id).status = .running)
  have ⟨stage, known, run, waiting, deferred⟩ := removeWaiting_roster
    (s := start.removeRunning (finished.filter fun id => (s.request id).status = .running))
    (finished.filter fun id => !decide ((s.request id).status = .running))
  rw [running, roster] at stage known run waiting deferred
  refine finishEach_sound hstatus (h.leave finished ?_ known ?_ ?_ ?_) (fun i hi => .inl hi)
    (fun i hi => hi) hfinish
  · intro i
    unfold rosterWithDone
    rw [stage]
  · refine (List.Perm.of_eq run).trans (.of_eq ?_)
    have kept : start.running = s.running := congrArg Roster.running roster
    dsimp only
    rw [kept]
    refine filter_congr fun i hi => ?_
    simp [runs i hi]
  · refine waiting.trans (.of_eq ?_)
    refine filter_congr fun i hi => ?_
    simp [waits i hi]
  · intro i hi
    have hi : i ∈ s.roster.deferred.filter
        (· ∉ finished.filter fun id => !decide ((s.request id).status = .running)) :=
      (List.Perm.of_eq deferred).subset hi
    have ⟨hdef, hnot⟩ := mem_filter.mp hi
    refine ⟨hdef, fun hfin => ?_⟩
    have stopped := waits i (h.deferred i hdef)
    simp [hfin, stopped] at hnot

theorem freeBlocks_sound (h : Roster.Sound lost s.roster)
    (hs : s.freeBlocks cfg parts id = .ok s') : Roster.Sound lost s'.roster := by
  have ⟨finished, _, still⟩ := freeBlocks_ok hs
  rw [still.roster]
  exact h.forget id (RequestStatus.stage_eq_done.mpr finished) rfl rfl rfl rfl rfl

theorem recvFinished_sound (h : Roster.Sound lost s.roster)
    (hs : recvFinished cfg parts ids s = .ok s') : Roster.Sound lost s'.roster := by
  induction ids generalizing s with
  | nil =>
    cases hs
    exact h
  | cons id rest ih =>
    have ⟨_, _, hs⟩ := bind_eq_ok.mp hs
    dsimp only at hs
    split at hs
    · exact ih (s := { s with
        finishedRecvingKvReqIds := setAdd s.finishedRecvingKvReqIds id }) h hs
    · have ⟨s₁, hfree, hs⟩ := bind_eq_ok.mp hs
      exact ih (freeBlocks_sound h hfree) hs

theorem sendFinished_sound (h : Roster.Sound lost s.roster)
    (hs : sendFinished cfg parts ids s = .ok s') : Roster.Sound lost s'.roster := by
  induction ids generalizing s with
  | nil =>
    cases hs
    exact h
  | cons id rest ih =>
    have ⟨_, _, hs⟩ := bind_eq_ok.mp hs
    have ⟨s₁, hfree, hs⟩ := bind_eq_ok.mp hs
    exact ih (freeBlocks_sound h hfree) hs

theorem updateFromKvXferFinished_sound {output : KVConnectorOutput} (h : Roster.Sound lost s.roster)
    (hs : s.updateFromKvXferFinished cfg parts output = .ok s') : Roster.Sound lost s'.roster := by
  have ⟨s₁, hrecv, hs⟩ := bind_eq_ok.mp hs
  refine sendFinished_sound (recvFinished_sound ?_ hrecv) hs
  split <;> exact h

theorem updateRequestAsSession_roster {update : StreamingUpdate}
    (waits : s.roster.stage id = .waits)
    (hs : s.updateRequestAsSession id update = .ok s') : s'.roster = s.roster := by
  have ⟨session, idle, hsession, hs'⟩ := updateRequestAsSession_ok hs
  have stage : session.status.stage = .waits := by
    rw [updateAsSession_stage hsession]
    rfl
  rw [hs', withSession_roster, stage, ← waits, update_eq_self]

theorem registerRequest_sound {request : Request} (h : Roster.Sound lost s.roster)
    (fresh : request.requestId ∉ s.requests) (waits : request.status.stage = .waits) :
    ∃ lost', (∀ i ∈ lost', i ∈ lost) ∧
    Roster.Sound lost' (s.registerRequest cfg parts request).roster := by
  have ⟨stage, known, running, waiting, deferred⟩ := enqueueWaitingRequest_roster
    (s := s.setRequest request.requestId request) request.requestId
  rw [setRequest_stage, waits] at stage
  refine ⟨_, fun i hi => mem_of_mem_filter hi,
    h.shrink.enter request.requestId fresh (fun hid => ?_) ?_ running waiting stage deferred⟩
  · have live := (mem_filter.mp hid).2
    exact fresh (of_decide_eq_true live).1
  · refine (perm_append_singleton _ _).trans (.of_eq ?_)
    exact congrArg (request.requestId :: ·) known

theorem startSession_same (request : Request) :
    (startSession request).requestId = request.requestId ∧
    (startSession request).status = request.status := by
  unfold startSession
  split <;> exact ⟨rfl, rfl⟩

theorem addRequest_sound {request : Request} (h : Roster.Sound lost s.roster)
    (fresh : request.requestId ∉ s.requests → request.status.stage = .waits)
    (hs : s.addRequest cfg parts request = .ok s') :
    ∃ lost', (∀ i ∈ lost', i ∈ lost) ∧ Roster.Sound lost' s'.roster := by
  unfold addRequest at hs
  dsimp only at hs
  split at hs
  · refine ⟨lost, fun i hi => hi, ?_⟩
    split at hs
    · split at hs
      · cases hs
      · rename_i queue _
        cases hs
        have still : Still s (s.setRequest request.requestId
            { s.request request.requestId with
              streamingQueue := some (queue ++ [StreamingUpdate.fromRequest request]) }) :=
          .setRequest rfl rfl
        rwa [still.roster]
    · rename_i hstatus
      have waits : s.roster.stage request.requestId = .waits := by
        simp [roster, RequestStatus.stage, not_not.mp hstatus, RequestStatus.isFinished]
      split at hs
      · rwa [updateRequestAsSession_roster waits hs]
      · obtain ⟨⟨_, s₁⟩, hfinish, hs⟩ := bind_eq_ok.mp hs
        cases hs
        exact finishRequests_sound h hfinish
  · rename_i hnew
    obtain ⟨same, status⟩ := startSession_same request
    cases hs
    exact registerRequest_sound h (same ▸ hnew) (status ▸ fresh hnew)

theorem preemptAll_sound {n : Nat} (h : Roster.Sound lost s.roster)
    (hs : preemptAll cfg parts n s = .ok s') : Roster.Sound lost s'.roster := by
  induction n generalizing s with
  | zero =>
    cases hs
    exact h
  | succ n ih =>
    unfold preemptAll at hs
    split at hs
    · cases hs
      exact h
    · rename_i id hlast
      have ⟨s₁, hpreempt, hs⟩ := bind_eq_ok.mp hs
      refine ih ?_ hs
      have ⟨_, core⟩ := preemptRequest_ok hpreempt
      rw [(Still.of_core core).roster]
      refine preempted_sound h ?_
      have split := dropLast_append_getLast? id hlast
      rw [← split]
      simpa using (perm_append_singleton id s.running.dropLast).symm

theorem resetPrefixCache_sound {resetRunningRequests successful : Bool}
    (h : Roster.Sound lost s.roster)
    (hs : s.resetPrefixCache cfg parts resetRunningRequests = .ok (successful, s')) :
    Roster.Sound lost s'.roster := by
  have ⟨s₁, hpreempt, hs⟩ := bind_eq_ok.mp hs
  have first := preemptAll_sound h hpreempt
  dsimp only at hs
  split at hs
  · cases hs
  · cases hs
    exact first

theorem processStep_still (out : SchedulerOutput) : Still s (s.processStep cfg parts out) := by
  unfold processStep
  split
  · refine Still.trans ?_ .drainDeferredFrees
    exact ⟨rfl, rfl, rfl, rfl, rfl, fun _ => rfl, rfl⟩
  · exact .refl s

theorem finishErrorReqs_sound {ids finished : List String} (h : Roster.Sound lost s.roster)
    (hs : s.finishErrorReqs cfg parts ids = .ok (finished, s')) : Roster.Sound lost s'.roster := by
  unfold finishErrorReqs at hs
  split at hs
  · cases hs
    exact h
  · exact finishRequests_sound h hs

theorem updateFromKvConnector_sound {output : Option KVConnectorOutput}
    (h : Roster.Sound lost s.roster)
    (hs : s.updateFromKvConnector cfg parts output = .ok s') : Roster.Sound lost s'.roster := by
  cases output with
  | none =>
    cases hs
    exact h
  | some output => exact updateFromKvXferFinished_sound h hs

/-- No session of a queue drops out while the output of a step is taken. -/
def KeepsSessions (cfg : SchedulerConfig) (parts : Components ω) (s : Scheduler ω)
    (out : SchedulerOutput) (output : ModelRunnerOutput) : Prop :=
  ∀ failed s₁, (s.processStep cfg parts out).handleKvFailures cfg parts out
      (output.kvConnectorOutput.getD {}) = .ok (failed, s₁) →
    ∀ p ∈ out.numScheduledTokens, ¬DropsOut cfg parts out output failed s₁ p.1 p.2

theorem updateFromOutput_sound {out : SchedulerOutput} {output : ModelRunnerOutput}
    {outputs : List EngineCoreOutput} (h : Roster.Sound lost s.roster)
    (nodup : (out.numScheduledTokens.map Prod.fst).Nodup)
    (hs : s.updateFromOutput cfg parts out output = .ok (outputs, s')) :
    ∃ lost', Roster.Sound lost' s'.roster ∧
    (KeepsSessions cfg parts s out output → ∀ i ∈ lost', i ∈ lost) := by
  have ⟨⟨failed, s₁⟩, hfail, hs⟩ := bind_eq_ok.mp hs
  have ⟨scan, hscan, hs⟩ := bind_eq_ok.mp hs
  have still := (processStep_still out).trans (Still.handleKvFailures hfail)
  have start : ScanSound lost { sched := s₁ : OutputScan ω } := .start (still.roster ▸ h)
  have ⟨lost', scanned, blame⟩ := updateRequests_sound start nodup hscan
  have taken := removeStopped_sound scanned
  refine ⟨lost', ?_, fun keeps i hi => ?_⟩
  · have errors : Still (removeStopped scan)
        ((removeStopped scan).takeErrorReqs cfg parts failed).2 := .takeErrorReqs failed
    generalize (removeStopped scan).takeErrorReqs cfg parts failed = asked at hs errors
    obtain ⟨errorReqIds, s₂⟩ := asked
    have ⟨⟨errorReqs, s₃⟩, hfinish, hs⟩ := bind_eq_ok.mp hs
    have ⟨s₄, hkv, hs⟩ := bind_eq_ok.mp hs
    cases hs
    have asked : Roster.Sound lost' s₂.roster := by rwa [errors.roster]
    exact updateFromKvConnector_sound (finishErrorReqs_sound asked hfinish) hkv
  · refine (blame i hi).resolve_right fun ⟨n, hn, drops⟩ => ?_
    exact keeps failed s₁ hfail (i, n) hn drops

/-- Every unfinished request is in one container, once, and runs if and only if it is in
`running`; nobody else is in any. -/
structure InPlace (s : Scheduler ω) : Prop where
  once : ∀ id, s.running.count id + s.waiting.items.count id + s.kvHoldingWaiting.items.count id =
    if id ∈ s.requests ∧ ¬(s.request id).isFinished then 1 else 0
  running : ∀ id ∈ s.running, (s.request id).status = .running
  waiting : ∀ id ∈ s.waiting.items, (s.request id).status ≠ .running
  kvHolding : ∀ id ∈ s.kvHoldingWaiting.items, (s.request id).status ≠ .running
  deferred : ∀ id ∈ s.deferredWaiting, id ∈ s.waiting.items ∨ id ∈ s.kvHoldingWaiting.items

theorem inPlace_of_sound (h : Roster.Sound [] s.roster) : s.InPlace := by
  have waits : ∀ id ∈ s.roster.waiting, (s.request id).status ≠ .running := by
    intro id hid running
    have stage := h.waits id hid
    rw [show s.roster.stage id = (s.request id).status.stage from rfl, running] at stage
    cases stage
  refine ⟨fun id => ?_, fun id hid => RequestStatus.stage_eq_runs.mp (h.runs id hid),
    fun id hid => waits id (mem_append_left _ hid),
    fun id hid => waits id (mem_append_right _ hid),
    fun id hid => mem_append.mp (h.deferred id hid)⟩
  have place := h.place id
  have live : (s.roster.Live id ∧ id ∉ ([] : List String)) ↔
      id ∈ s.requests ∧ ¬(s.request id).isFinished := by
    unfold Request.isFinished
    rw [← RequestStatus.stage_eq_done]
    simp [Roster.Live, roster]
  simp only [live] at place
  rw [← place, roster, count_append, Nat.add_assoc]

end Scheduler

namespace Engine

variable {e e' : Engine ω}

/-- What a call may rely on: a request that is added is as its constructor left it. -/
def Contract (e : Engine ω) : EngineCall → Prop
  | .addRequest request => request.requestId ∉ e.sched.requests →
      request.status = .waiting ∨ request.status = .waitingForStructuredOutputGrammar
  | _ => True

/-- A call that ends the turn of no session in a queue. -/
def KeepsSessions (cfg : SchedulerConfig) (parts : Components ω) (e : Engine ω) :
    EngineCall → Prop
  | .updateFromOutput output =>
      ∀ out ∈ e.inFlight.head?, e.sched.KeepsSessions cfg parts out output
  | _ => True

/-- The engine with any number of steps in flight. Between two calls the components may
change in any way. -/
def system (cfg : SchedulerConfig) (parts : Components ω)
    (allowed : Engine ω → EngineCall → Prop) : TransitionSystem (Engine ω) (Option EngineCall) where
  init e := ∃ world, e = ⟨.init cfg world, []⟩
  step e call e' :=
    match call with
    | none => ∃ world, e' = { e with sched := { e.sched with world := world } }
    | some call => e.Contract call ∧ allowed e call ∧ e.call cfg parts call = .ok e'

/-- The placement of every request, and the dicts of the steps in flight. -/
structure Placed (lost : List String) (e : Engine ω) : Prop where
  sound : Roster.Sound lost e.sched.roster
  inFlight : ∀ out ∈ e.inFlight, (out.numScheduledTokens.map Prod.fst).Nodup

theorem init_placed (world : ω) : Placed [] ⟨.init cfg world, []⟩ := by
  refine ⟨⟨nodup_nil, fun id => ?_, nofun, nofun, nofun, nofun⟩, nofun⟩
  simp [Scheduler.roster, Scheduler.init, Roster.Live]

theorem call_placed {call : EngineCall} (h : Placed lost e) (contract : e.Contract call)
    (hcall : e.call cfg parts call = .ok e') :
    ∃ lost', Placed lost' e' ∧ (e.KeepsSessions cfg parts call → ∀ i ∈ lost', i ∈ lost) := by
  cases call with
  | addRequest request =>
    have ⟨s, hs, hcall⟩ := bind_eq_ok.mp hcall
    cases hcall
    have ⟨lost', sub, sound⟩ := Scheduler.addRequest_sound h.sound (fun hnew => ?_) hs
    · exact ⟨lost', ⟨sound, h.inFlight⟩, fun _ => sub⟩
    · rcases contract hnew with status | status <;> rw [status] <;> rfl
  | schedule throttlePrefills =>
    have ⟨⟨out, s⟩, hs, hcall⟩ := bind_eq_ok.mp hcall
    cases hcall
    have ⟨st, hloops, same⟩ := Scheduler.schedule_numScheduledTokens hs
    refine ⟨lost, ⟨Scheduler.schedule_sound h.sound hs, fun out' hout => ?_⟩, fun _ i hi => hi⟩
    rcases mem_append.mp hout with hout | hout
    · exact h.inFlight out' hout
    · rw [mem_singleton.mp hout, same]
      exact Scheduler.scheduleReqs_oneEntry hloops
  | updateFromOutput output =>
    obtain ⟨s, inFlight⟩ := e
    cases inFlight with
    | nil => cases hcall
    | cons out rest =>
      have ⟨⟨outputs, s'⟩, hs, hcall⟩ := bind_eq_ok.mp hcall
      cases hcall
      have ⟨lost', sound, keeps⟩ := Scheduler.updateFromOutput_sound h.sound
        (h.inFlight out mem_cons_self) hs
      refine ⟨lost', ⟨sound, fun out' hout => ?_⟩, fun kept => keeps (kept out rfl)⟩
      exact h.inFlight out' (mem_cons_of_mem out hout)
  | updateDraftTokenIds drafts =>
    cases hcall
    refine ⟨lost, ⟨?_, h.inFlight⟩, fun _ i hi => hi⟩
    have still : Still e.sched (Scheduler.updateDraftTokenIds parts drafts e.sched) :=
      .updateDraftTokenIds drafts
    exact still.roster ▸ h.sound
  | finishRequests requestIds finishedStatus =>
    have ⟨⟨finished, s⟩, hs, hcall⟩ := bind_eq_ok.mp hcall
    cases hcall
    exact ⟨lost, ⟨Scheduler.finishRequests_sound h.sound hs, h.inFlight⟩, fun _ i hi => hi⟩
  | resetPrefixCache resetRunningRequests =>
    have ⟨⟨successful, s⟩, hs, hcall⟩ := bind_eq_ok.mp hcall
    cases hcall
    exact ⟨lost, ⟨Scheduler.resetPrefixCache_sound h.sound hs, h.inFlight⟩, fun _ i hi => hi⟩
  | setPauseState pauseState =>
    cases hcall
    exact ⟨lost, ⟨h.sound, h.inFlight⟩, fun _ i hi => hi⟩

/-- In a run in which no session of a queue has its turn ended by an output, every
unfinished request is in the container of its status, once. -/
theorem reachable_inPlace (h : (system cfg parts (KeepsSessions cfg parts)).Reachable e) :
    e.sched.InPlace := by
  refine Scheduler.inPlace_of_sound (Placed.sound (e := e) ?_)
  refine h.invariant (P := Placed []) ?_ ?_
  · rintro e ⟨world, rfl⟩
    exact init_placed world
  · intro e a e' _ placed hstep
    cases a with
    | none =>
      obtain ⟨world, rfl⟩ := hstep
      exact ⟨placed.sound, placed.inFlight⟩
    | some call =>
      have ⟨lost', placed', keeps⟩ := call_placed placed hstep.1 hstep.2.2
      have none : lost' = [] := eq_nil_iff_forall_not_mem.mpr fun i hi =>
        not_mem_nil (keeps hstep.2.1 i hi)
      exact none ▸ placed'

theorem reachable_runCalls {allowed : Engine ω → EngineCall → Prop} {calls : List EngineCall}
    (fine : ∀ call ∈ calls, ∀ e : Engine ω, e.Contract call ∧ allowed e call)
    (h : (system cfg parts allowed).Reachable e) (hrun : runCalls cfg parts calls e = .ok e') :
    (system cfg parts allowed).Reachable e' := by
  induction calls generalizing e with
  | nil =>
    cases hrun
    exact h
  | cons call rest ih =>
    have ⟨e₁, hcall, hrun⟩ := bind_eq_ok.mp hrun
    have ⟨contract, allow⟩ := fine call mem_cons_self e
    exact ih (fun call hmem => fine call (mem_cons_of_mem _ hmem))
      (.step (a := some call) h ⟨contract, allow, hcall⟩) hrun

def asyncConfig : SchedulerConfig :=
  { isAsync := true, maxNumRunningReqs := 4, maxNumActiveReqs := 4, maxNumScheduledTokens := 32,
    maxNumBatchedTokens := 32, maxModelLen := 64 }

theorem keepsSessions_of_running {ω : Type} {cfg : SchedulerConfig} {parts : Components ω}
    {s : Scheduler ω} {out : SchedulerOutput}
    {output : ModelRunnerOutput} (defer : cfg.deferBlockFree = false)
    (quiet : output.kvConnectorOutput = none)
    (running : ∀ p ∈ out.numScheduledTokens, (s.request p.1).status = .running) :
    s.KeepsSessions cfg parts out output := by
  intro failed s₁ h p hp drops
  unfold Scheduler.processStep at h
  rw [quiet, defer, if_neg (by simp)] at h
  cases h
  exact drops.2.2.1 (running p hp)

def calmCalls : List EngineCall := [.addRequest (.new "b" [1, 2] 8), .schedule false]

def calmOutput : ModelRunnerOutput := { sampledTokenIds := [("b", [5])] }

theorem calmRun_inPlace : ∃ e e' : Engine (List Bool),
    runCalls asyncConfig .scripted calmCalls ⟨.init asyncConfig [], []⟩ = .ok e ∧
    e.call asyncConfig .scripted (.updateFromOutput calmOutput) = .ok e' ∧ e'.sched.InPlace := by
  have ends : (runCalls asyncConfig .scripted calmCalls ⟨.init asyncConfig [], []⟩).bind
      (fun e => (e.call asyncConfig .scripted (.updateFromOutput calmOutput)).map fun _ =>
          (e.inFlight.map (·.numScheduledTokens), (e.sched.request "b").status)) =
      .ok ([[("b", 2)]], .running) := by decide +kernel
  generalize hrun : runCalls asyncConfig .scripted calmCalls ⟨.init asyncConfig [], []⟩ = result
    at ends
  cases result with
  | error err => cases ends
  | ok e =>
    simp only [Except.bind] at ends
    generalize hcall : e.call asyncConfig .scripted (.updateFromOutput calmOutput) = last at ends
    cases last with
    | error err => cases ends
    | ok e' =>
      have ⟨inFlight, status⟩ := Prod.mk.inj (Except.ok.inj ends)
      refine ⟨e, e', rfl, hcall, reachable_inPlace (.step (a := some (.updateFromOutput calmOutput))
        (reachable_runCalls (fun call hmem e => ?_) (.init ⟨_, rfl⟩) hrun) ⟨trivial, ?_, hcall⟩)⟩
      · simp only [calmCalls, mem_cons, not_mem_nil, or_false] at hmem
        rcases hmem with rfl | rfl
        · exact ⟨fun _ => .inl rfl, trivial⟩
        · exact ⟨trivial, trivial⟩
      · intro out hout
        refine keepsSessions_of_running rfl rfl fun p hp => ?_
        have hmem : out.numScheduledTokens ∈ e.inFlight.map (·.numScheduledTokens) :=
          mem_map_of_mem (mem_of_mem_head? hout)
        rw [inFlight, mem_singleton] at hmem
        rw [hmem, mem_singleton] at hp
        rw [hp]
        exact status
def turnSession : Request :=
  { Request.new "a" [1, 2] 8 with
    resumable := true, samplingParams := some { eosTokenId := some 9 } }

def turnCalls : List EngineCall :=
  [.addRequest (.new "b" [1, 2] 8), .addRequest turnSession, .schedule false, .schedule false,
    .updateFromOutput { sampledTokenIds := [("b", [5]), ("a", [9])] }]

theorem session_drops_out : ∃ e : Engine (List Bool),
    (system asyncConfig .scripted fun _ _ => True).Reachable e ∧ ¬e.sched.InPlace := by
  have ends : (runCalls asyncConfig .scripted turnCalls
      ⟨.init asyncConfig [true, true, false], []⟩).map (fun e =>
        (e.sched.requests, e.sched.running, e.sched.waiting.items, e.sched.kvHoldingWaiting.items,
          (e.sched.request "a").status)) =
      .ok (["b", "a"], ["b"], [], [], .waitingForStreamingReq) := by decide +kernel
  generalize hrun : runCalls asyncConfig .scripted turnCalls
    ⟨.init asyncConfig [true, true, false], []⟩ = result at ends
  cases result with
  | error err => cases ends
  | ok e =>
    refine ⟨e, reachable_runCalls (fun call hmem e => ⟨?_, trivial⟩) (.init ⟨_, rfl⟩) hrun, ?_⟩
    · simp only [turnCalls, mem_cons, not_mem_nil, or_false] at hmem
      rcases hmem with rfl | rfl | rfl | rfl | rfl
      · exact fun _ => .inl rfl
      · exact fun _ => .inl rfl
      all_goals trivial
    · intro placed
      have ends := Except.ok.inj ends
      simp only [Prod.mk.injEq] at ends
      obtain ⟨requests, running, waiting, kvHolding, status⟩ := ends
      have once := placed.once "a"
      rw [running, waiting, kvHolding, requests] at once
      unfold Request.isFinished at once
      rw [status] at once
      revert once
      decide

end Engine

end VllmAmpere.Sched
