import VllmAmpere.Roster
import VllmAmpere.SchedulerFrames

/-! What moves no request: calls that keep the containers, the stage of every request
and the order of the queues. -/

namespace VllmAmpere

def RequestStatus.stage (status : RequestStatus) : Stage :=
  if status = .running then .runs else if status.isFinished then .done else .waits

theorem RequestStatus.stage_eq_runs {status : RequestStatus} :
    status.stage = .runs ↔ status = .running := by
  cases status <;> decide

theorem RequestStatus.stage_eq_done {status : RequestStatus} :
    status.stage = .done ↔ status.isFinished := by
  cases status <;> decide

namespace Sched

/-- The containers, the stages and the order of the requests are the same. -/
structure Still {ω : Type} (s s' : Scheduler ω) : Prop where
  running : s'.running = s.running
  waiting : s'.waiting = s.waiting
  kvHoldingWaiting : s'.kvHoldingWaiting = s.kvHoldingWaiting
  deferredWaiting : s'.deferredWaiting = s.deferredWaiting
  requests : s'.requests = s.requests
  stage : ∀ id, (s'.request id).status.stage = (s.request id).status.stage
  orderKey : s'.orderKey = s.orderKey

namespace Still

variable {ω : Type} {cfg : SchedulerConfig} {parts : Components ω} {s s' s'' : Scheduler ω}

theorem refl (s : Scheduler ω) : Still s s := ⟨rfl, rfl, rfl, rfl, rfl, fun _ => rfl, rfl⟩

theorem trans (h : Still s s') (h' : Still s' s'') : Still s s'' where
  running := h'.running.trans h.running
  waiting := h'.waiting.trans h.waiting
  kvHoldingWaiting := h'.kvHoldingWaiting.trans h.kvHoldingWaiting
  deferredWaiting := h'.deferredWaiting.trans h.deferredWaiting
  requests := h'.requests.trans h.requests
  stage id := (h'.stage id).trans (h.stage id)
  orderKey := h'.orderKey.trans h.orderKey

theorem of_core (h : s'.core = s.core) : Still s s' where
  running := Scheduler.core_running h
  waiting := Scheduler.core_waiting h
  kvHoldingWaiting := Scheduler.core_kvHoldingWaiting h
  deferredWaiting := Scheduler.core_deferredWaiting h
  requests := Scheduler.core_requests h
  stage id := congrArg RequestStatus.stage (Scheduler.core_status h id)
  orderKey := Scheduler.core_orderKey h

theorem setRequest {id : String} {r : Request}
    (stage : r.status.stage = (s.request id).status.stage)
    (orderKey : r.orderKey = (s.request id).orderKey) : Still s (s.setRequest id r) := by
  have request : ∀ i,
      ((s.setRequest id r).request i).status.stage = (s.request i).status.stage ∧
        ((s.setRequest id r).request i).orderKey = (s.request i).orderKey := by
    intro i
    by_cases hi : i = id
    · subst hi
      simp [Scheduler.setRequest, stage, orderKey]
    · simp [Scheduler.setRequest, hi]
  exact ⟨rfl, rfl, rfl, rfl, rfl, fun i => (request i).1, funext fun i => (request i).2⟩

variable {scheduled : List (String × Int)}

theorem advanceRequests (h : Scheduler.advanceRequests cfg scheduled s = .ok s') : Still s s' := by
  induction scheduled generalizing s with
  | nil =>
    cases h
    exact .refl _
  | cons p rest ih =>
    have ⟨_, _, h⟩ := bind_eq_ok.mp h
    have step : Still s (s.setRequest p.1 (s.advanceRequest cfg (s.request p.1) p.2)) :=
      setRequest rfl rfl
    dsimp only at h
    split at h
    · exact step.trans (ih h)
    · refine step.trans (Still.trans ?_ (ih h))
      exact ⟨rfl, rfl, rfl, rfl, rfl, fun _ => rfl, rfl⟩

theorem placeOutputs (spec : List (String × List Int)) (scheduled : List (String × Int)) :
    Still s (Scheduler.placeOutputs cfg spec scheduled s) := by
  induction scheduled generalizing s with
  | nil => exact .refl _
  | cons p rest ih =>
    unfold Scheduler.placeOutputs
    dsimp only
    split
    · exact ih
    · refine Still.trans ?_ ih
      exact setRequest rfl rfl

variable {out : SchedulerOutput}

theorem updateAfterSchedule (h : s.updateAfterSchedule cfg out = .ok s') : Still s s' := by
  have ⟨s₁, hadvance, h⟩ := bind_eq_ok.mp h
  have first := advanceRequests hadvance
  have second : Still s₁ { s₁ with finishedReqIds := [], resetPreemptedReqIds := [] } :=
    ⟨rfl, rfl, rfl, rfl, rfl, fun _ => rfl, rfl⟩
  dsimp only at h
  split at h
  · cases h
    refine (first.trans second).trans (Still.trans ?_ (placeOutputs _ _))
    exact ⟨rfl, rfl, rfl, rfl, rfl, fun _ => rfl, rfl⟩
  · cases h
    exact first.trans second

theorem stepOutput {st : Step ω}
    (h : Scheduler.stepOutput cfg parts st = .ok (out, s')) : Still st.sched s' := by
  have copied : (st.sched.takeCopies cfg parts).2.core = st.sched.core :=
    Scheduler.core_takeCopies
  have ⟨_, _, h⟩ := bind_eq_ok.mp h
  cases h
  exact of_core copied

theorem schedule {throttlePrefills : Bool}
    (h : s.schedule cfg parts throttlePrefills = .ok (out, s')) :
    ∃ st, s.scheduleReqs cfg parts throttlePrefills = .ok st ∧ Still st.sched s' := by
  have ⟨st, hloops, h⟩ := bind_eq_ok.mp h
  have ⟨_, _, h⟩ := bind_eq_ok.mp h
  have ⟨⟨out₁, s₁⟩, hout, h⟩ := bind_eq_ok.mp h
  have ⟨s₂, hupdate, h⟩ := bind_eq_ok.mp h
  cases h
  refine ⟨st, hloops, (stepOutput hout).trans (Still.trans ?_ (updateAfterSchedule hupdate))⟩
  split
  · exact ⟨rfl, rfl, rfl, rfl, rfl, fun _ => rfl, rfl⟩
  · exact .refl _

theorem drainDeferredFrees : Still s (s.drainDeferredFrees parts) :=
  .of_core Scheduler.core_drainDeferredFrees

theorem handleFailedRecving (failedReqIds : List String) :
    Still s (s.handleFailedRecving cfg failedReqIds).2 := by
  unfold Scheduler.handleFailedRecving
  dsimp only
  split
  · generalize failedReqIds.filter _ = affected
    induction affected generalizing s with
    | nil => exact .refl _
    | cons id rest ih =>
      refine Still.trans ?_ ih
      have assigned : Still s (s.setRequest id { s.request id with numComputedTokens := 0 }) :=
        setRequest rfl rfl
      exact assigned.trans ⟨rfl, rfl, rfl, rfl, rfl, fun _ => rfl, rfl⟩
  · exact .refl _

variable {invalid : List BlockId}

theorem updateRequestWithInvalidBlocks {evict : Bool} {scan scan' : InvalidScan} {id : String}
    (h : s.updateRequestWithInvalidBlocks cfg parts invalid scheduled evict scan id =
    .ok (scan', s')) : Still s s' := by
  unfold Scheduler.updateRequestWithInvalidBlocks at h
  split at h
  · cases h
    exact setRequest rfl rfl
  · cases h

theorem updateRequestsWithInvalidBlocks
    {evict : Bool} {ids : List String} {scan scan' : InvalidScan}
    (h : Scheduler.updateRequestsWithInvalidBlocks cfg parts invalid scheduled evict ids scan s =
    .ok (scan', s')) : Still s s' := by
  induction ids generalizing scan s with
  | nil =>
    cases h
    exact .refl _
  | cons id rest ih =>
    have ⟨_, hfirst, h⟩ := bind_eq_ok.mp h
    exact (updateRequestWithInvalidBlocks hfirst).trans (ih h)

theorem handleInvalidBlocks {failed : List String}
    (h : s.handleInvalidBlocks cfg parts invalid scheduled = .ok (failed, s')) : Still s s' := by
  unfold Scheduler.handleInvalidBlocks at h
  split at h
  · cases h
  · have ⟨⟨asyncScan, s₁⟩, hasync, h⟩ := bind_eq_ok.mp h
    have ⟨⟨syncScan, s₂⟩, hsync, h⟩ := bind_eq_ok.mp h
    have both := (updateRequestsWithInvalidBlocks hasync).trans
      (updateRequestsWithInvalidBlocks hsync)
    dsimp only at h
    split at h
    · cases h
      exact both
    · split at h
      · cases h
        refine both.trans (.of_core ?_)
        split <;> rfl
      · cases h
        exact both.trans ⟨rfl, rfl, rfl, rfl, rfl, fun _ => rfl, rfl⟩

theorem handleKvFailures {output : KVConnectorOutput} {failed : List String}
    (h : s.handleKvFailures cfg parts out output = .ok (failed, s')) : Still s s' := by
  unfold Scheduler.handleKvFailures at h
  dsimp only at h
  have first : Still s (if output.failedRecving = [] then ([], s)
      else s.handleFailedRecving cfg output.failedRecving).2 := by
    split
    · exact .refl _
    · exact handleFailedRecving _
  split at h
  · cases h
    exact first
  · have ⟨⟨invalid, s₁⟩, hinvalid, h⟩ := bind_eq_ok.mp h
    cases h
    exact first.trans (handleInvalidBlocks hinvalid)

theorem takeErrorReqs (failed : List String) : Still s (s.takeErrorReqs cfg parts failed).2 := by
  refine .of_core ?_
  unfold Scheduler.takeErrorReqs
  dsimp only
  split <;> rfl

theorem updateDraftTokenIds (drafts : List (String × List Int)) :
    Still s (Scheduler.updateDraftTokenIds parts drafts s) := by
  induction drafts generalizing s with
  | nil => exact .refl _
  | cons p rest ih =>
    unfold Scheduler.updateDraftTokenIds
    refine Still.trans ?_ ih
    split
    · exact .refl _
    · split
      · exact setRequest rfl rfl
      · exact setRequest rfl rfl

end Still

end Sched

end VllmAmpere
