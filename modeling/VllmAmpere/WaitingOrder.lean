import VllmAmpere.SchedulerAdmission

/-! First come, first served: what a scheduling step leaves in the waiting queues is in
the order it was in, whatever the step skips. -/

open List

namespace VllmAmpere.Sched

namespace Step

variable {ω : Type} {cfg : SchedulerConfig} {parts : Components ω} {limits : StepLimits}
  {st st' : Step ω} {kvBefore waitingBefore runningBefore : List String}

/-- Under FCFS the loop over the waiting requests takes them in the order of the block
holders followed by the others; those it sets aside keep that order. -/
structure Scanned (kvBefore waitingBefore runningBefore : List String) (st : Step ω) : Prop where
  fcfs : st.sched.waiting.policy = .fcfs ∧ st.sched.kvHoldingWaiting.policy = .fcfs
  order : ∃ popped admitted,
    kvBefore ++ waitingBefore =
      popped ++ (st.sched.kvHoldingWaiting.items ++ st.sched.waiting.items) ∧
    st.stepSkippedKvHolding.reverse.Sublist popped ∧
    st.stepSkippedWaiting.reverse.Sublist popped ∧
    st.sched.running = runningBefore ++ admitted ∧
    (admitted ++ (st.stepSkippedKvHolding ++ st.stepSkippedWaiting)).Perm popped

theorem PrepareMove.running (move : PrepareMove cfg parts st st') :
    st'.sched.running = st.sched.running := by
  cases move with
  | quiet s hs => exact Scheduler.core_running hs
  | unblock id ready s _ hs =>
    have ⟨_, _, _, _, hcore, _⟩ := Scheduler.handleBlockedWaitingRequest_ok hs
    have running := Scheduler.core_running hcore
    exact running

theorem PrepareMove.skipped (move : PrepareMove cfg parts st st') :
    st'.stepSkippedKvHolding = st.stepSkippedKvHolding ∧
    st'.stepSkippedWaiting = st.stepSkippedWaiting := by
  cases move <;> exact ⟨rfl, rfl⟩

theorem Scanned.prepare (h : Scanned kvBefore waitingBefore runningBefore st)
    (move : PrepareMove cfg parts st st') : Scanned kvBefore waitingBefore runningBefore st' := by
  constructor
  · rw [move.queues.1, move.queues.2]
    exact h.fcfs
  · rw [move.queues.1, move.queues.2, move.running, move.skipped.1, move.skipped.2]
    exact h.order

theorem TakeMove.first (move : TakeMove cfg parts st st')
    (fcfs : st.sched.waiting.policy = .fcfs ∧ st.sched.kvHoldingWaiting.policy = .fcfs) :
    (st'.sched.waiting.policy = .fcfs ∧ st'.sched.kvHoldingWaiting.policy = .fcfs) ∧
    ∃ id, Placed st st' id ∧ st.sched.kvHoldingWaiting.items ++ st.sched.waiting.items =
    id :: (st'.sched.kvHoldingWaiting.items ++ st'.sched.waiting.items) := by
  have ⟨id, queue, ⟨key, hpop⟩, waiting, kvHolding, placed⟩ := move.pops
  have policy := (RequestQueue.popRequest_ok hpop).1
  rw [waiting, kvHolding]
  unfold queueOf at hpop policy
  unfold withQueue
  cases hfrom : st.fromKvHolding with
  | true =>
    rw [hfrom, if_pos rfl] at hpop policy
    have first := RequestQueue.popRequest_fcfs fcfs.2 hpop
    refine ⟨⟨fcfs.1, policy.trans fcfs.2⟩, id, placed, ?_⟩
    rw [first]
    rfl
  | false =>
    rw [hfrom, if_neg (by decide)] at hpop policy
    have first := RequestQueue.popRequest_fcfs fcfs.1 hpop
    have empty : st.sched.kvHoldingWaiting.items = [] := by
      unfold fromKvHolding at hfrom
      simpa using hfrom
    refine ⟨⟨policy.trans fcfs.1, fcfs.2⟩, id, placed, ?_⟩
    rw [empty, first]
    simp [empty]

theorem Scanned.take (h : Scanned kvBefore waitingBefore runningBefore st)
    (move : TakeMove cfg parts st st') : Scanned kvBefore waitingBefore runningBefore st' := by
  have ⟨fcfs, id, placed, first⟩ := move.first h.fcfs
  have ⟨popped, admitted, all, skippedKv, skipped, hrunning, perm⟩ := h.order
  have all' : kvBefore ++ waitingBefore = (popped ++ [id]) ++
      (st'.sched.kvHoldingWaiting.items ++ st'.sched.waiting.items) := by
    rw [all, first]
    simp
  have aside : ∀ {skips : List String}, skips.reverse.Sublist popped →
      (id :: skips).reverse.Sublist (popped ++ [id]) := by
    intro skips hskips
    rw [reverse_cons]
    exact hskips.append (.refl _)
  have kept : ∀ {skips : List String}, skips.Sublist popped → skips.Sublist (popped ++ [id]) :=
    fun hskips => hskips.trans (sublist_append_left _ _)
  refine ⟨fcfs, popped ++ [id], ?_⟩
  cases placed with
  | aside holdsKv hkv hwaiting hrun =>
    refine ⟨admitted, all', ?_, ?_, hrun.trans hrunning, ?_⟩
    · cases holdsKv
      · rw [hkv]
        exact kept skippedKv
      · rw [hkv]
        exact aside skippedKv
    · cases holdsKv
      · rw [hwaiting]
        exact aside skipped
      · rw [hwaiting]
        exact kept skipped
    · rw [hkv, hwaiting]
      refine perm_iff_count.mpr fun i => ?_
      have count := perm.count_eq i
      cases holdsKv <;> simp [count_append, count_cons] at count ⊢ <;> omega
  | runs hkv hwaiting hrun =>
    refine ⟨admitted ++ [id], all', ?_, ?_, ?_, ?_⟩
    · rw [hkv]
      exact kept skippedKv
    · rw [hwaiting]
      exact kept skipped
    · rw [hrun, hrunning, append_assoc]
    · rw [hkv, hwaiting]
      refine perm_iff_count.mpr fun i => ?_
      have count := perm.count_eq i
      simp only [count_append] at count ⊢
      omega

/-- Under FCFS the loop over the running requests only puts those it preempts ahead of
the waiting ones. -/
structure MadeRoom (kvBefore waitingBefore runningBefore : List String) (st : Step ω) : Prop where
  fcfs : st.sched.waiting.policy = .fcfs ∧ st.sched.kvHoldingWaiting.policy = .fcfs
  waiting : st.sched.waiting.items = st.preemptedReqs.reverse ++ waitingBefore
  kvHolding : st.sched.kvHoldingWaiting.items = kvBefore
  running : (st.sched.running ++ st.preemptedReqs).Perm runningBefore
  skipped : st.stepSkippedKvHolding = [] ∧ st.stepSkippedWaiting = []

section

variable (h : MadeRoom kvBefore waitingBefore runningBefore st)
include h

theorem MadeRoom.still
    (still : Still st.sched st'.sched) (preempted : st'.preemptedReqs = st.preemptedReqs)
    (skippedKv : st'.stepSkippedKvHolding = st.stepSkippedKvHolding)
    (skipped : st'.stepSkippedWaiting = st.stepSkippedWaiting) :
    MadeRoom kvBefore waitingBefore runningBefore st' := by
  constructor
  · rw [still.waiting, still.kvHoldingWaiting]
    exact h.fcfs
  · rw [still.waiting, preempted]
    exact h.waiting
  · rw [still.kvHoldingWaiting]
    exact h.kvHolding
  · rw [still.running, preempted]
    exact h.running
  · rw [skippedKv, skipped]
    exact h.skipped

theorem MadeRoom.preempt
    {victim : String} {s : Scheduler ω} (hs : Preempts cfg parts st victim s) :
    MadeRoom kvBefore waitingBefore runningBefore (st.withPreempted cfg victim s) := by
  have hcore := hs.core.2
  have same := removeVictim_same cfg st victim
  have waiting := Scheduler.core_waiting hcore
  have kvHolding := Scheduler.core_kvHoldingWaiting hcore
  have preempted : (st.withPreempted cfg victim s).preemptedReqs =
      st.preemptedReqs ++ [victim] := by
    unfold withPreempted
    rw [same.1]
  have prepended : s.waiting.policy = .fcfs ∧
      s.waiting.items = victim :: st.sched.waiting.items := by
    rw [waiting, Scheduler.preempted_waiting]
    dsimp only
    rw [RequestQueue.prependRequest_fcfs h.fcfs.1]
    exact ⟨h.fcfs.1, rfl⟩
  have holding : s.kvHoldingWaiting = st.sched.kvHoldingWaiting := kvHolding
  constructor
  · exact ⟨prepended.1, holding ▸ h.fcfs.2⟩
  · rw [preempted, reverse_append]
    exact prepended.2.trans (congrArg (victim :: ·) h.waiting)
  · exact (congrArg RequestQueue.items holding).trans h.kvHolding
  · rw [preempted]
    refine List.Perm.trans ?_ h.running
    have perm := runningWithout_perm hs.chosen
    rw [← hs.running] at perm
    refine List.Perm.trans ?_ (perm.append_right st.preemptedReqs)
    rw [← append_assoc]
    exact perm_append_singleton _ _
  · exact ⟨same.2.1.trans h.skipped.1, same.2.2.trans h.skipped.2⟩

theorem MadeRoom.moves
    (moves : RunningMoves cfg parts st st') :
    MadeRoom kvBefore waitingBefore runningBefore st' := by
  refine RunningMoves.invariant ?_ ?_ ?_ ?_ moves h
  · exact fun st s hs h => h.still (.of_core hs) rfl rfl rfl
  · exact fun st h => h.still (.refl _) rfl rfl rfl
  · exact fun st victim s hs h => h.preempt hs
  · intro st id newBlocks plan _ h
    have still := scheduleRunning_still cfg parts st id newBlocks plan
    have same := scheduleRunning_same cfg parts st id newBlocks plan
    exact h.still still same.1 same.2.1 same.2.2

end

theorem Scanned.requeue (h : Scanned kvBefore waitingBefore runningBefore st) :
    st.requeueSkipped.sched.waiting.items.Sublist (kvBefore ++ waitingBefore) ∧
    st.requeueSkipped.sched.kvHoldingWaiting.items.Sublist (kvBefore ++ waitingBefore) ∧
    (st.requeueSkipped.sched.running ++ st.requeueSkipped.sched.waiting.items ++
    st.requeueSkipped.sched.kvHoldingWaiting.items).Perm
    (runningBefore ++ waitingBefore ++ kvBefore) := by
  have ⟨popped, admitted, all, skippedKv, skipped, running, perm⟩ := h.order
  unfold requeueSkipped
  dsimp only
  rw [RequestQueue.prependRequests_fcfs h.fcfs.1, RequestQueue.prependRequests_fcfs h.fcfs.2,
    running]
  refine ⟨?_, ?_, ?_⟩
  · rw [all]
    exact skipped.append (sublist_append_right _ _)
  · rw [all]
    exact skippedKv.append (sublist_append_left _ _)
  · refine perm_iff_count.mpr fun i => ?_
    have split := congrArg (List.count i) all
    have count := perm.count_eq i
    simp only [count_append, count_reverse] at split count ⊢
    omega

end Step

namespace Scheduler

variable {ω : Type} {cfg : SchedulerConfig} {parts : Components ω} {s : Scheduler ω}

/-- Both loops of a step under FCFS: the preempted requests go first, the others keep
their order. -/
theorem scheduleReqs_order (waiting : s.waiting.policy = .fcfs)
    (kvHolding : s.kvHoldingWaiting.policy = .fcfs) {throttlePrefills : Bool} {st : Step ω}
    (h : s.scheduleReqs cfg parts throttlePrefills = .ok st) :
    ∃ preempted left, st.sched.waiting.items = preempted ++ left ∧
    (∀ id ∈ preempted, id ∈ s.running) ∧
    left.Sublist (s.kvHoldingWaiting.items ++ s.waiting.items) ∧
    st.sched.kvHoldingWaiting.items.Sublist (s.kvHoldingWaiting.items ++ s.waiting.items) ∧
    (st.sched.running ++ st.sched.waiting.items ++ st.sched.kvHoldingWaiting.items).Perm
    (s.running ++ s.waiting.items ++ s.kvHoldingWaiting.items) := by
  have ⟨st₁, hrunning, h⟩ := bind_eq_ok.mp h
  have ⟨st₀, moves, hst₁⟩ := Step.scheduleRunningReqs_moves hrunning
  have start : Step.MadeRoom s.kvHoldingWaiting.items s.waiting.items s.running
      (s.startStep cfg parts) :=
    ⟨⟨waiting, kvHolding⟩, rfl, rfl, by rw [startStep, append_nil], rfl, rfl⟩
  have room : Step.MadeRoom s.kvHoldingWaiting.items s.waiting.items s.running st₁ := by
    have room := start.moves moves
    rcases hst₁ with rfl | rfl
    · exact room
    · exact room.still (.refl _) rfl rfl rfl
  split at h
  · rename_i hwaits
    have ⟨st₂, hloop, still, _⟩ := Step.scheduleWaitingReqs_ok h
    have none : st₁.preemptedReqs = [] := hwaits.1
    have run := room.running
    have items := room.waiting
    rw [none, append_nil] at run
    rw [none, reverse_nil, nil_append] at items
    have scanned : Step.Scanned s.kvHoldingWaiting.items s.waiting.items st₁.sched.running st₁ := by
      refine ⟨room.fcfs, [], [], ?_, ?_, ?_, ?_, ?_⟩
      · rw [items, room.kvHolding, nil_append]
      · rw [room.skipped.1]
        exact .refl _
      · rw [room.skipped.2]
        exact .refl _
      · rw [append_nil]
      · rw [room.skipped.1, room.skipped.2]
        exact .refl _
    have after := Step.waitingLoop_rule (fun _ _ move h => h.prepare move)
      (fun _ _ move h => h.take move) hloop scanned
    have ⟨left, leftKv, perm⟩ := after.requeue
    rw [still.waiting, still.kvHoldingWaiting, still.running]
    refine ⟨[], _, rfl, ?_, left, leftKv, perm.trans ?_⟩
    · exact fun id hid => absurd hid not_mem_nil
    · exact (run.append_right _).append_right _
  · cases h
    refine ⟨st.preemptedReqs.reverse, s.waiting.items, room.waiting, ?_, ?_, ?_, ?_⟩
    · intro id hid
      exact room.running.subset (mem_append_right _ (mem_reverse.mp hid))
    · exact sublist_append_right _ _
    · rw [room.kvHolding]
      exact sublist_append_left _ _
    · rw [room.waiting, room.kvHolding]
      refine perm_iff_count.mpr fun i => ?_
      have count := room.running.count_eq i
      simp only [count_append, count_reverse] at count ⊢
      omega

/-- Under FCFS a scheduling step ends its loop over the waiting requests, keeps the order
of those it leaves, behind the ones it preempts, and loses and duplicates none. -/
theorem schedule_keeps_order (waiting : s.waiting.policy = .fcfs)
    (kvHolding : s.kvHoldingWaiting.policy = .fcfs) :
    (∀ (limits : StepLimits) (st : Step ω), st.waitingLoop cfg parts limits ≠ .ok none) ∧
    ∀ (throttlePrefills : Bool) (out : SchedulerOutput) (s' : Scheduler ω),
    s.schedule cfg parts throttlePrefills = .ok (out, s') →
    ∃ preempted left, s'.waiting.items = preempted ++ left ∧ (∀ id ∈ preempted, id ∈ s.running) ∧
    left.Sublist (s.kvHoldingWaiting.items ++ s.waiting.items) ∧
    s'.kvHoldingWaiting.items.Sublist (s.kvHoldingWaiting.items ++ s.waiting.items) ∧
    (s'.running ++ s'.waiting.items ++ s'.kvHoldingWaiting.items).Perm
    (s.running ++ s.waiting.items ++ s.kvHoldingWaiting.items) := by
  refine ⟨fun limits st => Step.waitingLoop_ends, fun throttlePrefills out s' h => ?_⟩
  have ⟨st, hloops, still⟩ := Still.schedule h
  rw [still.waiting, still.kvHoldingWaiting, still.running]
  exact scheduleReqs_order waiting kvHolding hloops

def fourTokens : SchedulerConfig where
  maxNumRunningReqs := 4
  maxNumActiveReqs := 4
  maxNumScheduledTokens := 4
  maxNumBatchedTokens := 4
  maxModelLen := 64

/-- Three waiting requests, the first of which waits for its grammar. -/
def threeWaiting : Scheduler (List Bool) :=
  let blocked := { Request.new "a" [1, 2] 8 with
    status := .waitingForStructuredOutputGrammar, useStructuredOutput := true }
  let s := (Scheduler.init fourTokens []).setRequest "a" blocked
  let s := (s.setRequest "b" (.new "b" [3, 4, 5, 6] 8)).setRequest "c" (.new "c" [7] 8)
  ["a", "b", "c"].foldl enqueueWaitingRequest { s with requests := ["a", "b", "c"] }

/-- The step skips the first request, admits the second and does not reach the third. -/
theorem schedule_keeps_order_skipping :
    ∃ out s', threeWaiting.schedule fourTokens Components.scripted false = .ok (out, s') ∧
    s'.running = ["b"] ∧ s'.waiting.items = ["a", "c"] ∧
    ∃ preempted left, s'.waiting.items = preempted ++ left ∧
    (∀ id ∈ preempted, id ∈ threeWaiting.running) ∧
    left.Sublist (threeWaiting.kvHoldingWaiting.items ++ threeWaiting.waiting.items) ∧
    s'.kvHoldingWaiting.items.Sublist
    (threeWaiting.kvHoldingWaiting.items ++ threeWaiting.waiting.items) ∧
    (s'.running ++ s'.waiting.items ++ s'.kvHoldingWaiting.items).Perm
    (threeWaiting.running ++ threeWaiting.waiting.items ++
    threeWaiting.kvHoldingWaiting.items) := by
  have returns : (threeWaiting.schedule fourTokens Components.scripted false).toOption.isSome := by
    decide +kernel
  refine ⟨_, _, toOption_get returns, by decide +kernel, by decide +kernel, ?_⟩
  exact (schedule_keeps_order rfl rfl).2 _ _ _ (toOption_get returns)

end Scheduler

end VllmAmpere.Sched
