import VllmAmpere.SchedulerAdmission

/-! The containers of the scheduler as a roster: a request that is not finished runs or
waits in one queue. What each call makes of the roster. -/

open List

namespace VllmAmpere.Sched

variable {ω : Type} {cfg : SchedulerConfig} {parts : Components ω} {s s' : Scheduler ω}
  {lost : List String} {id : String}

/-- The requests of a scheduler and the containers that hold them. -/
def Scheduler.roster {ω : Type} (s : Scheduler ω) : Roster String where
  stage id := (s.request id).status.stage
  known := s.requests
  running := s.running
  waiting := s.waiting.items ++ s.kvHoldingWaiting.items
  deferred := s.deferredWaiting

/-- In the middle of a step the requests set aside wait as well. -/
def Step.roster {ω : Type} (st : Step ω) : Roster String :=
  { st.sched.roster with
    waiting := st.stepSkippedWaiting ++ st.stepSkippedKvHolding ++ st.sched.roster.waiting }

theorem Still.roster {ω : Type} {s s' : Scheduler ω} (h : Still s s') : s'.roster = s.roster := by
  have stage : (fun id => (s'.request id).status.stage) = fun id => (s.request id).status.stage :=
    funext h.stage
  unfold Scheduler.roster
  rw [h.running, h.waiting, h.kvHoldingWaiting, h.deferredWaiting, h.requests, stage]

theorem mem_setAdd {ids : List String} {id i : String} : i ∈ setAdd ids id ↔ i = id ∨ i ∈ ids := by
  unfold setAdd
  split
  · constructor
    · exact .inr
    · rintro (rfl | h)
      · assumption
      · exact h
  · rw [mem_append, mem_singleton, or_comm]

theorem mem_discard {ids : List String} {id i : String} :
    i ∈ discard ids id ↔ i ∈ ids ∧ i ≠ id := by
  simp [discard]

namespace Scheduler

variable (s id) in
theorem setRequest_stage (r : Request) :
    (s.setRequest id r).roster.stage = Function.update s.roster.stage id r.status.stage := by
  funext i
  by_cases hi : i = id
  · subst hi
    simp [setRequest, roster]
  · simp [setRequest, roster, hi]

theorem enqueueWaitingRequest_roster (id : String) :
    (s.enqueueWaitingRequest id).roster.stage = s.roster.stage ∧
    (s.enqueueWaitingRequest id).roster.known = s.roster.known ∧
    (s.enqueueWaitingRequest id).roster.running = s.roster.running ∧
    (s.enqueueWaitingRequest id).roster.waiting.Perm (id :: s.roster.waiting) ∧
    ∀ i ∈ (s.enqueueWaitingRequest id).roster.deferred, i = id ∨ i ∈ s.roster.deferred := by
  have intoWaiting : ∀ key : String → Int ×ₗ ℚ ×ₗ String,
      ((s.waiting.addRequest key id).items ++ s.kvHoldingWaiting.items).Perm
        (id :: s.roster.waiting) :=
    fun _ => (RequestQueue.addRequest_perm id).append_right _
  have intoKvHolding : ∀ key : String → Int ×ₗ ℚ ×ₗ String,
      (s.waiting.items ++ (s.kvHoldingWaiting.addRequest key id).items).Perm
        (id :: s.roster.waiting) :=
    fun _ => ((RequestQueue.addRequest_perm id).append_left _).trans perm_middle
  have deferred : ∀ i ∈ setAdd s.deferredWaiting id, i = id ∨ i ∈ s.deferredWaiting :=
    fun _ hi => mem_setAdd.mp hi
  unfold enqueueWaitingRequest
  dsimp only
  split <;> split
  · exact ⟨rfl, rfl, rfl, intoKvHolding _, deferred⟩
  · exact ⟨rfl, rfl, rfl, intoWaiting _, deferred⟩
  · exact ⟨rfl, rfl, rfl, intoKvHolding _, fun _ hi => .inr hi⟩
  · exact ⟨rfl, rfl, rfl, intoWaiting _, fun _ hi => .inr hi⟩

variable (s) in
theorem preempted_roster (running : List String) (id : String) (dropStaleOutput : Bool) :
    let r := (({ s with running := running } : Scheduler ω).preempted id dropStaleOutput).roster
    r.stage = Function.update s.roster.stage id .waits ∧ r.known = s.roster.known ∧
      r.running = running ∧ r.waiting.Perm (id :: s.roster.waiting) ∧
      r.deferred = s.roster.deferred := by
  refine ⟨setRequest_stage _ _ _, rfl, rfl, ?_, rfl⟩
  have waiting := preempted_waiting (s := { s with running := running }) id dropStaleOutput
  unfold roster
  rw [waiting]
  exact (RequestQueue.prependRequest_perm id).append_right _

theorem preempted_sound {running : List String} {dropStaleOutput : Bool}
    (h : Roster.Sound lost s.roster) (removed : (id :: running).Perm s.running) : Roster.Sound lost
    (({ s with running := running } : Scheduler ω).preempted id dropStaleOutput).roster := by
  have ⟨stage, known, run, waiting, deferred⟩ :=
    preempted_roster s running id dropStaleOutput
  exact h.stop id (run ▸ removed) waiting stage known fun i hi => .inr (deferred ▸ hi)

end Scheduler

namespace Step

variable {limits : StepLimits} {st st' : Step ω}

theorem roster_of_still (still : Still st.sched st'.sched)
    (skippedKv : st'.stepSkippedKvHolding = st.stepSkippedKvHolding)
    (skipped : st'.stepSkippedWaiting = st.stepSkippedWaiting) : st'.roster = st.roster := by
  unfold roster
  rw [still.roster, skippedKv, skipped]

theorem Preempts.sound {victim : String} {s : Scheduler ω} (hs : Preempts cfg parts st victim s)
    (h : Roster.Sound lost st.roster) :
    Roster.Sound lost (st.withPreempted cfg victim s).roster := by
  have same := removeVictim_same cfg st victim
  have roster := (Still.of_core hs.core.2).roster
  have ⟨stage, known, run, waiting, deferred⟩ := Scheduler.preempted_roster st.sched
    (runningWithout cfg st.sched.running victim) victim cfg.requiresKvDelivery
  rw [← roster] at stage known run waiting deferred
  refine h.stop _ ?_ ?_ stage known fun i hi => .inr (deferred ▸ hi)
  · exact run ▸ runningWithout_perm hs.chosen
  · have skipped : (st.withPreempted cfg victim s).roster.waiting =
        st.stepSkippedWaiting ++ st.stepSkippedKvHolding ++ s.roster.waiting := by
      unfold Step.roster withPreempted
      rw [same.2.1, same.2.2]
    rw [skipped]
    exact (waiting.append_left _).trans perm_middle

theorem RunningMoves.sound (moves : RunningMoves cfg parts st st')
    (h : Roster.Sound lost st.roster) : Roster.Sound lost st'.roster := by
  refine RunningMoves.invariant (P := fun st => Roster.Sound lost st.roster) ?_ ?_ ?_ ?_ moves h
  · intro st s hs h
    have same : ({ st with sched := s } : Step ω).roster = st.roster :=
      roster_of_still (.of_core hs) rfl rfl
    rwa [same]
  · exact fun st h => h
  · exact fun st victim s hs h => hs.sound h
  · intro st id newBlocks plan _ h
    have still := scheduleRunning_still cfg parts st id newBlocks plan
    have same := scheduleRunning_same cfg parts st id newBlocks plan
    rwa [roster_of_still still same.2.1 same.2.2]

theorem PrepareMove.roster (move : PrepareMove cfg parts st st') : st'.roster = st.roster := by
  cases move with
  | quiet s hs => exact roster_of_still (.of_core hs) rfl rfl
  | unblock id ready s _ hs =>
    exact roster_of_still (Scheduler.handleBlockedWaitingRequest_still hs) rfl rfl

variable (st) in
theorem skipped_sound {fromKv holdsKv : Bool} {queue : RequestQueue String}
    {key : String → Int ×ₗ ℚ ×ₗ String} (h : Roster.Sound lost st.roster)
    (hpop : (st.queueOf fromKv).popRequest key = .ok (id, queue)) :
    Roster.Sound lost ((st.withQueue fromKv queue).withSkipped id holdsKv).roster := by
  have perm := (RequestQueue.popRequest_ok hpop).2.2
  have waiting : ((st.withQueue fromKv queue).withSkipped id holdsKv).roster.waiting.Perm
      st.roster.waiting := by
    unfold queueOf at perm
    refine perm_iff_count.mpr fun i => ?_
    have count := perm.count_eq i
    cases fromKv <;> cases holdsKv <;>
      simp [roster, withSkipped, withQueue, Scheduler.roster, count_append,
        count_cons] at count ⊢ <;> omega
  have hid : id ∈ st.roster.waiting := by
    have hmem : id ∈ (st.queueOf fromKv).items := perm.subset mem_cons_self
    unfold queueOf at hmem
    cases fromKv <;> simp at hmem <;> simp [roster, Scheduler.roster, hmem]
  refine h.congr ?_ ?_ ?_ waiting ?_
  · cases fromKv <;> rfl
  · cases fromKv <;> rfl
  · cases fromKv <;> exact .refl _
  · intro i hi
    have hi : i ∈ setAdd st.sched.deferredWaiting id := by
      cases fromKv <;> exact hi
    rcases mem_setAdd.mp hi with rfl | hi
    · exact .inr hid
    · exact .inl hi

theorem head_mem_waiting (head : st.requestQueue.items.head? = some id) :
    id ∈ st.sched.roster.waiting := by
  have hmem := mem_of_mem_head? head
  unfold requestQueue at hmem
  unfold Scheduler.roster
  split at hmem
  · exact mem_append_right _ hmem
  · exact mem_append_left _ hmem

theorem withLoading_still (h : Roster.Sound lost st.roster) (a : Admission)
    (head : st.requestQueue.items.head? = some id) :
    Still st.sched (st.withLoading id a).sched := by
  have stage : (st.sched.request id).status.stage = .waits :=
    h.waits id (mem_append_right _ (head_mem_waiting head))
  have assigned : Still st.sched (st.sched.setRequest id { st.sched.request id with
      status := .waitingForRemoteKvs, numComputedTokens := a.numComputedTokens }) :=
    .setRequest stage.symm rfl
  exact assigned.trans ⟨rfl, rfl, rfl, rfl, rfl, fun _ => rfl, rfl⟩

theorem admitted_sound {fromKv : Bool} {queue : RequestQueue String}
    {key : String → Int ×ₗ ℚ ×ₗ String} {a : Admission} {chunk : Chunk}
    (h : Roster.Sound lost st.roster) (hpop : (st.queueOf fromKv).popRequest key = .ok (id, queue))
    (admits : Admits cfg (st.withQueue fromKv queue) st' id a chunk) :
    Roster.Sound lost st'.roster := by
  have perm := (RequestQueue.popRequest_ok hpop).2.2
  have ⟨inflight, hcore⟩ := admits.sched
  have roster := (Still.of_core hcore).roster
  have same := withQueue_same st fromKv queue
  have stepRoster : st'.roster = { ((st.withQueue fromKv queue).sched.admitted id
      chunk.numComputedTokens inflight).roster with
    waiting := st.stepSkippedWaiting ++ st.stepSkippedKvHolding ++
      ((st.withQueue fromKv queue).sched.admitted id chunk.numComputedTokens
        inflight).roster.waiting } := by
    unfold Step.roster
    rw [roster, admits.skippedWaiting, admits.skippedKvHolding, same.1, same.2.1]
  rw [stepRoster]
  refine h.start id ?_ ?_ ?_ ?_ ?_
  · unfold queueOf at perm
    refine perm_iff_count.mpr fun i => ?_
    have count := perm.count_eq i
    cases fromKv <;>
      simp [Step.roster, Scheduler.admitted, withQueue, Scheduler.roster, count_append,
        count_cons, Scheduler.setRequest] at count ⊢ <;> omega
  · have run : (st.withQueue fromKv queue).sched.running = st.sched.running := same.2.2
    refine List.Perm.trans (List.Perm.of_eq ?_) (perm_append_singleton id st.sched.running)
    exact congrArg (· ++ [id]) run
  · refine (Scheduler.setRequest_stage (st.withQueue fromKv queue).sched _ _).trans ?_
    cases fromKv <;> rfl
  · cases fromKv <;> rfl
  · intro i hi
    have hi : i ∈ discard st.sched.deferredWaiting id := by
      cases fromKv <;> exact hi
    exact mem_discard.mp hi

theorem TakeMove.sound (move : TakeMove cfg parts st st') (h : Roster.Sound lost st.roster) :
    Roster.Sound lost st'.roster := by
  cases move with
  | skip hskip =>
    have ⟨id, queue, holdsKv, hpop, hst'⟩ := skipRequest_ok _ hskip
    rw [hst']
    exact skipped_sound st h hpop
  | load id a eligible _ _ hload =>
    have ⟨popped, queue, holdsKv, hpop, hst'⟩ := startAsyncLoad_ok hload
    have loading := roster_of_still (withLoading_still h a eligible.head) rfl rfl
    rw [hst']
    exact skipped_sound (st.withLoading id a) (loading ▸ h) hpop
  | run id a chunk _ _ _ hadmit =>
    have ⟨popped, queue, hpop, admits⟩ := admit_ok hadmit
    exact admitted_sound h hpop admits

theorem requeueSkipped_sound (h : Roster.Sound lost st.roster) :
    Roster.Sound lost st.requeueSkipped.sched.roster := by
  refine h.congr rfl rfl (.refl _) ?_ fun _ hi => .inl hi
  have waiting := RequestQueue.prependRequests_perm st.sched.orderKey
    st.sched.waiting st.stepSkippedWaiting
  have kvHolding := RequestQueue.prependRequests_perm st.sched.orderKey
    st.sched.kvHoldingWaiting st.stepSkippedKvHolding
  refine (waiting.append kvHolding).trans (perm_iff_count.mpr fun i => ?_)
  simp only [roster, Scheduler.roster, count_append]
  omega

end Step

namespace Scheduler

theorem schedule_sound (h : Roster.Sound lost s.roster) {throttlePrefills : Bool}
    {out : SchedulerOutput} (hs : s.schedule cfg parts throttlePrefills = .ok (out, s')) :
    Roster.Sound lost s'.roster := by
  have ⟨st, hloops, still⟩ := Still.schedule hs
  rw [still.roster]
  have ⟨st₁, hrunning, hloops⟩ := bind_eq_ok.mp hloops
  have ⟨st₀, moves, hst₁⟩ := Step.scheduleRunningReqs_moves hrunning
  have start : Roster.Sound lost (s.startStep cfg parts).roster := h
  have ran : Roster.Sound lost st₁.roster ∧ st₁.stepSkippedKvHolding = [] ∧
      st₁.stepSkippedWaiting = [] := by
    rcases hst₁ with rfl | rfl
    · exact ⟨moves.sound start, moves.skipped.1, moves.skipped.2⟩
    · exact ⟨moves.sound start, moves.skipped.1, moves.skipped.2⟩
  split at hloops
  · have ⟨st₂, hloop, still, _⟩ := Step.scheduleWaitingReqs_ok hloops
    rw [still.roster]
    refine Step.requeueSkipped_sound ?_
    exact Step.waitingLoop_rule (fun _ _ move h => move.roster ▸ h) (fun _ _ move h => move.sound h)
      hloop ran.1
  · cases hloops
    have sound := ran.1
    unfold Step.roster at sound
    rw [ran.2.1, ran.2.2] at sound
    exact sound

end Scheduler

end VllmAmpere.Sched
