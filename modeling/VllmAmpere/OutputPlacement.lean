import VllmAmpere.OutputEffects
import VllmAmpere.QueuePlacement

/-! Where the requests are while the output of a step is taken. The loop over the outputs
moves stopped sessions into the queues at once and takes stopped requests out of their
containers only at its end. -/

open List Function

namespace VllmAmpere.Sched

/-- The containers without the requests that the outputs stopped. -/
def OutputScan.roster {ω : Type} (scan : OutputScan ω) : Roster String :=
  scan.sched.roster.without scan.stoppedRunningReqs scan.stoppedPreemptedReqs

/-- A scan in which nobody but the lost requests is missing. -/
structure ScanSound {ω : Type} (lost : List String) (scan : OutputScan ω) : Prop where
  sound : Roster.Sound lost scan.roster
  running : scan.sched.running.Nodup
  /-- A session that waits again after it was stopped outside of `running`. -/
  gone : ∀ id ∈ scan.stoppedPreemptedReqs, scan.sched.roster.Live id → id ∈ lost

theorem ScanSound.start {ω : Type} {lost : List String} {s : Scheduler ω}
    (sound : Roster.Sound lost s.roster) : ScanSound lost { sched := s : OutputScan ω } := by
  refine ⟨?_, sound.running_nodup, nofun⟩
  refine sound.congr rfl rfl ?_ ?_ fun i hi => .inl (mem_of_mem_filter hi)
  · exact .of_eq (filter_eq_self.mpr (by simp))
  · exact .of_eq (filter_eq_self.mpr (by simp))

theorem ScanSound.keep {ω : Type} {lost : List String} {scan scan' : OutputScan ω}
    (h : ScanSound lost scan) (still : Still scan.sched scan'.sched)
    (running : scan'.stoppedRunningReqs = scan.stoppedRunningReqs)
    (preempted : scan'.stoppedPreemptedReqs = scan.stoppedPreemptedReqs) :
    ScanSound lost scan' := by
  refine ⟨?_, still.running ▸ h.running, ?_⟩
  · unfold OutputScan.roster
    rw [still.roster, running, preempted]
    exact h.sound
  · rw [preempted, still.roster]
    exact h.gone

namespace Scheduler

variable {ω : Type} {cfg : SchedulerConfig} {parts : Components ω} {s s' : Scheduler ω}
  {lost : List String} {id : String}

theorem Outcome.roster {r : Request} {stopped : Bool} (h : Outcome s s' id r stopped) :
    s'.roster = { s.roster with
      stage := update s.roster.stage id r.status.stage } := by
  rw [h.still.roster]
  exact congrArg (fun stage => { s.roster with stage := stage }) (setRequest_stage s id r)

theorem noteStopped_running {status : RequestStatus} {scan : OutputScan ω} {i : String} :
    i ∈ (noteStopped id status scan).stoppedRunningReqs ↔
    (i = id ∧ status.stage = .runs) ∨ i ∈ scan.stoppedRunningReqs := by
  rw [RequestStatus.stage_eq_runs]
  unfold noteStopped
  split
  · rename_i hstatus
    simp [mem_setAdd, hstatus]
  · rename_i hstatus
    simp [hstatus]

theorem noteStopped_preempted {status : RequestStatus} {scan : OutputScan ω} {i : String} :
    i ∈ (noteStopped id status scan).stoppedPreemptedReqs ↔
    (i = id ∧ status.stage ≠ .runs) ∨ i ∈ scan.stoppedPreemptedReqs := by
  rw [ne_eq, RequestStatus.stage_eq_runs]
  unfold noteStopped
  split
  · rename_i hstatus
    simp [hstatus]
  · rename_i hstatus
    simp [mem_setAdd, hstatus]

theorem withSession_roster (id : String) (session : Request) (idle : Int) :
    (s.withSession id session idle).roster = { s.roster with
      stage := update s.roster.stage id session.status.stage } :=
  congrArg (fun stage => { s.roster with stage := stage })
    (setRequest_stage { s with numWaitingForStreamingInput := idle } id session)

theorem finish_sound {scan scan' : OutputScan ω} {r : Request} (h : ScanSound lost scan)
    (outcome : Outcome scan.sched s id r true)
    (freed : Still s scan'.sched ∨ Still (s.withRequests (s.requests.erase id)) scan'.sched)
    (running : scan'.stoppedRunningReqs =
    (noteStopped id (scan.sched.request id).status scan).stoppedRunningReqs)
    (preempted : scan'.stoppedPreemptedReqs =
    (noteStopped id (scan.sched.request id).status scan).stoppedPreemptedReqs) :
    ScanSound lost scan' := by
  have done : r.status.stage = .done := outcome.delivered.stage
  have roster := outcome.roster
  rw [done] at roster
  have finished : Roster.Sound lost (s.roster.without scan'.stoppedRunningReqs
      scan'.stoppedPreemptedReqs) := by
    rw [roster]
    refine h.sound.finish id rfl rfl rfl rfl rfl ?_ ?_
    · exact fun i => running ▸ noteStopped_running
    · exact fun i => preempted ▸ noteStopped_preempted
  have away : ∀ i ∈ scan'.stoppedPreemptedReqs, s.roster.Live i → i ∈ lost := by
    intro i hi live
    rw [roster] at live
    have hne : i ≠ id := by
      rintro rfl
      exact live.2 (update_self _ _ _)
    rw [preempted, noteStopped_preempted] at hi
    refine h.gone i (hi.resolve_left fun hid => hne hid.1) ⟨live.1, ?_⟩
    have stage := live.2
    dsimp only at stage
    rwa [update_of_ne hne] at stage
  have runs : s.running = scan.sched.running := congrArg Roster.running roster
  rcases freed with still | still
  · refine ⟨?_, still.running ▸ runs ▸ h.running, ?_⟩
    · unfold OutputScan.roster
      rwa [still.roster]
    · rwa [still.roster]
  · have erased := still.roster
    refine ⟨?_, still.running ▸ runs ▸ h.running, fun i hi live => ?_⟩
    · unfold OutputScan.roster
      rw [erased]
      refine finished.forget id ?_ rfl rfl rfl rfl rfl
      rw [roster]
      exact update_self _ _ _
    · rw [erased] at live
      exact away i hi ⟨mem_of_mem_erase live.1, live.2⟩

/-- One round of the loop over the outputs. A session is lost where it waits again
although it was not running. -/
theorem OutputMove.sound {again : Prop} {scan scan' : OutputScan ω} (h : ScanSound lost scan)
    (known : id ∈ scan.sched.requests) (unfinished : ¬(scan.sched.request id).isFinished)
    (move : OutputMove id (scan.sched.request id).status again scan scan') : ScanSound lost scan' ∨
    (again ∧ (scan.sched.request id).status ≠ .running ∧ ScanSound (id :: lost) scan') := by
  cases move with
  | keep still _ running preempted => exact .inl (h.keep still running preempted)
  | finish s r outcome freed _ running preempted =>
    exact .inl (finish_sound h outcome freed running preempted)
  | wait s r session idle outcome hagain waits hs running preempted =>
    have enqueued := enqueueWaitingRequest_roster (s := s.withSession id session idle) id
    rw [← hs, withSession_roster, outcome.roster, waits] at enqueued
    dsimp only at enqueued
    rw [update_idem] at enqueued
    obtain ⟨stage, known', run, waiting, deferred⟩ := enqueued
    have nodup : scan'.sched.running.Nodup := by
      have runs : scan'.sched.running = scan.sched.running := run
      rw [runs]
      exact h.running
    by_cases hstatus : (scan.sched.request id).status = .running
    · left
      have was : scan.sched.roster.stage id = .runs := RequestStatus.stage_eq_runs.mpr hstatus
      unfold noteStopped at running preempted
      rw [if_pos hstatus] at running preempted
      have unmarked : id ∉ scan.stoppedPreemptedReqs := by
        intro hid
        have live : scan.sched.roster.Live id := ⟨known, by rw [was]; decide⟩
        have waits : scan.sched.roster.stage id = .waits :=
          h.sound.lost id (h.gone id hid live) live
        rw [was] at waits
        cases waits
      refine ⟨?_, nodup, fun i hi live => ?_⟩
      · unfold OutputScan.roster
        rw [preempted]
        exact h.sound.turnBack known was stage known' run waiting deferred
          (fun i => running ▸ mem_setAdd) unmarked
      · rw [preempted] at hi
        have hne : i ≠ id := fun e => unmarked (e ▸ hi)
        refine h.gone i hi ⟨known' ▸ live.1, ?_⟩
        have stageOf := live.2
        rwa [stage, update_of_ne hne] at stageOf
    · right
      have was : scan.sched.roster.stage id = .waits := by
        unfold Request.isFinished at unfinished
        simp [roster, RequestStatus.stage, hstatus, unfinished]
      unfold noteStopped at running preempted
      rw [if_neg hstatus] at running preempted
      refine ⟨hagain, hstatus, ?_, nodup, fun i hi live => ?_⟩
      · unfold OutputScan.roster
        rw [running]
        exact h.sound.dropOut was stage known' run waiting deferred
          fun i => preempted ▸ mem_setAdd
      · rw [preempted, mem_setAdd] at hi
        by_cases hne : i = id
        · exact hne ▸ mem_cons_self
        · refine mem_cons_of_mem id
            (h.gone i (hi.resolve_left hne) ⟨known' ▸ live.1, ?_⟩)
          have stageOf := live.2
          rwa [stage, update_of_ne hne] at stageOf

/-- A session in a queue whose turn is ended by the output of a step. -/
def DropsOut (cfg : SchedulerConfig) (parts : Components ω) (out : SchedulerOutput)
    (output : ModelRunnerOutput) (failedKvLoadReqIds : List String) (s : Scheduler ω)
    (id : String) (numTokensScheduled : Int) : Prop :=
  id ∈ s.requests ∧ ¬(s.request id).isFinished ∧ (s.request id).status ≠ .running ∧
    EndsTurn cfg parts out output failedKvLoadReqIds (s.request id) id numTokensScheduled

theorem updateRequests_sound {out : SchedulerOutput} {output : ModelRunnerOutput}
    {failed : List String} {scheduled : List (String × Int)} {scan scan' : OutputScan ω}
    (h : ScanSound lost scan) (nodup : (scheduled.map Prod.fst).Nodup)
    (hs : updateRequests cfg parts out output failed scheduled scan = .ok scan') :
    ∃ lost', ScanSound lost' scan' ∧ ∀ i ∈ lost', i ∈ lost ∨
    ∃ n, (i, n) ∈ scheduled ∧ DropsOut cfg parts out output failed scan.sched i n := by
  induction scheduled generalizing scan lost with
  | nil =>
    cases hs
    exact ⟨lost, h, fun i hi => .inl hi⟩
  | cons p rest ih =>
    obtain ⟨id, n⟩ := p
    have ⟨scan₁, hfirst, hs⟩ := bind_eq_ok.mp hs
    rw [map_cons, nodup_cons] at nodup
    have ⟨others, requests⟩ := updateRequest_others hfirst
    have ⟨lost₁, first, blame⟩ : ∃ lost₁, ScanSound lost₁ scan₁ ∧ ∀ i ∈ lost₁, i ∈ lost ∨
        (i = id ∧ DropsOut cfg parts out output failed scan.sched id n) := by
      rcases updateRequest_ok hfirst with ⟨still, same, running, preempted⟩ |
        ⟨known, unfinished, move⟩
      · exact ⟨lost, h.keep still running preempted, fun i hi => .inl hi⟩
      · rcases move.sound h known unfinished with sound | ⟨ends, stopped, sound⟩
        · exact ⟨lost, sound, fun i hi => .inl hi⟩
        · refine ⟨id :: lost, sound, fun i hi => (mem_cons.mp hi).symm.imp_right fun heq => ?_⟩
          exact ⟨heq, known, unfinished, stopped, ends⟩
    have ⟨lost', last, blame'⟩ := ih first nodup.2 hs
    refine ⟨lost', last, fun i hi => ?_⟩
    rcases blame' i hi with hi | ⟨m, hm, known, unfinished, stopped, ends⟩
    · refine (blame i hi).imp_right fun ⟨heq, drops⟩ => ⟨n, ?_, heq ▸ drops⟩
      rw [heq]
      exact mem_cons_self
    · have hne : i ≠ id := by
        rintro rfl
        exact nodup.1 (mem_map.mpr ⟨(i, m), hm, rfl⟩)
      rw [others i hne] at unfinished stopped ends
      exact .inr ⟨m, mem_cons_of_mem _ hm, requests i known, unfinished, stopped, ends⟩

theorem removeAll_eq_filter {ids items : List String} (nodup : ids.Nodup) :
    removeAll ids items = ids.filter (· ∉ items) := by
  unfold removeAll
  split
  · rename_i id
    rw [nodup.erase_eq_filter]
    refine filter_congr fun i _ => ?_
    by_cases hi : i = id <;> simp [hi]
  · rfl

theorem removeRunning_roster (nodup : s.running.Nodup) (ids : List String) :
    (s.removeRunning ids).roster = { s.roster with running := s.running.filter (· ∉ ids) } := by
  unfold removeRunning
  split
  · rename_i hnil
    rw [hnil, filter_eq_self.mpr (by simp)]
    rfl
  · rw [removeAll_eq_filter nodup]
    rfl

theorem removeWaiting_roster (ids : List String) :
    (s.removeWaiting ids).roster.stage = s.roster.stage ∧
    (s.removeWaiting ids).roster.known = s.roster.known ∧
    (s.removeWaiting ids).roster.running = s.roster.running ∧
    (s.removeWaiting ids).roster.waiting.Perm (s.roster.waiting.filter (· ∉ ids)) ∧
    (s.removeWaiting ids).roster.deferred = s.roster.deferred.filter (· ∉ ids) := by
  unfold removeWaiting
  split
  · rename_i hnil
    rw [hnil, filter_eq_self.mpr (by simp), filter_eq_self.mpr (by simp)]
    exact ⟨rfl, rfl, rfl, .refl _, rfl⟩
  · refine ⟨rfl, rfl, rfl, ?_, rfl⟩
    unfold roster
    rw [filter_append]
    exact (RequestQueue.removeRequests_perm ids).append (RequestQueue.removeRequests_perm ids)

theorem removeStopped_sound {scan : OutputScan ω} (h : ScanSound lost scan) :
    Roster.Sound lost (removeStopped scan).roster := by
  have running := removeRunning_roster h.running scan.stoppedRunningReqs
  have ⟨stage, known, run, waiting, deferred⟩ := removeWaiting_roster
    (s := scan.sched.removeRunning scan.stoppedRunningReqs) scan.stoppedPreemptedReqs
  rw [running] at stage known run waiting deferred
  exact h.sound.congr stage known (.of_eq run) waiting
    fun i hi => .inl ((List.Perm.of_eq deferred).subset hi)

end Scheduler

end VllmAmpere.Sched
