import VllmAmpere.EnginePlacement

/-! What a step schedules is what its budgets lose: no budget is overdrawn, and the entries
of the step are those of the requests it lists, which run. -/

open List

namespace VllmAmpere.Sched

variable {ω : Type} {cfg : SchedulerConfig} {parts : Components ω} {s : Scheduler ω}
  {lost : List String}

namespace Step

/-- The tokens scheduled so far, with `slots` more for each request. -/
def charged (st : Step ω) (slots : Int) : Int :=
  (st.numScheduledTokens.map fun entry => entry.2 + slots).sum

/-- The requests that the step lists as scheduled. -/
def listed (st : Step ω) : List String :=
  st.scheduledRunningReqs ++ st.scheduledNewReqs ++ st.scheduledResumedReqs

variable (cfg) in
/-- The budgets of a step that began with `budget` tokens. -/
structure Budgeted (budget : Int) (st : Step ω) : Prop where
  once : st.OneEntry
  entries : (st.numScheduledTokens.map Prod.fst).Perm st.listed
  runs : ∀ id ∈ st.listed, id ∈ st.sched.running
  positive : st.Positive
  tokens : st.charged 0 + st.tokenBudget = budget
  inputs : st.charged cfg.draftSlots + st.inputBudget = cfg.maxNumBatchedTokens
  tokenBudget : 0 ≤ st.tokenBudget
  inputBudget : 0 ≤ st.inputBudget

variable (cfg) in
/-- In the loop over the running requests only these are listed, and the loop has passed them. -/
structure Running (budget : Int) (st : Step ω) : Prop extends Budgeted cfg budget st where
  nodup : st.sched.running.Nodup
  fresh : st.scheduledNewReqs = []
  resumed : st.scheduledResumedReqs = []
  passed : ∀ id ∈ st.scheduledRunningReqs, id ∈ st.sched.running.take st.reqIndex

variable {limits : StepLimits} {st st' : Step ω} {budget : Int} {id victim : String} {n : Int}

/-- A request that was not listed is scheduled for `n` tokens. -/
theorem Budgeted.take (h : st.Budgeted cfg budget) (new : id ∉ st.listed) (positive : 0 < n)
    (entry : st'.numScheduledTokens = dictSet id n st.numScheduledTokens)
    (listed : st'.listed.Perm (id :: st.listed)) (runs : ∀ i ∈ st'.listed, i ∈ st'.sched.running)
    (tokenBudget : st'.tokenBudget = st.tokenBudget - n)
    (inputBudget : st'.inputBudget = st.inputBudget - (n + cfg.draftSlots))
    (token : n ≤ st.tokenBudget) (input : n ≤ st.inputBudget - cfg.draftSlots) :
    st'.Budgeted cfg budget := by
  have absent : id ∉ st.numScheduledTokens.map Prod.fst := fun known =>
    new (h.entries.mem_iff.mp known)
  have unknown : (⟨st.numScheduledTokens, h.once⟩ : PyDict String Int).get? id = none :=
    Option.not_isSome_iff_eq_none.mp fun known => absent ((PyDict.mem_keys _ id).mpr known)
  have split : st'.numScheduledTokens.Perm ((id, n) :: st.numScheduledTokens) :=
    (entry.trans (PyDict.items_set_new _ n unknown)) ▸ perm_append_singleton _ _
  have charged : ∀ slots, st'.charged slots = n + slots + st.charged slots := fun slots =>
    (split.map _).sum_eq
  have tokens := h.tokens
  have inputs := h.inputs
  refine ⟨?_, ?_, runs, ?_, ?_, ?_, ?_, ?_⟩
  · exact (split.map Prod.fst).nodup_iff.mpr (nodup_cons.mpr ⟨absent, h.once⟩)
  · exact (split.map Prod.fst).trans ((h.entries.cons id).trans listed.symm)
  · intro p hp
    rcases mem_cons.mp (split.mem_iff.mp hp) with rfl | hp
    · exact positive
    · exact h.positive p hp
  · rw [charged]
    omega
  · rw [charged]
    omega
  · omega
  · omega

theorem mem_take_eraseIdx {ids : List String} {k m : Nat} {i : String} (passed : i ∈ ids.take m)
    (other : ids[k]? ≠ some i) : i ∈ (ids.eraseIdx k).take (if k < m then m - 1 else m) := by
  obtain ⟨j, inside, rfl⟩ := mem_take_iff_getElem.mp passed
  have apart : j ≠ k := by
    rintro rfl
    exact other (getElem?_eq_getElem _)
  refine mem_take_iff_getElem.mpr ⟨if j < k then j else j - 1, ?_⟩
  grind

/-- A victim that was scheduled gives back what it took. -/
theorem Budgeted.give (h : st.Budgeted cfg budget) (entry : (victim, n) ∈ st.numScheduledTokens)
    (popped : st'.numScheduledTokens = (dictPop victim st.numScheduledTokens).2)
    (listed : st.listed.Perm (victim :: st'.listed))
    (runs : ∀ i ∈ st'.listed, i ∈ st'.sched.running)
    (tokenBudget : st'.tokenBudget = st.tokenBudget + n)
    (inputBudget : st'.inputBudget = st.inputBudget + (n + cfg.draftSlots)) :
    st'.Budgeted cfg budget := by
  have found := (mem_iff_lookup h.once victim n).mp entry
  have split : st.numScheduledTokens.Perm ((victim, n) :: st'.numScheduledTokens) :=
    popped ▸ PyDict.items_perm_pop (d := ⟨st.numScheduledTokens, h.once⟩) found
  have charged : ∀ slots, st.charged slots = n + slots + st'.charged slots := fun slots =>
    (split.map _).sum_eq
  have positive := h.positive _ entry
  have ⟨_, _, _, _, tokens, inputs, _, _⟩ := h
  rw [charged] at tokens inputs
  refine ⟨?_, ?_, runs, fun p hp => h.positive p ?_, ?_, ?_, ?_, ?_⟩
  · exact (nodup_cons.mp ((split.map Prod.fst).nodup_iff.mp h.once)).2
  · exact ((split.map Prod.fst).symm.trans (h.entries.trans listed)).cons_inv
  · exact split.mem_iff.mpr (mem_cons_of_mem _ hp)
  all_goals omega

theorem Running.listed (h : st.Running cfg budget) : st.listed = st.scheduledRunningReqs := by
  rw [Step.listed, h.fresh, h.resumed, append_nil, append_nil]

theorem Running.nodup_scheduled (h : st.Running cfg budget) : st.scheduledRunningReqs.Nodup :=
  h.listed ▸ h.entries.nodup_iff.mp h.once

theorem Running.preempt (h : st.Running cfg budget) (inside : st.reqIndex < st.sched.running.length)
    {s : Scheduler ω} (hs : Preempts cfg parts st victim s) :
    (st.withPreempted cfg victim s).Running cfg budget ∧
    st.tokenBudget ≤ (st.withPreempted cfg victim s).tokenBudget ∧
    st.inputBudget ≤ (st.withPreempted cfg victim s).inputBudget := by
  have run := hs.running
  have chosen := hs.chosen
  have nodup : s.running.Nodup :=
    run ▸ (nodup_cons.mp ((runningWithout_perm chosen).nodup_iff.mpr h.nodup)).2
  unfold runningWithout at run
  unfold preemptionVictim at chosen
  unfold withPreempted removeVictim
  cases policy : cfg.policy with
  | fcfs =>
    rw [policy] at run
    dsimp only at run ⊢
    have passed : ∀ i ∈ st.scheduledRunningReqs, i ∈ s.running.take st.reqIndex := by
      intro i hi
      rw [run, dropLast_eq_take, take_take, Nat.min_eq_left (by omega)]
      exact h.passed i hi
    exact ⟨{ h with
      runs := fun i hi => mem_of_mem_take (passed i (h.listed ▸ hi))
      nodup := nodup
      passed := passed }, le_refl _, le_refl _⟩
  | priority =>
    rw [policy] at run chosen
    dsimp only at run chosen ⊢
    have known : st.sched.running[st.sched.running.idxOf victim]? = some victim :=
      getElem?_idxOf (lowestPriority_mem chosen)
    have passed : ∀ i ∈ st.scheduledRunningReqs, i ≠ victim → i ∈ s.running.take
        (if st.sched.running.idxOf victim < st.reqIndex then st.reqIndex - 1 else st.reqIndex) := by
      intro i hi other
      rw [run]
      refine mem_take_eraseIdx (h.passed i hi) fun same => other ?_
      exact Option.some.inj (same.symm.trans known)
    unfold unschedule
    dsimp only
    split
    · rename_i scheduled
      have ⟨n, entry⟩ : ∃ n, (victim, n) ∈ st.numScheduledTokens := by
        have entered : victim ∈ st.numScheduledTokens.map Prod.fst :=
          h.entries.mem_iff.mpr (mem_append_left _ (mem_append_left _ scheduled))
        simpa using entered
      have restored : (st.numScheduledTokens.lookup victim).getD 0 = n :=
        congrArg (Option.getD · 0) ((mem_iff_lookup h.once victim n).mp entry)
      have kept := fun i (hi : i ∈ st.scheduledRunningReqs.erase victim) =>
        passed i (mem_of_mem_erase hi) (h.nodup_scheduled.mem_erase_iff.mp hi).1
      have positive : 0 < n := h.positive _ entry
      simp only [restored]
      refine ⟨⟨h.toBudgeted.give entry rfl ?_ ?_ rfl rfl, nodup, h.fresh, h.resumed, kept⟩, ?_, ?_⟩
      · simpa [Step.listed, h.fresh, h.resumed] using perm_cons_erase scheduled
      · simpa [Step.listed, h.fresh, h.resumed] using fun i hi => mem_of_mem_take (kept i hi)
      · omega
      · omega
    · rename_i skipped
      have kept := fun i (hi : i ∈ st.scheduledRunningReqs) =>
        passed i hi fun same => skipped (same ▸ hi)
      exact ⟨{ h with
        runs := fun i hi => mem_of_mem_take (kept i (h.listed ▸ hi))
        nodup := nodup
        passed := kept }, le_refl _, le_refl _⟩

theorem Running.quiet (h : st.Running cfg budget) (same : s.core = st.sched.core) :
    ({ st with sched := s } : Step ω).Running cfg budget := by
  have running := Scheduler.core_running same
  exact { h with
    runs := fun i hi => running ▸ h.runs i hi
    nodup := running ▸ h.nodup
    passed := fun i hi => running ▸ h.passed i hi }

theorem Running.pass (h : st.Running cfg budget) :
    ({ st with reqIndex := st.reqIndex + 1 } : Step ω).Running cfg budget :=
  { h with passed := fun i hi => take_subset_take_left _ (Nat.le_succ _) (h.passed i hi) }

theorem Running.makeRoom (moves : PreemptMoves cfg parts id st st') (h : st.Running cfg budget)
    (here : st.sched.running[st.reqIndex]? = some id) : st'.Running cfg budget ∧
    st.tokenBudget ≤ st'.tokenBudget ∧ st.inputBudget ≤ st'.inputBudget := by
  induction moves with
  | refl => exact ⟨h, le_refl _, le_refl _⟩
  | tail before move ih =>
    obtain ⟨still, token, input⟩ := ih
    cases move with
    | quiet s same => exact ⟨still.quiet same, token, input⟩
    | preempt victim s _ hs =>
      have ⟨inside, _⟩ := List.getElem?_eq_some_iff.mp (PreemptMoves.here before here)
      have ⟨left, token', input'⟩ := still.preempt inside hs
      exact ⟨left, token.trans token', input.trans input'⟩

theorem Running.scheduleRunning (h : st.Running cfg budget)
    (here : st.sched.running[st.reqIndex]? = some id) (newBlocks : KVCacheBlocks)
    (plan : EncoderPlan) (positive : 0 < plan.numNewTokens)
    (token : plan.numNewTokens ≤ st.tokenBudget)
    (input : plan.numNewTokens ≤ st.inputBudget - cfg.draftSlots) :
    (st.scheduleRunning cfg parts id newBlocks plan).Running cfg budget := by
  have entry := @scheduleRunning_numScheduledTokens ω cfg parts st id newBlocks plan
  have running := (scheduleRunning_still cfg parts st id newBlocks plan).running
  generalize after : st.scheduleRunning cfg parts id newBlocks plan = st₁ at entry running ⊢
  obtain ⟨scheduled, fresh, resumed, tokens, inputs, index⟩ :
      st₁.scheduledRunningReqs = st.scheduledRunningReqs ++ [id] ∧
      st₁.scheduledNewReqs = st.scheduledNewReqs ∧
      st₁.scheduledResumedReqs = st.scheduledResumedReqs ∧
      st₁.tokenBudget = st.tokenBudget - plan.numNewTokens ∧
      st₁.inputBudget = st.inputBudget - (plan.numNewTokens + cfg.draftSlots) ∧
      st₁.reqIndex = st.reqIndex + 1 := by
    rw [← after]
    unfold Step.scheduleRunning
    dsimp only
    split <;> exact ⟨rfl, rfl, rfl, rfl, rfl, rfl⟩
  rw [h.fresh] at fresh
  rw [h.resumed] at resumed
  have ⟨inside, at_⟩ := List.getElem?_eq_some_iff.mp here
  have listed' : st₁.listed = st.scheduledRunningReqs ++ [id] := by
    rw [Step.listed, fresh, resumed, append_nil, append_nil, scheduled]
  have new : id ∉ st.scheduledRunningReqs := by
    intro known
    obtain ⟨j, less, same⟩ := mem_take_iff_getElem.mp (h.passed id known)
    have index := h.nodup.getElem_inj_iff.mp (same.trans at_.symm)
    omega
  refine ⟨h.take (h.listed ▸ new) positive entry ?_ ?_ tokens inputs token input,
    running ▸ h.nodup, fresh, resumed, ?_⟩
  · rw [listed', h.listed]
    exact perm_append_singleton id _
  · intro i hi
    rw [listed'] at hi
    rw [running]
    rcases mem_append.mp hi with hi | hi
    · exact h.runs i (h.listed ▸ hi)
    · exact mem_singleton.mp hi ▸ mem_of_getElem? here
  · intro i hi
    rw [scheduled] at hi
    rw [running, index]
    rcases mem_append.mp hi with hi | hi
    · exact take_subset_take_left _ (Nat.le_succ _) (h.passed i hi)
    · rw [mem_singleton.mp hi]
      exact mem_take_iff_getElem.mpr ⟨st.reqIndex, by omega, at_⟩

/-- The loop around `allocate_slots` that ends without blocks has preempted at most the
request itself. -/
theorem Running.allocate (h : st.Running cfg budget)
    (here : st.sched.running[st.reqIndex]? = some id) {fuel : Nat}
    {state : Option KVCacheBlocks × Step ω}
    (loop : iterate (allocateRound cfg parts id n) fuel (none, st) = .ok (some state)) :
    (state.1.isSome → PreemptMoves cfg parts id st state.2) ∧ state.2.Budgeted cfg budget := by
  have start : PreemptMoves cfg parts id st st := .refl
  refine iterate_rule (P := fun state => PreemptMoves cfg parts id st state.2)
    (Q := fun state => (state.1.isSome → PreemptMoves cfg parts id st state.2) ∧
      state.2.Budgeted cfg budget) ?_ ?_ start loop
  · intro state state' moves round
    exact allocateRound_moves moves round
  · rintro ⟨found, st₁⟩ ⟨found', st₂⟩ moves round
    refine ⟨(allocateRound_moves moves round).1, ?_⟩
    have ⟨still, _⟩ := h.makeRoom moves here
    have ⟨inside, _⟩ := List.getElem?_eq_some_iff.mp (moves.here here)
    have same (world : ω) :=
      @Scheduler.core_pendingBlockFrees ω cfg parts { st₁.sched with world := world }
    have tried : ∀ world : ω, ({ st₁ with sched :=
        { st₁.sched with world := world } } : Step ω).Running cfg budget := fun _ => still.quiet rfl
    have asked : ∀ world : ω, ({ st₁ with sched :=
        ({ st₁.sched with world := world }.pendingBlockFrees cfg parts).2 } : Step ω).Running cfg
          budget := fun world => (tried world).quiet (same world)
    unfold allocateRound at round
    dsimp only at round
    split at round
    · cases round
      exact (tried _).toBudgeted
    · split at round
      · cases round
        exact (asked _).toBudgeted
      · split at round
        · cases round
        · rename_i victim chosen
          split at round
          · cases round
            exact (asked _).toBudgeted
          · rename_i free
            have ⟨s, done, round⟩ := bind_eq_ok.mp round
            have room := (asked _).preempt (Scheduler.core_running (same _) ▸ inside)
              ⟨chosen, not_not.mp free, done⟩
            split at round
            · cases round
              exact room.1.toBudgeted
            · cases round

variable (valid : 0 < cfg.cacheBlockSize)
include valid

theorem Running.round (h : st.Running cfg budget) {round : Round (Step ω)}
    (ok : st.runningRound cfg parts limits = .ok round) :
    match round with
    | .next st' => st'.Running cfg budget
    | .leave st' => st'.Budgeted cfg budget := by
  unfold runningRound at ok
  split at ok
  · cases ok
    exact h.toBudgeted
  rename_i id here
  split at ok
  · cases ok
    exact h.toBudgeted
  have skipped : (st.skipsRunning cfg parts limits id).2.core = st.sched.core :=
    core_skipsRunning id
  generalize st.skipsRunning cfg parts limits id = asked at ok skipped
  obtain ⟨skips, s⟩ := asked
  dsimp only at ok skipped
  have asked := h.quiet skipped
  split at ok
  · cases ok
    exact asked.pass
  have ⟨⟨plan, s₂⟩, hplan, ok⟩ := bind_eq_ok.mp ok
  have planned := Scheduler.core_encoderPlan hplan
  have still := asked.quiet planned
  dsimp only at ok
  split at ok
  · cases ok
    exact still.pass
  rename_i some
  have ⟨allocated, loop, ok⟩ := bind_eq_ok.mp ok
  have here₂ : s₂.running[st.reqIndex]? = .some id := by
    rw [← here, Scheduler.core_running (planned.trans skipped)]
  split at ok
  · cases ok
  · cases ok
    exact (still.allocate here₂ loop).2
  · cases ok
    have ⟨moves, _⟩ := still.allocate here₂ loop
    have ⟨room, token, input⟩ := still.makeRoom (moves rfl) here₂
    have reserved := cfg.reservePrefillLookahead_le (s.request id) (s.request id).numComputedTokens
      plan.numNewTokens
    have positive := lt_of_le_of_ne (cfg.reservePrefillLookahead_nonneg (s.request id)
      (s.request id).numComputedTokens plan.numNewTokens) (Ne.symm some)
    have caps := runningCaps limits { st with sched := s } positive
      (reserved.trans (max_le (Scheduler.encoderPlan_le hplan) (le_max_right _ _))) valid
    exact room.scheduleRunning ((moves rfl).here here₂) _ _ positive (caps.token.trans token)
      (caps.input.trans (Int.sub_le_sub_right input _))

omit valid in
theorem PrepareMove.budgeted (move : PrepareMove cfg parts st st') (h : st.Budgeted cfg budget) :
    st'.Budgeted cfg budget := by
  cases move with
  | quiet s same => exact { h with runs := fun i hi => Scheduler.core_running same ▸ h.runs i hi }
  | unblock id ready s _ done =>
    have still := Scheduler.handleBlockedWaitingRequest_still done
    exact { h with runs := fun i hi => still.running ▸ h.runs i hi }

theorem TakeMove.budgeted (move : TakeMove cfg parts st st') (sound : Roster.Sound lost st.roster)
    (h : st.Budgeted cfg budget) : st'.Budgeted cfg budget := by
  cases move with
  | skip skip =>
    obtain ⟨popped, queue, holdsKv, -, rfl⟩ := skipRequest_ok _ skip
    cases st.fromKvHolding <;> exact { h with }
  | load id a _ _ _ load =>
    obtain ⟨popped, queue, holdsKv, -, rfl⟩ := startAsyncLoad_ok load
    cases st.fromKvHolding <;> exact { h with }
  | run id a chunk _ _ caps admitted =>
    generalize st.fromKvHolding = fromKv at admitted
    obtain ⟨popped, queue, pop, admits⟩ := admit_ok admitted
    obtain ⟨s, popped_, running⟩ : ∃ s : Scheduler ω, st.withQueue fromKv queue =
        { st with sched := s } ∧ s.running = st.sched.running := by
      cases fromKv <;> exact ⟨_, rfl, rfl⟩
    rw [popped_] at admits
    have queued : popped ∈ st.roster.waiting := by
      have first := (RequestQueue.popRequest_ok pop).2.2.subset mem_cons_self
      unfold queueOf at first
      cases fromKv <;> simp at first <;> simp [Step.roster, Scheduler.roster, first]
    have new : popped ∉ st.listed := by
      intro known
      have runs := sound.runs popped (h.runs popped known)
      rw [sound.waits popped queued] at runs
      cases runs
    have listed' : st'.listed.Perm (popped :: st.listed) := by
      unfold listed
      rw [admits.running]
      rcases admits.fresh with ⟨fresh, resumed⟩ | ⟨fresh, resumed⟩ <;> rw [fresh, resumed] <;>
        refine perm_iff_count.mpr fun i => ?_ <;>
        simp only [count_append, count_cons, count_nil] <;> omega
    obtain ⟨_, same⟩ := admits.sched
    refine h.take new caps.positive admits.tokens listed' (fun i hi => ?_) admits.tokenBudget
      admits.inputBudget (caps.token valid) (caps.input valid)
    rw [Scheduler.core_running same]
    change i ∈ s.running ++ [popped]
    rw [running]
    rcases mem_cons.mp (listed'.mem_iff.mp hi) with rfl | hi
    · exact mem_append_right _ mem_cons_self
    · exact mem_append_left _ (h.runs i hi)

end Step

namespace Scheduler

theorem startStep_running (sound : Roster.Sound lost s.roster) :
    (s.startStep cfg parts).Running cfg (s.startStep cfg parts).tokenBudget := by
  refine ⟨⟨nodup_nil, .refl _, nofun, nofun, ?_, ?_, ?_, Int.natCast_nonneg _⟩,
    sound.running_nodup, rfl, rfl, nofun⟩
  · exact Int.zero_add _
  · exact Int.zero_add _
  · unfold startStep
    dsimp only
    split <;> omega

theorem scheduleReqs_budgeted (valid : 0 < cfg.cacheBlockSize) (sound : Roster.Sound lost s.roster)
    {throttlePrefills : Bool} {st : Step ω}
    (h : s.scheduleReqs cfg parts throttlePrefills = .ok st) :
    st.Budgeted cfg (s.startStep cfg parts).tokenBudget := by
  have ⟨st₁, done, h⟩ := bind_eq_ok.mp h
  have ⟨st₀, moves, hst₁⟩ := Step.scheduleRunningReqs_moves done
  have placed : Roster.Sound lost st₁.roster := by
    have start : Roster.Sound lost (s.startStep cfg parts).roster := sound
    rcases hst₁ with rfl | rfl <;> exact moves.sound start
  have ran : st₁.Budgeted cfg (s.startStep cfg parts).tokenBudget := by
    have ⟨ended, loop, done⟩ := bind_eq_ok.mp done
    cases ended with
    | none => cases done
    | some st₂ =>
      have left : st₂.Budgeted cfg (s.startStep cfg parts).tokenBudget := iterate_rule
        (P := Step.Running cfg (s.startStep cfg parts).tokenBudget)
        (fun _ _ before round => before.round valid round)
        (fun _ _ before round => before.round valid round) (startStep_running sound) loop
      dsimp only at done
      split at done
      · cases done
        exact left
      · have ⟨_, _, done⟩ := bind_eq_ok.mp done
        cases done
        exact { left with }
  split at h
  · have ⟨st₂, loop, still, s₁, hst⟩ := Step.scheduleWaitingReqs_ok h
    have waited := Step.waitingLoop_rule (P := fun st => Roster.Sound lost st.roster ∧
      st.Budgeted cfg (s.startStep cfg parts).tokenBudget)
      (fun _ _ move h => ⟨move.roster ▸ h.1, move.budgeted h.2⟩)
      (fun _ _ move h => ⟨move.sound h.1, move.budgeted valid h.1 h.2⟩) loop ⟨placed, ran⟩
    subst hst
    exact { waited.2 with runs := fun i hi => still.running ▸ waited.2.runs i hi }
  · cases h
    exact ran

theorem checkStep_budgeted {budget : Int} (le : budget ≤ cfg.maxNumScheduledTokens) {st : Step ω}
    (h : st.Budgeted cfg budget) : checkStep cfg st = pyAssert
      (st.sched.running.length ≤ cfg.maxNumRunningReqs)
      "len(self.running) <= self.max_num_running_reqs" := by
  have total : (st.numScheduledTokens.map Prod.snd).sum = st.charged 0 := by
    simp [Step.charged]
  have tokens := h.tokens
  have tokenBudget := h.tokenBudget
  have fewer : st.listed.length ≤ st.sched.running.length :=
    (h.entries.nodup_iff.mp h.once).length_le_of_subset h.runs
  have listed : st.listed.length = st.scheduledNewReqs.length + st.scheduledResumedReqs.length +
      st.scheduledRunningReqs.length := by
    simp only [Step.listed, length_append]
    omega
  unfold checkStep pyAssert
  rw [if_pos (by omega), if_pos h.tokenBudget, if_pos h.inputBudget]
  split
  · rw [if_pos (by omega)]
    rfl
  · rfl

end Scheduler

namespace Engine

/-- In every run of the engine a step whose loops end overdraws no budget: its tokens, and
with the draft slots its inputs, are what the budgets have lost. Each request that it lists
has one entry of at least one token and runs, and no assertion on the budgets fails. -/
theorem reachable_budgeted (valid : 0 < cfg.cacheBlockSize) {e : Engine ω}
    (reached : (system cfg parts fun _ _ => True).Reachable e) {throttlePrefills : Bool}
    {st : Step ω} (h : e.sched.scheduleReqs cfg parts throttlePrefills = .ok st) :
    st.Budgeted cfg (if e.sched.pauseState = .pausedAll then 0 else cfg.maxNumScheduledTokens) ∧
    Scheduler.checkStep cfg st = pyAssert (st.sched.running.length ≤ cfg.maxNumRunningReqs)
      "len(self.running) <= self.max_num_running_reqs" := by
  have ⟨lost, placed⟩ : ∃ lost, Placed lost e := by
    refine reached.invariant (P := fun e => ∃ lost, Placed lost e) ?_ ?_
    · rintro e ⟨world, rfl⟩
      exact ⟨[], init_placed world⟩
    · rintro e (_ | call) e' _ ⟨lost, placed⟩ step
      · obtain ⟨world, rfl⟩ := step
        exact ⟨lost, placed.sound, placed.inFlight⟩
      · exact (call_placed placed step.1 step.2.2).imp fun _ kept => kept.1
  have budgeted := Scheduler.scheduleReqs_budgeted valid placed.sound h
  refine ⟨budgeted, Scheduler.checkStep_budgeted ?_ budgeted⟩
  unfold Scheduler.startStep
  dsimp only
  split <;> omega

theorem calmRun_budgeted : ∃ (e : Engine (List Bool)) (st : Step (List Bool)),
    e.sched.scheduleReqs asyncConfig .scripted false = .ok st ∧
    st.numScheduledTokens = [("b", 1)] ∧
    st.Budgeted asyncConfig (if e.sched.pauseState = .pausedAll then 0 else 32) := by
  have ends : (runCalls asyncConfig .scripted calmCalls ⟨.init asyncConfig [], []⟩).bind
      (fun e => (e.sched.scheduleReqs asyncConfig .scripted false).bind
        fun st => .ok st.numScheduledTokens) = .ok [("b", 1)] := by decide +kernel
  obtain ⟨e, run, ends⟩ := bind_eq_ok.mp ends
  obtain ⟨st, step, ends⟩ := bind_eq_ok.mp ends
  refine ⟨e, st, step, Except.ok.inj ends, (reachable_budgeted (by decide)
    (reachable_runCalls (fun call hmem e => ⟨?_, trivial⟩) (.init ⟨_, rfl⟩) run) step).1⟩
  simp only [calmCalls, mem_cons, not_mem_nil, or_false] at hmem
  rcases hmem with rfl | rfl
  · exact fun _ => .inl rfl
  · trivial

end Engine

end VllmAmpere.Sched
