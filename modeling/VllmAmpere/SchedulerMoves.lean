import VllmAmpere.SchedulerChunks
import VllmAmpere.SchedulerFrames

/-! The moves of the loop over the running requests. Each of its rounds is a sequence
of a few moves, so that an invariant of a step needs one case for each move. -/

open List

namespace VllmAmpere.Sched.Step

variable {ω : Type} (cfg : SchedulerConfig) (parts : Components ω) (limits : StepLimits)

/-- The caps on the tokens of the running request `id`. -/
structure RunningCaps (st : Step ω) (id : String) (n : Int) : Prop where
  token : n ≤ st.tokenBudget
  input : n ≤ st.inputBudget - cfg.draftSlots
  wanted : n ≤ (st.sched.request id).numTokensWithSpec +
    (st.sched.request id).numOutputPlaceholders - (st.sched.request id).numComputedTokens
  model : n ≤ cfg.maxModelLen - (st.sched.request id).numComputedTokens -
    cfg.numSampledTokensPerStep

/-- The running request at the index of the loop takes `n` tokens. -/
structure RunningFits (st : Step ω) (id : String) (n : Int) : Prop where
  here : st.sched.running[st.reqIndex]? = some id
  positive : 0 < n
  caps : 0 < cfg.cacheBlockSize → RunningCaps cfg st id n

/-- A step whose victim is preempted, with the scheduler `s` that this leaves. -/
def withPreempted (st : Step ω) (victim : String) (s : Scheduler ω) : Step ω :=
  { st.removeVictim cfg victim with
    sched := s
    preemptedReqs := (st.removeVictim cfg victim).preemptedReqs ++ [victim] }

/-- The victim `victim` is preempted, which leaves the scheduler `s`. -/
structure Preempts (st : Step ω) (victim : String) (s : Scheduler ω) : Prop where
  chosen : st.preemptionVictim cfg = some victim
  free : st.sched.requestBlocksCanBeFreed cfg (st.sched.request victim)
  done : (st.removeVictim cfg victim).sched.preemptRequest cfg parts victim
    cfg.requiresKvDelivery = .ok s

/-- What makes room for the request `id`. -/
inductive PreemptMove (id : String) : Step ω → Step ω → Prop
  | quiet {st : Step ω} (s : Scheduler ω) : s.core = st.sched.core →
      PreemptMove id st { st with sched := s }
  | preempt {st : Step ω} (victim : String) (s : Scheduler ω) : victim ≠ id →
      Preempts cfg parts st victim s → PreemptMove id st (st.withPreempted cfg victim s)

def PreemptMoves (id : String) : Step ω → Step ω → Prop :=
  Relation.ReflTransGen (PreemptMove cfg parts id)

/-- The moves of the loop over the running requests. -/
inductive RunningMove : Step ω → Step ω → Prop
  | quiet {st : Step ω} (s : Scheduler ω) : s.core = st.sched.core →
      RunningMove st { st with sched := s }
  | pass {st : Step ω} : RunningMove st { st with reqIndex := st.reqIndex + 1 }
  | preempt {st : Step ω} (victim : String) (s : Scheduler ω) : Preempts cfg parts st victim s →
      RunningMove st (st.withPreempted cfg victim s)
  | run {st st' : Step ω} (id : String) (newBlocks : KVCacheBlocks) (plan : EncoderPlan) :
      RunningFits cfg st id plan.numNewTokens → PreemptMoves cfg parts id st st' →
      RunningMove st (st'.scheduleRunning cfg parts id newBlocks plan)

def RunningMoves : Step ω → Step ω → Prop := Relation.ReflTransGen (RunningMove cfg parts)

def Positive (st : Step ω) : Prop := ∀ p ∈ st.numScheduledTokens, 0 < p.2

variable {cfg parts limits} {st st' : Step ω}

theorem scheduleRunning_numScheduledTokens (id : String) (newBlocks : KVCacheBlocks)
    (plan : EncoderPlan) : (st.scheduleRunning cfg parts id newBlocks plan).numScheduledTokens =
    dictSet id plan.numNewTokens st.numScheduledTokens := by
  unfold scheduleRunning
  dsimp only
  split <;> rfl

theorem scheduleRunning_sched (id : String) (newBlocks : KVCacheBlocks) (plan : EncoderPlan) :
    (st.scheduleRunning cfg parts id newBlocks plan).sched.core =
    (st.sched.setRequest id { st.sched.request id with specTokenIds := [] }).core := by
  unfold scheduleRunning
  dsimp only
  split <;> rfl

variable (cfg parts st) in
theorem scheduleRunning_same (id : String) (newBlocks : KVCacheBlocks) (plan : EncoderPlan) :
    (st.scheduleRunning cfg parts id newBlocks plan).preemptedReqs = st.preemptedReqs ∧
    (st.scheduleRunning cfg parts id newBlocks plan).stepSkippedKvHolding =
    st.stepSkippedKvHolding ∧ (st.scheduleRunning cfg parts id newBlocks plan).stepSkippedWaiting =
    st.stepSkippedWaiting := by
  unfold scheduleRunning
  dsimp only
  split <;> exact ⟨rfl, rfl, rfl⟩

variable (cfg st) in
theorem removeVictim_same (victim : String) :
    (st.removeVictim cfg victim).preemptedReqs = st.preemptedReqs ∧
    (st.removeVictim cfg victim).stepSkippedKvHolding = st.stepSkippedKvHolding ∧
    (st.removeVictim cfg victim).stepSkippedWaiting = st.stepSkippedWaiting := by
  unfold removeVictim
  split
  · unfold unschedule
    dsimp only
    split <;> exact ⟨rfl, rfl, rfl⟩
  · exact ⟨rfl, rfl, rfl⟩

def runningWithout (cfg : SchedulerConfig) (running : List String) (victim : String) :
    List String :=
  match cfg.policy with
  | .priority => running.eraseIdx (running.idxOf victim)
  | .fcfs => running.dropLast

theorem removeVictim_sched (victim : String) : (st.removeVictim cfg victim).sched =
    { st.sched with running := runningWithout cfg st.sched.running victim } := by
  unfold removeVictim runningWithout
  cases cfg.policy with
  | priority =>
    dsimp only
    unfold unschedule
    dsimp only
    split <;> rfl
  | fcfs => rfl

variable {victim : String}

theorem Preempts.core {s : Scheduler ω} (h : Preempts cfg parts st victim s) :
    (st.sched.request victim).status = .running ∧ s.core =
      (Scheduler.preempted { st.sched with
        running := runningWithout cfg st.sched.running victim } victim
          cfg.requiresKvDelivery).core := by
  have hs := h.done
  rw [removeVictim_sched] at hs
  exact Scheduler.preemptRequest_ok hs

theorem Preempts.running {s : Scheduler ω} (h : Preempts cfg parts st victim s) :
    s.running = runningWithout cfg st.sched.running victim :=
  Scheduler.core_running h.core.2

variable {id : String}

theorem lowestPriority_mem {request : String → Request} {ids : List String}
    (h : lowestPriority request ids = some id) : id ∈ ids := by
  cases ids with
  | nil => cases h
  | cons first rest =>
    have fold : ∀ (rest : List String) (best : String), rest.foldl (fun best id =>
        let key := fun i => toLex ((request i).priority, (request i).arrivalTime)
        if key best < key id then id else best) best ∈ best :: rest := by
      intro rest
      induction rest with
      | nil => exact fun best => mem_cons_self
      | cons next rest ih =>
        intro best
        rw [foldl_cons]
        rcases mem_cons.mp (ih _) with h | h
        · rw [h]
          dsimp only
          split
          · exact mem_cons_of_mem _ mem_cons_self
          · exact mem_cons_self
        · exact mem_cons_of_mem _ (mem_cons_of_mem _ h)
    cases h
    exact fold rest first

theorem runningWithout_perm (h : st.preemptionVictim cfg = some victim) :
    (victim :: runningWithout cfg st.sched.running victim).Perm st.sched.running := by
  unfold runningWithout
  unfold preemptionVictim at h
  cases hp : cfg.policy with
  | priority =>
    rw [hp] at h
    dsimp only
    rw [eraseIdx_idxOf_eq_erase]
    exact (perm_cons_erase (lowestPriority_mem h)).symm
  | fcfs =>
    rw [hp] at h
    have hne : st.sched.running ≠ [] := by
      intro heq
      rw [heq] at h
      cases h
    have split := dropLast_append_getLast hne
    rw [getLast?_eq_getLast_of_ne_nil hne] at h
    cases h
    refine (perm_append_singleton _ _).symm.trans (List.Perm.of_eq ?_)
    exact split

theorem removeVictim_here {id victim : String} (h : st.sched.running[st.reqIndex]? = some id)
    (hv : st.preemptionVictim cfg = some victim) (hne : victim ≠ id) :
    (runningWithout cfg st.sched.running victim)[(st.removeVictim cfg victim).reqIndex]? =
    some id := by
  have ⟨hlt, hid⟩ := List.getElem?_eq_some_iff.mp h
  unfold removeVictim runningWithout
  unfold preemptionVictim at hv
  cases hp : cfg.policy with
  | priority =>
    rw [hp] at hv
    have valid : st.sched.running.idxOf victim < st.sched.running.length :=
      idxOf_lt_length_of_mem (lowestPriority_mem hv)
    have other : st.sched.running.idxOf victim ≠ st.reqIndex := by
      intro heq
      have same := getElem_idxOf valid
      simp only [heq, hid] at same
      exact hne same.symm
    have index : (st.unschedule cfg victim).reqIndex =
        if st.sched.running.idxOf victim < st.reqIndex then st.reqIndex - 1 else st.reqIndex := by
      unfold unschedule
      dsimp only
      split <;> rfl
    dsimp only
    rw [index, getElem?_eraseIdx]
    split
    · rw [if_neg (by omega), Nat.sub_add_cancel (by omega)]
      exact h
    · rw [if_pos (by omega)]
      exact h
  | fcfs =>
    rw [hp] at hv
    have last : st.reqIndex ≠ st.sched.running.length - 1 := by
      intro heq
      rw [getLast?_eq_getElem?, ← heq, h] at hv
      cases hv
      exact hne rfl
    dsimp only
    rw [getElem?_dropLast, if_pos (by omega)]
    exact h

variable {n : Int}

theorem RunningCaps.congr (h : RunningCaps cfg st id n)
    (token : st.tokenBudget ≤ st'.tokenBudget) (input : st.inputBudget ≤ st'.inputBudget)
    (same : (st'.sched.request id).core = (st.sched.request id).core) :
    RunningCaps cfg st' id n := by
  have spec : (st'.sched.request id).numTokensWithSpec =
      (st.sched.request id).numTokensWithSpec := by
    have e := congrArg Request.numTokensWithSpec same
    exact e
  have placeholders : (st'.sched.request id).numOutputPlaceholders =
      (st.sched.request id).numOutputPlaceholders := by
    have e := congrArg Request.numOutputPlaceholders same
    exact e
  have computed : (st'.sched.request id).numComputedTokens =
      (st.sched.request id).numComputedTokens := by
    have e := congrArg Request.numComputedTokens same
    exact e
  constructor
  · exact h.token.trans token
  · have := h.input
    omega
  · rw [spec, placeholders, computed]
    exact h.wanted
  · rw [computed]
    exact h.model

theorem PreemptMove.here (move : PreemptMove cfg parts id st st')
    (h : st.sched.running[st.reqIndex]? = some id) :
    st'.sched.running[st'.reqIndex]? = some id := by
  cases move with
  | quiet s hs => exact Scheduler.core_running hs ▸ h
  | preempt victim s hne hs =>
    have here := removeVictim_here h hs.chosen hne
    rw [← hs.running] at here
    exact here

theorem PreemptMoves.here (moves : PreemptMoves cfg parts id st st')
    (h : st.sched.running[st.reqIndex]? = some id) :
    st'.sched.running[st'.reqIndex]? = some id := by
  induction moves with
  | refl => exact h
  | tail _ move ih => exact move.here ih

theorem PreemptMove.runningMove (move : PreemptMove cfg parts id st st') :
    RunningMove cfg parts st st' := by
  cases move with
  | quiet s hs => exact .quiet s hs
  | preempt victim s _ hs => exact .preempt victim s hs

theorem PreemptMoves.runningMoves (moves : PreemptMoves cfg parts id st st') :
    RunningMoves cfg parts st st' := by
  induction moves with
  | refl => exact .refl
  | tail _ move ih => exact ih.tail move.runningMove

theorem RunningMoves.invariant {P : Step ω → Prop}
    (quiet : ∀ (st : Step ω) (s : Scheduler ω), s.core = st.sched.core → P st →
      P { st with sched := s })
    (pass : ∀ st : Step ω, P st → P { st with reqIndex := st.reqIndex + 1 })
    (preempt : ∀ (st : Step ω) (victim : String) (s : Scheduler ω),
      Preempts cfg parts st victim s → P st → P (st.withPreempted cfg victim s))
    (run : ∀ (st : Step ω) (id : String) (newBlocks : KVCacheBlocks) (plan : EncoderPlan),
      st.sched.running[st.reqIndex]? = some id → P st →
        P (st.scheduleRunning cfg parts id newBlocks plan))
    (moves : RunningMoves cfg parts st st') (h : P st) : P st' := by
  induction moves with
  | refl => exact h
  | tail _ move ih =>
    cases move with
    | quiet s hs => exact quiet _ s hs ih
    | pass => exact pass _ ih
    | preempt victim s hs => exact preempt _ victim s hs ih
    | run id newBlocks plan fits preempts =>
      refine run _ id newBlocks plan (preempts.here fits.here) ?_
      clear fits
      induction preempts with
      | refl => exact ih
      | tail _ move ih =>
        cases move with
        | quiet s hs => exact quiet _ s hs ih
        | preempt victim s _ hs => exact preempt _ victim s hs ih

theorem RunningMoves.skipped (moves : RunningMoves cfg parts st st') :
    st'.stepSkippedKvHolding = st.stepSkippedKvHolding ∧
    st'.stepSkippedWaiting = st.stepSkippedWaiting := by
  refine RunningMoves.invariant (P := fun st' =>
    st'.stepSkippedKvHolding = st.stepSkippedKvHolding ∧
      st'.stepSkippedWaiting = st.stepSkippedWaiting) ?_ ?_ ?_ ?_ moves ⟨rfl, rfl⟩
  · exact fun _ _ _ h => h
  · exact fun _ h => h
  · intro st victim s _ h
    have same := removeVictim_same cfg st victim
    exact ⟨same.2.1.trans h.1, same.2.2.trans h.2⟩
  · intro st id newBlocks plan _ h
    have same := scheduleRunning_same cfg parts st id newBlocks plan
    exact ⟨same.2.1.trans h.1, same.2.2.trans h.2⟩

theorem allocateRound_moves {found : Option KVCacheBlocks}
    (moves : PreemptMoves cfg parts id st st') {round : Round (Option KVCacheBlocks × Step ω)}
    (h : allocateRound cfg parts id n (found, st') = .ok round) :
    match round with
    | .next state => PreemptMoves cfg parts id st state.2
    | .leave state => (state.1.isSome → PreemptMoves cfg parts id st state.2) ∧
        RunningMoves cfg parts st state.2 := by
  have tried : ∀ world : ω, PreemptMoves cfg parts id st
      { st' with sched := { st'.sched with world := world } } :=
    fun _ => moves.tail (.quiet _ rfl)
  have asked : ∀ world : ω, PreemptMoves cfg parts id st
      { st' with sched := ({ st'.sched with world := world }.pendingBlockFrees cfg parts).2 } :=
    fun world => (tried world).tail (.quiet _ Scheduler.core_pendingBlockFrees)
  unfold allocateRound at h
  dsimp only at h
  split at h
  · cases h
    exact ⟨fun _ => tried _, (tried _).runningMoves⟩
  · split at h
    · cases h
      exact ⟨nofun, (asked _).runningMoves⟩
    · split at h
      · cases h
      · rename_i victim hvictim
        split at h
        · cases h
          exact ⟨nofun, (asked _).runningMoves⟩
        · rename_i hfree
          have ⟨s, hs, h⟩ := bind_eq_ok.mp h
          have preempts := Preempts.mk hvictim (not_not.mp hfree) hs
          split at h
          · cases h
            exact ⟨nofun, (asked _).runningMoves.tail (.preempt victim s preempts)⟩
          · rename_i hne
            cases h
            exact (asked _).tail (.preempt victim s hne preempts)

theorem allocateLoop_moves {fuel : Nat} (state : Option KVCacheBlocks × Step ω)
    (h : iterate (allocateRound cfg parts id n) fuel (none, st) = .ok (some state)) :
    (state.1.isSome → PreemptMoves cfg parts id st state.2) ∧
    RunningMoves cfg parts st state.2 := by
  have start : PreemptMoves cfg parts id st st := .refl
  refine iterate_rule (P := fun state => PreemptMoves cfg parts id st state.2)
    (Q := fun state => (state.1.isSome → PreemptMoves cfg parts id st state.2) ∧
      RunningMoves cfg parts st state.2) ?_ ?_ start h
  · intro state state' moves hround
    obtain ⟨found, st'⟩ := state
    exact allocateRound_moves moves hround
  · intro state state' moves hround
    obtain ⟨found, st'⟩ := state
    exact allocateRound_moves moves hround

variable (limits st) in
theorem runningCaps (positive : 0 < n)
    (h : n ≤ max (st.numNewTokensRunning cfg limits (st.sched.request id)) 0)
    (valid : 0 < cfg.cacheBlockSize) : RunningCaps cfg st id n := by
  have cap := limits.cap_le ((st.sched.request id).numTokensWithSpec +
    (st.sched.request id).numOutputPlaceholders - (st.sched.request id).numComputedTokens)
  unfold numNewTokensRunning at h
  dsimp only at h
  split at h
  · have split := cfg.mambaBlockAlignedSplit_le valid (st.sched.request id)
      (min (min (min (limits.cap ((st.sched.request id).numTokensWithSpec +
        (st.sched.request id).numOutputPlaceholders - (st.sched.request id).numComputedTokens))
        st.tokenBudget) (st.inputBudget - cfg.draftSlots))
        (cfg.maxModelLen - (st.sched.request id).numComputedTokens -
          cfg.numSampledTokensPerStep)) 0 0
    constructor <;> omega
  · constructor <;> omega

theorem runningRound_moves {round : Round (Step ω)}
    (h : st.runningRound cfg parts limits = .ok round) :
    match round with
    | .next st' => RunningMoves cfg parts st st'
    | .leave st' => RunningMoves cfg parts st st' := by
  unfold runningRound at h
  split at h
  · cases h
    exact .refl
  · rename_i id hid
    split at h
    · cases h
      exact .refl
    · have skipped : (st.skipsRunning cfg parts limits id).2.core = st.sched.core :=
        core_skipsRunning id
      generalize st.skipsRunning cfg parts limits id = asked at h skipped
      obtain ⟨skips, s⟩ := asked
      have first : RunningMoves cfg parts st { st with sched := s } := .single (.quiet s skipped)
      dsimp only at h skipped
      split at h
      · cases h
        exact first.tail .pass
      · have ⟨⟨plan, s₂⟩, hplan, h⟩ := bind_eq_ok.mp h
        have planned := Scheduler.core_encoderPlan hplan
        have second : RunningMoves cfg parts st { st with sched := s₂ } :=
          first.tail (.quiet s₂ planned)
        dsimp only at h
        split at h
        · cases h
          exact second.tail .pass
        · rename_i hne
          have ⟨allocated, hloop, h⟩ := bind_eq_ok.mp h
          have fits : RunningFits cfg { st with sched := s₂ } id
              (cfg.reservePrefillLookahead (s.request id) (s.request id).numComputedTokens
                plan.numNewTokens) := by
            have planCap := Scheduler.encoderPlan_le hplan
            have reserved := cfg.reservePrefillLookahead_le (s.request id)
              (s.request id).numComputedTokens plan.numNewTokens
            have nonneg := cfg.reservePrefillLookahead_nonneg (s.request id)
              (s.request id).numComputedTokens plan.numNewTokens
            have positive := lt_of_le_of_ne nonneg (Ne.symm hne)
            refine ⟨?_, positive, fun valid => ?_⟩
            · rw [← hid, Scheduler.core_running (planned.trans skipped)]
            · have caps := runningCaps limits { st with sched := s } positive
                (reserved.trans (max_le planCap (le_max_right _ _))) valid
              exact caps.congr (le_refl _) (le_refl _) (Scheduler.core_request planned id)
          have loop := fun state hstate => allocateLoop_moves state
            (hloop.trans (congrArg Except.ok hstate))
          split at h
          · cases h
          · cases h
            exact second.trans (loop _ rfl).2
          · cases h
            exact second.tail (.run id _ _ fits ((loop _ rfl).1 rfl))

theorem scheduleRunningReqs_moves (h : st.scheduleRunningReqs cfg parts limits = .ok st') :
    ∃ st₁, RunningMoves cfg parts st st₁ ∧
    (st' = st₁ ∨ st' = { st₁ with scheduledLoras := st₁.runningLoras }) := by
  have ⟨ended, hloop, h⟩ := bind_eq_ok.mp h
  cases ended with
  | none => cases h
  | some st₁ =>
    have moves : RunningMoves cfg parts st st₁ := iterate_rule
      (P := RunningMoves cfg parts st) (Q := RunningMoves cfg parts st)
      (fun _ _ before hround => before.trans (runningRound_moves hround))
      (fun _ _ before hround => before.trans (runningRound_moves hround)) .refl hloop
    refine ⟨st₁, moves, ?_⟩
    dsimp only at h
    split at h
    · cases h
      exact .inl rfl
    · have ⟨_, _, h⟩ := bind_eq_ok.mp h
      cases h
      exact .inr rfl

end VllmAmpere.Sched.Step
