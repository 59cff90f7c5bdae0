import VllmAmpere.EncoderCachePass

/-! The chunks of a request with multimodal items that must not be cut: the offered
tokens, the encoder caps and the prefill look-ahead, over successive steps. -/

open List

namespace VllmAmpere.Sched

/-- The chunks of a request since it was admitted with a prefix hit. -/
structure ChunkRun where
  hit : Int
  numComputedTokens : Int
  scheduled : List (Int × Int)

inductive ChunkCall (ω : Type)
  /-- The request is admitted, or resumed, with a prefix hit. -/
  | start (hit : Int)
  /-- A step that offers the request a number of tokens and an encoder budget; `s` is the
  scheduler of the step. -/
  | step (s : Scheduler ω) (numNewTokens encoderComputeBudget : Int)

def MultiModalFeature.WholeIn (f : MultiModalFeature) (start numNewTokens : Int) : Prop :=
  (start ≤ f.mmPosition.offset ∧ (f.stop : Int) ≤ start + numNewTokens) ∨
    (f.stop : Int) ≤ start ∨ start + numNewTokens ≤ f.mmPosition.offset

def MultiModalFeature.Cut (f : MultiModalFeature) (position : Int) : Prop :=
  (f.mmPosition.offset : Int) < position ∧ position < f.stop

def Apart (features : List MultiModalFeature) : Prop :=
  features.Pairwise fun f g => f.stop ≤ g.mmPosition.offset

namespace ChunkRun

variable {ω : Type} (cfg : SchedulerConfig) (parts : Components ω)
  (cacheOf : ω → EncoderCacheManager) (cacheSize : Nat) (id : String)
  (features : List MultiModalFeature)

def numNewTokens (run : ChunkRun) (s : Scheduler ω) (offered encoderComputeBudget : Int) :
    Except PyError Int := do
  let (plan, _) ← s.encoderPlan cfg parts id run.numComputedTokens offered encoderComputeBudget
  .ok (cfg.reservePrefillLookahead (s.request id) run.numComputedTokens plan.numNewTokens)

def call (run : ChunkRun) : ChunkCall ω → Except PyError ChunkRun
  | .start hit => .ok { hit := hit, numComputedTokens := hit, scheduled := [] }
  | .step s offered encoderComputeBudget => do
    let numNewTokens ← run.numNewTokens cfg parts id s offered encoderComputeBudget
    .ok (if numNewTokens = 0 then run else { run with
      numComputedTokens := run.numComputedTokens + numNewTokens
      scheduled := run.scheduled ++ [(run.numComputedTokens, numNewTokens)] })

/-- The items of the request stay, and the encoder cache is in a state of its runs. -/
def Allowed : ChunkCall ω → Prop
  | .start _ => True
  | .step s _ _ => (s.request id).mmFeatures = features ∧
      ∃ e, (encoderCacheRuns cacheSize).Reachable e ∧ e.request = s.request ∧
        e.manager = cacheOf s.world

/-- What keeps a step from cutting an item. -/
structure Unsplit (run : ChunkRun) (s : Scheduler ω) (offered encoderComputeBudget : Int) :
    Prop where
  decoderOnly : cfg.isEncoderDecoder = false
  /-- An item at the position that is reached is offered whole, or has to wait for room. -/
  whole : ∀ (i : Nat) (f : MultiModalFeature), features[i]? = some f →
    (f.mmPosition.offset : Int) = run.numComputedTokens →
    (f.mmPosition.length : Int) ≤ offered ∨
      ((cacheOf s.world).cached.get? f.identifier = none ∧ ∃ m',
        (cacheOf s.world).canAllocate (s.request id) i encoderComputeBudget 0 = .ok (false, m'))
  /-- An item further on that the offered tokens would cut is not cached, nor does one
  before it have its identifier. -/
  guarded : ∀ (i : Nat) (f : MultiModalFeature), features[i]? = some f →
    run.hit ≤ f.mmPosition.offset → run.numComputedTokens < f.mmPosition.offset → f.Cut (run.numComputedTokens + offered) →
      (cacheOf s.world).cached.get? f.identifier = none ∧
        ∀ (j : Nat) (g : MultiModalFeature), j < i → features[j]? = some g →
          run.numComputedTokens < g.stop →
          g.identifier ≠ f.identifier
  /-- Stepping back by the look-ahead before an item does not end in another. -/
  lookahead : 0 < cfg.numPrefillLookahead → ∀ f ∈ features, ∀ g ∈ features,
    run.hit ≤ f.mmPosition.offset →
      run.numComputedTokens + cfg.numPrefillLookahead < g.mmPosition.offset →
        ¬f.Cut (g.mmPosition.offset - cfg.numPrefillLookahead)
  /-- Nor does the reserve at the end of the prefill. -/
  reserved : 0 < cfg.numPrefillLookahead → ∀ f ∈ features, run.hit ≤ f.mmPosition.offset →
    ¬f.Cut ((s.request id).numTokens - cfg.numPrefillLookahead)

def UnsplitCall (run : ChunkRun) : ChunkCall ω → Prop
  | .start _ => True
  | .step s offered encoderComputeBudget =>
    run.Unsplit cfg cacheOf id features s offered encoderComputeBudget

def KeepsWhole (run : ChunkRun) : Prop :=
  ∀ range ∈ run.scheduled, ∀ f ∈ features, run.hit ≤ f.mmPosition.offset →
    f.WholeIn range.1 range.2

end ChunkRun

def chunkRuns {ω : Type} (cfg : SchedulerConfig) (parts : Components ω)
    (cacheOf : ω → EncoderCacheManager) (cacheSize : Nat) (id : String)
    (features : List MultiModalFeature) : TransitionSystem ChunkRun (ChunkCall ω) where
  init run := run = ⟨0, 0, []⟩
  step run c run' := ChunkRun.Allowed cacheOf cacheSize id features c ∧
    run.call cfg parts id c = .ok run'

section

variable {ω : Type} {cfg : SchedulerConfig} {parts : Components ω}
  {cacheOf : ω → EncoderCacheManager} {cacheSize : Nat} {id : String}
  {features : List MultiModalFeature} {s : Scheduler ω}

theorem length_takeWhile_le {α : Type} {p : α → Bool} {xs : List α} {i : Nat} {x : α}
    (h : xs[i]? = some x) (fails : p x = false) : (xs.takeWhile p).length ≤ i := by
  induction xs generalizing i with
  | nil => simp
  | cons y rest ih =>
    cases i with
    | zero =>
      cases h
      simp [fails]
    | succ i =>
      rw [takeWhile_cons]
      split
      · exact Nat.succ_le_succ (ih h)
      · exact Nat.zero_le _

theorem lt_length_takeWhile {α : Type} {p : α → Bool} {xs : List α} {i : Nat} {x : α}
    (h : xs[i]? = some x) (all : ∀ j y, j ≤ i → xs[j]? = some y → p y = true) :
    i < (xs.takeWhile p).length := by
  induction xs generalizing i with
  | nil => cases h
  | cons y rest ih =>
    rw [takeWhile_cons, if_pos (all 0 y (Nat.zero_le i) rfl)]
    cases i with
    | zero => simp
    | succ i =>
      exact Nat.succ_lt_succ (ih h fun j z hj hz => all (j + 1) z (Nat.succ_le_succ hj) hz)

theorem Apart.stop_le (apart : Apart features) {i j : Nat} {f g : MultiModalFeature}
    (hf : features[i]? = some f) (hg : features[j]? = some g) (h : i < j) :
    f.stop ≤ g.mmPosition.offset := by
  obtain ⟨hi, rfl⟩ := List.getElem?_eq_some_iff.mp hf
  obtain ⟨hj, rfl⟩ := List.getElem?_eq_some_iff.mp hg
  exact pairwise_iff_getElem.mp apart i j hi hj h

theorem MultiModalFeature.offset_lt_stop (f : MultiModalFeature) :
    f.mmPosition.offset < f.stop := Nat.lt_add_of_pos_right f.mmPosition.length_pos

theorem Apart.not_cut_offset (apart : Apart features) {f g : MultiModalFeature}
    (hf : f ∈ features) (hg : g ∈ features) : ¬f.Cut g.mmPosition.offset := by
  rintro ⟨after, before⟩
  have ⟨i, hi⟩ := mem_iff_getElem?.mp hf
  have ⟨j, hj⟩ := mem_iff_getElem?.mp hg
  rcases Nat.lt_trichotomy i j with h | rfl | h
  · have := apart.stop_le hi hj h
    omega
  · rw [hi] at hj
    cases hj
    omega
  · have := apart.stop_le hj hi h
    have := g.offset_lt_stop
    omega

section

variable (start stop : Int)

theorem window_index (apart : Apart features) {i : Nat} {f : MultiModalFeature}
    (hf : features[i]? = some f) (after : start < f.stop)
    (before : (f.mmPosition.offset : Int) < stop) :
    (getMmFeaturesInWindow features start stop).1 ≤ i ∧
    i < (getMmFeaturesInWindow features start stop).2 := by
  refine ⟨length_takeWhile_le hf ?_, lt_length_takeWhile hf fun j g hj hg => ?_⟩
  · simp only [decide_eq_false_iff_not]
    omega
  · rw [decide_eq_true_eq]
    rcases Nat.lt_or_eq_of_le hj with hj | rfl
    · have := apart.stop_le hg hf hj
      have := g.offset_lt_stop
      omega
    · rw [hf] at hg
      cases hg
      exact before

theorem lt_stop_of_window (apart : Apart features) {j : Nat} {g : MultiModalFeature}
    (hg : features[j]? = some g) (inWindow : (getMmFeaturesInWindow features start stop).1 ≤ j) :
    start < g.stop := by
  by_contra behind
  refine absurd (lt_length_takeWhile hg fun i f hi hf => ?_) (Nat.not_lt.mpr inWindow)
  rw [decide_eq_true_eq]
  rcases Nat.lt_or_eq_of_le hi with hi | rfl
  · have := apart.stop_le hf hg hi
    have := g.offset_lt_stop
    omega
  · rw [hg] at hf
    cases hf
    omega

theorem window_first (apart : Apart features) {i : Nat} {f : MultiModalFeature}
    (hf : features[i]? = some f) (here : (f.mmPosition.offset : Int) = start) :
    (getMmFeaturesInWindow features start stop).1 = i := by
  refine Nat.le_antisymm (length_takeWhile_le hf ?_) ?_
  · have := f.offset_lt_stop
    simp only [decide_eq_false_iff_not]
    omega
  · by_contra before
    have inRange := (List.getElem?_eq_some_iff.mp hf).1
    have hj : features[(getMmFeaturesInWindow features start stop).1]? = some _ :=
      getElem?_eq_getElem (by omega)
    have := lt_stop_of_window start stop apart hj (Nat.le_refl _)
    have := apart.stop_le hj hf (by omega)
    omega

end

namespace ChunkRun

variable {run run' : ChunkRun}

/-- The position that is reached lies inside no item that the prefix hit left whole. -/
structure Sound (features : List MultiModalFeature) (run : ChunkRun) : Prop where
  hit_le : run.hit ≤ run.numComputedTokens
  uncut : ∀ f ∈ features, run.hit ≤ f.mmPosition.offset → ¬f.Cut run.numComputedTokens
  whole : run.KeepsWhole features

theorem wholeIn_of_uncut {f : MultiModalFeature} {start numNewTokens : Int}
    (before : ¬f.Cut start) (after : ¬f.Cut (start + numNewTokens)) :
    f.WholeIn start numNewTokens := by
  unfold MultiModalFeature.Cut at before after
  unfold MultiModalFeature.WholeIn
  omega

section

variable (hold : HoldEncoderCache parts cacheOf) (noChunks : cfg.disableChunkedMmInput)
  (apart : Apart features) (sound : run.Sound features)
include hold noChunks apart sound

theorem Unsplit.plan_uncut
    {offered encoderComputeBudget : Int}
    (unsplit : run.Unsplit cfg cacheOf id features s offered encoderComputeBudget)
    (items : (s.request id).mmFeatures = features) {e : EncoderRun}
    (reached : (encoderCacheRuns cacheSize).Reachable e) (request : e.request = s.request)
    (manager : e.manager = cacheOf s.world) {plan : EncoderPlan} {s' : Scheduler ω}
    (h : s.encoderPlan cfg parts id run.numComputedTokens offered encoderComputeBudget =
    .ok (plan, s')) (positive : 0 < plan.numNewTokens) {f : MultiModalFeature}
    (hf : f ∈ features) (left : run.hit ≤ f.mmPosition.offset) :
    ¬f.Cut (run.numComputedTokens + plan.numNewTokens) := by
  have outcome : plan.numNewTokens = 0 ∨
      (∃ g ∈ features, plan.numNewTokens =
        max 0 ((g.mmPosition.offset : Int) - (run.numComputedTokens + cfg.numPrefillLookahead))) ∨
      (plan.numNewTokens = offered ∧
        let window := getMmFeaturesInWindow features run.numComputedTokens
          (run.numComputedTokens + offered + cfg.numPrefillLookahead)
        EncoderScan.PassesAll cfg run.numComputedTokens (cacheOf s.world) (s.request id) window.1
          (slice features window.1 window.2)
          { numNewTokens := offered, encoderComputeBudget := encoderComputeBudget }) := by
    have some_input : (s.request id).hasEncoderInputs := by
      unfold Request.hasEncoderInputs
      rw [items, isEmpty_eq_false_iff.mpr (ne_nil_of_mem hf)]
      rfl
    rw [Scheduler.encoderPlan, if_pos some_input] at h
    obtain ⟨_, -, -, -, -, -, -, outcome⟩ := tryScheduleEncoderInputs_run hold unsplit.decoderOnly
      (EncoderRun.reachable_sound reached) request manager h
    rw [items] at outcome
    rcases outcome with none | ⟨before, g, after, split, -, stopped⟩ | ⟨all, empty | ⟨-, passed⟩⟩
    · exact .inl none
    · have hg := split ▸ mem_append_right before mem_cons_self
      exact .inr (.inl ⟨g, (take_subset _ _ (drop_subset _ _ hg)), stopped⟩)
    · exact absurd empty (ne_nil_of_mem hf)
    · exact .inr (.inr ⟨all, passed⟩)
  rcases outcome with none | ⟨g, hg, stopped⟩ | ⟨all, passed⟩
  · omega
  · -- The scan stopped before `g`, a look-ahead short of it.
    have here : run.numComputedTokens + plan.numNewTokens =
        g.mmPosition.offset - cfg.numPrefillLookahead := by omega
    rw [here]
    rcases Nat.eq_zero_or_pos cfg.numPrefillLookahead with none | some
    · rw [none]
      simpa using apart.not_cut_offset hf hg
    · exact unsplit.lookahead some f hf g hg left (by omega)
  · -- The scan passed every item of the window, `f` with them.
    rw [all]
    intro cut
    have ⟨i, hi⟩ := mem_iff_getElem?.mp hf
    have ⟨starts, ends⟩ := cut
    have after : run.numComputedTokens < f.stop := by omega
    have ⟨first, last⟩ := window_index run.numComputedTokens
      (run.numComputedTokens + offered + cfg.numPrefillLookahead) apart hi after (by omega)
    have inSlice : (slice features
        (getMmFeaturesInWindow features run.numComputedTokens
          (run.numComputedTokens + offered + cfg.numPrefillLookahead)).1
        (getMmFeaturesInWindow features run.numComputedTokens
          (run.numComputedTokens + offered + cfg.numPrefillLookahead)).2)[i -
            (getMmFeaturesInWindow features run.numComputedTokens
              (run.numComputedTokens + offered + cfg.numPrefillLookahead)).1]? = some f := by
      rw [slice_getElem?, Nat.add_sub_cancel' first, if_pos last, hi]
    have stop_eq : f.stop = f.mmPosition.offset + f.mmPosition.length := rfl
    by_cases here : (f.mmPosition.offset : Int) = run.numComputedTokens
    · have index := window_first run.numComputedTokens
        (run.numComputedTokens + offered + cfg.numPrefillLookahead) apart hi here
      rcases unsplit.whole i f hi here with fits | ⟨absent, m', refused⟩
      · omega
      · obtain ⟨-, room⟩ := passed _ f inSlice absent rfl fun j g hj => by omega
        have ⟨m'', admitted⟩ := room (by omega)
        rw [index] at admitted
        cases refused.symm.trans admitted
    · have uncut := sound.uncut f hf left
      have ahead : run.numComputedTokens < f.mmPosition.offset := by
        by_contra behind
        exact uncut ⟨by omega, after⟩
      have ⟨absent, distinct⟩ := unsplit.guarded i f hi left ahead cut
      refine (passed _ f inSlice absent rfl fun j g hj hg => ?_).1 ⟨noChunks, ahead, ?_⟩
      · rw [slice_getElem?] at hg
        split at hg
        · exact distinct _ g (by omega) hg
            (lt_stop_of_window _ _ apart hg (Nat.le_add_right _ j))
        · cases hg
      · dsimp only
        omega

theorem Sound.step {c : ChunkCall ω}
    (unsplit : run.UnsplitCall cfg cacheOf id features c)
    (step : (chunkRuns cfg parts cacheOf cacheSize id features).step run c run') :
    run'.Sound features := by
  obtain ⟨allowed, hcall⟩ := step
  cases c with
  | start hit =>
    cases hcall
    refine ⟨Int.le_refl _, fun f hf left cut => ?_, nofun⟩
    have := cut.1
    dsimp only at this left
    omega
  | step s offered encoderComputeBudget =>
    obtain ⟨items, e, reached, request, manager⟩ := allowed
    obtain ⟨numNewTokens, htokens, hcall⟩ := bind_eq_ok.mp hcall
    obtain ⟨⟨plan, s'⟩, hplan, hreserve⟩ := bind_eq_ok.mp htokens
    cases hcall
    split
    · exact sound
    rename_i some
    have reserve : numNewTokens =
        cfg.reservePrefillLookahead (s.request id) run.numComputedTokens plan.numNewTokens :=
      (Except.ok.inj hreserve).symm
    have positive : 0 < plan.numNewTokens ∧ 0 < numNewTokens ∧
        (numNewTokens = plan.numNewTokens ∨ (0 < cfg.numPrefillLookahead ∧
          run.numComputedTokens + numNewTokens =
            (s.request id).numTokens - cfg.numPrefillLookahead)) := by
      unfold SchedulerConfig.reservePrefillLookahead at reserve
      dsimp only at reserve
      split at reserve <;> omega
    have uncut : ∀ f ∈ features, run.hit ≤ f.mmPosition.offset →
        ¬f.Cut (run.numComputedTokens + numNewTokens) := by
      intro f hf left
      rcases positive.2.2 with same | ⟨lookahead, reserved⟩
      · rw [same]
        exact Unsplit.plan_uncut hold noChunks apart sound unsplit items reached request manager
          hplan positive.1 hf left
      · rw [reserved]
        exact unsplit.reserved lookahead f hf left
    refine ⟨?_, uncut, fun range hrange f hf left => ?_⟩
    · have := sound.hit_le
      dsimp only
      omega
    · rcases mem_append.mp hrange with hrange | hrange
      · exact sound.whole range hrange f hf left
      · rw [mem_singleton.mp hrange]
        exact wholeIn_of_uncut (sound.uncut f hf left) (uncut f hf left)

end

end ChunkRun

end

namespace ChunkRun

def image : MultiModalFeature := { identifier := "image", mmPosition := ⟨4, 6, by decide⟩ }

def imageRequest : Request :=
  { Request.new "a" (List.replicate 12 0) 4 with mmFeatures := [image] }

def imageConfig : SchedulerConfig :=
  { maxNumRunningReqs := 2, maxNumActiveReqs := 2, maxNumScheduledTokens := 8,
    maxNumBatchedTokens := 8, maxModelLen := 16, maxNumEncoderInputTokens := 8,
    disableChunkedMmInput := true }

def imageScheduler : Scheduler EncoderCacheManager :=
  (Scheduler.init imageConfig (.init 8)).setRequest "a" imageRequest

theorem imageScheduler_allowed (offered encoderComputeBudget : Int) :
    Allowed (fun m : EncoderCacheManager => m) 8 "a" [image]
    (.step imageScheduler offered encoderComputeBudget) :=
  ⟨rfl, _, .step (a := .addRequest imageRequest) (.init rfl) ⟨⟨rfl, fun _ h => nomatch h⟩, rfl⟩,
    rfl, rfl⟩

end ChunkRun

end VllmAmpere.Sched
