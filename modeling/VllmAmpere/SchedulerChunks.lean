import Mathlib.Data.List.TakeWhile
import VllmAmpere.SchedulerWaiting

/-! The caps on the tokens of a chunk only lower it. -/

namespace VllmAmpere.Sched

theorem StepLimits.cap_le (limits : StepLimits) (n : Int) : limits.cap n ≤ n := by
  unfold cap
  split <;> omega

theorem earliestStop_le (start stop : Int) (stops : List Int) :
    earliestStop start stop stops ≤ stop := by
  have fold : ∀ (stops : List Int) (best : Int), stops.foldl min best ≤ best := by
    intro stops
    induction stops with
    | nil => exact fun best => le_refl best
    | cons s rest ih => exact fun best => (ih _).trans (min_le_left best s)
  exact fold _ stop

namespace SchedulerConfig

variable (cfg : SchedulerConfig)

theorem mambaSplitFrom_le (valid : 0 < cfg.cacheBlockSize) (r : Request) (start n : Int) :
    cfg.mambaSplitFrom r start n ≤ max n 0 := by
  unfold mambaSplitFrom
  dsimp only
  split
  · exact le_max_left _ _
  · apply max_le_max _ le_rfl
    have aligned : (start + n) / (cfg.cacheBlockSize : Int) * cfg.cacheBlockSize ≤ start + n :=
      Int.ediv_mul_le _ (by omega)
    refine sub_le_iff_le_add'.mpr ((earliestStop_le _ _ _).trans ?_)
    generalize (if 0 < cfg.longPrefillTokenThreshold then
      min (cfg.maxNumScheduledTokens : Int) cfg.longPrefillTokenThreshold
      else cfg.maxNumScheduledTokens) = maxPrefillTokens
    split
    · exact aligned
    · exact le_refl _

theorem mambaBlockAlignedSplit_le (valid : 0 < cfg.cacheBlockSize) (r : Request) (n : Int)
    (local' external : Nat) : cfg.mambaBlockAlignedSplit r n local' external ≤ max n 0 :=
  cfg.mambaSplitFrom_le valid r _ n

theorem reservePrefillLookahead_le (r : Request) (numComputedTokens n : Int) :
    cfg.reservePrefillLookahead r numComputedTokens n ≤ max n 0 := by
  unfold reservePrefillLookahead
  apply max_le_max _ le_rfl
  split <;> omega

theorem reservePrefillLookahead_nonneg (r : Request) (numComputedTokens n : Int) :
    0 ≤ cfg.reservePrefillLookahead r numComputedTokens n := le_max_right _ _

end SchedulerConfig

theorem offset_lt_of_mem_window {features : List MultiModalFeature} {start stop : Int}
    {f : MultiModalFeature} (h : f ∈ features.take (getMmFeaturesInWindow features start stop).2) :
    (f.mmPosition.offset : Int) < stop := by
  unfold getMmFeaturesInWindow at h
  rw [← List.prefix_iff_eq_take.mp (List.takeWhile_prefix _)] at h
  have before := List.mem_takeWhile_imp h
  exact of_decide_eq_true before

namespace Scheduler

variable {ω : Type} {cfg : SchedulerConfig} {parts : Components ω} {s s' : Scheduler ω}

theorem planEncoderInput_numNewTokens (i : Nat) (f : MultiModalFeature) (scan : EncoderScan) :
    (s.planEncoderInput cfg parts i f scan).1.numNewTokens = scan.numNewTokens := by
  unfold planEncoderInput
  dsimp only
  split <;> split <;> rfl

theorem fitEncoderInput_le {id : String} {numComputedTokens shift windowEnd : Int} {i : Nat}
    {f : MultiModalFeature} {scan : EncoderScan}
    (reached : (f.mmPosition.offset : Int) < numComputedTokens + scan.numNewTokens + shift)
    {fitted : (EncoderScan × Bool) × Scheduler ω}
    (h : s.fitEncoderInput cfg parts id numComputedTokens shift windowEnd i f scan = fitted) :
    if fitted.1.2 then fitted.1.1.numNewTokens = scan.numNewTokens
    else fitted.1.1.numNewTokens ≤ max scan.numNewTokens 0 := by
  subst h
  unfold fitEncoderInput
  dsimp only
  split
  · simp only [Bool.false_eq_true, if_false]
    omega
  · split
    · simp only [Bool.false_eq_true, if_false]
      split <;> omega
    · split
      · rfl
      · exact planEncoderInput_numNewTokens i f scan

theorem scanEncoderInput_le {id : String} {numComputedTokens shift windowEnd : Int} {i : Nat}
    {f : MultiModalFeature} {scan : EncoderScan}
    (reached : (f.mmPosition.offset : Int) < numComputedTokens + scan.numNewTokens + shift)
    {found : EncoderScan × Bool}
    (h : s.scanEncoderInput cfg parts id numComputedTokens shift windowEnd i f scan =
    .ok (some found, s')) : if found.2 then found.1.numNewTokens = scan.numNewTokens
    else found.1.numNewTokens ≤ max scan.numNewTokens 0 := by
  unfold scanEncoderInput at h
  split at h
  · obtain ⟨_, _, h⟩ := bind_eq_ok.mp h
    cases h
    rfl
  · split at h
    · cases h
    · cases h
      rfl
    · rename_i s₁ _
      have fit := fitEncoderInput_le reached
        (rfl : s₁.fitEncoderInput cfg parts id numComputedTokens shift windowEnd i f scan = _)
      cases h
      exact fit

theorem scanEncoderInputs_le {id : String} {numComputedTokens shift windowEnd n : Int}
    (features : List MultiModalFeature)
    (reached : ∀ f ∈ features, (f.mmPosition.offset : Int) < numComputedTokens + n + shift)
    {i : Nat} {scan scan' : EncoderScan} (same : scan.numNewTokens = n)
    (h : scanEncoderInputs cfg parts id numComputedTokens shift windowEnd i features scan s =
    .ok (some scan', s')) : scan'.numNewTokens ≤ max n 0 := by
  induction features generalizing i scan s with
  | nil =>
    cases h
    exact same ▸ le_max_left _ _
  | cons f rest ih =>
    have ⟨⟨found, s₁⟩, hscan, h⟩ := bind_eq_ok.mp h
    cases found with
    | none => cases h
    | some found =>
      obtain ⟨scan₁, goesOn⟩ := found
      have first := scanEncoderInput_le (same ▸ reached f List.mem_cons_self) hscan
      cases goesOn with
      | false =>
        cases h
        exact same ▸ first
      | true =>
        exact ih (fun g hg => reached g (List.mem_cons_of_mem f hg))
          (Eq.trans first same) h

theorem encoderPlan_le {id : String} {numComputedTokens n budget : Int} {plan : EncoderPlan}
    (h : s.encoderPlan cfg parts id numComputedTokens n budget = .ok (plan, s')) :
    plan.numNewTokens ≤ max n 0 := by
  unfold encoderPlan at h
  split at h
  · unfold tryScheduleEncoderInputs at h
    dsimp only at h
    split at h
    · cases h
      exact le_max_left _ _
    · have ⟨⟨found, s₁⟩, hscan, h⟩ := bind_eq_ok.mp h
      cases found with
      | none =>
        cases h
        exact le_max_right _ _
      | some scan =>
        cases h
        refine scanEncoderInputs_le _ ?_ rfl hscan
        intro f hf
        exact offset_lt_of_mem_window (List.mem_of_mem_drop hf)
  · cases h
    exact le_max_left _ _

end Scheduler

namespace Step

variable {ω : Type} (cfg : SchedulerConfig) (parts : Components ω) (limits : StepLimits)
  (st : Step ω)

/-- The caps on the chunk of a waiting request `r`. -/
structure WaitingCaps (r : Request) (chunk : Chunk) : Prop where
  positive : 0 < chunk.plan.numNewTokens
  token : 0 < cfg.cacheBlockSize → chunk.plan.numNewTokens ≤ st.tokenBudget
  input : 0 < cfg.cacheBlockSize → chunk.plan.numNewTokens ≤ st.inputBudget - cfg.draftSlots
  plain : 0 < cfg.cacheBlockSize → chunk.padSpecDecode = false →
    chunk.plan.numNewTokens ≤ r.numTokens - chunk.numComputedTokens
  padded : chunk.padSpecDecode = true → (r.numTokens : Int) - chunk.numComputedTokens = 1 ∧
    0 < cfg.numSpecTokens ∧
    chunk.numComputedTokens + (1 + cfg.numSpecTokens) + cfg.numSampledTokensPerStep ≤
      cfg.maxModelLen

variable {cfg parts limits st}

theorem padDecode_ok {numComputedTokens n budget n' : Int} {pad : Bool}
    (h : st.padDecode cfg numComputedTokens n budget = some (n', pad)) :
    if pad then n = 1 ∧ 0 < cfg.numSpecTokens ∧ numComputedTokens + (1 + cfg.numSpecTokens) +
    cfg.numSampledTokensPerStep ≤ cfg.maxModelLen else n' = n := by
  unfold padDecode at h
  dsimp only at h
  split at h
  · rename_i hpad
    split at h
    · cases h
    · cases h
      exact ⟨hpad.2.2.1, hpad.1.1, hpad.2.2.2.2.2⟩
  · cases h
    rfl

theorem alignChunk_ok (valid : 0 < cfg.cacheBlockSize) {r : Request} {a : Admission} {n n' : Int}
    {pad pad' : Bool} (positive : 0 < n) (h : alignChunk cfg r a n pad = some (n', pad')) :
    n' ≤ n := by
  unfold alignChunk at h
  dsimp only at h
  split at h
  · have split := cfg.mambaBlockAlignedSplit_le valid r n a.numNewLocalComputedTokens
      a.numExternalComputedTokens
    split at h
    · cases h
    · split at h
      · cases h
        omega
      · cases h
        omega
  · cases h
    exact le_refl _

theorem alignChunk_pad {r : Request} {a : Admission} {n n' : Int} {pad pad' : Bool}
    (h : alignChunk cfg r a n pad = some (n', pad')) :
    (pad' = true → pad = true) ∧ (pad = true → pad' = false → n' = 1) := by
  unfold alignChunk at h
  dsimp only at h
  split at h
  · split at h
    · cases h
    · split at h
      · cases h
        exact ⟨nofun, fun _ _ => rfl⟩
      · cases h
        exact ⟨id, fun h h' => by rw [h] at h'; cases h'⟩
  · cases h
    exact ⟨id, fun h h' => by rw [h] at h'; cases h'⟩

end Step

end VllmAmpere.Sched
