import VllmAmpere.EncoderDecoderCache
import VllmAmpere.WholeItems

/-! The encoder inputs of a chunk: for every embedding in the tokens that
`_try_schedule_encoder_inputs` leaves, the plan or the encoder cache has its input. -/

open List

namespace VllmAmpere.Sched

/-- `bisect.bisect_left` over keys, from `lo` to `hi`; `fuel` bounds the halvings. -/
def bisectLeft (keys : List Int) (x : Int) : Nat → Nat → Nat → Nat
  | 0, lo, _ => lo
  | fuel + 1, lo, hi =>
    if lo < hi then
      let mid := (lo + hi) / 2
      if keys.getD mid 0 < x then bisectLeft keys x fuel (mid + 1) hi
      else bisectLeft keys x fuel lo mid
    else lo

theorem bisectLeft_sorted {keys : List Int} (sorted : keys.Pairwise (· ≤ ·)) (x : Int)
    {fuel lo hi : Nat} (enough : hi ≤ lo + fuel) (inside : hi ≤ keys.length)
    (low : lo ≤ (keys.takeWhile (· < x)).length) (high : (keys.takeWhile (· < x)).length ≤ hi) :
    bisectLeft keys x fuel lo hi = (keys.takeWhile (· < x)).length := by
  induction fuel generalizing lo hi with
  | zero => exact Nat.le_antisymm low (high.trans enough)
  | succ fuel ih =>
    rw [bisectLeft]
    split
    · have here : keys[(lo + hi) / 2]? = some _ := getElem?_eq_getElem (by omega)
      dsimp only
      rw [getD_eq_getElem?_getD, here, Option.getD_some]
      split
      · rename_i below
        refine ih (by omega) inside (lt_length_takeWhile here fun j y before hy => ?_) high
        obtain ⟨bound, rfl⟩ := List.getElem?_eq_some_iff.mp hy
        refine decide_eq_true (Int.lt_of_le_of_lt ?_ below)
        rcases Nat.lt_or_eq_of_le before with before | rfl
        · exact pairwise_iff_getElem.mp sorted _ _ _ _ before
        · exact Int.le_refl _
      · rename_i above
        exact ih (by omega) (by omega) low (length_takeWhile_le here (decide_eq_false above))
    · omega

/-- Over features in order the two searches of `get_mm_features_in_window` are bisections. -/
theorem getMmFeaturesInWindow_bisect {features : List MultiModalFeature} (apart : Apart features)
    (start stop : Int) : getMmFeaturesInWindow features start stop =
    (bisectLeft (features.map fun f => (f.stop : Int)) (start + 1) features.length 0 features.length,
      bisectLeft (features.map fun f => (f.mmPosition.offset : Int)) stop features.length 0
        features.length) := by
  have search : ∀ (key : MultiModalFeature → Int) (x : Int),
      (features.map key).Pairwise (· ≤ ·) →
      (features.takeWhile fun f => key f < x).length =
        bisectLeft (features.map key) x features.length 0 features.length := by
    intro key x sorted
    have whole := (List.takeWhile_prefix (p := (· < x)) (l := features.map key)).length_le
    rw [length_map] at whole
    rw [bisectLeft_sorted sorted x (by omega) (by rw [length_map]) (Nat.zero_le _) whole,
      takeWhile_map, length_map]
    rfl
  have ordered : ∀ f g : MultiModalFeature, f.stop ≤ g.mmPosition.offset →
      (f.stop : Int) ≤ g.stop ∧ (f.mmPosition.offset : Int) ≤ g.mmPosition.offset := by
    intro f g order
    have := f.offset_lt_stop
    have := g.offset_lt_stop
    omega
  unfold getMmFeaturesInWindow
  rw [search _ _ (pairwise_map.mpr (apart.imp fun order => (ordered _ _ order).1)),
    search _ _ (pairwise_map.mpr (apart.imp fun order => (ordered _ _ order).2))]

namespace MultiModalFeature

variable {f : MultiModalFeature} {start stop : Int}

/-- An embedding of the feature stands at a position from `start` to `stop`. -/
def EmbedsIn (f : MultiModalFeature) (start stop : Int) : Prop :=
  ∃ k < f.mmPosition.length, (∀ mask, f.isEmbed = some mask → mask[k]? = some true) ∧
    start ≤ f.mmPosition.offset + k ∧ (f.mmPosition.offset + k : Int) < stop

theorem EmbedsIn.mono {stop' : Int} (le : stop ≤ stop') (h : f.EmbedsIn start stop) :
    f.EmbedsIn start stop' := by
  obtain ⟨k, inside, masked, after, before⟩ := h
  exact ⟨k, inside, masked, after, before.trans_le le⟩

theorem EmbedsIn.overlaps (h : f.EmbedsIn start stop) :
    start < f.stop ∧ (f.mmPosition.offset : Int) < stop := by
  obtain ⟨k, inside, -, after, before⟩ := h
  have : f.stop = f.mmPosition.offset + f.mmPosition.length := rfl
  omega

theorem embedsBefore_lt {mask : List Bool} {k a b : Nat} (here : mask[k]? = some true)
    (first : a ≤ k) (last : k < b) : embedsBefore mask a < embedsBefore mask b := by
  have mono : ∀ {i j}, i ≤ j → embedsBefore mask i ≤ embedsBefore mask j := fun le =>
    (take_prefix_take_left le).sublist.count_le true
  have next : embedsBefore mask (k + 1) = embedsBefore mask k + 1 := by
    rw [embedsBefore, take_add_one, here, count_append]
    rfl
  have before := mono first
  have after : embedsBefore mask (k + 1) ≤ _ := mono last
  omega

theorem EmbedsIn.not_noEmbeds (h : f.EmbedsIn start stop) : ¬f.NoEmbeds start stop := by
  obtain ⟨k, inside, masked, after, before⟩ := h
  unfold NoEmbeds getEmbedsIndicesInRange
  cases mask : f.isEmbed with
  | none =>
    dsimp only
    omega
  | some mask' =>
    refine (Nat.ne_of_lt (embedsBefore_lt (masked mask' mask) ?_ ?_)).symm <;> omega

end MultiModalFeature

/-- A feature with an embedding in the tokens of the chunk, or in the look-ahead behind it,
is cached, or an input of the plan has its identifier. -/
def EncoderPlan.Covers (plan : EncoderPlan) (r : Request) (cached : String → Prop)
    (numComputedTokens shift : Int) : Prop :=
  ∀ f ∈ r.mmFeatures,
    f.EmbedsIn numComputedTokens (numComputedTokens + plan.numNewTokens + shift) →
      cached f.identifier ∨ ∃ i ∈ plan.encoderInputsToSchedule ++ plan.externalLoadEncoderInput,
        r.identifierAt i = some f.identifier

theorem Scheduler.tryScheduleEncoderInputs_covers {ω : Type} {cfg : SchedulerConfig}
    {parts : Components ω} {cacheOf : ω → EncoderCacheManager} {cacheSize : Nat}
    {s s' : Scheduler ω} {id : String} (hold : HoldEncoderCache parts cacheOf)
    (decoderOnly : cfg.isEncoderDecoder = false) {e : EncoderRun}
    (reached : (encoderCacheRuns cacheSize).Reachable e) (request : e.request = s.request)
    (manager : e.manager = cacheOf s.world) (apart : Apart (s.request id).mmFeatures)
    {numComputedTokens numNewTokens encoderComputeBudget shift : Nat} {plan : EncoderPlan}
    (h : s.tryScheduleEncoderInputs cfg parts id numComputedTokens numNewTokens
      encoderComputeBudget shift = .ok (plan, s')) :
    (0 ≤ plan.numNewTokens ∧ plan.numNewTokens ≤ numNewTokens) ∧
      (plan.encoderInputsToSchedule.map (s.request id).embedsAt).sum ≤ encoderComputeBudget ∧
      (0 < plan.numNewTokens → plan.Covers (s.request id)
        (fun mmHash => (cacheOf s'.world).Holds id mmHash) numComputedTokens shift) := by
  obtain ⟨e', -, -, tracks, current, admitted, spent, outcome⟩ := tryScheduleEncoderInputs_run hold
    decoderOnly (EncoderRun.reachable_sound reached) request manager h
  refine ⟨?_, by exact_mod_cast spent (Int.natCast_nonneg _), fun positive f mem embeds => ?_⟩
  · rcases outcome with none | ⟨before, f, after, split, -, stopped⟩ | ⟨all, -⟩
    · omega
    · have inSlice := split ▸ mem_append_right before (mem_cons_self (a := f))
      have begins := offset_lt_of_mem_window (mem_of_mem_drop inSlice)
      omega
    · omega
  have nonempty : (s.request id).mmFeatures ≠ [] := ne_nil_of_mem mem
  generalize hwindow : getMmFeaturesInWindow (s.request id).mmFeatures numComputedTokens
    (numComputedTokens + numNewTokens + shift) = window at outcome
  -- The window holds every feature with an embedding in the tokens that are offered.
  have inWindow : ∀ stop : Int, stop ≤ numComputedTokens + numNewTokens + shift →
      f.EmbedsIn numComputedTokens stop →
      f ∈ slice (s.request id).mmFeatures window.1 window.2 ∧
        ¬f.NoEmbeds numComputedTokens (numComputedTokens + numNewTokens + shift) := by
    intro stop le embeds
    have wide := embeds.mono le
    obtain ⟨i, here⟩ := mem_iff_getElem?.mp mem
    obtain ⟨first, last⟩ := window_index _ _ apart here wide.overlaps.1 wide.overlaps.2
    rw [hwindow] at first last
    refine ⟨mem_of_getElem? (i := i - window.1) ?_, wide.not_noEmbeds⟩
    rw [slice_getElem?, Nat.add_sub_cancel' first, if_pos last, here]
  have provided : e'.Provides f.identifier := by
    rcases outcome with none | ⟨before, g, after, split, covers, stopped⟩ |
      ⟨all, empty | ⟨covers, -⟩⟩
    · omega
    · have begins : (g.mmPosition.offset : Int) = numComputedTokens + plan.numNewTokens + shift := by
        omega
      have order : (before ++ g :: after).Pairwise fun f g => f.stop ≤ g.mmPosition.offset :=
        split ▸ apart.sublist ((drop_sublist _ _).trans (take_sublist _ _))
      obtain ⟨inSlice, some⟩ := inWindow _ (begins ▸ by
        have inSlice := split ▸ mem_append_right before (mem_cons_self (a := g))
        rw [← hwindow] at inSlice
        exact (offset_lt_of_mem_window (mem_of_mem_drop inSlice)).le) embeds
      rw [split] at inSlice
      have := embeds.overlaps.2
      rcases mem_append.mp inSlice with early | late
      · exact (covers f early).resolve_right some
      -- A feature from `g` on begins behind the chunk.
      rcases mem_cons.mp late with rfl | late
      · omega
      · have := (pairwise_cons.mp (pairwise_append.mp order).2.1).1 f late
        have := g.offset_lt_stop
        omega
    · exact absurd empty nonempty
    · obtain ⟨inSlice, some⟩ := inWindow _ (by omega) embeds
      exact (covers f inSlice).resolve_right some
  rcases provided with held | ⟨i, planned, same⟩
  · rw [tracks.manager, tracks.requestId] at held
    exact .inl held
  · rcases admitted with perm | ⟨-, none | none⟩
    · exact .inr ⟨i, perm.mem_iff.mpr planned, current ▸ same⟩
    · omega
    · exact absurd none nonempty

namespace ChunkRun

/-- The image is in the tokens of the chunk, and in the plan. -/
theorem image_covered : ∃ plan s', imageScheduler.tryScheduleEncoderInputs imageConfig
    encoderParts "a" 0 12 8 0 = .ok (plan, s') ∧ plan.encoderInputsToSchedule = [0] ∧
    plan.numNewTokens = 12 ∧ plan.Covers imageRequest (s'.world.Holds "a") 0 0 := by
  obtain ⟨-, e, reached, request, manager⟩ := imageScheduler_allowed 12 8
  have planned := @Scheduler.tryScheduleEncoderInputs_covers _ imageConfig encoderParts (fun m => m)
    8 imageScheduler _ "a" encoderParts_hold rfl e reached request manager
    (pairwise_singleton _ _) 0 12 8 0 _ rfl
  exact ⟨_, _, rfl, by decide +kernel, by decide +kernel, planned.2.2 (by decide +kernel)⟩

end ChunkRun

namespace EncoderDecoderRun

/-- A request whose encoder input is longer than its prompt. -/
def speechRequest : Request :=
  { audioRequest with mmFeatures := [{ identifier := "audio", mmPosition := ⟨0, 7, by decide⟩ }] }

def speechScheduler : Scheduler EncoderDecoderCacheManager :=
  (Scheduler.init audioConfig (.init 7)).setRequest "a" speechRequest

/-- When the model decodes, the input is neither planned nor kept; and the bisection does not
find a feature with another one inside it. -/
theorem decoding_not_covered : (∃ plan s', speechScheduler.tryScheduleEncoderInputs audioConfig
    encoderDecoderParts "a" 4 1 6 0 = .ok (plan, s') ∧ 0 < plan.numNewTokens ∧
    ¬plan.Covers speechRequest (· ∈ s'.world.allocated ++ s'.world.toFree) 4 0) ∧
    bisectLeft [100, 20] 51 2 0 2 = 2 := by
  refine ⟨⟨_, _, rfl, by decide +kernel, fun covers => ?_⟩, by decide⟩
  have audio := covers _ mem_cons_self ⟨4, by decide, nofun, by decide, by decide +kernel⟩
  rcases audio with held | ⟨i, planned, -⟩
  · exact absurd held (by decide +kernel)
  · exact absurd planned (not_mem_nil)

end EncoderDecoderRun

end VllmAmpere.Sched
