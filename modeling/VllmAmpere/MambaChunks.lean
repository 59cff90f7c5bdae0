import VllmAmpere.SchedulerChunks

/-! Where a prefill chunk of a model with Mamba layers ends: at the earliest of the stops
that lie in it, so that a state is cached only where it is reusable. -/

open List

namespace VllmAmpere.Sched

section stops

variable {start stop s : Int} {stops : List Int}

theorem foldl_min_le (stops : List Int) (best : Int) : stops.foldl min best ≤ best := by
  induction stops generalizing best with
  | nil => exact le_rfl
  | cons s rest ih => exact (ih _).trans (min_le_left best s)

theorem foldl_min_le_of_mem (hmem : s ∈ stops) (best : Int) : stops.foldl min best ≤ s := by
  induction stops generalizing best with
  | nil => cases hmem
  | cons first rest ih =>
    rcases mem_cons.mp hmem with rfl | hmem
    · exact (foldl_min_le rest _).trans (min_le_right best s)
    · exact ih hmem _

theorem foldl_min_mem (stops : List Int) (best : Int) :
    stops.foldl min best = best ∨ stops.foldl min best ∈ stops := by
  induction stops generalizing best with
  | nil => exact .inl rfl
  | cons s rest ih =>
    rw [foldl_cons]
    rcases ih (min best s) with hbest | hmem
    · rcases min_choice best s with hmin | hmin
      · exact .inl (hbest.trans hmin)
      · rw [hbest, hmin]
        exact .inr mem_cons_self
    · exact .inr (mem_cons_of_mem _ hmem)

theorem earliestStop_le_of_mem (hmem : s ∈ stops) (hstart : start < s) :
    earliestStop start stop stops ≤ s := by
  by_cases hstop : s < stop
  · exact foldl_min_le_of_mem (mem_filter.mpr ⟨hmem, by simpa using ⟨hstart, hstop⟩⟩) stop
  · exact (earliestStop_le start stop stops).trans (Int.not_lt.mp hstop)

theorem earliestStop_mem (start stop : Int) (stops : List Int) :
    earliestStop start stop stops = stop ∨ earliestStop start stop stops ∈ stops :=
  (foldl_min_mem _ stop).imp_right fun hmem => (mem_filter.mp hmem).1

end stops

namespace SchedulerConfig

variable (cfg : SchedulerConfig) (r : Request) (start stop : Int)

def prefillEnd : Int := max (r.numPromptTokens : Int) (r.numTokens - 1)

/-- Whether a chunk writes the state of the prompt's tail itself. -/
def usesInternalCheckpoint : Bool :=
  cfg.mambaHasPrefillCheckpointBlocks ∧ stop ≥ prefillEnd r ∧
    isMambaPrefillCheckpointValid start stop
      (getMambaPrefillCheckpointPosition (prefillEnd r) cfg.hashBlockSize cfg.useEagleBlockDrop)
      cfg.hashBlockSize cfg.cacheBlockSize cfg.mambaPrefillCheckpointAlignment

/-- `last_cache_position`; a chunk that begins at `start` and may go on to `stop` has none when
it uses the internal checkpoint. -/
def lastCachePosition : Int :=
  let aligned : Int := r.numTokens - r.numTokens % (cfg.cacheBlockSize : Int)
  if cfg.usesInternalCheckpoint r start stop then 0
  else if cfg.useEagleBlockDrop then max (aligned - cfg.cacheBlockSize) 0 else aligned

def maxPrefillTokens : Int :=
  if 0 < cfg.longPrefillTokenThreshold then
    min cfg.maxNumScheduledTokens cfg.longPrefillTokenThreshold
  else cfg.maxNumScheduledTokens

/-- The end of a chunk before the stops: block aligned, but at the end of the prefill and
where a block is wider than a step. -/
def blockAlignedEnd : Int :=
  let alignedEnd := stop / cfg.cacheBlockSize * cfg.cacheBlockSize
  if stop < prefillEnd r ∧ (alignedEnd > start ∨ cfg.cacheBlockSize ≤ cfg.maxPrefillTokens) then
    alignedEnd
  else stop

def nextBlockBoundary : Int := (start / cfg.cacheBlockSize + 1) * cfg.cacheBlockSize

def tailBoundary : Int :=
  let tail : Int :=
    if cfg.mambaPartialCacheHit ∧ ¬cfg.usesInternalCheckpoint r start stop then
      r.numPromptTokens / cfg.hashBlockSize * cfg.hashBlockSize
    else 0
  if tail ≠ 0 ∧ cfg.useEagleBlockDrop then max (tail - cfg.hashBlockSize) 0 else tail

def junctionStop : Int :=
  if cfg.mambaSharedPrefixCheckpoint ∧ (r.sharedPrefixBoundary : Int) ≤ r.numPromptTokens then
    r.sharedPrefixBoundary
  else start + (r.sharedPrefixBoundary - start) / cfg.cacheBlockSize * cfg.cacheBlockSize

def chunkEnd : Int :=
  earliestStop start (cfg.blockAlignedEnd r start stop) [
    if start % cfg.cacheBlockSize ≠ 0 ∧ ¬cfg.usesInternalCheckpoint r start stop then
      cfg.nextBlockBoundary start
    else 0,
    cfg.lastCachePosition r start stop,
    if cfg.lastCachePosition r start stop < cfg.tailBoundary r start stop ∧
        cfg.tailBoundary r start stop < r.numPromptTokens then cfg.tailBoundary r start stop
    else 0,
    if start < (r.sharedPrefixBoundary : Int) ∧
        (r.sharedPrefixBoundary : Int) < cfg.blockAlignedEnd r start stop then
      cfg.junctionStop r start
    else 0]

variable {cfg r start}

theorem mambaSplitFrom_eq (hprefill : start < prefillEnd r) (n : Int) :
    cfg.mambaSplitFrom r start n = max (cfg.chunkEnd r start (start + n) - start) 0 :=
  if_neg (Int.not_le.mpr hprefill)

/-- What a chunk of `n` tokens of the `numNewTokens` it could have keeps to. -/
structure EndsWhereCached (cfg : SchedulerConfig) (r : Request) (start numNewTokens n : Int) :
    Prop where
  inBlock : ¬(cfg.cacheBlockSize : Int) ∣ start →
    cfg.usesInternalCheckpoint r start (start + numNewTokens) = false →
      start + n ≤ cfg.nextBlockBoundary start
  ends : 0 < n → start + n < prefillEnd r →
    (cfg.cacheBlockSize : Int) ∣ start + n ∨
      start + n = cfg.tailBoundary r start (start + numNewTokens) ∨
      start + n = cfg.junctionStop r start ∨
      (start + n) / cfg.cacheBlockSize = start / cfg.cacheBlockSize ∧
        cfg.maxPrefillTokens < cfg.cacheBlockSize
  lastCache : start < cfg.lastCachePosition r start (start + numNewTokens) →
    start + n ≤ cfg.lastCachePosition r start (start + numNewTokens)
  tail : cfg.lastCachePosition r start (start + numNewTokens) <
      cfg.tailBoundary r start (start + numNewTokens) →
    cfg.tailBoundary r start (start + numNewTokens) < r.numPromptTokens →
    start < cfg.tailBoundary r start (start + numNewTokens) →
      start + n ≤ cfg.tailBoundary r start (start + numNewTokens)
  junction : start < (r.sharedPrefixBoundary : Int) →
    (r.sharedPrefixBoundary : Int) < start + n → start < cfg.junctionStop r start →
      start + n ≤ cfg.junctionStop r start

theorem lastCachePosition_dvd (r : Request) (start stop : Int) :
    (cfg.cacheBlockSize : Int) ∣ cfg.lastCachePosition r start stop := by
  have haligned : (cfg.cacheBlockSize : Int) ∣ r.numTokens - r.numTokens % cfg.cacheBlockSize :=
    Int.dvd_self_sub_emod
  unfold lastCachePosition
  dsimp only
  split
  · exact Int.dvd_zero _
  split
  · rcases max_choice ((r.numTokens : Int) - r.numTokens % cfg.cacheBlockSize -
      cfg.cacheBlockSize) 0 with hmax | hmax
    · rw [hmax]
      exact Int.dvd_sub haligned (Int.dvd_refl _)
    · rw [hmax]
      exact Int.dvd_zero _
  · exact haligned

theorem chunkEnd_cases (r : Request) (start stop : Int) :
    cfg.chunkEnd r start stop = cfg.blockAlignedEnd r start stop ∨
    (cfg.cacheBlockSize : Int) ∣ cfg.chunkEnd r start stop ∨
    cfg.chunkEnd r start stop = cfg.tailBoundary r start stop ∨
    cfg.chunkEnd r start stop = cfg.junctionStop r start := by
  rcases earliestStop_mem start (cfg.blockAlignedEnd r start stop) _ with hend | hmem
  · exact .inl hend
  right
  change cfg.chunkEnd r start stop ∈ _ at hmem
  have haligned : ∀ p : Prop, ∀ [Decidable p] {a : Int}, (cfg.cacheBlockSize : Int) ∣ a →
      cfg.chunkEnd r start stop = (if p then a else 0) →
        (cfg.cacheBlockSize : Int) ∣ cfg.chunkEnd r start stop := by
    intro p _ a ha hend
    rw [hend]
    split
    · exact ha
    · exact Int.dvd_zero _
  have hzero : ∀ p : Prop, ∀ [Decidable p] {a : Int},
      cfg.chunkEnd r start stop = (if p then a else 0) →
        (cfg.cacheBlockSize : Int) ∣ cfg.chunkEnd r start stop ∨
          cfg.chunkEnd r start stop = a := by
    intro p _ a hend
    rw [hend]
    split
    · exact .inr rfl
    · exact .inl (Int.dvd_zero _)
  rw [mem_cons, mem_cons, mem_cons, mem_singleton] at hmem
  rcases hmem with hnext | hlast | htail | hjunction
  · exact .inl (haligned _ (Int.dvd_mul_left _ _) hnext)
  · exact .inl (hlast ▸ lastCachePosition_dvd r start stop)
  · exact (hzero _ htail).imp_right .inl
  · exact (hzero _ hjunction).imp_right .inr

theorem blockAlignedEnd_cases (valid : 0 < cfg.cacheBlockSize)
    (hstop : start < cfg.blockAlignedEnd r start stop) :
    (cfg.cacheBlockSize : Int) ∣ cfg.blockAlignedEnd r start stop ∨
    prefillEnd r ≤ cfg.blockAlignedEnd r start stop ∨
    cfg.blockAlignedEnd r start stop / cfg.cacheBlockSize = start / cfg.cacheBlockSize ∧
    cfg.maxPrefillTokens < cfg.cacheBlockSize := by
  have hpos : (0 : Int) < cfg.cacheBlockSize := by omega
  unfold blockAlignedEnd at hstop ⊢
  dsimp only at hstop ⊢
  split
  · exact .inl (Int.dvd_mul_left _ _)
  · rename_i hfree
    rw [if_neg hfree] at hstop
    by_cases hprefill : stop < prefillEnd r
    · obtain ⟨hinside, hwide⟩ : stop / cfg.cacheBlockSize * cfg.cacheBlockSize ≤ start ∧
          cfg.maxPrefillTokens < cfg.cacheBlockSize := by
        simp only [hprefill, true_and, not_or, not_lt, not_le] at hfree
        exact hfree
      refine .inr (.inr ⟨?_, hwide⟩)
      refine le_antisymm ((Int.le_ediv_iff_mul_le hpos).mpr hinside) ?_
      exact Int.ediv_le_ediv hpos (Int.le_of_lt hstop)
    · exact .inr (.inl (Int.not_lt.mp hprefill))

theorem mambaSplitFrom_endsWhereCached (valid : 0 < cfg.cacheBlockSize) (hprefill : start < prefillEnd r)
    (numNewTokens : Int) : cfg.EndsWhereCached r start numNewTokens
    (cfg.mambaSplitFrom r start numNewTokens) := by
  have hpos : (0 : Int) < cfg.cacheBlockSize := by omega
  rw [mambaSplitFrom_eq hprefill]
  have hend : ∀ s, start ≤ s → cfg.chunkEnd r start (start + numNewTokens) ≤ s →
      start + max (cfg.chunkEnd r start (start + numNewTokens) - start) 0 ≤ s := by
    intro s hstart hle
    omega
  have hstop : ∀ s, start < s → cfg.chunkEnd r start (start + numNewTokens) ≤ s →
      start + max (cfg.chunkEnd r start (start + numNewTokens) - start) 0 ≤ s :=
    fun s hstart => hend s (Int.le_of_lt hstart)
  refine ⟨fun hinside hplain => ?_, fun hchunk hbefore => ?_, fun hstart => ?_,
    fun hlast hprompt hstart => ?_, fun hstart hbefore hjunction => ?_⟩
  · have hnext : start < cfg.nextBlockBoundary start := Int.lt_ediv_add_one_mul_self _ hpos
    refine hstop _ hnext (earliestStop_le_of_mem (mem_cons.mpr (.inl ?_)) hnext)
    rw [if_pos ⟨fun h => hinside (Int.dvd_of_emod_eq_zero h), by simp [hplain]⟩]
  · obtain ⟨hlt, hsame⟩ : start < cfg.chunkEnd r start (start + numNewTokens) ∧
        start + max (cfg.chunkEnd r start (start + numNewTokens) - start) 0 =
          cfg.chunkEnd r start (start + numNewTokens) := by omega
    rw [hsame] at hbefore ⊢
    rcases chunkEnd_cases r start (start + numNewTokens) with haligned | hstops
    · rw [haligned] at hlt hbefore ⊢
      rcases blockAlignedEnd_cases _ valid hlt with hdvd | hprefill | hwide
      · exact .inl hdvd
      · exact absurd hbefore (Int.not_lt.mpr hprefill)
      · exact .inr (.inr (.inr hwide))
    · exact hstops.imp_right fun h => h.imp_right .inl
  · refine hstop _ hstart (earliestStop_le_of_mem ?_ hstart)
    exact mem_cons_of_mem _ mem_cons_self
  · refine hstop _ hstart (earliestStop_le_of_mem ?_ hstart)
    rw [mem_cons, mem_cons, mem_cons]
    exact .inr (.inr (.inl (if_pos ⟨hlast, hprompt⟩).symm))
  · have hle : cfg.chunkEnd r start (start + numNewTokens) ≤
        cfg.blockAlignedEnd r start (start + numNewTokens) := earliestStop_le _ _ _
    refine hstop _ hjunction (earliestStop_le_of_mem ?_ hjunction)
    rw [mem_cons, mem_cons, mem_cons, mem_singleton]
    exact .inr (.inr (.inr (if_pos ⟨hstart, by omega⟩).symm))

theorem mambaSplitFrom_nonneg (r : Request) (start : Int) (numNewTokens : Nat) :
    0 ≤ cfg.mambaSplitFrom r start numNewTokens := by
  by_cases hprefill : start < prefillEnd r
  · rw [mambaSplitFrom_eq hprefill]
    exact le_max_right _ _
  · have hdecode : cfg.mambaSplitFrom r start numNewTokens = numNewTokens :=
      if_pos (Int.not_lt.mp hprefill)
    rw [hdecode]
    exact Int.natCast_nonneg _

/-- A chunk is clipped, and one that begins in prefill ends where its state is cached. -/
theorem mambaBlockAlignedSplit_ends (valid : 0 < cfg.cacheBlockSize) (r : Request)
    (numNewTokens numNewLocalComputedTokens numExternalComputedTokens : Nat) :
    0 ≤ cfg.mambaBlockAlignedSplit r numNewTokens numNewLocalComputedTokens
    numExternalComputedTokens ∧ cfg.mambaBlockAlignedSplit r numNewTokens numNewLocalComputedTokens
    numExternalComputedTokens ≤ numNewTokens ∧
    (r.numComputedTokens + numNewLocalComputedTokens + numExternalComputedTokens < prefillEnd r →
    cfg.EndsWhereCached r
    (r.numComputedTokens + numNewLocalComputedTokens + numExternalComputedTokens)
    numNewTokens (cfg.mambaBlockAlignedSplit r numNewTokens numNewLocalComputedTokens
    numExternalComputedTokens)) := by
  refine ⟨mambaSplitFrom_nonneg r _ _, ?_, fun hprefill =>
    mambaSplitFrom_endsWhereCached valid hprefill _⟩
  exact (cfg.mambaBlockAlignedSplit_le valid r _ _ _).trans_eq
    (max_eq_left (Int.natCast_nonneg _))

def partialHits : SchedulerConfig where
  maxNumRunningReqs := 1
  maxNumActiveReqs := 1
  maxNumScheduledTokens := 64
  maxNumBatchedTokens := 64
  maxModelLen := 128
  hashBlockSize := 4
  needMambaBlockAlignedSplit := true
  mambaPartialCacheHit := true

theorem partialHits_ends :
    0 ≤ partialHits.mambaBlockAlignedSplit (.new "a" (List.replicate 30 0) 1) (20 : Nat) 3 0 ∧
    partialHits.mambaBlockAlignedSplit (.new "a" (List.replicate 30 0) 1) (20 : Nat) 3 0 ≤ 20 ∧
    partialHits.EndsWhereCached (.new "a" (List.replicate 30 0) 1) 3 20
    (partialHits.mambaBlockAlignedSplit (.new "a" (List.replicate 30 0) 1) (20 : Nat) 3 0) := by
  have valid : 0 < partialHits.cacheBlockSize := by decide
  obtain ⟨hnonneg, hle, hends⟩ := mambaBlockAlignedSplit_ends valid
    (.new "a" (List.replicate 30 0) 1) 20 3 0
  exact ⟨hnonneg, hle, hends (by decide)⟩

def resumed : Request :=
  { Request.new "a" (List.replicate 30 0) 64 with
    allTokenIds := List.replicate 64 0, numComputedTokens := 16 }

/-- The replay of output tokens runs past the last hash boundary of the prompt. -/
theorem resumed_passes_tail : resumed.numComputedTokens < prefillEnd resumed ∧
    resumed.numComputedTokens < partialHits.tailBoundary resumed 16 (16 + 48) ∧
    partialHits.tailBoundary resumed 16 (16 + 48) <
    resumed.numComputedTokens + partialHits.mambaBlockAlignedSplit resumed 48 0 0 := by
  decide +kernel

end SchedulerConfig

end VllmAmpere.Sched
