import Mathlib.Data.Rat.Floor
import VllmAmpere.RowRefills

/-! The rows of the batch, and the states that the logits processors keep for them, over
whole runs: they are what the requests of the batch ask for. -/

open List Function

namespace VllmAmpere.PersistentBatch

variable {F S T : Type}

section Rebuild

variable (c : Rows (RowRequest F))

/-- The update that adds the requests of the first rows to an empty batch. -/
def rebuild (n : Nat) : BatchUpdate (SamplingParams F) where
  batchSize := n
  removed := []
  added := (List.range n).filterMap fun i =>
    (c i).map fun r => ⟨i, r.params, r.promptTokIds, r.outputTokIds⟩
  moved := []

theorem rebuild_distinct (n : Nat) :
    ((rebuild c n).added.map (·.index)).Nodup := by
  have rows : (rebuild c n).added.map (·.index) =
      (List.range n).filter fun i => (c i).isSome := by
    simp only [rebuild, map_filterMap, Option.map_map]
    rw [← filterMap_eq_filter]
    congr 1
    funext i
    cases there : c i <;> simp [Option.guard, there]
  rw [rows]
  exact nodup_range.filter _

theorem rebuild_adds (n i : Nat) :
    Rows.adds (fun _ => none) ((rebuild c n).added.map AddedRequest.rowAdd) i =
    if i < n then c i else none := by
  induction n with
  | zero => rfl
  | succ n ih =>
    have next : (rebuild c (n + 1)).added = (rebuild c n).added ++
        ((c n).map fun r => ⟨n, r.params, r.promptTokIds, r.outputTokIds⟩).toList := by
      simp only [rebuild, range_succ, filterMap_append]
      congr 1
    rw [next, map_append, Rows.adds_append]
    by_cases here : i = n
    · subst here
      rw [if_pos (Nat.lt_succ_self i)]
      cases there : c i with
      | none =>
        rw [if_neg (Nat.lt_irrefl i)] at ih
        exact ih
      | some r => exact update_self ..
    · have rest : ∀ y ∈ ((c n).map fun r => (⟨n, r.params, r.promptTokIds, r.outputTokIds⟩ :
          AddedRequest (SamplingParams F))).toList.map AddedRequest.rowAdd, y.1 ≠ i := by
        cases c n with
        | none => exact nofun
        | some r =>
          intro y mem
          cases mem_singleton.mp mem
          exact Ne.symm here
      rw [Rows.adds_off rest, ih]
      exact if_congr (by omega) rfl rfl

theorem rebuild_log {c : Rows (RowRequest F)} {n : Nat} (behind : ∀ i, n ≤ i → c i = none) :
    RowLog (fun _ => none) (rebuild c n).removed ((rebuild c n).added.map AddedRequest.rowAdd)
      ((rebuild c n).moved.map MovedRequest.rowMove) c where
  kept := by
    intro i _
    refine (rebuild_adds c n i).trans ?_
    split
    · rfl
    next outside => exact (behind i (Nat.le_of_not_lt outside)).symm
  free := nofun
  added_live := fun _ _ => not_mem_nil
  moved_live := nofun

end Rebuild

namespace Runner

section Named

def Named (kept : KeptRequests F S) : Prop := ∀ id k, kept id = some k → k.request.reqId = id

variable {config : BatchConfig F S}

theorem Named.removeOne {s s' : Batch F S} {id : ReqId}
    (h : Named s.2) (removed : Runner.removeOne config s id = some s') : Named s'.2 := by
  obtain ⟨b, -, rfl⟩ := Option.map_eq_some_iff.mp removed
  intro id' k found
  simp only [update_apply] at found
  split at found
  · cases found
  · exact h id' k found

theorem Named.addOne [Zero S] {heap : Heap} {s s' : Batch F S}
    {op : AddOp F} (h : Named s.2) (done : Runner.addOne config heap s op = some s') :
    Named s'.2 := by
  cases op with
  | add request =>
    simp only [Runner.addOne, Option.ite_none_right_eq_some] at done
    obtain ⟨b, -, rfl⟩ := Option.map_eq_some_iff.mp done.2
    intro id k found
    simp only [update_apply] at found
    split at found
    next here =>
      cases found
      exact here.symm
    next => exact h id k found
  | draft id drafts =>
    obtain ⟨b, -, rfl⟩ := Option.map_eq_some_iff.mp done
    intro id' k found
    simp only [KeptRequests.draft, update_apply] at found
    split at found
    next here =>
      obtain ⟨old, there, rfl⟩ := Option.map_eq_some_iff.mp found
      exact (h id old there).trans here.symm
    next => exact h id' k found

theorem Named.fill [Zero S] {s s' : Batch F S} {input : StepInput F}
    (h : Named s.2) (filled : Runner.fill config s input = some s') : Named s'.2 := by
  obtain ⟨t, removals, adds⟩ := Option.bind_eq_some_iff.mp filled
  have removed : Named t.2 :=
    foldlM_keeps (P := fun b => Named b.2) h (fun _ _ _ h one => h.removeOne one) removals
  exact foldlM_keeps (P := fun b => Named b.2) removed (fun _ _ _ h one => h.addOne one) adds

end Named

section States

variable [Zero F] [DecidableEq F] [Zero S] [DecidableEq S] {config : RunConfig F S T}
  {s s' : Runner F S T} {input : StepInput F}

/-- No request whose min_p is zero in float32 only takes the row of a removed request
whose min_p is not. -/
def KeepsCount (config : RunConfig F S T) (s : Runner F S T) (input : StepInput F) : Prop :=
  ∀ x ∈ refills s.batch input, ∀ params ∈ x.2.samplingParams,
    params.minP ≠ 0 → config.batch.float32 params.minP = 0 →
    ∀ r ∈ s.contents x.1, config.batch.float32 r.params.minP = 0

omit [DecidableEq F] [DecidableEq S] in
theorem KeepsCount.of_survives (survives : ∀ request, .add request ∈ input.adds →
    ∀ params ∈ request.samplingParams, params.minP ≠ 0 → config.batch.float32 params.minP ≠ 0) :
    KeepsCount config s input := by
  intro x mem params given param underflow
  obtain ⟨op, added, request⟩ := mem_filterMap.mp (of_mem_zip mem).2
  cases op with
  | draft => cases request
  | add request' =>
    cases request
    exact absurd underflow (survives _ added params given param)

/-- The states of the processors are those of the requests in the rows. -/
structure Invariant (config : RunConfig F S T) (s : Runner F S T) : Prop where
  rested : Rested config s
  named : Named s.kept
  entries : config.batch.isPoolingModel = false →
    entryRows s.entries = Rows.project (RowRequest.entry config.newState) s.contents
  minToks : config.batch.isPoolingModel = false → entryRows s.minToks =
    Rows.project (RowRequest.entry (MinTokens.addRequest s.heap)) s.contents
  minP : config.batch.isPoolingModel = false →
    MinP.Shows config.batch.float32 s.minP s.contents

omit [Zero F] [DecidableEq F] [DecidableEq S] in
theorem contents_init (heap : Heap) :
    (Runner.init config.batch heap : Runner F S T).contents = fun _ => none :=
  rfl

omit [Zero F] [DecidableEq F] [DecidableEq S] in
theorem Invariant.init (heap : Heap) : Invariant config (Runner.init config.batch heap) := by
  have start : (Runner.init config.batch heap : Runner F S T).contents = fun _ => none :=
    contents_init heap
  exact {
    rested := Rested.init heap
    named := fun _ _ found => nomatch found
    entries := fun _ => by
      rw [start]
      exact funext fun _ => rfl
    minToks := fun _ => by
      rw [start]
      exact funext fun _ => rfl
    minP := fun _ => by
      rw [start]
      exact ⟨funext fun _ => rfl, Counts.zero⟩ }

omit [Zero F] [DecidableEq F] [Zero S] [DecidableEq S] in
theorem contents_behind {i : Nat} (far : s.batch.reqIds.length ≤ i) : s.contents i = none := by
  rw [contents, InputBatch.contents, Rows.project]
  have empty : s.batch.idAt i = none := Rows.ofList_behind far
  rw [empty]
  rfl

omit [DecidableEq F] [DecidableEq S] in
theorem Invariant.spared (h : Invariant config s) (keeps : KeepsCount config s input)
    (generative : config.batch.isPoolingModel = false) {filled : Batch F S}
    (fill : Runner.fill config.batch (s.batch, s.kept) input = some filled) :
    ∀ x ∈ filled.1.batchUpdateBuilder.added, MinP.Spared config.batch.float32 s.minP x := by
  intro x mem param underflow
  rw [(h.minP generative).cpu, MinP.shown]
  rcases h.rested.added_row fill x mem with ⟨request, refilled, given⟩ | far
  · cases there : s.contents x.index with
    | none => rfl
    | some r => exact keeps _ refilled x.params given param underflow r there
  · rw [contents_behind far]
    rfl

theorem Invariant.step (zero : config.batch.float32 0 = 0) (h : Invariant config s)
    (keeps : KeepsCount config s input) (grows : MinTokens.Grows s.heap input.heap)
    (step : s.step config input = some s') : Invariant config s' := by
  obtain ⟨filled, dense, final, steps⟩ := h.rested.steps step
  have ⟨kept, heap, _⟩ := steps.batch
  refine {
    rested := h.rested.step step
    named := kept ▸ h.named.fill steps.fill
    entries := fun generative => ?_
    minToks := fun generative => ?_
    minP := fun generative => ?_ }
  all_goals obtain ⟨update, passed⟩ := steps.passed generative
  · rw [passed.entries]
    cases update with
    | none => rw [passed.unchanged rfl]; exact h.entries generative
    | some u => exact processDictUpdates_log (h.entries generative) (passed.log u rfl)
  · rw [passed.minToks, heap]
    cases update with
    | none => rw [passed.unchanged rfl]; exact MinTokens.updateState_none grows (h.minToks generative)
    | some u => exact MinTokens.updateState_log grows (h.minToks generative) (passed.log u rfl)
  · rw [passed.minP]
    cases update with
    | none => rw [passed.unchanged rfl]; exact h.minP generative
    | some u =>
      have added := passed.added u rfl
      refine (h.minP generative).updateState zero ?_ ?_ (passed.oneWay steps) (passed.log u rfl)
      · rw [added]
        exact steps.fillPhase.rows.distinct
      · rw [added]
        exact h.spared keeps generative steps.fill

end States

section Scratch

variable [Zero F] [DecidableEq F] [Zero S] [DecidableEq S] {config : RunConfig F S T}
  {s : Runner F S T}

/-- The rows are those of the requests of the batch, without a gap, and each processor
has the state that building it for these rows gives. -/
structure RowsHold (config : RunConfig F S T) (s : Runner F S T) : Prop where
  live : ∀ i, i < s.batch.numReqs ↔ s.batch.idAt i ≠ none
  index : Inverse s.batch.reqIdToIndex s.batch.idAt
  rows : ∀ i id, s.batch.idAt i = some id → ∃ k, s.kept id = some k ∧ k.request.reqId = id ∧
    s.batch.row config.batch i = k.row
  entries : config.batch.isPoolingModel = false → ∀ i, s.entries.get? i =
    (processDictUpdates config.truthy config.newState PyDict.empty
      (some (rebuild s.contents s.batch.numReqs))).1.get? i
  minToks : config.batch.isPoolingModel = false → ∀ i, s.minToks.get? i =
    (MinTokens.updateState s.heap PyDict.empty
      (some (rebuild s.contents s.batch.numReqs))).get? i
  minP : config.batch.isPoolingModel = false → s.minP =
    MinP.init.updateState config.batch.float32 (some (rebuild s.contents s.batch.numReqs))

theorem Invariant.rowsHold (zero : config.batch.float32 0 = 0) (h : Invariant config s) :
    RowsHold config s := by
  have length : s.batch.reqIds.length = s.batch.numReqs :=
    (h.rested.packed.length_eq h.rested.coherent).symm
  have live : ∀ i, i < s.batch.numReqs ↔ s.batch.idAt i ≠ none := length ▸ h.rested.packed
  have log := rebuild_log (c := s.contents) (n := s.batch.numReqs) fun i far =>
    contents_behind (length ▸ far)
  exact {
    live := live
    index := h.rested.coherent.index
    rows := by
      intro i id there
      obtain ⟨k, found, row⟩ := h.rested.coherent.rows i id there
      exact ⟨k, found, h.named id k found, row⟩
    entries := fun generative i => by
      have scratch : entryRows (PyDict.empty : PyDict Nat T) =
          Rows.project (RowRequest.entry config.newState) fun _ => none := rfl
      exact congrFun ((h.entries generative).trans (processDictUpdates_log scratch log).symm) i
    minToks := fun generative i => by
      have scratch : entryRows (PyDict.empty : PyDict Nat MinTokens.Entry) =
          Rows.project (RowRequest.entry (MinTokens.addRequest s.heap))
            fun _ : Nat => (none : Option (RowRequest F)) := rfl
      have grows : MinTokens.Grows s.heap s.heap := fun _ => Nat.le_refl _
      exact congrFun ((h.minToks generative).trans
        (MinTokens.updateState_log grows scratch log).symm) i
    minP := fun generative => by
      have scratch : MinP.Shows config.batch.float32 MinP.init fun _ => none :=
        ⟨rfl, Counts.zero⟩
      exact (h.minP generative).unique (scratch.updateState zero (rebuild_distinct _ _)
        (fun _ _ _ _ => rfl) nofun log) }

/-- In a run whose steps all keep the count, the rows and the states of the processors
hold after every step. -/
theorem reachable_rowsHold (zero : config.batch.float32 0 = 0)
    (h : ((runnerRuns config).meeting (KeepsCount config)).Reachable s) : RowsHold config s := by
  have inv : Invariant config s := by
    refine h.invariant ?_ ?_
    · rintro s ⟨heap, rfl⟩
      exact Invariant.init heap
    · rintro s input s' - h ⟨keeps, grows, step⟩
      exact h.step zero keeps grows step
  exact inv.rowsHold zero

end Scratch

section Underflow

def roundToLeast (x : ℚ) : ℚ := ⌊x * 2 ^ 149 + 1 / 2⌋ / 2 ^ 149

def smallConfig : RunConfig ℚ ℚ Unit where
  batch := {
    maxNumReqs := 2
    maxModelLen := 4
    vocabSize := 8
    isPoolingModel := false
    useReplayssm := false
    blocksPerKvBlock := [1]
    float32 := roundToLeast }
  reasoning := ⟨[], []⟩
  truthy := fun _ => true
  newState := fun _ _ _ => none

def paramsOf (minP : ℚ) : SamplingParams ℚ where
  samplingType := .random
  temperature := 1
  topP := 1
  topK := 0
  frequencyPenalty := 0
  presencePenalty := 0
  repetitionPenalty := 1
  minP := minP
  allowedTokenIds := none
  badWordsTokenIds := none
  logitBias := none
  minTokens := 0
  allStopTokenIds := []
  structuredOutputs := false
  thinkingTokenBudget := none

def requestOf (reqId : ReqId) (params : SamplingParams ℚ) : CachedRequestState ℚ where
  reqId := reqId
  promptTokenIds := some [1]
  promptEmbeds := none
  promptIsTokenIds := none
  samplingParams := some params
  poolingParams := false
  generator := none
  blockIds := [[1]]
  numComputedTokens := 0
  outputTokenIds := 0
  loraRequest := none

/-- A step that removes requests and adds others, none of which has any output. -/
def replacing (removals : List ReqId) (requests : List (CachedRequestState ℚ)) :
    StepInput ℚ where
  heap := fun _ => []
  progress := fun _ state => state
  removals := removals
  adds := requests.map .add
  swaps := []

/-- A step that adds requests to an empty batch, and one that replaces some of them. -/
def twoSteps (first : List (CachedRequestState ℚ)) (removals : List ReqId)
    (second : List (CachedRequestState ℚ)) : Option (Runner ℚ ℚ Unit) :=
  ((Runner.init smallConfig.batch fun _ => []).step smallConfig (replacing [] first)).bind
    fun s => s.step smallConfig (replacing removals second)

theorem twoSteps_reachable {P : Runner ℚ ℚ Unit → StepInput ℚ → Prop}
    {first second : List (CachedRequestState ℚ)} {removals : List ReqId} {s : Runner ℚ ℚ Unit}
    (run : twoSteps first removals second = some s)
    (start : P (Runner.init smallConfig.batch fun _ => []) (replacing [] first))
    (next : ∀ t, (Runner.init smallConfig.batch fun _ => []).step smallConfig
    (replacing [] first) = some t → P t (replacing removals second)) :
    ((runnerRuns smallConfig).meeting P).Reachable s := by
  obtain ⟨t, one, two⟩ := Option.bind_eq_some_iff.mp run
  have grows : ∀ heap : Heap, heap = (fun _ => []) → MinTokens.Grows heap fun _ => [] := by
    rintro heap rfl
    exact fun _ => Nat.le_refl _
  have reached : ((runnerRuns smallConfig).meeting P).Reachable
      (Runner.init smallConfig.batch fun _ => []) := .init ⟨_, rfl⟩
  have heap : t.heap = fun _ => [] := by
    obtain ⟨filled, -, rest⟩ := Option.bind_eq_some_iff.mp one
    obtain ⟨b, -, rfl⟩ := Option.map_eq_some_iff.mp rest
    rfl
  exact .step (.step reached ⟨start, grows _ rfl, one⟩) ⟨next t one, grows _ heap, two⟩

/-- A request with min_p 1/2 is added, and in the next step another one takes its row. -/
def replaced (minP : ℚ) : Option (Runner ℚ ℚ Unit) :=
  twoSteps [requestOf "a" (paramsOf (1 / 2))] ["a"] [requestOf "b" (paramsOf minP)]

theorem reachable_rowsHold_quarter : ∃ s, replaced (1 / 4) = some s ∧ RowsHold smallConfig s := by
  have some : (replaced (1 / 4)).isSome = true := by decide +kernel
  obtain ⟨s, run⟩ := Option.isSome_iff_exists.mp some
  have half : roundToLeast (1 / 2) ≠ 0 := by decide +kernel
  have quarter : roundToLeast (1 / 4) ≠ 0 := by decide +kernel
  have survives : ∀ t removals id minP, roundToLeast minP ≠ 0 →
      KeepsCount smallConfig t (replacing removals [requestOf id (paramsOf minP)]) := by
    intro t removals id minP some_left
    refine KeepsCount.of_survives fun request mem params given _ => ?_
    cases mem_singleton.mp mem
    cases given
    exact some_left
  exact ⟨s, run, reachable_rowsHold (by decide +kernel)
    (twoSteps_reachable run (survives _ _ _ _ half) fun t _ => survives t _ _ _ quarter)⟩

/-- A min_p of 2 ^ -200 that takes the row of a min_p of 1/2 stays counted as one that
is not zero. -/
theorem underflow_stays_counted : ∃ s, (runnerRuns smallConfig).Reachable s ∧
    s.minP.minPCount = 1 ∧ s.minP.minPCpu 0 = 0 ∧ ¬RowsHold smallConfig s := by
  have counts : (replaced (1 / 2 ^ 200)).map (fun s => (s.minP.minPCount, s.minP.minPCpu 0,
      (MinP.init.updateState smallConfig.batch.float32
        (some (rebuild s.contents s.batch.numReqs))).minPCount)) = some (1, 0, 0) := by
    decide +kernel
  obtain ⟨s, run, result⟩ := Option.map_eq_some_iff.mp counts
  simp only [Prod.mk.injEq] at result
  obtain ⟨count, row, scratch⟩ := result
  have reachable := twoSteps_reachable (P := fun _ _ => True) run trivial fun _ _ => trivial
  refine ⟨s, reachable.of_meeting, count, row, fun holds => ?_⟩
  have same := congrArg MinP.minPCount (holds.minP rfl)
  rw [count, scratch] at same
  cases same

end Underflow

end Runner

/-! The entries of the thinking budget holder over whole runs: they are those of the
requests in the rows, unless a request without a budget is condensed into the row of a
removed request that had one. -/

section Moves

theorem owners_progress (f : Nat → ThinkingState → ThinkingState) (d : Holder F) :
    owners (d.progress f) = owners d := by
  have looked : ∀ (items : List (Nat × Tracked F)) (i : Nat),
      ((items.map fun item => (item.1, { item.2 with state := f item.1 item.2.state })).lookup
        i).map (·.request) = (items.lookup i).map (·.request) := by
    intro items i
    induction items with
    | nil => rfl
    | cons item items ih =>
      rw [map_cons, lookup_cons_if, lookup_cons_if]
      split
      · rfl
      · exact ih
  funext i
  exact looked d.items i

theorem owners_swaps {moved : List MovedRequest} (swaps : ∀ m ∈ moved, m.direct = .swap)
    (d : Holder F) :
    owners (moved.foldl syncMoved d) = (owners d).moves (moved.map MovedRequest.rowMove) := by
  induction moved generalizing d with
  | nil => rfl
  | cons m moved ih =>
    obtain ⟨i1, i2, direct⟩ := m
    cases swaps _ mem_cons_self
    rw [foldl_cons, ih (fun m mem => swaps m (mem_cons_of_mem _ mem)), owners_swap]
    rfl

theorem owners_slides {moved : List MovedRequest} {d : Holder F}
    (slides : ∀ m ∈ moved, m.direct = .unidirectional) (apart : SlidesApart moved)
    (clean : ∀ m ∈ moved, owners d m.i1 = none → owners d m.i2 = none) :
    owners (moved.foldl syncMoved d) = (owners d).moves (moved.map MovedRequest.rowMove) := by
  induction moved generalizing d with
  | nil => rfl
  | cons m moved ih =>
    obtain ⟨i1, i2, direct⟩ := m
    cases slides _ mem_cons_self
    rw [SlidesApart, map_cons, pairwise_cons] at apart
    have first : owners (syncMoved d ⟨i1, i2, .unidirectional⟩) = (owners d).slide i1 i2 := by
      rw [owners_slide]
      split
      next absent =>
        have none_there := clean _ mem_cons_self absent
        funext j
        rw [Rows.slide_at, absent]
        split
        next here => rw [here, none_there]
        next =>
          split
          next here => rw [here, absent]
          next => rfl
      next => rfl
    rw [foldl_cons, ih (fun m mem => slides m (mem_cons_of_mem _ mem)) apart.2, first]
    · rfl
    · intro m mem absent
      have := apart.1 _ (mem_map_of_mem (f := MovedRequest.rowMove) mem)
      have direct := slides m (mem_cons_of_mem _ mem)
      simp only [MovedRequest.rowMove, direct, Rows.Apart, RowMove.src, RowMove.dst] at this
      rw [first, Rows.slide_at, if_neg this.2.2.1.symm, if_neg this.1.symm] at absent
      rw [first, Rows.slide_at, if_neg this.2.2.2.symm, if_neg this.2.1.symm]
      exact clean m (mem_cons_of_mem _ mem) absent

theorem owners_before_moves (reasoning : ReasoningConfig) {d : Holder F}
    {c : Rows (RowRequest F)} (h : owners d = Rows.project RowRequest.budgeted c)
    (removed : List Nat) (added : List (AddedRequest (SamplingParams F))) :
    owners (added.foldl (syncAdded reasoning) (removed.foldl PyDict.pop d)) =
    Rows.project RowRequest.budgeted ((c.clears removed).adds (added.map AddedRequest.rowAdd)) := by
  rw [owners_added, owners_removed, h, ← Rows.project_clears, Rows.project_adds, map_map]
  rfl

end Moves

namespace Runner

/-- No request without a thinking budget is condensed into the row of a removed request
that had one. -/
def KeepsOwners (s : Runner F S T) (input : StepInput F) : Prop :=
  ∀ x ∈ condensedRows s.batch input,
    (s.contents x.2).bind RowRequest.budgeted = none →
      (s.contents x.1).bind RowRequest.budgeted = none

instance (s : Runner F S T) (input : StepInput F) : Decidable (KeepsOwners s input) :=
  inferInstanceAs (Decidable (∀ x ∈ condensedRows s.batch input, _ → _))

variable [Zero F] [DecidableEq F] [Zero S] [DecidableEq S] {config : RunConfig F S T}
  {s s' : Runner F S T} {input : StepInput F}

theorem Steps.moved_paired {filled : Batch F S} {dense final : InputBatch F S}
    (h : Rested config s) (steps : Steps config s s' input filled dense final) :
    ∀ m ∈ dense.batchUpdateBuilder.moved, (m.i2, m.i1) ∈ condensedRows s.batch input := by
  intro m mem
  obtain ⟨removed, removals, adds⟩ := Option.bind_eq_some_iff.mp steps.fill
  have start := h.fillPhase
  have freed := start.freed h.added removals
  have phase := start.removals h.added removals
  have ⟨rows, length⟩ := phase.unfilled adds
  rw [freed.ascending h.removed phase.coherent.tidy] at rows
  have last : freedRows s.batch input.removals =
      (freedRows s.batch input.removals).take (input.adds.filterMap AddOp.request?).length ++
        ascending filled.1.batchUpdateBuilder := by
    rw [rows, take_append_drop]
  have sorted : (freedRows s.batch input.removals).Pairwise (· < ·) :=
    pairwise_lt_range.filter _
  have pair := condense_paired steps.fillPhase.coherent steps.fillPhase.filling
    steps.fillPhase.still sorted last steps.condense m mem
  have holes : ascending filled.1.batchUpdateBuilder ≠ [] := fun empty => by
    rw [empty] at pair
    cases pair
  rw [rows, length holes, freed.length] at pair
  exact mem_filter.mpr ⟨pair, decide_eq_true (steps.condensed.oneWay m mem).2⟩

theorem Steps.ends_kept {filled : Batch F S} {dense final : InputBatch F S}
    {u : BatchUpdate (SamplingParams F)} (h : Rested config s)
    (steps : Steps config s s' input filled dense final)
    (passed : Passed config s s' input filled dense (some u)) {m : MovedRequest}
    (mem : m ∈ dense.batchUpdateBuilder.moved) :
    let c := (s.contents.clears u.removed).adds (u.added.map AddedRequest.rowAdd)
    c m.i1 = s.contents m.i1 ∧ c m.i2 = s.contents m.i2 := by
  have pair := (mem_filter.mp (steps.moved_paired h m mem)).1
  have ⟨inside, stays⟩ := mem_descending.mp (of_mem_zip pair).2
  have direct := (steps.condensed.oneWay m mem).1
  obtain ⟨swaps, moved, -⟩ := passed.moved u rfl
  have logged : m.rowMove ∈ u.moved.map MovedRequest.rowMove := by
    rw [moved]
    exact mem_map_of_mem (mem_append_left _ mem)
  have live := (passed.log u rfl).moved_live _ logged
  simp only [MovedRequest.rowMove, direct, RowMove.src, RowMove.dst] at live
  have hole : filled.1.idAt m.i2 = none := by
    refine steps.fillPhase.coherent.freed m.i2 ((steps.condensed.filled m mem).resolve_left ?_)
    rw [steps.fillPhase.still]
    exact not_mem_nil
  have untouched : ∀ j, j ∉ u.removed → (∀ x ∈ u.added, x.index ≠ j) →
      ((s.contents.clears u.removed).adds (u.added.map AddedRequest.rowAdd)) j = s.contents j := by
    intro j live off
    have off : ∀ x ∈ u.added.map AddedRequest.rowAdd, x.1 ≠ j := by
      intro x mem
      obtain ⟨y, there, rfl⟩ := mem_map.mp mem
      exact off y there
    rw [Rows.adds_off off, Rows.clears_at, if_neg live]
  rw [passed.added u rfl] at untouched ⊢
  refine ⟨untouched _ live.1 fun x mem here => ?_, untouched _ live.2 fun x mem here => ?_⟩
  · rcases h.added_row steps.fill x mem with ⟨request, refilled, -⟩ | far
    · exact stays (here ▸ (of_mem_zip refilled).1)
    · rw [here] at far
      exact Nat.lt_irrefl _ (Nat.lt_of_lt_of_le inside far)
  · exact steps.fillPhase.rows.live x mem (here ▸ hole)

theorem owners_step (generative : config.batch.isPoolingModel = false) (h : Rested config s)
    (owned : owners s.holder = Rows.project RowRequest.budgeted s.contents)
    (keeps : KeepsOwners s input) (step : s.step config input = some s') :
    owners s'.holder = Rows.project RowRequest.budgeted s'.contents := by
  obtain ⟨filled, dense, final, steps⟩ := h.steps step
  obtain ⟨update, passed⟩ := steps.passed generative
  have progressed : owners (s.holder.progress input.progress) =
      Rows.project RowRequest.budgeted s.contents := (owners_progress ..).trans owned
  rw [passed.holder]
  cases update with
  | none =>
    rw [passed.unchanged rfl]
    exact progressed
  | some u =>
    have before := owners_before_moves config.reasoning progressed u.removed u.added
    obtain ⟨swaps, moved, all_swaps⟩ := passed.moved u rfl
    have clean : ∀ m ∈ dense.batchUpdateBuilder.moved,
        owners (u.added.foldl (syncAdded config.reasoning)
          (u.removed.foldl PyDict.pop (s.holder.progress input.progress))) m.i1 = none →
        owners (u.added.foldl (syncAdded config.reasoning)
          (u.removed.foldl PyDict.pop (s.holder.progress input.progress))) m.i2 = none := by
      intro m mem
      have ⟨source, target⟩ := steps.ends_kept h passed mem
      rw [before, Rows.project, Rows.project, source, target]
      exact keeps _ (steps.moved_paired h m mem)
    rw [syncBatch, moved, foldl_append, owners_swaps all_swaps,
      owners_slides (fun m mem => (steps.condensed.oneWay m mem).1) steps.condensed.apart clean,
      before, ← Rows.project_moves, ← Rows.project_moves, ← Rows.moves_append, ← map_append,
      ← moved, (passed.log u rfl).replay_cleared_first]

/-- In a run whose steps all keep the owners, each row has an entry exactly when its
request has a budget, and then it is the entry of that request. -/
theorem reachable_owned (generative : config.batch.isPoolingModel = false)
    (h : ((runnerRuns config).meeting KeepsOwners).Reachable s) : (∀ i, (s.holder.get? i).isSome ↔
    ∃ r, s.contents i = some r ∧ r.params.thinkingTokenBudget.isSome) ∧
    ∀ i entry, s.holder.get? i = some entry → s.contents i = some entry.request := by
  have inv : Rested config s ∧ owners s.holder = Rows.project RowRequest.budgeted s.contents := by
    refine h.invariant (P := fun s => Rested config s ∧
      owners s.holder = Rows.project RowRequest.budgeted s.contents) ?_ ?_
    · rintro s ⟨heap, rfl⟩
      refine ⟨Rested.init heap, ?_⟩
      rw [contents_init]
      exact funext fun _ => rfl
    · rintro s input s' - ⟨rested, owned⟩ ⟨keeps, -, step⟩
      exact ⟨rested.step step, owners_step generative rested owned keeps step⟩
  have at_row : ∀ i, (s.holder.get? i).map (·.request) =
      (s.contents i).bind RowRequest.budgeted := congrFun inv.2
  constructor
  · intro i
    rw [← Option.isSome_map (f := fun entry : Tracked F => entry.request), at_row i]
    cases s.contents i with
    | none => simp
    | some r => simp [RowRequest.budgeted]
  · intro i entry found
    have owned := at_row i
    rw [found] at owned
    obtain ⟨r, there, budgeted⟩ := Option.bind_eq_some_iff.mp owned.symm
    obtain ⟨budget, -, same⟩ := Option.map_eq_some_iff.mp budgeted
    exact there.trans (congrArg some same)

def budgetParams (budget : Option Int) : SamplingParams ℚ :=
  { paramsOf 0 with thinkingTokenBudget := budget }

def condensedOver (budget : Option Int) : Option (Runner ℚ ℚ Unit) :=
  twoSteps [requestOf "a" (budgetParams (some 5)), requestOf "b" (budgetParams budget)] ["a"] []

theorem reachable_owned_budgets : ∃ s, condensedOver (some 7) = some s ∧
    (∀ i, (s.holder.get? i).isSome ↔
    ∃ r, s.contents i = some r ∧ r.params.thinkingTokenBudget.isSome) ∧
    ∀ i entry, s.holder.get? i = some entry → s.contents i = some entry.request := by
  have some : (condensedOver (some 7)).isSome = true := by decide +kernel
  obtain ⟨s, run⟩ := Option.isSome_iff_exists.mp some
  have second : ((Runner.init smallConfig.batch fun _ => []).step smallConfig
      (replacing [] [requestOf "a" (budgetParams (.some 5)), requestOf "b" (budgetParams
        (.some 7))])).all (fun t => decide (KeepsOwners t (replacing ["a"] []))) = true := by
    decide +kernel
  refine ⟨s, run, reachable_owned rfl (twoSteps_reachable run (by decide +kernel) ?_)⟩
  intro t one
  rw [one, Option.all_some] at second
  exact of_decide_eq_true second

/-- A request without a budget has the entry of the removed request whose row it was
condensed into. -/
theorem condensed_inherits_budget : ∃ s entry, (runnerRuns smallConfig).Reachable s ∧
    s.holder.get? 0 = some entry ∧ entry.state.thinkingTokenBudget = 5 ∧
    ∃ r, s.contents 0 = some r ∧ r.params.thinkingTokenBudget = none := by
  have rows : (condensedOver none).map (fun s =>
      ((s.holder.get? 0).map (·.state.thinkingTokenBudget),
        (s.contents 0).map (·.params.thinkingTokenBudget))) = some (some 5, some none) := by
    decide +kernel
  obtain ⟨s, run, result⟩ := Option.map_eq_some_iff.mp rows
  simp only [Prod.mk.injEq, Option.map_eq_some_iff] at result
  obtain ⟨⟨entry, there, budget⟩, r, here, no_budget⟩ := result
  have reachable := twoSteps_reachable (P := fun _ _ => True) run trivial fun _ _ => trivial
  exact ⟨s, entry, reachable.of_meeting, there, budget, r, here, no_budget⟩

end Runner

end VllmAmpere.PersistentBatch
