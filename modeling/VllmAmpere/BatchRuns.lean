import VllmAmpere.ThinkingBudget
import VllmAmpere.TransitionSystem

/-! The builder's log while requests are removed and added. -/

open List Function

namespace VllmAmpere.PersistentBatch

variable {F S : Type} {config : BatchConfig F S} {b b' : InputBatch F S}
  {kept : KeptRequests F S} {c₀ : Rows (RowRequest F)}

section Contents

theorem contents_remove (h : Coherent config b kept) {id : ReqId} {i : Nat}
    (there : b.idAt i = some id) (rows : b'.idAt = Function.update b.idAt i none) :
    b'.contents (Function.update kept id none) = Function.update (b.contents kept) i none := by
  funext j
  rw [InputBatch.contents, Rows.project, rows, Rows.update_at, Rows.update_at]
  split
  · rfl
  next other =>
    rw [InputBatch.contents, Rows.project]
    cases here : b.idAt j with
    | none => rfl
    | some id' =>
      have different : id' ≠ id := by
        rintro rfl
        exact other (h.index.unique here there)
      rw [Option.bind_some, Option.bind_some, update_of_ne different]

theorem contents_add (h : Coherent config b kept) {request : CachedRequestState F} {i : Nat}
    {row : BatchRow S} (new : b.reqIdToIndex.get? request.reqId = none)
    (rows : b'.idAt = Function.update b.idAt i (some request.reqId)) :
    b'.contents (Function.update kept request.reqId (some ⟨request, row⟩)) =
    Function.update (b.contents kept) i request.rowRequest := by
  funext j
  rw [InputBatch.contents, Rows.project, rows, Rows.update_at, Rows.update_at]
  split
  · rw [Option.bind_some, update_self]
    rfl
  · rw [InputBatch.contents, Rows.project]
    cases here : b.idAt j with
    | none => rfl
    | some id' =>
      have different : id' ≠ request.reqId := by
        rintro rfl
        exact h.index.absent new j here
      rw [Option.bind_some, Option.bind_some, update_of_ne different]

theorem contents_draft (kept : KeptRequests F S) {id : ReqId} {drafts : List Int}
    (rows : b'.idAt = b.idAt) : b'.contents (kept.draft id drafts) = b.contents kept := by
  rw [InputBatch.contents, InputBatch.contents, rows]
  congr 1
  funext id'
  unfold KeptRequests.draft
  by_cases same : id' = id
  · rw [same, update_self]
    cases kept id <;> rfl
  · rw [update_of_ne same]

end Contents

theorem Logged.remove (h : Coherent config b kept) (logged : Logged c₀ b kept)
    (added : b.batchUpdateBuilder.added = []) (moved : b.batchUpdateBuilder.moved = [])
    {id : ReqId} (removed : b.removeRequest config id = some b') :
    Logged c₀ b' (Function.update kept id none) ∧
    b'.batchUpdateBuilder.added = [] ∧ b'.batchUpdateBuilder.moved = [] := by
  rcases removeRequest_some removed with ⟨absent, rfl⟩ | ⟨i, found, ids, builder⟩
  · have unchanged : Function.update kept id none = kept := by
      rw [update_eq_self_iff]
      exact (h.known id absent).symm
    rw [unchanged]
    exact ⟨logged, added, moved⟩
  · have there := (h.index id i).mp found
    have rows : b'.idAt = Function.update b.idAt i none := by
      rw [InputBatch.idAt, ids]
      exact Rows.ofList_set _ (Rows.lt_of_ofList there) _
    rw [builder]
    refine ⟨?_, added, moved⟩
    unfold Logged at logged ⊢
    rw [builder, contents_remove h there rows]
    rw [added, moved] at logged ⊢
    exact RowLog.remove logged i

/-- The rows that were added to are in use, and none was added to twice. -/
structure AddedRows (b : InputBatch F S) : Prop where
  distinct : (b.batchUpdateBuilder.added.map (·.index)).Nodup
  live : ∀ x ∈ b.batchUpdateBuilder.added, b.idAt x.index ≠ none

section Add

variable [Zero S] {heap : Heap} {request : CachedRequestState F}

theorem Logged.add (h : Coherent config b kept) (filling : Filling b)
    (logged : Logged c₀ b kept) (still : b.batchUpdateBuilder.moved = [])
    (new : b.reqIdToIndex.get? request.reqId = none)
    (params : request.samplingParams.isSome = true) {row : BatchRow S}
    (added : b.addRequest config heap request = some b') :
    Logged c₀ b' (Function.update kept request.reqId (some ⟨request, row⟩)) ∧
    b'.batchUpdateBuilder.moved = [] := by
  obtain ⟨i, b₁, b₂, tokens, sampling, registered, placed, -, -, rfl⟩ := addRequest_some added
  have p := h.place filling registered placed
  obtain ⟨given, hgiven⟩ := Option.isSome_iff_exists.mp params
  refine ⟨?_, p.moved.trans still⟩
  unfold Logged at logged
  show RowLog c₀ b₂.batchUpdateBuilder.removedRows
    (b₂.batchUpdateBuilder.added.map AddedRequest.rowAdd)
    (b₂.batchUpdateBuilder.moved.map MovedRequest.rowMove) (b₂.contents _)
  rw [contents_add h new p.idAt, p.added, p.moved, map_append]
  rw [still] at logged ⊢
  have value : request.rowRequest =
      some ⟨given, request.promptTokenIds, request.outputTokenIds⟩ := by
    rw [CachedRequestState.rowRequest, hgiven]
    rfl
  rw [hgiven, value]
  exact RowLog.add logged _ p.left

theorem AddedRows.add (h : Coherent config b kept) (filling : Filling b) (rows : AddedRows b)
    (added : b.addRequest config heap request = some b') : AddedRows b' := by
  obtain ⟨i, b₁, b₂, tokens, sampling, registered, placed, -, -, rfl⟩ := addRequest_some added
  have p := h.place filling registered placed
  have at_row : ∀ j, ({ b₂ with tokens, sampling := InputBatch.acceptOne sampling i } :
      InputBatch F S).idAt j = if j = i then some request.reqId else b.idAt j := fun j =>
    (congrFun p.idAt j).trans (Rows.update_at ..)
  have entries : ∀ x ∈ (request.samplingParams.map fun params =>
      (⟨i, params, request.promptTokenIds, request.outputTokenIds⟩ :
        AddedRequest (SamplingParams F))).toList, x.index = i := by
    intro x mem
    obtain ⟨params, -, rfl⟩ := Option.map_eq_some_iff.mp (Option.mem_toList.mp mem)
    rfl
  refine ⟨?_, fun x mem => ?_⟩
  · simp only [p.added, map_append]
    refine nodup_append.mpr ⟨rows.distinct, ?_, ?_⟩
    · cases request.samplingParams with
      | none => exact nodup_nil
      | some params => exact nodup_singleton _
    · rintro j before k last rfl
      obtain ⟨x, mem, rfl⟩ := mem_map.mp before
      obtain ⟨y, here, same⟩ := mem_map.mp last
      rw [entries y here] at same
      exact rows.live x mem (same ▸ p.row_free)
  · rw [at_row]
    split
    · exact nofun
    next other =>
      simp only [p.added] at mem
      rcases mem_append.mp mem with old | last
      · exact rows.live x old
      · exact absurd (entries x last) other

end Add

section Draft

theorem Logged.draft (logged : Logged c₀ b kept) {id : ReqId} {drafts : List Int}
    (updated : b.updateReqSpecTokenIds config id drafts = some b') :
    Logged c₀ b' (kept.draft id drafts) := by
  obtain ⟨i, d⟩ := updateReqSpecTokenIds_some updated
  have builder : b'.batchUpdateBuilder = b.batchUpdateBuilder := by rw [d.rest]
  have rows : b'.idAt = b.idAt := by rw [d.rest]; rfl
  unfold Logged
  rw [builder, contents_draft kept rows]
  exact logged

theorem AddedRows.draft (rows : AddedRows b) {id : ReqId} {drafts : List Int}
    (updated : b.updateReqSpecTokenIds config id drafts = some b') : AddedRows b' := by
  obtain ⟨i, d⟩ := updateReqSpecTokenIds_some updated
  rw [d.rest]
  exact ⟨rows.distinct, rows.live⟩

end Draft

end VllmAmpere.PersistentBatch

/-! A model runner's steps: requests are removed, added and given drafts, the batch is
condensed and reordered, and `refresh_metadata` passes the batch update on to the
thinking budget holder and to the logits processors. -/

namespace VllmAmpere

theorem foldlM_keeps {α β : Type} {f : β → α → Option β} {P : β → Prop} {l : List α} {s s' : β}
    (start : P s) (round : ∀ s a s', P s → f s a = some s' → P s')
    (run : l.foldlM f s = some s') : P s' := by
  induction l generalizing s with
  | nil =>
    cases run
    exact start
  | cons a l ih =>
    rw [foldlM_cons] at run
    obtain ⟨t, first, rest⟩ := Option.bind_eq_some_iff.mp run
    exact ih (round s a t start first) rest

end VllmAmpere

namespace VllmAmpere.PersistentBatch

variable {F S T : Type}

inductive AddOp (F : Type)
  | add (request : CachedRequestState F)
  | draft (reqId : ReqId) (specTokenIds : List Int)

/-- One step. Between two steps the output lists of requests grow and the sampler
rewrites each state entry of the holder. -/
structure StepInput (F : Type) where
  heap : Heap
  progress : Nat → ThinkingState → ThinkingState
  removals : List ReqId
  adds : List (AddOp F)
  swaps : List (Nat × Nat)

/-- The runner, with the requests that its batch keeps. -/
structure Runner (F S T : Type) where
  batch : InputBatch F S
  kept : KeptRequests F S
  heap : Heap
  entries : PyDict Nat T
  minToks : PyDict Nat MinTokens.Entry
  minP : MinP S
  holder : Holder F

/-- What is fixed for a run: a dict-based processor, and the configuration. -/
structure RunConfig (F S T : Type) where
  batch : BatchConfig F S
  reasoning : ReasoningConfig
  truthy : T → Bool
  newState : NewState F T

def Holder.progress (f : Nat → ThinkingState → ThinkingState) (d : Holder F) : Holder F where
  items := d.items.map fun item => (item.1, { item.2 with state := f item.1 item.2.state })
  nodup := by
    rw [map_map]
    exact d.nodup

instance (config : BatchConfig F S) (request : CachedRequestState F) :
    Decidable (request.Fits config) :=
  inferInstanceAs (Decidable (_ = _))

namespace Runner

variable [Zero S]

def init (config : BatchConfig F S) (heap : Heap) : Runner F S T where
  batch := .init config
  kept := fun _ => none
  heap := heap
  entries := .empty
  minToks := .empty
  minP := .init
  holder := .empty

/-- A batch with the requests it keeps. -/
abbrev Batch (F S : Type) := InputBatch F S × KeptRequests F S

variable (config : BatchConfig F S)

def removeOne (s : Batch F S) (id : ReqId) : Option (Batch F S) :=
  (s.1.removeRequest config id).map fun b => (b, Function.update s.2 id none)

/-- The caller adds requests that are not in the batch and that the model serves. -/
def addOne (heap : Heap) (s : Batch F S) : AddOp F → Option (Batch F S)
  | .add request =>
    if s.1.reqIdToIndex.get? request.reqId = none ∧ request.Fits config then
      (s.1.addRequest config heap request).map fun b =>
        (b, Function.update s.2 request.reqId (some ⟨request, request.batchRow config heap⟩))
    else none
  | .draft id specTokenIds =>
    (s.1.updateReqSpecTokenIds config id specTokenIds).map fun b => (b, s.2.draft id specTokenIds)

def fill (s : Batch F S) (input : StepInput F) : Option (Batch F S) :=
  (input.removals.foldlM (removeOne config) s).bind fun s =>
    input.adds.foldlM (addOne config input.heap) s

def swapOne (b : InputBatch F S) (i : Nat × Nat) :
    Option (InputBatch F S) :=
  b.swapStates config i.1 i.2

def arrange (b : InputBatch F S) (swaps : List (Nat × Nat)) :
    Option (InputBatch F S) :=
  (b.condense config).bind fun b => swaps.foldlM (swapOne config) b

variable [Zero F] [DecidableEq F] [DecidableEq S]

/-- `refresh_metadata` for an arranged batch. -/
def refresh (config : RunConfig F S T) (s : Runner F S T) (input : StepInput F)
    (b : InputBatch F S) (kept : KeptRequests F S) : Runner F S T :=
  let holder := s.holder.progress input.progress
  let (update, batch) := b.refreshMetadata config.batch
  if config.batch.isPoolingModel then { s with batch, kept, holder, heap := input.heap }
  else {
    batch
    kept
    heap := input.heap
    holder := syncBatch config.reasoning holder update
    entries := (processDictUpdates config.truthy config.newState s.entries update).1
    minToks := MinTokens.updateState input.heap s.minToks update
    minP := s.minP.updateState config.batch.float32 update }

/-- `none` where the step raises. -/
def step (config : RunConfig F S T) (s : Runner F S T) (input : StepInput F) :
    Option (Runner F S T) :=
  (fill config.batch (s.batch, s.kept) input).bind fun filled =>
    (arrange config.batch filled.1 input.swaps).map fun b => s.refresh config input b filled.2

end Runner

def runnerRuns [Zero S] [Zero F] [DecidableEq F] [DecidableEq S] (config : RunConfig F S T) :
    TransitionSystem (Runner F S T) (StepInput F) where
  init s := ∃ heap, s = Runner.init config.batch heap
  step s input s' := MinTokens.Grows s.heap input.heap ∧ s.step config input = some s'

section Filling

variable {config : BatchConfig F S} {c₀ : Rows (RowRequest F)}

/-- What holds while a step removes and adds requests. -/
structure FillPhase (config : BatchConfig F S) (c₀ : Rows (RowRequest F))
    (s : Runner.Batch F S) : Prop where
  coherent : Coherent config s.1 s.2
  filling : Filling s.1
  still : s.1.batchUpdateBuilder.moved = []
  rows : AddedRows s.1
  logged : config.isPoolingModel = false → Logged c₀ s.1 s.2

theorem FillPhase.removeOne {s s' : Runner.Batch F S} {id : ReqId} (h : FillPhase config c₀ s)
    (none_added : s.1.batchUpdateBuilder.added = []) (removed : Runner.removeOne config s id = some s') :
    FillPhase config c₀ s' ∧ s'.1.batchUpdateBuilder.added = [] := by
  obtain ⟨b, gone, rfl⟩ := Option.map_eq_some_iff.mp removed
  have log : b.batchUpdateBuilder.added = [] ∧ b.batchUpdateBuilder.moved = [] := by
    rcases removeRequest_some gone with ⟨-, rfl⟩ | ⟨i, -, -, builder⟩
    · exact ⟨none_added, h.still⟩
    · rw [builder]
      exact ⟨none_added, h.still⟩
  refine ⟨?_, log.1⟩
  exact {
    coherent := h.coherent.remove gone
    filling := h.filling.remove h.coherent gone
    still := log.2
    rows := ⟨by rw [log.1]; exact nodup_nil, by rw [log.1]; exact nofun⟩
    logged := fun generative =>
      ((h.logged generative).remove h.coherent none_added h.still gone).1 }

theorem FillPhase.addOne [Zero S] {heap : Heap} {s s' : Runner.Batch F S} {op : AddOp F}
    (h : FillPhase config c₀ s) (done : Runner.addOne config heap s op = some s') :
    FillPhase config c₀ s' := by
  cases op with
  | add request =>
    simp only [Runner.addOne] at done
    split at done
    next admitted =>
      obtain ⟨b, added, rfl⟩ := Option.map_eq_some_iff.mp done
      obtain ⟨new, fits⟩ := admitted
      have still : b.batchUpdateBuilder.moved = [] := by
        obtain ⟨i, b₁, b₂, tokens, sampling, registered, placed, -, -, e⟩ :=
          addRequest_some added
        rw [e]
        exact (h.coherent.place h.filling registered placed).moved.trans h.still
      exact {
        coherent := h.coherent.add h.filling new fits added
        filling := h.filling.add h.coherent added
        still := still
        rows := h.rows.add h.coherent h.filling added
        logged := fun generative => ((h.logged generative).add h.coherent h.filling h.still new
          (by rw [fits, generative]; rfl) added).1 }
    next => cases done
  | draft id specTokenIds =>
    obtain ⟨b, updated, rfl⟩ := Option.map_eq_some_iff.mp done
    have builder : b.batchUpdateBuilder = s.1.batchUpdateBuilder := by
      obtain ⟨i, d⟩ := updateReqSpecTokenIds_some updated
      rw [d.rest]
    exact {
      coherent := h.coherent.draft updated
      filling := h.filling.draft updated
      still := (congrArg _ builder).trans h.still
      rows := h.rows.draft updated
      logged := fun generative => (h.logged generative).draft updated }

theorem FillPhase.removals {removals : List ReqId} {s s' : Runner.Batch F S}
    (h : FillPhase config c₀ s) (none_added : s.1.batchUpdateBuilder.added = [])
    (run : removals.foldlM (Runner.removeOne config) s = some s') : FillPhase config c₀ s' := by
  have keeps : FillPhase config c₀ s' ∧ s'.1.batchUpdateBuilder.added = [] :=
    foldlM_keeps (P := fun t => FillPhase config c₀ t ∧ t.1.batchUpdateBuilder.added = [])
      ⟨h, none_added⟩ (fun _ _ _ both removed => both.1.removeOne both.2 removed) run
  exact keeps.1

theorem FillPhase.adds [Zero S] {heap : Heap} {adds : List (AddOp F)} {s s' : Runner.Batch F S}
    (h : FillPhase config c₀ s) (run : adds.foldlM (Runner.addOne config heap) s = some s') :
    FillPhase config c₀ s' :=
  foldlM_keeps h (fun _ _ _ phase done => phase.addOne done) run

end Filling

section Arranging

variable {config : BatchConfig F S} {c₀ : Rows (RowRequest F)}

/-- What holds while a step reorders a condensed batch. -/
structure ArrangePhase (config : BatchConfig F S) (c₀ : Rows (RowRequest F))
    (kept : KeptRequests F S) (condensed b : InputBatch F S) : Prop where
  coherent : Coherent config b kept
  packed : Packed b
  logged : config.isPoolingModel = false → Logged c₀ b kept
  added : b.batchUpdateBuilder.added = condensed.batchUpdateBuilder.added
  moved : ∃ swaps, b.batchUpdateBuilder.moved = condensed.batchUpdateBuilder.moved ++ swaps ∧
    ∀ m ∈ swaps, m.direct = .swap

theorem ArrangePhase.swaps {kept : KeptRequests F S} {condensed b b' : InputBatch F S}
    {swaps : List (Nat × Nat)} (h : ArrangePhase config c₀ kept condensed b)
    (run : swaps.foldlM (Runner.swapOne config) b = some b') :
    ArrangePhase config c₀ kept condensed b' := by
  induction swaps generalizing b with
  | nil =>
    cases run
    exact h
  | cons i swaps ih =>
    rw [foldlM_cons] at run
    obtain ⟨t, first, rest⟩ := Option.bind_eq_some_iff.mp run
    have ⟨swapped, coherent⟩ := h.coherent.swap first
    refine ih ?_ rest
    exact {
      coherent := coherent
      packed := h.packed.swap swapped
      logged := fun generative => (h.logged generative).swap generative h.coherent swapped
      added := by
        rw [swapped.builder]
        exact h.added
      moved := by
        obtain ⟨before, moved, all_swaps⟩ := h.moved
        refine ⟨before ++ recorded config ⟨i.1, i.2, .swap⟩, ?_, fun m mem => ?_⟩
        · rw [swapped.builder]
          simp only [moved, append_assoc]
        · rcases mem_append.mp mem with old | last
          · exact all_swaps m old
          · rw [mem_recorded last] }

theorem FillPhase.arrange {s : Runner.Batch F S} {b' : InputBatch F S}
    {swaps : List (Nat × Nat)} (h : FillPhase config c₀ s)
    (run : Runner.arrange config s.1 swaps = some b') :
    ∃ condensed, s.1.condense config = some condensed ∧ Condensed config s.2 s.1 condensed ∧
    (config.isPoolingModel = false → Logged c₀ condensed s.2) ∧
    ArrangePhase config c₀ s.2 condensed b' := by
  obtain ⟨condensed, condense, rest⟩ := Option.bind_eq_some_iff.mp run
  obtain ⟨b, done, kept, packed⟩ := h.coherent.condense h.filling h.still
  cases condense.symm.trans done
  have logged := fun generative => kept.logged generative c₀ (h.logged generative)
  refine ⟨condensed, condense, kept, logged, ArrangePhase.swaps ?_ rest⟩
  exact {
    coherent := kept.coherent
    packed := packed
    logged := logged
    added := rfl
    moved := ⟨[], (append_nil _).symm, nofun⟩ }

end Arranging

namespace Runner

variable [Zero F] [DecidableEq F] [Zero S] [DecidableEq S] {config : RunConfig F S T}
  {s s' : Runner F S T} {input : StepInput F}

/-- The requests of the rows, as the logits processors know them. -/
def contents (s : Runner F S T) : Rows (RowRequest F) := s.batch.contents s.kept

/-- Between two steps the rows are full and the builder is empty. -/
structure Rested (config : RunConfig F S T) (s : Runner F S T) : Prop where
  coherent : Coherent config.batch s.batch s.kept
  packed : Packed s.batch
  removed : s.batch.batchUpdateBuilder.removedRows = []
  added : s.batch.batchUpdateBuilder.added = []
  moved : s.batch.batchUpdateBuilder.moved = []

omit [Zero F] [DecidableEq F] [Zero S] [DecidableEq S] in
theorem Rested.fillPhase (h : Rested config s) :
    FillPhase config.batch s.contents (s.batch, s.kept) where
  coherent := h.coherent
  filling := by
    intro i
    rw [h.packed i, h.removed]
    simp
  still := h.moved
  rows := ⟨by rw [h.added]; exact nodup_nil, by rw [h.added]; exact nofun⟩
  logged := fun _ => by
    rw [Logged, h.removed, h.added, h.moved]
    exact RowLog.start _

/-- The phases of a step. -/
structure Steps (config : RunConfig F S T) (s s' : Runner F S T) (input : StepInput F)
    (filled : Batch F S) (dense final : InputBatch F S) : Prop where
  fill : Runner.fill config.batch (s.batch, s.kept) input = some filled
  fillPhase : FillPhase config.batch s.contents filled
  condense : filled.1.condense config.batch = some dense
  condensed : Condensed config.batch filled.2 filled.1 dense
  logged : config.batch.isPoolingModel = false → Logged s.contents dense filled.2
  arranged : ArrangePhase config.batch s.contents filled.2 dense final
  result : s' = s.refresh config input final filled.2

theorem Rested.steps (h : Rested config s) (step : s.step config input = some s') :
    ∃ filled dense final, Steps config s s' input filled dense final := by
  obtain ⟨filled, fill, rest⟩ := Option.bind_eq_some_iff.mp step
  obtain ⟨final, arrange, e⟩ := Option.map_eq_some_iff.mp rest
  obtain ⟨removed, removals, adds⟩ := Option.bind_eq_some_iff.mp fill
  have phase := (h.fillPhase.removals h.added removals).adds adds
  obtain ⟨dense, condense, kept, logged, arranged⟩ := phase.arrange arrange
  exact ⟨filled, dense, final, fill, phase, condense, kept, logged, arranged, e.symm⟩

/-- `refresh_metadata` leaves an empty builder, and the rows as they are. -/
theorem Steps.batch {filled : Batch F S} {dense final : InputBatch F S}
    (h : Steps config s s' input filled dense final) :
    s'.kept = filled.2 ∧ s'.heap = input.heap ∧
      ∃ builder, s'.batch = { final with batchUpdateBuilder := builder } ∧
        builder.removedRows = [] ∧ builder.added = [] ∧ builder.moved = [] ∧
        builder.Tidy := by
  have nothing : BatchUpdateBuilder.Tidy ({} : BatchUpdateBuilder (SamplingParams F)) :=
    ⟨nodup_nil, fun _ => List.Pairwise.nil⟩
  rw [h.result]
  simp only [refresh, InputBatch.refreshMetadata]
  split
  · exact ⟨rfl, rfl, {}, rfl, rfl, rfl, rfl, nothing⟩
  · simp only [BatchUpdateBuilder.getAndReset]
    split
    next empty =>
      simp only [Bool.and_eq_true, List.isEmpty_iff] at empty
      refine ⟨trivial, trivial, _, rfl, empty.1.1, empty.2, empty.1.2, ?_⟩
      exact ⟨by rw [empty.1.1]; exact nodup_nil, (by simp)⟩
    next => exact ⟨trivial, trivial, {}, rfl, rfl, rfl, rfl, nothing⟩

theorem Rested.step (h : Rested config s) (step : s.step config input = some s') :
    Rested config s' := by
  obtain ⟨filled, dense, final, steps⟩ := h.steps step
  obtain ⟨kept, -, builder, batch, removed, added, moved, tidy⟩ := steps.batch
  have old := steps.arranged.coherent
  rw [← kept] at old
  exact {
    coherent := by
      rw [batch]
      exact { old with
        tidy := tidy
        freed := by rw [removed]; exact nofun
        blank := fun i absent =>
          ⟨(old.blank i absent).spec, (old.blank i absent).embeds, (old.blank i absent).sampling⟩ }
    packed := by
      rw [batch]
      exact steps.arranged.packed
    removed := by rw [batch]; exact removed
    added := by rw [batch]; exact added
    moved := by rw [batch]; exact moved }

omit [Zero F] [DecidableEq F] [DecidableEq S] in
theorem Rested.init (heap : Heap) : Rested config (Runner.init config.batch heap) where
  coherent := {
    tidy := ⟨nodup_nil, fun _ => List.Pairwise.nil⟩
    freed := nofun
    index := Inverse.empty
    outputs_length := rfl
    spec_length := Nat.zero_le _
    blank := fun i _ => {
      spec := by
        simp only [Runner.init, InputBatch.init, InputBatch.spec, getD_eq_getElem?_getD,
          getElem?_replicate]
        split <;> rfl
      embeds := rfl
      sampling := fun _ => ⟨rfl, rfl, rfl⟩ }
    replayssm := rfl
    groups := by
      simp only [Runner.init, InputBatch.init, map_map]
      exact map_id _
    accepted_one := fun _ _ => rfl
    rows := nofun
    known := fun _ _ => rfl }
  packed := fun i => ⟨fun inside => absurd inside (Nat.not_lt_zero i), fun used => absurd rfl used⟩
  removed := rfl
  added := rfl
  moved := rfl

/-- What a step passes on to the holder and to the logits processors. -/
structure Passed (config : RunConfig F S T) (s s' : Runner F S T) (input : StepInput F)
    (filled : Batch F S) (dense : InputBatch F S)
    (update : Option (BatchUpdate (SamplingParams F))) : Prop where
  entries : s'.entries = (processDictUpdates config.truthy config.newState s.entries update).1
  minToks : s'.minToks = MinTokens.updateState input.heap s.minToks update
  minP : s'.minP = s.minP.updateState config.batch.float32 update
  holder : s'.holder =
    syncBatch config.reasoning (s.holder.progress input.progress) update
  unchanged : update = none → s'.contents = s.contents
  added : ∀ u, update = some u → u.added = filled.1.batchUpdateBuilder.added
  moved : ∀ u, update = some u → ∃ swaps, u.moved = dense.batchUpdateBuilder.moved ++ swaps ∧
    ∀ m ∈ swaps, m.direct = .swap
  log : ∀ u, update = some u → RowLog s.contents u.removed (u.added.map AddedRequest.rowAdd)
    (u.moved.map MovedRequest.rowMove) s'.contents

theorem Steps.passed {filled : Batch F S} {dense final : InputBatch F S}
    (h : Steps config s s' input filled dense final)
    (generative : config.batch.isPoolingModel = false) :
    ∃ update, Passed config s s' input filled dense update := by
  obtain ⟨kept, -, builder, batch, -⟩ := h.batch
  have contents : s'.contents = final.contents filled.2 := by
    rw [contents, kept, batch]
    rfl
  have logged := h.arranged.logged generative
  rw [Logged] at logged
  have result := h.result
  simp only [refresh, InputBatch.refreshMetadata, generative, Bool.false_eq_true, if_false]
    at result
  refine ⟨(final.batchUpdateBuilder.getAndReset final.numReqs).1, ?_⟩
  have cases_update : ∀ u, (final.batchUpdateBuilder.getAndReset final.numReqs).1 = some u →
      u.removed = final.batchUpdateBuilder.removedRows ∧
        u.added = final.batchUpdateBuilder.added ∧ u.moved = final.batchUpdateBuilder.moved := by
    intro u some_update
    unfold BatchUpdateBuilder.getAndReset at some_update
    split at some_update
    · cases some_update
    · cases some_update
      exact ⟨rfl, rfl, rfl⟩
  exact {
    entries := by rw [result]
    minToks := by rw [result]
    minP := by rw [result]
    holder := by rw [result]
    unchanged := by
      intro no_update
      unfold BatchUpdateBuilder.getAndReset at no_update
      split at no_update
      next empty =>
        simp only [Bool.and_eq_true, List.isEmpty_iff] at empty
        rw [empty.1.1, empty.1.2, empty.2] at logged
        rw [contents]
        funext i
        exact (logged.kept i not_mem_nil).symm
      next => cases no_update
    added := fun u some_update => by
      rw [(cases_update u some_update).2.1, h.arranged.added, h.condensed.added]
    moved := fun u some_update => by
      rw [(cases_update u some_update).2.2]
      exact h.arranged.moved
    log := fun u some_update => by
      obtain ⟨removed, added, moved⟩ := cases_update u some_update
      rw [removed, added, moved, contents]
      exact logged }

theorem Passed.oneWay {filled : Batch F S} {dense final : InputBatch F S}
    {u : BatchUpdate (SamplingParams F)} (h : Steps config s s' input filled dense final)
    (passed : Passed config s s' input filled dense (some u)) :
    ∀ m ∈ u.moved, m.direct = .unidirectional → m.i1 ≠ m.i2 := by
  intro m mem oneWay
  obtain ⟨swaps, moved, all_swaps⟩ := passed.moved u rfl
  rw [moved] at mem
  rcases mem_append.mp mem with slid | swapped
  · exact Nat.ne_of_gt (h.condensed.oneWay m slid).2
  · rw [all_swaps m swapped] at oneWay
    cases oneWay

end Runner

end VllmAmpere.PersistentBatch
