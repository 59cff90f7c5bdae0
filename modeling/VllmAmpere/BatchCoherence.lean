import VllmAmpere.InputBatch
import VllmAmpere.RowIndex

/-! What the rows of `InputBatch` hold while requests are removed and added: each
row with a request shows the data of that request, each row without one is blank. -/

open List Function

namespace VllmAmpere.PersistentBatch

variable {F S : Type}

/-- The data of a row of the batch. -/
structure BatchRow (S : Type) where
  token : TokenRow
  specTokenIds : List Int
  outputTokenIds : Option ListRef
  numAcceptedTokens : Nat
  sampling : Option (SamplingRow S)

def BatchRow.withDrafts (r : BatchRow S) (drafts : List Int) : BatchRow S :=
  { r with token := r.token.withDrafts drafts, specTokenIds := drafts }

def CachedRequestState.batchRow [Zero S] (request : CachedRequestState F) (config : BatchConfig F S)
    (heap : Heap) : BatchRow S where
  token := request.tokenRow config.useReplayssm config.blocksPerKvBlock heap
  specTokenIds := []
  outputTokenIds := some request.outputTokenIds
  numAcceptedTokens := 1
  sampling :=
    if config.isPoolingModel then none
    else request.samplingParams.map fun params =>
      params.samplingRow config.float32 config.vocabSize request.generator

/-- A request of the batch, with the data its row has to show. -/
structure Kept (F S : Type) where
  request : CachedRequestState F
  row : BatchRow S

/-- The requests of the batch. -/
abbrev KeptRequests (F S : Type) := ReqId → Option (Kept F S)

namespace InputBatch

def idAt (b : InputBatch F S) : Rows ReqId := Rows.ofList b.reqIds

def row (config : BatchConfig F S) (b : InputBatch F S) (i : Nat) : BatchRow S where
  token := b.tokens.row i (b.spec i).length
  specTokenIds := b.spec i
  outputTokenIds := b.reqOutputTokenIds.getD i none
  numAcceptedTokens := b.sampling.numAcceptedTokens i
  sampling := if config.isPoolingModel then none else some (b.sampling.row i)

/-- A row holds nothing that a request added to it would not overwrite. -/
structure BlankRow (config : BatchConfig F S) (b : InputBatch F S) (i : Nat) : Prop where
  spec : b.spec i = []
  embeds : b.tokens.reqPromptEmbeds i = none
  sampling : config.isPoolingModel = false → (b.sampling.row i).Blank

end InputBatch

structure Coherent (config : BatchConfig F S) (b : InputBatch F S) (kept : KeptRequests F S) :
    Prop where
  tidy : b.batchUpdateBuilder.Tidy
  freed : ∀ i ∈ b.batchUpdateBuilder.removedRows, b.idAt i = none
  index : Inverse b.reqIdToIndex b.idAt
  outputs_length : b.reqOutputTokenIds.length = b.reqIds.length
  spec_length : b.reqIds.length ≤ b.specTokenIds.length
  blank : ∀ i, b.idAt i = none → b.BlankRow config i
  replayssm : b.tokens.useReplayssm = config.useReplayssm
  groups : b.tokens.blockTable.map (·.blocksPerKvBlock) = config.blocksPerKvBlock
  accepted_one : config.isPoolingModel = true → ∀ i, b.sampling.numAcceptedTokens i = 1
  rows : ∀ i id, b.idAt i = some id → ∃ k, kept id = some k ∧ b.row config i = k.row
  known : ∀ id, b.reqIdToIndex.get? id = none → kept id = none

theorem getD_set {α : Type} {l : List α} {i : Nat} (inside : i < l.length) (x d : α) (j : Nat) :
    (l.set i x).getD j d = if j = i then x else l.getD j d := by
  rw [getD_eq_getElem?_getD, getElem?_set]
  by_cases here : i = j
  · rw [if_pos here, if_pos inside, if_pos here.symm]
    rfl
  · rw [if_neg here, if_neg (Ne.symm here), getD_eq_getElem?_getD]

theorem getD_append_default {α : Type} (l : List α) (d : α) (j : Nat) :
    (l ++ [d]).getD j d = l.getD j d := by
  rw [getD_eq_getElem?_getD, getD_eq_getElem?_getD]
  rcases Nat.lt_trichotomy j l.length with before | here | behind
  · rw [getElem?_append_left before]
  · rw [here, getElem?_append_right (Nat.le_refl _), Nat.sub_self,
      getElem?_eq_none (Nat.le_refl _)]
    rfl
  · rw [getElem?_eq_none (by rw [length_append]; exact behind),
      getElem?_eq_none (Nat.le_of_lt behind)]

variable {config : BatchConfig F S} {b b' : InputBatch F S} {kept : KeptRequests F S}

namespace Coherent

theorem row_congr {i : Nat} (token : ∀ n, b'.tokens.row i n = b.tokens.row i n)
    (spec : b'.spec i = b.spec i)
    (outputs : b'.reqOutputTokenIds.getD i none = b.reqOutputTokenIds.getD i none)
    (accepted : b'.sampling.numAcceptedTokens i = b.sampling.numAcceptedTokens i)
    (sampling : config.isPoolingModel = false → b'.sampling.row i = b.sampling.row i) :
    b'.row config i = b.row config i := by
  have same : (if config.isPoolingModel then none else some (b'.sampling.row i)) =
      if config.isPoolingModel then none else some (b.sampling.row i) := by
    split
    · rfl
    next generative => rw [sampling (Bool.eq_false_iff.mpr generative)]
  simp only [InputBatch.row, token, spec, outputs, accepted, same]

theorem remove (h : Coherent config b kept) {id : ReqId}
    (removed : b.removeRequest config id = some b') :
    Coherent config b' (update kept id none) := by
  unfold InputBatch.removeRequest at removed
  split at removed
  next absent =>
    cases removed
    have unchanged : update kept id none = kept := by
      rw [update_eq_self_iff]
      exact (h.known id absent).symm
    rw [unchanged]
    exact h
  next i found =>
    split at removed
    · cases removed
    next builder appended =>
      cases removed
      have there := (h.index id i).mp found
      have inside : i < b.reqIds.length := Rows.lt_of_ofList there
      have idAt : Rows.ofList (b.reqIds.set i none) = update b.idAt i none :=
        Rows.ofList_set b.reqIds inside none
      have spec : ∀ j, (b.specTokenIds.set i []).getD j [] = if j = i then [] else b.spec j :=
        getD_set (Nat.lt_of_lt_of_le inside h.spec_length) [] []
      have live : i ∉ b.batchUpdateBuilder.removedRows := fun mem => by
        rw [h.freed i mem] at there
        cases there
      have tidy := h.tidy.removedAppend live appended
      obtain ⟨-, rfl⟩ := BatchUpdateBuilder.removedAppend_some appended
      have groups : ((b.tokens.free i).blockTable.map (·.blocksPerKvBlock)) =
          b.tokens.blockTable.map (·.blocksPerKvBlock) := by
        simp only [TokenArrays.free, map_map]
        rfl
      have sampling_off : ∀ j, j ≠ i →
          (if config.isPoolingModel then b.sampling else b.sampling.free i).row j =
            b.sampling.row j := by
        intro j other
        split
        · rfl
        · exact b.sampling.free_off other
      have accepted : (if config.isPoolingModel then b.sampling
          else b.sampling.free i).numAcceptedTokens = b.sampling.numAcceptedTokens := by
        split <;> rfl
      exact {
        tidy := tidy
        freed := by
          intro j mem
          rw [InputBatch.idAt, idAt, Rows.update_at]
          split
          · rfl
          next other =>
            rcases mem_append.mp mem with old | new
            · exact h.freed j old
            · exact absurd (mem_singleton.mp new) other
        index := by
          rw [InputBatch.idAt, idAt]
          exact h.index.pop there
        outputs_length := by rw [length_set, length_set]; exact h.outputs_length
        spec_length := by rw [length_set, length_set]; exact h.spec_length
        blank := by
          intro j absent
          rw [InputBatch.idAt, idAt, Rows.update_at] at absent
          by_cases here : j = i
          · subst here
            exact {
              spec := (spec j).trans (if_pos rfl)
              embeds := update_self ..
              sampling := fun generative => by
                simp only [generative, Bool.false_eq_true, if_false]
                exact b.sampling.free_blank j }
          · rw [if_neg here] at absent
            have old := h.blank j absent
            exact {
              spec := (spec j).trans ((if_neg here).trans old.spec)
              embeds := (update_of_ne here ..).trans old.embeds
              sampling := fun generative => by
                rw [sampling_off j here]
                exact old.sampling generative }
        replayssm := h.replayssm
        groups := groups.trans h.groups
        accepted_one := by
          intro pooling j
          simp only [accepted]
          exact h.accepted_one pooling j
        rows := by
          intro j id' here
          rw [InputBatch.idAt, idAt, Rows.update_at] at here
          split at here
          · cases here
          next other =>
            obtain ⟨k, found, row⟩ := h.rows j id' here
            have different : id' ≠ id := by
              rintro rfl
              exact other (h.index.unique here there)
            refine ⟨k, (update_of_ne different ..).trans found, ?_⟩
            refine (row_congr (fun n => b.tokens.free_off other) ?_ ?_ ?_ ?_).trans row
            · exact (spec j).trans (if_neg other)
            · exact (getD_set (h.outputs_length.symm ▸ inside) none none j).trans (if_neg other)
            · exact congrFun accepted j
            · exact fun _ => sampling_off j other
        known := by
          intro id' absent
          simp only [PyDict.get?_pop] at absent
          by_cases same : id' = id
          · rw [same, update_self]
          · rw [if_neg same] at absent
            exact (update_of_ne same ..).trans (h.known id' absent) }

end Coherent

/-- While requests are removed and added, the rows without a request are those that
the builder still has as removed. -/
def Filling (b : InputBatch F S) : Prop :=
  ∀ i, i < b.reqIds.length ↔ i ∈ b.batchUpdateBuilder.removedRows ∨ b.idAt i ≠ none

/-- What `add_request` leaves of the lists and of the builder when it fills a row. -/
structure Placed (b b' : InputBatch F S) (i : Nat) (request : CachedRequestState F) : Prop where
  row_free : b.idAt i = none
  idAt : b'.idAt = update b.idAt i (some request.reqId)
  index : b'.reqIdToIndex = b.reqIdToIndex.set request.reqId i
  inside : i < b'.reqIds.length
  grows : ∀ j, j < b'.reqIds.length ↔ j = i ∨ j < b.reqIds.length
  outputs_length : b'.reqOutputTokenIds.length = b'.reqIds.length
  spec_length : b'.reqIds.length ≤ b'.specTokenIds.length
  outputs : ∀ j, b'.reqOutputTokenIds.getD j none =
    if j = i then some request.outputTokenIds else b.reqOutputTokenIds.getD j none
  spec : ∀ j, b'.spec j = if j = i then [] else b.spec j
  tidy : b'.batchUpdateBuilder.Tidy
  left : ∀ j, j ∈ b'.batchUpdateBuilder.removedRows ↔
    j ∈ b.batchUpdateBuilder.removedRows ∧ j ≠ i
  moved : b'.batchUpdateBuilder.moved = b.batchUpdateBuilder.moved
  added : b'.batchUpdateBuilder.added = b.batchUpdateBuilder.added ++
    (request.samplingParams.map fun params =>
      ⟨i, params, request.promptTokenIds, request.outputTokenIds⟩).toList
  tokens : b'.tokens = b.tokens
  sampling : b'.sampling = b.sampling

section Adding

variable {b₁ b₂ : InputBatch F S} {request : CachedRequestState F} {i : Nat}

section

variable (h : Coherent config b kept) (filling : Filling b)
  (registered : b.registerAddRequest config request = some (i, b₁))
include h filling registered

theorem Coherent.register :
    b.idAt i = none ∧ i ≤ b.reqIds.length ∧
      ∃ builder, b₁ = { b with batchUpdateBuilder := builder } ∧ builder.Tidy ∧
        (∀ j, j ∈ builder.removedRows ↔ j ∈ b.batchUpdateBuilder.removedRows ∧ j ≠ i) ∧
        builder.moved = b.batchUpdateBuilder.moved ∧
        builder.added = b.batchUpdateBuilder.added ++
          (request.samplingParams.map fun params =>
            (⟨i, params, request.promptTokenIds, request.outputTokenIds⟩ :
              AddedRequest (SamplingParams F))).toList := by
  unfold InputBatch.registerAddRequest at registered
  simp only [Option.ite_none_right_eq_some, Option.some.injEq, Prod.mk.injEq] at registered
  obtain ⟨-, rfl, rfl⟩ := registered
  by_cases empty : b.batchUpdateBuilder.removedRows = []
  · -- every row has a request, so the number of requests is the next row
    have count : b.numReqs = b.reqIds.length := by
      have := h.index.count [] nodup_nil (n := b.reqIds.length)
        (fun i => by rw [filling i, empty]) (by simp)
      simpa [InputBatch.numReqs] using this
    rw [BatchUpdateBuilder.popRemoved_none empty, Option.getD_none, count]
    refine ⟨Rows.ofList_behind (Nat.le_refl _), Nat.le_refl _, _, rfl, ?_, ?_, rfl, ?_⟩
    · exact ⟨h.tidy.nodup, h.tidy.sorted⟩
    · intro j
      simp [empty]
    · cases request.samplingParams with
      | none => exact (append_nil _).symm
      | some params => rfl
  · obtain ⟨low, -, popped, spec⟩ := BatchUpdateBuilder.popRemoved_some h.tidy empty
    rw [popped, Option.getD_some]
    refine ⟨h.freed low spec.mem, Nat.le_of_lt ((filling low).mpr (.inl spec.mem)), _, rfl,
      ?_, spec.left, spec.moved, ?_⟩
    · exact ⟨spec.tidy.nodup, spec.tidy.sorted⟩
    · rw [← spec.added]
      cases request.samplingParams with
      | none => exact (append_nil _).symm
      | some params => rfl

theorem Coherent.place
    (placed : b₁.placeRequest i request = some b₂) : Placed b b₂ i request := by
  obtain ⟨free, reach, builder, rfl, tidy, left, moved, added⟩ := h.register filling registered
  unfold InputBatch.placeRequest at placed
  simp only at placed
  split at placed
  next behind =>
    cases placed
    subst behind
    exact {
      row_free := free
      idAt := Rows.ofList_append b.reqIds _
      index := rfl
      inside := by simp
      grows := fun j => by simp; omega
      outputs_length := by simp [h.outputs_length]
      spec_length := by simpa using h.spec_length
      outputs := by
        intro j
        have appended := congrFun (Rows.ofList_append b.reqOutputTokenIds
          (some request.outputTokenIds)) j
        rw [Rows.update_at, h.outputs_length] at appended
        exact appended
      spec := by
        intro j
        refine (getD_append_default b.specTokenIds [] j).trans ?_
        split
        next here => exact here ▸ (h.blank _ free).spec
        next => rfl
      tidy := tidy
      left := left
      moved := moved
      added := added
      tokens := rfl
      sampling := rfl }
  next inner =>
    split at placed
    next inside =>
      cases placed
      exact {
        row_free := free
        idAt := Rows.ofList_set b.reqIds inside _
        index := rfl
        inside := by simpa using inside
        grows := fun j => by simp; omega
        outputs_length := by simp [h.outputs_length]
        spec_length := by simpa using h.spec_length
        outputs := getD_set (h.outputs_length.symm ▸ inside) _ _
        spec := getD_set (Nat.lt_of_lt_of_le inside h.spec_length) _ _
        tidy := tidy
        left := left
        moved := moved
        added := added
        tokens := rfl
        sampling := rfl }
    next => cases placed

end

variable {heap : Heap}

theorem addRequest_some [Zero S] (added : b.addRequest config heap request = some b') :
    ∃ i b₁ b₂ tokens sampling, b.registerAddRequest config request = some (i, b₁) ∧
    b₁.placeRequest i request = some b₂ ∧
    b₂.tokens.write heap config.maxModelLen i request = some tokens ∧
    InputBatch.writeSampling config b₂.sampling i request = some sampling ∧
    b' = { b₂ with tokens, sampling := InputBatch.acceptOne sampling i } := by
  unfold InputBatch.addRequest at added
  simp only [Option.bind_eq_bind, Option.bind_eq_some_iff] at added
  obtain ⟨⟨i, b₁⟩, registered, b₂, placed, tokens, written, sampling, stored, e⟩ := added
  exact ⟨i, b₁, b₂, tokens, sampling, registered, placed, written, stored,
    (Option.some.inj e).symm⟩

/-- The caller adds requests of the kind that the model serves. -/
def CachedRequestState.Fits (config : BatchConfig F S) (request : CachedRequestState F) : Prop :=
  request.samplingParams.isSome = !config.isPoolingModel

theorem writeSampling_off [Zero S] {s s' : SamplingArrays S}
    (stored : InputBatch.writeSampling config s i request = some s') {j : Nat} (other : j ≠ i) :
    (InputBatch.acceptOne s' i).row j = s.row j ∧
    (InputBatch.acceptOne s' i).numAcceptedTokens j = s.numAcceptedTokens j := by
  unfold InputBatch.writeSampling at stored
  split at stored
  · cases stored
    exact ⟨s.write_off other, update_of_ne other ..⟩
  · split at stored
    · cases stored
      exact ⟨rfl, update_of_ne other ..⟩
    · cases stored

theorem writeSampling_row [Zero S] {s s' : SamplingArrays S} (fits : request.Fits config)
    (stored : InputBatch.writeSampling config s i request = some s')
    (blank : config.isPoolingModel = false → (s.row i).Blank) :
    (if config.isPoolingModel then none else some ((InputBatch.acceptOne s' i).row i)) =
    if config.isPoolingModel then none else request.samplingParams.map fun params =>
    params.samplingRow config.float32 config.vocabSize request.generator := by
  split
  · rfl
  next generative =>
    have generative := Bool.eq_false_iff.mpr generative
    obtain ⟨params, given⟩ : ∃ params, request.samplingParams = some params := by
      rw [← Option.isSome_iff_exists, fits, generative]
      rfl
    unfold InputBatch.writeSampling at stored
    rw [given] at stored ⊢
    cases stored
    exact congrArg some (s.write_row (blank generative))

theorem Coherent.add [Zero S] (h : Coherent config b kept) (filling : Filling b)
    (new : b.reqIdToIndex.get? request.reqId = none) (fits : request.Fits config)
    (added : b.addRequest config heap request = some b') :
    Coherent config b' (update kept request.reqId
    (some ⟨request, request.batchRow config heap⟩)) := by
  obtain ⟨i, b₁, b₂, tokens, sampling, registered, placed, written, stored, rfl⟩ :=
    addRequest_some added
  have p := h.place filling registered placed
  rw [p.tokens] at written
  rw [p.sampling] at stored
  have blank := h.blank i p.row_free
  have at_row : ∀ j, ({ b₂ with tokens, sampling := InputBatch.acceptOne sampling i } :
      InputBatch F S).idAt j = if j = i then some request.reqId else b.idAt j := fun j =>
    (congrFun p.idAt j).trans (Rows.update_at ..)
  have embeds_off : ∀ j, j ≠ i → tokens.reqPromptEmbeds j = b.tokens.reqPromptEmbeds j :=
    fun j other => congrArg TokenRow.promptEmbeds (TokenArrays.write_off 0 written other)
  obtain ⟨n, -, -, groups, store⟩ := TokenArrays.write_some written
  exact {
    tidy := p.tidy
    freed := by
      intro j mem
      have ⟨before, other⟩ := (p.left j).mp mem
      rw [at_row, if_neg other]
      exact h.freed j before
    index := by
      have inverse := h.index.set_new new p.row_free
      rw [← p.index, ← p.idAt] at inverse
      exact inverse
    outputs_length := p.outputs_length
    spec_length := p.spec_length
    blank := by
      intro j absent
      rw [at_row] at absent
      split at absent
      · cases absent
      next other =>
        have old := h.blank j absent
        exact {
          spec := (p.spec j).trans ((if_neg other).trans old.spec)
          embeds := (embeds_off j other).trans old.embeds
          sampling := fun generative => by
            rw [(writeSampling_off stored other).1]
            exact old.sampling generative }
    replayssm := by
      rw [store]
      exact h.replayssm
    groups := by
      rw [← h.groups, store]
      simp only [TokenArrays.store, map_zipWith]
      apply ext_getElem?
      intro j
      rw [getElem?_zipWith, getElem?_map]
      cases there : b.tokens.blockTable[j]? with
      | none => rfl
      | some table =>
        have inside := Nat.lt_of_lt_of_le (List.getElem?_eq_some_iff.mp there).1 groups
        rw [getElem?_eq_getElem inside]
        simp only [BlockTable.addRow, BlockTable.appendRow]
        split <;> rfl
    accepted_one := by
      intro pooling j
      by_cases here : j = i
      · rw [here]
        exact update_self ..
      · exact (writeSampling_off stored here).2.trans (h.accepted_one pooling j)
    rows := by
      intro j id there
      rw [at_row] at there
      split at there
      next here =>
        cases there
        subst here
        refine ⟨_, update_self .., ?_⟩
        have spec := (p.spec j).trans (if_pos rfl)
        have outputs := (p.outputs j).trans (if_pos rfl)
        have token := TokenArrays.write_row written blank.embeds
        rw [h.replayssm, h.groups] at token
        have sampled := writeSampling_row fits stored blank.sampling
        have accepted : (InputBatch.acceptOne sampling j).numAcceptedTokens j = 1 :=
          update_self ..
        simp only [InputBatch.row, CachedRequestState.batchRow, ← token, ← sampled, accepted,
          outputs]
        simp only [InputBatch.spec] at spec ⊢
        rw [spec]
        rfl
      next other =>
        obtain ⟨k, found, row⟩ := h.rows j id there
        have different : id ≠ request.reqId := by
          rintro rfl
          exact h.index.absent new j there
        refine ⟨k, (update_of_ne different ..).trans found, ?_⟩
        refine (row_congr (fun n => TokenArrays.write_off n written other) ?_ ?_ ?_ ?_).trans row
        · exact (p.spec j).trans (if_neg other)
        · exact (p.outputs j).trans (if_neg other)
        · exact (writeSampling_off stored other).2
        · exact fun _ => (writeSampling_off stored other).1
    known := by
      intro id absent
      have missing : (b.reqIdToIndex.set request.reqId i).get? id = none := p.index ▸ absent
      rw [PyDict.get?_set] at missing
      split at missing
      · cases missing
      next other => exact (update_of_ne other ..).trans (h.known id missing) }

theorem Filling.add [Zero S] (h : Coherent config b kept) (filling : Filling b)
    (added : b.addRequest config heap request = some b') : Filling b' := by
  obtain ⟨i, b₁, b₂, tokens, sampling, registered, placed, -, -, rfl⟩ := addRequest_some added
  have p := h.place filling registered placed
  intro j
  have at_row : ({ b₂ with tokens, sampling := InputBatch.acceptOne sampling i } :
      InputBatch F S).idAt j = if j = i then some request.reqId else b.idAt j :=
    (congrFun p.idAt j).trans (Rows.update_at ..)
  rw [at_row]
  refine (p.grows j).trans ?_
  by_cases here : j = i
  · rw [if_pos here]
    exact ⟨fun _ => .inr nofun, fun _ => .inl here⟩
  · rw [if_neg here]
    refine ⟨fun inside => ?_, fun used => .inr ((filling j).mpr ?_)⟩
    · exact ((filling j).mp (inside.resolve_left here)).imp_left fun mem => (p.left j).mpr ⟨mem, here⟩
    · exact used.imp_left fun mem => ((p.left j).mp mem).1

end Adding

section Removing

theorem removeRequest_some {id : ReqId} (removed : b.removeRequest config id = some b') :
    (b.reqIdToIndex.get? id = none ∧ b' = b) ∨
      ∃ i, b.reqIdToIndex.get? id = some i ∧ b'.reqIds = b.reqIds.set i none ∧
        b'.batchUpdateBuilder = { b.batchUpdateBuilder with
          removedRows := b.batchUpdateBuilder.removedRows ++ [i], batchChanged := true } := by
  unfold InputBatch.removeRequest at removed
  split at removed
  next absent => exact .inl ⟨absent, (Option.some.inj removed).symm⟩
  next i found =>
    split at removed
    · cases removed
    next builder appended =>
      cases removed
      exact .inr ⟨i, found, rfl, (BatchUpdateBuilder.removedAppend_some appended).2⟩

theorem Filling.remove (h : Coherent config b kept) (filling : Filling b) {id : ReqId}
    (removed : b.removeRequest config id = some b') : Filling b' := by
  rcases removeRequest_some removed with ⟨-, rfl⟩ | ⟨i, found, ids, builder⟩
  · exact filling
  · have there := (h.index id i).mp found
    have inside : i < b.reqIds.length := Rows.lt_of_ofList there
    intro j
    rw [builder, InputBatch.idAt, ids, Rows.ofList_set _ inside, Rows.update_at, length_set,
      filling j, mem_append, mem_singleton]
    by_cases here : j = i
    · rw [if_pos here]
      exact ⟨fun _ => .inl (.inr here), fun _ => .inr (here ▸ there ▸ nofun)⟩
    · rw [if_neg here]
      exact or_congr_left ⟨.inl, fun mem => mem.resolve_right here⟩

end Removing

section Drafting

/-- What `update_req_spec_token_ids` changes. -/
structure Drafted (config : BatchConfig F S) (b b' : InputBatch F S) (id : ReqId)
    (drafts : List Int) (i : Nat) : Prop where
  found : b.reqIdToIndex.get? id = some i
  row : ∀ n, b'.tokens.row i drafts.length = (b.tokens.row i n).withDrafts drafts
  row_off : ∀ j n, j ≠ i → b'.tokens.row j n = b.tokens.row j n
  fixed : b'.tokens.useReplayssm = b.tokens.useReplayssm ∧
    b'.tokens.blockTable = b.tokens.blockTable
  rest : b' = { b with tokens := b'.tokens, specTokenIds := b.specTokenIds.set i drafts }

variable {id : ReqId} {drafts : List Int}

theorem updateReqSpecTokenIds_some (updated : b.updateReqSpecTokenIds config id drafts = some b') :
    ∃ i, Drafted config b b' id drafts i := by
  unfold InputBatch.updateReqSpecTokenIds at updated
  split at updated
  · cases updated
  next i found =>
    split at updated
    next none_drafted =>
      cases updated
      subst none_drafted
      exact ⟨i, found, fun n => b.tokens.row_withDrafts_nil i n, fun _ _ _ => rfl, ⟨rfl, rfl⟩, rfl⟩
    next =>
      split at updated
      · cases updated
      next tokens written =>
        cases updated
        refine ⟨i, found, fun n => TokenArrays.writeSpec_row written n,
          fun j n other => TokenArrays.writeSpec_off written other, ?_, rfl⟩
        unfold TokenArrays.writeSpec at written
        split at written
        · cases written
        · cases written
          exact ⟨rfl, rfl⟩

def KeptRequests.draft (kept : KeptRequests F S) (id : ReqId) (drafts : List Int) :
    KeptRequests F S :=
  update kept id ((kept id).map fun k => { k with row := k.row.withDrafts drafts })

theorem Coherent.draft (h : Coherent config b kept)
    (updated : b.updateReqSpecTokenIds config id drafts = some b') :
    Coherent config b' (kept.draft id drafts) := by
  obtain ⟨i, d⟩ := updateReqSpecTokenIds_some updated
  have there := (h.index id i).mp d.found
  have inside : i < b.reqIds.length := Rows.lt_of_ofList there
  have spec : ∀ j, b'.spec j = if j = i then drafts else b.spec j := by
    intro j
    rw [d.rest]
    exact getD_set (Nat.lt_of_lt_of_le inside h.spec_length) drafts [] j
  have ids : b'.idAt = b.idAt := by rw [d.rest]; rfl
  have index : b'.reqIdToIndex = b.reqIdToIndex := by rw [d.rest]
  have builder : b'.batchUpdateBuilder = b.batchUpdateBuilder := by rw [d.rest]
  have outputs : b'.reqOutputTokenIds = b.reqOutputTokenIds := by rw [d.rest]
  have sampling : b'.sampling = b.sampling := by rw [d.rest]
  have lengths : b'.reqIds = b.reqIds := by rw [d.rest]
  exact {
    tidy := builder ▸ h.tidy
    freed := by rw [builder, ids]; exact h.freed
    index := by rw [index, ids]; exact h.index
    outputs_length := by rw [outputs, lengths]; exact h.outputs_length
    spec_length := by
      rw [lengths, d.rest, length_set]
      exact h.spec_length
    blank := by
      intro j absent
      rw [ids] at absent
      have other : j ≠ i := by
        rintro rfl
        rw [absent] at there
        cases there
      have old := h.blank j absent
      exact {
        spec := (spec j).trans ((if_neg other).trans old.spec)
        embeds := (congrArg TokenRow.promptEmbeds (d.row_off j 0 other)).trans old.embeds
        sampling := sampling ▸ old.sampling }
    replayssm := d.fixed.1.trans h.replayssm
    groups := (congrArg _ d.fixed.2).trans h.groups
    accepted_one := sampling ▸ h.accepted_one
    rows := by
      intro j id' here
      rw [ids] at here
      obtain ⟨k, found, row⟩ := h.rows j id' here
      by_cases same : j = i
      · subst same
        cases Option.some.inj (here.symm.trans there)
        refine ⟨{ k with row := k.row.withDrafts drafts }, ?_, ?_⟩
        · rw [KeptRequests.draft, update_self, found]
          rfl
        · have drafted := (spec j).trans (if_pos rfl)
          simp only [InputBatch.row, drafted, d.row (b.spec j).length, outputs, sampling,
            BatchRow.withDrafts, ← row]
      · have different : id' ≠ id := by
          rintro rfl
          exact same (h.index.unique here there)
        refine ⟨k, (update_of_ne different ..).trans found, ?_⟩
        refine (row_congr (fun n => d.row_off j n same) ?_ ?_ ?_ ?_).trans row
        · exact (spec j).trans (if_neg same)
        · rw [outputs]
        · rw [sampling]
        · exact fun _ => by rw [sampling]
    known := by
      intro id' absent
      rw [index] at absent
      have missing := h.known id' absent
      unfold KeptRequests.draft
      by_cases same : id' = id
      · rw [same, update_self, ← same, missing]
        rfl
      · exact (update_of_ne same ..).trans missing }

theorem Filling.draft (filling : Filling b)
    (updated : b.updateReqSpecTokenIds config id drafts = some b') : Filling b' := by
  obtain ⟨i, d⟩ := updateReqSpecTokenIds_some updated
  rw [d.rest]
  exact filling

end Drafting

end VllmAmpere.PersistentBatch
