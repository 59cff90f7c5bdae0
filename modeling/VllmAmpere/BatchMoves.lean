import VllmAmpere.BatchCoherence

/-! `condense` and `swap_states` carry the data of a request from row to row. -/

open List

namespace VllmAmpere.PersistentBatch

variable {F S : Type} {config : BatchConfig F S} {b b' : InputBatch F S}
  {kept : KeptRequests F S}

/-- The moves that the builder records: none in a pooling model. -/
def recorded (config : BatchConfig F S) (m : MovedRequest) : List MovedRequest :=
  if config.isPoolingModel then [] else [m]

section Slide

variable {last free : Nat} {id : ReqId}

/-- What a round of `condense` changes. -/
structure Slid (config : BatchConfig F S) (b b' : InputBatch F S) (last free : Nat) : Prop where
  idAt : b'.idAt = b.idAt.slide last free
  length : b'.reqIds.length = b.reqIds.length
  popped : BatchUpdateBuilder.Popped b.batchUpdateBuilder b.batchUpdateBuilder.popRemoved.2 free
  removed : b'.batchUpdateBuilder.removedRows = b.batchUpdateBuilder.popRemoved.2.removedRows
  added : b'.batchUpdateBuilder.added = b.batchUpdateBuilder.added
  moved : b'.batchUpdateBuilder.moved =
    b.batchUpdateBuilder.moved ++ recorded config ⟨last, free, .unidirectional⟩
  numReqs : b'.numReqs = b.numReqs

theorem Coherent.slide (h : Coherent config b kept)
    (popped : BatchUpdateBuilder.Popped b.batchUpdateBuilder b.batchUpdateBuilder.popRemoved.2 free)
    (there : b.idAt last = some id) (inside : free < b.reqIds.length) :
    ∃ b', b.slideRow config last free = some b' ∧ Slid config b b' last free ∧
    Coherent config b' kept := by
  have row_free := h.freed free popped.mem
  have other : last ≠ free := by
    rintro rfl
    rw [row_free] at there
    cases there
  have inside_last : last < b.reqIds.length := Rows.lt_of_ofList there
  have blank := h.blank free row_free
  obtain ⟨b', slid⟩ : ∃ b', b.slideRow config last free = some b' := by
    unfold InputBatch.slideRow
    rw [show b.reqIds.getD last none = some id from there]
    exact ⟨_, rfl⟩
  have eq := slid
  unfold InputBatch.slideRow at eq
  rw [show b.reqIds.getD last none = some id from there] at eq
  have idAt : b'.idAt = b.idAt.slide last free := by
    rw [← Option.some.inj eq]
    funext j
    rw [InputBatch.idAt, Rows.ofList_set _ (by rw [length_set]; exact inside_last),
      Rows.ofList_set _ inside, Rows.slide_at, Rows.update_at, Rows.update_at, there]
    by_cases at_last : j = last
    · rw [if_pos at_last, if_neg (at_last ▸ other), if_pos at_last]
    · rw [if_neg at_last, if_neg at_last]
      rfl
  have spec : ∀ j, b'.spec j =
      if j = last then [] else if j = free then b.spec last else b.spec j := by
    intro j
    rw [← Option.some.inj eq]
    have in_spec := Nat.lt_of_lt_of_le inside h.spec_length
    have in_spec_last := Nat.lt_of_lt_of_le inside_last h.spec_length
    refine (getD_set (by rw [length_set]; exact in_spec_last) _ _ j).trans ?_
    rw [getD_set in_spec]
    rfl
  have outputs : ∀ j, j ≠ last → b'.reqOutputTokenIds.getD j none =
      if j = free then b.reqOutputTokenIds.getD last none
      else b.reqOutputTokenIds.getD j none := by
    intro j not_last
    rw [← Option.some.inj eq]
    have in_outputs := h.outputs_length.symm ▸ inside
    have in_outputs_last := h.outputs_length.symm ▸ inside_last
    refine (getD_set (by rw [length_set]; exact in_outputs_last) _ _ j).trans ?_
    rw [if_neg not_last, getD_set in_outputs]
  have tokens : b'.tokens = b.tokens.slide last free (b.getActiveTokenCount last) := by
    rw [← Option.some.inj eq]
  have sampling : b'.sampling =
      if config.isPoolingModel then b.sampling else b.sampling.slide last free := by
    rw [← Option.some.inj eq]
  have index : b'.reqIdToIndex = b.reqIdToIndex.set id free := by
    rw [← Option.some.inj eq]
  have removed : b'.batchUpdateBuilder.removedRows =
      b.batchUpdateBuilder.popRemoved.2.removedRows := by
    rw [← Option.some.inj eq]
    simp only [InputBatch.recordMove]
    split <;> rfl
  have sorted : b'.batchUpdateBuilder.isRemovedSorted =
      b.batchUpdateBuilder.popRemoved.2.isRemovedSorted := by
    rw [← Option.some.inj eq]
    simp only [InputBatch.recordMove]
    split <;> rfl
  have numReqs : b'.numReqs = b.numReqs := by
    rw [InputBatch.numReqs, index]
    exact b.reqIdToIndex.len_set_of_mem ((h.index id last).mpr there) free
  refine ⟨b', slid, ?_, ?_⟩
  · exact {
      idAt := idAt
      length := by rw [← Option.some.inj eq, length_set, length_set]
      popped := popped
      removed := removed
      added := by
        rw [← Option.some.inj eq]
        simp only [InputBatch.recordMove]
        split <;> exact popped.added
      moved := by
        rw [← Option.some.inj eq]
        simp only [InputBatch.recordMove, recorded]
        split
        · rw [append_nil]
          exact popped.moved
        · exact congrArg (· ++ _) popped.moved
      numReqs := numReqs }
  have accepted : ∀ j, b'.sampling.numAcceptedTokens j =
      if j = free then b.sampling.numAcceptedTokens last else b.sampling.numAcceptedTokens j := by
    intro j
    rw [sampling]
    split
    next pooling =>
      rw [h.accepted_one pooling, h.accepted_one pooling, ite_self]
    next => exact copyTo_at _ _ _ _
  have sampled : ∀ j, j ≠ last → config.isPoolingModel = false → b'.sampling.row j =
      if j = free then b.sampling.row last else b.sampling.row j := by
    intro j not_last generative
    have dicts := blank.sampling generative
    rw [sampling, if_neg (by rw [generative]; exact Bool.false_ne_true)]
    split
    next at_free => rw [at_free, b.sampling.slide_tgt other ⟨dicts.generator, dicts.badWords⟩]
    next not_free =>
      exact b.sampling.slide_off other ⟨dicts.generator, dicts.badWords⟩ not_last not_free
  have tokens_tgt : b'.tokens.row free (b.spec last).length =
      b.tokens.row last (b.spec last).length := by
    rw [tokens]
    exact b.tokens.slide_tgt other blank.embeds
  have tokens_off : ∀ j n, j ≠ last → j ≠ free → b'.tokens.row j n = b.tokens.row j n := by
    intro j n not_last not_free
    rw [tokens]
    exact b.tokens.slide_off blank.embeds other not_last not_free
  have at_row : ∀ j, b'.idAt j =
      if j = free then b.idAt last else if j = last then none else b.idAt j := fun j => by
    rw [idAt, Rows.slide_at]
  exact {
    tidy := by
      refine ⟨?_, fun read => ?_⟩
      · rw [removed]
        exact popped.tidy.nodup
      · rw [removed]
        exact popped.tidy.sorted (sorted ▸ read)
    freed := by
      intro j mem
      rw [removed] at mem
      obtain ⟨before, not_free⟩ := (popped.left j).mp mem
      rw [at_row, if_neg not_free]
      split
      · rfl
      · exact h.freed j before
    index := by
      rw [index, idAt]
      exact h.index.slide there row_free
    outputs_length := by
      rw [← Option.some.inj eq]
      simp only [length_set, h.outputs_length]
    spec_length := by
      rw [← Option.some.inj eq]
      simp only [length_set, h.spec_length]
    blank := by
      intro j absent
      rw [at_row] at absent
      split at absent
      · rw [there] at absent
        cases absent
      next not_free =>
        by_cases at_last : j = last
        · subst at_last
          exact {
            spec := (spec j).trans (if_pos rfl)
            embeds := by
              rw [tokens]
              exact (popInto_at _ blank.embeds other j).trans (by rw [if_neg not_free, if_pos rfl])
            sampling := fun generative => by
              rw [sampling, if_neg (by rw [generative]; exact Bool.false_ne_true)]
              exact b.sampling.slide_blank other (blank.sampling generative) }
        · rw [if_neg at_last] at absent
          have old := h.blank j absent
          exact {
            spec := (spec j).trans ((if_neg at_last).trans ((if_neg not_free).trans old.spec))
            embeds := (congrArg TokenRow.promptEmbeds (tokens_off j 0 at_last not_free)).trans
              old.embeds
            sampling := fun generative => by
              rw [sampled j at_last generative, if_neg not_free]
              exact old.sampling generative }
    replayssm := by
      rw [tokens]
      exact h.replayssm
    groups := by
      rw [tokens, ← h.groups]
      simp only [TokenArrays.slide, map_map]
      rfl
    accepted_one := by
      intro pooling j
      rw [accepted, h.accepted_one pooling, h.accepted_one pooling, ite_self]
    rows := by
      intro j id' here
      rw [at_row] at here
      split at here
      next at_free =>
        subst at_free
        obtain ⟨k, found, row⟩ := h.rows last id' here
        refine ⟨k, found, row ▸ ?_⟩
        have drafts : b'.spec j = b.spec last :=
          (spec j).trans ((if_neg other.symm).trans (if_pos rfl))
        have outs := (outputs j other.symm).trans (if_pos rfl)
        have ones := (accepted j).trans (if_pos rfl)
        have params : (if config.isPoolingModel then none else some (b'.sampling.row j)) =
            if config.isPoolingModel then none else some (b.sampling.row last) := by
          split
          · rfl
          next generative =>
            rw [sampled j other.symm (Bool.eq_false_iff.mpr generative), if_pos rfl]
        simp only [InputBatch.row, drafts, outs, ones, params, tokens_tgt]
      next not_free =>
        split at here
        · cases here
        next not_last =>
          obtain ⟨k, found, row⟩ := h.rows j id' here
          refine ⟨k, found, (row_congr (fun n => tokens_off j n not_last not_free) ?_ ?_ ?_
            ?_).trans row⟩
          · exact (spec j).trans ((if_neg not_last).trans (if_neg not_free))
          · exact (outputs j not_last).trans (if_neg not_free)
          · exact (accepted j).trans (if_neg not_free)
          · exact fun generative => (sampled j not_last generative).trans (if_neg not_free)
    known := by
      intro id' absent
      rw [index, PyDict.get?_set] at absent
      split at absent
      · cases absent
      · exact h.known id' absent }

end Slide

/-- What a logits processor is told of a request. -/
structure RowRequest (F : Type) where
  params : SamplingParams F
  promptTokIds : Option (List Int)
  outputTokIds : ListRef

def CachedRequestState.rowRequest (request : CachedRequestState F) : Option (RowRequest F) :=
  request.samplingParams.map fun params =>
    ⟨params, request.promptTokenIds, request.outputTokenIds⟩

/-- The requests of the rows, as the logits processors know them. -/
def InputBatch.contents (b : InputBatch F S) (kept : KeptRequests F S) : Rows (RowRequest F) :=
  Rows.project (fun id => (kept id).bind fun k => k.request.rowRequest) b.idAt

def MovedRequest.rowMove (m : MovedRequest) : RowMove :=
  match m.direct with
  | .unidirectional => .slide m.i1 m.i2
  | .swap => .swap m.i1 m.i2

def AddedRequest.rowAdd (x : AddedRequest (SamplingParams F)) : Nat × Option (RowRequest F) :=
  (x.index, some ⟨x.params, x.promptTokIds, x.outputTokIds⟩)

/-- The builder's log tells how the rows came to be since the step began. -/
def Logged (c₀ : Rows (RowRequest F)) (b : InputBatch F S) (kept : KeptRequests F S) : Prop :=
  RowLog c₀ b.batchUpdateBuilder.removedRows
    (b.batchUpdateBuilder.added.map AddedRequest.rowAdd)
    (b.batchUpdateBuilder.moved.map MovedRequest.rowMove) (b.contents kept)

def SlidesApart (moved : List MovedRequest) : Prop :=
  (moved.map MovedRequest.rowMove).Pairwise Rows.Apart

section Condense

theorem findNonEmpty_none {rows : List Nat} {n : Nat}
    (h : InputBatch.findNonEmpty rows n = none) : ∀ i ≤ n, i ∈ rows := by
  induction n with
  | zero =>
    unfold InputBatch.findNonEmpty at h
    split at h
    next mem =>
      intro i le
      rwa [Nat.le_zero.mp le]
    · cases h
  | succ n ih =>
    unfold InputBatch.findNonEmpty at h
    split at h
    next mem =>
      intro i le
      rcases Nat.lt_or_eq_of_le le with before | last
      · exact ih h i (Nat.lt_succ_iff.mp before)
      · exact last ▸ mem
    · cases h

theorem findNonEmpty_some {rows : List Nat} {n k : Nat}
    (h : InputBatch.findNonEmpty rows n = some k) :
    k ≤ n ∧ k ∉ rows ∧ ∀ i ≤ n, k < i → i ∈ rows := by
  induction n with
  | zero =>
    unfold InputBatch.findNonEmpty at h
    split at h
    · cases h
    next out =>
      cases h
      exact ⟨Nat.le_refl _, out, fun i le above => by omega⟩
  | succ n ih =>
    unfold InputBatch.findNonEmpty at h
    split at h
    next mem =>
      have ⟨le, out, between⟩ := ih h
      refine ⟨Nat.le_succ_of_le le, out, fun i bound above => ?_⟩
      rcases Nat.lt_or_eq_of_le bound with before | last
      · exact between i (Nat.lt_succ_iff.mp before) above
      · exact last ▸ mem
    next out =>
      cases h
      exact ⟨Nat.le_refl _, out, fun i le above => by omega⟩

/-- What holds between two rounds of `condense`: the rows above `top` are empty, those
up to it are empty only where the builder still has them. -/
structure Sliding (b : InputBatch F S) (top : Nat) : Prop where
  above : ∀ i, top < i → b.idAt i = none
  below : ∀ i ≤ top, i ∈ b.batchUpdateBuilder.removedRows ∨ b.idAt i ≠ none
  slid : ∀ m ∈ b.batchUpdateBuilder.moved, (m.direct = .unidirectional ∧ m.i2 < m.i1) ∧
    top < m.i1 ∧ ∀ i ∈ b.batchUpdateBuilder.removedRows, m.i2 < i
  apart : SlidesApart b.batchUpdateBuilder.moved

/-- What `condense` keeps, and what it does to the log. -/
structure Condensed (config : BatchConfig F S) (kept : KeptRequests F S) (b b' : InputBatch F S) :
    Prop where
  coherent : Coherent config b' kept
  logged : config.isPoolingModel = false → ∀ c₀, Logged c₀ b kept → Logged c₀ b' kept
  oneWay : ∀ m ∈ b'.batchUpdateBuilder.moved, m.direct = .unidirectional ∧ m.i2 < m.i1
  apart : SlidesApart b'.batchUpdateBuilder.moved
  added : b'.batchUpdateBuilder.added = b.batchUpdateBuilder.added
  filled : ∀ m ∈ b'.batchUpdateBuilder.moved,
    m ∈ b.batchUpdateBuilder.moved ∨ m.i2 ∈ b.batchUpdateBuilder.removedRows
  numReqs : b'.numReqs = b.numReqs

theorem Logged.slide {c₀ : Rows (RowRequest F)} {last free : Nat} {id : ReqId}
    (generative : config.isPoolingModel = false) (h : Coherent config b kept)
    (logged : Logged c₀ b kept) (there : b.idAt last = some id)
    (slid : Slid config b b' last free) : Logged c₀ b' kept := by
  have live : last ∉ b.batchUpdateBuilder.removedRows := fun mem => by
    rw [h.freed last mem] at there
    cases there
  have contents : b'.contents kept = (b.contents kept).slide last free := by
    rw [InputBatch.contents, slid.idAt]
    exact Rows.project_move _ _ (.slide last free)
  unfold Logged
  rw [slid.removed, slid.added, slid.moved, recorded, if_neg (by rw [generative]; decide),
    map_append, contents]
  exact RowLog.slide logged live slid.popped.left

theorem mem_recorded {m m' : MovedRequest} (mem : m' ∈ recorded config m) : m' = m := by
  unfold recorded at mem
  split at mem
  · cases mem
  · exact mem_singleton.mp mem

theorem Sliding.slide {top last free : Nat} {id : ReqId} (h : Coherent config b kept)
    (sliding : Sliding b top) (between : ∀ i ≤ top, last < i → i ∈ b.batchUpdateBuilder.removedRows)
    (bound : last ≤ top) (there : b.idAt last = some id) (lower : free < last)
    (slid : Slid config b b' last free) : Sliding b' (last - 1) where
  above := by
    intro i behind
    rw [slid.idAt, Rows.slide_at, if_neg (by omega)]
    split
    · rfl
    next other =>
      by_cases inside : i ≤ top
      · exact h.freed i (between i inside (by omega))
      · exact sliding.above i (by omega)
  below := by
    intro i inside
    rw [slid.removed, slid.popped.left, slid.idAt, Rows.slide_at]
    by_cases at_free : i = free
    · rw [if_pos at_free, there]
      exact .inr nofun
    · rw [if_neg at_free, if_neg (by omega)]
      exact (sliding.below i (by omega)).imp_left fun mem => ⟨mem, at_free⟩
  slid := by
    intro m mem
    rw [slid.moved] at mem
    rcases mem_append.mp mem with old | new
    · have ⟨direct, above, under⟩ := sliding.slid m old
      refine ⟨direct, by omega, fun i left => ?_⟩
      rw [slid.removed, slid.popped.left] at left
      exact under i left.1
    · cases mem_recorded new
      refine ⟨⟨rfl, lower⟩, by simp only; omega, fun i left => ?_⟩
      rw [slid.removed, slid.popped.left] at left
      have := slid.popped.least i left.1
      simp only
      omega
  apart := by
    rw [SlidesApart, slid.moved, map_append, pairwise_append]
    refine ⟨sliding.apart, ?_, ?_⟩
    · unfold recorded
      split
      · exact List.Pairwise.nil
      · exact pairwise_singleton ..
    · intro m old m' new
      obtain ⟨x, mem, rfl⟩ := mem_map.mp old
      obtain ⟨y, last_move, rfl⟩ := mem_map.mp new
      cases mem_recorded last_move
      obtain ⟨⟨direct, -⟩, above, under⟩ := sliding.slid x mem
      have under := under free slid.popped.mem
      simp only [MovedRequest.rowMove, direct, Rows.Apart, RowMove.src, RowMove.dst]
      omega

theorem condenseLoop_condensed {n : Nat} : ∀ {b : InputBatch F S} {top : Nat},
    b.batchUpdateBuilder.removedRows.length = n → Coherent config b kept → Sliding b top →
    ∃ b', InputBatch.condenseLoop config n b top = some b' ∧ Condensed config kept b b' ∧
    ∃ m, ∀ i, b'.idAt i ≠ none ↔ i < m := by
  induction n with
  | zero =>
    intro b top empty h sliding
    have done := eq_nil_of_length_eq_zero empty
    refine ⟨b, rfl, ⟨h, fun _ _ logged => logged, fun m mem => (sliding.slid m mem).1,
      sliding.apart, rfl, fun m mem => .inl mem, rfl⟩, top + 1, fun i => ⟨fun used => ?_, fun inside => ?_⟩⟩
    · by_contra above
      exact used (sliding.above i (by omega))
    · refine (sliding.below i (by omega)).resolve_left ?_
      rw [done]
      exact not_mem_nil
  | succ n ih =>
    intro b top length h sliding
    have some_removed : b.batchUpdateBuilder.removedRows ≠ [] :=
      ne_nil_of_length_pos (by omega)
    have same := BatchUpdateBuilder.mem_ensureRemovedSorted b.batchUpdateBuilder
    have done : ∀ m, (∀ i, b.idAt i ≠ none ↔ i < m) → ∃ b', some b = some b' ∧
        Condensed config kept b b' ∧ ∃ m, ∀ i, b'.idAt i ≠ none ↔ i < m := fun m packed =>
      ⟨b, rfl, ⟨h, fun _ _ logged => logged, fun m mem => (sliding.slid m mem).1,
        sliding.apart, rfl, fun m mem => .inl mem, rfl⟩, m, packed⟩
    unfold InputBatch.condenseLoop
    split
    next all_empty =>
      refine done 0 fun i => ⟨fun used => ?_, fun inside => absurd inside (Nat.not_lt_zero i)⟩
      by_cases inside : i ≤ top
      · exact absurd (h.freed i ((same i).mp (findNonEmpty_none all_empty i inside))) used
      · exact absurd (sliding.above i (by omega)) used
    next last found =>
      have ⟨bound, live, between⟩ := findNonEmpty_some found
      have between : ∀ i ≤ top, last < i → i ∈ b.batchUpdateBuilder.removedRows :=
        fun i le above => (same i).mp (between i le above)
      have live : last ∉ b.batchUpdateBuilder.removedRows := fun mem => live ((same last).mpr mem)
      have used := (sliding.below last bound).resolve_left live
      obtain ⟨free, peeked, -, popped⟩ := BatchUpdateBuilder.popRemoved_some h.tidy some_removed
      rw [peeked]
      simp only
      split
      next crossed =>
        refine done (last + 1) fun i => ⟨fun filled => ?_, fun inside => ?_⟩
        · by_contra behind
          by_cases inside : i ≤ top
          · exact filled (h.freed i (between i inside (by omega)))
          · exact filled (sliding.above i (by omega))
        · refine (sliding.below i (by omega)).resolve_left fun mem => ?_
          have least := popped.least i mem
          have here : i = last := by omega
          exact live (here ▸ mem)
      next apart =>
        have lower : free < last := by omega
        obtain ⟨id, there⟩ := Option.ne_none_iff_exists'.mp used
        have inside : free < b.reqIds.length :=
          Nat.lt_trans lower (Rows.lt_of_ofList there)
        obtain ⟨b₁, slide, slid, coherent⟩ := h.slide popped there inside
        rw [slide]
        have left : b₁.batchUpdateBuilder.removedRows.length = n := by
          have := popped.length
          rw [slid.removed]
          omega
        obtain ⟨b', loop, condensed, packed⟩ := ih left coherent
          (Sliding.slide h sliding between bound there lower slid)
        refine ⟨b', loop, ?_, packed⟩
        exact {
          coherent := condensed.coherent
          logged := fun generative c₀ logged => condensed.logged generative c₀
            (logged.slide generative h there slid)
          oneWay := condensed.oneWay
          apart := condensed.apart
          added := condensed.added.trans slid.added
          filled := by
            intro m mem
            rcases condensed.filled m mem with old | hole
            · rw [slid.moved] at old
              rcases mem_append.mp old with before | last_move
              · exact .inl before
              · cases mem_recorded last_move
                exact .inr popped.mem
            · rw [slid.removed] at hole
              exact .inr ((popped.left m.i2).mp hole).1
          numReqs := condensed.numReqs.trans slid.numReqs }

def Packed (b : InputBatch F S) : Prop := ∀ i, i < b.reqIds.length ↔ b.idAt i ≠ none

theorem Packed.length_eq (h : Coherent config b kept) (packed : Packed b) :
    b.numReqs = b.reqIds.length := by
  have count := h.index.count [] nodup_nil (n := b.reqIds.length)
    (fun i => by rw [packed i]; simp) nofun
  simpa [InputBatch.numReqs] using count

theorem Coherent.ensured (h : Coherent config b kept) :
    Coherent config { b with
      batchUpdateBuilder := b.batchUpdateBuilder.ensureRemovedSorted } kept :=
  { h with
    tidy := h.tidy.ensured
    freed := fun i mem =>
      h.freed i ((BatchUpdateBuilder.mem_ensureRemovedSorted _ i).mp mem)
    blank := fun i absent =>
      ⟨(h.blank i absent).spec, (h.blank i absent).embeds, (h.blank i absent).sampling⟩ }

theorem Coherent.trim (h : Coherent config b kept) {m : Nat}
    (packed : ∀ i, b.idAt i ≠ none ↔ i < m) :
    Coherent config (b.trim m) kept ∧ Packed (b.trim m) := by
  have empty : ∀ i, m ≤ i → b.idAt i = none := fun i behind => by
    by_contra used
    exact absurd ((packed i).mp used) (Nat.not_lt.mpr behind)
  have idAt : (b.trim m).idAt = b.idAt := Rows.ofList_take empty
  have reach : m ≤ b.reqIds.length := by
    cases m with
    | zero => exact Nat.zero_le _
    | succ m =>
      obtain ⟨id, there⟩ := Option.ne_none_iff_exists'.mp ((packed m).mpr (Nat.lt_succ_self m))
      exact Rows.lt_of_ofList there
  have spec : ∀ i, (b.trim m).spec i = b.spec i := by
    intro i
    simp only [InputBatch.trim, InputBatch.spec, getD_eq_getElem?_getD]
    by_cases inside : i < m
    · rw [getElem?_take_of_lt inside]
    · have blank := (h.blank i (empty i (Nat.le_of_not_lt inside))).spec
      rw [InputBatch.spec, getD_eq_getElem?_getD] at blank
      rw [blank, getElem?_eq_none (by rw [length_take]; omega)]
      rfl
  have outputs : ∀ i, i < m →
      (b.trim m).reqOutputTokenIds.getD i none = b.reqOutputTokenIds.getD i none := by
    intro i inside
    simp only [InputBatch.trim, getD_eq_getElem?_getD, getElem?_take_of_lt inside]
  refine ⟨?_, fun i => ?_⟩
  · exact {
      tidy := h.tidy
      freed := by rw [idAt]; exact h.freed
      index := by rw [idAt]; exact h.index
      outputs_length := by
        simp only [InputBatch.trim, length_take, h.outputs_length]
      spec_length := by
        simp only [InputBatch.trim, length_take]
        have := h.spec_length
        omega
      blank := by
        intro i absent
        rw [idAt] at absent
        have old := h.blank i absent
        exact ⟨(spec i).trans old.spec, old.embeds, old.sampling⟩
      replayssm := h.replayssm
      groups := h.groups
      accepted_one := h.accepted_one
      rows := by
        intro i id there
        rw [idAt] at there
        obtain ⟨k, found, row⟩ := h.rows i id there
        have inside := (packed i).mp (there ▸ (by simp))
        have same : (b.trim m).row config i = b.row config i :=
          Coherent.row_congr (fun _ => rfl) (spec i) (outputs i inside) rfl fun _ => rfl
        exact ⟨k, found, same.trans row⟩
      known := h.known }
  · rw [idAt, packed i, InputBatch.trim, length_take, Nat.min_eq_left reach]

theorem condense_eq {e : InputBatch F S}
    (he : e = { b with batchUpdateBuilder := b.batchUpdateBuilder.ensureRemovedSorted }) :
    b.condense config =
      if e.batchUpdateBuilder.removedRows = [] then some e
      else if b.numReqs = 0 then
        some { e with reqIds := [], reqOutputTokenIds := [], specTokenIds := [] }
      else
        (InputBatch.condenseLoop config e.batchUpdateBuilder.removedRows.length e
          (b.numReqs + e.batchUpdateBuilder.removedRows.length - 1)).map
            fun b' => b'.trim b.numReqs := by
  rw [he]
  rfl

theorem Coherent.condense (h : Coherent config b kept) (filling : Filling b)
    (still : b.batchUpdateBuilder.moved = []) :
    ∃ b', b.condense config = some b' ∧ Condensed config kept b b' ∧ Packed b' := by
  have same := BatchUpdateBuilder.mem_ensureRemovedSorted b.batchUpdateBuilder
  obtain ⟨e, he⟩ : ∃ e : InputBatch F S, e = { b with
    batchUpdateBuilder := b.batchUpdateBuilder.ensureRemovedSorted } := ⟨_, rfl⟩
  have coherent : Coherent config e kept := he ▸ h.ensured
  have logged : ∀ c₀, Logged c₀ b kept → Logged c₀ e kept := by
    intro c₀ logged
    rw [he, Logged, BatchUpdateBuilder.ensureRemovedSorted_added,
      BatchUpdateBuilder.ensureRemovedSorted_moved]
    exact RowLog.perm logged same
  have still : e.batchUpdateBuilder.moved = [] := by
    rw [he, BatchUpdateBuilder.ensureRemovedSorted_moved]
    exact still
  have filling : Filling e := by
    intro i
    rw [he, same]
    exact filling i
  have numReqs : e.numReqs = b.numReqs := he ▸ rfl
  have apart : SlidesApart e.batchUpdateBuilder.moved := by
    rw [still]
    exact List.Pairwise.nil
  have unmoved : Condensed config kept b e := {
    coherent := coherent
    logged := fun _ => logged
    oneWay := by rw [still]; simp
    apart := apart
    added := by rw [he]; exact BatchUpdateBuilder.ensureRemovedSorted_added _
    filled := by rw [still]; simp
    numReqs := numReqs }
  have count := coherent.index.count _ coherent.tidy.nodup filling coherent.freed
  rw [condense_eq he]
  split
  next none_removed =>
    refine ⟨e, rfl, unmoved, fun i => ?_⟩
    rw [filling i, none_removed]
    simp
  next some_removed =>
    split
    next no_reqs =>
      have empty : e.idAt = fun _ => none := by
        funext i
        by_contra used
        have mem := (coherent.index.mem_values i).mpr used
        have positive := length_pos_of_mem mem
        rw [PyDict.values, length_map] at positive
        have : e.reqIdToIndex.items.length = 0 := numReqs.trans no_reqs
        omega
      have lists : Coherent config { e with
          reqIds := [], reqOutputTokenIds := [], specTokenIds := [] } kept := {
        tidy := coherent.tidy
        freed := fun _ _ => rfl
        index := by
          have := coherent.index
          rw [empty] at this
          exact this
        outputs_length := rfl
        spec_length := Nat.le_refl _
        blank := fun i _ => ⟨rfl, (coherent.blank i (congrFun empty i)).embeds,
          (coherent.blank i (congrFun empty i)).sampling⟩
        replayssm := coherent.replayssm
        groups := coherent.groups
        accepted_one := coherent.accepted_one
        rows := fun _ _ h => by cases h
        known := coherent.known }
      refine ⟨_, rfl, ?_, fun i => ?_⟩
      · exact {
          coherent := lists
          logged := fun generative c₀ before => by
            have now := logged c₀ before
            rw [Logged, InputBatch.contents, empty] at now
            exact now
          oneWay := unmoved.oneWay
          apart := unmoved.apart
          added := unmoved.added
          filled := unmoved.filled
          numReqs := numReqs }
      · exact ⟨fun inside => absurd inside (Nat.not_lt_zero i), fun used => absurd rfl used⟩
    next some_reqs =>
      have len : e.reqIds.length = b.numReqs + e.batchUpdateBuilder.removedRows.length := by
        rw [← numReqs]
        exact count.symm
      have positive := length_pos_of_ne_nil some_removed
      have sliding : Sliding e (b.numReqs + e.batchUpdateBuilder.removedRows.length - 1) := {
        above := fun i behind => Rows.ofList_behind (by omega)
        below := fun i inside => (filling i).mp (by omega)
        slid := by rw [still]; simp
        apart := apart }
      obtain ⟨b', loop, condensed, m, packed⟩ := condenseLoop_condensed rfl coherent sliding
      have total : b'.numReqs = m := by
        have count := condensed.coherent.index.count [] nodup_nil (n := m)
          (fun i => by rw [packed i]; simp) (by simp)
        simpa [InputBatch.numReqs] using count
      have kept_reqs : b.numReqs = m := by
        rw [← total, condensed.numReqs, numReqs]
      rw [loop, kept_reqs]
      obtain ⟨trimmed, full⟩ := condensed.coherent.trim packed
      refine ⟨_, rfl, ?_, full⟩
      exact {
        coherent := trimmed
        logged := fun generative c₀ before => by
          have now := condensed.logged generative c₀ (logged c₀ before)
          have idAt : (b'.trim m).idAt = b'.idAt := Rows.ofList_take fun i behind => by
            by_contra used
            exact absurd ((packed i).mp used) (Nat.not_lt.mpr behind)
          rw [Logged, InputBatch.contents] at now ⊢
          rw [idAt]
          exact now
        oneWay := condensed.oneWay
        apart := condensed.apart
        added := condensed.added.trans unmoved.added
        filled := by
          intro m mem
          rcases condensed.filled m mem with old | hole
          · rw [still] at old
            cases old
          · rw [he] at hole
            exact .inr ((same m.i2).mp hole)
        numReqs := total.trans kept_reqs.symm }

end Condense

section Swap

variable {i1 i2 : Nat}

/-- What `swap_states` changes. -/
structure Swapped (config : BatchConfig F S) (b b' : InputBatch F S) (i1 i2 : Nat) : Prop where
  live1 : b.idAt i1 ≠ none
  live2 : b.idAt i2 ≠ none
  idAt : b'.idAt = b.idAt.swap i1 i2
  length : b'.reqIds.length = b.reqIds.length
  builder : b'.batchUpdateBuilder = { b.batchUpdateBuilder with
    moved := b.batchUpdateBuilder.moved ++ recorded config ⟨i1, i2, .swap⟩ }

theorem Coherent.swap (h : Coherent config b kept) (swapped : b.swapStates config i1 i2 = some b') :
    Swapped config b b' i1 i2 ∧ Coherent config b' kept := by
  unfold InputBatch.swapStates at swapped
  split at swapped
  next id1 id2 there1 there2 =>
    split at swapped
    next x1 x2 found1 found2 =>
      have there1 : b.idAt i1 = some id1 := there1
      have there2 : b.idAt i2 = some id2 := there2
      cases h.index.unique there1 ((h.index id1 x1).mp found1)
      cases h.index.unique there2 ((h.index id2 x2).mp found2)
      have inside1 : i1 < b.reqIds.length := Rows.lt_of_ofList there1
      have inside2 : i2 < b.reqIds.length := Rows.lt_of_ofList there2
      have eq := Option.some.inj swapped
      have twice : ∀ {α : Type} (l : List α) (d : α), i1 < l.length → i2 < l.length → ∀ j,
          ((l.set i1 (l.getD i2 d)).set i2 (l.getD i1 d)).getD j d =
            if j = i2 then l.getD i1 d else if j = i1 then l.getD i2 d else l.getD j d := by
        intro α l d in1 in2 j
        rw [getD_set (by rw [length_set]; exact in2), getD_set in1]
      have at_row : ∀ j, b'.idAt j =
          if j = i2 then b.idAt i1 else if j = i1 then b.idAt i2 else b.idAt j := by
        intro j
        rw [← eq]
        exact twice b.reqIds none inside1 inside2 j
      have spec : ∀ j, b'.spec j =
          if j = i2 then b.spec i1 else if j = i1 then b.spec i2 else b.spec j := by
        intro j
        rw [← eq]
        exact twice b.specTokenIds [] (Nat.lt_of_lt_of_le inside1 h.spec_length)
          (Nat.lt_of_lt_of_le inside2 h.spec_length) j
      have outputs : ∀ j, b'.reqOutputTokenIds.getD j none =
          if j = i2 then b.reqOutputTokenIds.getD i1 none
          else if j = i1 then b.reqOutputTokenIds.getD i2 none
          else b.reqOutputTokenIds.getD j none := by
        intro j
        rw [← eq]
        exact twice b.reqOutputTokenIds none (h.outputs_length.symm ▸ inside1)
          (h.outputs_length.symm ▸ inside2) j
      have tokens : b'.tokens = b.tokens.swap i1 i2
          (max (b.getActiveTokenCount i1) (b.getActiveTokenCount i2)) := by
        rw [← eq]
        rfl
      have sampling : b'.sampling =
          if config.isPoolingModel then b.sampling else b.sampling.swap i1 i2 := by
        rw [← eq]
        rfl
      have index : b'.reqIdToIndex = (b.reqIdToIndex.set id1 i2).set id2 i1 := by
        rw [← eq]
      have builder : b'.batchUpdateBuilder = { b.batchUpdateBuilder with
          moved := b.batchUpdateBuilder.moved ++ recorded config ⟨i1, i2, .swap⟩ } := by
        rw [← eq]
        simp only [InputBatch.swapRows, InputBatch.recordMove, recorded]
        split
        · rw [append_nil]
        · rfl
      have accepted : ∀ j, b'.sampling.numAcceptedTokens j =
          if j = i2 then b.sampling.numAcceptedTokens i1
          else if j = i1 then b.sampling.numAcceptedTokens i2
          else b.sampling.numAcceptedTokens j := by
        intro j
        rw [sampling]
        split
        next pooling => simp only [h.accepted_one pooling, ite_self]
        next => exact swapAt_at _ _ _ _
      have sampled : config.isPoolingModel = false → ∀ j, b'.sampling.row j =
          if j = i2 then b.sampling.row i1 else if j = i1 then b.sampling.row i2
          else b.sampling.row j := by
        intro generative j
        rw [sampling, if_neg (by rw [generative]; exact Bool.false_ne_true)]
        exact b.sampling.swap_at i1 i2 j
      have token2 : b'.tokens.row i2 (b.spec i1).length =
          b.tokens.row i1 (b.spec i1).length := by
        rw [tokens]
        exact b.tokens.swap_snd (Nat.le_max_left ..)
      have token1 : i1 ≠ i2 → b'.tokens.row i1 (b.spec i2).length =
          b.tokens.row i2 (b.spec i2).length := by
        intro other
        rw [tokens]
        exact b.tokens.swap_fst other (Nat.le_max_right ..)
      have token_off : ∀ j n, j ≠ i1 → j ≠ i2 → b'.tokens.row j n = b.tokens.row j n := by
        intro j n not_1 not_2
        rw [tokens]
        exact b.tokens.swap_off not_1 not_2
      have row : ∀ j, b'.row config j =
          if j = i2 then b.row config i1 else if j = i1 then b.row config i2
          else b.row config j := by
        intro j
        have params : (if config.isPoolingModel then none else some (b'.sampling.row j)) =
            if config.isPoolingModel then none
            else some (if j = i2 then b.sampling.row i1 else if j = i1 then b.sampling.row i2
              else b.sampling.row j) := by
          split
          · rfl
          next generative => rw [sampled (Bool.eq_false_iff.mpr generative)]
        have drafts := spec j
        have outs := outputs j
        have ones := accepted j
        by_cases at_2 : j = i2
        · subst at_2
          simp only [if_true] at drafts outs ones params ⊢
          simp only [InputBatch.row, drafts, outs, ones, params, token2]
        · by_cases at_1 : j = i1
          · subst at_1
            simp only [if_neg at_2, if_true] at drafts outs ones params ⊢
            simp only [InputBatch.row, drafts, outs, ones, params, token1 at_2]
          · simp only [if_neg at_2, if_neg at_1] at drafts outs ones params ⊢
            simp only [InputBatch.row, drafts, outs, ones, params, token_off j _ at_1 at_2]
      have other_row : ∀ j, b'.idAt j = none → j ≠ i1 ∧ j ≠ i2 ∧ b.idAt j = none := by
        intro j absent
        rw [at_row] at absent
        split at absent
        · rw [there1] at absent
          cases absent
        next not_2 =>
          split at absent
          · rw [there2] at absent
            cases absent
          next not_1 => exact ⟨not_1, not_2, absent⟩
      refine ⟨?_, ?_⟩
      · exact {
          live1 := by rw [there1]; simp
          live2 := by rw [there2]; simp
          idAt := funext fun j => (at_row j).trans (Rows.swap_at ..).symm
          length := by
            rw [← eq]
            simp only [InputBatch.swapRows, length_set]
          builder := builder }
      · exact {
          tidy := by
            rw [builder]
            exact ⟨h.tidy.nodup, h.tidy.sorted⟩
          freed := by
            intro j mem
            rw [builder] at mem
            have absent := h.freed j mem
            rw [at_row]
            split
            next at_2 => rw [at_2, there2] at absent; cases absent
            next =>
              split
              next at_1 => rw [at_1, there1] at absent; cases absent
              next => exact absent
          index := by
            have inverse := h.index.swap there1 there2
            rw [index, show b'.idAt = b.idAt.swap i1 i2 from
              funext fun j => (at_row j).trans (Rows.swap_at ..).symm]
            exact inverse
          outputs_length := by
            rw [← eq]
            simp only [InputBatch.swapRows, length_set, h.outputs_length]
          spec_length := by
            rw [← eq]
            simp only [InputBatch.swapRows, length_set, h.spec_length]
          blank := by
            intro j absent
            obtain ⟨not_1, not_2, before⟩ := other_row j absent
            have old := h.blank j before
            exact {
              spec := (spec j).trans ((if_neg not_2).trans ((if_neg not_1).trans old.spec))
              embeds := (congrArg TokenRow.promptEmbeds (token_off j 0 not_1 not_2)).trans
                old.embeds
              sampling := fun generative => by
                rw [sampled generative j, if_neg not_2, if_neg not_1]
                exact old.sampling generative }
          replayssm := by
            rw [tokens]
            exact h.replayssm
          groups := by
            rw [tokens, ← h.groups]
            simp only [TokenArrays.swap, map_map]
            rfl
          accepted_one := by
            intro pooling j
            rw [accepted]
            simp only [h.accepted_one pooling, ite_self]
          rows := by
            intro j id there
            rw [at_row] at there
            rw [row]
            split at there
            next at_2 =>
              rw [if_pos at_2]
              exact h.rows i1 id there
            next not_2 =>
              rw [if_neg not_2]
              split at there
              next at_1 =>
                rw [if_pos at_1]
                exact h.rows i2 id there
              next not_1 =>
                rw [if_neg not_1]
                exact h.rows j id there
          known := by
            intro id absent
            rw [index, PyDict.get?_set, PyDict.get?_set] at absent
            split at absent
            · cases absent
            · split at absent
              · cases absent
              · exact h.known id absent }
    next => cases swapped
  next => cases swapped

theorem Packed.swap (packed : Packed b) (swapped : Swapped config b b' i1 i2) : Packed b' := by
  intro j
  rw [swapped.length, packed j, swapped.idAt, Rows.swap_at]
  split
  next at_2 => rw [at_2]; exact ⟨fun _ => swapped.live1, fun _ => swapped.live2⟩
  next =>
    split
    next at_1 => rw [at_1]; exact ⟨fun _ => swapped.live2, fun _ => swapped.live1⟩
    next => exact Iff.rfl

theorem Logged.swap {c₀ : Rows (RowRequest F)} (generative : config.isPoolingModel = false)
    (h : Coherent config b kept) (logged : Logged c₀ b kept)
    (swapped : Swapped config b b' i1 i2) : Logged c₀ b' kept := by
  have live : ∀ i, b.idAt i ≠ none → i ∉ b.batchUpdateBuilder.removedRows :=
    fun i used mem => used (h.freed i mem)
  have contents : b'.contents kept = (b.contents kept).swap i1 i2 := by
    rw [InputBatch.contents, swapped.idAt]
    exact Rows.project_move _ _ (.swap i1 i2)
  unfold Logged
  rw [swapped.builder, recorded, if_neg (by rw [generative]; decide), map_append, contents]
  exact RowLog.swap logged (live i1 swapped.live1) (live i2 swapped.live2)

end Swap

end VllmAmpere.PersistentBatch
