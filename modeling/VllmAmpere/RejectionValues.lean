import VllmAmpere.RejectionKernels

/-! The arg-max of a row of scores, and that the recovered-token kernel finds it tile by tile. -/

open List

namespace VllmAmpere.RejectionSampler

variable {R : Type} [LinearOrder R]

theorem maxIndex_cons (score : WithBot R) (scores : List (WithBot R)) :
    maxIndex (score :: scores) =
      if score < (maxIndex scores).1 then ((maxIndex scores).1, (maxIndex scores).2 + 1)
      else (score, 0) := rfl

theorem maxIndex_bot {scores : List (WithBot R)} (h : (maxIndex scores).1 = ⊥) :
    maxIndex scores = (⊥, 0) := by
  cases scores with
  | nil => rfl
  | cons score scores =>
    rw [maxIndex_cons] at h ⊢
    by_cases lt : score < (maxIndex scores).1
    · rw [if_pos lt] at h
      exact absurd (h ▸ lt) not_lt_bot
    · rw [if_neg lt] at h ⊢
      rw [show score = ⊥ from h]

theorem maxIndex_replicate_bot (n : Nat) :
    maxIndex (List.replicate n (⊥ : WithBot R)) = (⊥, 0) := by
  induction n with
  | zero => rfl
  | succ n ih => rw [replicate_succ, maxIndex_cons, ih, if_neg not_lt_bot]

theorem maxIndex_append (xs ys : List (WithBot R)) : maxIndex (xs ++ ys) =
    if (maxIndex xs).1 < (maxIndex ys).1 then ((maxIndex ys).1, xs.length + (maxIndex ys).2)
    else maxIndex xs := by
  induction xs with
  | nil =>
    by_cases lt : (⊥ : WithBot R) < (maxIndex ys).1
    · simp [maxIndex, lt]
    · rw [nil_append, maxIndex_bot (not_bot_lt_iff.mp lt)]
      simp [maxIndex]
  | cons x xs ih =>
    obtain ⟨m, hm⟩ : ∃ m, m = maxIndex ys := ⟨_, rfl⟩
    rw [cons_append, maxIndex_cons, ih, maxIndex_cons, ← hm]
    by_cases later : (maxIndex xs).1 < m.1
    · rw [if_pos later]
      by_cases first : x < (maxIndex xs).1
      · rw [if_pos (first.trans later), if_pos first, if_pos later]
        simp [Nat.add_right_comm]
      · rw [if_neg first]
        by_cases lt : x < m.1
        · rw [if_pos lt, if_pos lt]
          simp [Nat.add_right_comm]
        · rw [if_neg lt, if_neg lt]
    · rw [if_neg later]
      by_cases first : x < (maxIndex xs).1
      · rw [if_pos first, if_neg later]
      · have lt : ¬ x < m.1 := fun lt => later ((not_lt.mp first).trans_lt lt)
        rw [if_neg first, if_neg lt]

theorem maxIndex_lt {scores : List (WithBot R)} (nonempty : 0 < scores.length) :
    (maxIndex scores).2 < scores.length := by
  induction scores with
  | nil => simp at nonempty
  | cons score scores ih =>
    rw [maxIndex_cons]
    by_cases lt : score < (maxIndex scores).1
    · have more : 0 < scores.length := by
        apply length_pos_iff.mpr
        rintro rfl
        exact not_lt_bot lt
      simpa [lt] using ih more
    · simp [lt]

theorem argmax_lt {row : List R} (nonempty : 0 < row.length) : argmax row < row.length := by
  have inside : 0 < (row.map WithBot.some).length := by simpa using nonempty
  have := maxIndex_lt inside
  simpa [argmax] using this

def paddedScore (score : Nat → R) (vocabSize o : Nat) : WithBot R :=
  if o < vocabSize then score o else ⊥

variable {load : Nat → Option R} {score : Nat → R}

theorem recoveredTile_reads {vocabSize : Nat}
    (loads : ∀ o < vocabSize, load o = some (score o)) (blockSize : Nat)
    (best : WithBot R × Nat) (v : Nat) :
    recoveredTile load vocabSize blockSize best v =
      (let tile :=
        maxIndex ((List.range blockSize).map fun i => paddedScore score vocabSize (v + i))
      some (if best.1 < tile.1 then (tile.1, v + tile.2) else best)) := by
  have reads : (List.range blockSize).mapM (fun i =>
      if v + i < vocabSize then (load (v + i)).map WithBot.some else some ⊥) =
      some ((List.range blockSize).map fun i => paddedScore score vocabSize (v + i)) := by
    have each : (fun i => if v + i < vocabSize then (load (v + i)).map WithBot.some else some ⊥) =
        fun i => some (paddedScore score vocabSize (v + i)) := by
      funext i
      by_cases inside : v + i < vocabSize
      · simp [inside, loads _ inside, paddedScore]
      · simp [inside, paddedScore]
    rw [each]
    exact mapM_pure
  rw [recoveredTile, reads]
  rfl

theorem recoveredTiles {vocabSize : Nat}
    (loads : ∀ o < vocabSize, load o = some (score o)) (blockSize k : Nat) :
    ((List.range k).map (· * blockSize)).foldlM (recoveredTile load vocabSize blockSize) (⊥, 0) =
    some (maxIndex ((List.range (k * blockSize)).map (paddedScore score vocabSize))) := by
  induction k with
  | zero => simp [maxIndex]
  | succ k ih =>
    have next : (List.range ((k + 1) * blockSize)).map (paddedScore score vocabSize) =
        (List.range (k * blockSize)).map (paddedScore score vocabSize) ++
          (List.range blockSize).map fun i => paddedScore score vocabSize (k * blockSize + i) := by
      rw [Nat.succ_mul, range_add, map_append, map_map]
      rfl
    rw [range_succ, map_append, foldlM_append, ih, next, maxIndex_append]
    simp [recoveredTile_reads loads]

omit [LinearOrder R] in
theorem paddedScores (score : Nat → R) {vocabSize total : Nat} (covers : vocabSize ≤ total) :
    (List.range total).map (paddedScore score vocabSize) =
    ((List.range vocabSize).map score).map WithBot.some ++
    List.replicate (total - vocabSize) ⊥ := by
  obtain ⟨rest, rfl⟩ := Nat.exists_eq_add_of_le covers
  rw [range_add, map_append, Nat.add_sub_cancel_left]
  congr 1
  · rw [map_map]
    apply map_congr_left
    intro o ho
    simp [paddedScore, mem_range.mp ho]
  · rw [map_map, eq_replicate_iff]
    constructor
    · simp
    · intro s hs
      obtain ⟨i, -, rfl⟩ := mem_map.mp hs
      simp [paddedScore]

theorem recoveredTiles_argmax
    {vocabSize blockSize : Nat} (loads : ∀ o < vocabSize, load o = some (score o))
    (block_pos : 0 < blockSize) :
    (((List.range (cdiv vocabSize blockSize)).map (· * blockSize)).foldlM
    (recoveredTile load vocabSize blockSize) (⊥, 0)).map Prod.snd =
    some (argmax ((List.range vocabSize).map score)) := by
  have covers : vocabSize ≤ cdiv vocabSize blockSize * blockSize := cdiv_mul_ge block_pos
  rw [recoveredTiles loads, paddedScores score covers, maxIndex_append, maxIndex_replicate_bot,
    if_neg not_lt_bot]
  rfl

/-! The requests of a speculative step, each with everything that is its own, and the buffers
`rejection_sample` is called with for a batch of them. -/

variable [Field R]

/-- `softmax(dim=-1)` on one row. -/
structure Softmax (R : Type) where
  toFun : List R → List R
  length_eq : ∀ xs, (toFun xs).length = xs.length

/-- One draft position of a request. -/
structure Position (R : Type) (vocabSize : Nat) where
  draftTokenId : Int
  draftProbs : List R
  targetLogits : List R
  uniformProb : R
  emptyRecovered : Int
  draft_lt : draftTokenId < vocabSize
  draftProbs_length : draftProbs.length = vocabSize
  targetLogits_length : targetLogits.length = vocabSize

/-- One request of a step: its drafts, its row of the noise and the bonus token sampled for it. -/
structure Row (R : Type) (vocabSize maxSpecLen : Nat) where
  positions : List (Position R vocabSize)
  bonusTokenId : Int
  temperature : R
  q : List R
  positions_le : positions.length ≤ maxSpecLen
  q_length : q.length = vocabSize
  bonus_valid : 0 ≤ bonusTokenId ∧ bonusTokenId < vocabSize

/-- The call for a batch, flattened as `SpecDecodeMetadata` lays it out. -/
def batchArgs {vocabSize maxSpecLen : Nat} (withDraftProbs : Bool)
    (rows : List (Row R vocabSize maxSpecLen)) : Args R where
  draftTokenIds := rows.flatMap fun row => row.positions.map (·.draftTokenId)
  numDraftTokens := rows.map (·.positions.length)
  maxSpecLen := maxSpecLen
  cuNumDraftTokens := cumsum (rows.map (·.positions.length))
  draftProbs :=
    if withDraftProbs then some (rows.flatMap fun row => row.positions.map (·.draftProbs)) else none
  targetLogits := rows.flatMap fun row => row.positions.map (·.targetLogits)
  bonusTokenIds := rows.map (·.bonusTokenId)
  metadata := samplingMetadata (rows.map (·.temperature))
  syntheticConditionalRates := none
  uniformProbs := rows.flatMap fun row => row.positions.map (·.uniformProb)
  q := rows.map (·.q)
  vocabSize := vocabSize
  emptyRecovered := rows.flatMap fun row => row.positions.map (·.emptyRecovered)

section Emitted

/-- The tokens stored for these verdicts: up to the first rejected position, or all of them and
the bonus token. -/
def emitted : List (Int × Bool) → Int → List Int
  | [], bonus => [bonus]
  | (tokenId, true) :: verdicts, bonus => tokenId :: emitted verdicts bonus
  | (tokenId, false) :: _, _ => [tokenId]

theorem emitted_length (verdicts : List (Int × Bool)) (bonus : Int) :
    0 < (emitted verdicts bonus).length ∧
    (emitted verdicts bonus).length ≤ verdicts.length + 1 := by
  induction verdicts with
  | nil => simp [emitted]
  | cons v verdicts ih =>
    obtain ⟨tokenId, accepted⟩ := v
    cases accepted with
    | false => simp [emitted]
    | true => simpa [emitted] using ih.2

theorem emitted_forall {p : Int → Prop} {verdicts : List (Int × Bool)} {bonus : Int}
    (tokens : ∀ v ∈ verdicts, p v.1) (last : p bonus) : ∀ t ∈ emitted verdicts bonus, p t := by
  induction verdicts with
  | nil => simpa [emitted] using last
  | cons v verdicts ih =>
    obtain ⟨tokenId, accepted⟩ := v
    have first : p tokenId := tokens _ mem_cons_self
    cases accepted with
    | false => simpa [emitted] using first
    | true =>
      intro t ht
      obtain rfl | ht := mem_cons.mp ht
      · exact first
      · exact ih (fun v hv => tokens v (mem_cons_of_mem _ hv)) t ht

theorem loop_rejected (verdict : Nat → Option (Int × Bool)) (row : Nat)
    (stores : List (Int × Nat)) (positions : List Nat) :
    positions.foldlM (loopStep verdict row) ⟨true, stores⟩ = some ⟨true, stores⟩ := by
  induction positions with
  | nil => rfl
  | cons pos positions ih =>
    rw [foldlM_cons, loopStep, if_pos rfl]
    exact ih

theorem loop_emitted {verdict : Nat → Option (Int × Bool)} (row : Nat) (bonus : Int)
    (verdicts : List (Int × Bool)) (k : Nat) (stores : List (Int × Nat))
    (reads : ∀ i, (hi : i < verdicts.length) → verdict (k + i) = some verdicts[i]) :
    ((List.range' k verdicts.length).foldlM (loopStep verdict row) ⟨false, stores⟩).map
    (fun s => if s.rejected then s.stores else s.stores ++ [(bonus, row + (k + verdicts.length))]) =
    some (stores ++ (emitted verdicts bonus).zipIdx (row + k)) := by
  induction verdicts generalizing k stores with
  | nil => simp [emitted]
  | cons v verdicts ih =>
    obtain ⟨tokenId, accepted⟩ := v
    have here : verdict k = some (tokenId, accepted) := reads 0 (Nat.zero_lt_succ _)
    have step : loopStep verdict row ⟨false, stores⟩ k =
        some ⟨!accepted, stores ++ [(tokenId, row + k)]⟩ := by
      rw [loopStep, if_neg Bool.false_ne_true, here, Option.map_some]
    rw [length_cons, range'_succ, foldlM_cons, step]
    cases accepted with
    | false =>
      have done := loop_rejected verdict row (stores ++ [(tokenId, row + k)])
        (List.range' (k + 1) verdicts.length)
      simp only [Option.bind_eq_bind, Option.bind_some, Bool.not_false, done]
      simp [emitted]
    | true =>
      have later := ih (k + 1) (stores ++ [(tokenId, row + k)]) fun i hi => by
        have := reads (i + 1) (Nat.succ_lt_succ hi)
        rwa [← Nat.add_assoc, Nat.add_right_comm] at this
      have last : k + 1 + verdicts.length = k + (verdicts.length + 1) := by omega
      rw [last] at later
      simpa [emitted, Nat.add_assoc] using later

theorem rejectionProgram_emitted {verdict : Nat → Option (Int × Bool)} {bonusTokenIds : List Int}
    {maxSpecLen r : Nat} {bonus : Int} {verdicts : List (Int × Bool)}
    (reads : ∀ i, (hi : i < verdicts.length) → verdict i = some verdicts[i])
    (bonus_at : bonusTokenIds[r]? = some bonus) :
    rejectionProgram verdict bonusTokenIds maxSpecLen r verdicts.length =
    some ((emitted verdicts bonus).zipIdx (r * (maxSpecLen + 1))) := by
  have loop := @loop_emitted verdict (r * (maxSpecLen + 1)) bonus verdicts 0 [] (by simpa using reads)
  simp only [Nat.zero_add, nil_append, Nat.add_zero] at loop
  obtain ⟨s, found, result⟩ := Option.map_eq_some_iff.mp loop
  rw [← range_eq_range'] at found
  simp only [rejectionProgram, found, Option.bind_eq_bind, Option.bind_some, bonus_at]
  rw [← result]
  split <;> rfl

end Emitted

/-! What `rejection_sample` returns for a batch, row by row: the row of a request holds the tokens
its own drafts, logits, noise and bonus token decide, and placeholders behind them. -/

variable {vocabSize maxSpecLen : Nat}

section Values

variable (withDraftProbs : Bool) (softmax : Softmax R) (p : Position R vocabSize)

def Position.greedyVerdict : Int × Bool :=
  (argmax p.targetLogits, decide (p.draftTokenId = argmax p.targetLogits))

def Position.draftProb (v : Nat) : R :=
  if withDraftProbs then p.draftProbs.getD v 0 else 1

def Position.targetProb (v : Nat) : R :=
  (softmax.toFun p.targetLogits).getD v 0

def Position.accepted : Bool :=
  if p.draftTokenId < 0 then false
  else
    let x := p.draftTokenId.toNat
    decide (0 < p.draftProb withDraftProbs x) &&
      decide (p.uniformProb ≤ p.targetProb softmax x / p.draftProb withDraftProbs x)

def Position.residual (v : Nat) : R :=
  if withDraftProbs then max (p.targetProb softmax v - p.draftProb true v) 0
  else if (v : Int) = p.draftTokenId then 0 else p.targetProb softmax v

def Position.recovered (q : List R) : Nat :=
  argmax ((List.range vocabSize).map fun v =>
    p.residual withDraftProbs softmax v * (q.getD v 0)⁻¹)

def Position.randomVerdict (q : List R) : Int × Bool :=
  if p.accepted withDraftProbs softmax then (p.draftTokenId, true)
  else (p.recovered withDraftProbs softmax q, false)

def Row.tokens (row : Row R vocabSize maxSpecLen) : List Int :=
  if row.temperature = 0 then
    emitted (row.positions.map Position.greedyVerdict) row.bonusTokenId
  else
    emitted (row.positions.map (Position.randomVerdict withDraftProbs softmax · row.q))
      row.bonusTokenId

variable (row : Row R vocabSize maxSpecLen)

omit [Field R] [LinearOrder R] in
theorem Row.vocab_pos (row : Row R vocabSize maxSpecLen) : 0 < vocabSize := by
  have := row.bonus_valid
  omega

theorem Row.tokens_length : 0 < (row.tokens withDraftProbs softmax).length ∧
    (row.tokens withDraftProbs softmax).length ≤ maxSpecLen + 1 := by
  have fits := row.positions_le
  rw [Row.tokens]
  split
  · have := emitted_length (row.positions.map Position.greedyVerdict) row.bonusTokenId
    rw [length_map] at this
    omega
  · have := emitted_length
      (row.positions.map (Position.randomVerdict withDraftProbs softmax · row.q)) row.bonusTokenId
    rw [length_map] at this
    omega

omit [Field R] in
theorem Position.argmax_lt (vocab_pos : 0 < vocabSize) :
    argmax p.targetLogits < vocabSize := by
  have nonempty : 0 < p.targetLogits.length := p.targetLogits_length.symm ▸ vocab_pos
  have := RejectionSampler.argmax_lt nonempty
  rwa [p.targetLogits_length] at this

theorem Position.recovered_lt (q : List R) (vocab_pos : 0 < vocabSize) :
    p.recovered withDraftProbs softmax q < vocabSize := by
  have := @RejectionSampler.argmax_lt R _ ((List.range vocabSize).map fun v =>
    p.residual withDraftProbs softmax v * (q.getD v 0)⁻¹) (by simpa using vocab_pos)
  rwa [length_map, length_range] at this

theorem Row.tokens_valid : ∀ t ∈ row.tokens withDraftProbs softmax, 0 ≤ t ∧ t < vocabSize := by
  have vocab_pos := row.vocab_pos
  rw [Row.tokens]
  split
  · refine @emitted_forall (fun t => 0 ≤ t ∧ t < (vocabSize : Int)) _ _ ?_ row.bonus_valid
    intro v hv
    obtain ⟨p, -, rfl⟩ := mem_map.mp hv
    have := p.argmax_lt vocab_pos
    simp only [Position.greedyVerdict]
    omega
  · refine @emitted_forall (fun t => 0 ≤ t ∧ t < (vocabSize : Int)) _ _ ?_ row.bonus_valid
    intro v hv
    obtain ⟨p, -, rfl⟩ := mem_map.mp hv
    have lt := p.draft_lt
    have recovered := p.recovered_lt withDraftProbs softmax row.q vocab_pos
    rw [Position.randomVerdict]
    by_cases accepted : p.accepted withDraftProbs softmax
    · have nonneg : ¬ p.draftTokenId < 0 := by
        intro neg
        simp [Position.accepted, neg] at accepted
      simp only [accepted, if_true]
      omega
    · simp only [accepted, Bool.false_eq_true, if_false]
      omega

end Values

section Reads

variable {withDraftProbs : Bool} {rows : List (Row R vocabSize maxSpecLen)} {r : Nat}
  {row : Row R vocabSize maxSpecLen}

/-- Where the drafts of the `r`-th request begin. -/
def rowStart (rows : List (Row R vocabSize maxSpecLen)) (r : Nat) : Nat :=
  offset (fun row => row.positions.length) rows r

theorem start_read (at_r : rows[r]? = some row) :
    startIdx (batchArgs withDraftProbs rows).buffers.cuNumDraftTokens r = some (rowStart rows r) := by
  obtain ⟨inside, -⟩ := List.getElem?_eq_some_iff.mp at_r
  exact startIdx_cumsum inside

theorem stop_read (at_r : rows[r]? = some row) :
    (batchArgs withDraftProbs rows).buffers.cuNumDraftTokens[r]? =
    some (rowStart rows r + row.positions.length) := by
  obtain ⟨inside, -⟩ := List.getElem?_eq_some_iff.mp at_r
  rw [rowStart, ← offset_succ at_r]
  exact cumsum_getElem? inside

omit [Field R] [LinearOrder R] in
theorem position_read {β : Type} (field : Position R vocabSize → β) (at_r : rows[r]? = some row)
    {pos : Nat} (inside : pos < row.positions.length) :
    (rows.flatMap fun row => row.positions.map field)[rowStart rows r + pos]? =
    some (field row.positions[pos]) := by
  rw [rowStart, flatMap_getElem? (by simp) at_r inside]
  simp [inside]

omit [Field R] [LinearOrder R] in
theorem vocab_read {β : Type} (field : Position R vocabSize → List β)
    (widths : ∀ p, (field p).length = vocabSize) (at_r : rows[r]? = some row) {pos v : Nat}
    (inside : pos < row.positions.length) (inVocab : v < vocabSize) :
    (rows.flatMap fun row => row.positions.map field).flatten[
    (rowStart rows r + pos) * vocabSize + v]? = (field row.positions[pos])[v]? := by
  apply flatten_getElem? _ (position_read field at_r inside) inVocab
  intro x hx
  obtain ⟨row, -, hx⟩ := mem_flatMap.mp hx
  obtain ⟨p, -, rfl⟩ := mem_map.mp hx
  exact widths p

end Reads

end VllmAmpere.RejectionSampler
