import Mathlib.Data.List.GetD
import VllmAmpere.RejectionValues

/-! The programs of `rejection_sample` on a flattened batch: each stores the tokens of its own
request, so that the call returns the rows of `Row.tokens` whatever order the programs take. -/

open List

namespace VllmAmpere.RejectionSampler

variable {R : Type} [Field R] [LinearOrder R] {vocabSize maxSpecLen : Nat}
  {withDraftProbs : Bool} {softmax : Softmax R} {blockSize : Nat}
  {rows : List (Row R vocabSize maxSpecLen)} {r : Nat} {row : Row R vocabSize maxSpecLen}

section Flags

theorem allGreedy_iff : (batchArgs withDraftProbs rows).metadata.allGreedy = true ↔
    ∀ row ∈ rows, row.temperature = 0 := by
  simp [batchArgs, samplingMetadata]

theorem allRandom_iff : (batchArgs withDraftProbs rows).metadata.allRandom = true ↔
    ∀ row ∈ rows, row.temperature ≠ 0 := by
  simp [batchArgs, samplingMetadata]

theorem isGreedy_mixed (mixed : (batchArgs withDraftProbs rows).metadata.allGreedy = false) :
    (batchArgs withDraftProbs rows).isGreedy =
    some (rows.map fun row => decide (row.temperature = 0)) := by
  have temperatures : (batchArgs withDraftProbs rows).metadata.temperature =
      some (rows.map (·.temperature)) := by
    have := mixed
    simp only [batchArgs, samplingMetadata] at this ⊢
    rw [if_neg (by simp [this])]
  rw [Args.isGreedy, mixed, if_neg Bool.false_ne_true, temperatures]
  simp

theorem greedyFlag_read (at_r : rows[r]? = some row) :
    greedyFlag (batchArgs withDraftProbs rows).isGreedy r =
    some (decide (row.temperature = 0)) := by
  cases mixed : (batchArgs withDraftProbs rows).metadata.allGreedy with
  | true =>
    have zero := allGreedy_iff.mp mixed row (mem_of_getElem? at_r)
    rw [Args.isGreedy, mixed, if_pos rfl, greedyFlag, zero, decide_eq_true rfl]
  | false =>
    rw [isGreedy_mixed mixed, greedyFlag, getElem?_map, at_r, Option.map_some]

theorem bonus_read (at_r : rows[r]? = some row) :
    (batchArgs withDraftProbs rows).buffers.bonusTokenIds[r]? = some row.bonusTokenId := by
  simp [batchArgs, Args.buffers, at_r]

end Flags

section Programs

def Row.greedyStores (row : Row R vocabSize maxSpecLen) : List Int :=
  if row.temperature = 0 then
    emitted (row.positions.map Position.greedyVerdict) row.bonusTokenId
  else []

variable {pos : Nat}

section

variable (at_r : rows[r]? = some row)
include at_r

theorem greedyVerdict_read (inside : pos < row.positions.length) :
    greedyVerdict (batchArgs withDraftProbs rows).buffers
    ((batchArgs withDraftProbs rows).targetLogits.map argmax) (rowStart rows r) pos =
    some row.positions[pos].greedyVerdict := by
  have draft := position_read (fun p => p.draftTokenId) at_r inside
  have logits := position_read (fun p => p.targetLogits) at_r inside
  simp only [greedyVerdict, Args.buffers, batchArgs, draft, getElem?_map, logits,
    Option.map_some, Option.bind_eq_bind, Option.bind_some, Position.greedyVerdict]

theorem greedyProgram :
    rejectionGreedySampleKernel (batchArgs withDraftProbs rows).buffers
    ((batchArgs withDraftProbs rows).targetLogits.map argmax)
    (batchArgs withDraftProbs rows).isGreedy maxSpecLen r =
    some (row.greedyStores.zipIdx (r * (maxSpecLen + 1))) := by
  rw [rejectionGreedySampleKernel, greedyFlag_read at_r, Option.bind_eq_bind, Option.bind_some,
    Row.greedyStores]
  by_cases greedy : row.temperature = 0
  · have start := @start_read _ _ _ _ _ withDraftProbs _ _ _ at_r
    have stop := @stop_read _ _ _ _ _ withDraftProbs _ _ _ at_r
    have program := @rejectionProgram_emitted
      (greedyVerdict (batchArgs withDraftProbs rows).buffers
        ((batchArgs withDraftProbs rows).targetLogits.map argmax) (rowStart rows r))
      (batchArgs withDraftProbs rows).buffers.bonusTokenIds maxSpecLen r row.bonusTokenId
      (row.positions.map Position.greedyVerdict)
      (fun i hi => by
        rw [getElem_map]
        exact greedyVerdict_read at_r (by simpa using hi))
      (bonus_read at_r)
    rw [length_map] at program
    simp only [start, stop, Option.bind_eq_bind, Option.bind_some, Nat.add_sub_cancel_left, greedy,
      decide_true, if_true]
    exact program
  · simp [greedy]

theorem targetProb_read {pos v : Nat}
    (inside : pos < row.positions.length) (inVocab : v < vocabSize) :
    ((batchArgs withDraftProbs rows).targetLogits.map softmax.toFun).flatten[
    (rowStart rows r + pos) * vocabSize + v]? = some (row.positions[pos].targetProb softmax v) := by
  have flat : ((batchArgs withDraftProbs rows).targetLogits.map softmax.toFun).flatten =
      (rows.flatMap fun row => row.positions.map fun p =>
        softmax.toFun p.targetLogits).flatten := by
    simp [batchArgs, map_flatMap, Function.comp_def]
  have widths : ∀ p : Position R vocabSize, (softmax.toFun p.targetLogits).length = vocabSize :=
    fun p => (softmax.length_eq _).trans p.targetLogits_length
  have inRow : v < (softmax.toFun row.positions[pos].targetLogits).length := by rwa [widths]
  rw [flat, vocab_read _ widths at_r inside inVocab, getElem?_eq_getElem inRow,
    Position.targetProb, getD_eq_getElem _ _ inRow]

theorem draftProb_read {pos v : Nat}
    (inside : pos < row.positions.length) (inVocab : v < vocabSize) :
    draftProb (batchArgs withDraftProbs rows).buffers vocabSize (rowStart rows r + pos) v =
    some (row.positions[pos].draftProb withDraftProbs v) := by
  cases withDraftProbs with
  | true =>
    have inRow : v < row.positions[pos].draftProbs.length := by
      rwa [row.positions[pos].draftProbs_length]
    have read := vocab_read (fun p => p.draftProbs) (fun p => p.draftProbs_length) at_r inside
      inVocab
    rw [getElem?_eq_getElem inRow] at read
    simp only [draftProb, Args.buffers, batchArgs, if_true, Option.map_some, read,
      Position.draftProb, getD_eq_getElem _ _ inRow]
  | false => rfl

theorem residual_read {pos v : Nat}
    (inside : pos < row.positions.length) (inVocab : v < vocabSize) :
    recoveredProb (batchArgs withDraftProbs rows).buffers
    ((batchArgs withDraftProbs rows).targetLogits.map softmax.toFun).flatten vocabSize
    (rowStart rows r + pos) v = some (row.positions[pos].residual withDraftProbs softmax v) := by
  have target := @targetProb_read _ _ _ _ _ withDraftProbs softmax _ _ _ at_r _ _ inside inVocab
  cases withDraftProbs with
  | true =>
    have draft := @draftProb_read _ _ _ _ _ true _ _ _ at_r _ _ inside inVocab
    have probs : (batchArgs true rows).buffers.draftProbs =
        some (rows.flatMap fun row => row.positions.map (·.draftProbs)).flatten := rfl
    rw [draftProb, probs] at draft
    simp only [recoveredProb, probs, draft, target, Option.bind_eq_bind, Option.bind_some,
      Position.residual, if_true]
  | false =>
    have draft : (batchArgs false rows).buffers.draftTokenIds[rowStart rows r + pos]? =
        some row.positions[pos].draftTokenId :=
      position_read (fun p => p.draftTokenId) at_r inside
    have probs : (batchArgs false rows).buffers.draftProbs = none := rfl
    simp only [recoveredProb, probs, draft, target, Option.bind_eq_bind, Option.bind_some,
      Position.residual, Bool.false_eq_true, if_false]
    split <;> rfl

theorem noise_read {v : Nat} (inVocab : v < vocabSize) :
    ((batchArgs withDraftProbs rows).q.flatten.map (·⁻¹))[r * vocabSize + v]? =
    some (row.q.getD v 0)⁻¹ := by
  have widths : ∀ q ∈ rows.map (·.q), q.length = vocabSize := by
    intro q hq
    obtain ⟨row, -, rfl⟩ := mem_map.mp hq
    exact row.q_length
  have read := flatten_getElem? widths (show (rows.map (·.q))[r]? = some row.q by simp [at_r])
    inVocab
  have length : v < row.q.length := by rwa [row.q_length]
  rw [getElem?_eq_getElem length] at read
  rw [getElem?_map, batchArgs, read, Option.map_some, getD_eq_getElem _ _ length]

end

def Row.recovered (withDraftProbs : Bool) (softmax : Softmax R)
    (row : Row R vocabSize maxSpecLen) : List Int :=
  row.positions.map fun p => (p.recovered withDraftProbs softmax row.q : Int)

theorem recoveredProgram (block_pos : 0 < blockSize) (at_r : rows[r]? = some row) (pos : Nat) :
    sampleRecoveredTokensKernel (batchArgs withDraftProbs rows).buffers
    ((batchArgs withDraftProbs rows).targetLogits.map softmax.toFun).flatten
    ((batchArgs withDraftProbs rows).q.flatten.map (·⁻¹)) vocabSize blockSize r pos =
    some (((row.recovered withDraftProbs softmax)[pos]?.map fun tokenId =>
    (tokenId, rowStart rows r + pos)).toList) := by
  have start := @start_read _ _ _ _ _ withDraftProbs _ _ _ at_r
  have stop := @stop_read _ _ _ _ _ withDraftProbs _ _ _ at_r
  simp only [sampleRecoveredTokensKernel, start, stop, Option.bind_eq_bind,
    Option.bind_some, Nat.add_sub_cancel_left]
  by_cases inside : pos < row.positions.length
  · obtain ⟨p, hp⟩ : ∃ p, p = row.positions[pos] := ⟨_, rfl⟩
    have loads : ∀ v < vocabSize,
        recoveredScore (batchArgs withDraftProbs rows).buffers
          ((batchArgs withDraftProbs rows).targetLogits.map softmax.toFun).flatten
          ((batchArgs withDraftProbs rows).q.flatten.map (·⁻¹)) vocabSize r
          (rowStart rows r + pos) v =
        some (p.residual withDraftProbs softmax v * (row.q.getD v 0)⁻¹) := by
      intro v inVocab
      rw [recoveredScore, residual_read at_r inside inVocab, noise_read at_r inVocab, hp]
      rfl
    have best := recoveredTiles_argmax loads block_pos
    obtain ⟨found, run, id⟩ := Option.map_eq_some_iff.mp best
    have lt := p.recovered_lt withDraftProbs softmax row.q row.vocab_pos
    have recovered : found.2 = p.recovered withDraftProbs softmax row.q := id
    have clipped : min found.2 (vocabSize - 1) = found.2 := by omega
    rw [if_neg (by omega)]
    rw [run, Option.bind_some, clipped, recovered, Row.recovered, getElem?_map,
      getElem?_eq_getElem inside, hp]
    rfl
  · have outside : row.positions.length ≤ pos := by omega
    have none_left : (row.recovered withDraftProbs softmax)[pos]? = none := by
      simpa [Row.recovered] using outside
    rw [if_pos outside, none_left]
    rfl

def Row.randomStores (withDraftProbs : Bool) (softmax : Softmax R)
    (row : Row R vocabSize maxSpecLen) : List Int :=
  if row.temperature = 0 then []
  else
    emitted (row.positions.map (Position.randomVerdict withDraftProbs softmax · row.q))
      row.bonusTokenId

section

variable (mixed : (batchArgs withDraftProbs rows).metadata.allGreedy = false)
  (at_r : rows[r]? = some row)
include mixed at_r

theorem accepted_read (inside : pos < row.positions.length) :
    randomAccepts (batchArgs withDraftProbs rows).buffers
    ((batchArgs withDraftProbs rows).targetLogits.map softmax.toFun).flatten vocabSize
    (rowStart rows r) pos row.positions[pos].draftTokenId =
    some (row.positions[pos].accepted withDraftProbs softmax) := by
  obtain ⟨p, hp⟩ : ∃ p, p = row.positions[pos] := ⟨_, rfl⟩
  have uniform : ((batchArgs withDraftProbs rows).buffers.uniformProbs.getD [])[
      rowStart rows r + pos]? = some p.uniformProb := by
    have drawn : (batchArgs withDraftProbs rows).buffers.uniformProbs =
        some (rows.flatMap fun row => row.positions.map (·.uniformProb)) := by
      rw [Args.buffers, mixed]
      rfl
    rw [drawn, Option.getD_some, position_read _ at_r inside, hp]
  rw [← hp, randomAccepts, uniform, Option.bind_eq_bind, Option.bind_some, Position.accepted]
  by_cases padded : p.draftTokenId < 0
  · rw [if_pos padded, if_pos padded]
  · have inVocab : p.draftTokenId.toNat < vocabSize := by
      have := p.draft_lt
      omega
    have target := @targetProb_read _ _ _ _ _ withDraftProbs softmax _ _ _ at_r _ _ inside inVocab
    have draft := @draftProb_read _ _ _ _ _ withDraftProbs _ _ _ at_r _ _ inside inVocab
    have rates : (batchArgs withDraftProbs rows).buffers.syntheticConditionalRates = none := rfl
    rw [← hp] at target draft
    rw [if_neg padded, if_neg padded]
    simp only [rates, draft, target, Option.bind_some]

theorem randomVerdict_read (inside : pos < row.positions.length) :
    randomVerdict (batchArgs withDraftProbs rows).buffers
    ((batchArgs withDraftProbs rows).targetLogits.map softmax.toFun).flatten
    (rows.flatMap (Row.recovered withDraftProbs softmax)) vocabSize (rowStart rows r) pos =
    some (row.positions[pos].randomVerdict withDraftProbs softmax row.q) := by
  have draft : (batchArgs withDraftProbs rows).buffers.draftTokenIds[rowStart rows r + pos]? =
      some row.positions[pos].draftTokenId :=
    position_read (fun p => p.draftTokenId) at_r inside
  have recovered : (rows.flatMap (Row.recovered withDraftProbs softmax))[
      rowStart rows r + pos]? =
      some (row.positions[pos].recovered withDraftProbs softmax row.q : Int) := by
    rw [rowStart, flatMap_getElem? (by simp [Row.recovered]) at_r inside]
    simp [Row.recovered, inside]
  rw [randomVerdict, draft, Option.bind_eq_bind, Option.bind_some, accepted_read mixed at_r inside,
    Option.bind_eq_bind, Option.bind_some, recovered, Position.randomVerdict]
  split <;> rfl

theorem randomProgram :
    rejectionRandomSampleKernel (batchArgs withDraftProbs rows).buffers
    ((batchArgs withDraftProbs rows).targetLogits.map softmax.toFun).flatten
    (rows.flatMap (Row.recovered withDraftProbs softmax))
    ((batchArgs withDraftProbs rows).isGreedy.getD []) maxSpecLen vocabSize r =
    some ((row.randomStores withDraftProbs softmax).zipIdx (r * (maxSpecLen + 1))) := by
  have flag : ((batchArgs withDraftProbs rows).isGreedy.getD [])[r]? =
      some (decide (row.temperature = 0)) := by
    rw [isGreedy_mixed mixed, Option.getD_some, getElem?_map, at_r, Option.map_some]
  rw [rejectionRandomSampleKernel, flag, Option.bind_eq_bind, Option.bind_some, Row.randomStores]
  by_cases greedy : row.temperature = 0
  · simp [greedy]
  · have start := @start_read _ _ _ _ _ withDraftProbs _ _ _ at_r
    have stop := @stop_read _ _ _ _ _ withDraftProbs _ _ _ at_r
    have program := @rejectionProgram_emitted
      (randomVerdict (batchArgs withDraftProbs rows).buffers
        ((batchArgs withDraftProbs rows).targetLogits.map softmax.toFun).flatten
        (rows.flatMap (Row.recovered withDraftProbs softmax)) vocabSize (rowStart rows r))
      (batchArgs withDraftProbs rows).buffers.bonusTokenIds maxSpecLen r row.bonusTokenId
      (row.positions.map (Position.randomVerdict withDraftProbs softmax · row.q))
      (fun i hi => by
        rw [getElem_map]
        exact randomVerdict_read mixed at_r (by simpa using hi))
      (bonus_read at_r)
    rw [length_map] at program
    simp only [start, stop, Option.bind_eq_bind, Option.bind_some, Nat.add_sub_cancel_left, greedy,
      decide_false, if_false, Bool.false_eq_true]
    exact program

end

end Programs

/-! `rejection_sample` and `parse_output` on a batch: the call has exactly one result, whatever
order its programs run in, and a request's part of it is decided by that request alone. -/

section Grids

variable {ρ : Type*}

theorem grid_rows {xs : List ρ} {kernel : Nat → Option (List (Int × Nat))}
    {program : ρ → Nat → List (Int × Nat)}
    (each : ∀ r x, xs[r]? = some x → kernel r = some (program x r)) :
    (List.range xs.length).map kernel = (xs.zipIdx.map fun (x, r) => program x r).map some := by
  apply ext_getElem
  · simp
  · intro r inside _
    have bound : r < xs.length := by simpa using inside
    simp [each r xs[r] (getElem?_eq_getElem bound)]

theorem launches_rows {xs : List ρ} {w : Nat} {f g : ρ → List Int}
    {kernel : Nat → Option (List (Int × Nat))} {buf' : List Int}
    (widths : ∀ x ∈ xs, (f x).length = w) (fits : ∀ x ∈ xs, (g x).length ≤ w)
    (each : ∀ r x, xs[r]? = some x → kernel r = some ((g x).zipIdx (r * w))) :
    Launches ((List.range xs.length).map kernel) (xs.flatMap f) buf' ↔
    buf' = xs.flatMap fun x => overwrite (g x) (f x) := by
  apply launches_parts widths fits (grid_rows each)
  rw [← flatMap_def]
  apply flatMap_congr
  rintro ⟨x, r⟩ mem
  have inside := (mem_zipIdx mem).2.1
  change (g x).zipIdx (r * w) = (g x).zipIdx (offset (fun _ => w) xs r)
  rw [offset_const w (by omega)]

end Grids

variable {out : List Int}

theorem greedyLaunch_iff {f : Row R vocabSize maxSpecLen → List Int}
    (widths : ∀ row ∈ rows, (f row).length = maxSpecLen + 1) :
    (batchArgs withDraftProbs rows).greedyLaunch (rows.flatMap f) out ↔
    out = rows.flatMap fun row => overwrite row.greedyStores (f row) := by
  have batch : (batchArgs withDraftProbs rows).numDraftTokens.length = rows.length :=
    length_map _
  rw [Args.greedyLaunch, batch]
  apply launches_rows widths
  · intro row _
    have fits := row.positions_le
    have emits := emitted_length (row.positions.map Position.greedyVerdict) row.bonusTokenId
    rw [length_map] at emits
    rw [Row.greedyStores]
    split
    · omega
    · simp
  · intro r row at_r
    exact greedyProgram at_r

theorem randomLaunch_iff {f : Row R vocabSize maxSpecLen → List Int}
    (mixed : rows ≠ [] → (batchArgs withDraftProbs rows).metadata.allGreedy = false)
    (widths : ∀ row ∈ rows, (f row).length = maxSpecLen + 1) :
    (batchArgs withDraftProbs rows).randomLaunch softmax.toFun
    (rows.flatMap (Row.recovered withDraftProbs softmax)) (rows.flatMap f) out ↔
    out = rows.flatMap fun row => overwrite (row.randomStores withDraftProbs softmax) (f row) := by
  have batch : (batchArgs withDraftProbs rows).numDraftTokens.length = rows.length :=
    length_map _
  rw [Args.randomLaunch, batch]
  apply launches_rows widths
  · intro row _
    have fits := row.positions_le
    have emits := emitted_length
      (row.positions.map (Position.randomVerdict withDraftProbs softmax · row.q)) row.bonusTokenId
    rw [length_map] at emits
    rw [Row.randomStores]
    split
    · simp
    · omega
  · intro r row at_r
    have nonempty : rows ≠ [] := ne_nil_of_mem (mem_of_getElem? at_r)
    exact randomProgram (mixed nonempty) at_r

theorem recovered_stores (row : Row R vocabSize maxSpecLen) (start : Nat) :
    ((List.range maxSpecLen).map fun pos =>
    ((row.recovered withDraftProbs softmax)[pos]?.map fun tokenId =>
    (tokenId, start + pos)).toList).flatten =
    (row.recovered withDraftProbs softmax).zipIdx start := by
  obtain ⟨xs, hxs⟩ : ∃ xs, xs = row.recovered withDraftProbs softmax := ⟨_, rfl⟩
  have fits : xs.length ≤ maxSpecLen := by
    simpa [hxs, Row.recovered] using row.positions_le
  rw [← hxs]
  clear hxs
  generalize maxSpecLen = m at fits
  induction xs generalizing start m with
  | nil => simp
  | cons x xs ih =>
    obtain ⟨m, rfl⟩ : ∃ k, m = k + 1 := ⟨m - 1, by simp at fits; omega⟩
    have later := ih (start + 1) m (by simpa using fits)
    rw [range_succ_eq_map, map_cons, map_map, flatten_cons, zipIdx_cons,
      ← later]
    simp [Function.comp_def, Nat.add_assoc, Nat.add_comm 1]

theorem recoveredLaunch_iff (block_pos : 0 < blockSize) {recovered : List Int} :
    (batchArgs withDraftProbs rows).recoveredLaunch softmax.toFun blockSize recovered ↔
    recovered = rows.flatMap (Row.recovered withDraftProbs softmax) := by
  have batch : (batchArgs withDraftProbs rows).numDraftTokens.length = rows.length :=
    length_map _
  have filled : (rows.flatMap fun row => overwrite (row.recovered withDraftProbs softmax)
      (row.positions.map (·.emptyRecovered))) =
      rows.flatMap (Row.recovered withDraftProbs softmax) := by
    apply flatMap_congr
    intro row _
    simp [overwrite, Row.recovered]
  have launch := @launches_parts (Row R vocabSize maxSpecLen) (fun row => row.positions.length)
    rows (fun row => row.positions.map (·.emptyRecovered)) (Row.recovered withDraftProbs softmax)
    ((List.range rows.length).flatMap fun reqIdx => (List.range maxSpecLen).map
      (sampleRecoveredTokensKernel (batchArgs withDraftProbs rows).buffers
        ((batchArgs withDraftProbs rows).targetLogits.map softmax.toFun).flatten
        ((batchArgs withDraftProbs rows).q.flatten.map (·⁻¹)) vocabSize blockSize reqIdx))
    (rows.zipIdx.flatMap fun held => (List.range maxSpecLen).map fun pos =>
      ((held.1.recovered withDraftProbs softmax)[pos]?.map fun tokenId =>
        (tokenId, rowStart rows held.2 + pos)).toList)
    recovered (by simp) (by simp [Row.recovered])
  rw [filled] at launch
  rw [Args.recoveredLaunch, batch]
  apply launch
  · have indices : List.range rows.length = rows.zipIdx.map Prod.snd := by
      rw [zipIdx_map_snd, range_eq_range']
    rw [indices, flatMap_map, map_flatMap]
    apply flatMap_congr
    rintro ⟨row, r⟩ mem
    have at_r : rows[r]? = some row := by
      have := mem_zipIdx_iff_getElem?.mp mem
      simpa using this
    rw [map_map]
    apply map_congr_left
    intro pos _
    exact recoveredProgram block_pos at_r pos
  · rw [← flatMap_id, flatMap_assoc]
    apply flatMap_congr
    rintro ⟨row, r⟩ _
    rw [flatMap_id]
    exact recovered_stores row (rowStart rows r)

def placeholderRow (maxSpecLen : Nat) : List Int :=
  List.replicate (maxSpecLen + 1) placeholderTokenId

theorem placeholders_rows : (batchArgs withDraftProbs rows).placeholders =
    rows.flatMap fun _ => placeholderRow maxSpecLen := by
  have batch : (batchArgs withDraftProbs rows).numDraftTokens.length = rows.length :=
    length_map _
  rw [Args.placeholders, batch]
  clear batch
  induction rows with
  | nil => simp
  | cons row rows ih =>
    rw [flatMap_cons, ← ih, length_cons, Nat.succ_mul, Nat.add_comm,
      replicate_add]
    rfl

theorem overwrite_tokens (row : Row R vocabSize maxSpecLen) (blank : List Int) :
    overwrite (row.randomStores withDraftProbs softmax) (overwrite row.greedyStores blank) =
    overwrite (row.tokens withDraftProbs softmax) blank := by
  rw [Row.randomStores, Row.greedyStores, Row.tokens]
  split <;> simp

theorem rejectionSample_rows (block_pos : 0 < blockSize) :
    RejectionSample softmax.toFun blockSize (batchArgs withDraftProbs rows) out ↔
    out = rows.flatMap fun row =>
    overwrite (row.tokens withDraftProbs softmax) (placeholderRow maxSpecLen) := by
  have blank : ∀ row ∈ rows, (placeholderRow maxSpecLen).length = maxSpecLen + 1 :=
    fun _ _ => length_replicate
  have written : ∀ row ∈ rows,
      (overwrite row.greedyStores (placeholderRow maxSpecLen)).length = maxSpecLen + 1 := by
    intro row _
    have fits := row.positions_le
    have emits := emitted_length (row.positions.map Position.greedyVerdict) row.bonusTokenId
    rw [length_map] at emits
    have short : row.greedyStores.length ≤ (placeholderRow maxSpecLen).length := by
      rw [Row.greedyStores, placeholderRow, length_replicate]
      split
      · omega
      · simp
    rw [overwrite_length short, placeholderRow, length_replicate]
  rw [RejectionSample, placeholders_rows]
  cases allRandom : (batchArgs withDraftProbs rows).metadata.allRandom with
  | true =>
    have temperatures := allRandom_iff.mp allRandom
    have mixed : rows ≠ [] → (batchArgs withDraftProbs rows).metadata.allGreedy = false := by
      intro nonempty
      obtain ⟨row, mem⟩ := exists_mem_of_ne_nil rows nonempty
      apply Bool.eq_false_iff.mpr
      intro all
      exact temperatures row mem (allGreedy_iff.mp all row mem)
    have same : (rows.flatMap fun row =>
        overwrite (row.randomStores withDraftProbs softmax) (placeholderRow maxSpecLen)) =
        rows.flatMap fun row =>
          overwrite (row.tokens withDraftProbs softmax) (placeholderRow maxSpecLen) := by
      apply flatMap_congr
      intro row mem
      rw [Row.randomStores, Row.tokens, if_neg (temperatures row mem),
        if_neg (temperatures row mem)]
    simp only [if_true, Bool.not_true, Bool.false_and, Bool.false_eq_true, if_false,
      exists_eq_left, recoveredLaunch_iff block_pos, randomLaunch_iff mixed blank, same]
  | false =>
    simp only [Bool.false_eq_true, if_false, Bool.not_false, Bool.true_and, greedyLaunch_iff blank,
      exists_eq_left]
    cases allGreedy : (batchArgs withDraftProbs rows).metadata.allGreedy with
    | true =>
      have temperatures := allGreedy_iff.mp allGreedy
      have same : (rows.flatMap fun row =>
          overwrite row.greedyStores (placeholderRow maxSpecLen)) =
          rows.flatMap fun row =>
            overwrite (row.tokens withDraftProbs softmax) (placeholderRow maxSpecLen) := by
        apply flatMap_congr
        intro row mem
        rw [Row.greedyStores, Row.tokens, if_pos (temperatures row mem),
          if_pos (temperatures row mem)]
      rw [if_pos rfl, same]
    | false =>
      simp only [Bool.false_eq_true, if_false, recoveredLaunch_iff block_pos, exists_eq_left,
        randomLaunch_iff (fun _ => allGreedy) written, overwrite_tokens]

theorem rejectionSample_exists (block_pos : 0 < blockSize)
    (rows : List (Row R vocabSize maxSpecLen)) :
    ∃ out, RejectionSample softmax.toFun blockSize (batchArgs withDraftProbs rows) out :=
  ⟨_, (rejectionSample_rows block_pos).mpr rfl⟩

section Parsing

theorem rowsOf_flatMap {ρ : Type*} {xs : List ρ} {w : Nat} {f : ρ → List Int}
    (widths : ∀ x ∈ xs, (f x).length = w) : rowsOf xs.length w (xs.flatMap f) = xs.map f := by
  apply ext_getElem
  · simp [rowsOf]
  · intro i inside _
    have bound : i < xs.length := by simpa [rowsOf] using inside
    have at_i : xs[i]? = some xs[i] := getElem?_eq_getElem bound
    have own : (f xs[i]).length = w := widths _ (getElem_mem bound)
    have start : ((xs.take i).flatMap f).length = i * w := by
      rw [flatMap_length fun x hx => widths x (mem_of_mem_take hx),
        ← offset_const w bound.le, offset]
    have parts : xs.flatMap f =
        (xs.take i).flatMap f ++ (f xs[i] ++ (xs.drop (i + 1)).flatMap f) := by
      rw [← flatMap_cons, ← flatMap_append, ← split_at at_i]
    have stop : (i + 1) * w = ((xs.take i).flatMap f).length + w := by
      rw [start, Nat.succ_mul]
    simp only [rowsOf, getElem_map, getElem_range, slice]
    rw [parts, stop, take_length_add_append, drop_left' start, take_left' own]

theorem parsed_row (row : Row R vocabSize maxSpecLen) :
    (overwrite (row.tokens withDraftProbs softmax) (placeholderRow maxSpecLen)).filter
    (fun t => decide (t ≠ placeholderTokenId) && decide (t < vocabSize)) =
    row.tokens withDraftProbs softmax := by
  have blank : ((placeholderRow maxSpecLen).drop
      (row.tokens withDraftProbs softmax).length).filter
        (fun t => decide (t ≠ placeholderTokenId) && decide (t < vocabSize)) = [] := by
    simp [placeholderRow]
  rw [overwrite, filter_append, blank, append_nil, filter_eq_self]
  intro t ht
  have valid := row.tokens_valid withDraftProbs softmax t ht
  have real : t ≠ placeholderTokenId := by
    rintro rfl
    exact absurd valid.1 (by decide)
  simp [real, valid.2]

theorem parseOutput_rows {out : List Int} {discardReqIndices : List Nat} (block_pos : 0 < blockSize)
    (call : RejectionSample softmax.toFun blockSize (batchArgs withDraftProbs rows) out) :
    parseOutput (rowsOf rows.length (maxSpecLen + 1) out) vocabSize discardReqIndices =
    rows.zipIdx.map fun (row, i) =>
    if i ∈ discardReqIndices then [] else row.tokens withDraftProbs softmax := by
  have widths : ∀ row ∈ rows, (overwrite (row.tokens withDraftProbs softmax)
      (placeholderRow maxSpecLen)).length = maxSpecLen + 1 := by
    intro row _
    have fits := (row.tokens_length withDraftProbs softmax).2
    rw [overwrite_length (by rwa [placeholderRow, length_replicate]), placeholderRow,
      length_replicate]
  rw [(rejectionSample_rows block_pos).mp call, rowsOf_flatMap widths, parseOutput,
    zipIdx_map, map_map]
  apply map_congr_left
  rintro ⟨row, i⟩ _
  have kept := @parsed_row R _ _ _ _ withDraftProbs softmax row
  simp only [Function.comp_apply, Prod.map_apply, id, kept]

end Parsing

end VllmAmpere.RejectionSampler
