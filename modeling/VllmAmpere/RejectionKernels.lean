import Mathlib.Algebra.BigOperators.Group.List.Basic
import Mathlib.Algebra.Order.Field.Basic
import VllmAmpere.KernelStores
import VllmAmpere.Python

/-! The kernels of `v1/sample/rejection_sampler.py` over flat buffers, `rejection_sample` that
launches them and `RejectionSampler.parse_output`. A program returns its stores; it returns `none`
where it would load outside a buffer. -/

open List

namespace VllmAmpere.RejectionSampler

def placeholderTokenId : Int := -1

section Kernels

variable {R : Type} [Field R] [LinearOrder R]

/-- `start_idx` of a request: its drafts begin where those of the request before it end. -/
def startIdx (cuNumDraftTokens : List Nat) (reqIdx : Nat) : Option Nat :=
  if reqIdx = 0 then some 0 else cuNumDraftTokens[reqIdx - 1]?

/-- What the loop over the draft positions carries. -/
structure LoopState where
  rejected : Bool
  stores : List (Int × Nat)

variable (verdict : Nat → Option (Int × Bool))

/-- One position: the token to store and whether the draft was accepted, unless an earlier
position was rejected. -/
def loopStep (row : Nat) (s : LoopState) (pos : Nat) :
    Option LoopState :=
  if s.rejected then some s
  else (verdict pos).map fun (tokenId, accepted) =>
    ⟨!accepted, s.stores ++ [(tokenId, row + pos)]⟩

/-- The loop of both kernels with the bonus token behind it. -/
def rejectionProgram (bonusTokenIds : List Int)
    (maxSpecLen reqIdx numDraftTokens : Nat) : Option (List (Int × Nat)) := do
  let row := reqIdx * (maxSpecLen + 1)
  let s ← (List.range numDraftTokens).foldlM (loopStep verdict row) ⟨false, []⟩
  if s.rejected then some s.stores
  else
    let bonusTokenId ← bonusTokenIds[reqIdx]?
    some (s.stores ++ [(bonusTokenId, row + numDraftTokens)])

/-- The buffers of `rejection_sample` that its kernels read. -/
structure Buffers (R : Type) where
  cuNumDraftTokens : List Nat
  draftTokenIds : List Int
  draftProbs : Option (List R)
  bonusTokenIds : List Int
  uniformProbs : Option (List R)
  syntheticConditionalRates : Option (List R)

variable (b : Buffers R)

def greedyVerdict (targetArgmax : List Nat) (start pos : Nat) : Option (Int × Bool) := do
  let draftTokenId ← b.draftTokenIds[start + pos]?
  let targetArgmaxId ← targetArgmax[start + pos]?
  match b.syntheticConditionalRates with
  | some rates =>
    let uniformProb ← (b.uniformProbs.getD [])[start + pos]?
    let rate ← rates[pos]?
    -- -1 is used for padded draft token ids that should be rejected
    let accepted := decide (uniformProb < rate) && decide (0 ≤ draftTokenId)
    some (if accepted then draftTokenId else targetArgmaxId, accepted)
  | none => some (targetArgmaxId, decide (draftTokenId = targetArgmaxId))

/-- `True if is_greedy_ptr is None else tl.load(is_greedy_ptr + req_idx)`. -/
def greedyFlag (isGreedy : Option (List Bool)) (reqIdx : Nat) : Option Bool :=
  match isGreedy with
  | none => some true
  | some flags => flags[reqIdx]?

def rejectionGreedySampleKernel (targetArgmax : List Nat) (isGreedy : Option (List Bool))
    (maxSpecLen reqIdx : Nat) : Option (List (Int × Nat)) := do
  let greedy ← greedyFlag isGreedy reqIdx
  if greedy then
    let start ← startIdx b.cuNumDraftTokens reqIdx
    let stop ← b.cuNumDraftTokens[reqIdx]?
    rejectionProgram (greedyVerdict b targetArgmax start) b.bonusTokenIds maxSpecLen reqIdx
      (stop - start)
  else some []

def draftProb (vocabSize tokenIdx tokenId : Nat) : Option R :=
  match b.draftProbs with
  | none => some 1
  | some probs => probs[tokenIdx * vocabSize + tokenId]?

variable (targetProbs : List R)

/-- Whether the random kernel accepts the draft at `pos`. -/
def randomAccepts (vocabSize start pos : Nat) (draftTokenId : Int) :
    Option Bool := do
  let uniformProb ← (b.uniformProbs.getD [])[start + pos]?
  if draftTokenId < 0 then some false
  else
    match b.syntheticConditionalRates with
    | some rates =>
      let rate ← rates[pos]?
      some (decide (uniformProb < rate))
    | none =>
      let draftProb ← draftProb b vocabSize (start + pos) draftTokenId.toNat
      let targetProb ← targetProbs[(start + pos) * vocabSize + draftTokenId.toNat]?
      some (decide (0 < draftProb) && decide (uniformProb ≤ targetProb / draftProb))

def randomVerdict (recoveredTokenIds : List Int)
    (vocabSize start pos : Nat) : Option (Int × Bool) := do
  let draftTokenId ← b.draftTokenIds[start + pos]?
  let accepted ← randomAccepts b targetProbs vocabSize start pos draftTokenId
  if accepted then some (draftTokenId, true)
  else
    let tokenId ← recoveredTokenIds[start + pos]?
    some (tokenId, false)

def rejectionRandomSampleKernel (recoveredTokenIds : List Int)
    (isGreedy : List Bool) (maxSpecLen vocabSize reqIdx : Nat) :
    Option (List (Int × Nat)) := do
  let greedy ← isGreedy[reqIdx]?
  if greedy then some []
  else
    let start ← startIdx b.cuNumDraftTokens reqIdx
    let stop ← b.cuNumDraftTokens[reqIdx]?
    rejectionProgram (randomVerdict b targetProbs recoveredTokenIds vocabSize start)
      b.bonusTokenIds maxSpecLen reqIdx (stop - start)

/-- What is left of the target probability of a token once the draft is taken out. -/
def recoveredProb (vocabSize tokenIdx v : Nat) : Option R :=
  match b.draftProbs with
  | none => do
    let draftTokenId ← b.draftTokenIds[tokenIdx]?
    if (v : Int) = draftTokenId then some 0 else targetProbs[tokenIdx * vocabSize + v]?
  | some draftProbs => do
    let draftProb ← draftProbs[tokenIdx * vocabSize + v]?
    let targetProb ← targetProbs[tokenIdx * vocabSize + v]?
    some (max (targetProb - draftProb) 0)

def recoveredScore (targetProbs invQ : List R) (vocabSize reqIdx tokenIdx v : Nat) :
    Option R := do
  let prob ← recoveredProb b targetProbs vocabSize tokenIdx v
  let invQ ← invQ[reqIdx * vocabSize + v]?
  some (prob * invQ)

/-- `tl.max(score, axis=0, return_indices=True)`, ties broken to the left. -/
def maxIndex : List (WithBot R) → WithBot R × Nat
  | [] => (⊥, 0)
  | score :: scores =>
    let (localMax, localId) := maxIndex scores
    if score < localMax then (localMax, localId + 1) else (score, 0)

/-- One tile of the vocabulary; entries behind its end never win. -/
def recoveredTile (score : Nat → Option R) (vocabSize blockSize : Nat)
    (best : WithBot R × Nat) (v : Nat) : Option (WithBot R × Nat) := do
  let scores ← (List.range blockSize).mapM fun i =>
    if v + i < vocabSize then (score (v + i)).map WithBot.some else some ⊥
  let (localMax, localId) := maxIndex scores
  some (if best.1 < localMax then (localMax, v + localId) else best)

def sampleRecoveredTokensKernel (targetProbs invQ : List R) (vocabSize blockSize reqIdx pos : Nat) :
    Option (List (Int × Nat)) := do
  let start ← startIdx b.cuNumDraftTokens reqIdx
  let stop ← b.cuNumDraftTokens[reqIdx]?
  if stop - start ≤ pos then some []
  else
    let tokenIdx := start + pos
    let best ← ((List.range (cdiv vocabSize blockSize)).map (· * blockSize)).foldlM
      (recoveredTile (recoveredScore b targetProbs invQ vocabSize reqIdx tokenIdx) vocabSize
        blockSize) (⊥, 0)
    some [((min best.2 (vocabSize - 1) : Nat), tokenIdx)]

end Kernels

section Launches

variable {R : Type} [Field R] [LinearOrder R]

/-- The programs of a grid write `buf` in some order. -/
def Launches (grid : List (Option (List (Int × Nat)))) (buf buf' : List Int) : Prop :=
  ∃ programs, grid.mapM id = some programs ∧ Launched programs buf buf'

/-- `logits.argmax(dim=-1)` of a row. -/
def argmax (row : List R) : Nat := (maxIndex (row.map WithBot.some)).2

/-- The fields of `SamplingMetadata` that `rejection_sample` reads; the generators only choose the
random numbers, which are arguments here. -/
structure SamplingMetadata (R : Type) where
  temperature : Option (List R)
  allGreedy : Bool
  allRandom : Bool

/-- The flags as `InputBatch` sets them: the temperature is 0 on exactly the greedy rows. -/
def samplingMetadata (temperatures : List R) : SamplingMetadata R :=
  let allGreedy := temperatures.all (decide <| · = 0)
  ⟨if allGreedy then none else some temperatures, allGreedy,
    temperatures.all (decide <| · ≠ 0)⟩

/-- The arguments of `rejection_sample`, with the random numbers it draws: `uniformProbs` of
`generate_uniform_probs` and the noise `q`, and the unset contents of its `torch.empty_like`. -/
structure Args (R : Type) where
  draftTokenIds : List Int
  numDraftTokens : List Nat
  maxSpecLen : Nat
  cuNumDraftTokens : List Nat
  draftProbs : Option (List (List R))
  targetLogits : List (List R)
  bonusTokenIds : List Int
  metadata : SamplingMetadata R
  syntheticConditionalRates : Option (List R)
  uniformProbs : List R
  q : List (List R)
  vocabSize : Nat
  emptyRecovered : List Int

variable (a : Args R)

def Args.buffers : Buffers R where
  cuNumDraftTokens := a.cuNumDraftTokens
  draftTokenIds := a.draftTokenIds
  draftProbs := a.draftProbs.map List.flatten
  bonusTokenIds := a.bonusTokenIds
  uniformProbs :=
    if a.syntheticConditionalRates.isSome || !a.metadata.allGreedy then some a.uniformProbs
    else none
  syntheticConditionalRates := a.syntheticConditionalRates

def Args.isGreedy : Option (List Bool) :=
  if a.metadata.allGreedy then none
  else a.metadata.temperature.map fun temperatures => temperatures.map (decide <| · = 0)

def Args.greedyLaunch (out out' : List Int) : Prop :=
  Launches ((List.range a.numDraftTokens.length).map
    (rejectionGreedySampleKernel a.buffers (a.targetLogits.map argmax) a.isGreedy a.maxSpecLen))
    out out'

variable (softmax : List R → List R)

/-- `sample_recovered_tokens`. -/
def Args.recoveredLaunch (a : Args R) (blockSize : Nat)
    (recovered : List Int) : Prop :=
  Launches ((List.range a.numDraftTokens.length).flatMap fun reqIdx =>
      (List.range a.maxSpecLen).map
        (sampleRecoveredTokensKernel a.buffers (a.targetLogits.map softmax).flatten
          (a.q.flatten.map (·⁻¹)) a.vocabSize blockSize reqIdx))
    a.emptyRecovered recovered

def Args.randomLaunch (a : Args R) (recovered out out' : List Int) :
    Prop :=
  Launches ((List.range a.numDraftTokens.length).map
    (rejectionRandomSampleKernel a.buffers (a.targetLogits.map softmax).flatten recovered
      (a.isGreedy.getD []) a.maxSpecLen a.vocabSize))
    out out'

/-- `torch.full((batch_size, max_spec_len + 1), PLACEHOLDER_TOKEN_ID)`. -/
def Args.placeholders : List Int :=
  List.replicate (a.numDraftTokens.length * (a.maxSpecLen + 1)) placeholderTokenId

/-- What `rejection_sample` may return, its buffer flat. -/
def RejectionSample (blockSize : Nat) (a : Args R)
    (outputTokenIds : List Int) : Prop :=
  ∃ afterGreedy,
    (if a.metadata.allRandom then afterGreedy = a.placeholders
      else a.greedyLaunch a.placeholders afterGreedy) ∧
    -- a batch of greedy requests alone returns before the random kernels
    if !a.metadata.allRandom && a.metadata.allGreedy then outputTokenIds = afterGreedy
    else ∃ recovered, a.recoveredLaunch softmax blockSize recovered ∧
      a.randomLaunch softmax recovered afterGreedy outputTokenIds

/-- The rows of a flat `[n, width]` buffer. -/
def rowsOf {α : Type*} (n width : Nat) (buf : List α) : List (List α) :=
  (List.range n).map fun i => slice buf (i * width) ((i + 1) * width)

/-- `RejectionSampler.parse_output`, without the log probabilities. -/
def parseOutput (outputTokenIds : List (List Int)) (vocabSize : Nat)
    (discardReqIndices : List Nat) : List (List Int) :=
  outputTokenIds.zipIdx.map fun (row, i) =>
    if i ∈ discardReqIndices then []
    else row.filter fun t => decide (t ≠ placeholderTokenId) && decide (t < vocabSize)

end Launches

/-! One request of a speculative step with everything that is its own, the flattened batch of
several, and where the kernels find a request's data in it. -/

section Layout

variable {ρ α : Type*}

/-- Where the part of the `r`-th row begins when parts of these lengths lie one behind the
other. -/
def offset (len : ρ → Nat) (rows : List ρ) (r : Nat) : Nat := ((rows.take r).map len).sum

theorem split_at {rows : List ρ} {r : Nat} {row : ρ} (at_r : rows[r]? = some row) :
    rows = rows.take r ++ row :: rows.drop (r + 1) := by
  obtain ⟨inside, rfl⟩ := List.getElem?_eq_some_iff.mp at_r
  rw [← drop_eq_getElem_cons, take_append_drop]

theorem offset_succ {len : ρ → Nat} {rows : List ρ} {r : Nat} {row : ρ}
    (at_r : rows[r]? = some row) : offset len rows (r + 1) = offset len rows r + len row := by
  rw [offset, take_add_one, at_r, map_append, sum_append]
  simp [offset]

theorem flatMap_length {len : ρ → Nat} {rows : List ρ} {f : ρ → List α}
    (lengths : ∀ row ∈ rows, (f row).length = len row) :
    (rows.flatMap f).length = (rows.map len).sum := by
  rw [length_flatMap, map_congr_left lengths]

theorem flatMap_getElem? {len : ρ → Nat} {rows : List ρ} {f : ρ → List α} {r pos : Nat} {row : ρ}
    (lengths : ∀ row ∈ rows, (f row).length = len row) (at_r : rows[r]? = some row)
    (inside : pos < len row) : (rows.flatMap f)[offset len rows r + pos]? = (f row)[pos]? := by
  have before : ((rows.take r).flatMap f).length = offset len rows r :=
    flatMap_length fun x hx => lengths x (mem_of_mem_take hx)
  have own : (f row).length = len row := lengths row (mem_of_getElem? at_r)
  have parts : rows.flatMap f =
      (rows.take r).flatMap f ++ (f row ++ (rows.drop (r + 1)).flatMap f) := by
    rw [← flatMap_cons, ← flatMap_append, ← split_at at_r]
  rw [parts, getElem?_append_right (by omega), before, Nat.add_sub_cancel_left,
    getElem?_append_left (by omega)]

theorem offset_cons_succ (len : ρ → Nat) (row : ρ) (rows : List ρ) (r : Nat) :
    offset len (row :: rows) (r + 1) = len row + offset len rows r := by
  simp [offset]

theorem flatMap_getElem?_eq_some {len : ρ → Nat} {rows : List ρ} {f : ρ → List α}
    (lengths : ∀ row ∈ rows, (f row).length = len row) {i : Nat} {y : α} :
    (rows.flatMap f)[i]? = some y ↔ ∃ r row pos, rows[r]? = some row ∧ pos < len row ∧
    i = offset len rows r + pos ∧ (f row)[pos]? = some y := by
  constructor
  · intro found
    induction rows generalizing i with
    | nil => simp at found
    | cons row rows ih =>
      have own := lengths row mem_cons_self
      rw [flatMap_cons] at found
      by_cases here : i < len row
      · rw [getElem?_append_left (by omega)] at found
        exact ⟨0, row, i, rfl, here, by simp [offset], found⟩
      · rw [getElem?_append_right (by omega)] at found
        obtain ⟨r, row', pos, at_r, inside, index, value⟩ :=
          ih (fun x hx => lengths x (mem_cons_of_mem _ hx)) found
        refine ⟨r + 1, row', pos, at_r, inside, ?_, value⟩
        rw [offset_cons_succ]
        omega
  · rintro ⟨r, row, pos, at_r, inside, rfl, value⟩
    rw [flatMap_getElem? lengths at_r inside, value]

theorem offset_inj {len : ρ → Nat} {rows : List ρ} {r r' pos pos' : Nat} {row row' : ρ}
    (at_r : rows[r]? = some row) (at_r' : rows[r']? = some row') (inside : pos < len row)
    (inside' : pos' < len row') (same : offset len rows r + pos = offset len rows r' + pos') :
    r = r' ∧ pos = pos' := by
  induction rows generalizing r r' with
  | nil => simp at at_r
  | cons top rows ih =>
    have zero : offset len (top :: rows) 0 = 0 := by simp [offset]
    cases r with
    | zero =>
      cases at_r
      cases r' with
      | zero => exact ⟨rfl, by omega⟩
      | succ r' =>
        rw [offset_cons_succ] at same
        omega
    | succ r =>
      cases r' with
      | zero =>
        cases at_r'
        rw [offset_cons_succ] at same
        omega
      | succ r' =>
        rw [offset_cons_succ, offset_cons_succ] at same
        obtain ⟨rfl, rfl⟩ := ih at_r at_r' (by omega)
        exact ⟨rfl, rfl⟩

theorem mapM_some {α β : Type} {f : α → Option β} {g : α → β} {xs : List α}
    (reads : ∀ x ∈ xs, f x = some (g x)) : xs.mapM f = some (xs.map g) := by
  induction xs with
  | nil => rfl
  | cons x xs ih =>
    rw [mapM_cons, reads x mem_cons_self,
      ih fun y hy => reads y (mem_cons_of_mem _ hy)]
    rfl

theorem offset_const (w : Nat) {rows : List ρ} {r : Nat} (inside : r ≤ rows.length) :
    offset (fun _ => w) rows r = r * w := by
  rw [offset, map_const', sum_replicate, length_take, Nat.min_eq_left inside]
  rfl

theorem flatten_getElem? {w i v : Nat} {xs : List (List α)} {x : List α}
    (widths : ∀ x ∈ xs, x.length = w) (at_i : xs[i]? = some x) (inside : v < w) :
    xs.flatten[i * w + v]? = x[v]? := by
  obtain ⟨bound, -⟩ := List.getElem?_eq_some_iff.mp at_i
  have found := @flatMap_getElem? _ α (fun _ => w) xs id i v x widths at_i inside
  rwa [flatMap_id, offset_const w bound.le] at found

/-- `np.cumsum`. -/
def cumsum (xs : List Nat) : List Nat := (List.range xs.length).map fun i => (xs.take (i + 1)).sum

theorem cumsum_getElem? {len : ρ → Nat} {rows : List ρ} {r : Nat} (inside : r < rows.length) :
    (cumsum (rows.map len))[r]? = some (offset len rows (r + 1)) := by
  simp [cumsum, offset, inside, map_take]

theorem startIdx_cumsum {len : ρ → Nat} {rows : List ρ} {r : Nat} (inside : r < rows.length) :
    startIdx (cumsum (rows.map len)) r = some (offset len rows r) := by
  cases r with
  | zero => rfl
  | succ r => rw [startIdx, if_neg (Nat.succ_ne_zero r), Nat.add_sub_cancel,
      cumsum_getElem? (by omega)]

end Layout

section Launching

variable {ρ : Type*}

theorem launches_iff {grid : List (Option (List (Int × Nat)))}
    {programs : List (List (Int × Nat))} {buf buf' : List Int} (runs : grid = programs.map some) :
    Launches grid buf buf' ↔ Launched programs buf buf' := by
  have all : grid.mapM id = some programs := by
    rw [runs]
    clear runs
    induction programs with
    | nil => rfl
    | cons program programs ih => simp [ih]
  constructor
  · rintro ⟨others, same, launched⟩
    rw [all] at same
    cases same
    exact launched
  · exact fun launched => ⟨programs, all, launched⟩

theorem launched_congr {programs others : List (List (Int × Nat))} {buf buf' : List Int}
    (same : programs.flatten = others.flatten) :
    Launched programs buf buf' ↔ Launched others buf buf' := by
  rw [Launched, Launched, same]

theorem segmentStores_flatten (len : ρ → Nat) (f g : ρ → List Int) (rows : List ρ) (k : Nat)
    (lengths : ∀ row ∈ rows, (f row).length = len row) :
    (segmentStores k (rows.map fun row => (g row, f row))).flatten =
    rows.zipIdx.flatMap fun (row, r) => (g row).zipIdx (k + offset len rows r) := by
  induction rows generalizing k with
  | nil => rfl
  | cons row rows ih =>
    have later := ih (k + len row) fun x hx => lengths x (mem_cons_of_mem _ hx)
    simp only [map_cons, segmentStores, flatten_cons, lengths row mem_cons_self,
      later, zipIdx_cons', flatMap_cons, flatMap_map]
    congr 1
    apply flatMap_congr
    intro x hx
    simp [offset, Nat.add_assoc]

theorem launches_parts {len : ρ → Nat} {rows : List ρ} {f g : ρ → List Int}
    {grid : List (Option (List (Int × Nat)))} {programs : List (List (Int × Nat))}
    {buf' : List Int} (lengths : ∀ row ∈ rows, (f row).length = len row)
    (fits : ∀ row ∈ rows, (g row).length ≤ len row) (runs : grid = programs.map some)
    (stores : programs.flatten =
    rows.zipIdx.flatMap fun (row, r) => (g row).zipIdx (offset len rows r)) :
    Launches grid (rows.flatMap f) buf' ↔
    buf' = rows.flatMap fun row => overwrite (g row) (f row) := by
  have segments := segmentStores_flatten len f g rows 0 lengths
  simp only [Nat.zero_add] at segments
  rw [launches_iff runs, launched_congr (stores.trans segments.symm)]
  have all := @launched_segments Int (rows.map fun row => (g row, f row)) buf' (by
    intro s hs
    obtain ⟨row, mem, rfl⟩ := mem_map.mp hs
    exact (fits row mem).trans (lengths row mem).ge)
  simp only [map_map, Function.comp_def] at all
  rwa [← flatMap_def, ← flatMap_def] at all

end Launching

end VllmAmpere.RejectionSampler
