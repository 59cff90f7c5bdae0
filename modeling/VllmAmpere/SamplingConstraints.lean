import VllmAmpere.RejectionKernels

/-! Which tokens the samplers mask: allowed token ids, bad words and `min_tokens`, on the rows of
plain decoding (`Sampler`), on the draft rows (`RejectionSampler.apply_logits_processors`) and on
the bonus rows. Logits are seen by their entries that hold -inf, as pairs of a row and a token. -/

open List

namespace VllmAmpere.SamplingConstraints

open RejectionSampler (offset)

/-- A bad word has at least one token. -/
abbrev BadWord := {word : List Nat // word ≠ []}

/-- A request with what constrains its next token; no allowed ids stand for all ids. -/
structure Request where
  outputTokenIds : List Int
  badWordsTokenIds : List BadWord
  allowedTokenIds : List Nat
  minTokens : Nat
  allStopTokenIds : List Nat

/-- An entry of `MinTokensLogitsProcessor.min_toks`, of a request without structured outputs. -/
structure MinToks where
  minTokens : Nat
  outTokIds : List Int
  stopTokIds : List Nat

/-- The fields of `SamplingMetadata` that constrain tokens. -/
structure SamplingMetadata where
  noPenalties : Bool
  outputTokenIds : List (List Int)
  specTokenIds : Option (List (List Int))
  allowedTokenIdsMask : Option (List (List Bool))
  badWordsTokenIds : List (Nat × List BadWord)
  minToks : List (Nat × MinToks)

/-- `MinTokensLogitsProcessor.add_request`, and the entries `update_state` leaves. -/
def minToksOf (r : Request) : Option MinToks :=
  if r.minTokens = 0 || decide (r.minTokens ≤ r.outputTokenIds.length) then none
  else some ⟨r.minTokens, r.outputTokenIds, r.allStopTokenIds⟩

/-- A request's row of `allowed_token_ids_mask`. -/
def allowedRow (vocabSize : Nat) (r : Request) : List Bool :=
  (List.range vocabSize).map fun v =>
    !r.allowedTokenIds.isEmpty && decide (v ∉ r.allowedTokenIds)

/-- `InputBatch._make_sampling_metadata`; `needsOutputTokenIds` stands for the parts of the batch
left out that ask for the outputs. -/
def makeSamplingMetadata (vocabSize : Nat) (noPenalties needsOutputTokenIds : Bool)
    (requests : List Request) (specTokenIds : Option (List (List Int))) : SamplingMetadata :=
  let badWords := requests.zipIdx.filterMap fun (r, i) =>
    if r.badWordsTokenIds.isEmpty then none else some (i, r.badWordsTokenIds)
  { noPenalties := noPenalties
    outputTokenIds :=
      if !noPenalties || !badWords.isEmpty || needsOutputTokenIds then
        requests.map (·.outputTokenIds)
      else []
    specTokenIds := specTokenIds
    allowedTokenIdsMask :=
      if requests.all (·.allowedTokenIds.isEmpty) then none
      else some (requests.map (allowedRow vocabSize))
    badWordsTokenIds := badWords
    minToks := requests.zipIdx.filterMap fun (r, i) => (minToksOf r).map fun entry => (i, entry) }

/-- The entries of the logits that hold -inf. -/
abbrev Masked := List (Nat × Nat)

/-- `logits.masked_fill_(mask, -inf)`. -/
def maskedFill (mask : List (List Bool)) (m : Masked) : Masked :=
  m ++ mask.zipIdx.flatMap fun (row, i) =>
    (row.zipIdx.filter (·.1)).map fun entry => (i, entry.2)

section BadWords

def prefixLength (word : BadWord) : Nat := word.1.length - 1

def lastTokenId (word : BadWord) : Nat := word.1.getLast word.2

/-- Whether the tokens so far end in the word without its last token. -/
def expects (pastTokensIds : List Int) (word : BadWord) : Bool :=
  if pastTokensIds.length + 1 < word.1.length then false
  else
    let actualPrefix := pastTokensIds.drop (pastTokensIds.length - prefixLength word)
    let expectedPrefix := word.1.take (prefixLength word)
    decide (actualPrefix = expectedPrefix.map Int.ofNat)

def applyBadWordsSingleBatch (vocabSize row : Nat) (badWords : List BadWord)
    (pastTokensIds : List Int) (m : Masked) : Masked :=
  badWords.foldl (fun m word =>
    if expects pastTokensIds word && decide (lastTokenId word < vocabSize) then
      m ++ [(row, lastTokenId word)]
    else m) m

def applyBadWords (vocabSize : Nat) (badWords : List (Nat × List BadWord))
    (pastTokensIds : List (List Int)) (m : Masked) : Option Masked :=
  badWords.foldlM (fun m (i, words) =>
    pastTokensIds[i]?.map fun past => applyBadWordsSingleBatch vocabSize i words past m) m

/-- The rows of one request in `apply_bad_words_with_drafts`. -/
def applyBadWordsToDrafts (vocabSize start : Nat) (words : List BadWord)
    (pastTokensIds : List (List Int)) (n : Nat) (m : Masked) : Option Masked :=
  (List.range' start n).foldlM (fun m draftIdx =>
    pastTokensIds[draftIdx]?.map fun past =>
      applyBadWordsSingleBatch vocabSize draftIdx words past m) m

/-- The loop of `apply_bad_words_with_drafts` from request `i` on, left once every entry of the
dict has been seen. -/
def badWordsLoop (vocabSize : Nat) (badWords : List (Nat × List BadWord))
    (pastTokensIds : List (List Int)) : Nat → Nat → Nat → List Nat → Masked → Option Masked
  | _, _, _, [], m => some m
  | i, start, remaining, n :: rest, m =>
    match badWords.lookup i with
    | some words => do
      let m ← applyBadWordsToDrafts vocabSize start words pastTokensIds n m
      if remaining - 1 = 0 then some m
      else badWordsLoop vocabSize badWords pastTokensIds (i + 1) (start + n) (remaining - 1) rest m
    | none => badWordsLoop vocabSize badWords pastTokensIds (i + 1) (start + n) remaining rest m

def applyBadWordsWithDrafts (vocabSize : Nat) (badWords : List (Nat × List BadWord))
    (pastTokensIds : List (List Int)) (numDraftTokens : List Nat) (m : Masked) : Option Masked :=
  badWordsLoop vocabSize badWords pastTokensIds 0 0 badWords.length numDraftTokens m

end BadWords

section MinTokens

/-- `MinTokensLogitsProcessor.apply`. -/
def applyMinTokens (minToks : List (Nat × MinToks)) (m : Masked) : Masked :=
  m ++ minToks.flatMap fun (req, entry) => entry.stopTokIds.map fun t => (req, t)

/-- The entries `apply_with_spec_decode` masks for one request. -/
def specMinTokens (numDraftTokens : List Nat) (reqIdx : Nat) (entry : MinToks) : Option Masked :=
  numDraftTokens[reqIdx]?.map fun numDraft =>
    let remaining := entry.minTokens - entry.outTokIds.length
    let nMask := min remaining numDraft
    let start := (numDraftTokens.take reqIdx).sum
    (List.range' start nMask).flatMap fun row => entry.stopTokIds.map fun t => (row, t)

/-- `MinTokensLogitsProcessor.apply_with_spec_decode`. -/
def applyWithSpecDecode (minToks : List (Nat × MinToks)) (numDraftTokens : List Nat)
    (m : Masked) : Option Masked :=
  ((minToks.filter fun e : Nat × MinToks => !e.2.stopTokIds.isEmpty).mapM
    fun e => specMinTokens numDraftTokens e.1 e.2).map fun masks => m ++ masks.flatten

end MinTokens

section Sampler

variable (vocabSize : Nat) (sm : SamplingMetadata)

/-- `Sampler._combine_outputs_with_spec_tokens`. -/
def combineOutputs (outputTokenIds : List (List Int)) (specTokenIds : Option (List (List Int))) :
    List (List Int) :=
  match specTokenIds with
  | none => outputTokenIds
  | some specs => List.zipWith (fun out spec => if spec.isEmpty then out else out ++ spec)
      outputTokenIds specs

def fillAllowed (mask : Option (List (List Bool))) (m : Masked) : Masked :=
  match mask with
  | none => m
  | some mask => maskedFill mask m

def anyPenaltiesOrBadWords : Bool := !sm.badWordsTokenIds.isEmpty || !sm.noPenalties

/-- `Sampler.apply_logits_processors`. -/
def samplerMasks (predictBonusToken : Bool) : Option Masked :=
  let outputTokenIds :=
    if predictBonusToken && anyPenaltiesOrBadWords sm then
      combineOutputs sm.outputTokenIds sm.specTokenIds
    else sm.outputTokenIds
  let m := fillAllowed sm.allowedTokenIdsMask []
  if sm.badWordsTokenIds.isEmpty then some (applyMinTokens sm.minToks m)
  else
    (applyBadWords vocabSize sm.badWordsTokenIds outputTokenIds m).map
      (applyMinTokens sm.minToks)

def draftPrefixes (out : List Int) : List Int → List (List Int)
  | [] => []
  | t :: spec => out :: draftPrefixes (out ++ [t]) spec

/-- `RejectionSampler._combine_outputs_with_spec_tokens`. -/
def combineDrafts (outputTokenIds : List (List Int)) (specTokenIds : Option (List (List Int))) :
    List (List Int) :=
  match specTokenIds with
  | none => outputTokenIds
  | some specs => (List.zipWith draftPrefixes outputTokenIds specs).flatten

variable (numDraftTokens : List Nat)

/-- `original_indices.repeat_interleave(num_draft_tokens)`. -/
def repeatIndices : List Nat :=
  numDraftTokens.zipIdx.flatMap fun (n, i) => List.replicate n i

def fillAllowedDrafts (m : Masked) : Option Masked :=
  match sm.allowedTokenIdsMask with
  | none => some m
  | some mask =>
    ((repeatIndices numDraftTokens).mapM fun i => mask[i]?).map fun tokenMask =>
      maskedFill tokenMask m

def badWordsOnDrafts (m : Masked) : Option Masked :=
  let outputTokenIds :=
    if anyPenaltiesOrBadWords sm then combineDrafts sm.outputTokenIds sm.specTokenIds
    else sm.outputTokenIds
  if sm.badWordsTokenIds.isEmpty then some m
  else applyBadWordsWithDrafts vocabSize sm.badWordsTokenIds outputTokenIds numDraftTokens m

/-- `RejectionSampler.apply_logits_processors`. -/
def draftMasks : Option Masked := do
  let m ← fillAllowedDrafts sm numDraftTokens []
  let m ← badWordsOnDrafts vocabSize sm numDraftTokens m
  applyWithSpecDecode sm.minToks numDraftTokens m

end Sampler

/-! Row by row, what the samplers mask: the plain sampler and the bonus rows have a row for each
request, the draft rows one for each draft. -/

open RejectionSampler (offset offset_succ cumsum)

/-- A bad word that ends in `v` and whose other tokens were just produced. -/
def BadHit (vocabSize : Nat) (words : List BadWord) (output : List Int) (v : Nat) : Prop :=
  v < vocabSize ∧ ∃ word ∈ words, expects output word = true ∧ lastTokenId word = v

def Bars (vocabSize : Nat) (r : Request) (output : List Int) (v : Nat) : Prop :=
  (v < vocabSize ∧ r.allowedTokenIds ≠ [] ∧ v ∉ r.allowedTokenIds) ∨
    BadHit vocabSize r.badWordsTokenIds output v

/-- The token would stop an output shorter than `min_tokens`. -/
def Short (r : Request) (outputLength v : Nat) : Prop :=
  outputLength < r.minTokens ∧ v ∈ r.allStopTokenIds

section Fills

theorem mem_maskedFill {mask : List (List Bool)} {m : Masked} {i v : Nat} :
    (i, v) ∈ maskedFill mask m ↔ (i, v) ∈ m ∨ ∃ row, mask[i]? = some row ∧ row[v]? = some true := by
  simp only [maskedFill, mem_append, mem_flatMap, mem_map, mem_filter,
    Prod.exists, mem_zipIdx_iff_getElem?]
  apply or_congr_right
  constructor
  · rintro ⟨row, i', at_i, b, v', ⟨at_v, set⟩, same⟩
    cases same
    exact ⟨row, at_i, by rw [at_v]; exact congrArg some set⟩
  · rintro ⟨row, at_i, at_v⟩
    exact ⟨row, i, at_i, true, v, ⟨at_v, rfl⟩, rfl⟩

theorem allowedRow_true {vocabSize v : Nat} {r : Request} :
    (allowedRow vocabSize r)[v]? = some true ↔
    v < vocabSize ∧ r.allowedTokenIds ≠ [] ∧ v ∉ r.allowedTokenIds := by
  by_cases inside : v < vocabSize
  · simp [allowedRow, inside]
  · simp [allowedRow, inside]

theorem mem_singleBatch {vocabSize row i v : Nat} {words : List BadWord}
    {past : List Int} {m : Masked} : (i, v) ∈ applyBadWordsSingleBatch vocabSize row words past m ↔
    (i, v) ∈ m ∨ (i = row ∧ BadHit vocabSize words past v) := by
  rw [applyBadWordsSingleBatch]
  induction words generalizing m with
  | nil => simp [BadHit]
  | cons word words ih =>
    rw [foldl_cons, ih]
    by_cases hit : (expects past word && decide (lastTokenId word < vocabSize)) = true
    · rw [if_pos hit]
      simp only [Bool.and_eq_true, decide_eq_true_eq] at hit
      simp only [mem_append, mem_singleton, Prod.mk.injEq, BadHit, exists_mem_cons_iff]
      constructor
      · rintro ((old | ⟨rfl, rfl⟩) | ⟨rfl, bound, later⟩)
        · exact Or.inl old
        · exact Or.inr ⟨rfl, hit.2, Or.inl ⟨hit.1, rfl⟩⟩
        · exact Or.inr ⟨rfl, bound, Or.inr later⟩
      · rintro (old | ⟨rfl, bound, (⟨-, rfl⟩ | later)⟩)
        · exact Or.inl (Or.inl old)
        · exact Or.inl (Or.inr ⟨rfl, rfl⟩)
        · exact Or.inr ⟨rfl, bound, later⟩
    · rw [if_neg hit]
      simp only [Bool.and_eq_true, decide_eq_true_eq] at hit
      simp only [BadHit, exists_mem_cons_iff]
      constructor
      · rintro (old | ⟨rfl, bound, later⟩)
        · exact Or.inl old
        · exact Or.inr ⟨rfl, bound, Or.inr later⟩
      · rintro (old | ⟨rfl, bound, (⟨ends, rfl⟩ | later)⟩)
        · exact Or.inl old
        · exact absurd ⟨ends, bound⟩ hit
        · exact Or.inr ⟨rfl, bound, later⟩

theorem foldlM_rows {α : Type} {entries : List α} {vocabSize : Nat} {row : α → Nat}
    {words : α → List BadWord} {past : List (List Int)} {m : Masked}
    (inside : ∀ e ∈ entries, row e < past.length) :
    ∃ m', entries.foldlM (fun m e => past[row e]?.map fun p =>
    applyBadWordsSingleBatch vocabSize (row e) (words e) p m) m = some m' ∧
    ∀ i v, (i, v) ∈ m' ↔ (i, v) ∈ m ∨
    ∃ e ∈ entries, i = row e ∧ ∃ p, past[i]? = some p ∧ BadHit vocabSize (words e) p v := by
  induction entries generalizing m with
  | nil => exact ⟨m, rfl, by simp⟩
  | cons e entries ih =>
    obtain ⟨p, here⟩ : ∃ p, past[row e]? = some p :=
      ⟨_, getElem?_eq_getElem (inside e mem_cons_self)⟩
    obtain ⟨m', run, mem⟩ := @ih (applyBadWordsSingleBatch vocabSize (row e) (words e) p m)
      fun e he => inside e (mem_cons_of_mem _ he)
    refine ⟨m', ?_, ?_⟩
    · rw [foldlM_cons, here, Option.map_some]
      exact run
    · intro i v
      rw [mem, mem_singleBatch, or_assoc]
      apply or_congr_right
      rw [exists_mem_cons_iff]
      apply or_congr_left
      constructor
      · rintro ⟨rfl, hit⟩
        exact ⟨rfl, _, here, hit⟩
      · rintro ⟨rfl, p, found, hit⟩
        cases here.symm.trans found
        exact ⟨rfl, hit⟩

end Fills

section Dicts

variable {requests : List Request} {i : Nat}

def badWordEntries (requests : List Request) : List (Nat × List BadWord) :=
  requests.zipIdx.filterMap fun (r, i) =>
    if r.badWordsTokenIds.isEmpty then none else some (i, r.badWordsTokenIds)

theorem mem_badWordEntries {words : List BadWord} : (i, words) ∈ badWordEntries requests ↔
    ∃ r, requests[i]? = some r ∧ words = r.badWordsTokenIds ∧ words ≠ [] := by
  simp only [badWordEntries, mem_filterMap, Prod.exists, mem_zipIdx_iff_getElem?]
  constructor
  · rintro ⟨r, i', at_i, entry⟩
    by_cases empty : r.badWordsTokenIds = []
    · simp [empty] at entry
    · simp [empty] at entry
      obtain ⟨rfl, rfl⟩ := entry
      exact ⟨r, at_i, rfl, empty⟩
  · rintro ⟨r, at_i, rfl, nonempty⟩
    exact ⟨r, i, at_i, by simp [nonempty]⟩

theorem mem_minToks {entry : MinToks} : (i, entry) ∈ (requests.zipIdx.filterMap fun (r, i) =>
    (minToksOf r).map fun entry => (i, entry)) ↔
    ∃ r, requests[i]? = some r ∧ r.outputTokenIds.length < r.minTokens ∧
    entry = ⟨r.minTokens, r.outputTokenIds, r.allStopTokenIds⟩ := by
  simp only [mem_filterMap, Prod.exists, mem_zipIdx_iff_getElem?,
    Option.map_eq_some_iff, Prod.mk.injEq]
  constructor
  · rintro ⟨r, i', at_i, entry', found, rfl, rfl⟩
    refine ⟨r, at_i, ?_⟩
    rw [minToksOf] at found
    by_cases done : (r.minTokens = 0 || decide (r.minTokens ≤ r.outputTokenIds.length)) = true
    · simp [done] at found
    · rw [if_neg done, Option.some.injEq] at found
      simp only [Bool.or_eq_true, decide_eq_true_eq, not_or, not_le] at done
      exact ⟨done.2, found.symm⟩
  · rintro ⟨r, at_i, short, rfl⟩
    refine ⟨r, i, at_i, _, ?_, rfl, rfl⟩
    have undone : ¬ (r.minTokens = 0 || decide (r.minTokens ≤ r.outputTokenIds.length)) = true := by
      simp only [Bool.or_eq_true, decide_eq_true_eq, not_or, not_le]
      exact ⟨by omega, short⟩
    rw [minToksOf, if_neg undone]

end Dicts

section Sampler

variable {vocabSize : Nat} {noPenalties needs : Bool} {requests : List Request}
  {specs : Option (List (List Int))}

theorem mem_fillAllowed {i v : Nat} : (i, v) ∈ fillAllowed
    (makeSamplingMetadata vocabSize noPenalties needs requests specs).allowedTokenIdsMask [] ↔
    ∃ r, requests[i]? = some r ∧
    v < vocabSize ∧ r.allowedTokenIds ≠ [] ∧ v ∉ r.allowedTokenIds := by
  by_cases unconstrained : requests.all (·.allowedTokenIds.isEmpty) = true
  · have none_set : (makeSamplingMetadata vocabSize noPenalties needs requests
        specs).allowedTokenIdsMask = none := if_pos unconstrained
    rw [none_set, fillAllowed]
    constructor
    · simp
    · rintro ⟨r, at_i, -, constrained, -⟩
      rw [all_eq_true] at unconstrained
      have := unconstrained r (mem_of_getElem? at_i)
      exact absurd (List.isEmpty_iff.mp this) constrained
  · have some_set : (makeSamplingMetadata vocabSize noPenalties needs requests
        specs).allowedTokenIdsMask = some (requests.map (allowedRow vocabSize)) :=
      if_neg unconstrained
    rw [some_set, fillAllowed, mem_maskedFill]
    simp only [not_mem_nil, false_or, getElem?_map, Option.map_eq_some_iff]
    constructor
    · rintro ⟨row, ⟨r, at_i, rfl⟩, set⟩
      exact ⟨r, at_i, allowedRow_true.mp set⟩
    · rintro ⟨r, at_i, kept_out⟩
      exact ⟨_, ⟨r, at_i, rfl⟩, allowedRow_true.mpr kept_out⟩

theorem mem_applyMinTokens {m : Masked} {i v : Nat} : (i, v) ∈ applyMinTokens
    (makeSamplingMetadata vocabSize noPenalties needs requests specs).minToks m ↔
    (i, v) ∈ m ∨ ∃ r, requests[i]? = some r ∧ Short r r.outputTokenIds.length v := by
  simp only [applyMinTokens, mem_append, mem_flatMap, mem_map]
  apply or_congr_right
  constructor
  · rintro ⟨⟨req, entry⟩, mem, t, stop, same⟩
    cases same
    obtain ⟨r, at_i, short, rfl⟩ := mem_minToks.mp mem
    exact ⟨r, at_i, short, stop⟩
  · rintro ⟨r, at_i, short, stop⟩
    exact ⟨(i, _), mem_minToks.mpr ⟨r, at_i, short, rfl⟩, v, stop, rfl⟩

/-- The rows of the sampler, the tokens that the bad words look at being `past`. -/
theorem samplerMasks_rows {predictBonusToken : Bool} {past : List (List Int)}
    (length : past.length = requests.length) (seen : badWordEntries requests ≠ [] →
    (if predictBonusToken && anyPenaltiesOrBadWords
    (makeSamplingMetadata vocabSize noPenalties needs requests specs) then combineOutputs
    (makeSamplingMetadata vocabSize noPenalties needs requests specs).outputTokenIds specs
    else (makeSamplingMetadata vocabSize noPenalties needs requests specs).outputTokenIds) = past) :
    ∃ m, samplerMasks vocabSize (makeSamplingMetadata vocabSize noPenalties needs requests specs)
    predictBonusToken = some m ∧
    ∀ i v, (i, v) ∈ m ↔ ∃ r p, requests[i]? = some r ∧ past[i]? = some p ∧
    (Bars vocabSize r p v ∨ Short r r.outputTokenIds.length v) := by
  obtain ⟨sm, hsm⟩ : ∃ sm,
      sm = makeSamplingMetadata vocabSize noPenalties needs requests specs := ⟨_, rfl⟩
  have entries : sm.badWordsTokenIds = badWordEntries requests := by rw [hsm]; rfl
  have spec : sm.specTokenIds = specs := by rw [hsm]; rfl
  have inRange : ∀ {i : Nat} {r : Request}, requests[i]? = some r → ∃ p, past[i]? = some p := by
    intro i r at_i
    obtain ⟨bound, -⟩ := List.getElem?_eq_some_iff.mp at_i
    exact ⟨_, getElem?_eq_getElem (length ▸ bound)⟩
  rw [← hsm] at seen ⊢
  by_cases unworded : badWordEntries requests = []
  · refine ⟨_, by rw [samplerMasks, entries, unworded]; exact if_pos rfl, ?_⟩
    intro i v
    rw [hsm, mem_applyMinTokens, mem_fillAllowed]
    constructor
    · rintro (⟨r, at_i, kept_out⟩ | ⟨r, at_i, short⟩)
      · obtain ⟨p, at_p⟩ := inRange at_i
        exact ⟨r, p, at_i, at_p, Or.inl (Or.inl kept_out)⟩
      · obtain ⟨p, at_p⟩ := inRange at_i
        exact ⟨r, p, at_i, at_p, Or.inr short⟩
    · rintro ⟨r, p, at_i, -, ((kept_out | ⟨-, word, mem, -⟩) | short)⟩
      · exact Or.inl ⟨r, at_i, kept_out⟩
      · have worded : (i, r.badWordsTokenIds) ∈ badWordEntries requests :=
          mem_badWordEntries.mpr ⟨r, at_i, rfl, ne_nil_of_mem mem⟩
        rw [unworded] at worded
        exact absurd worded not_mem_nil
      · exact Or.inr ⟨r, at_i, short⟩
  · have inside : ∀ e ∈ badWordEntries requests, e.1 < past.length := by
      rintro ⟨i, words⟩ mem
      obtain ⟨r, at_i, -⟩ := mem_badWordEntries.mp mem
      obtain ⟨bound, -⟩ := List.getElem?_eq_some_iff.mp at_i
      rwa [length]
    obtain ⟨m, run, mem⟩ := @foldlM_rows (Nat × List BadWord) (badWordEntries requests) vocabSize
      Prod.fst Prod.snd past (fillAllowed sm.allowedTokenIdsMask []) inside
    refine ⟨applyMinTokens sm.minToks m, ?_, ?_⟩
    · have words : sm.badWordsTokenIds.isEmpty = false := by
        rw [entries]
        exact Bool.eq_false_iff.mpr fun empty => unworded (List.isEmpty_iff.mp empty)
      rw [samplerMasks, words, spec, seen unworded, entries]
      exact congrArg (Option.map (applyMinTokens sm.minToks)) run
    · intro i v
      rw [hsm, mem_applyMinTokens, mem, hsm, mem_fillAllowed]
      constructor
      · rintro ((⟨r, at_i, kept_out⟩ | ⟨⟨i', words⟩, entry, rfl, p, at_p, hit⟩) | ⟨r, at_i, short⟩)
        · obtain ⟨p, at_p⟩ := inRange at_i
          exact ⟨r, p, at_i, at_p, Or.inl (Or.inl kept_out)⟩
        · obtain ⟨r, at_i, rfl, -⟩ := mem_badWordEntries.mp entry
          exact ⟨r, p, at_i, at_p, Or.inl (Or.inr hit)⟩
        · obtain ⟨p, at_p⟩ := inRange at_i
          exact ⟨r, p, at_i, at_p, Or.inr short⟩
      · rintro ⟨r, p, at_i, at_p, ((kept_out | hit) | short)⟩
        · exact Or.inl (Or.inl ⟨r, at_i, kept_out⟩)
        · obtain ⟨-, word, mem_word, -⟩ := id hit
          exact Or.inl (Or.inr ⟨(i, r.badWordsTokenIds),
            mem_badWordEntries.mpr ⟨r, at_i, rfl, ne_nil_of_mem mem_word⟩, rfl, p, at_p, hit⟩)
        · exact Or.inr ⟨r, at_i, short⟩

end Sampler

end VllmAmpere.SamplingConstraints
