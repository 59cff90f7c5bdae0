import VllmAmpere.SamplingConstraints

/-! What `RejectionSampler.apply_logits_processors` masks on the flattened draft rows. -/

open List

namespace VllmAmpere.SamplingConstraints

open RejectionSampler (offset offset_succ offset_cons_succ offset_inj flatMap_getElem?
  flatMap_getElem?_eq_some mapM_some)

variable {vocabSize : Nat} {noPenalties needs : Bool}

/-- The number of drafts of a request of the batch. -/
abbrev numDrafts (x : Request × List Int) : Nat := x.2.length

/-- Where the draft rows of the `r`-th request begin. -/
def draftStart (batch : List (Request × List Int)) (r : Nat) : Nat := offset numDrafts batch r

/-- The metadata of a batch of requests with their drafts. -/
def specMetadata (vocabSize : Nat) (noPenalties needs : Bool)
    (batch : List (Request × List Int)) : SamplingMetadata :=
  makeSamplingMetadata vocabSize noPenalties needs (batch.map Prod.fst)
    (some (batch.map Prod.snd))

section Prefixes

theorem draftPrefixes_length (out spec : List Int) :
    (draftPrefixes out spec).length = spec.length := by
  induction spec generalizing out with
  | nil => rfl
  | cons t spec ih => rw [draftPrefixes, length_cons, ih, length_cons]

theorem draftPrefixes_getElem? {out spec : List Int} {j : Nat} (inside : j < spec.length) :
    (draftPrefixes out spec)[j]? = some (out ++ spec.take j) := by
  induction spec generalizing out j with
  | nil => simp at inside
  | cons t spec ih =>
    cases j with
    | zero => simp [draftPrefixes]
    | succ j =>
      rw [draftPrefixes, getElem?_cons_succ, ih (by simpa using inside)]
      simp

variable (batch : List (Request × List Int))

def draftPasts : List (List Int) :=
  batch.flatMap fun x => draftPrefixes x.1.outputTokenIds x.2

theorem draftPasts_at {batch : List (Request × List Int)} {r j : Nat} {x : Request × List Int}
    (at_r : batch[r]? = some x) (inside : j < x.2.length) :
    (draftPasts batch)[draftStart batch r + j]? = some (x.1.outputTokenIds ++ x.2.take j) := by
  rw [draftPasts, draftStart,
    flatMap_getElem? (fun x _ => draftPrefixes_length _ _) at_r inside,
    draftPrefixes_getElem? inside]

theorem combineDrafts_batch :
    combineDrafts (batch.map (·.1.outputTokenIds)) (some (batch.map Prod.snd)) =
    draftPasts batch := by
  rw [combineDrafts, draftPasts, flatMap_def]
  congr 1
  induction batch with
  | nil => rfl
  | cons x batch ih => rw [map_cons, map_cons, zipWith_cons_cons, ih, map_cons]

end Prefixes

section Allowed

theorem mem_fillAllowedDrafts (batch : List (Request × List Int)) :
    ∃ m, fillAllowedDrafts (specMetadata vocabSize noPenalties needs batch)
    (batch.map numDrafts) [] = some m ∧
    ∀ i v, (i, v) ∈ m ↔ ∃ r x j, batch[r]? = some x ∧ j < x.2.length ∧ i = draftStart batch r + j ∧
    v < vocabSize ∧ x.1.allowedTokenIds ≠ [] ∧ v ∉ x.1.allowedTokenIds := by
  by_cases unconstrained : (batch.map Prod.fst).all (·.allowedTokenIds.isEmpty) = true
  · have none_set : (specMetadata vocabSize noPenalties needs batch).allowedTokenIdsMask = none :=
      if_pos unconstrained
    refine ⟨[], by rw [fillAllowedDrafts, none_set], ?_⟩
    intro i v
    constructor
    · simp
    · rintro ⟨r, x, j, at_r, -, -, -, constrained, -⟩
      rw [all_eq_true] at unconstrained
      have free := unconstrained x.1 (mem_map_of_mem (mem_of_getElem? at_r))
      exact absurd (List.isEmpty_iff.mp free) constrained
  · have some_set : (specMetadata vocabSize noPenalties needs batch).allowedTokenIdsMask =
        some ((batch.map Prod.fst).map (allowedRow vocabSize)) := if_neg unconstrained
    obtain ⟨mask, hmask⟩ : ∃ mask,
      mask = (batch.map Prod.fst).map (allowedRow vocabSize) := ⟨_, rfl⟩
    have mask_at : ∀ {r : Nat} {x : Request × List Int}, batch[r]? = some x →
        mask[r]? = some (allowedRow vocabSize x.1) := by
      intro r x at_r
      rw [hmask, map_map, getElem?_map, at_r]
      rfl
    have rows : (repeatIndices (batch.map numDrafts)).mapM (fun i => mask[i]?) =
        some (batch.flatMap fun x => List.replicate (numDrafts x) (allowedRow vocabSize x.1)) := by
      have indices : repeatIndices (batch.map numDrafts) =
          batch.zipIdx.flatMap fun (x, i) => List.replicate (numDrafts x) i := by
        rw [repeatIndices, zipIdx_map, flatMap_map]
        rfl
      have values : (batch.flatMap fun x =>
          List.replicate (numDrafts x) (allowedRow vocabSize x.1)) =
          (repeatIndices (batch.map numDrafts)).map fun i => mask.getD i [] := by
        have first : batch = batch.zipIdx.map Prod.fst := by simp
        conv_lhs => rw [first]
        rw [indices, flatMap_map, map_flatMap]
        apply flatMap_congr
        rintro ⟨x, i⟩ mem
        have at_i : batch[i]? = some x := mem_zipIdx_iff_getElem?.mp mem
        have value : mask.getD i [] = allowedRow vocabSize x.1 := by
          rw [getD_eq_getElem?_getD, mask_at at_i, Option.getD_some]
        rw [map_replicate, value]
      rw [values]
      apply mapM_some
      intro i mem
      rw [indices] at mem
      obtain ⟨⟨x, i'⟩, mem_x, copy⟩ := mem_flatMap.mp mem
      cases (mem_replicate.mp copy).2
      have at_i : batch[i]? = some x := mem_zipIdx_iff_getElem?.mp mem_x
      rw [mask_at at_i, getD_eq_getElem?_getD, mask_at at_i, Option.getD_some]
    refine ⟨maskedFill (batch.flatMap fun x =>
      List.replicate (numDrafts x) (allowedRow vocabSize x.1)) [], ?_, ?_⟩
    · rw [fillAllowedDrafts, some_set, ← hmask]
      exact congrArg (Option.map fun tokenMask => maskedFill tokenMask []) rows
    intro i v
    rw [mem_maskedFill]
    simp only [not_mem_nil, false_or]
    constructor
    · rintro ⟨row, at_i, set⟩
      obtain ⟨r, x, j, at_r, inside, index, value⟩ := (flatMap_getElem?_eq_some
        (fun x _ => length_replicate (n := numDrafts x))).mp at_i
      have row_eq : row = allowedRow vocabSize x.1 := by
        rw [getElem?_replicate] at value
        simpa [inside, eq_comm] using value
      exact ⟨r, x, j, at_r, inside, index, allowedRow_true.mp (row_eq ▸ set)⟩
    · rintro ⟨r, x, j, at_r, inside, rfl, kept_out⟩
      refine ⟨allowedRow vocabSize x.1, ?_, allowedRow_true.mpr kept_out⟩
      rw [draftStart, flatMap_getElem? (fun x _ => length_replicate (n := numDrafts x)) at_r
        inside, getElem?_replicate, if_pos inside]

end Allowed

section BadWords

theorem lookup_badWordEntries (requests : List Request) (k i : Nat) :
    ((requests.zipIdx k).filterMap fun (r, i) =>
    if r.badWordsTokenIds.isEmpty then none else some (i, r.badWordsTokenIds)).lookup (k + i) =
    requests[i]?.bind fun r =>
    if r.badWordsTokenIds.isEmpty then none else some r.badWordsTokenIds := by
  induction requests generalizing k i with
  | nil => rfl
  | cons r requests ih =>
    have later : ∀ i, i ≠ 0 → ((requests.zipIdx (k + 1)).filterMap fun (r, i) =>
        if r.badWordsTokenIds.isEmpty then none else some (i, r.badWordsTokenIds)).lookup (k + i) =
        requests[i - 1]?.bind fun r =>
          if r.badWordsTokenIds.isEmpty then none else some r.badWordsTokenIds := by
      intro i positive
      have shifted : k + i = k + 1 + (i - 1) := by omega
      rw [shifted, ih]
    have absent : ((requests.zipIdx (k + 1)).filterMap fun (r, i) =>
        if r.badWordsTokenIds.isEmpty then none else some (i, r.badWordsTokenIds)).lookup k =
        none := by
      rw [lookup_eq_none_iff]
      rintro ⟨i, words⟩ mem
      obtain ⟨⟨r, i'⟩, mem_r, entry⟩ := mem_filterMap.mp mem
      have behind := le_snd_of_mem_zipIdx mem_r
      by_cases empty : r.badWordsTokenIds.isEmpty = true
      · simp [empty] at entry
      · simp only [empty, Bool.false_eq_true, if_false, Option.some.injEq, Prod.mk.injEq] at entry
        obtain ⟨rfl, -⟩ := entry
        simp only [bne_iff_ne, ne_eq]
        simp at behind
        omega
    rw [zipIdx_cons]
    by_cases empty : r.badWordsTokenIds.isEmpty = true
    · rw [filterMap_cons_none (by simp [empty])]
      cases i with
      | zero =>
        rw [Nat.add_zero, absent]
        exact (if_pos empty).symm
      | succ i => rw [later (i + 1) (Nat.succ_ne_zero i)]; rfl
    · rw [filterMap_cons_some (b := (k, r.badWordsTokenIds)) (by simp [empty])]
      cases i with
      | zero =>
        rw [Nat.add_zero, lookup_cons_self]
        exact (if_neg empty).symm
      | succ i =>
        have other : ((k + (i + 1) : Nat) == k) = false := by simp
        rw [lookup_cons, other]
        exact later (i + 1) (Nat.succ_ne_zero i)

theorem length_badWordEntries (requests : List Request) (k : Nat) :
    ((requests.zipIdx k).filterMap fun (r, i) =>
    if r.badWordsTokenIds.isEmpty then none else some (i, r.badWordsTokenIds)).length =
    requests.countP fun r => !r.badWordsTokenIds.isEmpty := by
  induction requests generalizing k with
  | nil => rfl
  | cons r requests ih =>
    rw [zipIdx_cons, countP_cons]
    by_cases empty : r.badWordsTokenIds.isEmpty = true
    · rw [filterMap_cons_none (by simp [empty]), ih]
      simp [empty]
    · rw [filterMap_cons_some (b := (k, r.badWordsTokenIds)) (by simp [empty]),
        length_cons, ih]
      simp [empty]

/-- The loop over the requests from `i` on, the draft rows of which begin at `start`. -/
theorem badWordsLoop_rows {badWords : List (Nat × List BadWord)} {past : List (List Int)}
    (xs : List (Request × List Int)) (i start remaining : Nat) (m : Masked)
    (lookup : ∀ k x, xs[k]? = some x → badWords.lookup (i + k) =
    if x.1.badWordsTokenIds.isEmpty then none else some x.1.badWordsTokenIds)
    (count : remaining = xs.countP fun x => !x.1.badWordsTokenIds.isEmpty)
    (inside : start + (xs.map numDrafts).sum ≤ past.length) :
    ∃ m', badWordsLoop vocabSize badWords past i start remaining (xs.map numDrafts) m = some m' ∧
    ∀ row v, (row, v) ∈ m' ↔ (row, v) ∈ m ∨ ∃ k x j, xs[k]? = some x ∧ j < x.2.length ∧
    row = start + draftStart xs k + j ∧
    ∃ p, past[row]? = some p ∧ BadHit vocabSize x.1.badWordsTokenIds p v := by
  induction xs generalizing i start remaining m with
  | nil => exact ⟨m, rfl, by simp⟩
  | cons x xs ih =>
    have zero : draftStart (x :: xs) 0 = 0 := by simp [draftStart, offset]
    have next : ∀ k, draftStart (x :: xs) (k + 1) = x.2.length + draftStart xs k :=
      fun k => offset_cons_succ numDrafts x xs k
    have here := lookup 0 x rfl
    rw [Nat.add_zero] at here
    have later : ∀ k y, xs[k]? = some y → badWords.lookup (i + 1 + k) =
        if y.1.badWordsTokenIds.isEmpty then none else some y.1.badWordsTokenIds := by
      intro k y at_k
      have := lookup (k + 1) y at_k
      rwa [← Nat.add_assoc, Nat.add_right_comm] at this
    rw [map_cons, sum_cons] at inside
    -- the rows of the first request, and those of the requests behind it
    have split : ∀ (row v : Nat), (∃ k y j, (x :: xs)[k]? = some y ∧ j < y.2.length ∧
          row = start + draftStart (x :: xs) k + j ∧
          ∃ p, past[row]? = some p ∧ BadHit vocabSize y.1.badWordsTokenIds p v) ↔
        (∃ j, j < x.2.length ∧ row = start + j ∧
          ∃ p, past[row]? = some p ∧ BadHit vocabSize x.1.badWordsTokenIds p v) ∨
        ∃ k y j, xs[k]? = some y ∧ j < y.2.length ∧
          row = start + x.2.length + draftStart xs k + j ∧
          ∃ p, past[row]? = some p ∧ BadHit vocabSize y.1.badWordsTokenIds p v := by
      intro row v
      constructor
      · rintro ⟨k, y, j, at_k, lt, index, hit⟩
        cases k with
        | zero =>
          cases at_k
          exact Or.inl ⟨j, lt, by omega, hit⟩
        | succ k =>
          have := next k
          exact Or.inr ⟨k, y, j, at_k, lt, by omega, hit⟩
      · rintro (⟨j, lt, index, hit⟩ | ⟨k, y, j, at_k, lt, index, hit⟩)
        · exact ⟨0, x, j, rfl, lt, by omega, hit⟩
        · have := next k
          exact ⟨k + 1, y, j, at_k, lt, by omega, hit⟩
    by_cases empty : x.1.badWordsTokenIds.isEmpty = true
    · have unworded : x.1.badWordsTokenIds = [] := List.isEmpty_iff.mp empty
      rw [if_pos empty] at here
      rw [countP_cons_of_neg (by simp [empty])] at count
      obtain ⟨m', run, mem⟩ := ih (i + 1) (start + x.2.length) remaining m later count
        (by simp only [numDrafts] at inside ⊢; omega)
      refine ⟨m', by rw [map_cons, badWordsLoop, here]; exact run, ?_⟩
      intro row v
      rw [mem, split, unworded]
      simp [BadHit]
    · rw [if_neg empty] at here
      rw [countP_cons_of_pos (by simp [empty])] at count
      obtain ⟨m₁, run₁, mem₁⟩ := @foldlM_rows Nat (List.range' start x.2.length) vocabSize id
        (fun _ => x.1.badWordsTokenIds) past m (by
          intro row mem
          rw [mem_range'_1] at mem
          simp only [numDrafts] at inside
          simp only [id]
          omega)
      have first : applyBadWordsToDrafts vocabSize start x.1.badWordsTokenIds past x.2.length m =
          some m₁ := run₁
      have own : ∀ row v, (row, v) ∈ m₁ ↔ (row, v) ∈ m ∨ ∃ j, j < x.2.length ∧ row = start + j ∧
          ∃ p, past[row]? = some p ∧ BadHit vocabSize x.1.badWordsTokenIds p v := by
        intro row v
        rw [mem₁]
        apply or_congr_right
        constructor
        · rintro ⟨e, mem, index, hit⟩
          have row_eq : row = e := index
          rw [mem_range'_1] at mem
          exact ⟨row - start, by omega, by omega, hit⟩
        · rintro ⟨j, lt, rfl, hit⟩
          exact ⟨start + j, mem_range'_1.mpr (by omega), rfl, hit⟩
      by_cases last : remaining - 1 = 0
      · refine ⟨m₁, by rw [map_cons, badWordsLoop, here]; simp [first, last], ?_⟩
        have none_left : ∀ y ∈ xs, y.1.badWordsTokenIds = [] := by
          have zero_left : (xs.countP fun x => !x.1.badWordsTokenIds.isEmpty) = 0 := by omega
          intro y hy
          have := countP_eq_zero.mp zero_left y hy
          simpa using this
        intro row v
        rw [own, split]
        apply or_congr_right
        rw [iff_self_or]
        rintro ⟨k, y, j, at_k, -, -, p, -, -, word, mem, -⟩
        rw [none_left y (mem_of_getElem? at_k)] at mem
        exact absurd mem not_mem_nil
      · obtain ⟨m', run, mem⟩ := ih (i + 1) (start + x.2.length) (remaining - 1) m₁ later
          (by omega) (by simp only [numDrafts] at inside ⊢; omega)
        refine ⟨m', by rw [map_cons, badWordsLoop, here]; simp [first, last, run], ?_⟩
        intro row v
        rw [mem, own, split, or_assoc]

end BadWords

/-! The rows of a speculative step against plain decoding: a row of a request masks what plain
decoding masks behind the same tokens, except on bonus rows at the `min_tokens` boundary. -/

open RejectionSampler (offset offset_inj mapM_some)

section DraftRows

variable (batch : List (Request × List Int))

theorem mem_applyWithSpecDecode (m : Masked) :
    ∃ m', applyWithSpecDecode (specMetadata vocabSize noPenalties needs batch).minToks
    (batch.map numDrafts) m = some m' ∧
    ∀ row v, (row, v) ∈ m' ↔ (row, v) ∈ m ∨ ∃ r x j, batch[r]? = some x ∧ j < x.2.length ∧
    row = draftStart batch r + j ∧ Short x.1 (x.1.outputTokenIds.length + j) v := by
  obtain ⟨entries, hentries⟩ : ∃ entries, entries =
    ((specMetadata vocabSize noPenalties needs batch).minToks.filter
      fun e : Nat × MinToks => !e.2.stopTokIds.isEmpty) := ⟨_, rfl⟩
  have mem_entries : ∀ {i : Nat} {entry : MinToks}, (i, entry) ∈ entries ↔
      ∃ x, batch[i]? = some x ∧ x.1.outputTokenIds.length < x.1.minTokens ∧
        entry = ⟨x.1.minTokens, x.1.outputTokenIds, x.1.allStopTokenIds⟩ ∧
        x.1.allStopTokenIds ≠ [] := by
    intro i entry
    rw [hentries, mem_filter, specMetadata, makeSamplingMetadata, mem_minToks]
    constructor
    · rintro ⟨⟨r, at_i, short, rfl⟩, some_stop⟩
      rw [getElem?_map, Option.map_eq_some_iff] at at_i
      obtain ⟨x, at_i, rfl⟩ := at_i
      exact ⟨x, at_i, short, rfl, by simpa using some_stop⟩
    · rintro ⟨x, at_i, short, rfl, some_stop⟩
      exact ⟨⟨x.1, by rw [getElem?_map, at_i]; rfl, short, rfl⟩, by simpa using some_stop⟩
  obtain ⟨masks, hmasks⟩ : ∃ masks : Nat × MinToks → Masked, masks = fun e =>
    (List.range' ((batch.map numDrafts).take e.1).sum
      (min (e.2.minTokens - e.2.outTokIds.length) ((batch.map numDrafts).getD e.1 0))).flatMap
        fun row => e.2.stopTokIds.map fun t => (row, t) := ⟨_, rfl⟩
  have reads : ∀ e ∈ entries, specMinTokens (batch.map numDrafts) e.1 e.2 = some (masks e) := by
    rintro ⟨i, entry⟩ mem
    obtain ⟨x, at_i, -⟩ := mem_entries.mp mem
    have drafts : (batch.map numDrafts)[i]? = some x.2.length := by
      rw [getElem?_map, at_i]
      rfl
    rw [specMinTokens, drafts, Option.map_some, hmasks]
    simp only [getD_eq_getElem?_getD, drafts, Option.getD_some]
  refine ⟨m ++ (entries.map masks).flatten, ?_, ?_⟩
  · rw [applyWithSpecDecode, ← hentries, mapM_some reads, Option.map_some]
  · intro row v
    rw [mem_append, mem_flatten]
    apply or_congr_right
    simp only [mem_map, exists_exists_and_eq_and]
    constructor
    · rintro ⟨⟨i, entry⟩, mem, masked⟩
      obtain ⟨x, at_i, short, rfl, -⟩ := mem_entries.mp mem
      rw [hmasks] at masked
      obtain ⟨row', inside, masked⟩ := mem_flatMap.mp masked
      obtain ⟨t, stop, same⟩ := mem_map.mp masked
      cases same
      have drafts : (batch.map numDrafts).getD i 0 = x.2.length := by
        rw [getD_eq_getElem?_getD, getElem?_map, at_i]
        rfl
      have start : ((batch.map numDrafts).take i).sum = draftStart batch i := by
        rw [draftStart, offset, map_take]
      simp only [drafts, start, mem_range'_1] at inside
      exact ⟨i, x, row - draftStart batch i, at_i, by omega, by omega, ⟨by omega, stop⟩⟩
    · rintro ⟨i, x, j, at_i, inside, rfl, short, stop⟩
      refine ⟨(i, ⟨x.1.minTokens, x.1.outputTokenIds, x.1.allStopTokenIds⟩),
        mem_entries.mpr ⟨x, at_i, by omega, rfl, ne_nil_of_mem stop⟩, ?_⟩
      have drafts : (batch.map numDrafts).getD i 0 = x.2.length := by
        rw [getD_eq_getElem?_getD, getElem?_map, at_i]
        rfl
      have start : ((batch.map numDrafts).take i).sum = draftStart batch i := by
        rw [draftStart, offset, map_take]
      rw [hmasks]
      simp only [drafts, start]
      exact mem_flatMap.mpr ⟨draftStart batch i + j, mem_range'_1.mpr (by omega),
        mem_map.mpr ⟨v, stop, rfl⟩⟩

theorem draftMasks_rows :
    ∃ m, draftMasks vocabSize (specMetadata vocabSize noPenalties needs batch)
    (batch.map numDrafts) = some m ∧
    ∀ row v, (row, v) ∈ m ↔ ∃ r x j, batch[r]? = some x ∧ j < x.2.length ∧
    row = draftStart batch r + j ∧ (Bars vocabSize x.1 (x.1.outputTokenIds ++ x.2.take j) v ∨
    Short x.1 (x.1.outputTokenIds.length + j) v) := by
  obtain ⟨sm, hsm⟩ : ∃ sm, sm = specMetadata vocabSize noPenalties needs batch := ⟨_, rfl⟩
  have entries : sm.badWordsTokenIds = badWordEntries (batch.map Prod.fst) := by rw [hsm]; rfl
  obtain ⟨m₁, run₁, mem₁⟩ := @mem_fillAllowedDrafts vocabSize noPenalties needs batch
  have words : ∃ m₂, badWordsOnDrafts vocabSize sm (batch.map numDrafts) m₁ = some m₂ ∧
      ∀ row v, (row, v) ∈ m₂ ↔ (row, v) ∈ m₁ ∨ ∃ r x j, batch[r]? = some x ∧ j < x.2.length ∧
        row = draftStart batch r + j ∧ BadHit vocabSize x.1.badWordsTokenIds
          (x.1.outputTokenIds ++ x.2.take j) v := by
    by_cases unworded : badWordEntries (batch.map Prod.fst) = []
    · refine ⟨m₁, by rw [badWordsOnDrafts, entries, unworded]; exact if_pos rfl, ?_⟩
      intro row v
      rw [iff_self_or]
      rintro ⟨r, x, j, at_r, -, -, -, word, mem, -⟩
      have worded : (r, x.1.badWordsTokenIds) ∈ badWordEntries (batch.map Prod.fst) :=
        mem_badWordEntries.mpr ⟨x.1, by rw [getElem?_map, at_r]; rfl, rfl,
          ne_nil_of_mem mem⟩
      rw [unworded] at worded
      exact absurd worded not_mem_nil
    · have worded : sm.badWordsTokenIds.isEmpty = false := by
        rw [entries]
        exact Bool.eq_false_iff.mpr fun empty => unworded (List.isEmpty_iff.mp empty)
      have outputs : sm.outputTokenIds = batch.map (·.1.outputTokenIds) := by
        have some_words : (badWordEntries (batch.map Prod.fst)).isEmpty = false := entries ▸ worded
        have asked : (!noPenalties || !(badWordEntries (batch.map Prod.fst)).isEmpty || needs) =
            true := by
          rw [some_words]
          simp
        have set : sm.outputTokenIds =
            (batch.map Prod.fst).map (·.outputTokenIds) := by
          rw [hsm]
          exact if_pos asked
        rw [set, map_map]
        rfl
      have pasts : (if anyPenaltiesOrBadWords sm then
          combineDrafts sm.outputTokenIds sm.specTokenIds else sm.outputTokenIds) =
          draftPasts batch := by
        have any : anyPenaltiesOrBadWords sm = true := by
          rw [anyPenaltiesOrBadWords, worded]
          rfl
        have specs : sm.specTokenIds = some (batch.map Prod.snd) := by rw [hsm]; rfl
        rw [if_pos any, outputs, specs, combineDrafts_batch]
      have length : (draftPasts batch).length = (batch.map numDrafts).sum :=
        RejectionSampler.flatMap_length fun x _ => draftPrefixes_length _ _
      have count : sm.badWordsTokenIds.length =
          batch.countP fun x => !x.1.badWordsTokenIds.isEmpty := by
        rw [entries, badWordEntries, length_badWordEntries, countP_map]
        rfl
      obtain ⟨m₂, run₂, mem₂⟩ := @badWordsLoop_rows vocabSize sm.badWordsTokenIds
        (draftPasts batch) batch 0 0 sm.badWordsTokenIds.length m₁
        (by
          intro k x at_k
          have found := lookup_badWordEntries (batch.map Prod.fst) 0 k
          rw [entries, badWordEntries, found, getElem?_map, at_k]
          rfl)
        count (by rw [length, Nat.zero_add])
      refine ⟨m₂, ?_, ?_⟩
      · rw [badWordsOnDrafts, pasts, worded]
        exact run₂
      · intro row v
        rw [mem₂]
        apply or_congr_right
        constructor
        · rintro ⟨r, x, j, at_r, inside, index, p, found, hit⟩
          rw [Nat.zero_add] at index
          rw [index, draftPasts_at at_r inside, Option.some.injEq] at found
          exact ⟨r, x, j, at_r, inside, index, found ▸ hit⟩
        · rintro ⟨r, x, j, at_r, inside, rfl, hit⟩
          exact ⟨r, x, j, at_r, inside, by omega, _, draftPasts_at at_r inside, hit⟩
  obtain ⟨m₂, run₂, mem₂⟩ := words
  obtain ⟨m₃, run₃, mem₃⟩ := @mem_applyWithSpecDecode vocabSize noPenalties needs batch m₂
  rw [← hsm] at run₁ run₃ ⊢
  refine ⟨m₃, by rw [draftMasks, run₁, Option.bind_eq_bind, Option.bind_some, run₂]; exact run₃, ?_⟩
  intro row v
  rw [mem₃, mem₂, mem₁]
  constructor
  · rintro ((⟨r, x, j, at_r, inside, index, kept_out⟩ | ⟨r, x, j, at_r, inside, index, hit⟩) |
      ⟨r, x, j, at_r, inside, index, short⟩)
    · exact ⟨r, x, j, at_r, inside, index, Or.inl (Or.inl kept_out)⟩
    · exact ⟨r, x, j, at_r, inside, index, Or.inl (Or.inr hit)⟩
    · exact ⟨r, x, j, at_r, inside, index, Or.inr short⟩
  · rintro ⟨r, x, j, at_r, inside, index, ((kept_out | hit) | short)⟩
    · exact Or.inl (Or.inl ⟨r, x, j, at_r, inside, index, kept_out⟩)
    · exact Or.inl (Or.inr ⟨r, x, j, at_r, inside, index, hit⟩)
    · exact Or.inr ⟨r, x, j, at_r, inside, index, short⟩

end DraftRows

section Agreement

theorem plainMasks_rows (requests : List Request) (specs : Option (List (List Int))) :
    ∃ m, samplerMasks vocabSize
    (makeSamplingMetadata vocabSize noPenalties needs requests specs) false = some m ∧
    ∀ i v, (i, v) ∈ m ↔ ∃ r, requests[i]? = some r ∧
    (Bars vocabSize r r.outputTokenIds v ∨ Short r r.outputTokenIds.length v) := by
  obtain ⟨m, run, mem⟩ := @samplerMasks_rows vocabSize noPenalties needs requests specs false
    (requests.map (·.outputTokenIds)) (length_map _) (by
      intro worded
      have some_words : (badWordEntries requests).isEmpty = false :=
        Bool.eq_false_iff.mpr fun empty => worded (List.isEmpty_iff.mp empty)
      have asked : (!noPenalties || !(badWordEntries requests).isEmpty || needs) = true := by
        rw [some_words]
        simp
      rw [Bool.false_and, if_neg Bool.false_ne_true]
      exact if_pos asked)
  refine ⟨m, run, ?_⟩
  intro i v
  rw [mem]
  constructor
  · rintro ⟨r, p, at_i, at_p, masked⟩
    rw [getElem?_map, at_i, Option.map_some, Option.some.injEq] at at_p
    exact ⟨r, at_i, at_p ▸ masked⟩
  · rintro ⟨r, at_i, masked⟩
    exact ⟨r, _, at_i, by rw [getElem?_map, at_i]; rfl, masked⟩

/-- A bonus row has the bad words behind all drafts, but `min_tokens` behind none of them. -/
theorem bonusMasks_rows (batch : List (Request × List Int)) :
    ∃ m, samplerMasks vocabSize (specMetadata vocabSize noPenalties needs batch) true = some m ∧
    ∀ i v, (i, v) ∈ m ↔ ∃ x, batch[i]? = some x ∧
    (Bars vocabSize x.1 (x.1.outputTokenIds ++ x.2) v ∨ Short x.1 x.1.outputTokenIds.length v) := by
  obtain ⟨m, run, mem⟩ := @samplerMasks_rows vocabSize noPenalties needs (batch.map Prod.fst)
    (some (batch.map Prod.snd)) true (batch.map fun x => x.1.outputTokenIds ++ x.2) (by simp) (by
      intro worded
      obtain ⟨sm, hsm⟩ : ∃ sm, sm = makeSamplingMetadata vocabSize noPenalties needs
        (batch.map Prod.fst) (some (batch.map Prod.snd)) := ⟨_, rfl⟩
      have some_words : (badWordEntries (batch.map Prod.fst)).isEmpty = false :=
        Bool.eq_false_iff.mpr fun empty => worded (List.isEmpty_iff.mp empty)
      have entries : sm.badWordsTokenIds = badWordEntries (batch.map Prod.fst) := by rw [hsm]; rfl
      have any : (true && anyPenaltiesOrBadWords sm) = true := by
        rw [anyPenaltiesOrBadWords, entries, some_words]
        rfl
      have asked : (!noPenalties || !(badWordEntries (batch.map Prod.fst)).isEmpty || needs) =
          true := by
        rw [some_words]
        simp
      have outputs : sm.outputTokenIds = (batch.map Prod.fst).map (·.outputTokenIds) := by
        rw [hsm]
        exact if_pos asked
      rw [← hsm, if_pos any, outputs, combineOutputs]
      clear worded some_words entries any asked outputs hsm
      induction batch with
      | nil => rfl
      | cons x batch ih =>
        rw [map_cons, map_cons, map_cons, map_cons, zipWith_cons_cons, ih]
        by_cases undrafted : x.2 = []
        · simp [undrafted]
        · simp [undrafted])
  refine ⟨m, run, ?_⟩
  intro i v
  rw [mem]
  constructor
  · rintro ⟨r, p, at_i, at_p, masked⟩
    rw [getElem?_map, Option.map_eq_some_iff] at at_i at_p
    obtain ⟨x, at_x, rfl⟩ := at_i
    obtain ⟨x', at_x', rfl⟩ := at_p
    cases at_x.symm.trans at_x'
    exact ⟨x, at_x, masked⟩
  · rintro ⟨x, at_i, masked⟩
    exact ⟨x.1, _, by rw [getElem?_map, at_i]; rfl, by rw [getElem?_map, at_i]; rfl,
      masked⟩

/-- The token is masked on the row for draft position `j` of request `r`, the bonus row being the
one behind the last draft. -/
def SpecMasked (vocabSize : Nat) (noPenalties needs : Bool) (batch : List (Request × List Int))
    (r j v : Nat) : Prop :=
  if j < (batch.map numDrafts).getD r 0 then
    ∃ m, draftMasks vocabSize (specMetadata vocabSize noPenalties needs batch)
      (batch.map numDrafts) = some m ∧ (draftStart batch r + j, v) ∈ m
  else
    ∃ m, samplerMasks vocabSize (specMetadata vocabSize noPenalties needs batch) true = some m ∧
      (r, v) ∈ m

/-- The token is masked by the sampler of plain decoding. -/
def PlainMasked (vocabSize : Nat) (noPenalties needs : Bool) (requests : List Request)
    (specs : Option (List (List Int))) (r v : Nat) : Prop :=
  ∃ m, samplerMasks vocabSize (makeSamplingMetadata vocabSize noPenalties needs requests specs)
    false = some m ∧ (r, v) ∈ m

/-- On every row of every request a step masks what plain decoding masks for the request behind its
output and the drafts before the row, whatever batch it is decoded in. -/
def RowsAgree (vocabSize : Nat) (noPenalties needs : Bool) (batch : List (Request × List Int)) :
    Prop :=
  ∀ r x, batch[r]? = some x → ∀ j, j ≤ x.2.length →
    ∀ (noPenalties' needs' : Bool) (requests : List Request) (specs : Option (List (List Int)))
      (r' : Nat),
      requests[r']? =
        some { x.1 with outputTokenIds := x.1.outputTokenIds ++ x.2.take j } →
      ∀ v, SpecMasked vocabSize noPenalties needs batch r j v ↔
        PlainMasked vocabSize noPenalties' needs' requests specs r' v

/-- A row agrees where `min_tokens` lies before the drafts or behind them, or where its stop tokens
are kept out by the other constraints. -/
def MinTokensClear (vocabSize : Nat) (x : Request × List Int) : Prop :=
  x.1.outputTokenIds.length < x.1.minTokens →
    x.1.minTokens ≤ x.1.outputTokenIds.length + x.2.length →
      ∀ v ∈ x.1.allStopTokenIds, Bars vocabSize x.1 (x.1.outputTokenIds ++ x.2) v

theorem specMasked_draft {batch : List (Request × List Int)} {r j v : Nat}
    {x : Request × List Int} (at_r : batch[r]? = some x) (inside : j < x.2.length) :
    SpecMasked vocabSize noPenalties needs batch r j v ↔
    Bars vocabSize x.1 (x.1.outputTokenIds ++ x.2.take j) v ∨
    Short x.1 (x.1.outputTokenIds.length + j) v := by
  have drafts : (batch.map numDrafts).getD r 0 = x.2.length := by
    rw [getD_eq_getElem?_getD, getElem?_map, at_r]
    rfl
  obtain ⟨m, run, mem⟩ := @draftMasks_rows vocabSize noPenalties needs batch
  rw [SpecMasked, drafts, if_pos inside, run]
  simp only [Option.some.injEq, exists_eq_left', mem]
  constructor
  · rintro ⟨r', x', j', at_r', inside', index, masked⟩
    obtain ⟨rfl, rfl⟩ := offset_inj at_r at_r' inside inside' index
    cases at_r.symm.trans at_r'
    exact masked
  · intro masked
    exact ⟨r, x, j, at_r, inside, rfl, masked⟩

theorem specMasked_bonus {batch : List (Request × List Int)} {r v : Nat}
    {x : Request × List Int} (at_r : batch[r]? = some x) :
    SpecMasked vocabSize noPenalties needs batch r x.2.length v ↔
    Bars vocabSize x.1 (x.1.outputTokenIds ++ x.2) v ∨ Short x.1 x.1.outputTokenIds.length v := by
  have drafts : (batch.map numDrafts).getD r 0 = x.2.length := by
    rw [getD_eq_getElem?_getD, getElem?_map, at_r]
    rfl
  obtain ⟨m, run, mem⟩ := @bonusMasks_rows vocabSize noPenalties needs batch
  rw [SpecMasked, drafts, if_neg (Nat.lt_irrefl _), run]
  simp only [Option.some.injEq, exists_eq_left', mem]
  constructor
  · rintro ⟨x', at_r', masked⟩
    cases at_r.symm.trans at_r'
    exact masked
  · intro masked
    exact ⟨x, at_r, masked⟩

theorem plainMasked_iff {requests : List Request} {specs : Option (List (List Int))} {r v : Nat}
    {request : Request} (at_r : requests[r]? = some request) :
    PlainMasked vocabSize noPenalties needs requests specs r v ↔
    Bars vocabSize request request.outputTokenIds v ∨
    Short request request.outputTokenIds.length v := by
  obtain ⟨m, run, mem⟩ := @plainMasks_rows vocabSize noPenalties needs requests specs
  rw [PlainMasked, run]
  simp only [Option.some.injEq, exists_eq_left', mem, at_r]

/-- The rows agree with plain decoding exactly when no request crosses `min_tokens` within its
drafts with a stop token that only `min_tokens` keeps out. -/
theorem rows_agree_iff (vocabSize : Nat) (noPenalties needs : Bool)
    (batch : List (Request × List Int)) :
    RowsAgree vocabSize noPenalties needs batch ↔ ∀ x ∈ batch, MinTokensClear vocabSize x := by
  constructor
  · intro agree x mem below reached v stop
    obtain ⟨r, at_r⟩ := mem_iff_getElem?.mp mem
    have row := (agree r x at_r x.2.length le_rfl noPenalties needs
      [{ x.1 with outputTokenIds := x.1.outputTokenIds ++ x.2.take x.2.length }] none 0 rfl v).mp
      ((specMasked_bonus at_r).mpr (Or.inr ⟨below, stop⟩))
    rw [plainMasked_iff rfl, take_length] at row
    cases row with
    | inl barred => exact barred
    | inr short =>
      have := short.1
      simp only [length_append] at this
      omega
  · intro clear r x at_r j inside noPenalties' needs' requests specs r' at_r' v
    rw [plainMasked_iff at_r']
    by_cases draft : j < x.2.length
    · rw [specMasked_draft at_r draft]
      apply or_congr_right
      have length : (x.1.outputTokenIds ++ x.2.take j).length =
          x.1.outputTokenIds.length + j := by
        rw [length_append, length_take, Nat.min_eq_left inside]
      rw [length]
      rfl
    · obtain rfl : j = x.2.length := by omega
      rw [specMasked_bonus at_r, take_length, length_append]
      constructor
      · rintro (barred | ⟨below, stop⟩)
        · exact Or.inl barred
        · by_cases reached : x.1.minTokens ≤ x.1.outputTokenIds.length + x.2.length
          · exact Or.inl (clear x (mem_of_getElem? at_r) below reached v stop)
          · exact Or.inr ⟨not_le.mp reached, stop⟩
      · rintro (barred | ⟨below, stop⟩)
        · exact Or.inl barred
        · exact Or.inr ⟨by
            have := below
            simp only at this
            omega, stop⟩

/-- Three tokens committed, three drafted, five asked for: the stop token is masked on the bonus
row, six tokens in, where plain decoding allows it. -/
theorem bonus_row_masked : ¬ RowsAgree 8 true false [(⟨[3, 4, 5], [], [], 5, [2]⟩, [6, 7, 3])] := by
  intro agree
  have masked := (agree 0 _ rfl 3 le_rfl true false
    [⟨[3, 4, 5, 6, 7, 3], [], [], 5, [2]⟩] none 0 rfl 2).mp ⟨_, rfl, by decide⟩
  obtain ⟨m, run, mem⟩ := masked
  have free : samplerMasks 8 (makeSamplingMetadata 8 true false
      [⟨[3, 4, 5, 6, 7, 3], [], [], 5, [2]⟩] none) false = some [] := by decide
  rw [free, Option.some.injEq] at run
  rw [← run] at mem
  exact absurd mem not_mem_nil

end Agreement

end VllmAmpere.SamplingConstraints
