import Mathlib.Algebra.Order.Field.Rat
import VllmAmpere.RejectionOutputs

/-! Speculative decoding of requests with a deterministic target. A step appends to each of its
requests the tokens `parse_output` keeps of the request's row; they are tokens that decoding
without drafts appends at the same positions. -/

open List

namespace VllmAmpere.RejectionSampler

section Decoding

/-- The next `n` tokens of a request decoded without drafts. -/
def greedyDecode (target : List Int → Int) (history : List Int) : Nat → List Int
  | 0 => []
  | n + 1 => target history :: greedyDecode target (history ++ [target history]) n

variable {target : List Int → Int}

theorem greedyDecode_add (history : List Int) (m n : Nat) : greedyDecode target history (m + n) =
    greedyDecode target history m ++
    greedyDecode target (history ++ greedyDecode target history m) n := by
  induction m generalizing history with
  | zero => simp [greedyDecode]
  | succ m ih =>
    rw [Nat.add_right_comm, greedyDecode, ih, greedyDecode, cons_append,
      append_assoc, singleton_append]

end Decoding

section Rows

variable {R : Type} [Field R] [LinearOrder R] {vocabSize maxSpecLen : Nat}
  {withDraftProbs : Bool} {softmax : Softmax R}

/-- The row of a greedy request: each of its positions has the logits of the target behind the
drafts before it, and the bonus token is the target's behind all of them. -/
structure Row.Follows (target : List Int → Int) (history : List Int)
    (row : Row R vocabSize maxSpecLen) : Prop where
  greedy : row.temperature = 0
  logits : ∀ j, (inside : j < row.positions.length) →
    (argmax row.positions[j].targetLogits : Int) =
      target (history ++ (row.positions.take j).map (·.draftTokenId))
  bonus : row.bonusTokenId = target (history ++ row.positions.map (·.draftTokenId))

omit [Field R] in
theorem emitted_decoded {target : List Int → Int} {bonus : Int}
    {positions : List (Position R vocabSize)} {history : List Int}
    (logits : ∀ j, (inside : j < positions.length) → (argmax positions[j].targetLogits : Int) =
    target (history ++ (positions.take j).map (·.draftTokenId)))
    (last : bonus = target (history ++ positions.map (·.draftTokenId))) : ∃ n, 0 < n ∧
    emitted (positions.map Position.greedyVerdict) bonus = greedyDecode target history n := by
  induction positions generalizing history with
  | nil =>
    refine ⟨1, Nat.one_pos, ?_⟩
    simpa [emitted, greedyDecode] using last
  | cons p positions ih =>
    have first : (argmax p.targetLogits : Int) = target history := by
      simpa using logits 0 (Nat.zero_lt_succ _)
    by_cases accepted : p.draftTokenId = argmax p.targetLogits
    · have draft : p.draftTokenId = target history := accepted.trans first
      have later := @ih (history ++ [target history])
        (fun j inside => by
          have := logits (j + 1) (Nat.succ_lt_succ inside)
          simpa [draft] using this)
        (by simpa [draft] using last)
      obtain ⟨n, -, rest⟩ := later
      refine ⟨n + 1, Nat.succ_pos n, ?_⟩
      rw [map_cons, Position.greedyVerdict, decide_eq_true accepted, emitted, greedyDecode,
        rest, first]
    · refine ⟨1, Nat.one_pos, ?_⟩
      rw [map_cons, Position.greedyVerdict, decide_eq_false accepted, emitted, first]
      rfl

theorem Row.Follows.tokens {target : List Int → Int} {history : List Int}
    {row : Row R vocabSize maxSpecLen} (follows : row.Follows target history) :
    ∃ n, 0 < n ∧ row.tokens withDraftProbs softmax = greedyDecode target history n := by
  rw [Row.tokens, if_pos follows.greedy]
  exact emitted_decoded follows.logits follows.bonus

/-- Two rows with the same drafts, probabilities, random numbers and bonus token, in batches that
may pad to different widths. -/
structure Row.Same {maxSpecLen' : Nat} (row : Row R vocabSize maxSpecLen)
    (row' : Row R vocabSize maxSpecLen') : Prop where
  positions : row.positions = row'.positions
  bonusTokenId : row.bonusTokenId = row'.bonusTokenId
  temperature : row.temperature = row'.temperature
  q : row.q = row'.q

theorem Row.Same.tokens {maxSpecLen' : Nat} {row : Row R vocabSize maxSpecLen}
    {row' : Row R vocabSize maxSpecLen'} (same : row.Same row') :
    row.tokens withDraftProbs softmax = row'.tokens withDraftProbs softmax := by
  rw [Row.tokens, Row.tokens, same.positions, same.bonusTokenId, same.temperature, same.q]

end Rows

section Steps

variable {ι : Type} [DecidableEq ι] {R : Type} [Field R] [LinearOrder R] {vocabSize : Nat}

/-- One step of the engine: its requests with their rows, in the order of the batch, and the rows
whose tokens are dropped. -/
structure Step (ι R : Type) (vocabSize : Nat) where
  maxSpecLen : Nat
  withDraftProbs : Bool
  requests : List (ι × Row R vocabSize maxSpecLen)
  discardReqIndices : List Nat
  distinct : (requests.map Prod.fst).Nodup

/-- The token lists a step returns, one for each of its requests. -/
def Step.Returns (softmax : Softmax R) (blockSize : Nat) (s : Step ι R vocabSize)
    (sampled : List (List Int)) : Prop :=
  ∃ out,
    RejectionSample softmax.toFun blockSize
      (batchArgs s.withDraftProbs (s.requests.map Prod.snd)) out ∧
    sampled = parseOutput (rowsOf s.requests.length (s.maxSpecLen + 1) out) vocabSize
      s.discardReqIndices

def Step.appended (s : Step ι R vocabSize) (sampled : List (List Int)) (i : ι) : List Int :=
  (((s.requests.map Prod.fst).zip sampled).lookup i).getD []

/-- The greedy requests of a step sit on rows of the target behind their histories. -/
def Step.Serves (greedy : ι → Prop) (target : ι → List Int → Int) (histories : ι → List Int)
    (s : Step ι R vocabSize) : Prop :=
  ∀ x ∈ s.requests, greedy x.1 → x.2.Follows (target x.1) (histories x.1)

/-- The runs of the engine, with the steps taken. -/
inductive Run (softmax : Softmax R) (blockSize : Nat) (greedy : ι → Prop)
    (target : ι → List Int → Int) (start : ι → List Int) :
    List (Step ι R vocabSize) → (ι → List Int) → Prop
  | start : Run softmax blockSize greedy target start [] start
  | step {steps : List (Step ι R vocabSize)} {histories : ι → List Int}
      (s : Step ι R vocabSize) (sampled : List (List Int))
      (before : Run softmax blockSize greedy target start steps histories)
      (serves : s.Serves greedy target histories) (returns : s.Returns softmax blockSize sampled) :
      Run softmax blockSize greedy target start (steps ++ [s])
        fun i => histories i ++ s.appended sampled i

def Step.keeps (s : Step ι R vocabSize) (i : ι) : Bool :=
  (s.requests.zipIdx.any fun (x, k) => decide (x.1 = i ∧ k ∉ s.discardReqIndices))

variable {softmax : Softmax R} {blockSize : Nat} {sampled : List (List Int)}

omit [DecidableEq ι] in
theorem Step.returns_iff (block_pos : 0 < blockSize) (s : Step ι R vocabSize) :
    s.Returns softmax blockSize sampled ↔ sampled = s.requests.zipIdx.map fun (x, k) =>
    if k ∈ s.discardReqIndices then [] else x.2.tokens s.withDraftProbs softmax := by
  have rows : (s.requests.map Prod.snd).zipIdx.map (fun (row, i) =>
      if i ∈ s.discardReqIndices then [] else row.tokens s.withDraftProbs softmax) =
      s.requests.zipIdx.map fun (x, k) =>
        if k ∈ s.discardReqIndices then [] else x.2.tokens s.withDraftProbs softmax := by
    rw [zipIdx_map, map_map]
    rfl
  have length : (s.requests.map Prod.snd).length = s.requests.length := length_map _
  rw [← rows]
  constructor
  · rintro ⟨out, call, rfl⟩
    rw [← parseOutput_rows block_pos call, length]
  · rintro rfl
    obtain ⟨out, call⟩ := @rejectionSample_exists R _ _ vocabSize s.maxSpecLen s.withDraftProbs
      softmax blockSize block_pos (s.requests.map Prod.snd)
    refine ⟨out, call, ?_⟩
    rw [← length, parseOutput_rows block_pos call]

theorem lookup_zip {κ β : Type} [DecidableEq κ] {keys : List κ} {values : List β} {k : Nat}
    {key : κ} {value : β} (distinct : keys.Nodup) (key_at : keys[k]? = some key)
    (value_at : values[k]? = some value) : (keys.zip values).lookup key = some value := by
  induction keys generalizing values k with
  | nil => simp at key_at
  | cons first keys ih =>
    obtain ⟨fresh, distinct⟩ := nodup_cons.mp distinct
    cases values with
    | nil => simp at value_at
    | cons v values =>
      cases k with
      | zero =>
        cases key_at
        cases value_at
        simp
      | succ k =>
        have other : key ≠ first := by
          rintro rfl
          exact fresh (mem_of_getElem? key_at)
        rw [zip_cons_cons, lookup_cons, beq_eq_false_iff_ne.mpr other]
        exact ih distinct key_at value_at

theorem lookup_zip_none {κ β : Type} [DecidableEq κ] {keys : List κ} {values : List β} {key : κ}
    (absent : key ∉ keys) : (keys.zip values).lookup key = none := by
  rw [lookup_eq_none_iff]
  intro entry mem
  rw [bne_iff_ne]
  rintro rfl
  exact absent (of_mem_zip mem).1

variable {s : Step ι R vocabSize} {i : ι}

theorem Step.appended_at (block_pos : 0 < blockSize)
    (returns : s.Returns softmax blockSize sampled) {k : Nat}
    {row : Row R vocabSize s.maxSpecLen} (at_k : s.requests[k]? = some (i, row)) :
    sampled[k]? = some (s.appended sampled i) ∧ s.appended sampled i =
    if k ∈ s.discardReqIndices then [] else row.tokens s.withDraftProbs softmax := by
  have value_at : sampled[k]? =
      some (if k ∈ s.discardReqIndices then [] else row.tokens s.withDraftProbs softmax) := by
    rw [(s.returns_iff block_pos).mp returns, getElem?_map, getElem?_zipIdx, at_k]
    simp
  have key_at : (s.requests.map Prod.fst)[k]? = some i := by simp [at_k]
  have found : s.appended sampled i =
      if k ∈ s.discardReqIndices then [] else row.tokens s.withDraftProbs softmax := by
    rw [Step.appended, lookup_zip s.distinct key_at value_at, Option.getD_some]
  exact ⟨found ▸ value_at, found⟩

omit [Field R] [LinearOrder R] in
theorem Step.appended_absent (absent : i ∉ s.requests.map Prod.fst) : s.appended sampled i = [] := by
  rw [Step.appended, lookup_zip_none absent, Option.getD_none]

omit [Field R] [LinearOrder R] in
theorem Step.keeps_iff :
    s.keeps i = true ↔ ∃ k row, s.requests[k]? = some (i, row) ∧ k ∉ s.discardReqIndices := by
  simp only [Step.keeps, any_eq_true, decide_eq_true_eq, Prod.exists]
  constructor
  · rintro ⟨i, row, k, mem, rfl, kept⟩
    exact ⟨k, row, by simpa using mem_zipIdx_iff_getElem?.mp mem, kept⟩
  · rintro ⟨k, row, at_k, kept⟩
    exact ⟨i, row, k, mem_zipIdx_iff_getElem?.mpr (by simpa using at_k), rfl, kept⟩

theorem Step.appended_decoded (block_pos : 0 < blockSize) {greedy : ι → Prop}
    {target : ι → List Int → Int} {histories : ι → List Int}
    (serves : s.Serves greedy target histories)
    (returns : s.Returns softmax blockSize sampled) (isGreedy : greedy i) :
    ∃ n, s.appended sampled i = greedyDecode (target i) (histories i) n ∧
    (s.keeps i = true → 0 < n) := by
  by_cases present : i ∈ s.requests.map Prod.fst
  · obtain ⟨⟨_, row⟩, mem, rfl⟩ := mem_map.mp present
    obtain ⟨k, at_k⟩ := mem_iff_getElem?.mp mem
    obtain ⟨-, appended⟩ := s.appended_at block_pos returns at_k
    by_cases dropped : k ∈ s.discardReqIndices
    · refine ⟨0, ?_, ?_⟩
      · rw [appended, if_pos dropped]
        rfl
      · intro keeps
        obtain ⟨k', row', at_k', kept⟩ := Step.keeps_iff.mp keeps
        have key : (s.requests.map Prod.fst)[k]? = (s.requests.map Prod.fst)[k']? := by
          rw [getElem?_map, getElem?_map, at_k, at_k']
          rfl
        obtain ⟨bound, -⟩ := List.getElem?_eq_some_iff.mp at_k
        have same := (getElem?_inj (by simpa using bound) s.distinct).mp key
        exact absurd (same ▸ dropped) kept
    · obtain ⟨n, pos, tokens⟩ :=
        @Row.Follows.tokens _ _ _ _ _ s.withDraftProbs softmax _ _ _ (serves _ mem isGreedy)
      refine ⟨n, ?_, fun _ => pos⟩
      rw [appended, if_neg dropped]
      exact tokens
  · refine ⟨0, Step.appended_absent present, ?_⟩
    intro keeps
    obtain ⟨k, row, at_k, -⟩ := Step.keeps_iff.mp keeps
    exact absurd (mem_map_of_mem (mem_of_getElem? at_k)) present

/-- A greedy request holds the tokens of decoding without drafts, at least one for each step that
kept its tokens. -/
theorem Run.decoded (block_pos : 0 < blockSize) {greedy : ι → Prop} {target : ι → List Int → Int}
    {start histories : ι → List Int} {steps : List (Step ι R vocabSize)}
    (run : Run softmax blockSize greedy target start steps histories) (isGreedy : greedy i) :
    ∃ n, steps.countP (·.keeps i) ≤ n ∧
    histories i = start i ++ greedyDecode (target i) (start i) n := by
  induction run with
  | start => exact ⟨0, le_rfl, (append_nil _).symm⟩
  | @step steps histories s sampled before serves returns ih =>
    obtain ⟨n, served, history⟩ := ih
    obtain ⟨m, appended, some_kept⟩ := s.appended_decoded block_pos serves returns isGreedy
    refine ⟨n + m, ?_, ?_⟩
    · rw [countP_append, countP_singleton]
      cases keeps : s.keeps i with
      | true =>
        have := some_kept keeps
        simp only [if_true]
        omega
      | false =>
        simp only [Bool.false_eq_true, if_false]
        omega
    · change histories i ++ s.appended sampled i = _
      rw [appended, history, greedyDecode_add, append_assoc]

/-- `BLOCK_SIZE` of the recovered-token kernel. -/
def recoveredBlockSize : Nat := 8192

/-- In every state of a run a step over the flattened batch has one result, whatever order its
programs take. It appends to each greedy request whose tokens are kept at least one token, and
what decoding without drafts appends; so the whole sequence is that of decoding without drafts.
What a row holds depends on no other row of its batch. -/
theorem greedy_speculation_lossless (softmax : Softmax R) (greedy : ι → Prop)
    (target : ι → List Int → Int) (start : ι → List Int) :
    (∀ (steps : List (Step ι R vocabSize)) (histories : ι → List Int),
    Run softmax recoveredBlockSize greedy target start steps histories →
    (∀ i, greedy i → ∃ n, steps.countP (·.keeps i) ≤ n ∧
    histories i = start i ++ greedyDecode (target i) (start i) n) ∧
    ∀ s : Step ι R vocabSize, s.Serves greedy target histories →
    (∃! sampled, s.Returns softmax recoveredBlockSize sampled) ∧
    ∀ sampled, s.Returns softmax recoveredBlockSize sampled → ∀ i, greedy i → ∃ n,
    s.appended sampled i = greedyDecode (target i) (histories i) n ∧ (s.keeps i = true → 0 < n)) ∧
    ∀ (s s' : Step ι R vocabSize) (sampled sampled' : List (List Int)),
    s.withDraftProbs = s'.withDraftProbs → s.Returns softmax recoveredBlockSize sampled →
    s'.Returns softmax recoveredBlockSize sampled' →
    ∀ k x k' x', s.requests[k]? = some x → s'.requests[k']? = some x' → x.2.Same x'.2 →
    (k ∈ s.discardReqIndices ↔ k' ∈ s'.discardReqIndices) → sampled[k]? = sampled'[k']? := by
  have block_pos : 0 < recoveredBlockSize := by decide
  refine ⟨fun steps histories run => ⟨fun i isGreedy => run.decoded block_pos isGreedy,
    fun s serves => ⟨?_, fun sampled returns i isGreedy =>
      s.appended_decoded block_pos serves returns isGreedy⟩⟩, ?_⟩
  · refine ⟨_, (s.returns_iff block_pos).mpr rfl, ?_⟩
    intro sampled returns
    exact (s.returns_iff block_pos).mp returns
  · rintro s s' sampled sampled' probs returns returns' k ⟨i, row⟩ k' ⟨i', row'⟩ at_k at_k' same
      dropped
    obtain ⟨found, value⟩ := s.appended_at block_pos returns at_k
    obtain ⟨found', value'⟩ := s'.appended_at block_pos returns' at_k'
    rw [found, found', value, value', probs, same.tokens]
    simp only [dropped]

end Steps

section Instances

def alternate (history : List Int) : Int := if history.getLast? = some 0 then 1 else 0

def draftPosition (draftTokenId : Int) (draft_lt : draftTokenId < (2 : Nat))
    (logits : List Rat) (length : logits.length = 2) : Position Rat 2 where
  draftTokenId := draftTokenId
  draftProbs := [0, 0]
  targetLogits := logits
  uniformProb := 0
  emptyRecovered := 0
  draft_lt := draft_lt
  draftProbs_length := rfl
  targetLogits_length := length

/-- Drafts 0, 0 and a padded one behind an empty history: the first is accepted. -/
def draftedRow : Row Rat 2 3 where
  positions := [draftPosition 0 (by decide) [1, 0] rfl, draftPosition 0 (by decide) [0, 1] rfl,
    draftPosition (-1) (by decide) [0, 1] rfl]
  bonusTokenId := 0
  temperature := 0
  q := [1, 1]
  positions_le := by decide
  q_length := rfl
  bonus_valid := by decide

def identitySoftmax : Softmax Rat := ⟨id, fun _ => rfl⟩

def draftedStep : Step Nat Rat 2 where
  maxSpecLen := 3
  withDraftProbs := false
  requests := [(7, draftedRow)]
  discardReqIndices := []
  distinct := by decide

theorem draftedRow_follows : draftedRow.Follows alternate [] where
  greedy := rfl
  logits j inside := by
    obtain rfl | rfl | rfl : j = 0 ∨ j = 1 ∨ j = 2 := by
      have : j < 3 := inside
      omega
    all_goals decide +kernel +revert
  bonus := by decide +kernel

theorem draftedRun : ∃ sampled,
    Run identitySoftmax recoveredBlockSize (fun i => i = 7) (fun _ => alternate) (fun _ => [])
    [draftedStep] fun i => [] ++ draftedStep.appended sampled i := by
  obtain ⟨sampled, returns⟩ : ∃ sampled,
      draftedStep.Returns identitySoftmax recoveredBlockSize sampled :=
    ⟨_, (draftedStep.returns_iff (by decide)).mpr rfl⟩
  refine ⟨sampled, Run.step draftedStep sampled Run.start ?_ returns⟩
  intro x hx _
  rw [mem_singleton.mp hx]
  exact draftedRow_follows

/-- The run in which the first draft is right, the second wrong and the third padded. -/
theorem drafted_lossless : ∃ sampled n, 1 ≤ n ∧
    draftedStep.appended sampled 7 = greedyDecode alternate [] n := by
  obtain ⟨sampled, run⟩ := draftedRun
  obtain ⟨n, served, history⟩ :=
    ((greedy_speculation_lossless identitySoftmax (fun i => i = 7) (fun _ => alternate)
      fun _ => []).1 [draftedStep] _ run).1 7 rfl
  exact ⟨sampled, n, served, history⟩

/-- A call with conditional acceptance rates, the one request of which has a wrong draft. -/
def ratedArgs : Args Rat where
  draftTokenIds := [1]
  numDraftTokens := [1]
  maxSpecLen := 1
  cuNumDraftTokens := [1]
  draftProbs := none
  targetLogits := [[1, 0]]
  bonusTokenIds := [1]
  metadata := samplingMetadata [0]
  syntheticConditionalRates := some [1]
  uniformProbs := [0]
  q := [[1, 1]]
  vocabSize := 2
  emptyRecovered := [0]

/-- With conditional acceptance rates a wrong draft is kept, and a row that is to be discarded
gets no token at all. -/
theorem rated_draft_kept :
    ratedArgs.targetLogits.map (fun row => (argmax row : Int)) = [alternate []] ∧
    (∃ out, RejectionSample id recoveredBlockSize ratedArgs out ∧
    ¬ ∃ n, parseOutput (rowsOf 1 2 out) 2 [] = [greedyDecode alternate [] n]) ∧
    parseOutput [[0, -1]] 2 [0] = [[]] := by
  refine ⟨by decide +kernel, ⟨[1, 1], ⟨[1, 1], ?_, ?_⟩, ?_⟩, by decide⟩
  · have runs : (List.range ratedArgs.numDraftTokens.length).map
        (rejectionGreedySampleKernel ratedArgs.buffers (ratedArgs.targetLogits.map argmax)
          ratedArgs.isGreedy ratedArgs.maxSpecLen) = [[(1, 0), (1, 1)]].map some := by
      decide +kernel
    have greedy : ratedArgs.metadata.allRandom = false := by decide +kernel
    rw [greedy, if_neg Bool.false_ne_true, Args.greedyLaunch, launches_iff runs]
    exact ⟨[(1, 0), (1, 1)], List.Perm.refl _, by decide⟩
  · have alone : (!ratedArgs.metadata.allRandom && ratedArgs.metadata.allGreedy) = true := by
      decide +kernel
    rw [if_pos alone]
  · rintro ⟨n, same⟩
    have kept : parseOutput (rowsOf 1 2 [1, 1]) 2 [] = [[1, 1]] := by decide
    rw [kept] at same
    have tokens : [1, 1] = greedyDecode alternate [] n := head_eq_of_cons_eq same
    cases n with
    | zero => simp [greedyDecode] at tokens
    | succ n =>
      have first : (1 : Int) = alternate [] := head_eq_of_cons_eq tokens
      exact absurd first (by decide)

end Instances

end VllmAmpere.RejectionSampler
