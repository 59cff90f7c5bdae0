import VllmAmpere.NgramProposer

/-! The n-gram proposer on the GPU, which compares every window of a row with the end of its
sequence; each operation on tensors acts on the rows of a batch one by one. -/

open List

namespace VllmAmpere.NgramProposerGPU

open NgramProposer

/-- `torch.argmax`: the first index of a largest entry. -/
def argmax (xs : List Nat) : Nat := xs.findIdx fun x => xs.all fun y => y ≤ x

/-- `torch.gather` along a row. -/
def gather (row : List Int) (indices : List Int) : Except PyError (List Int) :=
  indices.mapM fun i => if 0 ≤ i then pyGet row i.toNat else .error .index

/-- `token_ids.unfold(1, n, 1)`. -/
def unfold (row : List Int) (n : Nat) : Except PyError (List (List Int)) :=
  if n ≤ row.length then
    .ok ((List.range (row.length - n + 1)).map fun p => (row.drop p).take n)
  else .error (.runtime "maximum size for tensor at dimension 1")

/-- Which windows match the end of a sequence and leave room for a draft token. -/
def finalMatches (searchWindows : List (List Int)) (suffix : List Int) (seqLength : Int) (n : Nat) :
    List Bool :=
  searchWindows.mapIdx fun p window => window = suffix ∧ (p : Int) ≤ seqLength - n - 1

/-- The earliest match of the last `n` tokens, -1 without a match. -/
def firstMatchPosition (row : List Int) (seqLength : Int) (n : Nat) : Except PyError Int := do
  let searchWindows ← unfold row n
  let suffix ← gather row ((List.range n).map fun (j : Nat) => max 0 (seqLength - n + j))
  let found := finalMatches searchWindows suffix seqLength n
  let firstMatchIdx := argmax (found.map Bool.toNat)
  .ok (if found.getD firstMatchIdx false then firstMatchIdx else -1)

def bestNgramIdx (firstMatchPositions : List Int) : Nat :=
  firstMatchPositions.length - 1 -
    argmax (firstMatchPositions.map fun p => (decide (0 ≤ p)).toNat).reverse

/-- `_find_first_and_extract_all_n_parallel` on one row. -/
def findFirstAndExtractAllNParallel (minNgramLen maxNgramLen numDraftTokens : Nat) (seqLength : Int)
    (row : List Int) : Except PyError (List Int) := do
  let ngramLengths := List.range' minNgramLen (maxNgramLen + 1 - minNgramLen)
  let firstMatchPositions ← ngramLengths.mapM (firstMatchPosition row seqLength)
  let best := bestNgramIdx firstMatchPositions
  let bestMatchPos := firstMatchPositions.getD best (-1)
  let hasAnyMatch := 0 ≤ bestMatchPos
  let draftStart := if hasAnyMatch then bestMatchPos + ngramLengths.getD best 0 else 0
  let draftTokens ← gather row ((List.range numDraftTokens).map fun (j : Nat) =>
    min (max 0 (draftStart + j)) (row.length - 1))
  .ok (draftTokens.mapIdx fun j token =>
    if hasAnyMatch ∧ (j : Int) < seqLength - draftStart then token else -1)

/-- `forward` on one row: the draft tokens and how many of the first are valid. -/
def forward (minN maxN k : Nat) (numTokensNoSpec : Int) (row : List Int) (combinedMask : Bool) :
    Except PyError (List Int × Nat) := do
  let results ← findFirstAndExtractAllNParallel minN maxN k numTokensNoSpec row
  let draftTokens := results.map fun token => if combinedMask then token else -1
  let numValidDraftTokens := (List.range k).countP fun j =>
    (draftTokens.take (j + 1)).countP (· ≠ -1) = j + 1
  .ok (draftTokens, numValidDraftTokens)

/-! ### The matches -/

theorem argmax_first {xs : List Nat} {i m : Nat} (h : xs[i]? = some m) (top : ∀ x ∈ xs, x ≤ m) :
    xs[argmax xs]? = some m ∧ argmax xs ≤ i := by
  have inside := (List.getElem?_eq_some_iff.mp h).1
  have here : (xs.all fun y => y ≤ m) = true := by simpa using top
  have le : argmax xs ≤ i := by
    by_contra behind
    have := not_of_lt_findIdx (Nat.not_le.mp behind)
    rw [(List.getElem?_eq_some_iff.mp h).2] at this
    simp_all
  refine ⟨?_, le⟩
  have first := le.trans_lt inside
  have greatest := @findIdx_getElem _ (fun x => xs.all fun y => y ≤ x) xs first
  rw [all_eq_true] at greatest
  rw [getElem?_eq_getElem first]
  refine congrArg some (le_antisymm (top _ (getElem_mem first)) ?_)
  exact of_decide_eq_true (greatest m (mem_of_getElem? h))

theorem argmax_true {bs : List Bool} {i : Nat} (h : bs[i]? = some true) :
    bs[argmax (bs.map Bool.toNat)]? = some true ∧ argmax (bs.map Bool.toNat) ≤ i := by
  obtain ⟨here, le⟩ := @argmax_first (bs.map Bool.toNat) i 1 (by simp [h]) (by
    intro x hx
    obtain ⟨b, -, rfl⟩ := mem_map.mp hx
    exact Bool.toNat_le b)
  rw [getElem?_map] at here
  obtain ⟨b, found, one⟩ := Option.map_eq_some_iff.mp here
  cases b with
  | true => exact ⟨found, le⟩
  | false => cases one

section

variable {tokens padding : List Int} {n : Nat}

theorem gather_ok {row indices : List Int} (inside : ∀ i ∈ indices, 0 ≤ i ∧ i < row.length) :
    gather row indices = .ok (indices.map fun i => row.getD i.toNat 0) := by
  refine mapM_eq_ok.mpr (forall₂_map_right_iff.mpr (forall₂_same.mpr fun i hi => ?_))
  obtain ⟨pos, less⟩ := inside i hi
  rw [if_pos pos, pyGet_ok, getD_eq_getElem?_getD,
    getElem?_eq_getElem (by omega), Option.getD_some]

theorem finalMatches_iff (fits : n ≤ (tokens ++ padding).length) {p : Nat} :
    (finalMatches ((List.range ((tokens ++ padding).length - n + 1)).map
    fun p => ((tokens ++ padding).drop p).take n)
    (((List.range n).map fun (j : Nat) => max 0 ((tokens.length : Int) - n + j)).map
    fun i => (tokens ++ padding).getD i.toNat 0) tokens.length n)[p]? = some true ↔
    Earlier tokens n p := by
  rw [finalMatches, getElem?_mapIdx, getElem?_map, Option.map_map]
  by_cases before : p + n < tokens.length
  · have suffix : (((List.range n).map fun (j : Nat) => max 0 ((tokens.length : Int) - n + j)).map
        fun i => (tokens ++ padding).getD i.toNat 0) = tokens.drop (tokens.length - n) := by
      refine ext_getElem? fun j => ?_
      rw [getElem?_map, getElem?_map, getElem?_drop]
      by_cases inside : j < n
      · have index : (max 0 ((tokens.length : Int) - n + j)).toNat = tokens.length - n + j := by
          omega
        rw [getElem?_range inside, Option.map_some, Option.map_some, index,
          getD_eq_getElem?_getD, getElem?_append_left (by omega),
          getElem?_eq_getElem (by omega), Option.getD_some]
      · rw [getElem?_eq_none (by simpa using inside), Option.map_none, Option.map_none,
          getElem?_eq_none (by omega)]
    have window : ((tokens ++ padding).drop p).take n = (tokens.drop p).take n := by
      rw [drop_append_of_le_length (by omega), take_append_of_le_length (by
        rw [length_drop]
        omega)]
    have length : (tokens.drop (tokens.length - n)).length = n := by
      rw [length_drop]
      omega
    rw [length_append] at fits ⊢
    rw [suffix, getElem?_range (by omega), Option.map_some, Option.some_inj]
    simp only [Function.comp_apply, window, decide_eq_true_eq]
    constructor
    · rintro ⟨same, -⟩
      refine ⟨before, prefix_iff_eq_take.mpr ?_⟩
      rw [length, same]
    · intro earlier
      refine ⟨?_, by omega⟩
      have same := prefix_iff_eq_take.mp earlier.occurs
      rw [length] at same
      exact same.symm
  · constructor
    · intro h
      obtain ⟨q, -, kept⟩ := Option.map_eq_some_iff.mp h
      have := (of_decide_eq_true kept).2
      exact absurd (by omega) before
    · exact fun earlier => absurd earlier.before before

theorem firstMatchPosition_ok (fits : n ≤ (tokens ++ padding).length) :
    ∃ q, firstMatchPosition (tokens ++ padding) tokens.length n = .ok q ∧
    ((∀ p, ¬Earlier tokens n p) ∧ q = -1 ∨
    ∃ p : Nat, q = p ∧ Earlier tokens n p ∧ ∀ p', Earlier tokens n p' → p ≤ p') := by
  have gathered := @gather_ok (tokens ++ padding)
    ((List.range n).map fun (j : Nat) => max 0 ((tokens.length : Int) - n + j)) (by
      intro i hi
      obtain ⟨j, hj, rfl⟩ := mem_map.mp hi
      have := mem_range.mp hj
      have whole : tokens.length ≤ (tokens ++ padding).length := by simp
      omega)
  refine ⟨_, bind_eq_ok.mpr ⟨_, if_pos fits, bind_eq_ok.mpr ⟨_, gathered, rfl⟩⟩, ?_⟩
  have found := @finalMatches_iff tokens padding n fits
  generalize finalMatches _ _ _ _ = matches' at found ⊢
  by_cases some' : ∃ p, Earlier tokens n p
  · obtain ⟨p, earlier⟩ := some'
    have first := (argmax_true (found.mpr earlier)).1
    refine .inr ⟨argmax (matches'.map Bool.toNat), ?_, found.mp first, fun p' earlier' =>
      (argmax_true (found.mpr earlier')).2⟩
    rw [getD_eq_getElem?_getD, first]
    rfl
  · refine .inl ⟨fun p earlier => some' ⟨p, earlier⟩, if_neg fun kept => ?_⟩
    rw [getD_eq_getElem?_getD] at kept
    cases entry : matches'[argmax (matches'.map Bool.toNat)]? with
    | none => rw [entry] at kept; cases kept
    | some b =>
      rw [entry] at kept
      obtain rfl : b = true := kept
      exact some' ⟨_, found.mp entry⟩

theorem bestNgramIdx_last {positions : List Int} {i : Nat} {q : Int} (h : positions[i]? = some q)
    (found : 0 ≤ q) :
    i ≤ bestNgramIdx positions ∧ ∃ q', positions[bestNgramIdx positions]? = some q' ∧ 0 ≤ q' := by
  have inside := (List.getElem?_eq_some_iff.mp h).1
  have flipped : (positions.map fun p => (decide (0 ≤ p)).toNat).reverse =
      ((positions.map fun p => decide (0 ≤ p)).reverse).map Bool.toNat := by
    rw [map_reverse, map_map]
    rfl
  have here : ((positions.map fun p => decide (0 ≤ p)).reverse)[positions.length - 1 - i]? =
      some true := by
    rw [getElem?_reverse (by rw [length_map]; omega), length_map,
      show positions.length - 1 - (positions.length - 1 - i) = i by omega, getElem?_map, h,
      Option.map_some, decide_eq_true found]
  obtain ⟨first, le⟩ := argmax_true here
  rw [← flipped] at first le
  have within := (List.getElem?_eq_some_iff.mp first).1
  rw [length_reverse, length_map] at within
  rw [getElem?_reverse (by rw [length_map]; exact within), length_map,
    getElem?_map] at first
  obtain ⟨q', there, kept⟩ := Option.map_eq_some_iff.mp first
  exact ⟨by rw [bestNgramIdx]; omega, q', there, of_decide_eq_true kept⟩

theorem exists_forall₂ {α β : Type} {R : α → β → Prop} {xs : List α}
    (h : ∀ x ∈ xs, ∃ y, R x y) : ∃ ys, List.Forall₂ R xs ys := by
  induction xs with
  | nil => exact ⟨[], .nil⟩
  | cons x xs ih =>
    obtain ⟨y, first⟩ := h x mem_cons_self
    obtain ⟨ys, rest⟩ := ih fun x hx => h x (mem_cons_of_mem _ hx)
    exact ⟨y :: ys, .cons first rest⟩

/-- The tokens that are gathered from `start` on. -/
theorem draftTokens_ok {row : List Int} (start k : Nat) (some' : 0 < row.length) :
    ∃ gathered, gather row ((List.range k).map fun (j : Nat) =>
    min (max 0 ((start : Int) + j)) (row.length - 1)) = .ok gathered ∧
    gathered.length = k ∧ (start + k ≤ row.length → ∀ j < k, gathered[j]? = row[start + j]?) := by
  have gathered := @gather_ok row ((List.range k).map fun (j : Nat) =>
      min (max 0 ((start : Int) + j)) (row.length - 1)) (by
    intro i hi
    obtain ⟨j, -, rfl⟩ := mem_map.mp hi
    omega)
  refine ⟨_, gathered, by simp, fun room j inside => ?_⟩
  have index : (min (max 0 ((start : Int) + j)) (row.length - 1)).toNat = start + j := by omega
  rw [getElem?_map, getElem?_map, getElem?_range inside, Option.map_some,
    Option.map_some, index, getD_eq_getElem?_getD, getElem?_eq_getElem (by omega),
    Option.getD_some]

theorem findFirst_ok {minN maxN k : Nat} (pos : 1 ≤ minN) (le : minN ≤ maxN)
    (fits : maxN ≤ (tokens ++ padding).length)
    (room : tokens.length + k ≤ (tokens ++ padding).length) {out : List Int}
    (proposes : Proposes tokens minN maxN k out) :
    findFirstAndExtractAllNParallel minN maxN k tokens.length (tokens ++ padding) =
    .ok (out ++ List.replicate (k - out.length) (-1)) := by
  obtain ⟨positions, found⟩ := @exists_forall₂ _ _
    (fun n q => firstMatchPosition (tokens ++ padding) tokens.length n = .ok q ∧
      ((∀ p, ¬Earlier tokens n p) ∧ q = -1 ∨
        ∃ p : Nat, q = p ∧ Earlier tokens n p ∧ ∀ p', Earlier tokens n p' → p ≤ p'))
    (List.range' minN (maxN + 1 - minN)) (fun n hn => firstMatchPosition_ok (by
      have := mem_range'_1.mp hn
      omega))
  have length := found.length_eq
  rw [length_range'] at length
  have entry : ∀ i q, positions[i]? = some q → i < maxN + 1 - minN ∧
      ((∀ p, ¬Earlier tokens (minN + i) p) ∧ q = -1 ∨ ∃ p : Nat, q = p ∧
        Earlier tokens (minN + i) p ∧ ∀ p', Earlier tokens (minN + i) p' → p ≤ p') := by
    intro i q here
    obtain ⟨inside, rfl⟩ := List.getElem?_eq_some_iff.mp here
    have both := (found.get (by rw [length_range']; omega) inside).2
    rw [get_eq_getElem, getElem_range', Nat.one_mul] at both
    exact ⟨by omega, both⟩
  have some' : 0 < (tokens ++ padding).length := by omega
  unfold findFirstAndExtractAllNParallel
  dsimp only
  rw [mapM_eq_ok.mpr (found.imp fun _ _ h => h.1)]
  rcases proposes with ⟨nothing, rfl⟩ | ⟨n, p, longest, rfl⟩
  · -- no n-gram has a match
    have none : ¬0 ≤ positions.getD (bestNgramIdx positions) (-1) := by
      rw [getD_eq_getElem?_getD]
      cases here : positions[bestNgramIdx positions]? with
      | none => decide
      | some q =>
        obtain ⟨inside, missing | ⟨p, rfl, earlier, -⟩⟩ := entry _ q here
        · rw [missing.2]
          decide
        · exact absurd earlier (nothing _ p (Nat.le_add_right _ _) (by omega))
    obtain ⟨gathered, ok, size, -⟩ := draftTokens_ok 0 k some'
    change (gather _ _ >>= _) = _
    simp only [none, if_false, false_and]
    refine bind_eq_ok.mpr ⟨gathered, ok, congrArg Except.ok ?_⟩
    refine ext_getElem? fun j => ?_
    by_cases inside : j < k
    · simp [inside, size]
    · simp [inside, size]
  · -- the last n-gram with a match is the longest, and its match the earliest
    have here : ∃ q, positions[n - minN]? = some q ∧ q = (p : Int) := by
      have least := longest.least
      have most := longest.most
      have inside : n - minN < positions.length := by omega
      refine ⟨_, getElem?_eq_getElem inside, ?_⟩
      obtain ⟨-, missing | ⟨p', same, earlier, earliest⟩⟩ :=
        entry _ _ (getElem?_eq_getElem inside)
      · rw [Nat.add_sub_cancel' least] at missing
        exact absurd longest.earlier (missing.1 p)
      · rw [Nat.add_sub_cancel' least] at earlier earliest
        rw [same, le_antisymm (earliest p longest.earlier) (longest.earliest p' earlier)]
    obtain ⟨q, here, rfl⟩ := here
    obtain ⟨behind, q', best, hit⟩ := bestNgramIdx_last here (Int.natCast_nonneg p)
    have same : bestNgramIdx positions = n - minN := by
      obtain ⟨inside, missing | ⟨p', -, earlier, -⟩⟩ := entry _ q' best
      · rw [missing.2] at hit
        exact absurd hit (by decide)
      · have := longest.longest _ p' (by omega) earlier
        omega
    have least := longest.least
    have most := longest.most
    have before := longest.earlier.before
    have size' : (List.range' minN (maxN + 1 - minN)).getD (n - minN) 0 = n := by
      rw [getD_eq_getElem?_getD, getElem?_range' (by omega), Option.getD_some]
      omega
    have start : positions.getD (n - minN) (-1) = (p : Int) := by
      rw [getD_eq_getElem?_getD, here, Option.getD_some]
    obtain ⟨gathered, ok, size, values⟩ := draftTokens_ok (p + n) k some'
    have values := values (by omega)
    change (gather _ _ >>= _) = _
    rw [same, size', start]
    simp only [Int.natCast_nonneg, if_true, true_and]
    refine bind_eq_ok.mpr ⟨gathered, by rw [← ok, Int.natCast_add], congrArg Except.ok ?_⟩
    refine ext_getElem? fun j => ?_
    rw [getElem?_mapIdx]
    by_cases inside : j < k
    · have size : ((tokens.drop (p + n)).take k).length = min k (tokens.length - (p + n)) := by
        rw [length_take, length_drop]
      rw [values j inside]
      by_cases within : p + n + j < tokens.length
      · rw [getElem?_append_left within,
          getElem?_append_left (by rw [size]; omega), getElem?_take_of_lt inside,
          getElem?_drop, getElem?_eq_getElem within, Option.map_some, if_pos (by omega)]
      · have row : p + n + j < (tokens ++ padding).length := by omega
        rw [getElem?_eq_getElem row, Option.map_some, if_neg (by omega),
          getElem?_append_right (by rw [size]; omega), getElem?_replicate,
          if_pos (by rw [size]; omega)]
    · rw [getElem?_eq_none (by omega), Option.map_none, getElem?_eq_none (by
        simp
        omega)]

theorem findFirst_narrow {minN maxN k : Nat} {row : List Int} {seqLength : Int}
    (le : minN ≤ maxN) (narrow : row.length < maxN) :
    ∃ e, findFirstAndExtractAllNParallel minN maxN k seqLength row = .error e := by
  have failed : ∃ e, (List.range' minN (maxN + 1 - minN)).mapM (firstMatchPosition row seqLength) =
      .error e := by
    cases h : (List.range' minN (maxN + 1 - minN)).mapM (firstMatchPosition row seqLength) with
    | error e => exact ⟨e, rfl⟩
    | ok positions =>
      have inside : maxN ∈ List.range' minN (maxN + 1 - minN) :=
        mem_range'_1.mpr (by omega)
      obtain ⟨i, here, same⟩ := getElem_of_mem inside
      have found := mapM_eq_ok.mp h
      have all := found.get here (by rw [← found.length_eq]; exact here)
      rw [get_eq_getElem, same] at all
      obtain ⟨windows, unfolded, -⟩ := bind_eq_ok.mp all
      rw [unfold, if_neg (Nat.not_le.mpr narrow)] at unfolded
      cases unfolded
  obtain ⟨e, failed⟩ := failed
  refine ⟨e, ?_⟩
  unfold findFirstAndExtractAllNParallel
  dsimp only
  rw [failed]
  rfl

end

/-- The proposal is the tokens behind the longest match, as many as the caps allow, and the draft
on the GPU begins with the same tokens where the caps do not cut it: a row too narrow for the
longest n-gram has no draft. -/
theorem proposers_agree {minN maxN : Nat} (pos : 1 ≤ minN) (le : minN ≤ maxN)
    (tokens : List Int) (maxModelLen k : Nat) :
    ∃ out, (∀ fuel, 2 * tokens.length ≤ fuel → findLongestMatchedNgramAndProposeTokens fuel tokens
    minN maxN maxModelLen k = some out) ∧
    Proposes tokens minN maxN (min k (maxModelLen - tokens.length)) out ∧
    ∀ padding, (tokens ++ padding).length = maxModelLen → tokens.length + k ≤ maxModelLen →
    (maxN ≤ maxModelLen → ∃ count, forward minN maxN k tokens.length (tokens ++ padding) true =
    .ok (out ++ List.replicate (k - out.length) (-1), count)) ∧
    (maxModelLen < maxN → ∃ e, forward minN maxN k tokens.length (tokens ++ padding) true =
    .error e) := by
  obtain ⟨out, -, proposed⟩ :=
    proposes tokens maxModelLen k pos le (le_refl (2 * tokens.length))
  refine ⟨out, fun fuel enough => ?_, proposed, fun padding whole room => ⟨fun fits => ?_,
    fun narrow => ?_⟩⟩
  · obtain ⟨out', ran, proposed'⟩ := proposes tokens maxModelLen k pos le enough
    rw [ran, proposed'.unique proposed]
  · rw [Nat.min_eq_left (by omega)] at proposed
    rw [← whole] at fits room
    have found := findFirst_ok pos le fits room proposed
    refine ⟨_, bind_eq_ok.mpr ⟨_, found, congrArg Except.ok (Prod.ext ?_ rfl)⟩⟩
    simp
  · obtain ⟨e, failed⟩ := @findFirst_narrow minN maxN k (tokens ++ padding) tokens.length le
      (by omega)
    exact ⟨e, by rw [forward, failed]; rfl⟩

/-- Three tokens behind an earlier `1 2`. -/
theorem proposers_agree_sample :
    ∃ out, (∀ fuel, 12 ≤ fuel → findLongestMatchedNgramAndProposeTokens fuel [1, 2, 3, 4, 1, 2]
    1 3 9 3 = some out) ∧ Proposes [1, 2, 3, 4, 1, 2] 1 3 (min 3 (9 - 6)) out ∧
    ∀ padding, ([1, 2, 3, 4, 1, 2] ++ padding : List Int).length = 9 → 6 + 3 ≤ 9 →
    (3 ≤ 9 → ∃ count, forward 1 3 3 6 ([1, 2, 3, 4, 1, 2] ++ padding) true =
    .ok (out ++ List.replicate (3 - out.length) (-1), count)) ∧
    (9 < 3 → ∃ e, forward 1 3 3 6 ([1, 2, 3, 4, 1, 2] ++ padding) true = .error e) :=
  proposers_agree (by decide) (by decide) [1, 2, 3, 4, 1, 2] 9 3

end VllmAmpere.NgramProposerGPU
