import VllmAmpere.BatchUpdate

/-! The data of one row of `InputBatch`, and what each operation makes of it. -/

open List
open Function (update update_apply update_of_ne update_self)

namespace VllmAmpere.PersistentBatch

variable {α : Type} {F S : Type}

theorem swapAt_at (array : Nat → α) (i j k : Nat) :
    swapAt array i j k = if k = j then array i else if k = i then array j else array k := by
  rw [swapAt, update_apply, update_apply]

theorem copyTo_at (array : Nat → α) (src tgt k : Nat) :
    copyTo array src tgt k = if k = tgt then array src else array k := by
  rw [copyTo, update_apply]

theorem swapDictValues_at (obj : Rows α) (i j k : Nat) :
    swapDictValues obj i j k = if k = j then obj i else if k = i then obj j else obj k := by
  rw [swapDictValues, Rows.update_at, Rows.update_at]
  by_cases first : k = i
  · by_cases second : k = j
    · rw [if_pos first, if_pos second, ← first, ← second]
    · rw [if_pos first, if_neg second, if_pos first]
  · by_cases second : k = j
    · rw [if_neg first, if_pos second, if_pos second]
    · rw [if_neg first, if_neg second, if_neg second, if_neg first]

theorem popInto_at (obj : Rows α) {src tgt : Nat} (blank : obj tgt = none) (other : src ≠ tgt)
    (k : Nat) :
    popInto obj src tgt k = if k = tgt then obj src else if k = src then none else obj k := by
  cases found : obj src with
  | some value =>
    rw [popInto, found]
    exact (Rows.update_at _ _ _ _).trans (by rw [Rows.update_at])
  | none =>
    rw [popInto, found]
    refine (Rows.update_at _ _ _ _).trans ?_
    by_cases first : k = src
    · rw [if_pos first, if_neg (first ▸ other)]
    · rw [if_neg first]
      split
      next second => rw [second, blank]
      next => rfl

theorem writeAt_before {row : Nat → α} {start j : Nat} {values : List α} (before : j < start) :
    writeAt row start values j = row j :=
  if_neg (by omega)

theorem writeAt_inside {row : Nat → α} {start j : Nat} {values : List α} {value : α}
    (there : values[j]? = some value) : writeAt row start values (start + j) = value := by
  rw [writeAt, if_pos (Nat.le_add_right start j), Nat.add_sub_cancel_left, there]
  rfl

namespace BlockTable

section

variable (t : BlockTable)
include t

variable (blockIds : List Nat)

theorem appendRow_off {rowIdx k : Nat} (other : k ≠ rowIdx) :
    (t.appendRow blockIds rowIdx).row k = t.row k := by
  unfold appendRow
  split
  · rfl
  · simp only [row, update_of_ne other]

theorem addRow_off {rowIdx k : Nat} (other : k ≠ rowIdx) :
    (t.addRow blockIds rowIdx).row k = t.row k := by
  rw [addRow, appendRow_off _ _ other]
  simp only [row, update_of_ne other]

theorem addRow_row (rowIdx : Nat) :
    (t.addRow blockIds rowIdx).row rowIdx = mapToKernelBlocks blockIds t.blocksPerKvBlock := by
  unfold addRow appendRow
  split
  next empty => simp [row, empty, mapToKernelBlocks]
  next =>
    simp only [row, update_self, Nat.zero_add]
    apply ext_getElem?
    intro j
    rw [getElem?_map]
    by_cases inside : j < (mapToKernelBlocks blockIds t.blocksPerKvBlock).length
    · have there := getElem?_eq_getElem inside
      have written := @writeAt_inside _ (t.blockTable rowIdx) 0 _ _ _ there
      rw [Nat.zero_add] at written
      rw [getElem?_range inside, Option.map_some, written, there]
    · have outside := Nat.le_of_not_lt inside
      rw [getElem?_eq_none outside, getElem?_eq_none (by simpa using outside)]
      rfl

theorem clearRow_off {rowIdx k : Nat} (other : k ≠ rowIdx) :
    (t.clearRow rowIdx).row k = t.row k := by
  simp only [clearRow, row, update_of_ne other]

theorem moveRow_tgt {src tgt : Nat} (other : src ≠ tgt) :
    (t.moveRow src tgt).row tgt = t.row src := by
  simp only [moveRow, row, update_of_ne other.symm, update_self]
  apply map_congr_left
  intro j mem
  exact if_pos (mem_range.mp mem)

theorem moveRow_off {src tgt k : Nat} (not_src : k ≠ src) (not_tgt : k ≠ tgt) :
    (t.moveRow src tgt).row k = t.row k := by
  simp only [moveRow, row, update_of_ne not_src, update_of_ne not_tgt]

theorem swapRow_at (i j k : Nat) :
    (t.swapRow i j).row k = if k = j then t.row i else if k = i then t.row j else t.row k := by
  simp only [swapRow, row, swapAt_at]
  split
  · rfl
  · split <;> rfl

end

end BlockTable

/-- The part of a row's data that is in `TokenArrays`. -/
structure TokenRow where
  /-- The tokens up to the active count, `none` where the embedding is given instead. -/
  tokens : List (Option Int)
  promptEmbeds : Option (List Nat)
  numTokensNoSpec : Nat
  numPromptTokens : Nat
  numComputedTokens : Nat
  replayssmDecodeBase : Option Nat
  blocks : List (List Nat)
  loraId : Nat

/-- The part of a row's data that is in `SamplingArrays`. -/
structure SamplingRow (S : Type) where
  temperature : S
  topP : S
  topK : Int
  frequencyPenalty : S
  presencePenalty : S
  repetitionPenalty : S
  generator : Option Nat
  badWordsTokenIds : Option (List (List Int))
  disallowed : Nat → Bool

/-- The tokens a row of `token_ids_cpu` and `is_token_ids` shows below a count. -/
def shownTokens (tokenIds : Nat → Int) (isTokenIds : Nat → Bool) (count : Nat) :
    List (Option Int) :=
  (List.range count).map fun j => if isTokenIds j then some (tokenIds j) else none

variable (t : TokenArrays)

/-- The ReplaySSM origin of a row, where the feature is on. -/
def TokenArrays.base (i : Nat) : Option Nat :=
  if t.useReplayssm then some (t.replayssmDecodeBase i) else none

def TokenArrays.blocks (i : Nat) : List (List Nat) :=
  t.blockTable.map fun table => table.row i

def TokenArrays.row (i numSpec : Nat) : TokenRow where
  tokens := shownTokens (t.tokenIds i) (t.isTokenIds i) (t.numTokensNoSpec i + numSpec)
  promptEmbeds := t.reqPromptEmbeds i
  numTokensNoSpec := t.numTokensNoSpec i
  numPromptTokens := t.numPromptTokens i
  numComputedTokens := t.numComputedTokens i
  replayssmDecodeBase := t.base i
  blocks := t.blocks i
  loraId := t.requestLoraMapping i

def SamplingArrays.row (s : SamplingArrays S) (i : Nat) : SamplingRow S where
  temperature := s.temperature i
  topP := s.topP i
  topK := s.topK i
  frequencyPenalty := s.frequencyPenalties i
  presencePenalty := s.presencePenalties i
  repetitionPenalty := s.repetitionPenalties i
  generator := s.generators i
  badWordsTokenIds := s.badWordsTokenIds i
  disallowed := (s.allowedTokenIdsMask.getD fun _ _ => false) i

theorem shownTokens_congr {tokens tokens' : Nat → Int} {shown shown' : Nat → Bool} {count : Nat}
    (same : ∀ j < count, tokens j = tokens' j ∧ shown j = shown' j) :
    shownTokens tokens shown count = shownTokens tokens' shown' count := by
  apply map_congr_left
  intro j mem
  have ⟨tokens, shown⟩ := same j (mem_range.mp mem)
  rw [tokens, shown]

section Slide

variable (t : TokenArrays)

theorem TokenArrays.slide_base (last free numTokens k : Nat) :
    (t.slide last free numTokens).base k = if k = free then t.base last else t.base k := by
  by_cases on : t.useReplayssm = true
  · simp only [base, slide, on, if_true, copyTo_at]
    split <;> rfl
  · simp only [base, slide, on, Bool.false_eq_true, if_false, ite_self]

theorem TokenArrays.slide_blocks_tgt {last free numTokens : Nat}
    (other : last ≠ free) : (t.slide last free numTokens).blocks free = t.blocks last := by
  simp only [blocks, slide, map_map]
  exact map_congr_left fun table _ => table.moveRow_tgt other

theorem TokenArrays.slide_blocks_off {last free numTokens k : Nat}
    (not_last : k ≠ last) (not_free : k ≠ free) :
    (t.slide last free numTokens).blocks k = t.blocks k := by
  simp only [blocks, slide, map_map]
  exact map_congr_left fun table _ => table.moveRow_off not_last not_free

theorem TokenArrays.slide_tgt {last free numSpec : Nat} (other : last ≠ free)
    (blank : t.reqPromptEmbeds free = none) :
    (t.slide last free (t.numTokensNoSpec last + numSpec)).row free numSpec =
    t.row last numSpec := by
  have shown : shownTokens
      (writePrefix (t.tokenIds free) (t.tokenIds last) (t.numTokensNoSpec last + numSpec))
      (writePrefix (t.isTokenIds free) (t.isTokenIds last) (t.numTokensNoSpec last + numSpec))
      (t.numTokensNoSpec last + numSpec) =
      shownTokens (t.tokenIds last) (t.isTokenIds last) (t.numTokensNoSpec last + numSpec) :=
    shownTokens_congr fun j inside => ⟨if_pos inside, if_pos inside⟩
  simp only [row, slide_base, t.slide_blocks_tgt other]
  simp only [slide, copyTo_at, if_true, update_self, shown, popInto_at _ blank other]

theorem TokenArrays.slide_off {last free numTokens numSpec k : Nat}
    (blank : t.reqPromptEmbeds free = none) (other : last ≠ free) (not_last : k ≠ last)
    (not_free : k ≠ free) : (t.slide last free numTokens).row k numSpec = t.row k numSpec := by
  simp only [row, slide_base, t.slide_blocks_off not_last not_free]
  simp only [slide, copyTo_at, if_neg not_free, if_neg not_last,
    update_of_ne not_free, popInto_at _ blank other]

theorem SamplingArrays.slide_tgt (s : SamplingArrays S) {last free : Nat} (other : last ≠ free)
    (blank : (s.row free).generator = none ∧ (s.row free).badWordsTokenIds = none) :
    (s.slide last free).row free = s.row last := by
  have mask : (((s.slide last free).allowedTokenIdsMask).getD fun _ _ => false) free =
      (s.allowedTokenIdsMask.getD fun _ _ => false) last := by
    simp only [slide]
    cases s.allowedTokenIdsMask with
    | none => rfl
    | some mask =>
      refine (update_of_ne other.symm _ _).trans ?_
      exact (copyTo_at mask last free free).trans (if_pos rfl)
  simp only [row, mask]
  simp only [slide, copyTo_at, if_true, popInto_at s.generators blank.1 other,
    popInto_at s.badWordsTokenIds blank.2 other]

theorem SamplingArrays.slide_off (s : SamplingArrays S) {last free k : Nat} (other : last ≠ free)
    (blank : (s.row free).generator = none ∧ (s.row free).badWordsTokenIds = none)
    (not_last : k ≠ last) (not_free : k ≠ free) : (s.slide last free).row k = s.row k := by
  have mask : (((s.slide last free).allowedTokenIdsMask).getD fun _ _ => false) k =
      (s.allowedTokenIdsMask.getD fun _ _ => false) k := by
    simp only [slide]
    cases s.allowedTokenIdsMask with
    | none => rfl
    | some mask =>
      refine (update_of_ne not_last _ _).trans ?_
      exact (copyTo_at mask last free k).trans (if_neg not_free)
  simp only [row, mask]
  simp only [slide, copyTo_at, if_neg not_free, if_neg not_last,
    popInto_at s.generators blank.1 other,
    popInto_at s.badWordsTokenIds blank.2 other]

end Slide

section Swap

theorem swapped_front (array : Nat → Nat → α) {i1 i2 count j : Nat} (inside : j < count) (k : Nat) :
    update (update array i1 (writePrefix (array i1) (array i2) count)) i2
    (writePrefix (update array i1 (writePrefix (array i1) (array i2) count) i2)
    (array i1) count) k j =
    if k = i2 then array i1 j else if k = i1 then array i2 j else array k j := by
  by_cases second : k = i2
  · rw [second, update_self, if_pos rfl]
    exact if_pos inside
  · rw [update_of_ne second, if_neg second]
    by_cases first : k = i1
    · rw [first, update_self, if_pos rfl]
      exact if_pos inside
    · rw [update_of_ne first, if_neg first]

theorem swapped_off (array : Nat → Nat → α) {i1 i2 count k : Nat} (not_i1 : k ≠ i1)
    (not_i2 : k ≠ i2) :
    update (update array i1 (writePrefix (array i1) (array i2) count)) i2
    (writePrefix (update array i1 (writePrefix (array i1) (array i2) count) i2)
    (array i1) count) k = array k := by
  rw [update_of_ne not_i2, update_of_ne not_i1]

variable (t : TokenArrays)

theorem TokenArrays.swap_base (i1 i2 count k : Nat) :
    (t.swap i1 i2 count).base k =
    if k = i2 then t.base i1 else if k = i1 then t.base i2 else t.base k := by
  by_cases on : t.useReplayssm = true
  · simp only [base, swap, on, if_true, swapAt_at]
    split
    · rfl
    · split <;> rfl
  · simp only [base, swap, on, Bool.false_eq_true, if_false, ite_self]

theorem TokenArrays.swap_blocks (i1 i2 count k : Nat) :
    (t.swap i1 i2 count).blocks k =
    if k = i2 then t.blocks i1 else if k = i1 then t.blocks i2 else t.blocks k := by
  simp only [blocks, swap, map_map]
  have each : ∀ table ∈ t.blockTable, ((fun table : BlockTable => table.row k) ∘
      fun table : BlockTable => table.swapRow i1 i2) table =
      if k = i2 then table.row i1 else if k = i1 then table.row i2 else table.row k :=
    fun table _ => table.swapRow_at i1 i2 k
  rw [map_congr_left each]
  split
  · rfl
  · split <;> rfl

theorem TokenArrays.swap_snd {i1 i2 n count : Nat}
    (cover : t.numTokensNoSpec i1 + n ≤ count) : (t.swap i1 i2 count).row i2 n = t.row i1 n := by
  have active : (t.swap i1 i2 count).numTokensNoSpec i2 = t.numTokensNoSpec i1 := by
    simp only [swap, swapAt_at, if_true]
  have shown : shownTokens ((t.swap i1 i2 count).tokenIds i2) ((t.swap i1 i2 count).isTokenIds i2)
      (t.numTokensNoSpec i1 + n) =
      shownTokens (t.tokenIds i1) (t.isTokenIds i1) (t.numTokensNoSpec i1 + n) := by
    refine shownTokens_congr fun j inside => ?_
    have below : j < count := by omega
    exact ⟨(swapped_front t.tokenIds below i2).trans (if_pos rfl),
      (swapped_front t.isTokenIds below i2).trans (if_pos rfl)⟩
  simp only [row, active, shown, swap_base, swap_blocks, if_true]
  simp only [swap, swapAt_at, swapDictValues_at, if_true]

theorem TokenArrays.swap_fst {i1 i2 n count : Nat} (other : i1 ≠ i2)
    (cover : t.numTokensNoSpec i2 + n ≤ count) : (t.swap i1 i2 count).row i1 n = t.row i2 n := by
  have active : (t.swap i1 i2 count).numTokensNoSpec i1 = t.numTokensNoSpec i2 := by
    simp only [swap, swapAt_at, if_neg other, if_true]
  have shown : shownTokens ((t.swap i1 i2 count).tokenIds i1) ((t.swap i1 i2 count).isTokenIds i1)
      (t.numTokensNoSpec i2 + n) =
      shownTokens (t.tokenIds i2) (t.isTokenIds i2) (t.numTokensNoSpec i2 + n) := by
    refine shownTokens_congr fun j inside => ?_
    have below : j < count := by omega
    exact ⟨(swapped_front t.tokenIds below i1).trans (by rw [if_neg other, if_pos rfl]),
      (swapped_front t.isTokenIds below i1).trans (by rw [if_neg other, if_pos rfl])⟩
  simp only [row, active, shown, swap_base, swap_blocks, if_neg other, if_true]
  simp only [swap, swapAt_at, swapDictValues_at, if_neg other, if_true]

theorem TokenArrays.swap_off {i1 i2 n count k : Nat} (not_i1 : k ≠ i1)
    (not_i2 : k ≠ i2) : (t.swap i1 i2 count).row k n = t.row k n := by
  simp only [row, swap_base, swap_blocks, if_neg not_i1, if_neg not_i2]
  simp only [swap, swapAt_at, swapDictValues_at, if_neg not_i1, if_neg not_i2,
    swapped_off _ not_i1 not_i2]

theorem SamplingArrays.swap_at (s : SamplingArrays S) (i1 i2 k : Nat) : (s.swap i1 i2).row k =
    if k = i2 then s.row i1 else if k = i1 then s.row i2 else s.row k := by
  have mask : (((s.swap i1 i2).allowedTokenIdsMask).getD fun _ _ => false) k =
      if k = i2 then (s.allowedTokenIdsMask.getD fun _ _ => false) i1
      else if k = i1 then (s.allowedTokenIdsMask.getD fun _ _ => false) i2
      else (s.allowedTokenIdsMask.getD fun _ _ => false) k := by
    simp only [swap]
    cases s.allowedTokenIdsMask with
    | none => simp only [Option.map_none, Option.getD_none, ite_self]
    | some mask => exact swapAt_at mask i1 i2 k
  simp only [row, mask]
  simp only [swap, swapAt_at, swapDictValues_at]
  split
  · rfl
  · split <;> rfl

end Swap

section Free

theorem TokenArrays.free_off (t : TokenArrays) {i numSpec k : Nat} (other : k ≠ i) :
    (t.free i).row k numSpec = t.row k numSpec := by
  have blocks : (t.free i).blocks k = t.blocks k := by
    simp only [TokenArrays.blocks, free, map_map]
    exact map_congr_left fun table _ => table.clearRow_off other
  have base : (t.free i).base k = t.base k := rfl
  simp only [row, blocks, base]
  simp only [free, update_of_ne other]

theorem SamplingArrays.free_off (s : SamplingArrays S) {i k : Nat} (other : k ≠ i) :
    (s.free i).row k = s.row k := by
  have mask : (((s.free i).allowedTokenIdsMask).getD fun _ _ => false) k =
      (s.allowedTokenIdsMask.getD fun _ _ => false) k := by
    simp only [free]
    cases s.allowedTokenIdsMask with
    | none => rfl
    | some mask => exact update_of_ne other _ _
  simp only [row, mask]
  simp only [free, update_of_ne other]

end Free

section Write

section

variable (tokenIds : Nat → Int) (isTokenIds : Nat → Bool)
include tokenIds isTokenIds

theorem shownTokens_length (count : Nat) :
    (shownTokens tokenIds isTokenIds count).length = count := by
  rw [shownTokens, length_map, length_range]

theorem shownTokens_getElem? {count j : Nat}
    (inside : j < count) : (shownTokens tokenIds isTokenIds count)[j]? =
    some (if isTokenIds j then some (tokenIds j) else none) := by
  rw [shownTokens, getElem?_map, getElem?_range inside, Option.map_some]

theorem shownTokens_append (n : Nat)
    (more : List Int) :
    shownTokens (writeAt tokenIds n more) (writeAt isTokenIds n (List.replicate more.length true))
    (n + more.length) = shownTokens tokenIds isTokenIds n ++ more.map some := by
  apply ext_getElem?
  intro j
  rcases Nat.lt_or_ge j n with before | behind
  · rw [shownTokens_getElem? _ _ (by omega), writeAt_before before, writeAt_before before,
      getElem?_append_left (by rw [shownTokens_length]; exact before),
      shownTokens_getElem? _ _ before]
  · obtain ⟨k, rfl⟩ := Nat.exists_eq_add_of_le behind
    rw [getElem?_append_right (by rw [shownTokens_length]; omega), shownTokens_length,
      Nat.add_sub_cancel_left]
    by_cases inside : k < more.length
    · have token := getElem?_eq_getElem inside
      have shown : (List.replicate more.length true)[k]? = some true := by
        rw [getElem?_replicate, if_pos inside]
      rw [shownTokens_getElem? _ _ (by omega), writeAt_inside token, writeAt_inside shown,
        getElem?_map, token]
      rfl
    · rw [getElem?_eq_none (by rw [shownTokens_length]; omega),
        getElem?_eq_none (by rw [length_map]; omega)]

theorem shownTokens_zip {ids : List Int}
    {mask : List Bool} (covers : mask.length = ids.length) :
    shownTokens (writeAt tokenIds 0 ids) (writeAt isTokenIds 0 mask) ids.length =
    List.zipWith (fun id shown => if shown then some id else none) ids mask := by
  apply ext_getElem?
  intro j
  by_cases inside : j < ids.length
  · have token := getElem?_eq_getElem inside
    have shown := getElem?_eq_getElem (covers ▸ inside : j < mask.length)
    have written := @writeAt_inside _ tokenIds 0 _ _ _ token
    have marked := @writeAt_inside _ isTokenIds 0 _ _ _ shown
    rw [Nat.zero_add] at written marked
    rw [shownTokens_getElem? _ _ inside, getElem?_zipWith, token, shown, written, marked]
  · rw [getElem?_eq_none (by rw [shownTokens_length]; omega),
      getElem?_eq_none (by rw [length_zipWith]; omega)]

theorem shownTokens_hidden (n : Nat) :
    shownTokens tokenIds (writeAt isTokenIds 0 (List.replicate n false)) n =
    List.replicate n none := by
  apply ext_getElem?
  intro j
  by_cases inside : j < n
  · have hidden : (List.replicate n false)[j]? = some false := by
      rw [getElem?_replicate, if_pos inside]
    have marked := @writeAt_inside _ isTokenIds 0 _ _ _ hidden
    rw [Nat.zero_add] at marked
    rw [shownTokens_getElem? _ _ inside, marked, getElem?_replicate, if_pos inside]
    rfl
  · rw [getElem?_eq_none (by rw [shownTokens_length]; omega),
      getElem?_eq_none (by rw [length_replicate]; omega)]

end

/-- The prompt of a request, `none` where an embedding stands for the token. -/
def CachedRequestState.promptTokens (request : CachedRequestState F) : List (Option Int) :=
  match request.promptTokenIds with
  | some ids => List.zipWith (fun id shown => if shown then some id else none) ids
      (request.promptIsTokenIds.getD (List.replicate ids.length true))
  | none => List.replicate (request.promptEmbeds.getD []).length none

/-- The data of a request in `TokenArrays`. -/
def CachedRequestState.tokenRow (request : CachedRequestState F) (useReplayssm : Bool)
    (blocksPerKvBlock : List Nat) (heap : Heap) : TokenRow :=
  let tokens := request.promptTokens ++ (heap request.outputTokenIds).map some
  { tokens
    promptEmbeds := request.promptEmbeds
    numTokensNoSpec := tokens.length
    numPromptTokens := request.promptTokens.length
    numComputedTokens := request.numComputedTokens
    replayssmDecodeBase := if useReplayssm then some tokens.length else none
    blocks := List.zipWith (fun k ids => BlockTable.mapToKernelBlocks ids k) blocksPerKvBlock
      request.blockIds
    loraId := request.loraRequest.getD 0 }

variable {heap : Heap} {request : CachedRequestState F}

theorem TokenArrays.write_some {t t' : TokenArrays} {maxModelLen i : Nat}
    (h : t.write heap maxModelLen i request = some t') :
    ∃ n, lengthFromPromptTokenIdsOrEmbeds request.promptTokenIds request.promptEmbeds = some n ∧
    (promptMask request n).length = n ∧ t.blockTable.length ≤ request.blockIds.length ∧
    t' = t.store heap i n request := by
  unfold write at h
  split at h
  · cases h
  next n known =>
    split at h
    · cases h
    next fits =>
      simp only [not_or, not_lt, not_not] at fits
      exact ⟨n, known, fits.2.1, fits.2.2, (Option.some.inj h).symm⟩

variable (t : TokenArrays)

theorem TokenArrays.store_prompt {i n : Nat}
    (known : lengthFromPromptTokenIdsOrEmbeds request.promptTokenIds request.promptEmbeds = some n)
    (covers : (promptMask request n).length = n) :
    shownTokens (writeAt (t.tokenIds i) 0 (request.promptTokenIds.getD []))
    (writeAt (t.isTokenIds i) 0 (promptMask request n)) n = request.promptTokens := by
  unfold lengthFromPromptTokenIdsOrEmbeds at known
  cases given : request.promptTokenIds with
  | none =>
    rw [given] at known
    cases embeds : request.promptEmbeds with
    | none => simp [embeds] at known
    | some rows =>
      simp only [embeds, Option.some.injEq] at known
      simp only [promptMask, CachedRequestState.promptTokens, given, embeds, Option.getD_some]
      rw [shownTokens_hidden, known]
  | some ids =>
    have length : n = ids.length := by
      rw [given] at known
      cases embeds : request.promptEmbeds with
      | none => simpa [embeds, eq_comm] using known
      | some rows =>
        simp only [embeds] at known
        split at known
        · exact (Option.some.inj known).symm
        · cases known
    subst length
    simp only [promptMask, given] at covers ⊢
    rw [Option.getD_some, shownTokens_zip _ _ covers, CachedRequestState.promptTokens, given]

theorem TokenArrays.store_blocks (heap : Heap) (i n : Nat)
    (request : CachedRequestState F) : (t.store heap i n request).blocks i =
    List.zipWith (fun k ids => BlockTable.mapToKernelBlocks ids k)
    (t.blockTable.map (·.blocksPerKvBlock)) request.blockIds := by
  simp only [blocks, store, map_zipWith, zipWith_map_left]
  congr 1
  funext table ids
  exact table.addRow_row ids i

theorem TokenArrays.store_blocks_off (heap : Heap) {i n k : Nat}
    (groups : t.blockTable.length ≤ request.blockIds.length)
    (other : k ≠ i) : (t.store heap i n request).blocks k = t.blocks k := by
  simp only [blocks, store, map_zipWith]
  have each : (fun (table : BlockTable) ids => (table.addRow ids i).row k) =
      fun table _ => table.row k := by
    funext table ids
    exact table.addRow_off ids other
  rw [each]
  apply ext_getElem?
  intro j
  rw [getElem?_zipWith, getElem?_map]
  cases there : t.blockTable[j]? with
  | none => rfl
  | some table =>
    have inside : j < request.blockIds.length :=
      Nat.lt_of_lt_of_le (List.getElem?_eq_some_iff.mp there).1 groups
    rw [getElem?_eq_getElem inside]
    rfl

theorem TokenArrays.write_row {t t' : TokenArrays} {maxModelLen i : Nat}
    (h : t.write heap maxModelLen i request = some t') (blank : t.reqPromptEmbeds i = none) :
    t'.row i 0 = request.tokenRow t.useReplayssm (t.blockTable.map (·.blocksPerKvBlock)) heap := by
  obtain ⟨n, known, covers, -, rfl⟩ := write_some h
  have prompt := t.store_prompt (i := i) known covers
  have length : request.promptTokens.length = n := by rw [← prompt, shownTokens_length]
  have shown := shownTokens_append (writeAt (t.tokenIds i) 0 (request.promptTokenIds.getD []))
    (writeAt (t.isTokenIds i) 0 (promptMask request n)) n (heap request.outputTokenIds)
  rw [prompt] at shown
  have embeds : (t.store heap i n request).reqPromptEmbeds i = request.promptEmbeds := by
    simp only [store]
    split
    · exact update_self ..
    next absent => rw [blank, Option.not_isSome_iff_eq_none.mp absent]
  have base : (t.store heap i n request).base i = if t.useReplayssm then
      some (n + (heap request.outputTokenIds).length) else none := by
    by_cases on : t.useReplayssm = true
    · simp only [TokenArrays.base, store, on, if_true, update_self]
    · simp only [TokenArrays.base, store, on, Bool.false_eq_true, if_false]
  simp only [row, embeds, base, store_blocks, CachedRequestState.tokenRow, length_append,
    length_map, length]
  simp only [store, update_self, Nat.add_zero, shown]

theorem TokenArrays.write_off (numSpec : Nat) {t t' : TokenArrays} {maxModelLen i k : Nat}
    (h : t.write heap maxModelLen i request = some t')
    (other : k ≠ i) : t'.row k numSpec = t.row k numSpec := by
  obtain ⟨n, -, -, groups, rfl⟩ := write_some h
  have embeds : (t.store heap i n request).reqPromptEmbeds k = t.reqPromptEmbeds k := by
    simp only [store]
    split
    · exact update_of_ne other ..
    · rfl
  have base : (t.store heap i n request).base k = t.base k := by
    by_cases on : t.useReplayssm = true
    · simp only [TokenArrays.base, store, on, if_true, update_of_ne other]
    · simp only [TokenArrays.base, store, on, Bool.false_eq_true, if_false]
  simp only [row, embeds, base, store_blocks_off t heap groups other]
  simp only [store, update_of_ne other]

theorem shownTokens_take (tokenIds : Nat → Int) (isTokenIds : Nat → Bool) (n more : Nat) :
    (shownTokens tokenIds isTokenIds (n + more)).take n = shownTokens tokenIds isTokenIds n := by
  rw [shownTokens, shownTokens, ← map_take, take_range, Nat.min_eq_left (by omega)]

def TokenRow.withDrafts (r : TokenRow) (drafts : List Int) : TokenRow :=
  { r with tokens := r.tokens.take r.numTokensNoSpec ++ drafts.map some }

theorem TokenArrays.row_withDrafts_nil (i n : Nat) :
    t.row i 0 = (t.row i n).withDrafts [] := by
  simp only [TokenRow.withDrafts, row, shownTokens_take, map_nil, append_nil,
    Nat.add_zero]

theorem TokenArrays.writeSpec_row {t t' : TokenArrays} {maxModelLen i : Nat} {drafts : List Int}
    (h : t.writeSpec maxModelLen i drafts = some t') (n : Nat) :
    t'.row i drafts.length = (t.row i n).withDrafts drafts := by
  unfold writeSpec at h
  split at h
  · cases h
  · cases h
    have shown := shownTokens_append (t.tokenIds i) (t.isTokenIds i) (t.numTokensNoSpec i) drafts
    simp only [TokenRow.withDrafts, row, shownTokens_take, update_self, shown]
    rfl

theorem TokenArrays.writeSpec_off {t t' : TokenArrays} {maxModelLen i k n : Nat}
    {drafts : List Int} (h : t.writeSpec maxModelLen i drafts = some t') (other : k ≠ i) :
    t'.row k n = t.row k n := by
  unfold writeSpec at h
  split at h
  · cases h
  · cases h
    simp only [row, update_of_ne other]
    rfl

/-- The data of a request in `SamplingArrays`. -/
def SamplingParams.samplingRow [Zero S] (params : SamplingParams F) (float32 : F → S)
    (vocabSize : Nat) (generator : Option Nat) : SamplingRow S where
  temperature := if params.samplingType = .greedy then 0 else float32 params.temperature
  topP := float32 params.topP
  topK := if 0 < params.topK ∧ params.topK < vocabSize then params.topK else vocabSize
  frequencyPenalty := float32 params.frequencyPenalty
  presencePenalty := float32 params.presencePenalty
  repetitionPenalty := float32 params.repetitionPenalty
  generator := generator
  badWordsTokenIds := match params.badWordsTokenIds with
    | none => none
    | some [] => none
    | some (words :: rest) => some (words :: rest)
  disallowed := fun token => match params.allowedTokenIds with
    | none => false
    | some ids => !ids.isEmpty && decide (token ∉ ids)

/-- A row whose dicts and mask hold nothing, as a request without them needs it. -/
structure SamplingRow.Blank (r : SamplingRow S) : Prop where
  generator : r.generator = none
  badWords : r.badWordsTokenIds = none
  allowed : r.disallowed = fun _ => false

variable (s : SamplingArrays S)

theorem SamplingArrays.free_blank (i : Nat) : ((s.free i).row i).Blank where
  generator := update_self ..
  badWords := update_self ..
  allowed := by
    simp only [row, free]
    cases s.allowedTokenIdsMask with
    | none => rfl
    | some mask => exact update_self ..

theorem SamplingArrays.slide_blank {last free : Nat} (other : last ≠ free)
    (blank : (s.row free).Blank) : ((s.slide last free).row last).Blank where
  generator := by
    simp only [row, slide, popInto_at s.generators blank.generator other, if_neg other,
      if_true]
  badWords := by
    simp only [row, slide, popInto_at s.badWordsTokenIds blank.badWords other,
      if_neg other, if_true]
  allowed := by
    simp only [row, slide]
    cases s.allowedTokenIdsMask with
    | none => rfl
    | some mask => exact update_self ..

variable [Zero S] {float32 : F → S} {vocabSize : Nat} {generator : Option Nat}
  {params : SamplingParams F}

theorem SamplingArrays.write_row {i : Nat} (blank : (s.row i).Blank) :
    (s.write float32 vocabSize i generator params).row i =
    params.samplingRow float32 vocabSize generator := by
  have words : (s.write float32 vocabSize i generator params).badWordsTokenIds i =
      (params.samplingRow float32 vocabSize generator).badWordsTokenIds := by
    cases given : params.badWordsTokenIds with
    | none =>
      simp only [write, SamplingParams.samplingRow, given]
      exact blank.badWords
    | some words =>
      cases words with
      | nil =>
        simp only [write, SamplingParams.samplingRow, given]
        exact blank.badWords
      | cons word rest => simp [write, SamplingParams.samplingRow, given]
  have gen : (s.write float32 vocabSize i generator params).generators i = generator := by
    cases generator with
    | none => exact blank.generator
    | some g => exact update_self ..
  have mask : ((s.write float32 vocabSize i generator params).allowedTokenIdsMask.getD
      fun _ _ => false) i = (params.samplingRow float32 vocabSize generator).disallowed := by
    cases given : params.allowedTokenIds with
    | none =>
      simp only [write, SamplingParams.samplingRow, given]
      exact blank.allowed
    | some ids =>
      cases ids with
      | nil =>
        simp only [write, SamplingParams.samplingRow, given]
        exact blank.allowed
      | cons id ids => simp [write, SamplingParams.samplingRow, given]
  simp only [row, words, gen, mask]
  simp only [write, update_self, SamplingParams.samplingRow]

theorem SamplingArrays.write_off {i k : Nat} (other : k ≠ i) :
    (s.write float32 vocabSize i generator params).row k = s.row k := by
  have words : (s.write float32 vocabSize i generator params).badWordsTokenIds k =
      s.badWordsTokenIds k := by
    cases given : params.badWordsTokenIds with
    | none => simp only [write, given]
    | some words =>
      cases words with
      | nil => simp only [write, given]
      | cons word rest => simp only [write, given, update_of_ne other]
  have gen : (s.write float32 vocabSize i generator params).generators k = s.generators k := by
    simp only [write]
    split
    · exact update_of_ne other ..
    · rfl
  have mask : ((s.write float32 vocabSize i generator params).allowedTokenIdsMask.getD
      fun _ _ => false) k = (s.allowedTokenIdsMask.getD fun _ _ => false) k := by
    simp only [write]
    split
    · rfl
    · rfl
    · exact update_of_ne other ..
  simp only [row, words, gen, mask]
  simp only [write, update_of_ne other]

end Write

end VllmAmpere.PersistentBatch
