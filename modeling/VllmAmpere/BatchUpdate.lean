import Mathlib.Data.List.Sort
import VllmAmpere.RowReplay

/-! `BatchUpdateBuilder`: the rows a step of the persistent batch frees, fills and
moves, as the logits processors are told of them. -/

open List Function

namespace VllmAmpere.PersistentBatch

/-- A Python list, by the reference its holders share. -/
abbrev ListRef := Nat

inductive MoveDirectionality
  | unidirectional
  | swap
  deriving DecidableEq, Repr

structure AddedRequest (P : Type) where
  index : Nat
  params : P
  promptTokIds : Option (List Int)
  outputTokIds : ListRef

structure MovedRequest where
  i1 : Nat
  i2 : Nat
  direct : MoveDirectionality
  deriving DecidableEq, Repr

structure BatchUpdate (P : Type) where
  batchSize : Nat
  removed : List Nat
  added : List (AddedRequest P)
  moved : List MovedRequest

structure BatchUpdateBuilder (P : Type) where
  removedRows : List Nat := []
  isRemovedSorted : Bool := false
  added : List (AddedRequest P) := []
  moved : List MovedRequest := []
  batchChanged : Bool := false

namespace BatchUpdateBuilder

variable {P : Type} (u : BatchUpdateBuilder P)

def ensureRemovedSorted : BatchUpdateBuilder P :=
  if u.isRemovedSorted then u
  else { u with removedRows := u.removedRows.insertionSort (· ≥ ·), isRemovedSorted := true }

/-- The property `removed`, with the builder it leaves. -/
def removed : List Nat × BatchUpdateBuilder P :=
  (u.ensureRemovedSorted.removedRows, u.ensureRemovedSorted)

/-- `none` where it raises, once the removed rows have been read. -/
def removedAppend (index : Nat) : Option (BatchUpdateBuilder P) :=
  if u.isRemovedSorted then none
  else some { u with removedRows := u.removedRows ++ [index], batchChanged := true }

def hasRemoved : Bool := !u.removedRows.isEmpty

def peekRemoved : Option Nat × BatchUpdateBuilder P :=
  if u.hasRemoved then (u.ensureRemovedSorted.removedRows.getLast?, u.ensureRemovedSorted)
  else (none, u)

def popRemoved : Option Nat × BatchUpdateBuilder P :=
  if u.hasRemoved then
    (u.ensureRemovedSorted.removedRows.getLast?,
      { u.ensureRemovedSorted with removedRows := u.ensureRemovedSorted.removedRows.dropLast })
  else (none, u)

def reset : Bool × BatchUpdateBuilder P := (u.batchChanged, {})

def getAndReset (batchSize : Nat) :
    Option (BatchUpdate P) × BatchUpdateBuilder P :=
  if u.removedRows.isEmpty && u.moved.isEmpty && u.added.isEmpty then
    (none, { u with isRemovedSorted := false, batchChanged := false })
  else
    (some { batchSize, removed := u.removedRows, added := u.added, moved := u.moved }, {})

/-- No row is removed twice, and the rows that have been read are sorted. -/
structure Tidy (u : BatchUpdateBuilder P) : Prop where
  nodup : u.removedRows.Nodup
  sorted : u.isRemovedSorted = true → u.removedRows.Pairwise (· ≥ ·)

theorem removedAppend_some {u u' : BatchUpdateBuilder P} {index : Nat}
    (h : u.removedAppend index = some u') : u.isRemovedSorted = false ∧
    u' = { u with removedRows := u.removedRows ++ [index], batchChanged := true } := by
  unfold removedAppend at h
  split at h
  · cases h
  next unread => exact ⟨Bool.eq_false_iff.mpr unread, (Option.some.inj h).symm⟩

theorem mem_ensureRemovedSorted (i : Nat) :
    i ∈ u.ensureRemovedSorted.removedRows ↔ i ∈ u.removedRows := by
  unfold ensureRemovedSorted
  split
  · exact Iff.rfl
  · exact mem_insertionSort _

@[simp] theorem ensureRemovedSorted_added :
    u.ensureRemovedSorted.added = u.added := by
  unfold ensureRemovedSorted
  split <;> rfl

@[simp] theorem ensureRemovedSorted_moved :
    u.ensureRemovedSorted.moved = u.moved := by
  unfold ensureRemovedSorted
  split <;> rfl

@[simp] theorem ensureRemovedSorted_isRemovedSorted :
    u.ensureRemovedSorted.isRemovedSorted = true := by
  unfold ensureRemovedSorted
  split
  · assumption
  · rfl

namespace Tidy

variable {u : BatchUpdateBuilder P}

theorem ensured (h : u.Tidy) : u.ensureRemovedSorted.Tidy := by
  unfold ensureRemovedSorted
  split
  · exact h
  · exact ⟨(perm_insertionSort _ _).nodup_iff.mpr h.nodup,
      fun _ => pairwise_insertionSort _ _⟩

theorem removedAppend (h : u.Tidy) {index : Nat} (new : index ∉ u.removedRows)
    {u' : BatchUpdateBuilder P} (appended : u.removedAppend index = some u') : u'.Tidy := by
  obtain ⟨unread, rfl⟩ := removedAppend_some appended
  refine ⟨nodup_append.mpr ⟨h.nodup, by simp, ?_⟩, fun read => ?_⟩
  · rintro i mem j here rfl
    exact new (mem_singleton.mp here ▸ mem)
  · rw [unread] at read
    cases read

end Tidy

/-- What popping the lowest removed row leaves. -/
structure Popped (u u' : BatchUpdateBuilder P) (low : Nat) : Prop where
  mem : low ∈ u.removedRows
  least : ∀ j ∈ u.removedRows, low ≤ j
  left : ∀ j, j ∈ u'.removedRows ↔ j ∈ u.removedRows ∧ j ≠ low
  length : u'.removedRows.length + 1 = u.removedRows.length
  tidy : u'.Tidy
  added : u'.added = u.added
  moved : u'.moved = u.moved

theorem hasRemoved_iff (u : BatchUpdateBuilder P) : u.hasRemoved = true ↔ u.removedRows ≠ [] := by
  simp [hasRemoved]

theorem popRemoved_none {u : BatchUpdateBuilder P} (empty : u.removedRows = []) :
    u.popRemoved = (none, u) := by
  rw [popRemoved, if_neg (by rw [hasRemoved_iff]; exact fun some => some empty)]

theorem popRemoved_some {u : BatchUpdateBuilder P} (h : u.Tidy) (some : u.removedRows ≠ []) :
    ∃ low, u.peekRemoved.1 = .some low ∧ u.popRemoved.1 = .some low ∧
    Popped u u.popRemoved.2 low := by
  obtain ⟨v, hv⟩ : ∃ v, v = u.ensureRemovedSorted := ⟨_, rfl⟩
  have tidy : v.Tidy := hv ▸ h.ensured
  have same : ∀ i, i ∈ v.removedRows ↔ i ∈ u.removedRows := fun i => hv ▸ mem_ensureRemovedSorted u i
  have read : v.isRemovedSorted = true := hv ▸ ensureRemovedSorted_isRemovedSorted u
  have has := (hasRemoved_iff u).mpr some
  obtain ⟨first, mem⟩ := exists_mem_of_ne_nil _ some
  have full : v.removedRows ≠ [] := ne_nil_of_mem ((same first).mpr mem)
  have concat := dropLast_concat_getLast full
  have last : v.removedRows.getLast? = .some (v.removedRows.getLast full) :=
    getLast?_eq_some_getLast full
  have sorted := tidy.sorted read
  have nodup := tidy.nodup
  have length : u.removedRows.length = v.removedRows.length := by
    rw [hv]
    unfold ensureRemovedSorted
    split
    · rfl
    · exact (length_insertionSort _ _).symm
  refine ⟨v.removedRows.getLast full, ?_, ?_, ?_⟩
  · rw [peekRemoved, if_pos has, ← hv]
    exact last
  · rw [popRemoved, if_pos has, ← hv]
    exact last
  have popped : u.popRemoved.2 = { v with removedRows := v.removedRows.dropLast } := by
    rw [popRemoved, if_pos has, ← hv]
  have both : ∀ j, j ∈ v.removedRows ↔ j ∈ v.removedRows.dropLast ∨ j = v.removedRows.getLast full := by
    intro j
    conv_lhs => rw [← concat]
    rw [mem_append, mem_singleton]
  rw [← concat] at sorted nodup
  rw [pairwise_append] at sorted
  rw [nodup_append] at nodup
  rw [popped]
  exact {
    mem := (same _).mp (getLast_mem full)
    least := by
      intro j inside
      rcases (both j).mp ((same j).mpr inside) with before | last
      · exact sorted.2.2 j before _ (mem_singleton_self _)
      · exact last ▸ Nat.le_refl _
    left := by
      intro j
      rw [← same j, both j]
      constructor
      · intro before
        exact ⟨.inl before, fun e => nodup.2.2 j before _ (mem_singleton_self _) e⟩
      · rintro ⟨inside, other⟩
        exact inside.resolve_right other
    length := by
      rw [length, length_dropLast]
      have := length_pos_of_ne_nil full
      omega
    tidy := ⟨nodup.1, fun _ => sorted.1⟩
    added := hv ▸ ensureRemovedSorted_added u
    moved := hv ▸ ensureRemovedSorted_moved u }

end BatchUpdateBuilder

/-! The arrays of `InputBatch` that are indexed by row, and what `add_request`,
`remove_request`, `condense` and `swap_states` write in them. A numpy array is the
function that reads it, a dict keyed by rows is `Rows`. -/

abbrev ReqId := String

/-- The contents of the Python lists that requests share with their holders. -/
abbrev Heap := ListRef → List Int

inductive SamplingType
  | greedy
  | random
  | randomSeed
  deriving DecidableEq, Repr

structure SamplingParams (F : Type) where
  samplingType : SamplingType
  temperature : F
  topP : F
  topK : Int
  frequencyPenalty : F
  presencePenalty : F
  repetitionPenalty : F
  minP : F
  allowedTokenIds : Option (List Nat)
  badWordsTokenIds : Option (List (List Int))
  logitBias : Option (List (Int × F))
  minTokens : Nat
  allStopTokenIds : List Int
  structuredOutputs : Bool
  thinkingTokenBudget : Option Int

structure CachedRequestState (F : Type) where
  reqId : ReqId
  promptTokenIds : Option (List Int)
  /-- The rows of the tensor. -/
  promptEmbeds : Option (List Nat)
  promptIsTokenIds : Option (List Bool)
  samplingParams : Option (SamplingParams F)
  poolingParams : Bool
  generator : Option Nat
  blockIds : List (List Nat)
  numComputedTokens : Nat
  outputTokenIds : ListRef
  /-- `lora_request.lora_int_id`. -/
  loraRequest : Option Nat

/-- `none` where it raises. -/
def lengthFromPromptTokenIdsOrEmbeds (promptTokenIds : Option (List Int))
    (promptEmbeds : Option (List Nat)) : Option Nat :=
  match promptTokenIds, promptEmbeds with
  | none, none => none
  | none, some embeds => some embeds.length
  | some ids, none => some ids.length
  | some ids, some embeds => if embeds.length = ids.length then some ids.length else none

/-- `row[start : start + len(values)] = values`. -/
def writeAt {α : Type} (row : Nat → α) (start : Nat) (values : List α) : Nat → α := fun j =>
  if start ≤ j then (values[j - start]?).getD (row j) else row j

/-- `row[:n]` of another row. -/
def writePrefix {α : Type} (row source : Nat → α) (n : Nat) : Nat → α := fun j =>
  if j < n then source j else row j

/-- `row[i], row[j] = row[j], row[i]`. -/
def swapAt {α : Type} (array : Nat → α) (i j : Nat) : Nat → α :=
  update (update array i (array j)) j (array i)

/-- `array[tgt] = array[src]`. -/
def copyTo {α : Type} (array : Nat → α) (src tgt : Nat) : Nat → α :=
  update array tgt (array src)

/-- `swap_dict_values`. -/
def swapDictValues {α : Type} (obj : Rows α) (key1 key2 : Nat) : Rows α :=
  update (update obj key2 (obj key1)) key1 (obj key2)

/-- The dict without a key and, when the key had a value, with it under another one. -/
def popInto {α : Type} (obj : Rows α) (src tgt : Nat) : Rows α :=
  match obj src with
  | some value => update (update obj src none) tgt (some value)
  | none => update obj src none

structure BlockTable where
  blocksPerKvBlock : Nat
  blockTable : Nat → Nat → Nat
  numBlocksPerRow : Nat → Nat

namespace BlockTable

def mapToKernelBlocks (kvManagerBlockIds : List Nat) (blocksPerKvBlock : Nat) : List Nat :=
  if blocksPerKvBlock = 1 then kvManagerBlockIds
  else kvManagerBlockIds.flatMap fun id =>
    (List.range blocksPerKvBlock).map fun k => id * blocksPerKvBlock + k

variable (t : BlockTable)

def appendRow (blockIds : List Nat) (rowIdx : Nat) : BlockTable :=
  if blockIds = [] then t
  else
    let blockIds := mapToKernelBlocks blockIds t.blocksPerKvBlock
    let start := t.numBlocksPerRow rowIdx
    { t with
      numBlocksPerRow := update t.numBlocksPerRow rowIdx (start + blockIds.length)
      blockTable := update t.blockTable rowIdx
        (writeAt (t.blockTable rowIdx) start blockIds) }

def addRow (blockIds : List Nat) (rowIdx : Nat) : BlockTable :=
  appendRow { t with numBlocksPerRow := update t.numBlocksPerRow rowIdx 0 } blockIds rowIdx

def clearRow (rowIdx : Nat) : BlockTable :=
  { t with
    blockTable := update t.blockTable rowIdx
      (writePrefix (t.blockTable rowIdx) (fun _ => 0) (t.numBlocksPerRow rowIdx))
    numBlocksPerRow := update t.numBlocksPerRow rowIdx 0 }

def moveRow (src tgt : Nat) : BlockTable :=
  let numBlocks := t.numBlocksPerRow src
  let blockTable := update t.blockTable tgt
    (writePrefix (t.blockTable tgt) (t.blockTable src) numBlocks)
  { t with
    blockTable := update blockTable src (writePrefix (blockTable src) (fun _ => 0) numBlocks)
    numBlocksPerRow := update (update t.numBlocksPerRow tgt numBlocks) src 0 }

def swapRow (src tgt : Nat) : BlockTable :=
  { t with
    numBlocksPerRow := swapAt t.numBlocksPerRow src tgt
    blockTable := swapAt t.blockTable src tgt }

def row (rowIdx : Nat) : List Nat :=
  (List.range (t.numBlocksPerRow rowIdx)).map (t.blockTable rowIdx)

end BlockTable

/-- The arrays of every model. -/
structure TokenArrays where
  tokenIds : Nat → Nat → Int
  isTokenIds : Nat → Nat → Bool
  reqPromptEmbeds : Rows (List Nat)
  numTokensNoSpec : Nat → Nat
  numPromptTokens : Nat → Nat
  numComputedTokens : Nat → Nat
  useReplayssm : Bool
  replayssmDecodeBase : Nat → Nat
  blockTable : List BlockTable
  requestLoraMapping : Nat → Nat

namespace TokenArrays

variable {F : Type}

/-- What `add_request` stores of a prompt's `is_token_ids`. -/
def promptMask (request : CachedRequestState F) (numPromptTokens : Nat) : List Bool :=
  match request.promptTokenIds with
  | some _ => request.promptIsTokenIds.getD (List.replicate numPromptTokens true)
  | none => List.replicate numPromptTokens false

variable (t : TokenArrays)

/-- What `add_request` stores for a prompt of `numPromptTokens`. -/
def store (heap : Heap) (reqIndex numPromptTokens : Nat)
    (request : CachedRequestState F) : TokenArrays :=
  let outputs := heap request.outputTokenIds
  { t with
    numPromptTokens := update t.numPromptTokens reqIndex numPromptTokens
    tokenIds := update t.tokenIds reqIndex
      (writeAt (writeAt (t.tokenIds reqIndex) 0 (request.promptTokenIds.getD []))
        numPromptTokens outputs)
    isTokenIds := update t.isTokenIds reqIndex
      (writeAt (writeAt (t.isTokenIds reqIndex) 0 (promptMask request numPromptTokens))
        numPromptTokens (List.replicate outputs.length true))
    reqPromptEmbeds :=
      if request.promptEmbeds.isSome then
        update t.reqPromptEmbeds reqIndex request.promptEmbeds
      else t.reqPromptEmbeds
    numTokensNoSpec :=
      update t.numTokensNoSpec reqIndex (numPromptTokens + outputs.length)
    replayssmDecodeBase :=
      if t.useReplayssm then
        update t.replayssmDecodeBase reqIndex (numPromptTokens + outputs.length)
      else t.replayssmDecodeBase
    numComputedTokens :=
      update t.numComputedTokens reqIndex request.numComputedTokens
    blockTable := List.zipWith (fun table ids => table.addRow ids reqIndex) t.blockTable
      request.blockIds
    requestLoraMapping :=
      update t.requestLoraMapping reqIndex (request.loraRequest.getD 0) }

/-- What `add_request` writes; `none` where it raises. -/
def write (heap : Heap) (maxModelLen reqIndex : Nat)
    (request : CachedRequestState F) : Option TokenArrays :=
  match lengthFromPromptTokenIdsOrEmbeds request.promptTokenIds request.promptEmbeds with
  | none => none
  | some numPromptTokens =>
    if maxModelLen < numPromptTokens + (heap request.outputTokenIds).length ∨
        (promptMask request numPromptTokens).length ≠ numPromptTokens ∨
        request.blockIds.length < t.blockTable.length then none
    else some (t.store heap reqIndex numPromptTokens request)

/-- What `update_req_spec_token_ids` writes; `none` where it raises. -/
def writeSpec (maxModelLen reqIndex : Nat) (specTokenIds : List Int) :
    Option TokenArrays :=
  if maxModelLen < t.numTokensNoSpec reqIndex + specTokenIds.length then none
  else some { t with
    tokenIds := update t.tokenIds reqIndex
      (writeAt (t.tokenIds reqIndex) (t.numTokensNoSpec reqIndex) specTokenIds)
    isTokenIds := update t.isTokenIds reqIndex
      (writeAt (t.isTokenIds reqIndex) (t.numTokensNoSpec reqIndex)
        (List.replicate specTokenIds.length true)) }

/-- What `remove_request` writes. -/
def free (reqIndex : Nat) : TokenArrays :=
  { t with
    blockTable := t.blockTable.map fun table => table.clearRow reqIndex
    reqPromptEmbeds := update t.reqPromptEmbeds reqIndex none
    requestLoraMapping := update t.requestLoraMapping reqIndex 0 }

/-- What a round of `condense` writes. -/
def slide (lastReqIndex emptyIndex numTokens : Nat) : TokenArrays :=
  { t with
    tokenIds := update t.tokenIds emptyIndex
      (writePrefix (t.tokenIds emptyIndex) (t.tokenIds lastReqIndex) numTokens)
    isTokenIds := update t.isTokenIds emptyIndex
      (writePrefix (t.isTokenIds emptyIndex) (t.isTokenIds lastReqIndex) numTokens)
    reqPromptEmbeds := popInto t.reqPromptEmbeds lastReqIndex emptyIndex
    numTokensNoSpec := copyTo t.numTokensNoSpec lastReqIndex emptyIndex
    numPromptTokens := copyTo t.numPromptTokens lastReqIndex emptyIndex
    replayssmDecodeBase :=
      if t.useReplayssm then copyTo t.replayssmDecodeBase lastReqIndex emptyIndex
      else t.replayssmDecodeBase
    numComputedTokens := copyTo t.numComputedTokens lastReqIndex emptyIndex
    blockTable := t.blockTable.map fun table => table.moveRow lastReqIndex emptyIndex
    requestLoraMapping := copyTo t.requestLoraMapping lastReqIndex emptyIndex }

/-- What `swap_states` writes. -/
def swap (i1 i2 maxActiveTokenCount : Nat) : TokenArrays :=
  { t with
    numTokensNoSpec := swapAt t.numTokensNoSpec i1 i2
    numPromptTokens := swapAt t.numPromptTokens i1 i2
    replayssmDecodeBase :=
      if t.useReplayssm then swapAt t.replayssmDecodeBase i1 i2 else t.replayssmDecodeBase
    numComputedTokens := swapAt t.numComputedTokens i1 i2
    tokenIds :=
      let tmpTokenIds := t.tokenIds i1
      let moved := update t.tokenIds i1
        (writePrefix (t.tokenIds i1) (t.tokenIds i2) maxActiveTokenCount)
      update moved i2 (writePrefix (moved i2) tmpTokenIds maxActiveTokenCount)
    isTokenIds :=
      let moved := update t.isTokenIds i1
        (writePrefix (t.isTokenIds i1) (t.isTokenIds i2) maxActiveTokenCount)
      update moved i2 (writePrefix (moved i2) (t.isTokenIds i1) maxActiveTokenCount)
    reqPromptEmbeds := swapDictValues t.reqPromptEmbeds i1 i2
    blockTable := t.blockTable.map fun table => table.swapRow i1 i2
    requestLoraMapping := swapAt t.requestLoraMapping i1 i2 }

end TokenArrays

/-- The arrays that pooling models neither fill nor move. -/
structure SamplingArrays (S : Type) where
  temperature : Nat → S
  topP : Nat → S
  topK : Nat → Int
  frequencyPenalties : Nat → S
  presencePenalties : Nat → S
  repetitionPenalties : Nat → S
  numAcceptedTokens : Nat → Nat
  generators : Rows Nat
  badWordsTokenIds : Rows (List (List Int))
  /-- `True` at a token that is not allowed; allocated for the first request with
  allowed token ids. -/
  allowedTokenIdsMask : Option (Nat → Nat → Bool)

namespace SamplingArrays

variable {F S : Type} [Zero S] (s : SamplingArrays S)

/-- What `add_request` writes for a request with sampling parameters. `float32` is
the conversion of a Python float that a float32 array stores. -/
def write (float32 : F → S) (vocabSize reqIndex : Nat)
    (generator : Option Nat) (params : SamplingParams F) : SamplingArrays S :=
  { s with
    temperature := update s.temperature reqIndex
      (if params.samplingType = .greedy then 0 else float32 params.temperature)
    topP := update s.topP reqIndex (float32 params.topP)
    topK := update s.topK reqIndex
      (if 0 < params.topK ∧ params.topK < vocabSize then params.topK else vocabSize)
    frequencyPenalties :=
      update s.frequencyPenalties reqIndex (float32 params.frequencyPenalty)
    presencePenalties :=
      update s.presencePenalties reqIndex (float32 params.presencePenalty)
    repetitionPenalties :=
      update s.repetitionPenalties reqIndex (float32 params.repetitionPenalty)
    generators :=
      if generator.isSome then update s.generators reqIndex generator else s.generators
    allowedTokenIdsMask :=
      match params.allowedTokenIds with
      | none => s.allowedTokenIdsMask
      | some [] => s.allowedTokenIdsMask
      | some (id :: ids) =>
        some (update (s.allowedTokenIdsMask.getD fun _ _ => false) reqIndex
          fun token => decide (token ∉ id :: ids))
    badWordsTokenIds :=
      match params.badWordsTokenIds with
      | none => s.badWordsTokenIds
      | some [] => s.badWordsTokenIds
      | some (words :: rest) =>
        update s.badWordsTokenIds reqIndex (some (words :: rest)) }

/-- What `remove_request` writes. -/
def free (reqIndex : Nat) : SamplingArrays S :=
  { s with
    generators := update s.generators reqIndex none
    allowedTokenIdsMask := s.allowedTokenIdsMask.map fun mask =>
      update mask reqIndex fun _ => false
    badWordsTokenIds := update s.badWordsTokenIds reqIndex none }

/-- What a round of `condense` writes. -/
def slide (lastReqIndex emptyIndex : Nat) : SamplingArrays S where
  temperature := copyTo s.temperature lastReqIndex emptyIndex
  topP := copyTo s.topP lastReqIndex emptyIndex
  topK := copyTo s.topK lastReqIndex emptyIndex
  frequencyPenalties := copyTo s.frequencyPenalties lastReqIndex emptyIndex
  presencePenalties := copyTo s.presencePenalties lastReqIndex emptyIndex
  repetitionPenalties := copyTo s.repetitionPenalties lastReqIndex emptyIndex
  numAcceptedTokens := copyTo s.numAcceptedTokens lastReqIndex emptyIndex
  generators := popInto s.generators lastReqIndex emptyIndex
  allowedTokenIdsMask := s.allowedTokenIdsMask.map fun mask =>
    update (copyTo mask lastReqIndex emptyIndex) lastReqIndex fun _ => false
  badWordsTokenIds := popInto s.badWordsTokenIds lastReqIndex emptyIndex

/-- What `swap_states` writes. -/
def swap (i1 i2 : Nat) : SamplingArrays S where
  temperature := swapAt s.temperature i1 i2
  topP := swapAt s.topP i1 i2
  topK := swapAt s.topK i1 i2
  frequencyPenalties := swapAt s.frequencyPenalties i1 i2
  presencePenalties := swapAt s.presencePenalties i1 i2
  repetitionPenalties := swapAt s.repetitionPenalties i1 i2
  numAcceptedTokens := swapAt s.numAcceptedTokens i1 i2
  generators := swapDictValues s.generators i1 i2
  badWordsTokenIds := swapDictValues s.badWordsTokenIds i1 i2
  allowedTokenIdsMask := s.allowedTokenIdsMask.map fun mask => swapAt mask i1 i2

end SamplingArrays

end VllmAmpere.PersistentBatch
