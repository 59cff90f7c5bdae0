import VllmAmpere.BatchRows
import VllmAmpere.PyDict

/-! `InputBatch`: the rows of the persistent batch, as a model runner's
`_update_states` removes, adds, condenses and reorders its requests. -/

namespace VllmAmpere.PersistentBatch

/-- What is fixed when the batch is made. `float32` is the conversion of a Python
float that a float32 array stores. -/
structure BatchConfig (F S : Type) where
  maxNumReqs : Nat
  maxModelLen : Nat
  vocabSize : Nat
  isPoolingModel : Bool
  useReplayssm : Bool
  /-- Kernel blocks to a KV block, for each KV cache group. -/
  blocksPerKvBlock : List Nat
  float32 : F → S

structure InputBatch (F S : Type) where
  reqIds : List (Option ReqId)
  reqIdToIndex : PyDict ReqId Nat
  tokens : TokenArrays
  sampling : SamplingArrays S
  reqOutputTokenIds : List (Option ListRef)
  specTokenIds : List (List Int)
  batchUpdateBuilder : BatchUpdateBuilder (SamplingParams F)

namespace InputBatch

variable {F S : Type}

def init [Zero S] (config : BatchConfig F S) : InputBatch F S where
  reqIds := []
  reqIdToIndex := PyDict.empty
  tokens := {
    tokenIds := fun _ _ => 0
    isTokenIds := fun _ _ => false
    reqPromptEmbeds := fun _ => none
    numTokensNoSpec := fun _ => 0
    numPromptTokens := fun _ => 0
    numComputedTokens := fun _ => 0
    useReplayssm := config.useReplayssm
    replayssmDecodeBase := fun _ => 0
    blockTable := config.blocksPerKvBlock.map fun k => ⟨k, fun _ _ => 0, fun _ => 0⟩
    requestLoraMapping := fun _ => 0 }
  sampling := {
    temperature := fun _ => 0
    topP := fun _ => 0
    topK := fun _ => 0
    frequencyPenalties := fun _ => 0
    presencePenalties := fun _ => 0
    repetitionPenalties := fun _ => 0
    numAcceptedTokens := fun _ => 1
    generators := fun _ => none
    badWordsTokenIds := fun _ => none
    allowedTokenIdsMask := none }
  reqOutputTokenIds := []
  specTokenIds := List.replicate config.maxNumReqs []
  batchUpdateBuilder := {}

def numReqs (b : InputBatch F S) : Nat := b.reqIdToIndex.len

def spec (b : InputBatch F S) (reqIndex : Nat) : List Int := b.specTokenIds.getD reqIndex []

def getActiveTokenCount (b : InputBatch F S) (reqIndex : Nat) : Nat :=
  b.tokens.numTokensNoSpec reqIndex + (b.spec reqIndex).length

/-- `none` where the batch is full. -/
def registerAddRequest (config : BatchConfig F S) (b : InputBatch F S)
    (request : CachedRequestState F) : Option (Nat × InputBatch F S) :=
  let (popped, builder) := b.batchUpdateBuilder.popRemoved
  let newReqIndex := popped.getD b.numReqs
  if newReqIndex < config.maxNumReqs then
    some (newReqIndex, { b with batchUpdateBuilder := { builder with
      batchChanged := true
      added := match request.samplingParams with
        | some params => builder.added ++
          [⟨newReqIndex, params, request.promptTokenIds, request.outputTokenIds⟩]
        | none => builder.added } })
  else none

def placeRequest (b : InputBatch F S) (reqIndex : Nat) (request : CachedRequestState F) :
    Option (InputBatch F S) :=
  let b := { b with reqIdToIndex := b.reqIdToIndex.set request.reqId reqIndex }
  if reqIndex = b.reqIds.length then
    some { b with
      reqIds := b.reqIds ++ [some request.reqId]
      reqOutputTokenIds := b.reqOutputTokenIds ++ [some request.outputTokenIds]
      specTokenIds := b.specTokenIds ++ [[]] }
  else if reqIndex < b.reqIds.length then
    some { b with
      reqIds := b.reqIds.set reqIndex (some request.reqId)
      reqOutputTokenIds := b.reqOutputTokenIds.set reqIndex (some request.outputTokenIds)
      specTokenIds := b.specTokenIds.set reqIndex [] }
  else none

/-- The sampling parameters in the arrays; `none` for a request of neither kind. -/
def writeSampling [Zero S] (config : BatchConfig F S) (s : SamplingArrays S) (reqIndex : Nat)
    (request : CachedRequestState F) : Option (SamplingArrays S) :=
  match request.samplingParams with
  | some params =>
    some (s.write config.float32 config.vocabSize reqIndex request.generator params)
  | none => if request.poolingParams then some s else none

def acceptOne (s : SamplingArrays S) (reqIndex : Nat) : SamplingArrays S :=
  { s with numAcceptedTokens := Function.update s.numAcceptedTokens reqIndex 1 }

def addRequest [Zero S] (config : BatchConfig F S) (b : InputBatch F S) (heap : Heap)
    (request : CachedRequestState F) : Option (InputBatch F S) := do
  let (reqIndex, b) ← b.registerAddRequest config request
  let b ← b.placeRequest reqIndex request
  let tokens ← b.tokens.write heap config.maxModelLen reqIndex request
  let sampling ← writeSampling config b.sampling reqIndex request
  some { b with tokens, sampling := acceptOne sampling reqIndex }

/-- `spec_token_ids` are the drafts scheduled for the request. -/
def updateReqSpecTokenIds (config : BatchConfig F S) (b : InputBatch F S) (reqId : ReqId)
    (specTokenIds : List Int) : Option (InputBatch F S) :=
  match b.reqIdToIndex.get? reqId with
  | none => none
  | some reqIndex =>
    if specTokenIds = [] then some { b with specTokenIds := b.specTokenIds.set reqIndex [] }
    else
      match b.tokens.writeSpec config.maxModelLen reqIndex specTokenIds with
      | none => none
      | some tokens =>
        some { b with tokens, specTokenIds := b.specTokenIds.set reqIndex specTokenIds }

def removeRequest (config : BatchConfig F S) (b : InputBatch F S) (reqId : ReqId) :
    Option (InputBatch F S) :=
  match b.reqIdToIndex.get? reqId with
  | none => some b
  | some reqIndex =>
    match b.batchUpdateBuilder.removedAppend reqIndex with
    | none => none
    | some batchUpdateBuilder =>
      some { b with
        reqIdToIndex := b.reqIdToIndex.pop reqId
        batchUpdateBuilder
        reqIds := b.reqIds.set reqIndex none
        reqOutputTokenIds := b.reqOutputTokenIds.set reqIndex none
        specTokenIds := b.specTokenIds.set reqIndex []
        tokens := b.tokens.free reqIndex
        sampling := if config.isPoolingModel then b.sampling else b.sampling.free reqIndex }

def recordMove (u : BatchUpdateBuilder (SamplingParams F)) (i1 i2 : Nat)
    (direct : MoveDirectionality) : BatchUpdateBuilder (SamplingParams F) :=
  { u with moved := u.moved ++ [⟨i1, i2, direct⟩] }

def swapRows (config : BatchConfig F S) (b : InputBatch F S) (i1 i2 : Nat) : InputBatch F S :=
  { b with
    reqIds := (b.reqIds.set i1 (b.reqIds.getD i2 none)).set i2 (b.reqIds.getD i1 none)
    reqOutputTokenIds := (b.reqOutputTokenIds.set i1 (b.reqOutputTokenIds.getD i2 none)).set i2
      (b.reqOutputTokenIds.getD i1 none)
    specTokenIds := (b.specTokenIds.set i1 (b.spec i2)).set i2 (b.spec i1)
    tokens := b.tokens.swap i1 i2 (max (b.getActiveTokenCount i1) (b.getActiveTokenCount i2))
    sampling := if config.isPoolingModel then b.sampling else b.sampling.swap i1 i2
    batchUpdateBuilder :=
      if config.isPoolingModel then b.batchUpdateBuilder
      else recordMove b.batchUpdateBuilder i1 i2 .swap }

/-- `none` where a row is empty or behind the last one. -/
def swapStates (config : BatchConfig F S) (b : InputBatch F S) (i1 i2 : Nat) :
    Option (InputBatch F S) :=
  match b.reqIds.getD i1 none, b.reqIds.getD i2 none with
  | some oldId1, some oldId2 =>
    match b.reqIdToIndex.get? oldId1, b.reqIdToIndex.get? oldId2 with
    | some index1, some index2 =>
      some { b.swapRows config i1 i2 with
        reqIdToIndex := (b.reqIdToIndex.set oldId1 index2).set oldId2 index1 }
    | _, _ => none
  | _, _ => none

def findNonEmpty (emptyReqIndices : List Nat) : Nat → Option Nat
  | 0 => if 0 ∈ emptyReqIndices then none else some 0
  | n + 1 => if n + 1 ∈ emptyReqIndices then findNonEmpty emptyReqIndices n else some (n + 1)

/-- The request of the last row slides into the lowest empty one. -/
def slideRow (config : BatchConfig F S) (b : InputBatch F S) (lastReqIndex emptyIndex : Nat) :
    Option (InputBatch F S) :=
  match b.reqIds.getD lastReqIndex none with
  | some reqId =>
    let builder := b.batchUpdateBuilder.popRemoved.2
    some {
      batchUpdateBuilder :=
        if config.isPoolingModel then builder
        else recordMove builder lastReqIndex emptyIndex .unidirectional
      reqIds := (b.reqIds.set emptyIndex (some reqId)).set lastReqIndex none
      reqOutputTokenIds :=
        (b.reqOutputTokenIds.set emptyIndex (b.reqOutputTokenIds.getD lastReqIndex none)).set
          lastReqIndex none
      reqIdToIndex := b.reqIdToIndex.set reqId emptyIndex
      specTokenIds := (b.specTokenIds.set emptyIndex (b.spec lastReqIndex)).set lastReqIndex []
      tokens := b.tokens.slide lastReqIndex emptyIndex (b.getActiveTokenCount lastReqIndex)
      sampling :=
        if config.isPoolingModel then b.sampling else b.sampling.slide lastReqIndex emptyIndex }
  | none => none

/-- The rounds of `condense`, one for each empty row at most. -/
def condenseLoop (config : BatchConfig F S) : Nat → InputBatch F S → Nat → Option (InputBatch F S)
  | 0, b, _ => some b
  | n + 1, b, lastReqIndex =>
    match findNonEmpty b.batchUpdateBuilder.removed.1 lastReqIndex with
    | none => some b
    | some lastReqIndex =>
      match b.batchUpdateBuilder.peekRemoved.1 with
      | none => none
      | some emptyIndex =>
        if lastReqIndex ≤ emptyIndex then some b
        else
          match b.slideRow config lastReqIndex emptyIndex with
          | none => none
          | some b => condenseLoop config n b (lastReqIndex - 1)

def trim (b : InputBatch F S) (numReqs : Nat) : InputBatch F S :=
  { b with
    reqIds := b.reqIds.take numReqs
    reqOutputTokenIds := b.reqOutputTokenIds.take numReqs
    specTokenIds := b.specTokenIds.take numReqs }

def condense (config : BatchConfig F S) (b : InputBatch F S) : Option (InputBatch F S) :=
  let numReqs := b.numReqs
  let (emptyReqIndices, batchUpdateBuilder) := b.batchUpdateBuilder.removed
  let b := { b with batchUpdateBuilder }
  if emptyReqIndices = [] then some b
  else if numReqs = 0 then
    some { b with reqIds := [], reqOutputTokenIds := [], specTokenIds := [] }
  else
    (condenseLoop config emptyReqIndices.length b (numReqs + emptyReqIndices.length - 1)).map
      fun b => b.trim numReqs

/-- The update for the logits processors; pooling models have none. -/
def refreshMetadata (config : BatchConfig F S) (b : InputBatch F S) :
    Option (BatchUpdate (SamplingParams F)) × InputBatch F S :=
  if config.isPoolingModel then
    (none, { b with batchUpdateBuilder := b.batchUpdateBuilder.reset.2 })
  else
    let (batchUpdate, batchUpdateBuilder) := b.batchUpdateBuilder.getAndReset b.numReqs
    (batchUpdate, { b with batchUpdateBuilder })

end InputBatch

end VllmAmpere.PersistentBatch
