import Mathlib.Algebra.Order.Ring.Rat
import Mathlib.Data.Prod.Lex
import Mathlib.Data.String.Basic
import VllmAmpere.Request

/-! A request as the scheduler sees it: its tokens, its counters, the checks that
stop it and the next chunk of a streaming session. -/

namespace VllmAmpere

/-- `is_finished`: everything after `PREEMPTED`. -/
def RequestStatus.isFinished : RequestStatus → Bool
  | .waiting | .waitingForStructuredOutputGrammar | .waitingForRemoteKvs
  | .waitingForStreamingReq | .running | .preempted => false
  | _ => true

namespace Sched

structure RepetitionDetectionParams where
  maxPatternSize : Int
  minPatternSize : Int
  minCount : Int
  deriving DecidableEq, Repr

structure SamplingParams where
  eosTokenId : Option Int := none
  stopTokenIds : List Int := []
  minTokens : Nat := 0
  repetitionDetection : Option RepetitionDetectionParams := none
  deriving DecidableEq, Repr

/-- A multimodal input with the mask of its embeddings. -/
structure MultiModalFeature extends MultiModalFeatureSpec where
  isEmbed : Option (List Bool) := none
  deriving DecidableEq, Repr

namespace MultiModalFeature

/-- `embeds_cumsum[i - 1]`, 0 for no position. -/
def embedsBefore (mask : List Bool) (i : Nat) : Nat := (mask.take i).count true

def getNumEmbeds (f : MultiModalFeature) : Nat :=
  match f.isEmbed with
  | none => f.mmPosition.length
  | some mask => embedsBefore mask mask.length

def getEmbedsIndicesInRange (f : MultiModalFeature) (startIdx endIdx : Nat) : Nat × Nat :=
  match f.isEmbed with
  | none => (startIdx, endIdx)
  | some mask => (embedsBefore mask startIdx, embedsBefore mask endIdx)

/-- The feature of a later chunk, behind `base` tokens. -/
def shift (base : Nat) (f : MultiModalFeature) : MultiModalFeature :=
  { f with mmPosition := { f.mmPosition with offset := f.mmPosition.offset + base } }

end MultiModalFeature

/-- The next chunk of a streaming session. -/
structure StreamingUpdate where
  mmFeatures : List MultiModalFeature := []
  promptTokenIds : Option (List Int)
  maxTokens : Nat
  arrivalTime : ℚ
  samplingParams : Option SamplingParams
  deriving DecidableEq, Repr

inductive StopReason
  | token (id : Int)
  | repetitionDetected
  deriving DecidableEq, Repr

structure Request where
  requestId : String
  priority : Int := 0
  arrivalTime : ℚ := 0
  status : RequestStatus := .waiting
  stopReason : Option StopReason := none
  samplingParams : Option SamplingParams := some {}
  /-- Whether the request has pooling parameters. -/
  pooling : Bool := false
  maxTokens : Nat := 16
  loraIntId : Option Nat := none
  useStructuredOutput : Bool := false
  skipReadingPrefixCache : Bool := false
  promptTokenIds : Option (List Int) := some []
  allTokenIds : List Int := []
  outputTokenIds : List Int := []
  numPromptTokens : Nat := 0
  mmFeatures : List MultiModalFeature := []
  specTokenIds : List Int := []
  numComputedTokens : Int := 0
  numOutputPlaceholders : Int := 0
  numInFlightTokens : Int := 0
  numStaleOutputTokens : Int := 0
  dropStaleOutput : Bool := false
  nextDecodeEligibleStep : Nat := 0
  lastSchedSeq : Nat := 0
  isPrefillChunk : Bool := false
  sharedPrefixBoundary : Nat := 0
  replayStart : Int := 0
  numPreemptions : Nat := 0
  /-- Whether `prefill_stats` is still there to be filled. -/
  prefillStats : Bool := true
  resumable : Bool := false
  streamingQueue : Option (List (Option StreamingUpdate)) := none
  deriving DecidableEq, Repr

namespace Request

def new (requestId : String) (promptTokenIds : List Int) (maxTokens : Nat) : Request :=
  { requestId := requestId, promptTokenIds := some promptTokenIds, allTokenIds := promptTokenIds,
    numPromptTokens := promptTokenIds.length, maxTokens := maxTokens }

variable (r : Request)

def numTokens : Nat := r.allTokenIds.length

def numTokensWithSpec : Nat := r.allTokenIds.length + r.specTokenIds.length

def numOutputTokens : Nat := r.outputTokenIds.length

def hasEncoderInputs : Bool := !r.mmFeatures.isEmpty

def isFinished (r : Request) : Bool := r.status.isFinished

/-- What `__lt__` compares; its last resort, the address, tells no two queued
requests apart as these have different ids. -/
def orderKey : Int ×ₗ ℚ ×ₗ String :=
  toLex (r.priority, toLex (r.arrivalTime, r.requestId))

def appendOutputTokenId (tokenId : Int) : Request :=
  { r with outputTokenIds := r.outputTokenIds ++ [tokenId],
           allTokenIds := r.allTokenIds ++ [tokenId] }

end Request

/-- `StreamingUpdate.from_request`. -/
def StreamingUpdate.fromRequest (r : Request) : Option StreamingUpdate :=
  if r.resumable then
    some { mmFeatures := r.mmFeatures, promptTokenIds := r.promptTokenIds,
           maxTokens := r.maxTokens, arrivalTime := r.arrivalTime,
           samplingParams := r.samplingParams }
  else none

/-- `_has_repeating_pattern`, on the tokens from last to first. -/
def hasRepeatingPattern (lastFirst : List Int) (patternLen repetitionMinCount : Nat) : Bool :=
  (List.range patternLen).all fun n =>
    (List.range (repetitionMinCount - 1)).all fun m =>
      lastFirst[patternLen * (m + 1) + n]? = lastFirst[n]?

/-- The loop of `check_sequence_repetition` over the pattern lengths. -/
def repetitionLoop (lastFirst : List Int) (minCount : Nat) : List Nat → Bool
  | [] => false
  | patternLen :: rest =>
    if patternLen * minCount > lastFirst.length then false
    else if hasRepeatingPattern lastFirst patternLen minCount then true
    else repetitionLoop lastFirst minCount rest

def checkSequenceRepetition (tokenIds : List Int) (params : RepetitionDetectionParams) : Bool :=
  let minPatternSize := if params.minPatternSize ≤ 0 then 1 else params.minPatternSize
  if params.maxPatternSize ≤ 0 ∨ params.minCount < 2 ∨ minPatternSize > params.maxPatternSize then
    false
  else
    repetitionLoop tokenIds.reverse params.minCount.toNat
      (List.range' minPatternSize.toNat (params.maxPatternSize - minPatternSize + 1).toNat)

/-- `check_stop`: whether the last output token stops the request, and the request
with its new status. -/
def checkStop (r : Request) (maxModelLen : Nat) : Except PyError (Bool × Request) := do
  pyAssert (r.pooling = false) "not request.pooling_params"
  match r.samplingParams, r.outputTokenIds.getLast? with
  | none, _ => .error (.assertion "sampling_params is not None")
  | some _, none => .error .index
  | some params, some lastTokenId =>
    if some lastTokenId = params.eosTokenId then
      .ok (true, { r with status := .finishedStopped })
    else if lastTokenId ∈ params.stopTokenIds then
      .ok (true, { r with status := .finishedStopped, stopReason := some (.token lastTokenId) })
    else if r.numTokens ≥ maxModelLen ∨ r.numOutputTokens ≥ r.maxTokens then
      .ok (true, { r with status := .finishedLengthCapped })
    else if r.numOutputTokens < params.minTokens then .ok (false, r)
    else match params.repetitionDetection with
      | none => .ok (false, r)
      | some detection =>
        if checkSequenceRepetition r.outputTokenIds detection then
          .ok (true, { r with status := .finishedRepetition,
                              stopReason := some .repetitionDetected })
        else .ok (false, r)

/-- The loop of `_update_request_with_output`: the request, the tokens it keeps and
whether it stopped. -/
def appendOutput (maxModelLen : Nat) : Request → List Int →
    Except PyError (Request × List Int × Bool)
  | r, [] => .ok (r, [], false)
  | r, outputTokenId :: rest => do
    let (stopped, r) ← checkStop (r.appendOutputTokenId outputTokenId) maxModelLen
    if stopped then .ok (r, [outputTokenId], true)
    else
      let (r, kept, stopped) ← appendOutput maxModelLen r rest
      .ok (r, outputTokenId :: kept, stopped)

/-- `_update_request_as_session` on the request itself: the last sampled token is
dropped and the next chunk joins the prompt. -/
def Request.updateAsSession (session : Request) (update : StreamingUpdate) :
    Except PyError Request :=
  match session.promptTokenIds with
  | none => .error (.assertion "session.prompt_token_ids is not None")
  | some promptTokenIds =>
    let numComputedTokens := session.numComputedTokens.toNat
    let keptOutputTokens := slice session.allTokenIds session.numPromptTokens numComputedTokens
    let allTokenIds := session.allTokenIds.take numComputedTokens
    let newTokens := update.promptTokenIds.getD []
    let promptTokenIds := promptTokenIds ++ keptOutputTokens ++ newTokens
    .ok { session with
      mmFeatures := session.mmFeatures ++
        update.mmFeatures.map (MultiModalFeature.shift allTokenIds.length)
      allTokenIds := allTokenIds ++ newTokens
      outputTokenIds := []
      promptTokenIds := some promptTokenIds
      numPromptTokens := promptTokenIds.length
      arrivalTime := update.arrivalTime
      samplingParams := update.samplingParams
      maxTokens := update.maxTokens
      status := .waiting }

end Sched

end VllmAmpere
