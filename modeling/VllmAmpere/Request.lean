import VllmAmpere.Python

/-! Requests: their tokens, their multimodal features and the block hashes kept
with them. -/

namespace VllmAmpere

abbrev Bytes := List UInt8

/-- The hash of one block of tokens and, through its parent, of the prefix before it. -/
abbrev BlockHash := Bytes

/-- Where a multimodal item sits in the prompt. Items without placeholder tokens
are dropped before a request is built, hence `length_pos`. -/
structure PlaceholderRange where
  offset : Nat
  length : Nat
  length_pos : 0 < length
  deriving DecidableEq, Repr

structure MultiModalFeatureSpec where
  identifier : String
  mmPosition : PlaceholderRange
  deriving DecidableEq, Repr

/-- The end of a feature, `mm_position.offset + mm_position.length`. -/
def MultiModalFeatureSpec.stop (f : MultiModalFeatureSpec) : Nat :=
  f.mmPosition.offset + f.mmPosition.length

structure LoRARequest where
  loraName : String
  loraIntId : Nat
  loraPath : String
  deriving DecidableEq, Repr

inductive RequestStatus
  | waiting
  | waitingForStructuredOutputGrammar
  | waitingForRemoteKvs
  | waitingForStreamingReq
  | running
  | preempted
  | finishedStopped
  | finishedLengthCapped
  | finishedAborted
  | finishedIgnored
  | finishedError
  | finishedRepetition
  deriving DecidableEq, Repr

theorem noFeatures_sorted : (([] : List MultiModalFeatureSpec).map
    MultiModalFeatureSpec.mmPosition).Pairwise fun p q => p.offset ≤ q.offset :=
  .nil

/-- A request. `mmSorted` is the order the input processor puts the features in;
an empty cache salt is rejected at the entry points. -/
structure Request where
  requestId : String
  allTokenIds : List Nat
  mmFeatures : List MultiModalFeatureSpec
  mmSorted : (mmFeatures.map MultiModalFeatureSpec.mmPosition).Pairwise
    fun p q => p.offset ≤ q.offset
  loraRequest : Option LoRARequest
  cacheSalt : Option {s : String // s ≠ ""}
  promptEmbeds : Option (List Bytes)
  sessionId : Option String
  blockHashes : List BlockHash
  numPromptTokens : Nat := allTokenIds.length
  /-- `shared_prefix_boundary`, 0 where none was found. -/
  sharedPrefixBoundary : Nat := 0
  numComputedTokens : Nat := 0
  /-- `num_in_flight_tokens`, of the steps not yet processed. -/
  numInFlightTokens : Nat := 0
  status : RequestStatus := .waiting

def Request.numTokens (request : Request) : Nat := request.allTokenIds.length

/-- The placeholders of a request, without what they hold. -/
def Request.layout (request : Request) : List PlaceholderRange :=
  request.mmFeatures.map MultiModalFeatureSpec.mmPosition

theorem MultiModalFeatureSpec.lt_stop (f : MultiModalFeatureSpec) : f.mmPosition.offset < f.stop :=
  Nat.lt_add_of_pos_right f.mmPosition.length_pos

end VllmAmpere
