import Mathlib.Data.List.MinMax
import VllmAmpere.DecodeStream

/-! The stream of decoded text events of one request: every engine output's tokens are pushed
into the decoder one by one, a stop string ends the request where it first completes, and the
text that may still be cut is held back. -/

namespace VllmAmpere.TextStream

structure TextDecodeOptions where
  skipSpecialTokens : Bool := true
  includeStopStrInOutput : Bool := false
  stopStrings : Option (List Bytes) := none
  minTokens : Nat := 0

section stopSearch

/-- `windows(len).position(|w| w == ss)`. -/
def windowPosition (text ss : Bytes) : Option Nat :=
  (List.range (text.length + 1 - ss.length)).find? fun i => (text.drop i).take ss.length == ss

/-- A stop string's first occurrence in its window: its index, where it starts and ends. -/
def stopCandidate (output : Bytes) (nextOff : Nat) (stop : Bytes × Nat) :
    Option (Nat × Nat × Nat) :=
  let (ss, ssIdx) := stop
  let startOff := nextOff - ss.length
  if ss.length = 0 then none
  else
    (windowPosition (output.drop startOff) ss).map fun pos =>
      (ssIdx, startOff + pos, startOff + pos + ss.length)

/-- The stop string that completes first, and where it starts. -/
def matchesStopString (stops : List Bytes) (output : Bytes) (newBytes : Nat) : Option (Nat × Nat) :=
  let nextOff := output.length + 1 - newBytes
  ((stops.zipIdx.filterMap (stopCandidate output nextOff)).argmin fun c => c.2.2).map fun c =>
    (c.1, c.2.1)

variable {stops : List Bytes} {output text ss : Bytes} {newBytes nextOff i idx off : Nat}

theorem windowPosition_bound (h : windowPosition text ss = some i) :
    i < text.length + 1 - ss.length :=
  List.mem_range.mp (List.mem_of_find?_eq_some h)

theorem stopCandidate_bound {c : Nat × Nat × Nat}
    (h : stopCandidate output nextOff (ss, i) = some c) (first : nextOff ≤ output.length + 1) :
    c.1 = i ∧ c.2.2 = c.2.1 + ss.length ∧ 0 < ss.length ∧ nextOff ≤ c.2.2 ∧
    c.2.2 ≤ output.length := by
  dsimp only [stopCandidate] at h
  by_cases empty : ss.length = 0
  · rw [if_pos empty] at h
    cases h
  · rw [if_neg empty] at h
    have ⟨pos, found, equal⟩ := Option.map_eq_some_iff.mp h
    have bound := windowPosition_bound found
    rw [List.length_drop] at bound
    subst equal
    refine ⟨rfl, rfl, ?_, ?_, ?_⟩
    · omega
    · dsimp only
      omega
    · dsimp only
      omega

theorem matchesStopString_bound (h : matchesStopString stops output newBytes = some (idx, off))
    (new : newBytes ≤ output.length) :
    ∃ ss, stops[idx]? = some ss ∧ output.length - newBytes < off + ss.length ∧
    off + ss.length ≤ output.length := by
  have ⟨c, least, equal⟩ := Option.map_eq_some_iff.mp h
  have ⟨⟨ss, i⟩, listed, candidate⟩ := List.mem_filterMap.mp (List.argmin_mem least)
  have ⟨index, ends, _, after, inside⟩ := stopCandidate_bound candidate (by omega)
  cases equal
  refine ⟨ss, ?_, ?_, ?_⟩
  · rw [index]
    exact List.mem_zipIdx_iff_getElem?.mp listed
  · omega
  · omega

end stopSearch

section logprobs

/-- `logprob` holds the bits of an `f32`, which is only carried. -/
structure TokenLogprob where
  tokenId : UInt32
  logprob : UInt32
  rank : UInt32

structure PositionLogprobs where
  entries : List TokenLogprob

structure Logprobs where
  positions : List PositionLogprobs

structure DecodedTokenLogprob where
  tokenId : UInt32
  token : Bytes
  logprob : UInt32
  rank : UInt32
  deriving DecidableEq

structure DecodedPositionLogprobs where
  entries : List DecodedTokenLogprob
  deriving DecidableEq

structure DecodedLogprobs where
  positions : List DecodedPositionLogprobs
  deriving DecidableEq

structure DecodedPromptLogprobs where
  firstTokenId : UInt32
  firstToken : Bytes
  scoredPositions : List DecodedPositionLogprobs
  deriving DecidableEq

variable (tokenizer : Tokenizer) (skipSpecialTokens : Bool)

def decodePositionLogprobs (position : PositionLogprobs) : Except Error DecodedPositionLogprobs := do
  let entries ← position.entries.mapM fun entry =>
    (tokenizer.decode [entry.tokenId] skipSpecialTokens).map fun token =>
      { tokenId := entry.tokenId, token, logprob := entry.logprob, rank := entry.rank }
  return ⟨entries⟩

def decodeLogprobs (logprobs : Logprobs) : Except Error DecodedLogprobs := do
  let positions ← logprobs.positions.mapM (decodePositionLogprobs tokenizer skipSpecialTokens)
  return ⟨positions⟩

def decodePromptLogprobs (promptTokenIds : List UInt32) (logprobs : Logprobs) :
    Except Error DecodedPromptLogprobs := do
  match promptTokenIds with
  | [] => throw (.panicked "prompt logprobs require at least one prompt token")
  | firstTokenId :: _ =>
      let firstToken ← tokenizer.decode [firstTokenId] skipSpecialTokens
      let scoredPositions ←
        logprobs.positions.mapM (decodePositionLogprobs tokenizer skipSpecialTokens)
      return { firstTokenId, firstToken, scoredPositions }

end logprobs

structure SamplingMask where
  rows : List (List UInt32)
  deriving DecidableEq

inductive StopReason where
  | tokenId (id : UInt32)
  | text (stop : Bytes)
  deriving DecidableEq

inductive FinishReason where
  | stop (reason : Option StopReason)
  | length
  | abort
  | error
  | repetition (reason : Option StopReason)
  deriving DecidableEq

def FinishReason.isStop : FinishReason → Bool
  | stop _ => true
  | _ => false

structure GeneratePromptInfo where
  promptTokenIds : List UInt32
  promptLogprobs : Option Logprobs := none

/-- One engine output; the transfer parameters are JSON texts that are only carried. -/
structure GenerateOutput where
  promptInfo : Option GeneratePromptInfo := none
  tokenIds : List UInt32
  logprobs : Option Logprobs := none
  finishReason : Option FinishReason := none
  cachedTokenCount : Nat := 0
  kvTransferParams : Option String := none
  ecTransferParams : Option String := none
  samplingMask : Option SamplingMask := none

structure TokenUsage where
  promptTokenCount : Nat
  outputTokenCount : Nat
  cachedTokenCount : Nat
  deriving DecidableEq

structure Finished where
  usage : TokenUsage
  finishReason : FinishReason
  kvTransferParams : Option String
  ecTransferParams : Option String
  samplingMask : Option SamplingMask
  deriving DecidableEq

structure SampledDelta where
  tokenIds : List UInt32
  logprobs : Option DecodedLogprobs
  deriving DecidableEq

inductive DecodedTextEvent where
  | start (promptTokenIds : List UInt32) (promptLogprobs : Option DecodedPromptLogprobs)
  | textDelta (decoded : DecodedText) (sampled : SampledDelta) (finished : Option Finished)
  deriving DecidableEq

/-- The stop string that matched, and what it leaves of the text and of the output's tokens. -/
structure StopMatch where
  stopStr : Bytes
  truncateOutputTo : Nat
  truncateTokensTo : Nat
  deriving DecidableEq

structure StreamState where
  decoder : DecodeStream
  promptTokenCount : Nat
  cachedTokenCount : Nat := 0
  sampledTokenIds : List UInt32 := []
  outputTokenCount : Nat := 0
  sampledLogprobs : Option DecodedLogprobs := none
  samplingMask : Option SamplingMask := none

namespace GenerateOutput

def stopped (output : GenerateOutput) (stop : StopMatch) : GenerateOutput :=
  { output with
    tokenIds := output.tokenIds.take stop.truncateTokensTo
    logprobs := output.logprobs.map fun logprobs =>
      ⟨logprobs.positions.take stop.truncateTokensTo⟩
    samplingMask := output.samplingMask.map fun mask => ⟨mask.rows.take stop.truncateTokensTo⟩
    finishReason := some (.stop (some (.text stop.stopStr))) }

/-- The tokens to decode: an engine's own stop token stays out of the text. -/
def decodableTokenIds (options : TextDecodeOptions) (output : GenerateOutput) : List UInt32 :=
  if output.finishReason.any FinishReason.isStop && !options.includeStopStrInOutput then
    output.tokenIds.dropLast
  else output.tokenIds

end GenerateOutput

section stream

variable (tokenizer : Tokenizer) (requestId : String) (options : TextDecodeOptions)
  (intermediate : Bool)

/-- The bytes held back so that no beginning of a stop string is given out. -/
def TextDecodeOptions.minBytesToBuffer : Nat :=
  if options.includeStopStrInOutput then 0
  else ((options.stopStrings.bind fun stops => (stops.map List.length).max?).getD 1) - 1

/-- The stop string that ends the text, and where the text is cut, after `tokenCount` tokens. -/
def stopAt (output : Bytes) (newBytes tokenCount : Nat) : Option (Bytes × Nat) :=
  if options.minTokens < tokenCount then
    options.stopStrings.bind fun stops =>
      (matchesStopString stops output newBytes).map fun (idx, off) =>
        let stopStr := (stops[idx]?).getD []
        (stopStr, if options.includeStopStrInOutput then off + stopStr.length else off)
  else none

/-- The loop over an output's tokens from its `tokIdx`-th on. -/
def pushTokens (outputTokenCount : Nat) :
    Nat → List UInt32 → DecodeStream → Except Error (DecodeStream × Option StopMatch)
  | _, [], decoder => .ok (decoder, none)
  | tokIdx, tokenId :: rest, decoder => do
      let (decoder, newBytes) ← decoder.pushToken tokenizer tokenId
      match stopAt options decoder.output newBytes (outputTokenCount + tokIdx + 1) with
      | some (stopStr, truncateOutputTo) =>
          .ok (decoder, some { stopStr, truncateOutputTo, truncateTokensTo := tokIdx + 1 })
      | none => pushTokens outputTokenCount (tokIdx + 1) rest decoder

def decodeNewLogprobs (logprobs : Option Logprobs) : Except Error (Option DecodedLogprobs) :=
  match logprobs with
  | none => .ok none
  | some logprobs => (decodeLogprobs tokenizer options.skipSpecialTokens logprobs).map some

def extendLogprobs (sampled new : Option DecodedLogprobs) : Option DecodedLogprobs :=
  match new with
  | none => sampled
  | some new => some ⟨(sampled.elim [] DecodedLogprobs.positions) ++ new.positions⟩

def extendMask (mask new : Option SamplingMask) : Option SamplingMask :=
  match new with
  | none => mask
  | some new => some ⟨(mask.elim [] SamplingMask.rows) ++ new.rows⟩

variable (s : StreamState)

/-- The terminal event, from the state behind the last output as a stop leaves it. -/
def terminalEvent (output : GenerateOutput) (reason : FinishReason)
    (truncateOutputTo : Option Nat) (decodedLogprobs : Option DecodedLogprobs) :
    Except Error DecodedTextEvent := do
  match s.samplingMask with
  | some mask =>
      if mask.rows.length ≠ s.outputTokenCount then
        throw (.samplingMaskTokenCountMismatch requestId s.outputTokenCount mask.rows.length)
  | none => pure ()
  let ((lastChunk, fullDecoded), _) ← s.decoder.flush tokenizer truncateOutputTo
  return .textDelta
    (if intermediate then lastChunk.elim {} (DecodedText.append {}) else fullDecoded)
    (if intermediate then ⟨output.tokenIds, decodedLogprobs⟩
      else ⟨s.sampledTokenIds, s.sampledLogprobs⟩)
    (some
      { usage := ⟨s.promptTokenCount, s.outputTokenCount, s.cachedTokenCount⟩
        finishReason := reason
        kvTransferParams := output.kvTransferParams
        ecTransferParams := output.ecTransferParams
        samplingMask := s.samplingMask })

/-- What one output leads to: more of the stream, with an event or without, or its end. -/
inductive Outcome where
  | more (s : StreamState) (event : Option DecodedTextEvent)
  | done (event : DecodedTextEvent)

def StreamState.advance (decoder : DecodeStream) (output : GenerateOutput)
    (decodedLogprobs : Option DecodedLogprobs) : StreamState :=
  { s with
    decoder := decoder
    cachedTokenCount := max s.cachedTokenCount output.cachedTokenCount
    outputTokenCount := s.outputTokenCount + output.tokenIds.length
    samplingMask := extendMask s.samplingMask output.samplingMask
    sampledTokenIds :=
      if intermediate then s.sampledTokenIds else s.sampledTokenIds ++ output.tokenIds
    sampledLogprobs :=
      if intermediate then s.sampledLogprobs
      else extendLogprobs s.sampledLogprobs decodedLogprobs }

def onOutput (output : GenerateOutput) : Except Error Outcome := do
  let (decoder, stop) ← pushTokens tokenizer options s.outputTokenCount 0
    (output.decodableTokenIds options) s.decoder
  let output := stop.elim output output.stopped
  let decodedLogprobs ← decodeNewLogprobs tokenizer options output.logprobs
  match output.finishReason with
  | none =>
      if intermediate then
        let (chunk, decoder) := decoder.nextChunk
        .ok (.more (s.advance intermediate decoder output decodedLogprobs)
          (some (.textDelta (chunk.elim {} (DecodedText.append {}))
            ⟨output.tokenIds, decodedLogprobs⟩ none)))
      else .ok (.more (s.advance intermediate decoder output decodedLogprobs) none)
  | some reason =>
      let event ← terminalEvent tokenizer requestId intermediate
        (s.advance intermediate decoder output decodedLogprobs) output reason
        (stop.map StopMatch.truncateOutputTo) decodedLogprobs
      .ok (.done event)

/-- The events of a stream and how it ends. -/
abbrev Events := List DecodedTextEvent × Except Error Unit

def streamLoop (s : StreamState) : List (Except Error GenerateOutput) → Events
  | [] => ([], .error (.streamClosedBeforeTerminalOutput requestId))
  | .error e :: _ => ([], .error e)
  | .ok output :: rest =>
      match onOutput tokenizer requestId options intermediate s output with
      | .error e => ([], .error e)
      | .ok (.done event) => ([event], .ok ())
      | .ok (.more s event) =>
          let (events, result) := streamLoop s rest
          (event.toList ++ events, result)

def startLogprobs (info : GeneratePromptInfo) : Except Error (Option DecodedPromptLogprobs) :=
  match info.promptLogprobs with
  | none => .ok none
  | some logprobs =>
      (decodePromptLogprobs tokenizer options.skipSpecialTokens info.promptTokenIds logprobs).map some

def initialState (info : GeneratePromptInfo) : StreamState :=
  { decoder :=
      .new info.promptTokenIds options.skipSpecialTokens options.minBytesToBuffer
    promptTokenCount := info.promptTokenIds.length }

/-- The first output opens the decoder and the stream; then all outputs run through the loop. -/
def decodedTextEventStream (rawStream : List (Except Error GenerateOutput)) : Events :=
  match rawStream with
  | .ok output :: _ =>
      match output.promptInfo with
      | none => ([], .error (.panicked "first llm output must carry prompt token ids"))
      | some info =>
          match startLogprobs tokenizer options info with
          | .error e => ([], .error e)
          | .ok promptLogprobs =>
              let (events, result) := streamLoop tokenizer requestId options intermediate
                (initialState options info) rawStream
              (.start info.promptTokenIds promptLogprobs :: events, result)
  | .error e :: _ => ([], .error e)
  | [] => ([], .error (.streamClosedBeforeTerminalOutput requestId))

end stream

structure CollectedTextOutput where
  text : Bytes
  promptTokenIds : List UInt32
  promptLogprobs : Option DecodedPromptLogprobs
  logprobs : Option DecodedLogprobs
  tokenIds : List UInt32
  finishReason : FinishReason
  usage : TokenUsage
  kvTransferParams : Option String
  ecTransferParams : Option String
  samplingMask : Option SamplingMask
  deriving DecidableEq

namespace CollectedTextOutput

/-- What the first delta starts with; the terminal metadata comes with the last. -/
def first (promptTokenIds : List UInt32) (promptLogprobs : Option DecodedPromptLogprobs)
    (decoded : DecodedText) (sampled : SampledDelta) : CollectedTextOutput :=
  { text := decoded.text
    promptTokenIds, promptLogprobs
    logprobs := sampled.logprobs
    tokenIds := sampled.tokenIds
    finishReason := .error
    usage := ⟨0, 0, 0⟩
    kvTransferParams := none
    ecTransferParams := none
    samplingMask := none }

def extend (c : CollectedTextOutput) (decoded : DecodedText) (sampled : SampledDelta) :
    CollectedTextOutput :=
  { c with
    text := c.text ++ decoded.text
    tokenIds := c.tokenIds ++ sampled.tokenIds
    logprobs :=
      match sampled.logprobs, c.logprobs with
      | none, logprobs => logprobs
      | some delta, none => some delta
      | some delta, some logprobs => some ⟨logprobs.positions ++ delta.positions⟩ }

def finish (c : CollectedTextOutput) (finished : Finished) : CollectedTextOutput :=
  { c with
    finishReason := finished.finishReason
    usage := finished.usage
    kvTransferParams := finished.kvTransferParams
    ecTransferParams := finished.ecTransferParams
    samplingMask := finished.samplingMask }

end CollectedTextOutput

def collectFrom (promptTokenIds : List UInt32) (promptLogprobs : Option DecodedPromptLogprobs)
    (collected : Option CollectedTextOutput) :
    List DecodedTextEvent → Except Error Unit → Except Error CollectedTextOutput
  | [], .error e => .error e
  | [], .ok () => .error (.streamClosedBeforeTerminalOutput "unknown")
  | .start promptTokenIds promptLogprobs :: rest, result =>
      collectFrom promptTokenIds promptLogprobs collected rest result
  | .textDelta decoded sampled finished :: rest, result =>
      let c := match collected with
        | some c => c.extend decoded sampled
        | none => .first promptTokenIds promptLogprobs decoded sampled
      match finished with
      | some finished => .ok (c.finish finished)
      | none =>
          -- The first delta takes the prompt's logprobs.
          collectFrom promptTokenIds
            (if collected.isNone then none else promptLogprobs) (some c) rest result

def collectOutput (events : Events) : Except Error CollectedTextOutput :=
  collectFrom [] none none events.1 events.2

end VllmAmpere.TextStream
