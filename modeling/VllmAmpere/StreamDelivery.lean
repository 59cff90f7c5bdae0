import VllmAmpere.StreamTokens

/-! The events of a stream deliver what its tokens come to: each event the part of the text
that no stop string can cut any more, the last one the rest. -/

open List

namespace VllmAmpere.TextStream

section delivers

def DecodedTextEvent.text : DecodedTextEvent → Bytes
  | .start _ _ => []
  | .textDelta decoded _ _ => decoded.text

def positionsOf (logprobs : Option DecodedLogprobs) : List DecodedPositionLogprobs :=
  logprobs.elim [] DecodedLogprobs.positions

namespace Kept

def ofLast (decoded : DecodedText) (sampled : SampledDelta) (finished : Finished) : Kept :=
  { text := decoded.text
    finishReason := finished.finishReason
    tokenIds := sampled.tokenIds
    logprobs := positionsOf sampled.logprobs
    outputTokenCount := finished.usage.outputTokenCount }

/-- What is kept with a text, token ids and logprobs before. -/
def behind (text : Bytes) (tokenIds : List UInt32) (logprobs : List DecodedPositionLogprobs)
    (kept : Kept) : Kept :=
  { kept with
    text := text ++ kept.text
    tokenIds := tokenIds ++ kept.tokenIds
    logprobs := logprobs ++ kept.logprobs }

end Kept

/-- Events that end with a terminal one, and what they keep together. -/
inductive Delivers : List DecodedTextEvent → Kept → Prop
  | last (decoded : DecodedText) (sampled : SampledDelta) (finished : Finished) :
      Delivers [.textDelta decoded sampled (some finished)] (.ofLast decoded sampled finished)
  | delta (decoded : DecodedText) (sampled : SampledDelta) {rest : List DecodedTextEvent}
      {kept : Kept} (more : Delivers rest kept) :
      Delivers (.textDelta decoded sampled none :: rest)
        (kept.behind decoded.text sampled.tokenIds (positionsOf sampled.logprobs))
  | start (promptTokenIds : List UInt32) (promptLogprobs : Option DecodedPromptLogprobs)
      {rest : List DecodedTextEvent} {kept : Kept} (more : Delivers rest kept) :
      Delivers (.start promptTokenIds promptLogprobs :: rest) kept

def Unfinished (events : List DecodedTextEvent) : Prop :=
  ∀ decoded sampled finished, .textDelta decoded sampled (some finished) ∉ events

def CollectedTextOutput.kept (c : CollectedTextOutput) : Kept :=
  { text := c.text
    finishReason := c.finishReason
    tokenIds := c.tokenIds
    logprobs := positionsOf c.logprobs
    outputTokenCount := c.usage.outputTokenCount }

variable {events : List DecodedTextEvent} {kept : Kept}

theorem Delivers.text (h : Delivers events kept) :
    events.flatMap DecodedTextEvent.text = kept.text := by
  induction h with
  | last => exact append_nil _
  | delta decoded _ _ ih => exact congrArg (decoded.text ++ ·) ih
  | start _ _ _ ih => exact ih

theorem extend_positions (c : CollectedTextOutput) (decoded : DecodedText)
    (sampled : SampledDelta) : positionsOf (c.extend decoded sampled).logprobs =
    positionsOf c.logprobs ++ positionsOf sampled.logprobs := by
  unfold CollectedTextOutput.extend
  cases sampled.logprobs with
  | none => exact (append_nil _).symm
  | some delta => cases c.logprobs <;> rfl

section

variable (h : Delivers events kept) (promptTokenIds : List UInt32)
  (promptLogprobs : Option DecodedPromptLogprobs)
include h promptTokenIds promptLogprobs

theorem Delivers.collect_behind (c : CollectedTextOutput)
    (result : Except Error Unit) :
    ((collectFrom promptTokenIds promptLogprobs (some c) events result).toOption.map
    CollectedTextOutput.kept) = some (kept.behind c.text c.tokenIds (positionsOf c.logprobs)) := by
  induction h generalizing promptTokenIds promptLogprobs c with
  | last decoded sampled finished =>
      simp only [collectFrom, Except.toOption, Option.map_some, CollectedTextOutput.kept,
        CollectedTextOutput.finish, extend_positions]
      rfl
  | delta decoded sampled more ih =>
      refine (ih promptTokenIds _ (c.extend decoded sampled)).trans ?_
      rw [extend_positions]
      simp only [Kept.behind, CollectedTextOutput.extend, append_assoc]
  | start _ _ _ ih => exact ih _ _ c

theorem Delivers.collect (result : Except Error Unit) :
    ((collectFrom promptTokenIds promptLogprobs none events result).toOption.map
    CollectedTextOutput.kept) = some kept := by
  induction h generalizing promptTokenIds promptLogprobs with
  | last decoded sampled finished => rfl
  | delta decoded sampled more _ => exact more.collect_behind promptTokenIds _ _ result
  | start _ _ _ ih => exact ih _ _

end

theorem Unfinished.collect (h : Unfinished events) (promptTokenIds : List UInt32)
    (promptLogprobs : Option DecodedPromptLogprobs) (collected : Option CollectedTextOutput)
    (result : Except Error Unit) :
    (collectFrom promptTokenIds promptLogprobs collected events result).toOption = none := by
  induction events generalizing promptTokenIds promptLogprobs collected with
  | nil => cases result <;> rfl
  | cons event rest ih =>
      have later : Unfinished rest := fun decoded sampled finished mem =>
        h decoded sampled finished (mem_cons_of_mem _ mem)
      cases event with
      | start ids logprobs => exact ih later ids logprobs collected
      | textDelta decoded sampled finished =>
          cases finished with
          | none => exact ih later _ _ _
          | some finished => exact absurd mem_cons_self (h decoded sampled finished)

end delivers

section loop

variable {tokenizer : Tokenizer} (requestId : String) {options : TextDecodeOptions}
  (intermediate : Bool) {reports : Reports} {s : StreamState} {output : GenerateOutput}
  {tokens : List SampledToken}

/-- The sampling mask so far has one row per token counted. -/
def Masked (reports : Reports) (s : StreamState) : Prop :=
  if reports.samplingMask then
    (s.samplingMask.elim [] SamplingMask.rows).length = s.outputTokenCount
  else s.samplingMask = none

/-- A state between two outputs: nothing is given out that may still be cut, and only a stream
that gives out no event before the last collects what it sampled. -/
structure Live (options : TextDecodeOptions) (intermediate : Bool) (reports : Reports)
    (s : StreamState) : Prop where
  given : s.decoder.decoded.emittedByteOffset ≤ s.decoder.cutoff
  hold : s.decoder.minBytesToBuffer = options.minBytesToBuffer
  whole : intermediate = false → s.decoder.decoded.emittedByteOffset = 0
  streamed : intermediate = true → s.sampledTokenIds = [] ∧ s.sampledLogprobs = none
  masked : Masked reports s

/-- What is kept, less what a stream gave out, and with what it collected. -/
def StreamState.owes (s : StreamState) (kept : Kept) : Kept :=
  { kept with
    text := kept.text.drop s.decoder.decoded.emittedByteOffset
    tokenIds := s.sampledTokenIds ++ kept.tokenIds
    logprobs := positionsOf s.sampledLogprobs ++ kept.logprobs }

def Shows (s : StreamState) (events : Events) : Option Kept → Prop
  | none => Unfinished events.1
  | some kept => Delivers events.1 (s.owes kept)

theorem decodeNewLogprobs_carries (carries : output.Carries reports tokens) :
    (decodeNewLogprobs tokenizer options output.logprobs).map positionsOf =
    decodeReports tokenizer options reports tokens := by
  unfold decodeReports
  rcases carries.logprobs with carried | ⟨none, left⟩
  · rw [carried]
    cases reports.logprobs with
    | false => rfl
    | true =>
        simp only [if_true, decodeNewLogprobs, decodeLogprobs]
        cases (tokens.map SampledToken.logprobs).mapM
          (decodePositionLogprobs tokenizer options.skipSpecialTokens) <;> rfl
  · rw [none, left]
    cases reports.logprobs <;> rfl

theorem extendLogprobs_positions (sampled new : Option DecodedLogprobs) :
    positionsOf (extendLogprobs sampled new) = positionsOf sampled ++ positionsOf new := by
  cases new with
  | none => exact (append_nil _).symm
  | some new => rfl

theorem Masked.advance (h : Masked reports s) (carries : output.Carries reports tokens)
    (decoder : DecodeStream) (decodedLogprobs : Option DecodedLogprobs) :
    Masked reports (s.advance intermediate decoder output decodedLogprobs) := by
  have count : output.tokenIds.length = tokens.length := by rw [carries.ids, length_map]
  unfold Masked at h ⊢
  unfold StreamState.advance
  dsimp only
  rw [count]
  rcases carries.mask with carried | ⟨none, left⟩
  · rw [carried]
    cases wanted : reports.samplingMask with
    | false =>
        rw [wanted] at h
        exact h
    | true =>
        rw [wanted, if_pos rfl] at h
        simp only [if_true, extendMask, Option.elim_some, length_append, length_map, h]
  · rw [none, left]
    exact h

def Ends (s : StreamState) (result : Except Error Outcome) : Option Kept → Prop
  | none => ∃ e, result = .error e
  | some kept => ∃ event, result = .ok (.done event) ∧ Delivers [event] (s.owes kept)

theorem Masked.rows (h : Masked reports s) {mask : SamplingMask}
    (reported : s.samplingMask = some mask) : mask.rows.length = s.outputTokenCount := by
  unfold Masked at h
  rw [reported] at h
  split at h
  · exact h
  · cases h

section terminal

variable {t : StreamState} {rest : Bytes} (masked : Masked reports t)
  (output : GenerateOutput) (reason : FinishReason) (truncateOutputTo : Option Nat) (decodedLogprobs : Option DecodedLogprobs)

include masked

theorem terminalEvent_failed {e : Error} (remains : t.decoder.remainder tokenizer = .error e) :
    terminalEvent tokenizer requestId intermediate t output reason truncateOutputTo
    decodedLogprobs = .error e := by
  have flushed := t.decoder.flush_error tokenizer truncateOutputTo remains
  unfold terminalEvent
  cases reported : t.samplingMask with
  | none =>
      rw [flushed]
      rfl
  | some mask =>
      simp only [masked.rows reported, ne_eq, not_true_eq_false, if_false, flushed]
      rfl

theorem terminalEvent_flushed (remains : t.decoder.remainder tokenizer = .ok rest) :
    ∃ decoded finished,
    terminalEvent tokenizer requestId intermediate t output reason truncateOutputTo
    decodedLogprobs = .ok (.textDelta decoded
    (if intermediate then ⟨output.tokenIds, decodedLogprobs⟩
    else ⟨t.sampledTokenIds, t.sampledLogprobs⟩) (some finished)) ∧
    decoded.text = (DecodeStream.cutText truncateOutputTo (t.decoder.output ++ rest)).drop
    (if intermediate then t.decoder.decoded.emittedByteOffset else 0) ∧
    finished.finishReason = reason ∧ finished.usage.outputTokenCount = t.outputTokenCount := by
  have ⟨last, full, d', flushed, text, chunk⟩ := t.decoder.flush_ok tokenizer rest truncateOutputTo
    remains
  refine ⟨if intermediate then last.elim {} (DecodedText.append {}) else full,
    { usage := ⟨t.promptTokenCount, t.outputTokenCount, t.cachedTokenCount⟩
      finishReason := reason
      kvTransferParams := output.kvTransferParams
      ecTransferParams := output.ecTransferParams
      samplingMask := t.samplingMask }, ?_, ?_⟩
  · unfold terminalEvent
    cases reported : t.samplingMask with
    | none =>
        rw [flushed]
        rfl
    | some mask =>
        simp only [masked.rows reported, ne_eq, not_true_eq_false, if_false, flushed]
        rfl
  · cases intermediate with
    | true => exact ⟨(DecodedText.text_append_empty last).trans (text ▸ chunk), rfl, rfl⟩
    | false => exact ⟨text, rfl, rfl⟩

end terminal

section onOutput

variable {d' : DecodeStream} {stop : Option StopMatch}

theorem onOutput_error {e : Error} (pushes : pushTokens tokenizer options s.outputTokenCount 0
    (output.decodableTokenIds options) s.decoder = .error e) :
    onOutput tokenizer requestId options intermediate s output = .error e := by
  unfold onOutput
  rw [pushes]
  rfl

theorem terminalEvent_delivers (live : Live options intermediate reports s) {chunk rest : Bytes}
    (grown : s.decoder.Grown d' chunk) (carries : output.Carries reports tokens)
    {decodedLogprobs : Option DecodedLogprobs}
    (masked : Masked reports (s.advance intermediate d' output decodedLogprobs))
    (reason : FinishReason) (truncateOutputTo : Option Nat)
    (remains : d'.remainder tokenizer = .ok rest) :
    ∃ event, terminalEvent tokenizer requestId intermediate
        (s.advance intermediate d' output decodedLogprobs) output reason truncateOutputTo
        decodedLogprobs = .ok event ∧
      Delivers [event] (s.owes
        { text := DecodeStream.cutText truncateOutputTo (d'.output ++ rest)
          finishReason := reason
          tokenIds := tokens.map SampledToken.tokenId
          logprobs := positionsOf decodedLogprobs
          outputTokenCount := s.outputTokenCount + tokens.length }) := by
  have ⟨text, finished, event, given, ended, count⟩ := terminalEvent_flushed requestId intermediate
    masked output reason truncateOutputTo decodedLogprobs remains
  refine ⟨_, event, ?_⟩
  have total : finished.usage.outputTokenCount = s.outputTokenCount + tokens.length := by
    rw [count, ← length_map (f := SampledToken.tokenId), ← carries.ids]
    rfl
  refine Eq.mp (congrArg (Delivers _) ?_) (Delivers.last text _ finished)
  unfold Kept.ofLast StreamState.owes
  rw [given, ended, total, ← carries.ids]
  cases mode : intermediate with
  | true =>
      have ⟨ids, logprobs⟩ := live.streamed mode
      rw [ids, logprobs, ← grown.emitted]
      rfl
  | false =>
      rw [live.whole mode, ← extendLogprobs_positions]
      rfl

theorem onOutput_ends (live : Live options intermediate reports s)
    (pushes : pushTokens tokenizer options s.outputTokenCount 0
    (output.decodableTokenIds options) s.decoder = .ok (d', stop))
    {output' : GenerateOutput} (left : stop.elim output output.stopped = output')
    (carries : output'.Carries reports tokens) {reason : FinishReason}
    (finish : output'.finishReason = some reason) :
    Ends s (onOutput tokenizer requestId options intermediate s output)
    (ending tokenizer options reports d' s.outputTokenCount tokens
    (stop.map StopMatch.truncateOutputTo) reason) := by
  have ⟨chunk, grown, _⟩ := pushTokens_grown pushes live.hold
  have decoded : (decodeNewLogprobs tokenizer options output'.logprobs).map positionsOf =
    decodeReports tokenizer options reports tokens := decodeNewLogprobs_carries carries
  have ends : onOutput tokenizer requestId options intermediate s output =
      (decodeNewLogprobs tokenizer options output'.logprobs).bind fun decodedLogprobs =>
        (terminalEvent tokenizer requestId intermediate
          (s.advance intermediate d' output' decodedLogprobs) output' reason
          (stop.map StopMatch.truncateOutputTo) decodedLogprobs).map Outcome.done := by
    unfold onOutput
    rw [pushes]
    simp only [bind, Except.bind, left]
    cases decodeNewLogprobs tokenizer options output'.logprobs with
    | error e => rfl
    | ok decodedLogprobs =>
        simp only [finish]
        cases terminalEvent tokenizer requestId intermediate
          (s.advance intermediate d' output' decodedLogprobs) output' reason
          (stop.map StopMatch.truncateOutputTo) decodedLogprobs <;> rfl
  rw [ends]
  cases reported : decodeNewLogprobs tokenizer options output'.logprobs with
  | error e =>
      rw [reported] at decoded
      rw [ending_undecoded decoded.symm]
      exact ⟨e, rfl⟩
  | ok decodedLogprobs =>
      rw [reported] at decoded
      have masked := live.masked.advance intermediate carries d' decodedLogprobs
      cases remains : d'.remainder tokenizer with
      | error e =>
          have failed := terminalEvent_failed requestId intermediate masked output' reason
            (stop.map StopMatch.truncateOutputTo) decodedLogprobs remains
          unfold ending
          rw [remains, ← decoded]
          refine ⟨e, ?_⟩
          exact congrArg (Except.map Outcome.done) failed
      | ok rest =>
          have ⟨event, emitted, delivers⟩ := terminalEvent_delivers requestId intermediate live
            grown carries masked reason (stop.map StopMatch.truncateOutputTo) remains
          unfold ending
          rw [remains, ← decoded]
          refine ⟨event, ?_, delivers⟩
          exact congrArg (Except.map Outcome.done) emitted

variable {chunk : Bytes}

theorem owes_more (grown : s.decoder.Grown d' chunk) (carries : output.Carries reports tokens)
    (decodedLogprobs : Option DecodedLogprobs) (kept : Kept) (quiet : intermediate = false) :
    (s.advance intermediate d' output decodedLogprobs).owes kept =
    s.owes (kept.after tokens (positionsOf decodedLogprobs)) := by
  unfold StreamState.owes Kept.after StreamState.advance
  simp only [quiet, Bool.false_eq_true, if_false]
  rw [grown.emitted, extendLogprobs_positions, append_assoc, append_assoc, carries.ids]

section

variable (live : Live options intermediate reports s) (grown : s.decoder.Grown d' chunk)
  (carries : output.Carries reports tokens) (decodedLogprobs : Option DecodedLogprobs)
include live grown carries decodedLogprobs

theorem owes_chunk {kept : Kept} (streams : intermediate = true)
    (inside : d'.cutoff ≤ kept.text.length)
    (given : kept.text.take d'.cutoff = d'.output.take d'.cutoff) :
    ((s.advance intermediate d'.nextChunk.2 output decodedLogprobs).owes kept).behind
    (DecodedText.textOf d'.nextChunk.1) output.tokenIds (positionsOf decodedLogprobs) =
    s.owes (kept.after tokens (positionsOf decodedLogprobs)) := by
  have ⟨ids, logprobs⟩ := live.streamed streams
  have order : s.decoder.decoded.emittedByteOffset ≤ d'.cutoff :=
    live.given.trans grown.cutoff_le
  have text : (d'.output.take d'.cutoff).drop s.decoder.decoded.emittedByteOffset ++
      kept.text.drop d'.cutoff = kept.text.drop s.decoder.decoded.emittedByteOffset := by
    rw [← given, ← drop_append_of_le_length, take_append_drop]
    rw [length_take]
    omega
  unfold StreamState.owes Kept.behind Kept.after StreamState.advance
  simp only [streams, if_true]
  rw [d'.nextChunk_text, d'.nextChunk_emitted, grown.emitted, text, ids, logprobs, carries.ids]
  rfl

theorem Live.advance :
    Live options intermediate reports (s.advance intermediate
      (if intermediate then d'.nextChunk.2 else d') output decodedLogprobs) where
  given := by
    cases intermediate with
    | true => exact (d'.nextChunk_emitted.trans d'.nextChunk_cutoff.symm).le
    | false => exact (grown.emitted.trans_le live.given).trans grown.cutoff_le
  hold := by
    cases intermediate <;> exact grown.hold.trans live.hold
  whole quiet := by
    rw [quiet]
    exact grown.emitted.trans (live.whole quiet)
  streamed streams := by
    unfold StreamState.advance
    simp only [streams, if_true]
    exact live.streamed streams
  masked := live.masked.advance intermediate carries _ decodedLogprobs

end

theorem onOutput_more (pushes : pushTokens tokenizer options s.outputTokenCount 0
    (output.decodableTokenIds options) s.decoder = .ok (d', none))
    (unfinished : output.finishReason = none) {decodedLogprobs : Option DecodedLogprobs}
    (decoded : decodeNewLogprobs tokenizer options output.logprobs = .ok decodedLogprobs) :
    onOutput tokenizer requestId options intermediate s output =
    .ok (.more (s.advance intermediate (if intermediate then d'.nextChunk.2 else d') output
    decodedLogprobs) (if intermediate then
    some (.textDelta (d'.nextChunk.1.elim {} (DecodedText.append {}))
    ⟨output.tokenIds, decodedLogprobs⟩ none) else none)) := by
  unfold onOutput
  rw [pushes]
  simp only [bind, Except.bind, Option.elim_none, decoded, unfinished]
  cases intermediate <;> rfl

end onOutput

section streamLoop

variable {raw rest : List (Except Error GenerateOutput)} {finish : Option FinishReason}
  {d' : DecodeStream}

theorem Ends.shows {result : Option Kept}
    (h : Ends s (onOutput tokenizer requestId options intermediate s output) result) :
    Shows s (streamLoop tokenizer requestId options intermediate s (.ok output :: rest)) result := by
  unfold streamLoop
  cases result with
  | none =>
      obtain ⟨e, failed⟩ := h
      rw [failed]
      exact fun _ _ _ mem => by cases mem
  | some kept =>
      obtain ⟨event, ended, delivers⟩ := h
      rw [ended]
      exact delivers

theorem Live.more (live : Live options intermediate reports s) {chunk : Bytes}
    (grown : s.decoder.Grown d' chunk) (carries : output.Carries reports tokens)
    (pushes : pushTokens tokenizer options s.outputTokenCount 0
    (output.decodableTokenIds options) s.decoder = .ok (d', none))
    (unfinished : output.finishReason = none) {decodedLogprobs : Option DecodedLogprobs}
    (decoded : decodeNewLogprobs tokenizer options output.logprobs = .ok decodedLogprobs)
    {kept : Option Kept} (given : ∀ k ∈ kept, d'.cutoff ≤ k.text.length ∧
    k.text.take d'.cutoff = d'.output.take d'.cutoff)
    (after : Shows (s.advance intermediate (if intermediate then d'.nextChunk.2 else d') output
    decodedLogprobs) (streamLoop tokenizer requestId options intermediate (s.advance intermediate
    (if intermediate then d'.nextChunk.2 else d') output decodedLogprobs) rest) kept) :
    Shows s (streamLoop tokenizer requestId options intermediate s (.ok output :: rest))
    (kept.map (Kept.after tokens (positionsOf decodedLogprobs))) := by
  have turn := onOutput_more requestId intermediate pushes unfinished decoded
  unfold streamLoop
  rw [turn]
  cases kept with
  | none =>
      cases intermediate with
      | true =>
          intro text sampled finished mem
          rcases mem_cons.mp mem with event | later
          · cases event
          · exact after text sampled finished later
      | false => exact after
  | some kept =>
      cases mode : intermediate with
      | true =>
          subst mode
          have ⟨inside, same⟩ := given kept rfl
          refine Eq.mp (congrArg (Delivers _) ?_) (Delivers.delta _ _ after)
          rw [DecodedText.text_append_empty]
          exact owes_chunk true live grown carries decodedLogprobs rfl inside same
      | false =>
          subst mode
          exact Eq.mp (congrArg (Delivers _) (owes_more false grown carries decodedLogprobs kept rfl))
            after

theorem decodableTokenIds_eq (carries : output.Carries reports tokens) :
    output.decodableTokenIds options =
    decodable options output.finishReason (tokens.map SampledToken.tokenId) := by
  unfold GenerateOutput.decodableTokenIds decodable
  rw [carries.ids]

theorem tokensKept_nextChunk (d : DecodeStream) (outputTokenCount : Nat) :
    tokensKept tokenizer options reports finish (if intermediate then d.nextChunk.2 else d)
    outputTokenCount tokens =
    tokensKept tokenizer options reports finish d outputTokenCount tokens := by
  cases intermediate with
  | true =>
      rw [if_pos rfl, ← tokensKept_unemitted, d.nextChunk_unemitted, tokensKept_unemitted]
  | false => rfl

theorem Live.last (live : Live options intermediate reports s)
    (carries : output.Carries reports tokens) {reason : FinishReason}
    (finish : output.finishReason = some reason) :
    Shows s (streamLoop tokenizer requestId options intermediate s (.ok output :: rest))
    (tokensKept tokenizer options reports (some reason) s.decoder s.outputTokenCount tokens) := by
  have ids : output.decodableTokenIds options =
      decodable options output.finishReason (tokens.map SampledToken.tokenId) :=
    decodableTokenIds_eq carries
  rw [finish] at ids
  unfold tokensKept
  rw [← ids]
  cases pushes : pushTokens tokenizer options s.outputTokenCount 0
      (output.decodableTokenIds options) s.decoder with
  | error e =>
      exact Ends.shows requestId intermediate ⟨e, onOutput_error requestId intermediate pushes⟩
  | ok pushed =>
      obtain ⟨d', stop⟩ := pushed
      apply Ends.shows
      cases stop with
      | none => exact onOutput_ends requestId intermediate live pushes rfl carries finish
      | some stop =>
          exact onOutput_ends requestId intermediate live pushes rfl (carries.stopped stop) rfl

theorem streamLoop_shows (live : Live options intermediate reports s)
    (carries : Carries reports raw tokens finish) :
    Shows s (streamLoop tokenizer requestId options intermediate s raw)
    (tokensKept tokenizer options reports finish s.decoder s.outputTokenCount tokens) := by
  induction carries generalizing s with
  | closed => exact fun _ _ _ mem => by cases mem
  | failed e rest => exact fun _ _ _ mem => by cases mem
  | last rest carries finish stopToken => exact live.last requestId intermediate carries finish
  | @more output tokens tokens' finish rest carries unfinished after ih =>
      have stopToken := after.stop_token
      have ids : output.decodableTokenIds options = tokens.map SampledToken.tokenId := by
        rw [decodableTokenIds_eq carries, unfinished]
        rfl
      cases pushes : pushTokens tokenizer options s.outputTokenCount 0
          (tokens.map SampledToken.tokenId) s.decoder with
      | error e =>
          rw [tokensKept_error stopToken pushes]
          rw [← ids] at pushes
          exact Ends.shows requestId intermediate ⟨e, onOutput_error requestId intermediate pushes⟩
      | ok pushed =>
          obtain ⟨d', stop⟩ := pushed
          have ⟨chunk, grown, behind⟩ := pushTokens_grown pushes live.hold
          cases stop with
          | some stop =>
              have pushed := (behind stop rfl).pushed
              rw [length_map, Nat.zero_add] at pushed
              rw [tokensKept_stop stopToken pushes pushed]
              rw [← ids] at pushes
              exact Ends.shows requestId intermediate
                (onOutput_ends requestId intermediate live pushes rfl (carries.stopped stop) rfl)
          | none =>
              have reported : (decodeNewLogprobs tokenizer options output.logprobs).map positionsOf =
                decodeReports tokenizer options reports tokens := decodeNewLogprobs_carries carries
              cases decoded : decodeNewLogprobs tokenizer options output.logprobs with
              | error e =>
                  rw [decoded] at reported
                  rw [tokensKept_undecoded stopToken pushes reported.symm]
                  rw [← ids] at pushes
                  refine Ends.shows requestId intermediate ⟨e, ?_⟩
                  unfold onOutput
                  rw [pushes]
                  simp only [bind, Except.bind, Option.elim_none, decoded]
              | ok decodedLogprobs =>
                  rw [decoded] at reported
                  rw [tokensKept_more stopToken pushes reported.symm]
                  rw [← ids] at pushes
                  refine live.more requestId intermediate grown carries pushes unfinished decoded
                    (fun k kept => tokensKept_given (grown.hold.trans live.hold) kept) ?_
                  have next := live.advance intermediate grown carries decodedLogprobs
                  have shown := ih next
                  have count : (s.advance intermediate (if intermediate then d'.nextChunk.2 else d')
                      output decodedLogprobs).outputTokenCount = s.outputTokenCount + tokens.length := by
                    rw [← tokens.length_map (f := SampledToken.tokenId), ← carries.ids]
                    rfl
                  rw [count] at shown
                  exact Eq.mp (congrArg (Shows _ _) (tokensKept_nextChunk intermediate d' _)) shown

end streamLoop

end loop

section stream

variable (tokenizer : Tokenizer) (requestId : String) (options : TextDecodeOptions)
  (intermediate : Bool) {reports : Reports} {info : GeneratePromptInfo}
  {raw : List (Except Error GenerateOutput)} {tokens : List SampledToken}
  {finish : Option FinishReason}

theorem initialState_live (reports : Reports) (info : GeneratePromptInfo) :
    Live options intermediate reports (initialState options info) where
  given := Nat.zero_le _
  hold := rfl
  whole _ := rfl
  streamed _ := ⟨rfl, rfl⟩
  masked := by
    unfold Masked
    split <;> rfl

/-- What a request with a prompt comes to by its tokens. -/
def requestKept (reports : Reports) (info : GeneratePromptInfo) (tokens : List SampledToken)
    (finish : Option FinishReason) : Option Kept :=
  match startLogprobs tokenizer options info with
  | .error _ => none
  | .ok _ => tokensKept tokenizer options reports finish (initialState options info).decoder 0 tokens

def Opens (info : GeneratePromptInfo) (raw : List (Except Error GenerateOutput)) : Prop :=
  ∀ output, raw.head? = some (.ok output) → output.promptInfo = some info

def Comes (events : List DecodedTextEvent) : Option Kept → Prop
  | none => Unfinished events
  | some kept => Delivers events kept

variable {kept : Option Kept}

theorem Comes.started {events : List DecodedTextEvent} (h : Comes events kept)
    (promptTokenIds : List UInt32) (promptLogprobs : Option DecodedPromptLogprobs) :
    Comes (.start promptTokenIds promptLogprobs :: events) kept := by
  cases kept with
  | none =>
      intro decoded sampled finished mem
      rcases mem_cons.mp mem with event | later
      · cases event
      · exact h decoded sampled finished later
  | some kept => exact Delivers.start promptTokenIds promptLogprobs h

theorem Comes.collect {events : Events} (h : Comes events.1 kept) :
    (collectOutput events).toOption.map CollectedTextOutput.kept = kept := by
  cases kept with
  | none => exact congrArg (Option.map _) (Unfinished.collect h [] none none events.2)
  | some kept => exact Delivers.collect h [] none events.2

theorem initialState_comes {events : Events}
    (h : Shows (initialState options info) events kept) : Comes events.1 kept := by
  cases kept with
  | none => exact h
  | some kept => exact h

theorem stream_comes (opens : Opens info raw) (carries : Carries reports raw tokens finish) :
    Comes (decodedTextEventStream tokenizer requestId options intermediate raw).1
    (requestKept tokenizer options reports info tokens finish) := by
  have live := initialState_live options intermediate reports info
  have shown : Comes (streamLoop tokenizer requestId options intermediate (initialState options info)
      raw).1 (tokensKept tokenizer options reports finish (initialState options info).decoder 0
        tokens) :=
    initialState_comes options (streamLoop_shows requestId intermediate live carries)
  have first {output : GenerateOutput} {rest : List (Except Error GenerateOutput)}
      (head : raw = .ok output :: rest) :
      Comes (decodedTextEventStream tokenizer requestId options intermediate raw).1
        (requestKept tokenizer options reports info tokens finish) := by
    subst head
    unfold decodedTextEventStream requestKept
    dsimp only
    rw [opens output rfl]
    dsimp only
    cases startLogprobs tokenizer options info with
    | error e => exact fun _ _ _ mem => by cases mem
    | ok promptLogprobs => exact shown.started info.promptTokenIds promptLogprobs
  have unfinished : requestKept tokenizer options reports info [] none = none := by
    unfold requestKept
    cases startLogprobs tokenizer options info <;> rfl
  cases carries with
  | closed =>
      rw [unfinished]
      exact fun _ _ _ mem => by cases mem
  | failed e rest =>
      rw [unfinished]
      exact fun _ _ _ mem => by cases mem
  | last rest carries finish stopToken => exact first rfl
  | more carries unfinished after => exact first rfl

end stream

/-! One token per output, and every other grouping against it. -/

variable (reports : Reports) (finish : Option FinishReason) (info : Option GeneratePromptInfo)

def oneToken (finish : Option FinishReason)
    (token : SampledToken) : GenerateOutput :=
  { promptInfo := info
    tokenIds := [token.tokenId]
    logprobs := if reports.logprobs then some ⟨[token.logprobs]⟩ else none
    finishReason := finish
    samplingMask := if reports.samplingMask then some ⟨[token.maskRow]⟩ else none }

/-- One token per output: the first carries the prompt, the last the reason to finish. A
request that finishes without a token has one output without any. -/
def oneTokenOutputs : Option GeneratePromptInfo → List SampledToken →
    List (Except Error GenerateOutput)
  | info, [] =>
      match finish with
      | none => []
      | some reason => [.ok { promptInfo := info, tokenIds := [], finishReason := some reason }]
  | info, [token] => [.ok (oneToken reports info finish token)]
  | info, token :: next :: rest =>
      .ok (oneToken reports info none token) :: oneTokenOutputs none (next :: rest)

variable {reports finish}

theorem oneToken_carries (finish : Option FinishReason)
    (token : SampledToken) : (oneToken reports info finish token).Carries reports [token] where
  ids := rfl
  logprobs := Or.inl rfl
  mask := Or.inl rfl

theorem oneTokenOutputs_carries (tokens : List SampledToken)
    (stopToken : finish.any FinishReason.isStop = true → tokens ≠ []) :
    Carries reports (oneTokenOutputs reports finish info tokens) tokens finish := by
  induction tokens generalizing info with
  | nil =>
      cases finish with
      | none => exact .closed
      | some reason =>
          exact .last [] ⟨rfl, Or.inr ⟨rfl, rfl⟩, Or.inr ⟨rfl, rfl⟩⟩ rfl stopToken
  | cons token rest ih =>
      cases rest with
      | nil =>
          cases finish with
          | none =>
              exact Carries.more (oneToken_carries info none token) rfl .closed
          | some reason =>
              exact .last [] (oneToken_carries info (some reason) token) rfl stopToken
      | cons next rest =>
          refine Carries.more (oneToken_carries info none token) rfl (ih none fun _ => ?_)
          exact cons_ne_nil _ _

theorem oneTokenOutputs_opens (info : GeneratePromptInfo) (tokens : List SampledToken) :
    Opens info (oneTokenOutputs reports finish (some info) tokens) := by
  intro output head
  match tokens with
  | [] =>
      cases finish with
      | none => cases head
      | some reason => cases head; rfl
  | [token] => cases head; rfl
  | token :: next :: rest => cases head; rfl

def givenOut (events : List DecodedTextEvent) : Bytes := events.flatMap DecodedTextEvent.text

/-- Whatever outputs the tokens of a request come in, what is kept of it is what is kept with
one token per output, and a stream gives out its final text piece by piece. -/
theorem decodedTextEventStream_grouping (tokenizer : Tokenizer) (requestId : String)
    (options : TextDecodeOptions) (info : GeneratePromptInfo)
    {raw : List (Except Error GenerateOutput)} {tokens : List SampledToken}
    (opens : Opens info raw) (carries : Carries reports raw tokens finish) (intermediate : Bool) :
    ((collectOutput (decodedTextEventStream tokenizer requestId options intermediate
    raw)).toOption.map CollectedTextOutput.kept =
    (collectOutput (decodedTextEventStream tokenizer requestId options intermediate
    (oneTokenOutputs reports finish (some info) tokens))).toOption.map CollectedTextOutput.kept) ∧
    ∀ final, collectOutput (decodedTextEventStream tokenizer requestId options false raw) =
    .ok final → givenOut (decodedTextEventStream tokenizer requestId options intermediate raw).1 =
    final.text ∧ ∀ n, givenOut ((decodedTextEventStream tokenizer requestId options intermediate
    raw).1.take n) <+: final.text := by
  have comes (mode : Bool) := stream_comes tokenizer requestId options mode opens carries
  have single : Comes (decodedTextEventStream tokenizer requestId options intermediate
      (oneTokenOutputs reports finish (some info) tokens)).1
      (requestKept tokenizer options reports info tokens finish) :=
    stream_comes tokenizer requestId options intermediate (oneTokenOutputs_opens info tokens)
      (oneTokenOutputs_carries (some info) tokens carries.stop_token)
  refine ⟨(comes intermediate).collect.trans single.collect.symm, fun final collected => ?_⟩
  have kept := (comes false).collect
  rw [collected] at kept
  have given := comes intermediate
  rw [← kept] at given
  have whole : givenOut (decodedTextEventStream tokenizer requestId options intermediate raw).1 =
      final.text := given.text
  refine ⟨whole, fun n => ?_⟩
  rw [← whole, givenOut, givenOut]
  nth_rewrite 2 [← take_append_drop n
    (decodedTextEventStream tokenizer requestId options intermediate raw).1]
  rw [flatMap_append]
  exact prefix_append _ _

def byteTokenizer : Tokenizer :=
  { decode := fun ids _ => .ok (ids.map UInt32.toUInt8)
    idToToken := fun id => some [id.toUInt8]
    isSpecialId := fun _ => false }

def splitStop : List (Except Error GenerateOutput) :=
  [.ok { promptInfo := some ⟨[104, 105], none⟩, tokenIds := [97, 98, 99] },
    .ok { tokenIds := [100, 101, 100, 0], finishReason := some (.stop none) }]

theorem splitStop_carries : Carries {} splitStop
    ([{ tokenId := 97 }, { tokenId := 98 }, { tokenId := 99 }] ++
      [{ tokenId := 100 }, { tokenId := 101 }, { tokenId := 100 }, { tokenId := 0 }])
    (some (.stop none)) :=
  .more ⟨rfl, Or.inl rfl, Or.inl rfl⟩ rfl
    (.last [] ⟨rfl, Or.inl rfl, Or.inl rfl⟩ rfl fun _ => cons_ne_nil _ _)

theorem decodedTextEventStream_grouping_split :
    let options : TextDecodeOptions := { stopStrings := some [[99, 100]] }
    let stream := decodedTextEventStream byteTokenizer "request" options
    (collectOutput (stream true splitStop)).toOption.map CollectedTextOutput.kept =
        some
          { text := [97, 98]
            finishReason := .stop (some (.text [99, 100]))
            tokenIds := [97, 98, 99, 100]
            logprobs := []
            outputTokenCount := 4 } ∧
      (collectOutput (stream true splitStop)).toOption.map CollectedTextOutput.kept =
        (collectOutput (stream true (oneTokenOutputs {} (some (.stop none)) (some ⟨[104, 105], none⟩)
          [{ tokenId := 97 }, { tokenId := 98 }, { tokenId := 99 }, { tokenId := 100 },
            { tokenId := 101 }, { tokenId := 100 }, { tokenId := 0 }]))).toOption.map
              CollectedTextOutput.kept :=
  ⟨by decide +kernel,
    (decodedTextEventStream_grouping byteTokenizer "request" { stopStrings := some [[99, 100]] }
      ⟨[104, 105], none⟩ (fun _ head => by cases head; rfl) splitStop_carries true).1⟩

end VllmAmpere.TextStream
