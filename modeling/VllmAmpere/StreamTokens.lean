import VllmAmpere.DecodedTextStream

/-! The tokens of a stream, pushed one by one: where a push over several tokens may be cut,
and that no text is cut which the decoder may already have given out. -/

open List

namespace VllmAmpere.TextStream

section hold

variable {options : TextDecodeOptions} {stops : List Bytes} {ss output : Bytes}
  {newBytes tokenCount truncateOutputTo : Nat}

theorem length_le_minBytesToBuffer (excluded : options.includeStopStrInOutput = false)
    (listed : options.stopStrings = some stops) (mem : ss ∈ stops) :
    ss.length - 1 ≤ options.minBytesToBuffer := by
  have ⟨longest, max⟩ : ∃ longest, (stops.map List.length).max? = some longest := by
    cases found : (stops.map List.length).max? with
    | some longest => exact ⟨longest, rfl⟩
    | none =>
        rw [max?_eq_none_iff, map_eq_nil_iff] at found
        rw [found] at mem
        cases mem
  have bound : ss.length ≤ longest :=
    (max?_eq_some_iff.mp max).2 _ (mem_map_of_mem mem)
  unfold TextDecodeOptions.minBytesToBuffer
  rw [excluded, listed]
  simp only [Bool.false_eq_true, if_false, Option.bind_some, max, Option.getD_some]
  omega

theorem stopAt_bound {stopStr : Bytes}
    (h : stopAt options output newBytes tokenCount = some (stopStr, truncateOutputTo))
    (new : newBytes ≤ output.length) :
    output.length - newBytes - options.minBytesToBuffer ≤ truncateOutputTo ∧
    truncateOutputTo ≤ output.length := by
  unfold stopAt at h
  split at h
  · have ⟨stops, listed, found⟩ := Option.bind_eq_some_iff.mp h
    have ⟨⟨idx, off⟩, matched, equal⟩ := Option.map_eq_some_iff.mp found
    have ⟨ss, at_idx, after, inside⟩ := matchesStopString_bound matched new
    simp only [at_idx, Option.getD_some, Prod.mk.injEq] at equal
    rw [← equal.2]
    cases included : options.includeStopStrInOutput with
    | true =>
        rw [if_pos rfl]
        omega
    | false =>
        rw [if_neg Bool.false_ne_true]
        have hold := length_le_minBytesToBuffer included listed (mem_of_getElem? at_idx)
        omega
  · cases h

end hold

variable {tokenizer : Tokenizer} {options : TextDecodeOptions}

namespace StopMatch

/-- The match seen from `k` tokens earlier. -/
def shift (k : Nat) (stop : StopMatch) : StopMatch :=
  { stop with truncateTokensTo := k + stop.truncateTokensTo }

/-- What a match may cut: no text the decoder could give out before the tokens pushed, and a
positive number of these tokens is kept. -/
structure Behind (before after : DecodeStream) (first tokens : Nat) (stop : StopMatch) : Prop where
  given : before.cutoff ≤ stop.truncateOutputTo
  inside : stop.truncateOutputTo ≤ after.output.length
  kept : first < stop.truncateTokensTo
  pushed : stop.truncateTokensTo ≤ first + tokens

end StopMatch

section pushTokens

variable {outputTokenCount first : Nat} {tokens : List UInt32} {d d' : DecodeStream}
  {stop : Option StopMatch}

theorem pushTokens_grown (h : pushTokens tokenizer options outputTokenCount first tokens d =
    .ok (d', stop)) (hold : d.minBytesToBuffer = options.minBytesToBuffer) :
    ∃ chunk, d.Grown d' chunk ∧ ∀ m ∈ stop, StopMatch.Behind d d' first tokens.length m := by
  induction tokens generalizing first d with
  | nil =>
      cases h
      exact ⟨[], ⟨(append_nil _).symm, rfl, rfl⟩, fun m mem => by cases mem⟩
  | cons tokenId rest ih =>
      rw [pushTokens] at h
      cases pushing : d.pushToken tokenizer tokenId with
      | error e => rw [pushing] at h; cases h
      | ok pushed =>
          obtain ⟨next, newBytes⟩ := pushed
          have ⟨chunk, length, grown⟩ := d.pushToken_grown tokenizer pushing
          have total : next.output.length = d.output.length + newBytes := by
            rw [grown.text, length_append, length]
          simp only [pushing, bind, Except.bind] at h
          split at h
          case h_1 stopStr truncateOutputTo matched =>
            cases h
            have ⟨after, inside⟩ := stopAt_bound matched (by omega)
            have given := d.cutoff_le_sub
            refine ⟨chunk, grown, fun m mem => ?_⟩
            cases mem
            refine ⟨?_, inside, Nat.lt_succ_self _, ?_⟩
            · dsimp only
              omega
            · rw [length_cons]
              dsimp only
              omega
          case h_2 =>
            have ⟨more, growing, cut⟩ := ih h (grown.hold.trans hold)
            refine ⟨chunk ++ more, grown.trans growing, fun m mem => ?_⟩
            have behind := cut m mem
            refine ⟨grown.cutoff_le.trans behind.given, behind.inside, ?_, ?_⟩
            · exact Nat.lt_of_succ_lt behind.kept
            · have pushed := behind.pushed
              rw [length_cons]
              omega

theorem pushTokens_unemitted (outputTokenCount first : Nat) (tokens : List UInt32)
    (d : DecodeStream) : pushTokens tokenizer options outputTokenCount first tokens d.unemitted =
    (pushTokens tokenizer options outputTokenCount first tokens d).map
    (Prod.map DecodeStream.unemitted id) := by
  induction tokens generalizing first d with
  | nil => rfl
  | cons tokenId rest ih =>
      rw [pushTokens, pushTokens, d.pushToken_unemitted tokenizer tokenId]
      cases d.pushToken tokenizer tokenId with
      | error e => rfl
      | ok pushed =>
          simp only [bind, Except.bind, Except.map, Prod.map, id_eq]
          rw [show pushed.1.unemitted.output = pushed.1.output from rfl]
          cases stopAt options pushed.1.output pushed.2 (outputTokenCount + first + 1) with
          | some _ => rfl
          | none => exact ih (first + 1) pushed.1

theorem pushTokens_shift (outputTokenCount k first : Nat) (tokens : List UInt32)
    (d : DecodeStream) : pushTokens tokenizer options outputTokenCount (k + first) tokens d =
    (pushTokens tokenizer options (outputTokenCount + k) first tokens d).map
    (Prod.map id (Option.map (StopMatch.shift k))) := by
  induction tokens generalizing first d with
  | nil => rfl
  | cons tokenId rest ih =>
      rw [pushTokens, pushTokens]
      cases d.pushToken tokenizer tokenId with
      | error e => rfl
      | ok pushed =>
          simp only [bind, Except.bind]
          rw [show outputTokenCount + (k + first) + 1 = outputTokenCount + k + first + 1 by omega]
          cases stopAt options pushed.1.output pushed.2 (outputTokenCount + k + first + 1) with
          | some _ => rfl
          | none => exact ih (first + 1) pushed.1

theorem pushTokens_append (outputTokenCount first : Nat) (tokens more : List UInt32)
    (d : DecodeStream) :
    pushTokens tokenizer options outputTokenCount first (tokens ++ more) d =
      (pushTokens tokenizer options outputTokenCount first tokens d).bind fun pushed =>
        match pushed.2 with
        | some _ => .ok pushed
        | none => pushTokens tokenizer options outputTokenCount (first + tokens.length) more
            pushed.1 := by
  induction tokens generalizing first d with
  | nil => rfl
  | cons tokenId rest ih =>
      rw [cons_append, pushTokens, pushTokens]
      cases d.pushToken tokenizer tokenId with
      | error e => rfl
      | ok pushed =>
          simp only [bind, Except.bind]
          cases stopAt options pushed.1.output pushed.2 (outputTokenCount + first + 1) with
          | some _ => rfl
          | none =>
              refine (ih (first + 1) pushed.1).trans ?_
              rw [length_cons, show first + 1 + rest.length = first + (rest.length + 1) by omega]
              rfl

end pushTokens

/-! Engine outputs that carry the same tokens lead to the same text, stop, token ids and
logprobs, however the tokens are grouped. What a stream comes to is first computed from the
tokens alone; every grouping of them is then shown to come to it. -/

section tokens

/-- One generated token with what the engine reports at its position. -/
structure SampledToken where
  tokenId : UInt32
  logprobs : PositionLogprobs := ⟨[]⟩
  maskRow : List UInt32 := []

/-- Which of the optional reports the request asked for. -/
structure Reports where
  logprobs : Bool := false
  samplingMask : Bool := false

variable (reports : Reports)

/-- An output with the reports of its tokens, one per token; one without tokens may leave
them out. -/
structure GenerateOutput.Carries (output : GenerateOutput) (tokens : List SampledToken) : Prop where
  ids : output.tokenIds = tokens.map SampledToken.tokenId
  logprobs : output.logprobs =
      (if reports.logprobs then some ⟨tokens.map SampledToken.logprobs⟩ else none) ∨
    tokens = [] ∧ output.logprobs = none
  mask : output.samplingMask =
      (if reports.samplingMask then some ⟨tokens.map SampledToken.maskRow⟩ else none) ∨
    tokens = [] ∧ output.samplingMask = none

/-- Raw streams that carry some tokens and end them for a reason, if they do. An engine that
stops at a token reports the stop in the output that ends with this token. -/
inductive Carries :
    List (Except Error GenerateOutput) → List SampledToken → Option FinishReason → Prop
  | closed : Carries [] [] none
  | failed (e : Error) (rest : List (Except Error GenerateOutput)) :
      Carries (.error e :: rest) [] none
  | last {output : GenerateOutput} {tokens : List SampledToken} {reason : FinishReason}
      (rest : List (Except Error GenerateOutput)) (carries : output.Carries reports tokens)
      (finish : output.finishReason = some reason)
      (stopToken : reason.isStop = true → tokens ≠ []) :
      Carries (.ok output :: rest) tokens (some reason)
  | more {output : GenerateOutput} {tokens tokens' : List SampledToken}
      {reason : Option FinishReason} {rest : List (Except Error GenerateOutput)}
      (carries : output.Carries reports tokens) (unfinished : output.finishReason = none)
      (after : Carries rest tokens' reason) :
      Carries (.ok output :: rest) (tokens ++ tokens') reason

variable {reports}

theorem Carries.stop_token {raw : List (Except Error GenerateOutput)} {tokens : List SampledToken}
    {finish : Option FinishReason} (h : Carries reports raw tokens finish)
    (stop : finish.any FinishReason.isStop = true) : tokens ≠ [] := by
  induction h with
  | closed => cases stop
  | failed => cases stop
  | last rest carries finish stopToken => exact stopToken stop
  | more carries unfinished after ih =>
      intro empty
      exact ih stop (append_eq_nil_iff.mp empty).2

theorem GenerateOutput.Carries.stopped {output : GenerateOutput} {tokens : List SampledToken}
    (h : output.Carries reports tokens) (stop : StopMatch) :
    (output.stopped stop).Carries reports (tokens.take stop.truncateTokensTo) where
  ids := by
    rw [map_take, ← h.ids]
    rfl
  logprobs := by
    unfold GenerateOutput.stopped
    rcases h.logprobs with carried | ⟨none, left⟩
    · left
      dsimp only
      rw [carried]
      cases reports.logprobs with
      | true => exact congrArg (fun positions => some (Logprobs.mk positions)) map_take.symm
      | false => rfl
    · right
      dsimp only
      rw [none, left]
      exact ⟨take_nil, rfl⟩
  mask := by
    unfold GenerateOutput.stopped
    rcases h.mask with carried | ⟨none, left⟩
    · left
      dsimp only
      rw [carried]
      cases reports.samplingMask with
      | true => exact congrArg (fun rows => some (SamplingMask.mk rows)) map_take.symm
      | false => rfl
    · right
      dsimp only
      rw [none, left]
      exact ⟨take_nil, rfl⟩

end tokens

section reference

/-- What is kept of a request in the end. -/
structure Kept where
  text : Bytes
  finishReason : FinishReason
  tokenIds : List UInt32
  logprobs : List DecodedPositionLogprobs
  outputTokenCount : Nat
  deriving DecidableEq

def Kept.after (tokens : List SampledToken) (logprobs : List DecodedPositionLogprobs)
    (kept : Kept) : Kept :=
  { kept with
    tokenIds := tokens.map SampledToken.tokenId ++ kept.tokenIds
    logprobs := logprobs ++ kept.logprobs }

variable (tokenizer : Tokenizer) (options : TextDecodeOptions) (reports : Reports)

def decodable {α : Type} (finish : Option FinishReason) (tokens : List α) : List α :=
  if finish.any FinishReason.isStop && !options.includeStopStrInOutput then tokens.dropLast
  else tokens

def decodeReports (tokens : List SampledToken) : Except Error (List DecodedPositionLogprobs) :=
  if reports.logprobs then
    (tokens.map SampledToken.logprobs).mapM
      (decodePositionLogprobs tokenizer options.skipSpecialTokens)
  else .ok []

def ending (d : DecodeStream) (outputTokenCount : Nat) (tokens : List SampledToken)
    (truncateOutputTo : Option Nat) (reason : FinishReason) : Option Kept :=
  match decodeReports tokenizer options reports tokens, d.remainder tokenizer with
  | .ok logprobs, .ok rest =>
      some
        { text := DecodeStream.cutText truncateOutputTo (d.output ++ rest)
          finishReason := reason
          tokenIds := tokens.map SampledToken.tokenId
          logprobs
          outputTokenCount := outputTokenCount + tokens.length }
  | _, _ => none

/-- What tokens come to that are pushed one by one from a decoder on. -/
def tokensKept (finish : Option FinishReason) (d : DecodeStream) (outputTokenCount : Nat)
    (tokens : List SampledToken) : Option Kept :=
  match pushTokens tokenizer options outputTokenCount 0
      (decodable options finish (tokens.map SampledToken.tokenId)) d with
  | .error _ => none
  | .ok (d, some stop) =>
      ending tokenizer options reports d outputTokenCount (tokens.take stop.truncateTokensTo)
        (some stop.truncateOutputTo) (.stop (some (.text stop.stopStr)))
  | .ok (d, none) => finish.bind (ending tokenizer options reports d outputTokenCount tokens none)

variable {tokenizer options reports}

theorem decodeReports_append (tokens more : List SampledToken) :
    decodeReports tokenizer options reports (tokens ++ more) =
    (decodeReports tokenizer options reports tokens).bind fun logprobs =>
    (decodeReports tokenizer options reports more).map (logprobs ++ ·) := by
  unfold decodeReports
  cases reports.logprobs with
  | false => rfl
  | true =>
      simp only [if_true, map_append, mapM_append]
      rfl

theorem ending_after {tokens : List SampledToken} {logprobs : List DecodedPositionLogprobs}
    (decoded : decodeReports tokenizer options reports tokens = .ok logprobs) (d : DecodeStream)
    (outputTokenCount : Nat) (more : List SampledToken) (truncateOutputTo : Option Nat)
    (reason : FinishReason) :
    ending tokenizer options reports d outputTokenCount (tokens ++ more) truncateOutputTo reason =
    (ending tokenizer options reports d (outputTokenCount + tokens.length) more truncateOutputTo
    reason).map (Kept.after tokens logprobs) := by
  unfold ending
  rw [decodeReports_append, decoded]
  simp only [Except.bind]
  cases decodeReports tokenizer options reports more with
  | error e => rfl
  | ok positions =>
      cases d.remainder tokenizer with
      | error e => rfl
      | ok rest =>
          simp only [Except.map, Option.map, Kept.after, map_append, length_append,
            Nat.add_assoc]

theorem ending_undecoded {tokens : List SampledToken} {e : Error}
    (failed : decodeReports tokenizer options reports tokens = .error e) (d : DecodeStream)
    (outputTokenCount : Nat) (truncateOutputTo : Option Nat) (reason : FinishReason) :
    ending tokenizer options reports d outputTokenCount tokens truncateOutputTo reason = none := by
  unfold ending
  rw [failed]

theorem decodable_append {α : Type} {finish : Option FinishReason} (tokens : List α) {more : List α}
    (stopToken : finish.any FinishReason.isStop = true → more ≠ []) :
    decodable options finish (tokens ++ more) = tokens ++ decodable options finish more := by
  unfold decodable
  cases stops : finish.any FinishReason.isStop with
  | false => rfl
  | true =>
      split
      · exact dropLast_append_of_ne_nil (stopToken stops)
      · rfl

section append

variable {finish : Option FinishReason} {d d' : DecodeStream} {outputTokenCount : Nat}
  {tokens more : List SampledToken}
  (stopToken : finish.any FinishReason.isStop = true → more ≠ [])

include stopToken

theorem pushTokens_decodable :
    pushTokens tokenizer options outputTokenCount 0
        (decodable options finish ((tokens ++ more).map SampledToken.tokenId)) d =
      (pushTokens tokenizer options outputTokenCount 0 (tokens.map SampledToken.tokenId) d).bind
        fun pushed => match pushed.2 with
          | some _ => .ok pushed
          | none =>
              (pushTokens tokenizer options (outputTokenCount + tokens.length) 0
                (decodable options finish (more.map SampledToken.tokenId)) pushed.1).map
                (Prod.map id (Option.map (StopMatch.shift tokens.length))) := by
  have ids : finish.any FinishReason.isStop = true → more.map SampledToken.tokenId ≠ [] :=
    fun stop empty => stopToken stop (map_eq_nil_iff.mp empty)
  rw [map_append, decodable_append _ ids, pushTokens_append]
  congr 1
  funext pushed
  cases pushed.2 with
  | some _ => rfl
  | none =>
      rw [length_map, Nat.zero_add]
      exact pushTokens_shift outputTokenCount tokens.length 0
        (decodable options finish (more.map SampledToken.tokenId)) pushed.1

theorem tokensKept_error {e : Error} (pushes : pushTokens tokenizer options outputTokenCount 0
    (tokens.map SampledToken.tokenId) d = .error e) :
    tokensKept tokenizer options reports finish d outputTokenCount (tokens ++ more) = none := by
  unfold tokensKept
  rw [pushTokens_decodable stopToken, pushes]
  rfl

theorem tokensKept_stop {stop : StopMatch} (pushes : pushTokens tokenizer options outputTokenCount 0
    (tokens.map SampledToken.tokenId) d = .ok (d', some stop))
    (pushed : stop.truncateTokensTo ≤ tokens.length) :
    tokensKept tokenizer options reports finish d outputTokenCount (tokens ++ more) =
    ending tokenizer options reports d' outputTokenCount (tokens.take stop.truncateTokensTo)
    (some stop.truncateOutputTo) (.stop (some (.text stop.stopStr))) := by
  unfold tokensKept
  rw [pushTokens_decodable stopToken, pushes, ← take_append_of_le_length pushed]
  rfl

/-- What the whole keeps is made from what the rest keeps, as the ends of the two are. -/
theorem tokensKept_append {f : Option Kept → Option Kept} (nothing : f none = none)
    (pushes : pushTokens tokenizer options outputTokenCount 0 (tokens.map SampledToken.tokenId) d =
    .ok (d', none)) (ends : ∀ last rest truncateOutputTo reason,
    ending tokenizer options reports last outputTokenCount (tokens ++ rest) truncateOutputTo reason =
    f (ending tokenizer options reports last (outputTokenCount + tokens.length) rest
    truncateOutputTo reason)) :
    tokensKept tokenizer options reports finish d outputTokenCount (tokens ++ more) =
    f (tokensKept tokenizer options reports finish d' (outputTokenCount + tokens.length) more) := by
  unfold tokensKept
  rw [pushTokens_decodable stopToken, pushes]
  simp only [Except.bind]
  cases pushTokens tokenizer options (outputTokenCount + tokens.length) 0
      (decodable options finish (more.map SampledToken.tokenId)) d' with
  | error e => exact nothing.symm
  | ok pushed =>
      obtain ⟨last, stop⟩ := pushed
      cases stop with
      | none =>
          cases finish with
          | none => exact nothing.symm
          | some reason => exact ends last more none reason
      | some stop =>
          have taken : (tokens ++ more).take (tokens.length + stop.truncateTokensTo) =
              tokens ++ more.take stop.truncateTokensTo := take_length_add_append _
          refine (congrArg (fun kept => ending tokenizer options reports last outputTokenCount kept
            (some stop.truncateOutputTo) (.stop (some (.text stop.stopStr)))) taken).trans ?_
          exact ends last _ _ _

theorem tokensKept_more {logprobs : List DecodedPositionLogprobs}
    (pushes : pushTokens tokenizer options outputTokenCount 0 (tokens.map SampledToken.tokenId) d =
    .ok (d', none)) (decoded : decodeReports tokenizer options reports tokens = .ok logprobs) :
    tokensKept tokenizer options reports finish d outputTokenCount (tokens ++ more) =
    (tokensKept tokenizer options reports finish d' (outputTokenCount + tokens.length) more).map
    (Kept.after tokens logprobs) :=
  tokensKept_append stopToken (f := Option.map (Kept.after tokens logprobs)) rfl pushes
    fun last rest => ending_after decoded last outputTokenCount rest

theorem tokensKept_undecoded {e : Error}
    (pushes : pushTokens tokenizer options outputTokenCount 0 (tokens.map SampledToken.tokenId) d =
    .ok (d', none)) (failed : decodeReports tokenizer options reports tokens = .error e) :
    tokensKept tokenizer options reports finish d outputTokenCount (tokens ++ more) = none := by
  refine tokensKept_append stopToken (f := fun _ => none) rfl pushes fun last rest => ?_
  refine ending_undecoded (e := e) ?_ last outputTokenCount
  rw [decodeReports_append, failed]
  rfl

end append

section given

variable {finish : Option FinishReason} {d d' : DecodeStream} {outputTokenCount : Nat}
  {tokens : List SampledToken} {kept : Kept}

theorem ending_text {truncateOutputTo : Option Nat} {reason : FinishReason}
    (h : ending tokenizer options reports d' outputTokenCount tokens truncateOutputTo reason =
    some kept) : ∃ rest, d'.remainder tokenizer = .ok rest ∧
    kept.text = DecodeStream.cutText truncateOutputTo (d'.output ++ rest) := by
  unfold ending at h
  split at h
  case h_1 logprobs rest decoded remains =>
    cases h
    exact ⟨rest, remains, rfl⟩
  case h_2 => cases h

theorem tokensKept_given (hold : d.minBytesToBuffer = options.minBytesToBuffer)
    (h : tokensKept tokenizer options reports finish d outputTokenCount tokens = some kept) :
    d.cutoff ≤ kept.text.length ∧ kept.text.take d.cutoff = d.output.take d.cutoff := by
  have inside := d.cutoff_le
  have whole (chunk rest : Bytes) (cut : Option Nat) (behind : ∀ m ∈ cut, d.cutoff ≤ m) :
      d.cutoff ≤ (DecodeStream.cutText cut (d.output ++ chunk ++ rest)).length ∧
        (DecodeStream.cutText cut (d.output ++ chunk ++ rest)).take d.cutoff =
          d.output.take d.cutoff := by
    have start : (d.output ++ chunk ++ rest).take d.cutoff = d.output.take d.cutoff := by
      rw [append_assoc, take_append_of_le_length inside]
    cases cut with
    | none =>
        refine ⟨?_, start⟩
        simp only [DecodeStream.cutText, Option.elim_none, length_append]
        omega
    | some m =>
        have order := behind m rfl
        simp only [DecodeStream.cutText, Option.elim_some]
        rw [take_take, min_eq_left order, length_take, length_append,
          length_append]
        exact ⟨by omega, start⟩
  unfold tokensKept at h
  split at h
  case h_1 => cases h
  case h_2 d' stop pushes =>
    have ⟨chunk, grown, behind⟩ := pushTokens_grown pushes hold
    have ⟨rest, _, text⟩ := ending_text h
    rw [text, grown.text]
    refine whole chunk rest _ fun m mem => ?_
    cases mem
    exact (behind stop rfl).given
  case h_3 d' pushes =>
    have ⟨chunk, grown, _⟩ := pushTokens_grown pushes hold
    have ⟨reason, _, ended⟩ := Option.bind_eq_some_iff.mp h
    have ⟨rest, _, text⟩ := ending_text ended
    rw [text, grown.text]
    exact whole chunk rest _ fun m mem => by cases mem

theorem tokensKept_unemitted : tokensKept tokenizer options reports finish d.unemitted
    outputTokenCount tokens = tokensKept tokenizer options reports finish d outputTokenCount
    tokens := by
  unfold tokensKept
  rw [pushTokens_unemitted]
  cases pushTokens tokenizer options outputTokenCount 0
      (decodable options finish (tokens.map SampledToken.tokenId)) d with
  | error e => rfl
  | ok pushed =>
      obtain ⟨last, stop⟩ := pushed
      cases stop <;> rfl

end given

end reference

end VllmAmpere.TextStream
