import VllmAmpere.PatternSearch
import VllmAmpere.Python

/-! Incremental detokenization with stop strings: however the tokens of an output are split
into updates, the stop string, the text and its truncation are the same. -/

open List

namespace VllmAmpere.Detok

abbrev TokenId := Nat

abbrev Text := List Char

/-- What `BaseIncrementalDetokenizer` takes from the sampling parameters, which refuse empty
stop strings. -/
structure StopParams where
  stop : List Text
  minTokens : Nat
  includeStopStrInOutput : Bool
  nonempty : ∀ s ∈ stop, s ≠ []

/-- The output tokens and text; `decode_next` reads the tokens so far. -/
structure Detokenizer where
  tokenIds : List TokenId := []
  outputText : Text := []
  lastOutputTextOffset : Nat := 0

variable (outputText : Text) (newCharCount : Nat)

/-- The body of the loop of `check_stop_strings`; the best stop string goes with its index
and its end. -/
def tryStop (best : Option (Text × Nat × Nat))
    (stopStr : Text) : Option (Text × Nat × Nat) :=
  match pyFind outputText stopStr (1 - newCharCount - stopStr.length) with
  | none => best
  | some stopIndex =>
    let stopEnd := stopIndex + stopStr.length
    match best with
    | none => some (stopStr, stopIndex, stopEnd)
    | some (_, _, bestEnd) =>
      if stopEnd < bestEnd then some (stopStr, stopIndex, stopEnd) else best

def bestStop (stop : List Text) :
    Option (Text × Nat × Nat) :=
  stop.foldl (tryStop outputText newCharCount) none

/-- `check_stop_strings`; no length where the source has -1, for no truncation. -/
def checkStopStrings (stop : List Text)
    (includeInOutput : Bool) : Option (Text × Option Nat) :=
  if newCharCount = 0 ∨ stop = [] then none
  else
    match bestStop outputText newCharCount stop with
    | none => none
    | some (bestStopStr, bestStopIndex, bestEnd) =>
      if includeInOutput then
        if outputText.length ≤ bestEnd then some (bestStopStr, none)
        else some (bestStopStr, some bestEnd)
      else some (bestStopStr, some bestStopIndex)

namespace Detokenizer

variable (params : StopParams) (decodeNext : List TokenId → Text) (d : Detokenizer)

/-- `self.stop_buffer_length`. -/
def stopBufferLength : Nat :=
  if params.stop ≠ [] ∧ ¬params.includeStopStrInOutput then
    (params.stop.map List.length).foldl max 0 - 1
  else 0

def numOutputTokens : Nat := d.tokenIds.length

/-- The loop of `update` over the new tokens, with `stop_check_offset`. -/
def decode : List TokenId → Nat → Detokenizer → Nat × Detokenizer
  | [], stopCheckOffset, d => (stopCheckOffset, d)
  | newTokenId :: rest, stopCheckOffset, d =>
    let d := { d with tokenIds := d.tokenIds ++ [newTokenId] }
    let d := { d with outputText := d.outputText ++ decodeNext d.tokenIds }
    let stopCheckOffset :=
      if params.minTokens ≠ 0 ∧ d.numOutputTokens ≤ params.minTokens then d.outputText.length
      else stopCheckOffset
    decode rest stopCheckOffset d

/-- What `update` does behind the loop, with the token it skipped. -/
def evaluate (stopCheckOffset : Nat) (skippedStopTokenId : Option TokenId) (d : Detokenizer) :
    Option Text × Detokenizer :=
  let d := { d with tokenIds := d.tokenIds ++ skippedStopTokenId.toList }
  if params.stop ≠ [] ∧ params.minTokens < d.numOutputTokens then
    match checkStopStrings d.outputText (d.outputText.length - stopCheckOffset) params.stop
      params.includeStopStrInOutput with
    | none => (none, d)
    | some (stopString, none) => (some stopString, d)
    | some (stopString, some truncateTo) =>
      (some stopString, { d with outputText := d.outputText.take truncateTo })
  else (none, d)

def update (newTokenIds : List TokenId) (stopTerminated : Bool) : Option Text × Detokenizer :=
  if newTokenIds = [] then (none, d)
  else if stopTerminated && !params.includeStopStrInOutput then
    let (stopCheckOffset, d') := decode params decodeNext newTokenIds.dropLast d.outputText.length d
    d'.evaluate params stopCheckOffset newTokenIds.getLast?
  else
    let (stopCheckOffset, d') := decode params decodeNext newTokenIds d.outputText.length d
    d'.evaluate params stopCheckOffset none

/-- `get_next_output_text`. -/
def getNextOutputText (finished delta : Bool) : Text × Detokenizer :=
  let bufferLength := if finished then 0 else stopBufferLength params
  if !delta then
    if bufferLength = 0 then (d.outputText, d)
    else (d.outputText.take (d.outputText.length - bufferLength), d)
  else
    let length := d.outputText.length - bufferLength
    let lastOffset := d.lastOutputTextOffset
    if lastOffset < length then
      ((d.outputText.take length).drop lastOffset, { d with lastOutputTextOffset := length })
    else ([], d)

/-- The updates of an output, each followed by its text, up to the first stop string;
`stop_terminated` comes with the last token. -/
def feed (stopTerminated : Bool) :
    List (List TokenId) → Detokenizer → (Option Text × List Text) × Detokenizer
  | [], d => ((none, []), d)
  | batch :: rest, d =>
    let (stopString, d) := d.update params decodeNext batch (stopTerminated && rest.flatten.isEmpty)
    let (text, d) := d.getNextOutputText params (stopString.isSome || rest.isEmpty) true
    match stopString with
    | some stopString => ((some stopString, [text]), d)
    | none =>
      let ((stopString, texts), d) := feed stopTerminated rest d
      ((stopString, text :: texts), d)

end Detokenizer

/-- The length of an output that a stop string ends behind `e` letters. -/
def cut (params : StopParams) (s : Text) (e : Nat) : Nat :=
  if params.includeStopStrInOutput then e else e - s.length

section search

variable {text : Text} {b n : Nat}

def Best (text : Text) (b : Nat) (passed : List Text) : Option (Text × Nat × Nat) → Prop
  | none => ∀ s ∈ passed, ∀ e, EndsAt text s e → e ≤ b
  | some (s, i, e) => FirstEnd text passed b s e ∧ i + s.length = e

theorem tryStop_best (last : b + n = text.length) (positive : 0 < n) {passed : List Text}
    {best : Option (Text × Nat × Nat)} (h : Best text b passed best) {s : Text} (some : s ≠ []) :
    Best text b (passed ++ [s]) (tryStop text n best s) := by
  unfold tryStop
  cases found : pyFind text s (1 - n - s.length) with
  | none =>
    have absent := fun e => pyFind_window_none last positive some found (e := e)
    cases best with
    | none =>
      intro other listed e ends
      rcases mem_append.mp listed with listed | same
      · exact h other listed e ends
      · exact absent e (mem_singleton.mp same ▸ ends)
    | some best =>
      obtain ⟨s', i, e⟩ := best
      refine ⟨h.1.snoc fun e' ends late => ?_, h.2⟩
      exact absurd (absent e' ends) (Nat.not_le_of_lt late)
  | some i =>
    have ⟨ends, late, first⟩ := pyFind_window_some last positive some found
    cases best with
    | none =>
      refine ⟨.of_last ends late first fun other listed e' ends late => ?_, rfl⟩
      exact absurd (h other listed e' ends) (Nat.not_le_of_lt late)
    | some best =>
      obtain ⟨s', i', e⟩ := best
      dsimp only
      split
      next less =>
        refine ⟨.of_last ends late first fun other listed e' ends late => ?_, rfl⟩
        exact Nat.lt_of_lt_of_le less (h.1.first other listed e' ends late)
      next more =>
        refine ⟨h.1.snoc fun e' ends late => ?_, h.2⟩
        exact Nat.le_trans (Nat.le_of_not_lt more) (first e' ends late)

theorem bestStop_best (last : b + n = text.length) (positive : 0 < n) {stop : List Text}
    (nonempty : ∀ s ∈ stop, s ≠ []) : Best text b stop (bestStop text n stop) := by
  have loop : ∀ (rest passed : List Text) (best : Option (Text × Nat × Nat)),
      (∀ s ∈ rest, s ≠ []) → Best text b passed best →
        Best text b (passed ++ rest) (rest.foldl (tryStop text n) best) := by
    intro rest
    induction rest with
    | nil =>
      intro passed best _ h
      rw [append_nil]
      exact h
    | cons s rest ih =>
      intro passed best some h
      have step := tryStop_best last positive h (some s mem_cons_self)
      have others := ih (passed ++ [s]) _ (fun s mem => some s (mem_cons_of_mem _ mem)) step
      rw [append_assoc] at others
      exact others
  exact loop stop [] none nonempty fun s mem => nomatch mem

theorem checkStopStrings_none {stop : List Text} {includeInOutput : Bool} (inside : b ≤ text.length)
    (nonempty : ∀ s ∈ stop, s ≠ [])
    (h : checkStopStrings text (text.length - b) stop includeInOutput = none) {s : Text}
    (listed : s ∈ stop) {e : Nat} (ends : EndsAt text s e) : e ≤ b := by
  have bound := ends.le_length (nonempty s listed)
  unfold checkStopStrings at h
  split at h
  next trivial =>
    rcases trivial with nothing | none
    · omega
    · rw [none] at listed
      cases listed
  next searched =>
    have best : Best text b stop (bestStop text (text.length - b) stop) :=
      bestStop_best (by omega) (Nat.pos_of_ne_zero fun nothing => searched (.inl nothing)) nonempty
    cases found : bestStop text (text.length - b) stop with
    | none =>
      rw [found] at best
      exact best s listed e ends
    | some result =>
      rw [found] at h
      dsimp only at h
      split at h
      · split at h
        · cases h
        · cases h
      · cases h

theorem checkStopStrings_some {params : StopParams} (inside : b ≤ text.length) {s : Text}
    {truncateTo : Option Nat}
    (h : checkStopStrings text (text.length - b) params.stop params.includeStopStrInOutput =
    some (s, truncateTo)) : ∃ e, FirstEnd text params.stop b s e ∧
    (truncateTo.elim text fun length => text.take length) = text.take (cut params s e) := by
  unfold checkStopStrings at h
  split at h
  · cases h
  next searched =>
    have best : Best text b params.stop (bestStop text (text.length - b) params.stop) :=
      bestStop_best (by omega) (Nat.pos_of_ne_zero fun nothing => searched (.inl nothing))
        params.nonempty
    cases found : bestStop text (text.length - b) params.stop with
    | none =>
      rw [found] at h
      cases h
    | some result =>
      obtain ⟨s', i, e⟩ := result
      rw [found] at h best
      obtain ⟨first, length⟩ := best
      dsimp only at h
      split at h
      next included =>
        have ends : cut params s' e = e := if_pos included
        split at h
        next whole =>
          cases h
          exact ⟨e, first, by rw [ends, take_of_length_le whole]; rfl⟩
        next =>
          cases h
          exact ⟨e, first, by rw [ends]; rfl⟩
      next excluded =>
        have ends : cut params s' e = i := by
          rw [cut, if_neg excluded]
          omega
        cases h
        exact ⟨e, first, by rw [ends]; rfl⟩

end search

section text

variable (decodeNext : List TokenId → Text)

def textOf : List TokenId → List TokenId → Text
  | _, [] => []
  | before, t :: rest => decodeNext (before ++ [t]) ++ textOf (before ++ [t]) rest

theorem textOf_append (before tokens more : List TokenId) :
    textOf decodeNext before (tokens ++ more) =
    textOf decodeNext before tokens ++ textOf decodeNext (before ++ tokens) more := by
  induction tokens generalizing before with
  | nil => rw [append_nil]; rfl
  | cons t rest ih =>
    rw [cons_append, textOf, textOf, ih, append_assoc, append_assoc]
    rfl

variable (params : StopParams) (tokens : List TokenId)

def boundary : Nat :=
  (textOf decodeNext [] (tokens.take params.minTokens)).length

/-- No stop string ends behind the first `min_tokens` tokens. -/
def Unstopped : Prop :=
  ∀ s ∈ params.stop, ∀ e, EndsAt (textOf decodeNext [] tokens) s e → e ≤ boundary decodeNext params tokens

/-- An output of some tokens: its text ends with the stop string that ends first behind the
first `min_tokens` tokens, or it is the whole text when there is none. -/
def Ended (stopString : Option Text) (text : Text) : Prop :=
  match stopString with
  | none => Unstopped decodeNext params tokens ∧ text = textOf decodeNext [] tokens
  | some s => ∃ e, FirstEnd (textOf decodeNext [] tokens) params.stop
      (boundary decodeNext params tokens) s e ∧
        text = (textOf decodeNext [] tokens).take (cut params s e)

theorem boundary_append (tokens more : List TokenId) :
    boundary decodeNext params tokens ≤ boundary decodeNext params (tokens ++ more) := by
  unfold boundary
  rw [take_append, textOf_append, length_append]
  exact Nat.le_add_right _ _

theorem boundary_le :
    boundary decodeNext params tokens ≤ (textOf decodeNext [] tokens).length := by
  have split := textOf_append decodeNext [] (tokens.take params.minTokens)
    (tokens.drop params.minTokens)
  rw [take_append_drop] at split
  rw [split, boundary, length_append]
  exact Nat.le_add_right _ _

variable {decodeNext params} {tokens : List TokenId}

theorem Ended.unique {stopString stopString' : Option Text} {text text' : Text}
    (h : Ended decodeNext params tokens stopString text)
    (h' : Ended decodeNext params tokens stopString' text') :
    stopString = stopString' ∧ text = text' := by
  cases stopString with
  | none =>
    cases stopString' with
    | none => exact ⟨rfl, h.2.trans h'.2.symm⟩
    | some s =>
      have ⟨e, ends, _⟩ := h'
      exact absurd (h.1 s ends.mem e ends.ends) (Nat.not_le_of_lt ends.late)
  | some s =>
    have ⟨e, ends, same⟩ := h
    cases stopString' with
    | none => exact absurd (h'.1 s ends.mem e ends.ends) (Nat.not_le_of_lt ends.late)
    | some s' =>
      have ⟨e', ends', same'⟩ := h'
      obtain ⟨rfl, rfl⟩ := ends.unique ends'
      exact ⟨rfl, same.trans same'.symm⟩

theorem Ended.append {s text : Text} (h : Ended decodeNext params tokens (some s) text)
    (more : List TokenId) : Ended decodeNext params (tokens ++ more) (some s) text := by
  have ⟨e, ends, same⟩ := h
  have inside := ends.ends.le_length (params.nonempty s ends.mem)
  have enough : params.minTokens ≤ tokens.length := by
    by_contra few
    have whole : tokens.take params.minTokens = tokens := take_of_length_le (by omega)
    have late := ends.late
    rw [boundary, whole] at late
    omega
  have bound : boundary decodeNext params (tokens ++ more) = boundary decodeNext params tokens := by
    rw [boundary, boundary, take_append_of_le_length enough]
  refine ⟨e, ?_, ?_⟩
  · rw [textOf_append, bound]
    exact ends.append params.nonempty _
  · have short : cut params s e ≤ (textOf decodeNext [] tokens).length := by
      unfold cut
      split <;> omega
    rw [textOf_append, take_append_of_le_length short]
    exact same

end text

namespace Detokenizer

variable {params : StopParams} {decodeNext : List TokenId → Text} {d : Detokenizer}

variable (tokens : List TokenId)

theorem decode_past (offset : Nat)
    (past : params.minTokens ≤ d.tokenIds.length) :
    (decode params decodeNext tokens offset d).1 = offset := by
  induction tokens generalizing d with
  | nil => rfl
  | cons t rest ih =>
    unfold decode
    dsimp only
    rw [if_neg]
    · refine ih ?_
      rw [length_append]
      omega
    · unfold numOutputTokens
      rw [length_append, length_singleton]
      omega

theorem decode_tokens (offset : Nat) (d : Detokenizer) :
    (decode params decodeNext tokens offset d).2 = { d with
      tokenIds := d.tokenIds ++ tokens
      outputText := d.outputText ++ textOf decodeNext d.tokenIds tokens } := by
  induction tokens generalizing offset d with
  | nil =>
    unfold decode textOf
    rw [append_nil, append_nil]
  | cons t rest ih =>
    unfold decode
    rw [ih]
    dsimp only
    rw [textOf, append_assoc, append_assoc]
    rfl

theorem decode_offset (d : Detokenizer) :
    (decode params decodeNext tokens d.outputText.length d).1 = (d.outputText ++
    textOf decodeNext d.tokenIds (tokens.take (params.minTokens - d.tokenIds.length))).length := by
  induction tokens generalizing d with
  | nil =>
    rw [take_nil, textOf, append_nil]
    rfl
  | cons t rest ih =>
    by_cases past : params.minTokens ≤ d.tokenIds.length
    · rw [decode_past _ _ past, Nat.sub_eq_zero_of_le past, take_zero, textOf, append_nil]
    · have length : params.minTokens - d.tokenIds.length =
          params.minTokens - (d.tokenIds ++ [t]).length + 1 := by
        rw [length_append, length_singleton]
        omega
      unfold decode
      dsimp only
      rw [if_pos]
      · rw [length, take_succ_cons, textOf, ← append_assoc]
        exact ih { d with
          tokenIds := d.tokenIds ++ [t]
          outputText := d.outputText ++ decodeNext (d.tokenIds ++ [t]) }
      · unfold numOutputTokens
        rw [length_append, length_singleton]
        omega

/-- A detokenizer of some tokens that no stop string has stopped, and that holds back the
letters of its buffer. -/
structure Live (params : StopParams) (decodeNext : List TokenId → Text) (tokens : List TokenId)
    (d : Detokenizer) : Prop where
  text : d.outputText = textOf decodeNext [] tokens
  unstopped : Unstopped decodeNext params tokens
  held : d.lastOutputTextOffset ≤ d.outputText.length - stopBufferLength params

theorem Live.offset (h : d.Live params decodeNext d.tokenIds) (tokens : List TokenId) {offset : Nat}
    (start : (d.outputText ++ textOf decodeNext d.tokenIds
    (tokens.take (params.minTokens - d.tokenIds.length))).length = offset) :
    offset ≤ (textOf decodeNext [] (d.tokenIds ++ tokens)).length ∧
    boundary decodeNext params (d.tokenIds ++ tokens) ≤ offset ∧
    ∀ s ∈ params.stop, ∀ e, EndsAt (textOf decodeNext [] (d.tokenIds ++ tokens)) s e →
    e ≤ offset → e ≤ boundary decodeNext params (d.tokenIds ++ tokens) := by
  have began : d.outputText ++ textOf decodeNext d.tokenIds
      (tokens.take (params.minTokens - d.tokenIds.length)) = textOf decodeNext []
        (d.tokenIds ++ tokens.take (params.minTokens - d.tokenIds.length)) := by
    rw [h.text, textOf_append]
    rfl
  rw [began] at start
  have split : textOf decodeNext [] (d.tokenIds ++ tokens) = textOf decodeNext []
      (d.tokenIds ++ tokens.take (params.minTokens - d.tokenIds.length)) ++
        textOf decodeNext (d.tokenIds ++ tokens.take (params.minTokens - d.tokenIds.length))
          (tokens.drop (params.minTokens - d.tokenIds.length)) := by
    have joined := textOf_append decodeNext []
      (d.tokenIds ++ tokens.take (params.minTokens - d.tokenIds.length))
      (tokens.drop (params.minTokens - d.tokenIds.length))
    rw [append_assoc, take_append_drop] at joined
    exact joined
  refine ⟨?_, ?_, fun s listed e ends early => ?_⟩
  · rw [split, length_append]
    omega
  · rcases Nat.le_total d.tokenIds.length params.minTokens with few | many
    · refine Nat.le_of_eq ?_
      rw [boundary, take_append, take_of_length_le few, start]
    · rw [Nat.sub_eq_zero_of_le many, take_zero, append_nil] at start
      rw [boundary, take_append_of_le_length many, ← start]
      exact boundary_le decodeNext params d.tokenIds
  · rcases Nat.le_total d.tokenIds.length params.minTokens with few | many
    · rw [boundary, take_append, take_of_length_le few, start]
      exact early
    · rw [Nat.sub_eq_zero_of_le many, take_zero, append_nil] at start
      have before : EndsAt (textOf decodeNext [] d.tokenIds) s e := by
        rw [textOf_append] at ends
        exact ends.of_append (by omega)
      exact Nat.le_trans (h.unstopped s listed e before) (boundary_append _ _ _ _)

theorem Live.evaluate (h : d.Live params decodeNext d.tokenIds) (tokens : List TokenId)
    (skipped : Option TokenId) : Ended decodeNext params (d.tokenIds ++ tokens)
    ((decode params decodeNext tokens d.outputText.length d).2.evaluate params
    (decode params decodeNext tokens d.outputText.length d).1 skipped).1
    ((decode params decodeNext tokens d.outputText.length d).2.evaluate params
    (decode params decodeNext tokens d.outputText.length d).1 skipped).2.outputText := by
  have whole : d.outputText ++ textOf decodeNext d.tokenIds tokens =
      textOf decodeNext [] (d.tokenIds ++ tokens) := by
    rw [h.text, textOf_append]
    rfl
  rw [decode_tokens, decode_offset, whole]
  generalize hoffset : (d.outputText ++ textOf decodeNext d.tokenIds
    (tokens.take (params.minTokens - d.tokenIds.length))).length = offset
  have ⟨inside, late, passed⟩ := h.offset tokens hoffset
  unfold Detokenizer.evaluate
  dsimp only
  split
  next searched =>
    split
    next nothing =>
      refine ⟨fun s listed e ends => ?_, rfl⟩
      exact passed s listed e ends
        (checkStopStrings_none inside params.nonempty nothing listed ends)
    next s found =>
      have ⟨e, first, same⟩ := checkStopStrings_some inside found
      exact ⟨e, first.earlier late passed, same⟩
    next s truncateTo found =>
      have ⟨e, first, same⟩ := checkStopStrings_some inside found
      exact ⟨e, first.earlier late passed, same⟩
  next unsearched =>
    refine ⟨fun s listed e ends => ?_, rfl⟩
    have few : (d.tokenIds ++ tokens ++ skipped.toList).length ≤ params.minTokens := by
      by_contra many
      exact unsearched ⟨ne_nil_of_mem listed, Nat.lt_of_not_le many⟩
    rw [length_append] at few
    rw [boundary, take_of_length_le (by omega)]
    exact ends.le_length (params.nonempty s listed)

theorem length_le_stopBufferLength {s : Text} (listed : s ∈ params.stop)
    (excluded : ¬params.includeStopStrInOutput) : s.length ≤ stopBufferLength params + 1 := by
  have longest := (le_foldl_max (params.stop.map List.length) 0).2 s.length
    (mem_map_of_mem listed)
  unfold stopBufferLength
  rw [if_pos ⟨ne_nil_of_mem listed, excluded⟩]
  omega

theorem Live.kept {before tokens : List TokenId} (h : d.Live params decodeNext before)
    {stopString : Option Text} {text : Text}
    (ended : Ended decodeNext params (before ++ tokens) stopString text) :
    d.lastOutputTextOffset ≤ text.length ∧
    text.take d.lastOutputTextOffset = d.outputText.take d.lastOutputTextOffset := by
  have held := h.held
  have whole : textOf decodeNext [] (before ++ tokens) =
      d.outputText ++ textOf decodeNext before tokens := by
    rw [h.text, textOf_append]
    rfl
  cases stopString with
  | none =>
    rw [ended.2, whole]
    refine ⟨?_, take_append_of_le_length (by omega)⟩
    rw [length_append]
    omega
  | some s =>
    have ⟨e, ends, same⟩ := ended
    have inside := ends.ends.le_length (params.nonempty s ends.mem)
    -- a stop string does not end in the text of the updates before
    have late : d.outputText.length < e := by
      by_contra early
      have ended : EndsAt (textOf decodeNext [] before) s e := by
        have ends := ends.ends
        rw [textOf_append] at ends
        refine ends.of_append ?_
        rw [← h.text]
        omega
      have := h.unstopped s ends.mem e ended
      have := boundary_append decodeNext params before tokens
      have := ends.late
      omega
    have room : d.lastOutputTextOffset ≤ cut params s e ∧ cut params s e ≤ e := by
      unfold cut
      split
      · omega
      next excluded =>
        have := length_le_stopBufferLength ends.mem excluded
        omega
    rw [same, whole]
    rw [whole] at inside
    refine ⟨?_, ?_⟩
    · rw [length_take]
      omega
    · rw [take_take, Nat.min_eq_left room.1, take_append_of_le_length (by omega)]

/-- The tokens of an update that are decoded: a stop token is skipped unless it is included
in the output. -/
def decoded (params : StopParams) (stopTerminated : Bool) (tokens : List TokenId) : List TokenId :=
  if stopTerminated && !params.includeStopStrInOutput then tokens.dropLast else tokens

theorem decoded_append (stopTerminated : Bool) (tokens more : List TokenId) :
    decoded params stopTerminated (tokens ++ more) =
    decoded params (stopTerminated && more.isEmpty) tokens ++ decoded params stopTerminated more := by
  unfold decoded
  cases more with
  | nil => simp
  | cons t rest =>
    rw [isEmpty_cons, Bool.and_false, Bool.false_and, if_neg Bool.false_ne_true]
    split
    · rw [dropLast_append_of_ne_nil (cons_ne_nil t rest)]
    · rfl

theorem evaluate_kept (params : StopParams) (offset : Nat) (skipped : Option TokenId) (d : Detokenizer) :
    (d.evaluate params offset skipped).2.lastOutputTextOffset = d.lastOutputTextOffset ∧
    (d.evaluate params offset skipped).2.tokenIds = d.tokenIds ++ skipped.toList := by
  unfold evaluate
  dsimp only
  split
  · split
    · exact ⟨rfl, rfl⟩
    · exact ⟨rfl, rfl⟩
    · exact ⟨rfl, rfl⟩
  · exact ⟨rfl, rfl⟩

variable {before batch : List TokenId}

theorem Live.updated (h : d.Live params decodeNext before)
    (same : batch ≠ [] → d.tokenIds = before) (stopTerminated : Bool) :
    Ended decodeNext params (before ++ decoded params stopTerminated batch)
    (d.update params decodeNext batch stopTerminated).1
    (d.update params decodeNext batch stopTerminated).2.outputText ∧
    (d.update params decodeNext batch stopTerminated).2.lastOutputTextOffset =
    d.lastOutputTextOffset ∧
    (d.update params decodeNext batch stopTerminated).2.tokenIds = d.tokenIds ++ batch := by
  by_cases nothing : batch = []
  · have skipless : decoded params stopTerminated [] = [] := by
      unfold decoded
      split <;> rfl
    rw [nothing, skipless, append_nil, append_nil]
    exact ⟨⟨h.unstopped, h.text⟩, rfl, rfl⟩
  · obtain rfl := same nothing
    unfold update decoded
    rw [if_neg nothing]
    split
    · have kept := evaluate_kept params
        (decode params decodeNext batch.dropLast d.outputText.length d).1 batch.getLast?
        (decode params decodeNext batch.dropLast d.outputText.length d).2
      refine ⟨h.evaluate batch.dropLast batch.getLast?, ?_, ?_⟩
      · rw [kept.1, decode_tokens]
      · rw [kept.2, decode_tokens, append_assoc, getLast?_eq_some_getLast nothing]
        exact congrArg _ (dropLast_append_getLast nothing)
    · have kept := evaluate_kept params
        (decode params decodeNext batch d.outputText.length d).1 none
        (decode params decodeNext batch d.outputText.length d).2
      refine ⟨h.evaluate batch none, ?_, ?_⟩
      · rw [kept.1, decode_tokens]
      · rw [kept.2, decode_tokens]
        exact append_nil _

theorem getNextOutputText_finished (params : StopParams) (d : Detokenizer) :
    (d.getNextOutputText params true true).1 = d.outputText.drop d.lastOutputTextOffset ∧
    (d.getNextOutputText params true true).2.outputText = d.outputText := by
  unfold getNextOutputText
  simp only [if_true, Bool.not_true, Bool.false_eq_true, if_false, Nat.sub_zero]
  split
  · rw [take_length]
    exact ⟨rfl, rfl⟩
  next all => exact ⟨(drop_of_length_le (Nat.le_of_not_lt all)).symm, rfl⟩

theorem Live.pending (h : d.Live params decodeNext before) :
    (d.getNextOutputText params false true).2 =
        { d with lastOutputTextOffset := d.outputText.length - stopBufferLength params } ∧
      (d.getNextOutputText params false true).1 = (d.outputText.take
        (d.outputText.length - stopBufferLength params)).drop d.lastOutputTextOffset := by
  have held := h.held
  unfold getNextOutputText
  simp only [Bool.not_true, Bool.false_eq_true, if_false]
  split
  · exact ⟨rfl, rfl⟩
  next all =>
    have same : d.lastOutputTextOffset = d.outputText.length - stopBufferLength params := by omega
    refine ⟨by rw [← same], ?_⟩
    rw [← same, drop_take_self]

variable {stopTerminated : Bool} {d' : Detokenizer}

theorem feed_stopped {rest : List (List TokenId)} {s : Text}
    (h : d.update params decodeNext batch (stopTerminated && rest.flatten.isEmpty) = (some s, d')) :
    (feed params decodeNext stopTerminated (batch :: rest) d).1 =
    (some s, [d'.outputText.drop d'.lastOutputTextOffset]) ∧
    (feed params decodeNext stopTerminated (batch :: rest) d).2.outputText = d'.outputText := by
  have ⟨text, whole⟩ := getNextOutputText_finished params d'
  unfold feed
  simp only [h, Option.isSome_some, Bool.true_or]
  exact ⟨by rw [text], whole⟩

theorem feed_last (h : d.update params decodeNext batch stopTerminated = (none, d')) :
    (feed params decodeNext stopTerminated [batch] d).1 =
    (none, [d'.outputText.drop d'.lastOutputTextOffset]) ∧
    (feed params decodeNext stopTerminated [batch] d).2.outputText = d'.outputText := by
  have ⟨text, whole⟩ := getNextOutputText_finished params d'
  unfold feed
  simp only [flatten_nil, isEmpty_nil, Bool.and_true, h, Bool.or_true, feed]
  exact ⟨by rw [text], whole⟩

theorem feed_more {batch next : List TokenId} {rest : List (List TokenId)}
    (h : d.update params decodeNext batch (stopTerminated && (next :: rest).flatten.isEmpty) =
    (none, d')) : feed params decodeNext stopTerminated (batch :: next :: rest) d =
    (((feed params decodeNext stopTerminated (next :: rest)
    (d'.getNextOutputText params false true).2).1.1, (d'.getNextOutputText params false true).1 ::
    (feed params decodeNext stopTerminated (next :: rest)
    (d'.getNextOutputText params false true).2).1.2),
    (feed params decodeNext stopTerminated (next :: rest)
    (d'.getNextOutputText params false true).2).2) := by
  rw [feed, h]
  rfl

/-- The updates of an output end it with its decoded tokens, however these are split, and
their texts make up what had not been returned. -/
theorem Live.feed (h : d.Live params decodeNext before)
    (stopTerminated : Bool) (batch : List TokenId) (rest : List (List TokenId))
    (same : (batch :: rest).flatten ≠ [] → d.tokenIds = before) :
    Ended decodeNext params (before ++ decoded params stopTerminated (batch :: rest).flatten)
    (feed params decodeNext stopTerminated (batch :: rest) d).1.1
    (feed params decodeNext stopTerminated (batch :: rest) d).2.outputText ∧
    (feed params decodeNext stopTerminated (batch :: rest) d).1.2.flatten =
    (feed params decodeNext stopTerminated (batch :: rest) d).2.outputText.drop
    d.lastOutputTextOffset := by
  induction rest generalizing d before batch with
  | nil =>
    have flat : [batch].flatten = batch := append_nil batch
    rw [flat] at same ⊢
    obtain ⟨stopString, d', hu⟩ : ∃ stopString d',
        d.update params decodeNext batch stopTerminated = (stopString, d') := ⟨_, _, rfl⟩
    have ⟨ended, kept, _⟩ := h.updated same stopTerminated
    rw [hu] at ended kept
    dsimp only at ended kept
    cases stopString with
    | none =>
      have ⟨result, whole⟩ := feed_last hu
      rw [result, whole, kept]
      exact ⟨ended, append_nil _⟩
    | some s =>
      have flag : (stopTerminated && ([] : List (List TokenId)).flatten.isEmpty) = stopTerminated :=
        Bool.and_true stopTerminated
      rw [← flag] at hu
      have ⟨result, whole⟩ := feed_stopped hu
      rw [result, whole, kept]
      exact ⟨ended, append_nil _⟩
  | cons next rest ih =>
    have flat : (batch :: next :: rest).flatten = batch ++ (next :: rest).flatten := rfl
    obtain ⟨flag, hflag⟩ : ∃ flag, flag = (stopTerminated && (next :: rest).flatten.isEmpty) :=
      ⟨_, rfl⟩
    have split : decoded params stopTerminated (batch :: next :: rest).flatten =
        decoded params flag batch ++ decoded params stopTerminated (next :: rest).flatten := by
      rw [flat, decoded_append, hflag]
    obtain ⟨stopString, d', hu⟩ : ∃ stopString d',
        d.update params decodeNext batch flag = (stopString, d') := ⟨_, _, rfl⟩
    have first : batch ≠ [] → d.tokenIds = before := fun some =>
      same (by rw [flat]; exact append_ne_nil_of_left_ne_nil some _)
    have ⟨ended, kept, tokens⟩ := h.updated first flag
    rw [hu] at ended kept tokens
    dsimp only at ended kept tokens
    rw [hflag] at hu
    rw [split, ← append_assoc]
    cases stopString with
    | some s =>
      have ⟨result, whole⟩ := feed_stopped hu
      rw [result, whole, kept]
      exact ⟨ended.append _, append_nil _⟩
    | none =>
      have grown : d.outputText.length ≤ d'.outputText.length := by
        rw [ended.2, h.text, textOf_append, length_append]
        exact Nat.le_add_right _ _
      have held := h.held
      have live : d'.Live params decodeNext (before ++ decoded params flag batch) :=
        { text := ended.2
          unstopped := ended.1
          held := by omega }
      have ⟨later, text⟩ := live.pending
      rw [feed_more hu, later, text]
      have live' : ({ d' with
          lastOutputTextOffset := d'.outputText.length - stopBufferLength params }).Live
          params decodeNext (before ++ decoded params flag batch) :=
        { text := ended.2
          unstopped := ended.1
          held := Nat.le_refl _ }
      have ⟨ended', texts⟩ := ih live' next (fun some => by
        have notLast : (next :: rest).flatten.isEmpty = false :=
          isEmpty_eq_false_iff.mpr some
        have kind : decoded params flag batch = batch := by
          rw [hflag, notLast, Bool.and_false]
          rfl
        have first := same (by rw [flat]; exact append_ne_nil_of_right_ne_nil _ some)
        rw [kind, ← first]
        exact tokens)
      have ⟨room, shared⟩ := live'.kept ended'
      refine ⟨ended', ?_⟩
      dsimp only at texts room shared ⊢
      have within : d.lastOutputTextOffset ≤ d'.outputText.length - stopBufferLength params := by
        omega
      rw [flatten_cons, texts, ← shared, kept, ← drop_append_of_le_length,
        take_append_drop]
      rw [length_take]
      omega

theorem live_nil : ({} : Detokenizer).Live params decodeNext [] :=
  { text := rfl
    unstopped := fun s listed _ ends =>
      Nat.le_trans (ends.le_length (params.nonempty s listed)) (Nat.zero_le _)
    held := Nat.zero_le _ }

theorem feed_ended (params : StopParams) (decodeNext : List TokenId → Text) (stopTerminated : Bool)
    (batches : List (List TokenId)) :
    Ended decodeNext params (decoded params stopTerminated batches.flatten)
    (feed params decodeNext stopTerminated batches {}).1.1
    (feed params decodeNext stopTerminated batches {}).2.outputText ∧
    (feed params decodeNext stopTerminated batches {}).1.2.flatten =
    (feed params decodeNext stopTerminated batches {}).2.outputText := by
  cases batches with
  | nil =>
    have nothing : decoded params stopTerminated [] = [] := by
      unfold decoded
      split <;> rfl
    rw [flatten_nil, nothing]
    exact ⟨⟨live_nil.unstopped, rfl⟩, rfl⟩
  | cons batch rest => exact live_nil.feed stopTerminated batch rest fun _ => rfl

/-- However the tokens of an output are split into updates, the stop string and the text are
those of one token for each update: the stop string ends first behind the first `min_tokens`
tokens, and the texts returned make up the whole and are not taken back. -/
theorem feed_split (params : StopParams) (decodeNext : List TokenId → Text) (stopTerminated : Bool)
    (batches : List (List TokenId)) :
    let split := feed params decodeNext stopTerminated batches {}
    let single := feed params decodeNext stopTerminated (batches.flatten.map fun t => [t]) {}
    (split.1.1 = single.1.1 ∧ split.2.outputText = single.2.outputText) ∧
      Ended decodeNext params (decoded params stopTerminated batches.flatten) split.1.1
        split.2.outputText ∧
      split.1.2.flatten = split.2.outputText ∧
        ∀ k, (split.1.2.take k).flatten <+: split.2.outputText := by
  intro split single
  have flat : (batches.flatten.map fun t => [t]).flatten = batches.flatten := by
    induction batches.flatten with
    | nil => rfl
    | cons t rest ih => rw [map_cons, flatten_cons, ih, singleton_append]
  have ⟨ended, texts⟩ := feed_ended params decodeNext stopTerminated batches
  have ⟨ended', _⟩ :=
    feed_ended params decodeNext stopTerminated (batches.flatten.map fun t => [t])
  rw [flat] at ended'
  refine ⟨ended.unique ended', ended, texts, fun k => ?_⟩
  refine ⟨(split.1.2.drop k).flatten, ?_⟩
  rw [← flatten_append, take_append_drop]
  exact texts

end Detokenizer

end VllmAmpere.Detok
