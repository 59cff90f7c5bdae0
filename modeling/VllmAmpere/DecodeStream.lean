import VllmAmpere.AttributedText

/-! The incremental decoder: a window of the last token ids is decoded again with each new
one, and what the text gained over the window's own text is appended. The tokenizer is any
that decodes the same ids to the same text each time. -/

namespace VllmAmpere.TextStream

/-- What may end a stream of decoded text early; `panicked` stands for an `expect`. -/
inductive Error where
  | tokenizer (message : String)
  | llm (message : String)
  | panicked (message : String)
  | samplingMaskTokenCountMismatch (requestId : String) (tokenCount rowCount : Nat)
  | streamClosedBeforeTerminalOutput (requestId : String)
  deriving DecidableEq

structure Tokenizer where
  decode : List UInt32 → (skipSpecialTokens : Bool) → Except Error Bytes
  idToToken : UInt32 → Option Bytes
  isSpecialId : UInt32 → Bool

def replacement : Bytes := [0xEF, 0xBF, 0xBD]

def endsWithReplacement (text : Bytes) : Bool := replacement.isSuffixOf text

def containsReplacement (text : Bytes) : Bool := text.tails.any replacement.isPrefixOf

def safeSuffixMin : Nat := 4
def safeSuffixMax : Nat := 6

structure DecodeStream where
  skipSpecialTokens : Bool
  minBytesToBuffer : Nat
  ids : List UInt32
  prefixText : Bytes
  prefixIndex : Nat
  prefixSeeded : Bool
  decoded : AttributedTextBuffer
  deriving DecidableEq

namespace DecodeStream

def new (promptTokenIds : List UInt32) (skipSpecialTokens : Bool) (minBytesToBuffer : Nat) :
    DecodeStream :=
  { skipSpecialTokens, minBytesToBuffer
    ids := promptTokenIds
    prefixText := []
    prefixIndex := 0
    prefixSeeded := promptTokenIds.isEmpty
    decoded := {} }

variable (tokenizer : Tokenizer)

def decodePromptContext (skipSpecialTokens : Bool) (ids : List UInt32) :
    Except Error (Bytes × List UInt32) :=
  match tokenizer.decode ids skipSpecialTokens with
  | .ok decoded => .ok (decoded, ids)
  | .error error =>
      let filtered := ids.filter fun id => (tokenizer.idToToken id).isSome
      if filtered.length = ids.length then .error error
      else (tokenizer.decode filtered skipSpecialTokens).map fun decoded => (decoded, filtered)

/-- The first of the tail lengths whose filtered context is long enough and decodes clean. -/
def safeSuffix (skipSpecialTokens : Bool) (ids : List UInt32) :
    List Nat → Except Error (Option (Bytes × List UInt32))
  | [] => .ok none
  | suffixLen :: more => do
      let (decoded, contextIds) ←
        decodePromptContext tokenizer skipSpecialTokens (ids.drop (ids.length - suffixLen))
      if !containsReplacement decoded && decide (safeSuffixMin ≤ contextIds.length) then
        .ok (some (decoded, contextIds))
      else safeSuffix skipSpecialTokens ids more

def suffixLengths (promptLen : Nat) : List Nat :=
  if safeSuffixMin < promptLen then
    List.range' safeSuffixMin (min safeSuffixMax (promptLen - 1) + 1 - safeSuffixMin)
  else []

variable (d : DecodeStream)

def seedPrefix : Except Error DecodeStream := do
  match ← safeSuffix tokenizer d.skipSpecialTokens d.ids (suffixLengths d.ids.length) with
  | some (decoded, contextIds) =>
      .ok { d with prefixText := decoded, ids := contextIds, prefixIndex := contextIds.length }
  | none =>
      let (decoded, contextIds) ← decodePromptContext tokenizer d.skipSpecialTokens d.ids
      if endsWithReplacement decoded then .ok { d with ids := contextIds }
      else
        .ok { d with ids := contextIds, prefixText := decoded, prefixIndex := contextIds.length }

def seeded : Except Error DecodeStream :=
  if !d.prefixSeeded && !d.ids.isEmpty then
    (d.seedPrefix tokenizer).map fun d => { d with prefixSeeded := true }
  else .ok d

def newChunk (string : Bytes) : Bytes :=
  string.drop (floorCharBoundary string d.prefixText.length)

def producedText (string : Bytes) : Bool :=
  decide (d.prefixText.length < string.length) && !endsWithReplacement string

variable (tokenId : UInt32)

def zeroWidth (string : Bytes) : Bool :=
  (d.skipSpecialTokens && tokenizer.isSpecialId tokenId) ||
    (!d.producedText string && (tokenizer.idToToken tokenId).isNone)

/-- `push_token` once the prompt context is in place. -/
def pushSeeded : Except Error (DecodeStream × Nat) := do
  let ids := d.ids ++ [tokenId]
  let string ← tokenizer.decode ids d.skipSpecialTokens
  let decoded := d.decoded.record (d.zeroWidth tokenizer tokenId string) tokenId
  if !d.producedText string then .ok ({ d with ids := ids, decoded := decoded }, 0)
  else
    let ids := ids.drop d.prefixIndex
    let prefixText ← tokenizer.decode ids d.skipSpecialTokens
    .ok ({ d with
      ids := ids
      decoded := decoded.appendVisibleText (d.newChunk string)
      prefixText := prefixText
      prefixIndex := ids.length }, (d.newChunk string).length)

def pushToken : Except Error (DecodeStream × Nat) := do
  let d ← d.seeded tokenizer
  d.pushSeeded tokenizer tokenId

def cutoff : Nat :=
  floorCharBoundary d.decoded.text (d.decoded.text.length - d.minBytesToBuffer)

def nextChunk : Option DecodedText × DecodeStream :=
  ((d.decoded.takeReady d.cutoff).1, { d with decoded := (d.decoded.takeReady d.cutoff).2 })

/-- The text still held by the window; the prompt alone is never decoded. -/
def remainder : Except Error Bytes :=
  if d.prefixSeeded && !d.ids.isEmpty then
    (tokenizer.decode d.ids d.skipSpecialTokens).map d.newChunk
  else .ok []

/-- The buffer at the end of the stream, its text cut where a stop string asks for it. -/
def ended (newChunk : Bytes) (truncateOutputTo : Option Nat) :
    AttributedTextBuffer :=
  let decoded := if newChunk.isEmpty then d.decoded else d.decoded.appendVisibleText newChunk
  let decoded := decoded.resolvePendingZeroWidth
  match truncateOutputTo with
  | none => decoded
  | some truncateOutputTo => decoded.truncate truncateOutputTo

def flush (truncateOutputTo : Option Nat) :
    Except Error ((Option DecodedText × DecodedText) × DecodeStream) := do
  let newChunk ← d.remainder tokenizer
  let (chunks, decoded) := (d.ended newChunk truncateOutputTo).finish
  .ok (chunks, { d with
    ids := []
    prefixText := []
    prefixIndex := 0
    prefixSeeded := true
    decoded := decoded })

def output : Bytes := d.decoded.text

def withDecoded (b : AttributedTextBuffer) (d : DecodeStream) : DecodeStream := { d with decoded := b }

def unemitted : DecodeStream := d.withDecoded d.decoded.unemitted

theorem seeded_withDecoded (b : AttributedTextBuffer) :
    (d.withDecoded b).seeded tokenizer = (d.seeded tokenizer).map (withDecoded b) := by
  have context : (d.withDecoded b).seedPrefix tokenizer =
      (d.seedPrefix tokenizer).map (withDecoded b) := by
    unfold seedPrefix
    simp only [withDecoded]
    cases safeSuffix tokenizer d.skipSpecialTokens d.ids (suffixLengths d.ids.length) with
    | error e => rfl
    | ok found =>
        cases found with
        | some _ => rfl
        | none =>
            cases decodePromptContext tokenizer d.skipSpecialTokens d.ids with
            | error e => rfl
            | ok whole =>
                simp only [bind, Except.bind]
                split <;> rfl
  unfold seeded
  rw [context]
  by_cases unseeded : (!d.prefixSeeded && !d.ids.isEmpty) = true
  · rw [if_pos unseeded, if_pos (show (!(d.withDecoded b).prefixSeeded &&
      !(d.withDecoded b).ids.isEmpty) = true from unseeded)]
    cases d.seedPrefix tokenizer <;> rfl
  · rw [if_neg unseeded, if_neg (show ¬(!(d.withDecoded b).prefixSeeded &&
      !(d.withDecoded b).ids.isEmpty) = true from unseeded)]
    rfl

/-- What a step of the decoder adds: text at the end, and nothing is given out. -/
structure Grown (d d' : DecodeStream) (chunk : Bytes) : Prop where
  text : d'.output = d.output ++ chunk
  emitted : d'.decoded.emittedByteOffset = d.decoded.emittedByteOffset
  hold : d'.minBytesToBuffer = d.minBytesToBuffer

theorem seeded_hold {d d' : DecodeStream} (h : d.seeded tokenizer = .ok d') :
    d'.minBytesToBuffer = d.minBytesToBuffer := by
  unfold seeded at h
  split at h
  · cases seeding : d.seedPrefix tokenizer with
    | error e => rw [seeding] at h; cases h
    | ok whole =>
        rw [seeding] at h
        cases h
        unfold seedPrefix at seeding
        cases suffix : safeSuffix tokenizer d.skipSpecialTokens d.ids (suffixLengths d.ids.length) with
        | error e => rw [suffix] at seeding; cases seeding
        | ok found =>
            rw [suffix] at seeding
            cases found with
            | some _ => cases seeding; rfl
            | none =>
                cases context : decodePromptContext tokenizer d.skipSpecialTokens d.ids with
                | error e => simp only [context, bind, Except.bind] at seeding; cases seeding
                | ok _ =>
                    simp only [context, bind, Except.bind] at seeding
                    split at seeding <;> cases seeding <;> rfl
  · cases h
    rfl

theorem seeded_decoded {d d' : DecodeStream} (h : d.seeded tokenizer = .ok d') :
    d'.decoded = d.decoded := by
  have same := seeded_withDecoded tokenizer d d.decoded
  rw [show d.withDecoded d.decoded = d from rfl, h] at same
  have equal : d' = d'.withDecoded d.decoded := Except.ok.inj same
  rw [equal]
  rfl

theorem pushSeeded_unemitted :
    d.unemitted.pushSeeded tokenizer tokenId =
    (d.pushSeeded tokenizer tokenId).map (Prod.map unemitted id) := by
  simp only [pushSeeded, bind, Except.bind]
  rw [show d.unemitted.ids = d.ids from rfl,
    show d.unemitted.skipSpecialTokens = d.skipSpecialTokens from rfl,
    show d.unemitted.prefixIndex = d.prefixIndex from rfl]
  cases tokenizer.decode (d.ids ++ [tokenId]) d.skipSpecialTokens with
  | error e => rfl
  | ok string =>
      dsimp only
      have recorded := d.decoded.record_unemitted (d.zeroWidth tokenizer tokenId string) tokenId
      rw [show d.unemitted.producedText string = d.producedText string from rfl,
        show zeroWidth tokenizer d.unemitted tokenId string = d.zeroWidth tokenizer tokenId string
          from rfl, show d.unemitted.decoded = d.decoded.unemitted from rfl, ← recorded]
      cases d.producedText string with
      | false => rfl
      | true =>
          rw [if_neg (show ¬(!true) = true by decide), if_neg (show ¬(!true) = true by decide)]
          cases tokenizer.decode ((d.ids ++ [tokenId]).drop d.prefixIndex) d.skipSpecialTokens with
          | error e => rfl
          | ok prefixText =>
              dsimp only
              rw [← AttributedTextBuffer.appendVisibleText_unemitted]
              rfl

theorem pushToken_unemitted :
    d.unemitted.pushToken tokenizer tokenId =
    (d.pushToken tokenizer tokenId).map (Prod.map unemitted id) := by
  unfold pushToken
  rw [unemitted, seeded_withDecoded]
  cases seeding : d.seeded tokenizer with
  | error e => rfl
  | ok d' =>
      have decoded := seeded_decoded tokenizer seeding
      rw [← decoded]
      exact pushSeeded_unemitted tokenizer d' tokenId

theorem pushSeeded_grown {d d' : DecodeStream} {tokenId : UInt32} {n : Nat}
    (h : d.pushSeeded tokenizer tokenId = .ok (d', n)) :
    ∃ chunk, chunk.length = n ∧ Grown d d' chunk := by
  simp only [pushSeeded, bind, Except.bind] at h
  cases whole : tokenizer.decode (d.ids ++ [tokenId]) d.skipSpecialTokens with
  | error e => rw [whole] at h; cases h
  | ok string =>
      rw [whole] at h
      dsimp only at h
      split at h
      · cases h
        refine ⟨[], rfl, ?_, ?_, rfl⟩
        · simp only [output, AttributedTextBuffer.record_text, List.append_nil]
        · exact d.decoded.record_emitted _ _
      · cases window : tokenizer.decode ((d.ids ++ [tokenId]).drop d.prefixIndex)
            d.skipSpecialTokens with
        | error e => rw [window] at h; cases h
        | ok prefixText =>
            rw [window] at h
            cases h
            refine ⟨d.newChunk string, rfl, ?_, ?_, rfl⟩
            · simp only [output, AttributedTextBuffer.appendVisibleText,
                AttributedTextBuffer.record_text]
            · simp only [AttributedTextBuffer.appendVisibleText_emitted,
                AttributedTextBuffer.record_emitted]

theorem pushToken_grown {d d' : DecodeStream} {tokenId : UInt32} {n : Nat}
    (h : d.pushToken tokenizer tokenId = .ok (d', n)) :
    ∃ chunk, chunk.length = n ∧ Grown d d' chunk := by
  unfold pushToken at h
  cases seeding : d.seeded tokenizer with
  | error e => rw [seeding] at h; cases h
  | ok seeded =>
      have decoded := seeded_decoded tokenizer seeding
      rw [seeding] at h
      have ⟨chunk, length, grown⟩ := pushSeeded_grown tokenizer h
      refine ⟨chunk, length, ?_, ?_, ?_⟩
      · rw [grown.text, output, decoded, output]
      · rw [grown.emitted, decoded]
      · rw [grown.hold, seeded_hold tokenizer seeding]

section emission

variable (d : DecodeStream)

theorem nextChunk_text :
    DecodedText.textOf d.nextChunk.1 = (d.output.take d.cutoff).drop d.decoded.emittedByteOffset :=
  d.decoded.takeReady_chunk d.cutoff

theorem nextChunk_emitted : d.nextChunk.2.decoded.emittedByteOffset = d.cutoff :=
  d.decoded.takeReady_emitted d.cutoff

theorem nextChunk_output : d.nextChunk.2.output = d.output :=
  d.decoded.takeReady_text d.cutoff

theorem nextChunk_cutoff : d.nextChunk.2.cutoff = d.cutoff :=
  congrArg (fun text : Bytes => floorCharBoundary text (text.length - d.minBytesToBuffer))
    d.nextChunk_output

theorem nextChunk_unemitted : d.nextChunk.2.unemitted = d.unemitted :=
  congrArg d.withDecoded (d.decoded.takeReady_unemitted d.cutoff)

theorem cutoff_le : d.cutoff ≤ d.output.length := floorCharBoundary_le_length _ _

theorem cutoff_le_sub : d.cutoff ≤ d.output.length - d.minBytesToBuffer :=
  floorCharBoundary_le _ _

theorem Grown.cutoff_le {d d' : DecodeStream} {chunk : Bytes} (h : Grown d d' chunk) :
    d.cutoff ≤ d'.cutoff := by
  have longer := floorCharBoundary_append d.output chunk d.minBytesToBuffer
  rw [← h.text, ← h.hold] at longer
  rwa [cutoff, ← h.hold]

theorem Grown.trans {d d' d'' : DecodeStream} {chunk chunk' : Bytes} (h : Grown d d' chunk)
    (h' : Grown d' d'' chunk') : Grown d d'' (chunk ++ chunk') where
  text := by rw [h'.text, h.text, List.append_assoc]
  emitted := h'.emitted.trans h.emitted
  hold := h'.hold.trans h.hold

end emission

section flush

variable (d : DecodeStream) (rest : Bytes) (truncateOutputTo : Option Nat)

def cutText (text : Bytes) : Bytes := truncateOutputTo.elim text text.take

theorem ended_text : (d.ended rest truncateOutputTo).text =
    cutText truncateOutputTo (d.output ++ rest) := by
  have whole : (if rest.isEmpty then d.decoded else d.decoded.appendVisibleText rest).text =
      d.output ++ rest := by
    cases rest with
    | nil => exact (List.append_nil _).symm
    | cons _ _ => rfl
  cases truncateOutputTo with
  | none => exact (AttributedTextBuffer.resolvePending_text _ _).trans whole
  | some cut =>
      exact congrArg (List.take cut) ((AttributedTextBuffer.resolvePending_text _ _).trans whole)

theorem ended_emitted : (d.ended rest truncateOutputTo).emittedByteOffset =
    d.decoded.emittedByteOffset := by
  have whole : (if rest.isEmpty then d.decoded
      else d.decoded.appendVisibleText rest).emittedByteOffset = d.decoded.emittedByteOffset := by
    cases rest with
    | nil => rfl
    | cons _ _ => exact d.decoded.appendVisibleText_emitted _
  cases truncateOutputTo <;> exact (AttributedTextBuffer.resolvePending_emitted _ _).trans whole

theorem flush_error {e : Error} (h : d.remainder tokenizer = .error e) :
    d.flush tokenizer truncateOutputTo = .error e := by
  unfold flush
  rw [h]
  rfl

theorem flush_ok (h : d.remainder tokenizer = .ok rest) :
    ∃ last full d', d.flush tokenizer truncateOutputTo = .ok ((last, full), d') ∧
    full.text = cutText truncateOutputTo (d.output ++ rest) ∧
    DecodedText.textOf last = full.text.drop d.decoded.emittedByteOffset := by
  refine ⟨(d.ended rest truncateOutputTo).finish.1.1, (d.ended rest truncateOutputTo).finish.1.2,
    { d with ids := [], prefixText := [], prefixIndex := 0, prefixSeeded := true, decoded := {} },
    ?_, d.ended_text rest truncateOutputTo, ?_⟩
  · unfold flush
    rw [h]
    rfl
  · refine (AttributedTextBuffer.finish_chunk _).trans ?_
    rw [d.ended_emitted rest truncateOutputTo]
    rfl

end flush

end DecodeStream
end VllmAmpere.TextStream
