import VllmAmpere.AttributedPieces
import VllmAmpere.DecodeStream
import VllmAmpere.MarkerSearch

/-! The parser of reasoning between delimiters: the text of a stream, chunk by chunk, split
into reasoning and content. -/

open List

namespace VllmAmpere.OutputText

open TextStream (Bytes DecodedText isContinuation)

/-- One parsed delta split into reasoning and visible content. -/
structure ReasoningDelta where
  reasoning : Option DecodedText := none
  content : Option DecodedText := none
  deriving DecidableEq

namespace ReasoningDelta

/-- A portion with a piece of text appended to it; an empty piece leaves it as it is. -/
def pushPiece (portion : Option DecodedText) (piece : DecodedText) : Option DecodedText :=
  if piece.isEmpty then portion
  else match portion with
    | some existing => some (existing.append piece)
    | none => some piece

def pushReasoning (delta : ReasoningDelta) (piece : DecodedText) : ReasoningDelta :=
  { delta with reasoning := pushPiece delta.reasoning piece }

def pushContent (delta : ReasoningDelta) (piece : DecodedText) : ReasoningDelta :=
  { delta with content := pushPiece delta.content piece }

end ReasoningDelta

/-- The fixed text at each boundary. The delimiters are not empty, no text begins inside a
character, and the text to consume behind a delimiter has no delimiter in it. -/
structure ReasoningDelimiters where
  startToken : Bytes
  endToken : Bytes
  beforeStart : Bytes := []
  afterStart : Bytes := []
  beforeEnd : Bytes := []
  afterEnd : Bytes := []
  start_ne : startToken ≠ []
  end_ne : endToken ≠ []
  start_chars : StartsChar startToken
  end_chars : StartsChar endToken
  beforeStart_chars : StartsChar beforeStart
  beforeEnd_chars : StartsChar beforeEnd
  apart : ∀ marker ∈ [startToken, endToken], ∀ text ∈ [afterStart, afterEnd], ¬marker <:+: text

namespace ReasoningDelimiters

variable (d : ReasoningDelimiters) (inReasoning : Bool)

def marker : Bytes := if inReasoning then d.endToken else d.startToken

def before : Bytes := if inReasoning then d.beforeEnd else d.beforeStart

def framedMarker : Bytes := d.before inReasoning ++ d.marker inReasoning

def after : Bytes := if inReasoning then d.afterStart else d.afterEnd

theorem marker_ne (m : Bool) : d.marker m ≠ [] := by
  cases m
  · exact d.start_ne
  · exact d.end_ne

theorem marker_chars (m : Bool) : StartsChar (d.marker m) := by
  cases m
  · exact d.start_chars
  · exact d.end_chars

theorem framedMarker_chars (m : Bool) : StartsChar (d.framedMarker m) := by
  have hbefore : StartsChar (d.before m) := by
    cases m
    · exact d.beforeStart_chars
    · exact d.beforeEnd_chars
  unfold framedMarker
  cases hb : d.before m with
  | nil => exact d.marker_chars m
  | cons b rest => exact fun c hc => hbefore c (hb ▸ hc)

/-- How much of a text is held back as the begin of a delimiter. -/
def keepLen (text : Bytes) : Nat :=
  max (partialPrefixLen text (d.marker inReasoning))
    (partialPrefixLen text (d.framedMarker inReasoning))

/-- The next boundary of a text: the length of the body before it and where it ends. -/
def boundary (text : Bytes) : Option (Nat × Nat) :=
  (find text (d.marker inReasoning)).map fun index =>
    (if (d.before inReasoning).isSuffixOf (text.take index) then
        index - (d.before inReasoning).length
      else index,
      index + (d.marker inReasoning).length)

section boundaries

variable {d} {m : Bool} {text more : Bytes} {b e n : Nat}

theorem boundary_eq_some (h : d.boundary m text = some (b, e)) :
    ∃ index, FirstAt text (d.marker m) index ∧ e = index + (d.marker m).length ∧
    b = if (d.before m).isSuffixOf (text.take index) then index - (d.before m).length
    else index := by
  unfold boundary at h
  obtain ⟨index, hfind, hpair⟩ := Option.map_eq_some_iff.mp h
  rw [Prod.mk.injEq] at hpair
  exact ⟨index, (find_eq_some (d.marker_ne m)).mp hfind, hpair.2.symm, hpair.1.symm⟩

theorem boundary_of_first {index : Nat} (h : FirstAt text (d.marker m) index) :
    d.boundary m text = some
    (if (d.before m).isSuffixOf (text.take index) then index - (d.before m).length else index,
    index + (d.marker m).length) := by
  unfold boundary
  rw [(find_eq_some (d.marker_ne m)).mpr h]
  rfl

theorem boundary_eq_none : d.boundary m text = none ↔ ∀ j, ¬d.marker m <+: text.drop j := by
  unfold boundary
  rw [Option.map_eq_none_iff, find_eq_none (d.marker_ne m)]

theorem boundary_bounds (h : d.boundary m text = some (b, e)) : b < e ∧ e ≤ text.length := by
  obtain ⟨index, hfirst, rfl, hb⟩ := boundary_eq_some h
  have hle := occurs_le (d.marker_ne m) hfirst.occurs
  have hpos := length_pos_iff.mpr (d.marker_ne m)
  split at hb <;> omega

theorem boundary_append (h : d.boundary m text = some (b, e)) (more : Bytes) :
    d.boundary m (text ++ more) = some (b, e) := by
  obtain ⟨index, hfirst, rfl, rfl⟩ := boundary_eq_some h
  have hle := occurs_le (d.marker_ne m) hfirst.occurs
  rw [boundary_of_first (hfirst.append (d.marker_ne m) more),
    take_append_of_le_length (by omega)]

theorem boundary_of_append (h : d.boundary m (text ++ more) = some (b, e)) (he : e ≤ text.length) :
    d.boundary m text = some (b, e) := by
  cases hb : d.boundary m text with
  | some be => rw [← h, boundary_append (b := be.1) (e := be.2) hb]
  | none =>
    obtain ⟨index, hfirst, rfl, -⟩ := boundary_eq_some h
    exact absurd (occurs_of_append hfirst.occurs he) (boundary_eq_none.mp hb index)

theorem boundary_suffix_after (n : Bool) (h : text <:+ d.after n) : d.boundary m text = none := by
  rw [boundary_eq_none]
  intro j hpre
  have hinfix : d.marker m <:+: d.after n :=
    (hpre.isInfix.trans (drop_suffix j text).isInfix).trans h.isInfix
  refine d.apart (d.marker m) ?_ (d.after n) ?_ hinfix
  · cases m
    · exact mem_cons_self
    · exact mem_cons_of_mem _ mem_cons_self
  · cases n
    · exact mem_cons_of_mem _ mem_cons_self
    · exact mem_cons_self

theorem boundary_drop_none (h : d.boundary m text = none) (n : Nat) :
    d.boundary m (text.drop n) = none := by
  rw [boundary_eq_none] at h ⊢
  intro j hpre
  rw [drop_drop] at hpre
  exact h _ hpre

theorem boundary_drop (h : d.boundary m text = some (b, e)) (hn : n ≤ b) :
    d.boundary m (text.drop n) = some (b - n, e - n) := by
  obtain ⟨index, hfirst, rfl, hb⟩ := boundary_eq_some h
  have hle := occurs_le (d.marker_ne m) hfirst.occurs
  have hindex : b ≤ index := by split at hb <;> omega
  rw [boundary_of_first (hfirst.drop (Nat.le_trans hn hindex))]
  have htake : (text.drop n).take (index - n) = (text.take index).drop n := by
    rw [drop_take]
  have hsuffix : (d.before m).isSuffixOf ((text.drop n).take (index - n)) =
      (d.before m).isSuffixOf (text.take index) := by
    rw [htake, Bool.eq_iff_iff, isSuffixOf_iff_suffix, isSuffixOf_iff_suffix]
    constructor
    · exact fun hs => hs.trans (drop_suffix _ _)
    · intro hs
      rw [if_pos (isSuffixOf_iff_suffix.mpr hs)] at hb
      have hlen := hs.length_le
      rw [length_take_of_le (by omega)] at hlen
      refine suffix_of_suffix_length_le hs (drop_suffix _ _) ?_
      rw [length_drop, length_take_of_le (by omega)]
      omega
  rw [hsuffix, Option.some.injEq, Prod.mk.injEq]
  split at hb <;> simp_all <;> omega

theorem boundary_text (h : d.boundary m text = some (b, e)) :
    (text.drop b).take (e - b) = d.marker m ∨ (text.drop b).take (e - b) = d.framedMarker m := by
  obtain ⟨index, hfirst, rfl, hb⟩ := boundary_eq_some h
  have hle := occurs_le (d.marker_ne m) hfirst.occurs
  obtain ⟨rest, hrest⟩ := hfirst.occurs
  split at hb
  · rename_i hs
    rw [isSuffixOf_iff_suffix] at hs
    have hlen := hs.length_le
    rw [length_take_of_le (by omega)] at hlen
    have hbefore : d.before m = (text.take index).drop b := by
      rw [suffix_iff_eq_drop, length_take_of_le (by omega), ← hb] at hs
      exact hs
    have htake : b ≤ (text.take index).length := by
      rw [length_take_of_le (by omega)]
      omega
    have hdrop : text.drop b = d.framedMarker m ++ rest := by
      rw [framedMarker, append_assoc, hrest, hbefore, ← drop_append_of_le_length htake,
        take_append_drop]
    refine .inr ?_
    rw [hdrop, take_left' (by rw [framedMarker, length_append]; omega)]
  · refine .inl ?_
    rw [hb, ← hrest, Nat.add_sub_cancel_left, take_left]

theorem keepLen_le : d.keepLen m text ≤ text.length :=
  Nat.max_le.mpr ⟨partialPrefixLen_le, partialPrefixLen_le⟩

theorem le_keepLen {token : Bytes} (htoken : token = d.marker m ∨ token = d.framedMarker m)
    (h : HeldBy text token n) : n ≤ d.keepLen m text := by
  have hle := h.le_partialPrefixLen
  unfold keepLen
  rcases htoken with rfl | rfl <;> omega

theorem keepLen_pos (h : 0 < d.keepLen m text) :
    ∃ token, (token = d.marker m ∨ token = d.framedMarker m) ∧
    HeldBy text token (d.keepLen m text) := by
  unfold keepLen at h ⊢
  rcases Nat.le_total (partialPrefixLen text (d.marker m))
    (partialPrefixLen text (d.framedMarker m)) with hle | hle
  · rw [Nat.max_eq_right hle] at h ⊢
    exact ⟨_, .inr rfl, partialPrefixLen_pos h⟩
  · rw [Nat.max_eq_left hle] at h ⊢
    exact ⟨_, .inl rfl, partialPrefixLen_pos h⟩

theorem token_chars {token : Bytes} (htoken : token = d.marker m ∨ token = d.framedMarker m) :
    StartsChar token := by
  rcases htoken with rfl | rfl
  · exact d.marker_chars m
  · exact d.framedMarker_chars m

theorem boundary_held (h : d.boundary m text = none) (hmore : StartsChar more)
    (hsome : d.boundary m (text ++ more) = some (b, e)) :
    text.length - d.keepLen m text ≤ b ∧ text.length < e := by
  obtain ⟨index, hfirst, rfl, hb⟩ := boundary_eq_some hsome
  have hover : text.length < index + (d.marker m).length := by
    by_contra hle
    exact boundary_eq_none.mp h index
      (occurs_of_append hfirst.occurs (Nat.le_of_not_lt hle))
  refine ⟨?_, hover⟩
  by_cases hlt : b < text.length
  · suffices hheld : ∃ token, (token = d.marker m ∨ token = d.framedMarker m) ∧
        HeldBy text token (text.length - b) by
      obtain ⟨token, htoken, hheld⟩ := hheld
      have := le_keepLen htoken hheld
      omega
    split at hb
    · rename_i hs
      rw [isSuffixOf_iff_suffix] at hs
      have hle := occurs_le (d.marker_ne m) hfirst.occurs
      have hlen := hs.length_le
      rw [length_take_of_le (by omega)] at hlen
      refine ⟨_, .inr rfl, heldBy_of_prefix (k := (d.framedMarker m).length)
        (d.framedMarker_chars m) hmore ?_ hlt (Nat.le_refl _) ?_⟩
      · rw [take_length]
        obtain ⟨rest, hrest⟩ := hfirst.occurs
        have hbefore : d.before m = ((text ++ more).take index).drop b := by
          rw [suffix_iff_eq_drop, length_take_of_le (by omega), ← hb] at hs
          exact hs
        refine ⟨rest, ?_⟩
        have htake : b ≤ ((text ++ more).take index).length := by
          rw [length_take_of_le (by omega)]
          omega
        rw [framedMarker, append_assoc, hrest, hbefore,
          ← drop_append_of_le_length htake, take_append_drop]
      · rw [framedMarker, length_append]
        omega
    · subst hb
      refine ⟨_, .inl rfl, heldBy_of_prefix (k := (d.marker m).length)
        (d.marker_chars m) hmore ?_ hlt (Nat.le_refl _) hover⟩
      rw [take_length]
      exact hfirst.occurs
  · omega

theorem keepLen_append (hmore : StartsChar more) : text.length - d.keepLen m text ≤
    (text ++ more).length - d.keepLen m (text ++ more) := by
  by_cases hne : more = []
  · rw [hne, append_nil]
  by_cases hlt : more.length < d.keepLen m (text ++ more)
  · obtain ⟨token, htoken, hheld⟩ := keepLen_pos (Nat.zero_lt_of_lt hlt)
    have hbefore := le_keepLen htoken (hheld.of_append (token_chars htoken) hmore hne hlt)
    rw [length_append]
    omega
  · rw [length_append]
    omega

theorem keepLen_drop (h : n ≤ text.length - d.keepLen m text) :
    d.keepLen m (text.drop n) = d.keepLen m text := by
  have hle : d.keepLen m text ≤ text.length := keepLen_le
  refine Nat.le_antisymm ?_ ?_
  · rcases Nat.eq_zero_or_pos (d.keepLen m (text.drop n)) with hzero | hpos
    · omega
    · obtain ⟨token, htoken, hheld⟩ := keepLen_pos hpos
      exact le_keepLen htoken ((heldBy_drop (token_chars htoken)).mp hheld).1
  · rcases Nat.eq_zero_or_pos (d.keepLen m text) with hzero | hpos
    · omega
    · obtain ⟨token, htoken, hheld⟩ := keepLen_pos hpos
      exact le_keepLen htoken ((heldBy_drop (token_chars htoken)).mpr ⟨hheld, by omega⟩)

theorem keepLen_take (hall : d.keepLen m (text ++ more) = (text ++ more).length)
    (hmore : StartsChar more) : d.keepLen m text = text.length := by
  have happend : text.length - d.keepLen m text ≤
      (text ++ more).length - d.keepLen m (text ++ more) := keepLen_append hmore
  have hle : d.keepLen m text ≤ text.length := keepLen_le
  omega

end boundaries

end ReasoningDelimiters

/-- The state machine of one stream. -/
structure DelimitedReasoningParser extends ReasoningDelimiters where
  tokenizer : TextStream.Tokenizer
  startTokenId : UInt32
  endTokenId : UInt32
  currentInReasoning : Bool
  buffer : DecodedText
  pendingAfter : Bytes

/-- The last delimiter of a prompt that no other special token follows, with its position. -/
def lastReasoningBoundaryPosition (promptTokenIds : List UInt32) (startTokenId endTokenId : UInt32)
    (tokenizer : TextStream.Tokenizer) : Option (Nat × Bool) :=
  promptTokenIds.zipIdx.reverse.findSome? (fun entry =>
    if entry.1 = startTokenId then some (some (entry.2, true))
    else if entry.1 = endTokenId then some (some (entry.2, false))
    else if tokenizer.isSpecialId entry.1 then some none
    else none) |>.join

namespace DelimitedReasoningParser

variable (p : DelimitedReasoningParser)

/-- `initialize`: the starting state and remaining framing from prompt tokens. -/
def initializeFrom (promptTokenIds : List UInt32) :
    Except TextStream.Error DelimitedReasoningParser :=
  let cleared := { p with buffer := {}, currentInReasoning := false, pendingAfter := [] }
  match lastReasoningBoundaryPosition promptTokenIds p.startTokenId p.endTokenId p.tokenizer with
  | none => .ok cleared
  | some (index, inReasoning) =>
    let entered :=
      { cleared with currentInReasoning := inReasoning, pendingAfter := p.after inReasoning }
    if entered.pendingAfter ≠ [] ∧ index + 1 < promptTokenIds.length then do
      let tail ← p.tokenizer.decode (promptTokenIds.drop (index + 1)) false
      .ok { entered with
        pendingAfter := if tail.isPrefixOf entered.pendingAfter then
          entered.pendingAfter.drop tail.length else [] }
    else .ok entered

def pushBody (delta : ReasoningDelta) (body : DecodedText) : ReasoningDelta :=
  if p.currentInReasoning then delta.pushReasoning body else delta.pushContent body

/-- What is buffered may still become the text that is to be consumed. -/
def waits (finishing : Bool) : Bool :=
  !p.pendingAfter.isEmpty && !p.pendingAfter.isPrefixOf p.buffer.text &&
    (!finishing && p.buffer.text.isPrefixOf p.pendingAfter)

/-- The text to consume is consumed; a mismatch preserves it as body text. -/
def consumeAfter : DelimitedReasoningParser :=
  if !p.pendingAfter.isEmpty && p.pendingAfter.isPrefixOf p.buffer.text then
    { p with buffer := (p.buffer.drainPrefix p.pendingAfter.length).2, pendingAfter := [] }
  else { p with pendingAfter := [] }

/-- The loop of `parse_buffer`; a pass that goes on has drained a delimiter. -/
def parseLoop (finishing : Bool) : Nat → DelimitedReasoningParser → ReasoningDelta →
    ReasoningDelta × DelimitedReasoningParser
  | 0, p, delta => (delta, p)
  | fuel + 1, p, delta =>
    if p.waits finishing then (delta, p)
    else
      let p := p.consumeAfter
      match p.boundary p.currentInReasoning p.buffer.text with
      | some (bodyLen, boundaryEnd) =>
        let (body, buffer) := p.buffer.drainPrefix bodyLen
        let delta := p.pushBody delta body
        let (_, buffer) := buffer.drainPrefix (boundaryEnd - bodyLen)
        parseLoop finishing fuel
          { p with
            buffer := buffer
            currentInReasoning := !p.currentInReasoning
            pendingAfter := p.after !p.currentInReasoning } delta
      | none =>
        let keepLen := if finishing then 0 else p.keepLen p.currentInReasoning p.buffer.text
        let (body, buffer) := p.buffer.drainPrefix (p.buffer.text.length - keepLen)
        (p.pushBody delta body, { p with buffer := buffer })

def parseBuffer (finishing : Bool) : ReasoningDelta × DelimitedReasoningParser :=
  parseLoop finishing (p.buffer.text.length + 1) p {}

def push (delta : DecodedText) : ReasoningDelta × DelimitedReasoningParser :=
  { p with buffer := p.buffer.append delta }.parseBuffer false

/-- Flush partial framing and delimiters as body text at end of stream. -/
def finish : ReasoningDelta × DelimitedReasoningParser := p.parseBuffer true

/-- The deltas of the pushes of a stream and of its end. -/
def run : DelimitedReasoningParser → List DecodedText → List ReasoningDelta
  | p, [] => [p.finish.1]
  | p, chunk :: chunks => (p.push chunk).1 :: run (p.push chunk).2 chunks

theorem initializeFrom_state {p q : DelimitedReasoningParser} {promptTokenIds : List UInt32}
    (h : p.initializeFrom promptTokenIds = .ok q) :
    q.buffer = {} ∧ ∃ inReasoning, q.pendingAfter <:+ q.after inReasoning := by
  unfold initializeFrom at h
  dsimp only at h
  split at h
  · cases h
    exact ⟨rfl, true, nil_suffix⟩
  · rename_i index inReasoning _
    split at h
    · cases hdecode : p.tokenizer.decode (promptTokenIds.drop (index + 1)) false with
      | error e =>
        rw [hdecode] at h
        cases h
      | ok tail =>
        rw [hdecode] at h
        cases h
        refine ⟨rfl, inReasoning, ?_⟩
        dsimp only
        split
        · exact drop_suffix _ _
        · exact nil_suffix
    · cases h
      exact ⟨rfl, inReasoning, suffix_refl _⟩

end DelimitedReasoningParser

end VllmAmpere.OutputText
