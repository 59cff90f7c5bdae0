import Mathlib.Data.List.Basic

/-! Decoded text together with the tokens it came from, and the buffer that gives it out in
chunks. A text is the list of its UTF-8 bytes, and an offset is a number without the 4 GiB
limit at which the source panics. -/

open List

namespace VllmAmpere.TextStream

abbrev Bytes := List UInt8

/-- A byte inside a character, which `is_char_boundary` refuses. -/
def isContinuation (b : UInt8) : Bool := b &&& 0xC0 == 0x80

/-- The walk of `floor_char_boundary` down from an index inside the text. -/
def floorFrom (text : Bytes) : Nat → Nat
  | 0 => 0
  | i + 1 => if (text[i + 1]?).any isContinuation then floorFrom text i else i + 1

def floorCharBoundary (text : Bytes) (index : Nat) : Nat :=
  if text.length ≤ index then text.length else floorFrom text index

section floor

variable (text more : Bytes)

theorem floorFrom_le (i : Nat) : floorFrom text i ≤ i := by
  induction i with
  | zero => exact Nat.le_refl 0
  | succ i ih =>
      rw [floorFrom]
      split
      · omega
      · exact Nat.le_refl _

theorem floorFrom_mono {i j : Nat} (order : i ≤ j) : floorFrom text i ≤ floorFrom text j := by
  induction order with
  | refl => exact Nat.le_refl _
  | step order ih =>
      rw [floorFrom]
      split
      · exact ih
      · exact Nat.le_trans (floorFrom_le text i) (Nat.le_succ_of_le order)

theorem floorFrom_append {i : Nat} (inside : i < text.length) :
    floorFrom (text ++ more) i = floorFrom text i := by
  induction i with
  | zero => rfl
  | succ i ih =>
      rw [floorFrom, floorFrom, ih (by omega), getElem?_append_left inside]

theorem floorCharBoundary_le_length (i : Nat) : floorCharBoundary text i ≤ text.length := by
  have bound := floorFrom_le text i
  unfold floorCharBoundary
  split <;> omega

theorem floorCharBoundary_le (i : Nat) : floorCharBoundary text i ≤ i := by
  have bound := floorFrom_le text i
  unfold floorCharBoundary
  split <;> omega

theorem floorCharBoundary_append (hold : Nat) : floorCharBoundary text (text.length - hold) ≤
    floorCharBoundary (text ++ more) ((text ++ more).length - hold) := by
  rw [length_append]
  by_cases whole : text.length ≤ text.length - hold
  · have first := floorCharBoundary_le text (text.length - hold)
    unfold floorCharBoundary at first ⊢
    rw [if_pos whole, length_append]
    split <;> omega
  · have order : text.length - hold ≤ text.length + more.length - hold := by omega
    unfold floorCharBoundary
    rw [if_neg whole, length_append, if_neg (by omega), ← floorFrom_append text more (by omega)]
    exact floorFrom_mono _ order

end floor

/-- Position of one generated token in decoded text. -/
inductive TokenAnchor where
  | visible (byteOffset : Nat)
  | zeroWidth (byteOffset : Nat)
  deriving DecidableEq

namespace TokenAnchor

def byteOffset : TokenAnchor → Nat
  | visible byteOffset | zeroWidth byteOffset => byteOffset

def offsetBy (delta : Int) : TokenAnchor → TokenAnchor
  | visible byteOffset => visible (byteOffset + delta).toNat
  | zeroWidth byteOffset => zeroWidth (byteOffset + delta).toNat

end TokenAnchor

structure TokenAttribution where
  tokenId : UInt32
  anchor : TokenAnchor
  deriving DecidableEq

structure DecodedText where
  text : Bytes := []
  attributions : List TokenAttribution := []
  deriving DecidableEq

namespace DecodedText

def isEmpty (d : DecodedText) : Bool := d.text.isEmpty && d.attributions.isEmpty

def append (d other : DecodedText) : DecodedText :=
  if d.isEmpty then other
  else
    { text := d.text ++ other.text
      attributions := d.attributions ++ other.attributions.map fun attribution =>
        { attribution with anchor := attribution.anchor.offsetBy d.text.length } }

def textOf (chunk : Option DecodedText) : Bytes := (chunk.map text).getD []

theorem text_append_empty (chunk : Option DecodedText) :
    (chunk.elim {} (append {})).text = textOf chunk := by
  cases chunk <;> rfl

end DecodedText

inductive PendingAnchor where
  | unresolved
  | resolved (anchor : TokenAnchor)
  deriving DecidableEq

structure PendingAttribution where
  tokenId : UInt32
  anchor : PendingAnchor
  deriving DecidableEq

namespace PendingAttribution

def resolve (anchor : TokenAnchor) (a : PendingAttribution) : PendingAttribution :=
  match a.anchor with
  | .unresolved => { a with anchor := .resolved anchor }
  | .resolved _ => a

/-- Whether an attribution goes out with the text before a cutoff. -/
def ready (cutoff : Nat) (a : PendingAttribution) : Bool :=
  match a.anchor with
  | .unresolved => false
  | .resolved (.visible byteOffset) => byteOffset < cutoff
  | .resolved (.zeroWidth byteOffset) => byteOffset ≤ cutoff

/-- An anchor moved to the boundary of a truncated text. -/
def collapse (byteOffset : Nat) (a : PendingAttribution) : PendingAttribution :=
  match a.anchor with
  | .unresolved => a
  | .resolved anchor =>
      if byteOffset ≤ anchor.byteOffset then { a with anchor := .resolved (.zeroWidth byteOffset) }
      else a

/-- The attribution given out; what is given out is resolved. -/
def given (delta : Int) (a : PendingAttribution) : Option TokenAttribution :=
  match a.anchor with
  | .unresolved => none
  | .resolved anchor => some ⟨a.tokenId, anchor.offsetBy delta⟩

end PendingAttribution

structure AttributedTextBuffer where
  text : Bytes := []
  emittedByteOffset : Nat := 0
  attributions : List PendingAttribution := []
  emittedAttributionCount : Nat := 0
  pendingStart : Option Nat := none
  deriving DecidableEq

namespace AttributedTextBuffer

variable (b : AttributedTextBuffer)

def recordPendingToken (tokenId : UInt32) : AttributedTextBuffer :=
  { b with
    pendingStart := some (b.pendingStart.getD b.attributions.length)
    attributions := b.attributions ++ [⟨tokenId, .unresolved⟩] }

def recordZeroWidthToken (tokenId : UInt32) : AttributedTextBuffer :=
  { b with
    attributions := b.attributions ++ [⟨tokenId, .resolved (.zeroWidth b.text.length)⟩] }

variable (zeroWidth : Bool)

/-- A token recorded as one of no width, or as waiting for its text. -/
def record (tokenId : UInt32) : AttributedTextBuffer :=
  if zeroWidth then b.recordZeroWidthToken tokenId else b.recordPendingToken tokenId

variable (anchor : TokenAnchor)

def resolvePending : AttributedTextBuffer :=
  match b.pendingStart with
  | none => b
  | some pendingStart =>
      { b with
        pendingStart := none
        attributions := b.attributions.take pendingStart ++
          (b.attributions.drop pendingStart).map (PendingAttribution.resolve anchor) }

def appendVisibleText (text : Bytes) : AttributedTextBuffer :=
  { b.resolvePending (.visible b.text.length) with text := b.text ++ text }

def resolvePendingZeroWidth : AttributedTextBuffer :=
  b.resolvePending (.zeroWidth b.text.length)

def truncate (byteOffset : Nat) : AttributedTextBuffer :=
  { b with
    text := b.text.take byteOffset
    attributions := b.attributions.map (PendingAttribution.collapse byteOffset) }

variable (cutoff : Nat)

def readyAttributions : List PendingAttribution :=
  (b.attributions.drop b.emittedAttributionCount).takeWhile (PendingAttribution.ready cutoff)

/-- Emit decoded text and attributions ready through `cutoff`. -/
def takeReady : Option DecodedText × AttributedTextBuffer :=
  if cutoff = b.emittedByteOffset ∧ b.readyAttributions cutoff = [] then (none, b)
  else
    (some
      { text := (b.text.take cutoff).drop b.emittedByteOffset
        attributions := (b.readyAttributions cutoff).filterMap
          (PendingAttribution.given (-b.emittedByteOffset)) },
      { b with
        emittedByteOffset := cutoff
        emittedAttributionCount :=
          b.emittedAttributionCount + (b.readyAttributions cutoff).length })

/-- The last chunk and the complete text; the buffer is left empty. -/
def finish : (Option DecodedText × DecodedText) × AttributedTextBuffer :=
  (((b.takeReady b.text.length).1,
    { text := b.text
      attributions := b.attributions.filterMap (PendingAttribution.given 0) }), {})

theorem takeReady_chunk :
    DecodedText.textOf (b.takeReady cutoff).1 = (b.text.take cutoff).drop b.emittedByteOffset := by
  unfold takeReady
  split
  case isTrue still =>
    rw [still.1]
    exact (drop_eq_nil_of_le (length_take_le _ _)).symm
  case isFalse => rfl

theorem takeReady_emitted : (b.takeReady cutoff).2.emittedByteOffset = cutoff := by
  unfold takeReady
  split
  case isTrue still => exact still.1.symm
  case isFalse => rfl

theorem takeReady_text : (b.takeReady cutoff).2.text = b.text := by
  unfold takeReady
  split <;> rfl

theorem finish_chunk : DecodedText.textOf b.finish.1.1 = b.text.drop b.emittedByteOffset := by
  refine (b.takeReady_chunk b.text.length).trans ?_
  rw [take_length]

def unemitted : AttributedTextBuffer :=
  { b with emittedByteOffset := 0, emittedAttributionCount := 0 }

@[simp] theorem takeReady_unemitted :
    (b.takeReady cutoff).2.unemitted = b.unemitted := by
  unfold takeReady
  split <;> rfl

@[simp] theorem record_unemitted (tokenId : UInt32) :
    (b.record zeroWidth tokenId).unemitted = b.unemitted.record zeroWidth tokenId := by
  cases zeroWidth <;> rfl

@[simp] theorem record_text (tokenId : UInt32) :
    (b.record zeroWidth tokenId).text = b.text := by
  cases zeroWidth <;> rfl

@[simp] theorem record_emitted (tokenId : UInt32) :
    (b.record zeroWidth tokenId).emittedByteOffset = b.emittedByteOffset := by
  cases zeroWidth <;> rfl

@[simp] theorem resolvePending_text :
    (b.resolvePending anchor).text = b.text := by
  unfold resolvePending
  cases b.pendingStart <;> rfl

@[simp] theorem resolvePending_emitted :
    (b.resolvePending anchor).emittedByteOffset = b.emittedByteOffset := by
  unfold resolvePending
  cases b.pendingStart <;> rfl

@[simp] theorem appendVisibleText_emitted (text : Bytes) :
    (b.appendVisibleText text).emittedByteOffset = b.emittedByteOffset :=
  b.resolvePending_emitted _

theorem appendVisibleText_unemitted (text : Bytes) :
    (b.appendVisibleText text).unemitted = b.unemitted.appendVisibleText text := by
  obtain ⟨_, _, _, _, pendingStart⟩ := b
  cases pendingStart <;> rfl

end AttributedTextBuffer
end VllmAmpere.TextStream
