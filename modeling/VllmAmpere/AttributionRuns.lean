import Mathlib.Data.List.TakeWhile
import VllmAmpere.AttributedPieces

/-! Runs of the attribution buffer: whatever the moments at which chunks are taken, they append
to the complete text, and a text that was given out is put together again from a prefix and the
rest unless a visible token stands before a token of no width at the place of the cut. -/

open List

namespace VllmAmpere.TextStream

/-- Every element of a list that passes stands before those that do not. -/
theorem filter_append_filter_not {α : Type} (p : α → Bool) (xs : List α) :
    xs.filter p ++ xs.filter (fun x => !p x) = xs ↔ xs.Pairwise fun x y => p y → p x := by
  induction xs with
  | nil => simp
  | cons x xs ih =>
    cases hx : p x with
    | true => simp [hx, ih]
    | false =>
      rw [filter_cons_of_neg (by simp [hx]), filter_cons_of_pos (by simp [hx]),
        pairwise_cons]
      simp only [hx]
      constructor
      · intro same
        have none : xs.filter p = [] := by
          cases front : xs.filter p with
          | nil => rfl
          | cons y ys =>
            rw [front, cons_append] at same
            have passes : p y = true := (mem_filter.mp (front ▸ mem_cons_self)).2
            rw [(List.cons.inj same).1, hx] at passes
            cases passes
        have fails : ∀ y ∈ xs, p y = false := by simpa using none
        refine ⟨by simpa using fails, pairwise_of_forall_mem_list fun y _ z within passes => ?_⟩
        rw [fails z within] at passes
        cases passes
      · intro ordered
        have fails : ∀ y ∈ xs, p y = false := fun y inside => by
          simpa using ordered.1 y inside
        rw [filter_eq_nil_iff.mpr (by simpa using fails),
          filter_eq_self.mpr (by simpa using fails), nil_append]

namespace DecodedText

variable (d other : DecodedText)

theorem append_eq : d.append other = ⟨d.text ++ other.text,
    d.attributions ++ other.attributions.map (TokenAttribution.offsetBy d.text.length)⟩ := by
  unfold append
  split
  · rename_i empty
    obtain ⟨text, attributions⟩ := d
    simp only [isEmpty, Bool.and_eq_true, List.isEmpty_iff] at empty
    obtain ⟨rfl, rfl⟩ := empty
    have still : TokenAttribution.offsetBy (([] : Bytes).length : Int) = id := by
      funext a
      obtain ⟨tokenId, anchor⟩ := a
      cases anchor <;> rfl
    rw [still]
    simp
  · rfl

def tokenIds : List UInt32 := d.attributions.map TokenAttribution.tokenId

/-- Chunks appended to each other. -/
def joined (chunks : List DecodedText) : DecodedText := chunks.foldl append {}

/-- The prefix that is split off with the remainder appended to it. -/
def rejoined (len : Nat) : DecodedText := (d.drainPrefix len).1.append (d.drainPrefix len).2

def isCharBoundary (len : Nat) : Prop := floorCharBoundary d.text len = len

/-- No visible token stands before a token of no width at the place. -/
def Settled (len : Nat) : Prop :=
  d.attributions.Pairwise fun x y => x.anchor = .visible len → y.anchor ≠ .zeroWidth len

def InOrder : Prop :=
  d.attributions.Pairwise fun x y => x.anchor.byteOffset ≤ y.anchor.byteOffset

theorem rejoined_eq {len : Nat} (inside : len ≤ d.text.length) : d.rejoined len = ⟨d.text,
    d.attributions.filter (TokenAttribution.inPrefix len) ++
    d.attributions.filter fun a => !a.inPrefix len⟩ := by
  rw [rejoined, append_eq, drainPrefix]
  simp only [take_append_drop, map_map, length_take_of_le inside]
  congr 2
  refine (map_congr_left fun a rest => ?_).trans (map_id _)
  have later : len ≤ a.anchor.byteOffset := by
    have out := (mem_filter.mp rest).2
    obtain ⟨tokenId, anchor⟩ := a
    cases anchor <;> simp [TokenAttribution.inPrefix, TokenAnchor.byteOffset] at out ⊢ <;> omega
  obtain ⟨tokenId, anchor⟩ := a
  cases anchor <;>
  · simp only [TokenAnchor.byteOffset] at later
    simp only [Function.comp, TokenAttribution.offsetBy, TokenAnchor.offsetBy, id]
    congr 2
    omega

theorem InOrder.pairwise_inPrefix {d : DecodedText} (ordered : d.InOrder) (len : Nat) :
    (d.attributions.Pairwise fun x y => y.inPrefix len → x.inPrefix len) ↔ d.Settled len := by
  constructor
  · refine List.Pairwise.imp fun {x y} first place same => ?_
    simp [TokenAttribution.inPrefix, place, same] at first
  · intro settled
    refine (List.Pairwise.and ordered settled).imp fun {x y} both inside => ?_
    obtain ⟨order, apart⟩ := both
    obtain ⟨_, x⟩ := x
    obtain ⟨_, y⟩ := y
    cases x <;> cases y <;>
      simp [TokenAttribution.inPrefix, TokenAnchor.byteOffset] at * <;> omega

theorem InOrder.rejoined_iff {d : DecodedText} (ordered : d.InOrder) {len : Nat}
    (inside : len ≤ d.text.length) : d.rejoined len = d ↔ d.Settled len := by
  rw [← ordered.pairwise_inPrefix, ← filter_append_filter_not, rejoined_eq d inside]
  exact ⟨fun same => congrArg attributions same, fun same => by rw [same]⟩

end DecodedText

/-- The calls of the decoder on its buffer. -/
inductive BufferCall where
  | recordPendingToken (tokenId : UInt32)
  | recordZeroWidthToken (tokenId : UInt32)
  | appendVisibleText (text : Bytes)
  | resolvePendingZeroWidth
  | truncate (byteOffset : Nat)
  | takeReady (cutoff : Nat)

namespace BufferCall

def isTake : BufferCall → Bool
  | takeReady _ => true
  | _ => false

/-- The token that a call records. -/
def recorded : BufferCall → Option UInt32
  | recordPendingToken tokenId | recordZeroWidthToken tokenId => some tokenId
  | _ => none

/-- Text that is appended is not empty, and text that was given out is neither cut off nor
given out again. -/
def Admitted (b : AttributedTextBuffer) : BufferCall → Prop
  | appendVisibleText text => text ≠ []
  | truncate byteOffset => b.emittedByteOffset ≤ byteOffset
  | takeReady cutoff => b.emittedByteOffset ≤ cutoff ∧ cutoff ≤ b.text.length
  | _ => True

/-- A call with the chunk that it gives out. -/
def apply (b : AttributedTextBuffer) : BufferCall → Option DecodedText × AttributedTextBuffer
  | recordPendingToken tokenId => (none, b.recordPendingToken tokenId)
  | recordZeroWidthToken tokenId => (none, b.recordZeroWidthToken tokenId)
  | appendVisibleText text => (none, b.appendVisibleText text)
  | resolvePendingZeroWidth => (none, b.resolvePendingZeroWidth)
  | truncate byteOffset => (none, b.truncate byteOffset)
  | takeReady cutoff => b.takeReady cutoff

end BufferCall

namespace PendingAttribution

/-- The place of a token, which is the end of the text while it waits. -/
def place (len : Nat) (a : PendingAttribution) : Nat :=
  match a.anchor with
  | .unresolved => len
  | .resolved anchor => anchor.byteOffset

variable {len cutoff k : Nat} {a : PendingAttribution}

theorem place_of_ready (h : a.ready cutoff) : a.place len ≤ cutoff := by
  obtain ⟨_, anchor⟩ := a
  rcases anchor with _ | (_ | _) <;> simp [ready, place, TokenAnchor.byteOffset] at h ⊢ <;> omega

theorem le_place_of_not_ready (h : ¬a.ready cutoff) (inside : cutoff ≤ len) :
    cutoff ≤ a.place len := by
  obtain ⟨_, anchor⟩ := a
  rcases anchor with _ | (_ | _) <;> simp [ready, place, TokenAnchor.byteOffset] at h ⊢ <;> omega

theorem resolve_of_ready (anchor : TokenAnchor) (h : a.ready cutoff) : a.resolve anchor = a := by
  obtain ⟨_, _ | _⟩ := a
  · cases h
  · rfl

theorem collapse_of_ready (h : a.ready cutoff) (later : cutoff ≤ k) : a.collapse k = a := by
  obtain ⟨_, anchor⟩ := a
  rcases anchor with _ | (offset | offset)
  · cases h
  · have before : offset < cutoff := of_decide_eq_true h
    exact if_neg (Nat.not_le_of_lt (Nat.lt_of_lt_of_le before later))
  · have before : offset ≤ cutoff := of_decide_eq_true h
    by_cases cut : k ≤ offset
    · obtain rfl := Nat.le_antisymm cut (Nat.le_trans before later)
      exact if_pos (Nat.le_refl _)
    · exact if_neg cut

theorem ready_mono (h : a.ready cutoff) (later : cutoff ≤ k) : a.ready k := by
  obtain ⟨_, anchor⟩ := a
  rcases anchor with _ | (_ | _) <;> simp [ready] at h ⊢ <;> omega

theorem given_offsetBy (h : cutoff ≤ a.place len) :
    (a.given (-cutoff)).map (TokenAttribution.offsetBy cutoff) = a.given 0 := by
  obtain ⟨_, anchor⟩ := a
  rcases anchor with _ | (_ | _) <;>
    simp [given, place, TokenAttribution.offsetBy, TokenAnchor.offsetBy,
      TokenAnchor.byteOffset] at h ⊢ <;> omega

end PendingAttribution

namespace AttributedTextBuffer

open DecodedText PendingAttribution

/-- Where the buffer stands behind chunks that come to `out`: they are the text and the tokens
up to the emitted place, and the tokens stand in the order of their places. -/
structure Emits (b : AttributedTextBuffer) (out : DecodedText) : Prop where
  inside : b.emittedByteOffset ≤ b.text.length
  text : out.text = b.text.take b.emittedByteOffset
  tokens : ∃ sent rest, b.attributions = sent ++ rest ∧
    sent.length = b.emittedAttributionCount ∧ out.attributions = sent.filterMap (given 0) ∧
    (∀ a ∈ sent, a.ready b.emittedByteOffset) ∧
    ∀ a ∈ rest, b.emittedByteOffset ≤ a.place b.text.length
  ordered : b.attributions.Pairwise fun x y => x.place b.text.length ≤ y.place b.text.length
  placed : ∀ a ∈ b.attributions, a.anchor = .unresolved ∨ a.ready b.text.length
  start : b.pendingStart.getD 0 ≤ b.attributions.length
  waiting : ∀ a ∈ b.attributions.take (b.pendingStart.getD b.attributions.length),
    a.anchor ≠ .unresolved

theorem emits_nothing : Emits {} {} where
  inside := Nat.le_refl 0
  text := rfl
  tokens := ⟨[], [], rfl, rfl, rfl, by simp, by simp⟩
  ordered := .nil
  placed := by simp
  start := Nat.le_refl 0
  waiting := by simp

variable {b : AttributedTextBuffer} {out : DecodedText}

/-- Tokens that are moved in the order of their places, those given out being left alone. -/
theorem Emits.moved (h : Emits b out) {b' : AttributedTextBuffer}
    {f : PendingAttribution → PendingAttribution} {g : Nat → Nat}
    (attributions : b'.attributions = b.attributions.map f)
    (emitted : b'.emittedByteOffset = b.emittedByteOffset)
    (count : b'.emittedAttributionCount = b.emittedAttributionCount)
    (same : ∀ a, a.ready b.emittedByteOffset → f a = a)
    (place : ∀ a, (f a).place b'.text.length = g (a.place b.text.length))
    (mono : ∀ m n, m ≤ n → g m ≤ g n) (later : ∀ n, b.emittedByteOffset ≤ n → b.emittedByteOffset ≤ g n)
    (placed : ∀ a, a.anchor = .unresolved ∨ a.ready b.text.length →
      (f a).anchor = .unresolved ∨ (f a).ready b'.text.length)
    (inside : b.emittedByteOffset ≤ b'.text.length)
    (kept : b'.text.take b.emittedByteOffset = b.text.take b.emittedByteOffset)
    (start : b'.pendingStart.getD 0 ≤ b'.attributions.length)
    (waiting : ∀ a ∈ b'.attributions.take (b'.pendingStart.getD b'.attributions.length),
      a.anchor ≠ .unresolved) : Emits b' out where
  inside := emitted ▸ inside
  text := by rw [h.text, emitted, kept]
  tokens := by
    obtain ⟨sent, rest, split, length, given, ready, unready⟩ := h.tokens
    have still : sent.map f = sent := by
      simpa using map_congr_left fun a inSent => same a (ready a inSent)
    refine ⟨sent, rest.map f, ?_, ?_, given, ?_, ?_⟩
    · rw [attributions, split, map_append, still]
    · rw [count, length]
    · rwa [emitted]
    · simp only [forall_mem_map, place, emitted]
      exact fun a inRest => later _ (unready a inRest)
  ordered := by
    rw [attributions, pairwise_map]
    exact h.ordered.imp fun order => by simpa only [place] using mono _ _ order
  placed := by
    simp only [attributions, forall_mem_map]
    exact fun a within => placed a (h.placed a within)
  start := start
  waiting := waiting

theorem resolve_anchor (anchor : TokenAnchor) (a : PendingAttribution) :
    (a.resolve anchor).anchor ≠ .unresolved := by
  obtain ⟨_, _ | _⟩ := a <;> simp [resolve]

/-- All tokens that wait are behind the pending start. -/
theorem Emits.resolvePending_attributions (h : Emits b out) (anchor : TokenAnchor) :
    (b.resolvePending anchor).attributions = b.attributions.map (resolve anchor) := by
  have resolved : ∀ a : PendingAttribution, a.anchor ≠ .unresolved → a.resolve anchor = a := by
    rintro ⟨_, _ | _⟩ known
    · exact absurd rfl known
    · rfl
  have waiting := h.waiting
  unfold resolvePending
  cases start : b.pendingStart with
  | none =>
    rw [start, Option.getD_none, take_length] at waiting
    simpa using (map_congr_left fun a within => resolved a (waiting a within)).symm
  | some pendingStart =>
    rw [start, Option.getD_some] at waiting
    have front : (b.attributions.take pendingStart).map (resolve anchor) =
        b.attributions.take pendingStart := by
      simpa using map_congr_left fun a within => resolved a (waiting a within)
    rw [← take_append_drop pendingStart b.attributions, map_append, front]
    simp

theorem resolvePending_waiting (anchor : TokenAnchor) :
    (b.resolvePending anchor).pendingStart = none := by
  unfold resolvePending
  cases start : b.pendingStart with
  | none => exact start
  | some pendingStart => rfl

/-- The tokens that wait are put at the end of the text, behind which text may follow. -/
theorem Emits.resolved (h : Emits b out) {anchor : TokenAnchor} (more : Bytes)
    (atEnd : anchor.byteOffset = b.text.length) (ready : ∀ tokenId,
    (PendingAttribution.mk tokenId (.resolved anchor)).ready (b.text ++ more).length) :
    Emits { b.resolvePending anchor with text := b.text ++ more } out := by
  have emitted : (b.resolvePending anchor).emittedByteOffset = b.emittedByteOffset := by simp
  refine h.moved (f := resolve anchor) (g := id) (h.resolvePending_attributions anchor) emitted
    ?_ (fun a => resolve_of_ready anchor) ?_ (fun _ _ order => order) (fun _ order => order) ?_ ?_ ?_ ?_ ?_
  · unfold resolvePending
    cases b.pendingStart <;> rfl
  · rintro ⟨_, _ | _⟩
    · exact atEnd
    · rfl
  · rintro ⟨tokenId, _ | known⟩ placed
    · exact .inr (ready tokenId)
    · refine .inr ?_
      simp [resolve, PendingAttribution.ready] at placed ⊢
      cases known <;> simp at placed ⊢ <;> omega
  · simpa using Nat.le_add_right_of_le h.inside
  · exact take_append_of_le_length h.inside
  · simp only [resolvePending_waiting, Option.getD_none, Nat.zero_le]
  · simp only [resolvePending_waiting, Option.getD_none, take_length,
      h.resolvePending_attributions, forall_mem_map]
    exact fun a _ => resolve_anchor anchor a

theorem place_collapse (k len : Nat) (a : PendingAttribution) :
    (a.collapse k).place (min k len) = min k (a.place len) := by
  obtain ⟨tokenId, _ | anchor⟩ := a
  · rfl
  · by_cases cut : k ≤ anchor.byteOffset
    · simp only [collapse, if_pos cut]
      exact (Nat.min_eq_left cut).symm
    · simp only [collapse, if_neg cut, place]
      exact (Nat.min_eq_right (Nat.le_of_not_le cut)).symm

theorem ready_collapse {k len : Nat} {a : PendingAttribution} (h : a.ready len) :
    (a.collapse k).ready (min k len) := by
  obtain ⟨tokenId, _ | anchor⟩ := a
  · cases h
  · by_cases cut : k ≤ anchor.byteOffset
    · have placed : anchor.byteOffset ≤ len := @place_of_ready len len ⟨tokenId, .resolved anchor⟩ h
      simp only [collapse, if_pos cut, PendingAttribution.ready, decide_eq_true_eq]
      omega
    · simp only [collapse, if_neg cut]
      cases anchor <;> simp [PendingAttribution.ready, TokenAnchor.byteOffset] at * <;> omega

theorem Emits.truncate (h : Emits b out) {byteOffset : Nat}
    (later : b.emittedByteOffset ≤ byteOffset) : Emits (b.truncate byteOffset) out := by
  have inside := h.inside
  refine h.moved (f := collapse byteOffset) (g := fun n => min byteOffset n) rfl rfl rfl
    (fun a ready => collapse_of_ready ready later) (fun a => ?_) (fun _ _ order => ?_)
    (fun _ order => ?_) (fun a placed => ?_) ?_ ?_ ?_ ?_
  · rw [← place_collapse, AttributedTextBuffer.truncate, length_take]
  · omega
  · omega
  · refine placed.imp (fun waits => ?_) fun ready => ?_
    · simp only [collapse, waits]
    · rw [AttributedTextBuffer.truncate, length_take]
      exact ready_collapse ready
  · rw [AttributedTextBuffer.truncate, length_take]
    omega
  · rw [AttributedTextBuffer.truncate, take_take, Nat.min_eq_left later]
  · simpa [AttributedTextBuffer.truncate] using h.start
  · simp only [AttributedTextBuffer.truncate, length_map, ← map_take, forall_mem_map]
    rintro ⟨tokenId, _ | anchor⟩ within
    · exact absurd rfl (h.waiting _ within)
    · simp only [collapse]
      split <;> simp

theorem Emits.recorded (h : Emits b out) {a : PendingAttribution} {pendingStart : Option Nat}
    (place : a.place b.text.length = b.text.length)
    (placed : a.anchor = .unresolved ∨ a.ready b.text.length)
    (start : pendingStart.getD 0 ≤ b.attributions.length)
    (waiting : ∀ x ∈ (b.attributions ++ [a]).take (pendingStart.getD (b.attributions ++ [a]).length),
      x.anchor ≠ .unresolved) :
    Emits { b with attributions := b.attributions ++ [a], pendingStart := pendingStart } out where
  inside := h.inside
  text := h.text
  tokens := by
    obtain ⟨sent, rest, split, length, given, ready, unready⟩ := h.tokens
    refine ⟨sent, rest ++ [a], by simp [split], length, given, ready, ?_⟩
    simpa [or_imp, forall_and, place, h.inside] using unready
  ordered := by
    rw [pairwise_append]
    refine ⟨h.ordered, pairwise_singleton _ _, fun x within y last => ?_⟩
    rw [mem_singleton.mp last, place]
    rcases h.placed x within with waits | ready
    · simp [PendingAttribution.place, waits]
    · exact place_of_ready ready
  placed := by simpa [or_imp, forall_and, placed] using h.placed
  start := by
    simp only [length_append]
    omega
  waiting := waiting

theorem dropWhile_ready {cutoff len : Nat} (inside : cutoff ≤ len) {rest : List PendingAttribution}
    (ordered : rest.Pairwise fun x y => x.place len ≤ y.place len) :
    ∀ a ∈ rest.dropWhile (PendingAttribution.ready cutoff), cutoff ≤ a.place len := by
  induction rest with
  | nil => simp
  | cons x rest ih =>
    rw [pairwise_cons] at ordered
    by_cases ready : x.ready cutoff
    · rw [dropWhile_cons_of_pos ready]
      exact ih ordered.2
    · rw [dropWhile_cons_of_neg ready]
      have first := le_place_of_not_ready ready inside
      rintro a (_ | ⟨_, later⟩)
      · exact first
      · exact Nat.le_trans first (ordered.1 a later)

theorem Emits.takeReady (h : Emits b out) {cutoff : Nat} (later : b.emittedByteOffset ≤ cutoff)
    (inside : cutoff ≤ b.text.length) :
    Emits (b.takeReady cutoff).2 ((b.takeReady cutoff).1.toList.foldl append out) := by
  obtain ⟨sent, rest, split, length, given, ready, unready⟩ := h.tokens
  have front : b.readyAttributions cutoff = rest.takeWhile (PendingAttribution.ready cutoff) := by
    rw [readyAttributions, split, ← length, drop_left]
  unfold AttributedTextBuffer.takeReady
  split
  · exact h
  · have outLength : out.text.length = b.emittedByteOffset := by
      rw [h.text, length_take_of_le h.inside]
    simp only [Option.toList_some, foldl_cons, foldl_nil, DecodedText.append_eq, outLength, front]
    refine ⟨inside, ?_, ⟨sent ++ rest.takeWhile (PendingAttribution.ready cutoff),
      rest.dropWhile (PendingAttribution.ready cutoff), ?_, ?_, ?_, ?_, ?_⟩, h.ordered, h.placed,
      h.start, h.waiting⟩
    · have whole := take_append_drop b.emittedByteOffset (b.text.take cutoff)
      rwa [take_take, Nat.min_eq_left later, ← h.text] at whole
    · rw [split, append_assoc, takeWhile_append_dropWhile]
    · rw [length_append, length]
    · rw [given, filterMap_append, map_filterMap]
      refine congrArg (List.append _) (filterMap_congr fun a taken => ?_)
      exact given_offsetBy (unready a (takeWhile_subset _ taken))
    · intro a within
      rcases mem_append.mp within with inSent | taken
      · exact ready_mono (ready a inSent) later
      · exact mem_takeWhile_imp taken
    · have ordered := h.ordered
      rw [split, pairwise_append] at ordered
      exact dropWhile_ready inside ordered.2.1

theorem takeReady_count (cutoff : Nat) : (b.takeReady cutoff).2.emittedAttributionCount =
    b.emittedAttributionCount + (b.readyAttributions cutoff).length := by
  unfold AttributedTextBuffer.takeReady
  split
  · rename_i still
    simp [still.2]
  · rfl

theorem takeReady_attributions (cutoff : Nat) :
    (b.takeReady cutoff).2.attributions = b.attributions := by
  unfold AttributedTextBuffer.takeReady
  split <;> rfl

theorem Emits.finish (h : Emits b out) (known : ∀ a ∈ b.attributions, a.anchor ≠ .unresolved) :
    b.finish.1.1.toList.foldl append out = b.finish.1.2 := by
  have after := h.takeReady h.inside (Nat.le_refl _)
  obtain ⟨sent, rest, split, length, given, -, -⟩ := after.tokens
  have all : b.readyAttributions b.text.length = b.attributions.drop b.emittedAttributionCount := by
    refine takeWhile_eq_self_iff.mpr fun a within => ?_
    have inAll := mem_of_mem_drop within
    exact (h.placed a inAll).resolve_left (known a inAll)
  have count : b.emittedAttributionCount ≤ b.attributions.length := by
    obtain ⟨sent, rest, split, length, -⟩ := h.tokens
    simp [split, ← length]
  rw [takeReady_attributions] at split
  rw [takeReady_count, all, length_drop] at length
  have nothing : rest = [] := by
    have := congrArg List.length split
    rw [length_append] at this
    exact length_eq_zero_iff.mp (by omega)
  have text := after.text
  rw [takeReady_text, takeReady_emitted, take_length] at text
  rw [nothing, append_nil] at split
  rw [← split] at given
  exact congrArg₂ DecodedText.mk text given

theorem Emits.apply (h : Emits b out) {call : BufferCall} (admitted : call.Admitted b) :
    Emits (call.apply b).2 ((call.apply b).1.toList.foldl append out) := by
  cases call with
  | recordPendingToken tokenId =>
    have start := h.start
    have waiting := h.waiting
    refine h.recorded rfl (.inl rfl) ?_ ?_
    · cases known : b.pendingStart <;> simp_all
    · rw [Option.getD_some, take_append_of_le_length]
      · exact waiting
      · cases known : b.pendingStart <;> simp_all
  | recordZeroWidthToken tokenId =>
    have waiting := h.waiting
    refine h.recorded rfl (.inr (by simp [PendingAttribution.ready])) h.start ?_
    cases known : b.pendingStart with
    | none =>
      rw [known, Option.getD_none, take_length] at waiting
      rw [Option.getD_none, take_length]
      simpa [or_imp, forall_and] using waiting
    | some pendingStart =>
      have start := h.start
      rw [known, Option.getD_some] at start waiting
      rwa [Option.getD_some, take_append_of_le_length start]
  | appendVisibleText text =>
    exact h.resolved text rfl fun tokenId => by
      simpa [PendingAttribution.ready] using length_pos_iff.mpr admitted
  | resolvePendingZeroWidth =>
    have resolved := @Emits.resolved b out h (.zeroWidth b.text.length) [] rfl fun tokenId => by
      simp [PendingAttribution.ready]
    have still : { b.resolvePending (.zeroWidth b.text.length) with text := b.text ++ [] } =
        b.resolvePendingZeroWidth := by
      rw [append_nil, AttributedTextBuffer.resolvePendingZeroWidth, resolvePending]
      cases b.pendingStart <;> rfl
    rwa [still] at resolved
  | truncate byteOffset => exact h.truncate admitted
  | takeReady cutoff => exact h.takeReady admitted.1 admitted.2

/-- What is taken during a run and at its end. -/
def chunks (b : AttributedTextBuffer) : List BufferCall → List DecodedText
  | [] => b.finish.1.1.toList
  | call :: calls => (call.apply b).1.toList ++ chunks (call.apply b).2 calls

/-- The complete text at the end of a run. -/
def output (b : AttributedTextBuffer) : List BufferCall → DecodedText
  | [] => b.finish.1.2
  | call :: calls => output (call.apply b).2 calls

/-- Every call is admitted, and no token waits when the buffer is finished. -/
def Admitted (b : AttributedTextBuffer) : List BufferCall → Prop
  | [] => ∀ a ∈ b.attributions, a.anchor ≠ .unresolved
  | call :: calls => call.Admitted b ∧ Admitted (call.apply b).2 calls

variable {calls : List BufferCall}

theorem Emits.chunks_output (h : Emits b out)
    (admitted : b.Admitted calls) : (b.chunks calls).foldl append out = b.output calls := by
  induction calls generalizing b out with
  | nil => exact h.finish admitted
  | cons call calls ih =>
    rw [chunks, foldl_append]
    exact ih (h.apply admitted.1) admitted.2

theorem given_inOrder {len : Nat} {attributions : List PendingAttribution} (delta : Int)
    (text : Bytes) (ordered : attributions.Pairwise fun x y => x.place len ≤ y.place len) :
    InOrder ⟨text, attributions.filterMap (given delta)⟩ := by
  refine List.Pairwise.filterMap _ (fun x y order x' atX y' atY => ?_) ordered
  obtain ⟨_, _ | (_ | _)⟩ := x <;> cases atX <;> obtain ⟨_, _ | (_ | _)⟩ := y <;> cases atY <;>
    simp only [place, TokenAnchor.byteOffset, TokenAnchor.offsetBy] at order ⊢ <;> omega

theorem Emits.takeReady_inOrder (h : Emits b out) (cutoff : Nat) :
    ∀ d ∈ (b.takeReady cutoff).1.toList, d.InOrder := by
  intro d taken
  have inner : (b.readyAttributions cutoff).Sublist b.attributions :=
    (takeWhile_sublist _).trans (drop_sublist _ _)
  unfold AttributedTextBuffer.takeReady at taken
  split at taken
  · cases taken
  · rw [Option.toList_some, mem_singleton] at taken
    rw [taken]
    exact given_inOrder _ _ (h.ordered.sublist inner)

theorem Emits.inOrder (h : Emits b out) (admitted : b.Admitted calls) :
    ∀ d ∈ b.output calls :: b.chunks calls, d.InOrder := by
  induction calls generalizing b out with
  | nil =>
    refine forall_mem_cons.mpr ⟨given_inOrder 0 b.text h.ordered, ?_⟩
    exact h.takeReady_inOrder b.text.length
  | cons call calls ih =>
    obtain ⟨last, later⟩ := forall_mem_cons.mp (ih (h.apply admitted.1) admitted.2)
    refine forall_mem_cons.mpr ⟨last, forall_mem_append.mpr ⟨?_, later⟩⟩
    cases call with
    | takeReady cutoff => exact h.takeReady_inOrder cutoff
    | _ => intro d taken; cases taken

theorem apply_unemitted {call : BufferCall} (other : call.isTake = false) :
    (call.apply b).2.unemitted = (call.apply b.unemitted).2 := by
  cases call with
  | takeReady cutoff => cases other
  | appendVisibleText text => exact appendVisibleText_unemitted b text
  | resolvePendingZeroWidth =>
    obtain ⟨_, _, _, _, pendingStart⟩ := b
    cases pendingStart <;> rfl
  | _ => rfl

/-- A run without the chunks taken on the way. -/
theorem output_unemitted (admitted : b.Admitted calls) :
    b.unemitted.Admitted (calls.filter fun call => !call.isTake) ∧
    b.unemitted.output (calls.filter fun call => !call.isTake) = b.output calls := by
  induction calls generalizing b with
  | nil => exact ⟨admitted, rfl⟩
  | cons call calls ih =>
    have later := ih admitted.2
    cases other : call.isTake with
    | true =>
      rw [filter_cons_of_neg (by simp [other])]
      cases call with
      | takeReady cutoff =>
        rwa [BufferCall.apply, takeReady_unemitted] at later
      | _ => cases other
    | false =>
      rw [filter_cons_of_pos (by simp [other])]
      rw [apply_unemitted other] at later
      refine ⟨⟨?_, later.1⟩, later.2⟩
      cases call with
      | appendVisibleText text => exact admitted.1
      | takeReady cutoff => cases other
      | truncate byteOffset => exact Nat.zero_le _
      | _ => trivial

theorem apply_tokenIds (call : BufferCall) :
    (call.apply b).2.attributions.map PendingAttribution.tokenId =
    b.attributions.map PendingAttribution.tokenId ++ call.recorded.toList := by
  have kept : ∀ anchor, (b.resolvePending anchor).attributions.map PendingAttribution.tokenId =
      b.attributions.map PendingAttribution.tokenId := by
    intro anchor
    have same : PendingAttribution.tokenId ∘ resolve anchor = PendingAttribution.tokenId := by
      funext a
      obtain ⟨_, _ | _⟩ := a <;> rfl
    unfold resolvePending
    cases b.pendingStart with
    | none => rfl
    | some pendingStart =>
      simp only [map_append, map_map, same]
      rw [← map_append, take_append_drop]
  cases call with
  | recordPendingToken tokenId => simp [BufferCall.apply, BufferCall.recorded, recordPendingToken]
  | recordZeroWidthToken tokenId =>
    simp [BufferCall.apply, BufferCall.recorded, recordZeroWidthToken]
  | appendVisibleText text => exact (kept _).trans (append_nil _).symm
  | resolvePendingZeroWidth => exact (kept _).trans (append_nil _).symm
  | truncate byteOffset =>
    simp only [BufferCall.apply, AttributedTextBuffer.truncate, map_map, BufferCall.recorded,
      Option.toList_none, append_nil]
    refine map_congr_left fun a _ => ?_
    simp only [Function.comp, collapse]
    split
    · rfl
    · split <;> rfl
  | takeReady cutoff => simp [BufferCall.apply, BufferCall.recorded, takeReady_attributions]

theorem output_tokenIds (admitted : b.Admitted calls) : (b.output calls).tokenIds =
    b.attributions.map PendingAttribution.tokenId ++ calls.filterMap BufferCall.recorded := by
  induction calls generalizing b with
  | nil =>
    rw [filterMap_nil, append_nil, ← filterMap_eq_map]
    refine (map_filterMap ..).trans (filterMap_congr fun a within => ?_)
    obtain ⟨_, _ | _⟩ := a
    · exact absurd rfl (admitted _ within)
    · rfl
  | cons call calls ih =>
    rw [output, ih admitted.2, apply_tokenIds, append_assoc]
    cases call <;> rfl

/-- The chunks of a run come to what is taken once at its end, each token in one chunk and in
order, and every text given out comes back from a prefix and its remainder. -/
def Survives (calls : List BufferCall) : Prop :=
  joined (chunks {} calls) = output {} calls ∧
    joined (chunks {} calls) = joined (chunks {} (calls.filter fun call => !call.isTake)) ∧
    (chunks {} calls).flatMap tokenIds = calls.filterMap BufferCall.recorded ∧
    ∀ d ∈ output {} calls :: chunks {} calls, ∀ len, d.isCharBoundary len → d.rejoined len = d

end AttributedTextBuffer

theorem DecodedText.joined_tokenIds (out : DecodedText) (chunks : List DecodedText) :
    (chunks.foldl append out).tokenIds = out.tokenIds ++ chunks.flatMap tokenIds := by
  induction chunks generalizing out with
  | nil => simp
  | cons d chunks ih =>
    have first : (out.append d).tokenIds = out.tokenIds ++ d.tokenIds := by
      rw [append_eq]
      simp [tokenIds, Function.comp_def, TokenAttribution.offsetBy]
    rw [foldl_cons, ih, first, append_assoc, flatMap_cons]

namespace AttributedTextBuffer

open DecodedText

/-- Attribution survives every run, but for a text in which a visible token stands before a
token of no width at a place where it is cut. -/
theorem survives_iff (calls : List BufferCall) (admitted : Admitted {} calls) :
    Survives calls ↔ ∀ d ∈ output {} calls :: chunks {} calls, ∀ len, d.isCharBoundary len →
    d.Settled len := by
  have whole := emits_nothing.chunks_output admitted
  obtain ⟨once, same⟩ := output_unemitted admitted
  have onceWhole := emits_nothing.chunks_output once
  have tokens := (joined_tokenIds {} (chunks {} calls)).symm.trans
    ((congrArg tokenIds whole).trans (output_tokenIds admitted))
  have rejoins : (∀ d ∈ output {} calls :: chunks {} calls, ∀ len, d.isCharBoundary len →
      d.rejoined len = d) ↔ ∀ d ∈ output {} calls :: chunks {} calls, ∀ len,
        d.isCharBoundary len → d.Settled len := by
    refine forall₂_congr fun d within => forall₂_congr fun len boundary => ?_
    exact (emits_nothing.inOrder admitted d within).rejoined_iff
      (boundary ▸ floorCharBoundary_le_length d.text len)
  rw [← rejoins]
  exact ⟨fun survives => survives.2.2.2, fun comes =>
    ⟨whole, whole.trans (same.symm.trans onceWhole.symm), tokens, comes⟩⟩

/-- A skipped token behind a character of two bytes, given out with it. -/
def accent : List BufferCall := [.recordPendingToken 1, .appendVisibleText [0xC3, 0xA9],
  .recordZeroWidthToken 3, .takeReady 2]

theorem accent_survives : Survives accent := by
  have admitted : Admitted {} accent := by
    refine ⟨trivial, cons_ne_nil _ _, trivial, ⟨by decide, by decide⟩, ?_⟩
    change ∀ a ∈ [PendingAttribution.mk 1 (.resolved (.visible 0)), ⟨3, .resolved (.zeroWidth 2)⟩],
      a.anchor ≠ .unresolved
    simp
  refine (survives_iff accent admitted).mpr fun d within len _ => ?_
  have text : d = ⟨[0xC3, 0xA9], [⟨1, .visible 0⟩, ⟨3, .zeroWidth 2⟩]⟩ := by
    rcases mem_cons.mp within with rfl | taken
    · rfl
    · exact mem_singleton.mp taken
  rw [text]
  refine pairwise_pair.mpr fun first second => ?_
  cases first
  cases second

/-- A skipped token inside a character. -/
def splitAccent : List BufferCall := [.recordPendingToken 1, .recordZeroWidthToken 3,
  .recordPendingToken 2, .appendVisibleText [0xC3, 0xA9]]

/-- The prefix takes the skipped token, the remainder the first byte of the character. -/
theorem splitAccent_not_survives : Admitted {} splitAccent ∧ ¬Survives splitAccent := by
  refine ⟨⟨trivial, trivial, trivial, cons_ne_nil _ _, ?_⟩, fun survives => ?_⟩
  · change ∀ a ∈ [PendingAttribution.mk 1 (.resolved (.visible 0)), ⟨3, .resolved (.zeroWidth 0)⟩,
      ⟨2, .resolved (.visible 0)⟩], a.anchor ≠ .unresolved
    simp
  · have rejoined := survives.2.2.2 _ mem_cons_self 0 rfl
    exact absurd (congrArg (fun d => d.attributions.map TokenAttribution.tokenId) rejoined)
      (by decide)

end AttributedTextBuffer

end VllmAmpere.TextStream
