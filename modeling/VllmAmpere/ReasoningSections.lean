import VllmAmpere.DelimitedReasoning

/-! The sections of an output: bodies of reasoning and content with the delimiters between
them, as the parser reads them off its buffer. -/

open List

namespace VllmAmpere.OutputText

open TextStream (Bytes DecodedText)

inductive Section where
  | body (inReasoning : Bool) (pieces : List Piece)
  | delimiter (pieces : List Piece)
  deriving DecidableEq

namespace Section

def pieces : Section → List Piece
  | body _ pieces | delimiter pieces => pieces

def ofMode (inReasoning : Bool) : Section → List Piece
  | body m pieces => if m = inReasoning then pieces else []
  | delimiter _ => []

end Section

def modePieces (inReasoning : Bool) (sections : List Section) : List Piece :=
  sections.flatMap (Section.ofMode inReasoning)

/-- What the parser carries between passes: the mode, the text still to be consumed and the
buffer. -/
structure ScanState where
  inReasoning : Bool
  pendingAfter : Bytes
  buffer : List Piece

namespace ReasoningDelimiters

variable (d : ReasoningDelimiters)

/-- The delimiter at a boundary and the rest of the output. -/
def atBoundary (be : Nat × Nat) (output : List Piece) : List Piece × List Piece :=
  drain (be.2 - be.1) (drain be.1 output).2

theorem bytes_atBoundary (be : Nat × Nat) (output : List Piece) (h : be.1 ≤ be.2) :
    bytes (atBoundary be output).2 = (bytes output).drop be.2 := by
  rw [atBoundary, (bytes_drain _ _).2, (bytes_drain _ _).2, drop_drop,
    Nat.add_sub_cancel' h]

/-- The sections read off a buffer, and what is left of it. -/
def scan (finishing : Bool) (m : Bool) (pending : Bytes) (buffer : List Piece) :
    List Section × ScanState :=
  if _hq : pending ≠ [] ∧ pending <+: bytes buffer then
    let next := scan finishing m [] (drain pending.length buffer).2
    (.delimiter (drain pending.length buffer).1 :: next.1, next.2)
  else if pending ≠ [] ∧ finishing = false ∧ bytes buffer <+: pending then
    ([], ⟨m, pending, buffer⟩)
  else
    match _hb : d.boundary m (bytes buffer) with
    | some be =>
      let next := scan finishing (!m) (d.after !m) (atBoundary be buffer).2
      (.body m (drain be.1 buffer).1 :: .delimiter (atBoundary be buffer).1 :: next.1, next.2)
    | none =>
      let keepLen := if finishing then 0 else d.keepLen m (bytes buffer)
      let split := drain ((bytes buffer).length - keepLen) buffer
      ([.body m split.1], ⟨m, [], split.2⟩)
termination_by (bytes buffer).length
decreasing_by
  · have hpos := length_pos_iff.mpr _hq.1
    have hle := _hq.2.length_le
    rw [(bytes_drain _ _).2, length_drop]
    omega
  · obtain ⟨hlt, hle⟩ := boundary_bounds (b := be.1) (e := be.2) _hb
    rw [bytes_atBoundary _ _ (Nat.le_of_lt hlt), length_drop]
    omega

variable {d} {finishing m : Bool} {pending : Bytes} {buffer : List Piece}

theorem scan_after (hne : pending ≠ []) (hq : pending <+: bytes buffer) :
    d.scan finishing m pending buffer = (.delimiter (drain pending.length buffer).1 ::
    (d.scan finishing m [] (drain pending.length buffer).2).1,
    (d.scan finishing m [] (drain pending.length buffer).2).2) := by
  rw [scan, dif_pos ⟨hne, hq⟩]

theorem scan_waits (hne : pending ≠ []) (hq : ¬pending <+: bytes buffer)
    (hw : bytes buffer <+: pending) :
    d.scan false m pending buffer = ([], ⟨m, pending, buffer⟩) := by
  rw [scan, dif_neg fun h => hq h.2, if_pos ⟨hne, rfl, hw⟩]

def Passes (finishing : Bool) (pending : Bytes) (text : Bytes) : Prop :=
  pending = [] ∨ ¬pending <+: text ∧ (finishing = true ∨ ¬text <+: pending)

section

variable (hp : Passes finishing pending (bytes buffer))
include hp

theorem scan_boundary {be : Nat × Nat}
    (hb : d.boundary m (bytes buffer) = some be) : d.scan finishing m pending buffer =
    (.body m (drain be.1 buffer).1 :: .delimiter (atBoundary be buffer).1 ::
    (d.scan finishing (!m) (d.after !m) (atBoundary be buffer).2).1,
    (d.scan finishing (!m) (d.after !m) (atBoundary be buffer).2).2) := by
  rw [scan, dif_neg (by rintro ⟨hne, hq⟩; rcases hp with hp | hp <;> simp_all),
    if_neg (by rintro ⟨hne, rfl, hq⟩; rcases hp with hp | hp <;> simp_all)]
  split
  · rename_i be' hb'
    rw [hb, Option.some.injEq] at hb'
    rw [hb']
  · rename_i hb'
    rw [hb] at hb'
    cases hb'

theorem scan_rest
    (hb : d.boundary m (bytes buffer) = none) : d.scan finishing m pending buffer =
    ([.body m (drain ((bytes buffer).length -
    if finishing then 0 else d.keepLen m (bytes buffer)) buffer).1],
    ⟨m, [], (drain ((bytes buffer).length -
    if finishing then 0 else d.keepLen m (bytes buffer)) buffer).2⟩) := by
  rw [scan, dif_neg (by rintro ⟨hne, hq⟩; rcases hp with hp | hp <;> simp_all),
    if_neg (by rintro ⟨hne, rfl, hq⟩; rcases hp with hp | hp <;> simp_all)]
  split
  · rename_i be' hb'
    rw [hb] at hb'
    cases hb'
  · rfl

theorem scan_passes :
    d.scan finishing m pending buffer = d.scan finishing m [] buffer := by
  cases hb : d.boundary m (bytes buffer) with
  | some be => rw [scan_boundary hp hb, scan_boundary (.inl rfl) hb]
  | none => rw [scan_rest hp hb, scan_rest (.inl rfl) hb]

end

end ReasoningDelimiters

@[simp] theorem modePieces_nil (m : Bool) : modePieces m [] = [] := rfl

@[simp] theorem modePieces_append (m : Bool) (xs ys : List Section) :
    modePieces m (xs ++ ys) = modePieces m xs ++ modePieces m ys :=
  flatMap_append

@[simp] theorem modePieces_delimiter (m : Bool) (xs : List Piece) (rest : List Section) :
    modePieces m (.delimiter xs :: rest) = modePieces m rest := rfl

theorem modePieces_body (m n : Bool) (xs : List Piece) (rest : List Section) :
    modePieces m (.body n xs :: rest) = (if n = m then xs else []) ++ modePieces m rest := rfl

def portionOf (xs : List Piece) : Option DecodedText :=
  if xs.isEmpty then none else some (decoded xs)

theorem pushPiece_portionOf (xs ys : List Piece) :
    ReasoningDelta.pushPiece (portionOf xs) (decoded ys) = portionOf (xs ++ ys) := by
  unfold ReasoningDelta.pushPiece
  rw [decoded_isEmpty]
  cases ys with
  | nil => rw [append_nil]; rfl
  | cons y ys =>
    cases xs with
    | nil => rfl
    | cons x xs => exact congrArg some (decoded_append (x :: xs) (y :: ys)).symm

def deltaOf (sections : List Section) : ReasoningDelta :=
  ⟨portionOf (modePieces true sections), portionOf (modePieces false sections)⟩

namespace DelimitedReasoningParser

variable {p : DelimitedReasoningParser} {finishing : Bool} {buffer : List Piece}

theorem pushBody_deltaOf (before : List Section) (body : List Piece) :
    p.pushBody (deltaOf before) (decoded body) =
    deltaOf (before ++ [.body p.currentInReasoning body]) := by
  unfold pushBody deltaOf
  simp only [modePieces_append, modePieces_body, modePieces_nil, append_nil]
  cases p.currentInReasoning with
  | true => simp [ReasoningDelta.pushReasoning, pushPiece_portionOf]
  | false => simp [ReasoningDelta.pushContent, pushPiece_portionOf]

def inState (p : DelimitedReasoningParser) (s : ScanState) : DelimitedReasoningParser :=
  { p with
    currentInReasoning := s.inReasoning
    pendingAfter := s.pendingAfter
    buffer := decoded s.buffer }

theorem waits_iff {s : ScanState} : (p.inState s).waits finishing = true ↔
    s.pendingAfter ≠ [] ∧ ¬s.pendingAfter <+: bytes s.buffer ∧ finishing = false ∧
    bytes s.buffer <+: s.pendingAfter := by
  have hpre : s.pendingAfter.isPrefixOf (bytes s.buffer) = false ↔
      ¬s.pendingAfter <+: bytes s.buffer := by
    rw [← List.isPrefixOf_iff_prefix, Bool.not_eq_true]
  simp [waits, inState, decoded, and_assoc, hpre]

theorem consumeAfter_pending : p.consumeAfter.pendingAfter = [] := by
  unfold consumeAfter
  split <;> rfl

theorem parseLoop_consume (hw : p.waits finishing = false) (fuel : Nat) (delta : ReasoningDelta) :
    parseLoop finishing (fuel + 1) p delta =
    parseLoop finishing (fuel + 1) p.consumeAfter delta := by
  have hpending := p.consumeAfter_pending
  have hwaits : p.consumeAfter.waits finishing = false := by
    rw [waits, hpending]
    rfl
  have htwice : p.consumeAfter.consumeAfter = p.consumeAfter := by
    rw [consumeAfter, hpending]
    simp only [isEmpty_nil, Bool.not_true, Bool.false_and, Bool.false_eq_true, if_false]
    rw [← hpending]
  rw [parseLoop, parseLoop, hw, hwaits, htwice, if_neg Bool.false_ne_true,
    if_neg Bool.false_ne_true]

theorem consumeAfter_inState {m : Bool} {pending : Bytes}
    (hq : pending ≠ [] ∧ pending <+: bytes buffer) : (p.inState ⟨m, pending, buffer⟩).consumeAfter =
    p.inState ⟨m, [], (drain pending.length buffer).2⟩ := by
  have hpre := List.isPrefixOf_iff_prefix.mpr hq.2
  have hne : pending.isEmpty = false := by simpa using hq.1
  unfold consumeAfter inState
  simp only [decoded, hpre, hne, Bool.not_false, Bool.and_true, if_true]
  rw [show DecodedText.mk (bytes buffer) (anchors 0 buffer) = decoded buffer from rfl,
    decoded_drain]
  rfl

theorem consumeAfter_of_mismatch {m : Bool} {pending : Bytes}
    (hq : ¬(pending ≠ [] ∧ pending <+: bytes buffer)) :
    (p.inState ⟨m, pending, buffer⟩).consumeAfter = p.inState ⟨m, [], buffer⟩ := by
  have hcond : (!pending.isEmpty && pending.isPrefixOf (bytes buffer)) = false := by
    rw [Bool.eq_false_iff]
    intro h
    rw [Bool.and_eq_true, List.isPrefixOf_iff_prefix] at h
    exact hq ⟨by simpa using h.1, h.2⟩
  unfold consumeAfter inState
  simp only [decoded, hcond, Bool.false_eq_true, if_false]

theorem parsePass_scan {fuel : Nat} {m : Bool}
    (ih : ∀ (s : ScanState), (bytes s.buffer).length < fuel → ∀ before : List Section,
    parseLoop finishing fuel (p.inState s) (deltaOf before) =
    (deltaOf (before ++ (p.scan finishing s.inReasoning s.pendingAfter s.buffer).1),
    p.inState (p.scan finishing s.inReasoning s.pendingAfter s.buffer).2))
    (buffer : List Piece) (before : List Section) (hfuel : (bytes buffer).length < fuel + 1) :
    parseLoop finishing (fuel + 1) (p.inState ⟨m, [], buffer⟩) (deltaOf before) =
    (deltaOf (before ++ (p.scan finishing m [] buffer).1),
    p.inState (p.scan finishing m [] buffer).2) := by
  have hwaits : (p.inState ⟨m, [], buffer⟩).waits finishing = false := rfl
  have hboundary : (p.inState ⟨m, [], buffer⟩).boundary m
      (p.inState ⟨m, [], buffer⟩).buffer.text = p.boundary m (bytes buffer) := rfl
  have hkeep : (p.inState ⟨m, [], buffer⟩).keepLen m
      (p.inState ⟨m, [], buffer⟩).buffer.text = p.keepLen m (bytes buffer) := rfl
  have hdrain : ∀ n, (p.inState ⟨m, [], buffer⟩).buffer.drainPrefix n =
      (decoded (drain n buffer).1, decoded (drain n buffer).2) := decoded_drain buffer
  rw [parseLoop, hwaits, if_neg Bool.false_ne_true, consumeAfter_of_mismatch (by simp)]
  dsimp only
  rw [show (p.inState ⟨m, [], buffer⟩).currentInReasoning = m from rfl, hboundary]
  cases hb : p.boundary m (bytes buffer) with
  | some be =>
    obtain ⟨hlt, hle⟩ := ReasoningDelimiters.boundary_bounds (b := be.1) (e := be.2) hb
    have hrest : (bytes (ReasoningDelimiters.atBoundary be buffer).2).length < fuel := by
      rw [ReasoningDelimiters.bytes_atBoundary _ _ (Nat.le_of_lt hlt), length_drop]
      omega
    have hnext := ih ⟨!m, p.after !m, (ReasoningDelimiters.atBoundary be buffer).2⟩ hrest
      (before ++ [.body m (drain be.1 buffer).1])
    rw [ReasoningDelimiters.scan_boundary (.inl rfl) hb]
    dsimp only
    rw [hdrain]
    dsimp only
    rw [decoded_drain, pushBody_deltaOf]
    refine hnext.trans ?_
    simp [deltaOf, modePieces_body]
  | none =>
    rw [ReasoningDelimiters.scan_rest (.inl rfl) hb]
    dsimp only
    rw [hkeep, hdrain, pushBody_deltaOf]
    rfl

theorem parseLoop_scan (p : DelimitedReasoningParser) (finishing : Bool) (fuel : Nat)
    (s : ScanState) (hfuel : (bytes s.buffer).length < fuel) (before : List Section) :
    parseLoop finishing fuel (p.inState s) (deltaOf before) =
    (deltaOf (before ++ (p.scan finishing s.inReasoning s.pendingAfter s.buffer).1),
    p.inState (p.scan finishing s.inReasoning s.pendingAfter s.buffer).2) := by
  induction fuel generalizing s before with
  | zero => exact absurd hfuel (Nat.not_lt_zero _)
  | succ fuel ih =>
    obtain ⟨m, pending, buffer⟩ := s
    dsimp only at hfuel
    have hpass := parsePass_scan (p := p) (m := m) ih
    by_cases hw : (p.inState ⟨m, pending, buffer⟩).waits finishing = true
    · obtain ⟨hne, hq, rfl, hpre⟩ := waits_iff.mp hw
      rw [parseLoop, if_pos hw, ReasoningDelimiters.scan_waits hne hq hpre, append_nil]
    · rw [parseLoop_consume (Bool.eq_false_iff.mpr hw)]
      by_cases hq : pending ≠ [] ∧ pending <+: bytes buffer
      · rw [consumeAfter_inState hq, ReasoningDelimiters.scan_after hq.1 hq.2, hpass]
        · simp [deltaOf]
        · rw [(bytes_drain _ _).2, length_drop]
          omega
      · have hp : ReasoningDelimiters.Passes finishing pending (bytes buffer) := by
          rw [waits_iff] at hw
          dsimp only at hw
          unfold ReasoningDelimiters.Passes
          by_cases hne : pending = []
          · exact .inl hne
          · have hpre : ¬pending <+: bytes buffer := fun h => hq ⟨hne, h⟩
            refine .inr ⟨hpre, ?_⟩
            cases finishing with
            | true => exact .inl rfl
            | false => exact .inr fun h => hw ⟨hne, hpre, rfl, h⟩
        rw [consumeAfter_of_mismatch hq, hpass _ _ hfuel, ReasoningDelimiters.scan_passes hp]

theorem parseBuffer_inState (p : DelimitedReasoningParser) (finishing : Bool) (s : ScanState) :
    (p.inState s).parseBuffer finishing =
    (deltaOf (p.scan finishing s.inReasoning s.pendingAfter s.buffer).1,
    p.inState (p.scan finishing s.inReasoning s.pendingAfter s.buffer).2) :=
  parseLoop_scan p finishing _ s (Nat.lt_succ_self _) []

theorem push_inState (p : DelimitedReasoningParser) (s : ScanState) (chunk : List Piece) :
    (p.inState s).push (decoded chunk) =
    (deltaOf (p.scan false s.inReasoning s.pendingAfter (s.buffer ++ chunk)).1,
    p.inState (p.scan false s.inReasoning s.pendingAfter (s.buffer ++ chunk)).2) := by
  have happend : { p.inState s with buffer := (p.inState s).buffer.append (decoded chunk) } =
      p.inState { s with buffer := s.buffer ++ chunk } := by
    unfold inState
    rw [decoded_append]
  rw [push, happend, parseBuffer_inState]

def sectionsOf (p : DelimitedReasoningParser) : ScanState → List (List Piece) → List (List Section)
  | s, [] => [(p.scan true s.inReasoning s.pendingAfter s.buffer).1]
  | s, chunk :: chunks =>
    (p.scan false s.inReasoning s.pendingAfter (s.buffer ++ chunk)).1 ::
      sectionsOf p (p.scan false s.inReasoning s.pendingAfter (s.buffer ++ chunk)).2 chunks

theorem run_inState (p : DelimitedReasoningParser) (s : ScanState) (chunks : List (List Piece)) :
    (p.inState s).run (chunks.map decoded) = (p.sectionsOf s chunks).map deltaOf := by
  induction chunks generalizing s with
  | nil => exact congrArg (fun r => [r.1]) (parseBuffer_inState p true s)
  | cons chunk chunks ih =>
    rw [map_cons, run, push_inState, ih]
    rfl

end DelimitedReasoningParser

/-- The portions of the deltas of a stream, put together. -/
def collected (portion : ReasoningDelta → Option DecodedText) (deltas : List ReasoningDelta) :
    DecodedText :=
  (deltas.filterMap portion).foldl DecodedText.append {}

theorem collected_deltaOf {portion : ReasoningDelta → Option DecodedText} {m : Bool}
    (hportion : ∀ sections, portion (deltaOf sections) = portionOf (modePieces m sections))
    (groups : List (List Section)) :
    collected portion (groups.map deltaOf) = decoded (modePieces m groups.flatten) := by
  suffices h : ∀ before : List Piece,
      ((groups.map deltaOf).filterMap portion).foldl DecodedText.append (decoded before) =
        decoded (before ++ modePieces m groups.flatten) from h []
  induction groups with
  | nil =>
    intro before
    rw [flatten_nil, modePieces_nil, append_nil]
    rfl
  | cons sections groups ih =>
    intro before
    rw [flatten_cons, modePieces_append, ← append_assoc, ← ih, map_cons,
      filterMap_cons, hportion]
    unfold portionOf
    cases modePieces m sections with
    | nil => rw [append_nil]; rfl
    | cons piece rest =>
      rw [decoded_append]
      rfl

theorem collected_run (p : DelimitedReasoningParser) (s : ScanState) (chunks : List (List Piece)) :
    collected ReasoningDelta.reasoning ((p.inState s).run (chunks.map decoded)) =
    decoded (modePieces true (p.sectionsOf s chunks).flatten) ∧
    collected ReasoningDelta.content ((p.inState s).run (chunks.map decoded)) =
    decoded (modePieces false (p.sectionsOf s chunks).flatten) := by
  rw [p.run_inState]
  exact ⟨collected_deltaOf (fun _ => rfl) _, collected_deltaOf (fun _ => rfl) _⟩

end VllmAmpere.OutputText
