import VllmAmpere.ReasoningSections

/-! The reasoning parser over every cut of one output: a push that ends inside the output is
joined with what follows it. -/

open List

namespace VllmAmpere.OutputText

open TextStream (Bytes DecodedText TokenAttribution)

section views

variable {β : Type} {w : Bool → List Piece → List β}

def view (w : Bool → List Piece → List β) (sections : List Section) : List β :=
  sections.flatMap fun
    | .body m pieces => w m pieces
    | .delimiter _ => []

@[simp] theorem view_nil : view w [] = [] := rfl

@[simp] theorem view_append (xs ys : List Section) : view w (xs ++ ys) = view w xs ++ view w ys :=
  flatMap_append

@[simp] theorem view_body (m : Bool) (xs : List Piece) (rest : List Section) :
    view w (.body m xs :: rest) = w m xs ++ view w rest := rfl

@[simp] theorem view_delimiter (xs : List Piece) (rest : List Section) :
    view w (.delimiter xs :: rest) = view w rest := rfl

def piecesOf (n m : Bool) (xs : List Piece) : List Piece := if m = n then xs else []

def textOf (n m : Bool) (xs : List Piece) : Bytes := if m = n then bytes xs else []

theorem modePieces_eq_view (n : Bool) (sections : List Section) :
    modePieces n sections = view (piecesOf n) sections := by
  induction sections with
  | nil => rfl
  | cons first rest ih => cases first <;> simp [modePieces_body, ih, piecesOf]

theorem bytes_modePieces (n : Bool) (sections : List Section) :
    bytes (modePieces n sections) = view (textOf n) sections := by
  induction sections with
  | nil => rfl
  | cons first rest ih =>
    cases first with
    | body m xs =>
      rw [modePieces_body, bytes_append, ih, view_body, textOf]
      split <;> rfl
    | delimiter xs => exact ih

end views

namespace ReasoningDelimiters

variable {β : Type} (d : ReasoningDelimiters)

/-- The sections read by one push of a text and the end of the stream. -/
def pushed (m : Bool) (pending : Bytes) (output : List Piece) : List Section :=
  (d.scan false m pending output).1 ++
    (d.scan true (d.scan false m pending output).2.inReasoning
      (d.scan false m pending output).2.pendingAfter (d.scan false m pending output).2.buffer).1

/-- Where the body that a text begins with ends, as far as it is given out. -/
def bodyEnd (m : Bool) (text : Bytes) : Nat :=
  match d.boundary m text with
  | some be => be.1
  | none => text.length - d.keepLen m text

variable {d} {m : Bool} {pending : Bytes} {output : List Piece}

theorem pushed_after (hne : pending ≠ []) (hq : pending <+: bytes output) :
    d.pushed m pending output = .delimiter (drain pending.length output).1 ::
    d.pushed m [] (drain pending.length output).2 := by
  unfold pushed
  rw [scan_after hne hq]
  rfl

theorem pushed_waits (hne : pending ≠ []) (hq : ¬pending <+: bytes output)
    (hw : bytes output <+: pending) :
    d.pushed m pending output = (d.scan true m pending output).1 := by
  unfold pushed
  rw [scan_waits hne hq hw]
  rfl

theorem pushed_boundary (hp : Passes false pending (bytes output)) {be : Nat × Nat}
    (hb : d.boundary m (bytes output) = some be) : d.pushed m pending output =
    .body m (drain be.1 output).1 :: .delimiter (atBoundary be output).1 ::
    d.pushed (!m) (d.after !m) (atBoundary be output).2 := by
  unfold pushed
  rw [scan_boundary hp hb]
  rfl

theorem pushed_rest (hp : Passes false pending (bytes output)) (closed : Closed output)
    (hb : d.boundary m (bytes output) = none) : d.pushed m pending output =
    [.body m (drain (d.bodyEnd m (bytes output)) output).1,
    .body m (drain (d.bodyEnd m (bytes output)) output).2] := by
  have hend : d.bodyEnd m (bytes output) =
      (bytes output).length - d.keepLen m (bytes output) := by
    unfold bodyEnd
    rw [hb]
  have hrest : d.boundary m (bytes (drain (d.bodyEnd m (bytes output)) output).2) = none := by
    rw [(bytes_drain _ _).2]
    exact boundary_drop_none hb _
  have hall := drain_length _ (closed.drain_snd (d.bodyEnd m (bytes output)))
  unfold pushed
  rw [scan_rest hp hb, if_neg Bool.false_ne_true, ← hend, scan_rest (.inl rfl) hrest, if_pos rfl,
    Nat.sub_zero, hall]
  rfl

theorem Passes.append {finishing : Bool} {text : Bytes} (hp : Passes false pending text)
    (more : Bytes) : Passes finishing pending (text ++ more) := by
  rcases hp with hp | ⟨hpre, hp⟩
  · exact .inl hp
  · have hshort : ¬text <+: pending := hp.resolve_left Bool.false_ne_true
    refine .inr ⟨fun h => ?_, .inr fun h => hshort ((prefix_append _ _).trans h)⟩
    rcases List.prefix_or_prefix_of_prefix h (prefix_append text more) with h | h
    · exact hpre h
    · exact hshort h

theorem scan_empty (d : ReasoningDelimiters) (m : Bool) (pending : Bytes) :
    d.scan false m pending [] = (if pending = [] then [.body m []] else [], ⟨m, pending, []⟩) := by
  by_cases hne : pending = []
  · subst hne
    have hb : d.boundary m (bytes []) = none := by
      rw [boundary_eq_none]
      intro j hj
      exact d.marker_ne m (prefix_nil.mp (by simpa [bytes] using hj))
    rw [scan_rest (.inl rfl) hb, if_pos rfl]
    simp [drain]
  · have hq : ¬pending <+: bytes [] := fun h => hne (prefix_nil.mp h)
    rw [scan_waits hne hq List.nil_prefix, if_neg hne]

theorem scan_nil (pending : Bytes) (w : Bool → List Piece → List β) (hw : w m [] = []) :
    view w (d.scan false m pending []).1 = [] ∧
    (d.scan false m pending []).2 = ⟨m, pending, []⟩ := by
  rw [scan_empty]
  refine ⟨?_, rfl⟩
  dsimp only
  split <;> simp [hw]

/-- A push that ends inside an output and the rest of it are seen as one push. -/
def Joins (d : ReasoningDelimiters) (w : Bool → List Piece → List β) (m : Bool)
    (pending : Bytes) (first rest : List Piece) : Prop :=
  view w ((d.scan false m pending first).1 ++
      d.pushed (d.scan false m pending first).2.inReasoning
        (d.scan false m pending first).2.pendingAfter
        ((d.scan false m pending first).2.buffer ++ rest)) =
    view w (d.pushed m pending (first ++ rest))

section joining

variable {w : Bool → List Piece → List β} {first rest : List Piece}

theorem prefix_bytes (hq : pending <+: bytes first) (rest : List Piece) :
    pending <+: bytes (first ++ rest) := by
  rw [bytes_append]
  exact hq.trans (prefix_append _ _)

theorem joins_after (hne : pending ≠ []) (hq : pending <+: bytes first)
    (hlt : pending.length < (bytes first).length) : d.Joins w m pending first rest ↔
    d.Joins w m [] (drain pending.length first).2 rest := by
  unfold Joins
  rw [scan_after hne hq, pushed_after hne (prefix_bytes hq rest), drain_append_of_lt _ _ _ hlt]
  rfl

theorem joins_after_end (hw : ∀ m, w m [] = []) (closed : Closed first) (hne : pending ≠ [])
    (hq : pending <+: bytes first) (hlen : pending.length = (bytes first).length) :
    d.Joins w m pending first rest ↔
    view w (d.pushed m [] rest) = view w (d.pushed m [] (drain 0 rest).2) := by
  obtain ⟨hnone, hstate⟩ := scan_nil (d := d) (m := m) [] w (hw m)
  unfold Joins
  rw [scan_after hne hq, pushed_after hne (prefix_bytes hq rest), hlen,
    drain_append_of_eq _ _ closed, drain_length _ closed]
  simp [hnone, hstate]

variable {be : Nat × Nat}

theorem drain_atBoundary_of_lt (rest : List Piece) (hlt : be.1 < be.2)
    (hle : be.2 < (bytes first).length) :
    drain be.1 (first ++ rest) = ((drain be.1 first).1, (drain be.1 first).2 ++ rest) ∧
    atBoundary be (first ++ rest) = ((atBoundary be first).1, (atBoundary be first).2 ++ rest) := by
  have hbody := drain_append_of_lt first rest be.1 (Nat.lt_trans hlt hle)
  refine ⟨hbody, ?_⟩
  unfold atBoundary
  rw [hbody]
  refine drain_append_of_lt _ _ _ ?_
  rw [(bytes_drain _ _).2, length_drop]
  omega

theorem drain_atBoundary_of_eq (rest : List Piece) (closed : Closed first) (hlt : be.1 < be.2)
    (hle : be.2 = (bytes first).length) :
    drain be.1 (first ++ rest) = ((drain be.1 first).1, (drain be.1 first).2 ++ rest) ∧
    (atBoundary be (first ++ rest)).2 = (drain 0 rest).2 ∧ (atBoundary be first).2 = [] := by
  have hbody := drain_append_of_lt first rest be.1 (by omega)
  have hlen : be.2 - be.1 = (bytes (drain be.1 first).2).length := by
    rw [(bytes_drain _ _).2, length_drop, hle]
  refine ⟨hbody, ?_, ?_⟩
  · unfold atBoundary
    rw [hbody, hlen, drain_append_of_eq _ _ (closed.drain_snd _)]
  · unfold atBoundary
    rw [hlen, drain_length _ (closed.drain_snd _)]

theorem joins_boundary (hp : Passes false pending (bytes first))
    (hb : d.boundary m (bytes first) = some be) (hlt : be.2 < (bytes first).length) :
    d.Joins w m pending first rest ↔ d.Joins w (!m) (d.after !m) (atBoundary be first).2 rest := by
  have hall : d.boundary m (bytes (first ++ rest)) = some be := by
    rw [bytes_append]
    exact boundary_append hb _
  have hpass : Passes false pending (bytes (first ++ rest)) := by
    rw [bytes_append]
    exact hp.append _
  obtain ⟨hbody, hdelimiter⟩ := drain_atBoundary_of_lt rest (boundary_bounds hb).1 hlt
  unfold Joins
  rw [scan_boundary hp hb, pushed_boundary hpass hall, hbody, hdelimiter]
  simp only [cons_append, view_body, view_delimiter, append_cancel_left_eq]

theorem joins_boundary_end (hw : ∀ m, w m [] = []) (closed : Closed first)
    (hp : Passes false pending (bytes first))
    (hb : d.boundary m (bytes first) = some be) (hlen : be.2 = (bytes first).length) :
    d.Joins w m pending first rest ↔ view w (d.pushed (!m) (d.after !m) rest) =
    view w (d.pushed (!m) (d.after !m) (drain 0 rest).2) := by
  have hall : d.boundary m (bytes (first ++ rest)) = some be := by
    rw [bytes_append]
    exact boundary_append hb _
  have hpass : Passes false pending (bytes (first ++ rest)) := by
    rw [bytes_append]
    exact hp.append _
  obtain ⟨hnone, hstate⟩ := scan_nil (d := d) (m := !m) (d.after !m) w (hw (!m))
  obtain ⟨hbody, hsnd, hnil⟩ := drain_atBoundary_of_eq rest closed
    (boundary_bounds hb).1 hlen
  unfold Joins
  rw [scan_boundary hp hb, pushed_boundary hpass hall, hbody, hsnd, hnil]
  simp only [cons_append, view_body, view_delimiter, append_cancel_left_eq, view_append,
    hnone, hstate, nil_append]

theorem joins_waits (hne : pending ≠ []) (hq : ¬pending <+: bytes first)
    (hw : bytes first <+: pending) : d.Joins w m pending first rest := by
  unfold Joins
  rw [scan_waits hne hq hw]
  rfl

theorem bodyEnd_drop {text : Bytes} {n : Nat} (hn : n ≤ d.bodyEnd m text) :
    d.bodyEnd m (text.drop n) = d.bodyEnd m text - n := by
  unfold bodyEnd at *
  cases hb : d.boundary m text with
  | some be =>
    rw [hb] at hn
    rw [boundary_drop hb hn]
  | none =>
    rw [hb] at hn
    rw [boundary_drop_none hb, keepLen_drop hn, length_drop]
    dsimp only
    omega

theorem le_bodyEnd {text more : Bytes} (hb : d.boundary m text = none) (hmore : StartsChar more) :
    text.length - d.keepLen m text ≤ d.bodyEnd m (text ++ more) := by
  unfold bodyEnd
  cases hall : d.boundary m (text ++ more) with
  | some be => exact (boundary_held hb hmore hall).1
  | none => exact keepLen_append hmore

theorem resume_snd (closed : Closed first) (rest : List Piece) {p b : Nat}
    (hp : p ≤ (bytes first).length) (hb : p ≤ b) :
    (drain (b - p) ((drain p first).2 ++ rest)).2 = (drain b (first ++ rest)).2 := by
  rcases Nat.lt_or_eq_of_le hp with hlt | heq
  · have hsplit := drain_append_of_lt first rest p hlt
    have hsnd : (drain p first).2 ++ rest = (drain p (first ++ rest)).2 :=
      (congrArg Prod.snd hsplit).symm
    rw [hsnd, drain_drain_snd _ hb]
  · subst heq
    rw [drain_length _ closed, nil_append]
    rcases Nat.lt_or_eq_of_le hb with hlt | heq
    · rw [drain_append_of_gt _ _ _ hlt]
    · rw [← heq, Nat.sub_self, drain_append_of_eq _ _ closed]

theorem orderedAt_append (rest : List Piece) {p : Nat} (hlt : p < (bytes first).length) :
    OrderedAt p (first ++ rest) ↔ OrderedAt p first := by
  unfold OrderedAt
  rw [drain_append_of_lt first rest p hlt, ← append_assoc, append_cancel_right_eq]

theorem resume_fst (closed : Closed first) (rest : List Piece) {p b : Nat}
    (hp : p ≤ (bytes first).length) (hb : p ≤ b) :
    (drain p first).1 ++ (drain (b - p) ((drain p first).2 ++ rest)).1 =
    (drain b (first ++ rest)).1 ↔ (p < (bytes first).length → p ≠ b → OrderedAt p first) := by
  rcases Nat.lt_or_eq_of_le hp with hlt | heq
  · have hsplit := drain_append_of_lt first rest p hlt
    have hfst : (drain p first).1 = (drain p (first ++ rest)).1 := (congrArg Prod.fst hsplit).symm
    have hsnd : (drain p first).2 ++ rest = (drain p (first ++ rest)).2 :=
      (congrArg Prod.snd hsplit).symm
    have hordered := (orderedAt_append rest hlt).symm
    rw [hfst, hsnd]
    rcases Nat.lt_or_eq_of_le hb with hlater | rfl
    · constructor
      · exact fun h _ _ => hordered.mpr (orderedAt_of_drain_fst hlater h.symm)
      · intro h
        refine ((hordered.mp (h hlt (Nat.ne_of_lt hlater))).drain_fst hlater ?_).symm
        rw [bytes_append, length_append]
        omega
    · rw [Nat.sub_self, drain_zero_drain, append_nil]
      exact iff_of_true rfl fun _ hne => absurd rfl hne
  · subst heq
    refine iff_of_true ?_ fun hlt => absurd hlt (Nat.lt_irrefl _)
    rw [drain_length _ closed, nil_append]
    rcases Nat.lt_or_eq_of_le hb with hlt | heq
    · rw [drain_append_of_gt _ _ _ hlt]
    · rw [← heq, Nat.sub_self, drain_append_of_eq _ _ closed]

theorem resume_bytes (first rest : List Piece) {p b : Nat} (hp : p ≤ (bytes first).length)
    (hb : p ≤ b) : bytes (drain p first).1 ++ bytes (drain (b - p) ((drain p first).2 ++ rest)).1 =
    bytes (drain b (first ++ rest)).1 := by
  have hheld : bytes ((drain p first).2 ++ rest) = (bytes first ++ bytes rest).drop p := by
    rw [bytes_append, (bytes_drain _ _).2, drop_append_of_le_length hp]
  have hgiven : bytes (drain p first).1 = (bytes first ++ bytes rest).take p := by
    rw [(bytes_drain _ _).1, take_append_of_le_length hp]
  rw [(bytes_drain _ (b - p)).1, hheld, hgiven, (bytes_drain _ b).1, bytes_append, ← take_add,
    Nat.add_sub_cancel' hb]

theorem joins_rest (closed : Closed first) (closedRest : Closed rest)
    (chars : StartsChar (bytes rest)) (hp : Passes false pending (bytes first))
    (hb : d.boundary m (bytes first) = none) {p be : Nat}
    (hpdef : p = (bytes first).length - d.keepLen m (bytes first))
    (hbe : be = d.bodyEnd m (bytes (first ++ rest))) : d.Joins w m pending first rest ↔
    w m (drain p first).1 ++ w m (drain (be - p) ((drain p first).2 ++ rest)).1 =
    w m (drain be (first ++ rest)).1 := by
  have hpass : Passes false pending (bytes (first ++ rest)) := by
    rw [bytes_append]
    exact hp.append _
  have hple : p ≤ (bytes first).length := hpdef ▸ Nat.sub_le _ _
  have hpb : p ≤ be := by
    rw [hpdef, hbe, bytes_append]
    exact le_bodyEnd hb chars
  have htext : bytes ((drain p first).2 ++ rest) = (bytes (first ++ rest)).drop p := by
    rw [bytes_append, bytes_append, (bytes_drain _ _).2, drop_append_of_le_length hple]
  have hend : d.bodyEnd m (bytes ((drain p first).2 ++ rest)) = be - p := by
    rw [htext, bodyEnd_drop (hbe ▸ hpb), hbe]
  have hsnd := resume_snd closed rest hple hpb
  have closedHeld : Closed ((drain p first).2 ++ rest) := (closed.drain_snd p).append closedRest
  unfold Joins
  rw [scan_rest hp hb, if_neg Bool.false_ne_true, ← hpdef]
  dsimp only
  cases hall : d.boundary m (bytes (first ++ rest)) with
  | some pair =>
    have hbe' : be = pair.1 := by
      rw [hbe, bodyEnd, hall]
    have hheld : d.boundary m (bytes ((drain p first).2 ++ rest)) =
        some (pair.1 - p, pair.2 - p) := by
      rw [htext]
      exact boundary_drop hall (hbe' ▸ hpb)
    have hat : (atBoundary (pair.1 - p, pair.2 - p) ((drain p first).2 ++ rest)).2 =
        (atBoundary pair (first ++ rest)).2 := by
      unfold atBoundary
      dsimp only
      rw [← hbe', hsnd, show pair.2 - p - (be - p) = pair.2 - be by omega]
    rw [pushed_boundary (.inl rfl) hheld, pushed_boundary hpass hall, hat]
    dsimp only
    rw [← hbe']
    simp only [view_append, view_body, view_delimiter, view_nil, append_nil]
    rw [← append_assoc, append_cancel_right_eq]
  | none =>
    have hheld : d.boundary m (bytes ((drain p first).2 ++ rest)) = none := by
      rw [htext]
      exact boundary_drop_none hall p
    rw [pushed_rest (.inl rfl) closedHeld hheld, pushed_rest hpass (closed.append closedRest) hall,
      hend, ← hbe, hsnd]
    simp only [view_append, view_body, view_nil, append_nil]
    rw [← append_assoc, append_cancel_right_eq]

theorem pushed_body (d : ReasoningDelimiters) (m : Bool) {text : Bytes}
    (hq : ¬(pending ≠ [] ∧ pending <+: text)) :
    ∃ (b : Nat) (tail : List Piece → List Section), ∀ output, bytes output = text → Closed output →
    d.pushed m pending output = .body m (drain b output).1 :: tail (drain b output).2 := by
  by_cases hw : pending ≠ [] ∧ text <+: pending
  · have hmismatch : ¬pending <+: text := fun h => hq ⟨hw.1, h⟩
    have hpass : Passes true pending text := .inr ⟨hmismatch, .inl rfl⟩
    cases hb : d.boundary m text with
    | some be =>
      refine ⟨be.1, fun after => .delimiter (drain (be.2 - be.1) after).1 ::
        (d.scan true (!m) (d.after !m) (drain (be.2 - be.1) after).2).1, ?_⟩
      rintro output rfl -
      rw [pushed_waits hw.1 hmismatch hw.2, scan_boundary hpass hb]
      rfl
    | none =>
      refine ⟨text.length, fun _ => [], ?_⟩
      rintro output rfl -
      rw [pushed_waits hw.1 hmismatch hw.2, scan_rest hpass hb, if_pos rfl, Nat.sub_zero]
  · have hpass : Passes false pending text := by
      by_cases hne : pending = []
      · exact .inl hne
      · exact .inr ⟨fun h => hq ⟨hne, h⟩, .inr fun h => hw ⟨hne, h⟩⟩
    cases hb : d.boundary m text with
    | some be =>
      refine ⟨be.1, fun after => .delimiter (drain (be.2 - be.1) after).1 ::
        d.pushed (!m) (d.after !m) (drain (be.2 - be.1) after).2, ?_⟩
      rintro output rfl -
      rw [pushed_boundary hpass hb]
      rfl
    | none =>
      refine ⟨d.bodyEnd m text, fun after => [.body m after], ?_⟩
      intro output htext closed
      subst htext
      rw [pushed_rest hpass closed hb]

theorem late_of_after (w : Bool → List Piece → List β) (m : Bool)
    (hq : pending ≠ [] ∧ pending <+: bytes rest) :
    view w (d.pushed m pending rest) = view w (d.pushed m pending (drain 0 rest).2) := by
  have hlate : pending <+: bytes (drain 0 rest).2 := (bytes_drain_zero rest).symm ▸ hq.2
  have hsnd := drain_drain_snd rest (Nat.zero_le pending.length)
  rw [Nat.sub_zero] at hsnd
  rw [pushed_after hq.1 hq.2, pushed_after hq.1 hlate, hsnd]
  rfl

theorem late_iff (w : Bool → List Piece → List β) (m : Bool) (closed : Closed rest)
    (hq : ¬(pending ≠ [] ∧ pending <+: bytes rest)) : ∃ b,
    view w (d.pushed m pending rest) = view w (d.pushed m pending (drain 0 rest).2) ↔
    w m (drain b rest).1 = w m (drain b (drain 0 rest).2).1 := by
  obtain ⟨b, tail, hbody⟩ := pushed_body d m hq
  have hsnd := drain_drain_snd rest (Nat.zero_le b)
  rw [Nat.sub_zero] at hsnd
  refine ⟨b, ?_⟩
  rw [hbody rest rfl closed, hbody _ (bytes_drain_zero rest) (closed.drain_snd 0), hsnd, view_body,
    view_body, append_cancel_right_eq]

theorem late_text (n m : Bool) (pending : Bytes) (closed : Closed rest) :
    view (textOf n) (d.pushed m pending rest) =
    view (textOf n) (d.pushed m pending (drain 0 rest).2) := by
  by_cases hq : pending ≠ [] ∧ pending <+: bytes rest
  · exact late_of_after _ m hq
  · obtain ⟨b, hb⟩ := late_iff (d := d) (textOf n) m closed hq
    rw [hb, textOf, textOf, (bytes_drain _ _).1, (bytes_drain _ _).1, bytes_drain_zero]

theorem late_pieces (m : Bool) (pending : Bytes) (closed : Closed rest) :
    view (piecesOf true) (d.pushed m pending rest) =
    view (piecesOf true) (d.pushed m pending (drain 0 rest).2) ↔
    (m = true → ¬(pending ≠ [] ∧ pending <+: bytes rest) → (drain 0 rest).1 = []) := by
  by_cases hq : pending ≠ [] ∧ pending <+: bytes rest
  · exact iff_of_true (late_of_after _ m hq) fun _ hnot => absurd hq hnot
  · obtain ⟨b, hb⟩ := late_iff (d := d) (piecesOf true) m closed hq
    rw [hb]
    cases m with
    | false => exact iff_of_true rfl (fun h => absurd h Bool.false_ne_true)
    | true =>
      have hsnd := drain_drain_snd rest (Nat.zero_le b)
      rw [Nat.sub_zero] at hsnd
      have hlen := length_drain rest b
      have hlate := length_drain (drain 0 rest).2 b
      have hzero := length_drain rest 0
      rw [hsnd] at hlate
      constructor
      · intro h _ _
        have hsame := congrArg List.length h
        unfold piecesOf at hsame
        simp only [if_true] at hsame
        exact length_eq_zero_iff.mp (by omega)
      · intro h
        have hordered := orderedAt_zero_of_fst (h rfl hq)
        rw [OrderedAt, h rfl hq, nil_append] at hordered
        rw [hordered]

theorem firstPart_cases (pending text : Bytes) :
    (pending ≠ [] ∧ pending <+: text) ∨ (pending ≠ [] ∧ ¬pending <+: text ∧ text <+: pending) ∨
    Passes false pending text := by
  by_cases hne : pending = []
  · exact .inr (.inr (.inl hne))
  · by_cases hq : pending <+: text
    · exact .inl ⟨hne, hq⟩
    · by_cases hw : text <+: pending
      · exact .inr (.inl ⟨hne, hq, hw⟩)
      · exact .inr (.inr (.inr ⟨hq, .inr hw⟩))

theorem joins_text (d : ReasoningDelimiters) (n m : Bool) (pending : Bytes) (closed : Closed first)
    (closedRest : Closed rest) (chars : StartsChar (bytes rest)) :
    d.Joins (textOf n) m pending first rest := by
  have hw : ∀ m, textOf n m [] = [] := by
    intro m
    unfold textOf
    split <;> rfl
  induction hlen : (bytes first).length using Nat.strong_induction_on
    generalizing m pending first with
  | _ len ih =>
    rcases firstPart_cases pending (bytes first) with ⟨hne, hq⟩ | ⟨hne, hq, hwaits⟩ | hp
    · rcases Nat.lt_or_eq_of_le hq.length_le with hlt | heq
      · refine (joins_after hne hq hlt).mpr (ih _ ?_ m [] (closed.drain_snd _) rfl)
        rw [(bytes_drain _ _).2, length_drop]
        have hpos := length_pos_iff.mpr hne
        omega
      · exact (joins_after_end hw closed hne hq heq).mpr (late_text n m [] closedRest)
    · exact joins_waits hne hq hwaits
    · cases hb : d.boundary m (bytes first) with
      | some be =>
        obtain ⟨hlt, hle⟩ := boundary_bounds (b := be.1) (e := be.2) hb
        rcases Nat.lt_or_eq_of_le hle with hinside | heq
        · refine (joins_boundary hp hb hinside).mpr
            (ih _ ?_ (!m) (d.after !m) ((closed.drain_snd _).drain_snd _) rfl)
          rw [bytes_atBoundary _ _ (Nat.le_of_lt hlt), length_drop]
          omega
        · exact (joins_boundary_end hw closed hp hb heq).mpr (late_text n (!m) _ closedRest)
      | none =>
        refine (joins_rest closed closedRest chars hp hb rfl rfl).mpr ?_
        have hle := le_bodyEnd (d := d) hb chars
        rw [← bytes_append] at hle
        unfold textOf
        split
        · exact resume_bytes first rest (Nat.sub_le _ _) hle
        · rfl

end joining

/-- What a push leaves behind: another push of nothing reads nothing of it. -/
structure Held (d : ReasoningDelimiters) (s : ScanState) : Prop where
  closed : Closed s.buffer
  idle : ∃ sections : List Section,
    d.scan false s.inReasoning s.pendingAfter s.buffer = (sections, s) ∧
      ∀ sec ∈ sections, sec.pieces = []

variable {w : Bool → List Piece → List β}

theorem view_of_empty (hw : ∀ m, w m [] = [])
    {sections : List Section} (h : ∀ sec ∈ sections, sec.pieces = []) : view w sections = [] := by
  unfold view
  rw [flatMap_eq_nil_iff]
  intro sec hmem
  have hpieces := h sec hmem
  cases sec with
  | body m xs => exact (congrArg (w m) hpieces).trans (hw m)
  | delimiter xs => rfl

theorem held_nil (d : ReasoningDelimiters) (m : Bool) (pending : Bytes) :
    Held d ⟨m, pending, []⟩ := by
  refine ⟨trivial, _, scan_empty d m pending, fun sec hmem => ?_⟩
  split at hmem
  · rw [mem_singleton.mp hmem]
    rfl
  · cases hmem

theorem held_scan (d : ReasoningDelimiters) (m : Bool) (pending : Bytes) {buffer : List Piece}
    (closed : Closed buffer) : Held d (d.scan false m pending buffer).2 := by
  induction hlen : (bytes buffer).length using Nat.strong_induction_on
    generalizing m pending buffer with
  | _ len ih =>
    rcases firstPart_cases pending (bytes buffer) with ⟨hne, hq⟩ | ⟨hne, hq, hwaits⟩ | hp
    · rw [scan_after hne hq]
      refine ih _ ?_ m [] (closed.drain_snd _) rfl
      have hpos := length_pos_iff.mpr hne
      have hle := hq.length_le
      rw [(bytes_drain _ _).2, length_drop]
      omega
    · rw [scan_waits hne hq hwaits]
      exact ⟨closed, [], scan_waits hne hq hwaits, by simp⟩
    · cases hb : d.boundary m (bytes buffer) with
      | some be =>
        obtain ⟨hlt, hle⟩ := boundary_bounds (b := be.1) (e := be.2) hb
        rw [scan_boundary hp hb]
        refine ih _ ?_ (!m) _ ((closed.drain_snd _).drain_snd _) rfl
        rw [bytes_atBoundary _ _ (Nat.le_of_lt hlt), length_drop]
        omega
      | none =>
        rw [scan_rest hp hb, if_neg Bool.false_ne_true]
        have hkeep : d.keepLen m (bytes buffer) ≤ (bytes buffer).length := keepLen_le
        generalize hn : (bytes buffer).length - d.keepLen m (bytes buffer) = n
        have hrest : d.boundary m (bytes (drain n buffer).2) = none := by
          rw [(bytes_drain _ _).2]
          exact boundary_drop_none hb n
        have hzero : (bytes (drain n buffer).2).length -
            d.keepLen m (bytes (drain n buffer).2) = 0 := by
          rw [(bytes_drain _ _).2, keepLen_drop (Nat.le_of_eq hn.symm), length_drop]
          omega
        refine ⟨closed.drain_snd n, [.body m []], ?_, by simp [Section.pieces]⟩
        rw [scan_rest (.inl rfl) hrest, if_neg Bool.false_ne_true, hzero, drain_zero_drain]

theorem pushed_of_held (hw : ∀ m, w m [] = []) {s : ScanState}
    (held : Held d s) : view w (d.pushed s.inReasoning s.pendingAfter s.buffer) =
    view w (d.scan true s.inReasoning s.pendingAfter s.buffer).1 := by
  obtain ⟨sections, hscan, hempty⟩ := held.idle
  unfold pushed
  rw [hscan, view_append, view_of_empty hw hempty, nil_append]

def IsChunk (chunk : List Piece) : Prop := Closed chunk ∧ StartsChar (bytes chunk)

theorem isChunk_flatten {chunks : List (List Piece)} (h : ∀ chunk ∈ chunks, IsChunk chunk) :
    IsChunk chunks.flatten := by
  induction chunks with
  | nil => exact ⟨trivial, fun b hb => by cases hb⟩
  | cons chunk chunks ih =>
    obtain ⟨hclosed, hchars⟩ := h chunk mem_cons_self
    obtain ⟨hrest, hcharsRest⟩ := ih fun c hc => h c (mem_cons_of_mem _ hc)
    refine ⟨hclosed.append hrest, ?_⟩
    rw [flatten_cons, bytes_append]
    intro b hb
    cases hfirst : bytes chunk with
    | nil =>
      rw [hfirst] at hb
      exact hcharsRest b hb
    | cons c more =>
      rw [hfirst] at hb
      exact hchars b (hfirst ▸ hb)

theorem view_run (p : DelimitedReasoningParser)
    (hw : ∀ m, w m [] = []) (Holds : Bool → Bytes → List Piece → Prop)
    (joins : ∀ m pending first rest, Holds m pending (first ++ rest) → Closed first →
    IsChunk rest → p.Joins w m pending first rest ∧
    Holds (p.scan false m pending first).2.inReasoning (p.scan false m pending first).2.pendingAfter
    ((p.scan false m pending first).2.buffer ++ rest))
    (chunks : List (List Piece)) (hchunks : ∀ chunk ∈ chunks, IsChunk chunk) {s : ScanState}
    (held : Held p.toReasoningDelimiters s)
    (holds : Holds s.inReasoning s.pendingAfter (s.buffer ++ chunks.flatten)) :
    view w (p.sectionsOf s chunks).flatten =
    view w (p.pushed s.inReasoning s.pendingAfter (s.buffer ++ chunks.flatten)) := by
  induction chunks generalizing s with
  | nil =>
    rw [flatten_nil, append_nil, pushed_of_held hw held]
    simp [DelimitedReasoningParser.sectionsOf]
  | cons chunk chunks ih =>
    have hrest : ∀ c ∈ chunks, IsChunk c := fun c hc => hchunks c (mem_cons_of_mem _ hc)
    have hclosed := held.closed.append (hchunks chunk mem_cons_self).1
    rw [flatten_cons, ← append_assoc] at holds ⊢
    obtain ⟨hjoin, hnext⟩ := joins _ _ _ _ holds hclosed (isChunk_flatten hrest)
    rw [← hjoin, view_append, ← ih hrest (held_scan _ _ _ hclosed) hnext]
    simp [DelimitedReasoningParser.sectionsOf]

end ReasoningDelimiters

end VllmAmpere.OutputText
