import Mathlib.Order.Bounds.Basic
import VllmAmpere.AttributedText

/-! Markers in decoded text: where one first occurs, and how much of a text's end may still
become one. -/

open List

namespace VllmAmpere.OutputText

open TextStream (Bytes isContinuation)

/-- `str::is_char_boundary`. -/
def isCharBoundary (text : Bytes) (index : Nat) : Bool :=
  index == 0 || index == text.length || text[index]?.any fun b => !isContinuation b

def StartsChar (text : Bytes) : Prop := ∀ b ∈ text.head?, isContinuation b = false

instance StartsChar.decidable (text : Bytes) : Decidable (StartsChar text) :=
  inferInstanceAs (Decidable (∀ b ∈ text.head?, isContinuation b = false))

/-- `str::find`. -/
def find (text marker : Bytes) : Option Nat :=
  (List.range (text.length + 1)).find? fun i => marker.isPrefixOf (text.drop i)

/-- The byte length of the longest proper prefix of `token` that is also a suffix of
`buffer`. -/
def partialPrefixLen (buffer token : Bytes) : Nat :=
  match token.head? with
  | none => 0
  | some firstByte =>
    let maxLen := min buffer.length (token.length - 1)
    let tailStart := buffer.length - maxLen
    match (List.range' tailStart maxLen).find? fun index =>
        buffer[index]? == some firstByte && isCharBoundary buffer index &&
          isCharBoundary token (buffer.length - index) &&
          token.take (buffer.length - index) == buffer.drop index with
    | some index => buffer.length - index
    | none => 0

section occurrences

variable {text more marker : Bytes} {i n : Nat}

/-- The first occurrence of a marker. -/
structure FirstAt (text marker : Bytes) (i : Nat) : Prop where
  occurs : marker <+: text.drop i
  first : ∀ j < i, ¬marker <+: text.drop j

theorem occurs_le (hne : marker ≠ []) (h : marker <+: text.drop i) :
    i + marker.length ≤ text.length := by
  have hlen := h.length_le
  have hpos := length_pos_iff.mpr hne
  rw [length_drop] at hlen
  omega

theorem find_eq_some (hne : marker ≠ []) : find text marker = some i ↔ FirstAt text marker i := by
  unfold find
  rw [find?_range_eq_some]
  constructor
  · rintro ⟨hoccurs, -, hfirst⟩
    refine ⟨List.isPrefixOf_iff_prefix.mp hoccurs, fun j hj hpre => ?_⟩
    have hnot := hfirst j hj
    rw [List.isPrefixOf_iff_prefix.mpr hpre] at hnot
    cases hnot
  · rintro ⟨hoccurs, hfirst⟩
    have hle := occurs_le hne hoccurs
    refine ⟨List.isPrefixOf_iff_prefix.mpr hoccurs, mem_range.mpr (by omega),
      fun j hj => ?_⟩
    rw [Bool.not_eq_true', Bool.eq_false_iff]
    exact fun h => hfirst j hj (List.isPrefixOf_iff_prefix.mp h)

theorem find_eq_none (hne : marker ≠ []) :
    find text marker = none ↔ ∀ j, ¬marker <+: text.drop j := by
  unfold find
  rw [find?_eq_none]
  constructor
  · intro h j hpre
    have hle := occurs_le hne hpre
    exact h j (mem_range.mpr (by omega)) (List.isPrefixOf_iff_prefix.mpr hpre)
  · intro h j _ hpre
    exact h j (List.isPrefixOf_iff_prefix.mp hpre)

theorem occurs_append (hne : marker ≠ []) (h : marker <+: text.drop i) (more : Bytes) :
    marker <+: (text ++ more).drop i := by
  have hle := occurs_le hne h
  rw [drop_append_of_le_length (by omega)]
  exact h.trans (prefix_append _ _)

theorem occurs_of_append (h : marker <+: (text ++ more).drop i)
    (hle : i + marker.length ≤ text.length) : marker <+: text.drop i := by
  rw [drop_append_of_le_length (by omega)] at h
  exact prefix_of_prefix_length_le h (prefix_append _ _)
    (by rw [length_drop]; omega)

theorem FirstAt.append (hne : marker ≠ []) (h : FirstAt text marker i) (more : Bytes) :
    FirstAt (text ++ more) marker i := by
  have hle := occurs_le hne h.occurs
  refine ⟨occurs_append hne h.occurs more, fun j hj hpre => ?_⟩
  exact h.first j hj (occurs_of_append hpre (by omega))

theorem FirstAt.drop (h : FirstAt text marker i) (hle : n ≤ i) :
    FirstAt (text.drop n) marker (i - n) := by
  refine ⟨?_, fun j hj hpre => h.first (n + j) (by omega) ?_⟩
  · rw [drop_drop, Nat.add_sub_cancel' hle]
    exact h.occurs
  · rwa [drop_drop] at hpre

end occurrences

section held

variable {buffer token more : Bytes} {n : Nat}

/-- The last `n` bytes of a buffer are a proper prefix of a token. -/
structure HeldBy (buffer token : Bytes) (n : Nat) : Prop where
  pos : 0 < n
  lt : n < token.length
  le : n ≤ buffer.length
  bufferBoundary : isCharBoundary buffer (buffer.length - n) = true
  tokenBoundary : isCharBoundary token n = true
  same : token.take n = buffer.drop (buffer.length - n)

theorem partialPrefixLen_le : partialPrefixLen buffer token ≤ buffer.length := by
  unfold partialPrefixLen
  split
  · exact Nat.zero_le _
  · dsimp only
    split
    · exact Nat.sub_le _ _
    · exact Nat.zero_le _

theorem candidate_iff {firstByte : UInt8} (hfirst : token.head? = some firstByte) {index : Nat}
    (hmem : index ∈ List.range' (buffer.length - min buffer.length (token.length - 1))
    (min buffer.length (token.length - 1))) :
    (buffer[index]? == some firstByte && isCharBoundary buffer index &&
    isCharBoundary token (buffer.length - index) &&
    token.take (buffer.length - index) == buffer.drop index) = true ↔
    HeldBy buffer token (buffer.length - index) := by
  rw [mem_range'_1] at hmem
  have hindex : buffer.length - (buffer.length - index) = index := by omega
  simp only [Bool.and_eq_true, beq_iff_eq]
  constructor
  · rintro ⟨⟨⟨-, hbuffer⟩, htoken⟩, hsame⟩
    exact ⟨by omega, by omega, by omega, hindex.symm ▸ hbuffer, htoken, hindex.symm ▸ hsame⟩
  · rintro ⟨hpos, hlt, hle, hbuffer, htoken, hsame⟩
    rw [hindex] at hbuffer hsame
    refine ⟨⟨⟨?_, hbuffer⟩, htoken⟩, hsame⟩
    rw [← head?_drop, ← hsame, head?_take, if_neg (by omega), hfirst]

theorem partialPrefixLen_greatest (buffer token : Bytes) :
    IsGreatest {n | n = 0 ∨ HeldBy buffer token n} (partialPrefixLen buffer token) := by
  unfold partialPrefixLen
  split
  · rename_i hhead
    refine ⟨.inl rfl, ?_⟩
    rintro n (rfl | h)
    · exact Nat.le_refl 0
    · have hlt := h.lt
      rw [head?_eq_none_iff.mp hhead] at hlt
      exact absurd hlt (Nat.not_lt_zero n)
  · rename_i firstByte hhead
    dsimp only
    split
    · rename_i index hfind
      rw [find?_range'_eq_some] at hfind
      obtain ⟨hsome, hmem, hnone⟩ := hfind
      have hmem' := mem_range'_1.mp hmem
      refine ⟨.inr ((candidate_iff hhead hmem).mp hsome), ?_⟩
      rintro n (rfl | h)
      · exact Nat.zero_le _
      · -- a longer end would have been met earlier
        by_contra hlonger
        have hpos := h.pos
        have hlt := h.lt
        have hle := h.le
        have hmemn : buffer.length - n ∈ List.range'
            (buffer.length - min buffer.length (token.length - 1))
            (min buffer.length (token.length - 1)) := by
          rw [mem_range'_1]
          omega
        have hnot := hnone (buffer.length - n) (by omega) (by omega)
        have hcandidate := (candidate_iff hhead hmemn).mpr
          (by rwa [Nat.sub_sub_self hle])
        rw [hcandidate] at hnot
        cases hnot
    · rename_i hfind
      rw [find?_eq_none] at hfind
      refine ⟨.inl rfl, ?_⟩
      rintro n (rfl | h)
      · exact Nat.le_refl 0
      · have hpos := h.pos
        have hlt := h.lt
        have hle := h.le
        have hmemn : buffer.length - n ∈ List.range'
            (buffer.length - min buffer.length (token.length - 1))
            (min buffer.length (token.length - 1)) := by
          rw [mem_range'_1]
          omega
        exact absurd ((candidate_iff hhead hmemn).mpr (by rwa [Nat.sub_sub_self hle]))
          (hfind _ hmemn)

theorem partialPrefixLen_pos (h : 0 < partialPrefixLen buffer token) :
    HeldBy buffer token (partialPrefixLen buffer token) :=
  (partialPrefixLen_greatest buffer token).1.resolve_left (Nat.ne_of_gt h)

theorem HeldBy.le_partialPrefixLen (h : HeldBy buffer token n) :
    n ≤ partialPrefixLen buffer token :=
  (partialPrefixLen_greatest buffer token).2 (.inr h)

theorem heldBy_iff (chars : StartsChar token) : HeldBy buffer token n ↔
    0 < n ∧ n < token.length ∧ isCharBoundary token n = true ∧ token.take n <:+ buffer := by
  constructor
  · rintro ⟨hpos, hlt, hle, -, htoken, hsame⟩
    exact ⟨hpos, hlt, htoken, hsame ▸ drop_suffix _ _⟩
  · rintro ⟨hpos, hlt, htoken, hsuffix⟩
    have hlen : (token.take n).length = n := length_take_of_le (Nat.le_of_lt hlt)
    have hle := hsuffix.length_le
    rw [hlen] at hle
    have hsame : token.take n = buffer.drop (buffer.length - n) := by
      rw [suffix_iff_eq_drop, hlen] at hsuffix
      exact hsuffix
    refine ⟨hpos, hlt, hle, ?_, htoken, hsame⟩
    have hget : buffer[buffer.length - n]? = token.head? := by
      rw [← head?_drop, ← hsame, head?_take, if_neg (Nat.ne_of_gt hpos)]
    have hne : token ≠ [] := length_pos_iff.mp (Nat.zero_lt_of_lt hlt)
    obtain ⟨b, rest, rfl⟩ := exists_cons_of_ne_nil hne
    have hb : isContinuation b = false := chars b rfl
    rw [isCharBoundary, hget]
    simp [hb]

theorem heldBy_of_prefix {text : Bytes} {b k : Nat} (chars : StartsChar token)
    (hmore : StartsChar more) (h : token.take k <+: (text ++ more).drop b) (hb : b < text.length)
    (hk : k ≤ token.length) (hover : text.length < b + k) :
    HeldBy text token (text.length - b) := by
  obtain ⟨rest, hrest⟩ := h
  rw [drop_append_of_le_length (Nat.le_of_lt hb)] at hrest
  have hlen : (text.drop b).length = text.length - b := length_drop
  have htake : token.take (text.length - b) = text.drop b := by
    have hsame := congrArg (List.take (text.length - b)) hrest
    rw [take_append_of_le_length (by rw [length_take]; omega), take_take,
      Nat.min_eq_left (by omega), take_left' hlen] at hsame
    exact hsame
  have hhead : token[text.length - b]? = more.head? := by
    have hsame := congrArg (List.drop (text.length - b)) hrest
    rw [drop_left' hlen, drop_append_of_le_length (by rw [length_take]; omega)]
      at hsame
    rw [← hsame, ← head?_drop, drop_take]
    obtain ⟨c, hc⟩ : ∃ c, token[text.length - b]? = some c :=
      ⟨_, getElem?_eq_getElem (by omega)⟩
    rw [head?_append, head?_take, if_neg (by omega), head?_drop, hc]
    rfl
  refine (heldBy_iff chars).mpr ⟨by omega, by omega, ?_, htake ▸ drop_suffix _ _⟩
  obtain ⟨c, hc⟩ : ∃ c, token[text.length - b]? = some c :=
    ⟨_, getElem?_eq_getElem (by omega)⟩
  have hcont : isContinuation c = false := hmore c (hhead ▸ hc)
  rw [isCharBoundary, hc]
  simp [hcont]

/-- What is held of a longer text and begins before its last part was held without it. -/
theorem HeldBy.of_append {text : Bytes} (chars : StartsChar token) (hmore : StartsChar more)
    (hne : more ≠ []) (h : HeldBy (text ++ more) token n) (hlt : more.length < n) :
    HeldBy text token (n - more.length) := by
  have hmorePos := length_pos_iff.mpr hne
  have hn := h.lt
  have hle := h.le
  have hsame := h.same
  rw [length_append] at hle hsame
  have hpre : token.take n <+: (text ++ more).drop (text.length + more.length - n) := by
    exact hsame ▸ prefix_refl _
  have hheld := heldBy_of_prefix chars hmore hpre (by omega) (by omega) (by omega)
  rwa [show text.length - (text.length + more.length - n) = n - more.length by omega] at hheld

theorem heldBy_drop {text : Bytes} {k : Nat} (chars : StartsChar token) :
    HeldBy (text.drop k) token n ↔ HeldBy text token n ∧ n ≤ text.length - k := by
  rw [heldBy_iff chars, heldBy_iff chars]
  constructor
  · rintro ⟨hpos, hlt, htoken, hsuffix⟩
    have hle := hsuffix.length_le
    rw [length_take_of_le (Nat.le_of_lt hlt), length_drop] at hle
    exact ⟨⟨hpos, hlt, htoken, hsuffix.trans (drop_suffix _ _)⟩, hle⟩
  · rintro ⟨⟨hpos, hlt, htoken, hsuffix⟩, hle⟩
    refine ⟨hpos, hlt, htoken, suffix_of_suffix_length_le hsuffix (drop_suffix _ _) ?_⟩
    rw [length_take_of_le (Nat.le_of_lt hlt), length_drop]
    exact hle

end held

end VllmAmpere.OutputText
