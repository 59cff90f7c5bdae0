import Mathlib.Data.List.Sort
import VllmAmpere.ChunkedText

/-! The incremental lexer of the parser engine: text in chunks to terminals, with text that may
still become a terminal held back. Without token ids every token count is zero, and the counts
are left out. -/

open List

namespace VllmAmpere.ParserEngine

abbrev Text := List Char

/-- `CONTENT_TERMINAL`. -/
def contentTerminal : String := "__CONTENT__"

/-- Of a compiled pattern the lexer reads the length of its source. -/
structure TerminalDef where
  name : String
  pattern : Text
  isLiteral : Bool := false
  literal : Text := []

structure LexToken where
  terminal : String
  value : Text
  deriving DecidableEq, Repr

/-- The terminals, in the order of `sorted`. -/
structure LexerShape where
  terminals : List TerminalDef

namespace LexerShape

/-- `(not t.is_literal, -len(t.pattern.pattern))`, compared. -/
def keyLe (s t : TerminalDef) : Bool :=
  match s.isLiteral, t.isLiteral with
  | true, false => true
  | false, true => false
  | _, _ => t.pattern.length ≤ s.pattern.length

def ofTerminals (terminals : List TerminalDef) : LexerShape :=
  ⟨terminals.insertionSort fun s t => keyLe s t = true⟩

variable (shape : LexerShape)

def literalStrings : List (Text × String) :=
  (shape.terminals.filter TerminalDef.isLiteral).map fun t => (t.literal, t.name)

def literalFirstChars : List Char :=
  shape.literalStrings.filterMap fun (lit, _) => lit.head?

def NoFirst (text : Text) : Prop := ∀ c ∈ text, c ∉ shape.literalFirstChars

instance (text : Text) : Decidable (shape.NoFirst text) := List.decidableBAll _ text

def hasOnlyLiterals : Bool := shape.terminals.all TerminalDef.isLiteral

def prefixSet : List Text :=
  shape.literalStrings.flatMap fun (lit, _) => (List.range' 1 (lit.length - 1)).map lit.take

/-- `literals_by_first.get(first, ())`. -/
def literalsByFirst (first : Char) : List (Text × String) :=
  shape.literalStrings.filter fun (lit, _) => lit.head? = some first

end LexerShape

namespace IncrementalLexer

variable (shape : LexerShape) (buffer : Text)

/-- The literals that a buffer starts with, the longest of them with its name. -/
def bestMatch : Option (String × Text) :=
  match buffer with
  | [] => none
  | first :: _ =>
    (shape.literalsByFirst first).foldl (fun best (lit, name) =>
      if lit.isPrefixOf buffer then
        match best with
        | none => some (name, lit)
        | some (_, bestLit) => if bestLit.length < lit.length then some (name, lit) else best
      else best) none

/-- `longer_match`. -/
def longerMatch (length : Nat) : Bool :=
  match buffer with
  | [] => false
  | first :: _ =>
    (shape.literalsByFirst first).any fun (lit, _) => length < lit.length && buffer.isPrefixOf lit

def startsLiteral (text : Text) : Bool :=
  match text with
  | [] => false
  | c :: _ =>
    c ∈ shape.literalFirstChars && shape.literalStrings.any fun (lit, _) =>
      text.take (min text.length lit.length) = lit.take (min text.length lit.length)

def findContentBoundary : Nat :=
  ((List.range' 1 (buffer.length - 1)).find? fun i => startsLiteral shape (buffer.drop i)).getD
    buffer.length

/-- The loop of `_drain`; each round takes a letter at least, so `fuel` is the length of the
buffer. -/
def drain (final : Bool) : (fuel : Nat) → (buffer : Text) → List LexToken × Text
  | 0, buffer => ([], buffer)
  | fuel + 1, buffer =>
    if buffer = [] then ([], [])
    else if shape.hasOnlyLiterals ∧ shape.literalFirstChars ≠ [] ∧
        shape.NoFirst buffer then
      ([⟨contentTerminal, buffer⟩], [])
    else
      let next (token : LexToken) (buffer : Text) : List LexToken × Text :=
        let (tokens, buffer) := drain final fuel buffer
        (token :: tokens, buffer)
      if buffer ∈ shape.prefixSet ∧ !final then
        match bestMatch shape buffer with
        | some (name, lit) =>
          if longerMatch shape buffer lit.length then ([], buffer)
          else next ⟨name, lit⟩ (buffer.drop lit.length)
        | none => ([], buffer)
      else
        match bestMatch shape buffer with
        | some (name, lit) => next ⟨name, lit⟩ (buffer.drop lit.length)
        | none =>
          let contentEnd := findContentBoundary shape buffer
          if 0 < contentEnd then
            next ⟨contentTerminal, buffer.take contentEnd⟩ (buffer.drop contentEnd)
          else next ⟨contentTerminal, buffer.take 1⟩ (buffer.drop 1)

def feed (buffer text : Text) : List LexToken × Text :=
  if buffer = [] ∧ shape.hasOnlyLiterals ∧ shape.literalFirstChars ≠ [] ∧
      shape.NoFirst text then
    ([⟨contentTerminal, text⟩], buffer)
  else drain shape false (buffer ++ text).length (buffer ++ text)

def flush : List LexToken × Text :=
  if buffer = [] then ([], [])
  else
    let (tokens, buffer) := drain shape true buffer.length buffer
    if buffer = [] then (tokens, []) else (tokens ++ [⟨contentTerminal, buffer⟩], [])

end IncrementalLexer

/-- `terminals_from_literals`; `escape` is `re.escape`. -/
def terminalsFromLiterals (escape : Text → Text) (literals : List (String × List Text)) :
    List TerminalDef :=
  literals.flatMap fun (name, value) => value.map fun lit =>
    { name, pattern := escape lit, isLiteral := true, literal := lit }

/-! However a text is cut into chunks, the lexer finds the same terminals in it. -/

open LexerShape IncrementalLexer

def spellToken (token : LexToken) : List LexToken :=
  if token.terminal = contentTerminal then token.value.map fun c => ⟨contentTerminal, [c]⟩
  else [token]

section lexemes

variable (shape : LexerShape)

/-- At each position of a text the longest literal, or else a letter of content. -/
def lexemeAt (text : Text) : List LexToken × Nat :=
  match bestMatch shape text with
  | some (name, lit) => (spellToken ⟨name, lit⟩, lit.length - 1)
  | none => ([⟨contentTerminal, text.take 1⟩], 0)

def lexemes (text : Text) : List LexToken := greedy (lexemeAt shape) 0 text

end lexemes

variable {shape : LexerShape} {first : Char} {lit : Text} {name : String}

theorem mem_literalsByFirst : (lit, name) ∈ shape.literalsByFirst first ↔
    (lit, name) ∈ shape.literalStrings ∧ lit.head? = some first := by
  unfold literalsByFirst
  rw [mem_filter, decide_eq_true_iff]

variable {buffer : Text}

theorem mem_prefixSet : buffer ∈ shape.prefixSet ↔
    buffer ≠ [] ∧ ∃ lit name, (lit, name) ∈ shape.literalStrings ∧ buffer <+: lit ∧
    buffer.length < lit.length := by
  unfold prefixSet
  rw [mem_flatMap]
  constructor
  · rintro ⟨⟨lit, name⟩, mem, cut⟩
    obtain ⟨i, range, rfl⟩ := mem_map.mp cut
    rw [mem_range'_1] at range
    have length : (lit.take i).length = i := by
      rw [length_take]
      omega
    refine ⟨fun empty => ?_, lit, name, mem, List.take_prefix i lit, by omega⟩
    rw [empty, length_nil] at length
    omega
  · rintro ⟨nonempty, lit, name, mem, cut, shorter⟩
    refine ⟨(lit, name), mem, mem_map.mpr ⟨buffer.length, ?_, ?_⟩⟩
    · rw [mem_range'_1]
      have := length_pos_iff.mpr nonempty
      omega
    · exact (prefix_iff_eq_take.mp cut).symm

theorem head_of_cut {lit buffer : Text} (nonempty : lit ≠ [])
    (cut : lit <+: first :: buffer) : lit.head? = some first := by
  cases lit with
  | nil => exact absurd rfl nonempty
  | cons c lit =>
    rw [cons_prefix_cons] at cut
    rw [cut.1]
    rfl

theorem bestMatch_some (h : bestMatch shape buffer = some (name, lit)) :
    (lit, name) ∈ shape.literalStrings ∧ lit ≠ [] ∧ lit <+: buffer := by
  cases buffer with
  | nil => cases h
  | cons first buffer =>
    unfold bestMatch at h
    dsimp only at h
    have loop : ∀ (step : Option (String × Text) → Text × String → Option (String × Text)),
        (∀ best item, step best item = best ∨
          item.1.isPrefixOf (first :: buffer) ∧ step best item = some (item.2, item.1)) →
        ∀ (items : List (Text × String)) (best : Option (String × Text)),
        (∀ n l, best = some (n, l) → (l, n) ∈ shape.literalsByFirst first ∧ l <+: first :: buffer) →
        (∀ item ∈ items, item ∈ shape.literalsByFirst first) →
        ∀ n l, items.foldl step best = some (n, l) →
        (l, n) ∈ shape.literalsByFirst first ∧ l <+: first :: buffer := by
      intro step steps items
      induction items with
      | nil => exact fun best kept _ n l found => kept n l found
      | cons item rest ih =>
        intro best kept listed
        refine ih _ (fun n l found => ?_) fun other mem => listed other (mem_cons_of_mem _ mem)
        rcases steps best item with same | ⟨matches', here⟩
        · exact kept n l (same ▸ found)
        · rw [here] at found
          cases found
          exact ⟨listed item mem_cons_self, List.isPrefixOf_iff_prefix.mp matches'⟩
    have found := loop _ ?_ _ none (by simp) (fun _ mem => mem) name lit h
    swap
    · intro best item
      split
      next matches' =>
        split
        · exact .inr ⟨matches', rfl⟩
        · split
          · exact .inr ⟨matches', rfl⟩
          · exact .inl rfl
      · exact .inl rfl
    obtain ⟨mem, cut⟩ := found
    obtain ⟨mem, head⟩ := mem_literalsByFirst.mp mem
    refine ⟨mem, fun empty => ?_, cut⟩
    rw [empty] at head
    cases head

theorem bestMatch_none
    (h : ∀ lit name, (lit, name) ∈ shape.literalStrings → lit ≠ [] → ¬lit <+: buffer) :
    bestMatch shape buffer = none := by
  cases found : bestMatch shape buffer with
  | none => rfl
  | some best =>
    obtain ⟨name, lit⟩ := best
    have ⟨mem, nonempty, cut⟩ := bestMatch_some found
    exact absurd cut (h _ _ mem nonempty)

theorem bestMatch_append (nonempty : buffer ≠ []) (whole : buffer ∉ shape.prefixSet)
    (more : Text) : bestMatch shape (buffer ++ more) = bestMatch shape buffer := by
  cases buffer with
  | nil => exact absurd rfl nonempty
  | cons first buffer =>
    unfold bestMatch
    rw [cons_append]
    dsimp only
    refine foldl_ext _ _ _ fun best item mem => ?_
    have ⟨mem, _⟩ := mem_literalsByFirst.mp mem
    have same : item.1.isPrefixOf (first :: (buffer ++ more)) =
        item.1.isPrefixOf (first :: buffer) := by
      rw [Bool.eq_iff_iff, List.isPrefixOf_iff_prefix, List.isPrefixOf_iff_prefix]
      constructor
      · intro cut
        rw [← cons_append] at cut
        cases List.prefix_or_prefix_of_prefix cut (prefix_append (first :: buffer) more) with
        | inl shorter => exact shorter
        | inr longer =>
          by_cases shorter : (first :: buffer).length < item.1.length
          · exact absurd (mem_prefixSet.mpr ⟨nonempty, _, _, mem, longer, shorter⟩) whole
          · have equal := longer.eq_of_length_le (Nat.not_lt.mp shorter)
            exact ⟨[], (append_nil _).trans equal.symm⟩
      · intro cut
        rw [← cons_append]
        exact cut.trans (prefix_append _ _)
    rw [same]

theorem bestMatch_length
    (h : bestMatch shape buffer = some (name, lit)) : 0 < lit.length ∧ lit.length ≤ buffer.length := by
  have ⟨_, nonempty, cut⟩ := bestMatch_some h
  exact ⟨length_pos_iff.mpr nonempty, cut.length_le⟩

theorem longerMatch_of_part (h : buffer ∈ shape.prefixSet) {length : Nat}
    (le : length ≤ buffer.length) : longerMatch shape buffer length = true := by
  obtain ⟨nonempty, lit, name, mem, cut, shorter⟩ := mem_prefixSet.mp h
  cases buffer with
  | nil => exact absurd rfl nonempty
  | cons first buffer =>
    have head : lit.head? = some first := by
      obtain ⟨rest, rfl⟩ := cut
      rfl
    unfold longerMatch
    rw [any_eq_true]
    refine ⟨(lit, name), mem_literalsByFirst.mpr ⟨mem, head⟩, ?_⟩
    rw [Bool.and_eq_true, decide_eq_true_iff, List.isPrefixOf_iff_prefix]
    exact ⟨by omega, cut⟩

theorem mem_literalFirstChars
    (mem : (lit, name) ∈ shape.literalStrings) (head : lit.head? = some first) :
    first ∈ shape.literalFirstChars :=
  mem_filterMap.mpr ⟨(lit, name), mem, head⟩

theorem bestMatch_of_not_starts {text : Text} (nonempty : text ≠ [])
    (h : startsLiteral shape text = false) (more : Text) :
    bestMatch shape (text ++ more) = none := by
  refine bestMatch_none fun lit name mem literal cut => ?_
  cases text with
  | nil => exact absurd rfl nonempty
  | cons c text =>
    have first := mem_literalFirstChars mem (head_of_cut literal (by exact cut))
    rw [← Bool.not_eq_true] at h
    refine h ?_
    unfold startsLiteral
    rw [Bool.and_eq_true, decide_eq_true_iff, any_eq_true]
    refine ⟨first, (lit, name), mem, decide_eq_true ?_⟩
    obtain ⟨tail, equal⟩ := cut
    have taken := congrArg (List.take (min (c :: text).length lit.length)) equal
    rw [take_append_of_le_length (Nat.min_le_right _ _),
      take_append_of_le_length (Nat.min_le_left _ _)] at taken
    exact taken.symm

variable (shape) in
theorem findContentBoundary_spec (nonempty : buffer ≠ []) :
    0 < findContentBoundary shape buffer ∧ findContentBoundary shape buffer ≤ buffer.length ∧
    ∀ i, 0 < i → i < findContentBoundary shape buffer →
    startsLiteral shape (buffer.drop i) = false := by
  have length := length_pos_iff.mpr nonempty
  unfold findContentBoundary
  cases found : (List.range' 1 (buffer.length - 1)).find?
      fun i => startsLiteral shape (buffer.drop i) with
  | none =>
    rw [find?_eq_none] at found
    refine ⟨length, Nat.le_refl _, fun i pos lt => ?_⟩
    rw [Option.getD_none] at lt
    exact Bool.not_eq_true _ ▸ found i (mem_range'_1.mpr (by omega))
  | some e =>
    rw [Option.getD_some]
    have range := mem_range'_1.mp (mem_of_find?_eq_some found)
    refine ⟨range.1, by omega, fun i pos lt => ?_⟩
    rw [find?_eq_some_iff_append] at found
    obtain ⟨_, before, after, split, others⟩ := found
    -- the smaller indices stand before the one that was found
    have mem : i ∈ before := by
      have listed : i ∈ List.range' 1 (buffer.length - 1) := mem_range'_1.mpr (by omega)
      have sorted : (List.range' 1 (buffer.length - 1)).Pairwise (· < ·) :=
        pairwise_lt_range'
      rw [split] at listed sorted
      rw [mem_append] at listed
      cases listed with
      | inl here => exact here
      | inr behind =>
        have ordered := (pairwise_append.mp sorted).2.1
        rw [pairwise_cons] at ordered
        cases mem_cons.mp behind with
        | inl equal => omega
        | inr further =>
          have := ordered.1 i further
          omega
    exact Bool.not_eq_true _ ▸ (by simpa using others i mem)

section streaming

variable (shape)

@[simp] theorem lexemes_nil : lexemes shape [] = [] := rfl

theorem spellToken_content (text : Text) :
    spellToken ⟨contentTerminal, text⟩ = text.map fun c => ⟨contentTerminal, [c]⟩ :=
  if_pos rfl

variable {shape}

theorem lexemes_literal {buffer : Text} {name : String} {lit : Text}
    (h : bestMatch shape buffer = some (name, lit)) :
    lexemes shape buffer = spellToken ⟨name, lit⟩ ++ lexemes shape (buffer.drop lit.length) := by
  have ⟨pos, le⟩ := bestMatch_length h
  cases buffer with
  | nil => cases h
  | cons c rest =>
    have here : lexemeAt shape (c :: rest) = (spellToken ⟨name, lit⟩, lit.length - 1) := by
      rw [lexemeAt, h]
    unfold lexemes
    rw [greedy_cons, here]
    dsimp only
    rw [← drop_succ_cons (a := c), Nat.sub_add_cancel pos]

theorem lexemes_content {text more : Text}
    (plain : ∀ i < text.length, bestMatch shape (text.drop i ++ more) = none) :
    lexemes shape (text ++ more) = spellToken ⟨contentTerminal, text⟩ ++ lexemes shape more := by
  rw [spellToken_content]
  refine greedy_letters _ _ _ _ fun i lt => ⟨text[i], getElem?_eq_getElem lt, ?_⟩
  rw [lexemeAt, plain i lt, drop_eq_getElem_cons lt]
  rfl

theorem bestMatch_of_no_first {text : Text} (h : ∀ c ∈ text, c ∉ shape.literalFirstChars)
    {i : Nat} (lt : i < text.length) (more : Text) :
    bestMatch shape (text.drop i ++ more) = none := by
  rw [drop_eq_getElem_cons lt, cons_append]
  refine bestMatch_none fun lit name mem literal cut => ?_
  exact h text[i] (getElem_mem lt) (mem_literalFirstChars mem (head_of_cut literal cut))

variable (shape) in
/-- What `_drain` puts out and what it keeps lex like what it was given, whatever follows. -/
theorem drain_spec (final : Bool) (fuel : Nat) (buffer more : Text)
    (last : final = true → more = []) : lexemes shape (buffer ++ more) =
    (drain shape final fuel buffer).1.flatMap spellToken ++
    lexemes shape ((drain shape final fuel buffer).2 ++ more) := by
  induction fuel generalizing buffer with
  | zero => rfl
  | succ fuel ih =>
    have emit : ∀ (token : LexToken) (rest : Text),
        lexemes shape (buffer ++ more) = spellToken token ++ lexemes shape (rest ++ more) →
        lexemes shape (buffer ++ more) =
          (token :: (drain shape final fuel rest).1).flatMap spellToken ++
            lexemes shape ((drain shape final fuel rest).2 ++ more) := by
      intro token rest first
      rw [first, ih rest, flatMap_cons, append_assoc]
    unfold drain
    by_cases empty : buffer = []
    · rw [if_pos empty, empty]
      rfl
    · rw [if_neg empty]
      split
      next quiet =>
        rw [flatMap_cons, flatMap_nil, append_nil, nil_append]
        exact lexemes_content fun i lt => bestMatch_of_no_first quiet.2.2 lt more
      next =>
        dsimp only
        have literal : ∀ name lit, bestMatch shape buffer = some (name, lit) →
            (buffer ∈ shape.prefixSet → final = true) →
            lexemes shape (buffer ++ more) =
              spellToken ⟨name, lit⟩ ++ lexemes shape (buffer.drop lit.length ++ more) := by
          intro name lit found whole
          have still : bestMatch shape (buffer ++ more) = some (name, lit) := by
            by_cases part : buffer ∈ shape.prefixSet
            · rw [last (whole part), append_nil, found]
            · rw [bestMatch_append empty part, found]
          rw [lexemes_literal still, drop_append_of_le_length (bestMatch_length found).2]
        split
        next hold =>
          cases found : bestMatch shape buffer with
          | none => rfl
          | some best =>
            dsimp only
            rw [if_pos (longerMatch_of_part hold.1 (bestMatch_length found).2)]
            rfl
        next go =>
          have whole : buffer ∈ shape.prefixSet → final = true := by
            intro part
            cases final with
            | true => rfl
            | false => exact absurd ⟨part, rfl⟩ go
          cases found : bestMatch shape buffer with
          | some best => exact emit _ _ (literal _ _ found whole)
          | none =>
            have ⟨pos, le, plain⟩ := findContentBoundary_spec shape empty
            dsimp only
            rw [if_pos pos]
            refine emit _ _ ?_
            obtain ⟨e, he⟩ : ∃ e, e = findContentBoundary shape buffer := ⟨_, rfl⟩
            rw [← he] at pos le plain ⊢
            have split : buffer ++ more = buffer.take e ++ (buffer.drop e ++ more) := by
              rw [← append_assoc, take_append_drop]
            rw [split]
            refine lexemes_content fun i lt => ?_
            rw [length_take, Nat.min_eq_left le] at lt
            rw [← append_assoc, ← drop_append_of_le_length (by
              rw [length_take]
              omega), take_append_drop]
            cases i with
            | zero =>
              rw [drop_zero]
              by_cases part : buffer ∈ shape.prefixSet
              · rw [last (whole part), append_nil, found]
              · rw [bestMatch_append empty part, found]
            | succ i =>
              refine bestMatch_of_not_starts (fun gone => ?_) (plain (i + 1) (by omega) lt) more
              rw [drop_eq_nil_iff] at gone
              omega

variable (shape) in
theorem drain_final (fuel : Nat) (buffer : Text) (enough : buffer.length ≤ fuel) :
    (drain shape true fuel buffer).2 = [] := by
  induction fuel generalizing buffer with
  | zero => exact length_eq_zero_iff.mp (Nat.le_zero.mp enough)
  | succ fuel ih =>
    unfold drain
    by_cases empty : buffer = []
    · rw [if_pos empty]
    · have length := length_pos_iff.mpr empty
      rw [if_neg empty]
      split
      · rfl
      · dsimp only
        rw [if_neg fun hold => absurd hold.2 Bool.false_ne_true]
        cases found : bestMatch shape buffer with
        | some best =>
          have ⟨pos, _⟩ := bestMatch_length found
          refine ih _ ?_
          rw [length_drop]
          omega
        | none =>
          have ⟨pos, _⟩ := findContentBoundary_spec shape empty
          dsimp only
          rw [if_pos pos]
          refine ih _ ?_
          rw [length_drop]
          omega

theorem lexer_feed_spec (buffer text more : Text) : lexemes shape (buffer ++ text ++ more) =
    (feed shape buffer text).1.flatMap spellToken ++
    lexemes shape ((feed shape buffer text).2 ++ more) := by
  unfold feed
  split
  next quiet =>
    rw [quiet.1, nil_append, flatMap_cons, flatMap_nil, append_nil,
      nil_append]
    exact lexemes_content fun i lt => bestMatch_of_no_first quiet.2.2.2 lt more
  next => exact drain_spec shape false _ _ _ nofun

theorem lexer_flush_spec (buffer : Text) :
    lexemes shape buffer = (flush shape buffer).1.flatMap spellToken ∧ (flush shape buffer).2 = [] := by
  unfold flush
  by_cases empty : buffer = []
  · rw [if_pos empty, empty]
    exact ⟨rfl, rfl⟩
  · have nothing := drain_final shape buffer.length buffer (Nat.le_refl _)
    have spec := drain_spec shape true buffer.length buffer [] fun _ => rfl
    rw [nothing, append_nil, append_nil, lexemes_nil, append_nil] at spec
    rw [if_neg empty]
    dsimp only
    rw [if_pos nothing]
    exact ⟨spec, rfl⟩

theorem drain_nonempty (final : Bool) (fuel : Nat) (buffer : Text) :
    ∀ tok ∈ (drain shape final fuel buffer).1, tok.value ≠ [] := by
  induction fuel generalizing buffer with
  | zero => exact fun _ mem => absurd mem not_mem_nil
  | succ fuel ih =>
    have emit : ∀ (token : LexToken) (rest : Text), token.value ≠ [] →
        ∀ tok ∈ token :: (drain shape final fuel rest).1, tok.value ≠ [] := by
      intro token rest first tok mem
      cases mem_cons.mp mem with
      | inl equal =>
        rw [equal]
        exact first
      | inr later => exact ih rest tok later
    unfold drain
    by_cases empty : buffer = []
    · rw [if_pos empty]
      exact fun _ mem => absurd mem not_mem_nil
    · rw [if_neg empty]
      split
      · intro tok mem
        rw [mem_singleton.mp mem]
        exact empty
      · dsimp only
        split
        · cases found : bestMatch shape buffer with
          | none => exact fun _ mem => absurd mem not_mem_nil
          | some best =>
            dsimp only
            split
            · exact fun _ mem => absurd mem not_mem_nil
            · exact emit _ _ (bestMatch_some found).2.1
        · cases found : bestMatch shape buffer with
          | some best => exact emit _ _ (bestMatch_some found).2.1
          | none =>
            have ⟨pos, le, _⟩ := findContentBoundary_spec shape empty
            dsimp only
            rw [if_pos pos]
            refine emit _ _ fun none => ?_
            rw [take_eq_nil_iff] at none
            cases none with
            | inl zero => omega
            | inr none => exact empty none

variable (shape) in
theorem lexer_feed_nonempty (buffer : Text) {text : Text} (nonempty : text ≠ []) :
    ∀ tok ∈ (feed shape buffer text).1, tok.value ≠ [] := by
  unfold feed
  split
  · intro tok mem
    rw [mem_singleton.mp mem]
    exact nonempty
  · exact drain_nonempty false _ _

theorem lexer_flush_nonempty (buffer : Text) : ∀ tok ∈ (flush shape buffer).1, tok.value ≠ [] := by
  unfold flush
  by_cases empty : buffer = []
  · rw [if_pos empty]
    exact fun _ mem => absurd mem not_mem_nil
  · rw [if_neg empty]
    dsimp only
    rw [if_pos (drain_final shape _ _ (Nat.le_refl _))]
    exact drain_nonempty true _ _

end streaming

/-! ### Whole texts -/

section pieces

variable (shape : LexerShape)

/-- The tokens of pieces that are fed one after another. -/
def feedAll : Text → List Text → List LexToken × Text
  | buffer, [] => ([], buffer)
  | buffer, piece :: pieces =>
    let fed := feed shape buffer piece
    let more := feedAll fed.2 pieces
    (fed.1 ++ more.1, more.2)

variable (pieces : List Text)

/-- The tokens of a text that comes in pieces and is flushed behind the last one. -/
def lexPieces : List LexToken :=
  let fed := feedAll shape [] pieces
  fed.1 ++ (flush shape fed.2).1

def joinTokens (a b : LexToken) : Option LexToken :=
  if a.terminal = contentTerminal ∧ b.terminal = contentTerminal then
    some ⟨contentTerminal, a.value ++ b.value⟩
  else none

def filled (token : LexToken) : Bool := token.terminal ≠ contentTerminal || token.value ≠ []

variable (tokens : List LexToken)

def mergedTokens : List LexToken := mergeRuns joinTokens tokens

def textOfTokens : Text := tokens.flatMap LexToken.value

theorem feedAll_spec (buffer : Text) (pieces : List Text) (more : Text) :
    lexemes shape (buffer ++ pieces.flatten ++ more) =
    (feedAll shape buffer pieces).1.flatMap spellToken ++
    lexemes shape ((feedAll shape buffer pieces).2 ++ more) := by
  induction pieces generalizing buffer with
  | nil => simp [feedAll]
  | cons piece pieces ih =>
    have first := @lexer_feed_spec shape buffer piece (pieces.flatten ++ more)
    have later := ih (feed shape buffer piece).2
    simp only [append_assoc] at first later
    simp [feedAll, first, later]

theorem lexPieces_spec :
    (lexPieces shape pieces).flatMap spellToken = lexemes shape pieces.flatten := by
  have fed := feedAll_spec shape [] pieces []
  have flushed := (@lexer_flush_spec shape (feedAll shape [] pieces).2).1
  simp only [append_nil, nil_append] at fed
  simp [lexPieces, fed, flushed]

theorem textOfTokens_spell :
    textOfTokens (tokens.flatMap spellToken) = textOfTokens tokens := by
  induction tokens with
  | nil => rfl
  | cons token tokens ih =>
    have here : textOfTokens (spellToken token) = token.value := by
      unfold spellToken textOfTokens
      split
      · simp [flatMap_map]
      · simp
    simp only [textOfTokens, flatMap_cons, flatMap_append] at ih here ⊢
    rw [here, ih]

theorem textOfTokens_lexemes (text : Text) : textOfTokens (lexemes shape text) = text := by
  induction h : text.length using Nat.strong_induction_on generalizing text with
  | h n ih =>
    cases text with
    | nil => rfl
    | cons c rest =>
      cases found : bestMatch shape (c :: rest) with
      | none =>
        have plain : lexemes shape (c :: rest) = ⟨contentTerminal, [c]⟩ :: lexemes shape rest := by
          have content := @lexemes_content shape [c] rest (by
            intro i inside
            rw [length_singleton, Nat.lt_one_iff] at inside
            rw [inside]
            exact found)
          simpa [spellToken_content] using content
        have later := ih rest.length (by rw [← h]; exact Nat.lt_succ_self _) rest rfl
        rw [plain, textOfTokens, flatMap_cons]
        exact congrArg (c :: ·) later
      | some best =>
        have within := bestMatch_length found
        have cut := (bestMatch_some found).2.2
        have later := ih ((c :: rest).drop best.2.length).length (by
          rw [length_drop]
          omega) _ rfl
        have spelled := textOfTokens_spell [⟨best.1, best.2⟩]
        simp only [textOfTokens, flatMap_cons, flatMap_nil, append_nil]
          at spelled later ⊢
        rw [lexemes_literal found, flatMap_append, spelled, later]
        obtain ⟨tail, whole⟩ := cut
        rw [← whole, drop_left]

theorem mergeRuns_spellToken {token : LexToken} (some' : filled token = true)
    (rest : List LexToken) :
    mergeRuns joinTokens (spellToken token ++ rest) = mergeRuns joinTokens (token :: rest) := by
  unfold spellToken
  by_cases content : token.terminal = contentTerminal
  · rw [if_pos content]
    have loop : ∀ value : Text, value ≠ [] →
        mergeRuns joinTokens ((value.map fun c => ⟨contentTerminal, [c]⟩) ++ rest) =
          mergeRuns joinTokens (⟨contentTerminal, value⟩ :: rest) := by
      intro value
      induction value with
      | nil => exact fun empty => absurd rfl empty
      | cons c value ih =>
        intro _
        cases value with
        | nil => rfl
        | cons d value =>
          rw [map_cons, cons_append, mergeRuns_cons _ _ (ih (cons_ne_nil d value)),
            mergeRuns, mergeRuns, mergeRuns]
          cases mergeRuns joinTokens rest with
          | nil => simp [joinTokens]
          | cons b more =>
            by_cases same : b.terminal = contentTerminal
            · simp [joinTokens, same]
            · simp [joinTokens, same]
    have value : token.value ≠ [] := by simpa [filled, content] using some'
    have whole : token = ⟨contentTerminal, token.value⟩ := by rw [← content]
    rw [loop token.value value, ← whole]
  · rw [if_neg content, singleton_append]

theorem mergedTokens_filled :
    mergedTokens (tokens.filter filled) = mergedTokens (tokens.flatMap spellToken) := by
  have spelled : tokens.flatMap spellToken = (tokens.filter filled).flatMap spellToken := by
    induction tokens with
    | nil => rfl
    | cons token tokens ih =>
      rw [flatMap_cons, ih]
      by_cases some' : filled token = true
      · rw [filter_cons_of_pos some', flatMap_cons]
      · rw [filter_cons_of_neg some']
        have empty : token.terminal = contentTerminal ∧ token.value = [] := by
          simpa [filled] using some'
        simp [spellToken, empty.1, empty.2]
  rw [spelled, mergedTokens, mergedTokens]
  exact (mergeRuns_spell joinTokens spellToken _ fun token mem rest =>
    mergeRuns_spellToken (of_mem_filter mem) rest).symm

/-- However a text comes in pieces, the merged tokens are those of the whole text, but for content
that is empty, and the tokens are the text. -/
theorem lexPieces_whole :
    mergedTokens ((lexPieces shape pieces).filter filled) =
    mergedTokens ((lexPieces shape [pieces.flatten]).filter filled) ∧
    textOfTokens (lexPieces shape pieces) = pieces.flatten := by
  have whole : [pieces.flatten].flatten = pieces.flatten := by simp
  constructor
  · rw [mergedTokens_filled, mergedTokens_filled, lexPieces_spec, lexPieces_spec, whole]
  · rw [← textOfTokens_spell, lexPieces_spec, textOfTokens_lexemes]

end pieces

/-- An empty piece behind a terminal is content of its own. -/
theorem emptyPiece_token :
    let shape := LexerShape.ofTerminals
      (terminalsFromLiterals id [("TOOL_CALL", [['<', 't', '>']])])
    mergedTokens (lexPieces shape [['<', 't', '>'], []]) ≠
      mergedTokens (lexPieces shape [['<', 't', '>']]) := by
  decide +kernel

end VllmAmpere.ParserEngine
