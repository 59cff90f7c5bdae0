import VllmAmpere.ChunkedFeeding

/-! The tool calls that the parser engine emits: each start is ended once, and the arguments of
a call are the text of its region in order. -/

open List

namespace VllmAmpere.ParserEngine

namespace Engine

def argText (index : Int) (events : List SemanticEvent) : Text :=
  events.flatMap fun ev =>
    if ev.type = .argValueChunk ∧ ev.toolIndex = index then ev.value else []

section regions

variable (p : EngineSetup)

/-- A letter in the region of arguments is one of the current call; in an array of calls it lies
in an element that is open before or behind it. -/
def argLetter (e : Engine) (c : Char) (index : Int) : Text :=
  let e' := (e.emitForState p [c]).1
  if e.state = .toolArgs ∧ e'.toolIndex = index ∧
      (p.config.toolCallBodyArray = true → e.arrayInElement = true ∨ e'.arrayInElement = true) then
    [c]
  else []

def argLetters (e : Engine) : Text → Int → Text
  | [], _ => []
  | c :: rest, index =>
    argLetter p e c index ++ argLetters (e.emitForState p [c]).1 rest index

/-- A terminal belongs to the arguments as text, or where its transition says so. -/
def argTerminal (e : Engine) (terminal : String) (value : Text) (index : Int) : Text :=
  match p.config.transitions.get? (e.state, terminal) with
  | none =>
    if p.hasDrops ∧ terminal = dropTerminal then []
    else argLetters p (e.closeSkippedSpan p terminal) value index
  | some transition =>
    if p.skipReasoningParsing ∧ p.isReasoningMarkup terminal then argLetters p e value index
    else if p.skipToolParsing ∧ p.isToolTerminal terminal ∧
        !e.usedAsPlainCloser p transition terminal then []
    else argText index
      (transitionEvents value e.messageHeader e.toolIndex transition.events).2

def argTokens (e : Engine) : List LexToken → Int → Text
  | [], _ => []
  | tok :: rest, index =>
    (if tok.terminal = contentTerminal then argLetters p e tok.value index
      else argTerminal p e tok.terminal tok.value index) ++
      argTokens (e.processToken p tok).1 rest index

def argRegion (initialState : Option ParserState) (text : Text) (index : Int) : Text :=
  argTokens p (.reset p initialState) (lexemes p.lexerShape text) index

end regions

/-- Whether a call is open behind the events of a transition, if they open and close in turn. -/
def statusAfter : Bool → List EventType → Option Bool
  | status, [] => some status
  | status, .toolCallStart :: rest => if status then none else statusAfter true rest
  | status, .toolCallEnd :: rest => if status then statusAfter false rest else none
  | status, _ :: rest => statusAfter status rest

/-- A configuration whose transitions open and close calls in turn, where `isOpen` says in which
states a call is open: chunks are emitted for content, arguments only for the text of
arguments; the calls of an array are those of its elements; and arguments that are held back
stay alone in their region. -/
structure Disciplined (p : EngineSetup) (initialState : ParserState) (isOpen : ParserState → Bool) :
    Prop where
  contents : ∀ item ∈ p.config.contentEvents.items, item.2.isChunk = true ∧
    (item.2 = .argValueChunk → item.1 = .toolArgs)
  tool : ∀ state, isOpen state = true → state ∈ toolStates
  calls : p.config.toolCallBodyArray = false → ∀ item ∈ p.config.transitions.items,
    statusAfter (isOpen item.1.1) item.2.events = some (isOpen item.2.nextState)
  array : p.config.toolCallBodyArray = true → ∀ item ∈ p.config.transitions.items,
    item.1.1 ≠ .toolArgs ∧ .toolCallStart ∉ item.2.events ∧ .toolCallEnd ∉ item.2.events
  held : p.config.toolArgsJson = true → ∀ item ∈ p.config.transitions.items,
    item.1.1 = .toolArgs → item.2.nextState = .toolArgs →
      .argValueChunk ∉ item.2.events ∧ .toolCallStart ∉ item.2.events
  skip : p.skipToolParsing = true → initialState ∉ toolStates

def opened (p : EngineSetup) (isOpen : ParserState → Bool) (e : Engine) : Bool :=
  if p.config.toolCallBodyArray then e.arrayInElement else isOpen e.state

def ends (p : EngineSetup) (isOpen : ParserState → Bool) (e : Engine) : Nat :=
  if opened p isOpen e then 0 else 1

def heldArgs (e : Engine) (index : Int) : Text :=
  if e.toolIndex = index then e.argsBuffer else []

/-- The machine behind some events, for the argument text that was read. -/
structure Tracks (p : EngineSetup) (isOpen : ParserState → Bool) (events : List SemanticEvent)
    (region : Int → Text) (e : Engine) : Prop where
  calls : Calls (callMarks events) e.toolIndex (ends p isOpen e)
  args : ∀ index, argText index events ++ e.heldArgs index = region index
  element : e.arrayInElement = true → p.config.toolCallBodyArray = true ∧ e.state = .toolArgs
  held : e.argsBuffer ≠ [] → e.state = .toolArgs ∧
    (p.config.toolCallBodyArray = true → e.arrayInElement = true) ∧
    (p.config.toolCallBodyArray = false → p.config.toolArgsJson = true)
  skip : p.skipToolParsing = true → e.state ∉ toolStates

section letters

variable {p : EngineSetup} {isOpen : ParserState → Bool} {initialState : ParserState}

theorem argText_append (index : Int) (a b : List SemanticEvent) :
    argText index (a ++ b) = argText index a ++ argText index b :=
  flatMap_append

theorem argText_one (index : Int) (ev : SemanticEvent) : argText index [ev] =
    if ev.type = .argValueChunk ∧ ev.toolIndex = index then ev.value else [] := by
  unfold argText
  rw [flatMap_cons, flatMap_nil, append_nil]

theorem callMarks_append (a b : List SemanticEvent) :
    callMarks (a ++ b) = callMarks a ++ callMarks b :=
  filterMap_append

theorem callMark_chunk {ev : SemanticEvent} (chunk : ev.type.isChunk = true) : callMark ev = none := by
  unfold callMark
  cases type : ev.type <;> rw [type] at chunk <;> first | rfl | cases chunk

theorem callMarks_chunk {ev : SemanticEvent} (chunk : ev.type.isChunk = true) : callMarks [ev] = [] := by
  unfold callMarks
  rw [filterMap_cons_none (callMark_chunk chunk)]
  rfl

theorem callMarks_spell (events : List SemanticEvent) :
    callMarks (events.flatMap spellEvent) = callMarks events := by
  induction events with
  | nil => rfl
  | cons ev rest ih =>
    rw [flatMap_cons, callMarks_append, ih]
    unfold spellEvent
    split
    next chunk =>
      have letters : ∀ value : Text, callMarks (value.map fun c => { ev with value := [c] }) = [] := by
        intro value
        induction value with
        | nil => rfl
        | cons c value ihv =>
          rw [map_cons, callMarks, filterMap_cons_none
            (callMark_chunk (show ({ ev with value := [c] } : SemanticEvent).type.isChunk = true
              from chunk))]
          exact ihv
      rw [letters, callMarks, callMarks, filterMap_cons_none (callMark_chunk chunk)]
      rfl
    · exact (callMarks_append [ev] rest).symm

theorem argText_spell (index : Int) (events : List SemanticEvent) :
    argText index (events.flatMap spellEvent) = argText index events := by
  induction events with
  | nil => rfl
  | cons ev rest ih =>
    rw [flatMap_cons, argText_append, ih, ← singleton_append (x := ev) (l := rest),
      argText_append]
    congr 1
    unfold spellEvent
    split
    · have letters : ∀ value : Text,
          argText index (value.map fun c => { ev with value := [c] }) =
            if ev.type = .argValueChunk ∧ ev.toolIndex = index then value else [] := by
        intro value
        induction value with
        | nil => exact (ite_self _).symm
        | cons c value ihv =>
          rw [map_cons, ← singleton_append, argText_append, ihv, argText_one]
          split
          · rfl
          · rfl
      rw [letters, argText_one]
    · rfl

variable {region : Int → Text} {e : Engine}

theorem Tracks.congr {events events' : List SemanticEvent} (h : Tracks p isOpen events region e)
    (same : events.flatMap spellEvent = events'.flatMap spellEvent) :
    Tracks p isOpen events' region e := by
  refine ⟨?_, fun index => ?_, h.element, h.held, h.skip⟩
  · rw [← callMarks_spell, ← same, callMarks_spell]
    exact h.calls
  · rw [← argText_spell, ← same, argText_spell]
    exact h.args index

theorem Tracks.quiet {events new : List SemanticEvent} {region region' : Int → Text} {e e' : Engine}
    (h : Tracks p isOpen events region e) (unmarked : callMarks new = [])
    (index : e'.toolIndex = e.toolIndex) (open' : opened p isOpen e' = opened p isOpen e)
    (args : ∀ i, argText i new ++ e'.heldArgs i = e.heldArgs i ++ region' i)
    (element : e'.arrayInElement = true → p.config.toolCallBodyArray = true ∧ e'.state = .toolArgs)
    (held : e'.argsBuffer ≠ [] → e'.state = .toolArgs ∧
    (p.config.toolCallBodyArray = true → e'.arrayInElement = true) ∧
    (p.config.toolCallBodyArray = false → p.config.toolArgsJson = true))
    (skip : p.skipToolParsing = true → e'.state ∉ toolStates) :
    Tracks p isOpen (events ++ new) (fun i => region i ++ region' i) e' := by
  refine ⟨?_, fun i => ?_, element, held, skip⟩
  · rw [callMarks_append, unmarked, append_nil, index, ends, open']
    exact h.calls
  · rw [argText_append, append_assoc, args i, ← append_assoc, h.args i]

theorem ends_of_open (h : opened p isOpen e = true) : ends p isOpen e = 0 := by
  rw [ends, if_pos h]

theorem ends_of_closed (h : opened p isOpen e = false) : ends p isOpen e = 1 := by
  rw [ends, h]
  rfl

theorem opened_array (array : p.config.toolCallBodyArray = true) :
    opened p isOpen e = e.arrayInElement := by
  rw [opened, if_pos array]

variable {events : List SemanticEvent}

theorem Tracks.argsChar (h : Tracks p isOpen events region e) (args : e.state = .toolArgs)
    (element : p.config.toolCallBodyArray = true → e.arrayInElement = true)
    (json : p.config.toolCallBodyArray = false → p.config.toolArgsJson = true) (c : Char) :
    Tracks p isOpen (events ++ (e.feedArgsChar c).2)
    (fun i => region i ++ if e.toolIndex = i then [c] else []) (e.feedArgsChar c).1 := by
  obtain ⟨depth, inString, escapeNext, out | ⟨kept, _⟩⟩ := e.feedArgsChar_cases c
  · rw [out]
    refine h.quiet (callMarks_chunk rfl) rfl rfl (fun i => ?_) h.element
      (fun some => absurd rfl some) h.skip
    rw [argText_one]
    unfold heldArgs event
    dsimp only
    by_cases mine : e.toolIndex = i
    · rw [if_pos ⟨rfl, mine⟩, if_pos mine, if_pos mine, if_pos mine, append_nil]
    · rw [if_neg fun both => mine both.2, if_neg mine, if_neg mine, if_neg mine]
  · rw [kept]
    refine h.quiet rfl rfl rfl (fun i => ?_) h.element (fun _ => ⟨args, element, json⟩) h.skip
    unfold heldArgs
    dsimp only
    by_cases mine : e.toolIndex = i
    · rw [if_pos mine, if_pos mine, if_pos mine]
      rfl
    · rw [if_neg mine, if_neg mine, if_neg mine]
      rfl

section

variable (h : Tracks p isOpen events region e) (array : p.config.toolCallBodyArray = true)
include h array

theorem Tracks.startElement
    (args : e.state = .toolArgs) (closed : e.arrayInElement = false) (c : Char) :
    Tracks p isOpen (events ++ (e.startArrayElement c).2)
    (fun i => region i ++ if e.toolIndex + 1 = i then [c] else []) (e.startArrayElement c).1 := by
  have nothing : e.argsBuffer = [] := by
    by_contra some
    have := (h.held some).2.1 array
    rw [closed] at this
    cases this
  have begun : Tracks p isOpen (events ++ [⟨.toolCallStart, [], e.toolIndex + 1⟩]) region
      ({ e with toolIndex := e.toolIndex + 1, arrayInElement := true }.resetArgsState) := by
    refine ⟨?_, fun i => ?_, fun _ => ⟨array, args⟩, fun some => absurd rfl some, h.skip⟩
    · have before := h.calls
      rw [ends_of_closed (by rw [opened_array array, closed])] at before
      rw [callMarks_append, ends_of_open (by rw [opened_array array]; rfl)]
      exact before.start
    · rw [argText_append, ← h.args i, append_assoc, argText_one,
        if_neg fun both => EventType.noConfusion both.1]
      refine congrArg _ ?_
      unfold heldArgs
      rw [nothing, ite_self]
      exact ite_self _
  rw [startArrayElement_eq]
  unfold andThen
  rw [← append_assoc]
  exact begun.argsChar args (fun _ => rfl)
    (fun plain => absurd (array.symm.trans plain) Bool.noConfusion) c

theorem Tracks.endElement
    (inside : e.arrayInElement = true) :
    Tracks p isOpen (events ++ e.endArrayElement.2) region e.endArrayElement.1 := by
  have before := h.calls
  rw [ends_of_open (by rw [opened_array array, inside])] at before
  unfold endArrayElement
  dsimp only
  split
  next empty =>
    refine ⟨?_, fun i => ?_, fun other => absurd other Bool.noConfusion,
      fun some => absurd empty some, h.skip⟩
    · rw [callMarks_append, ends_of_closed (by rw [opened_array array])]
      exact before.stop
    · rw [argText_append, ← h.args i]
      exact congrArg (· ++ e.heldArgs i) (append_nil _)
  next =>
    refine ⟨?_, fun i => ?_, fun other => absurd other Bool.noConfusion, fun some => absurd rfl some,
      h.skip⟩
    · rw [callMarks_append, ends_of_closed (by rw [opened_array array])]
      exact before.stop
    · rw [argText_append, ← h.args i]
      unfold heldArgs
      dsimp only
      rw [ite_self, append_nil]
      refine congrArg _ ?_
      rw [← singleton_append, argText_append, argText_one, argText_one]
      unfold event
      dsimp only
      by_cases mine : e.toolIndex = i
      · rw [if_pos ⟨rfl, mine⟩, if_pos mine, if_neg fun both => EventType.noConfusion both.1]
        exact append_nil _
      · rw [if_neg fun both => mine both.2, if_neg mine, if_neg fun both => mine both.2]
        rfl

end

section

variable (d : Disciplined p initialState isOpen)
include d

theorem contents_chunk {state : ParserState}
    {type : EventType} (found : p.config.contentEvents.get? state = some type) :
    type.isChunk = true ∧ (type = .argValueChunk → state = .toolArgs) :=
  d.contents (state, type) ((PyDict.mem_items _ _ _).mpr found)

theorem contentChunks : ContentChunks p :=
  fun _ _ found => (contents_chunk d found).1

theorem Tracks.plain (h : Tracks p isOpen events region e)
    (outside : e.state ≠ .toolArgs) (text : Text) :
    Tracks p isOpen (events ++ (e.emitPlain p text).2) region (e.emitPlain p text).1 := by
  have same : (fun i => region i ++ []) = region := by
    funext i
    exact append_nil _
  rw [← same]
  unfold emitPlain
  split
  · refine h.quiet rfl rfl rfl (fun i => ?_) h.element h.held h.skip
    exact (append_nil _).symm
  · split
    next type found =>
      obtain ⟨chunk, alone⟩ := contents_chunk d found
      refine h.quiet (callMarks_chunk chunk) rfl rfl (fun i => ?_) h.element h.held h.skip
      rw [argText_one, if_neg fun both => outside (alone both.1), append_nil]
      rfl
    · refine h.quiet rfl rfl rfl (fun i => ?_) h.element h.held h.skip
      exact (append_nil _).symm

end

theorem feedArgsChar_index (e : Engine) (c : Char) : (e.feedArgsChar c).1.toolIndex = e.toolIndex ∧
    (e.feedArgsChar c).1.arrayInElement = e.arrayInElement := by
  obtain ⟨depth, inString, escapeNext, out | ⟨kept, _⟩⟩ := e.feedArgsChar_cases c
  · rw [out]
    exact ⟨rfl, rfl⟩
  · rw [kept]
    exact ⟨rfl, rfl⟩

def elementLetter (p : EngineSetup) (e : Engine) (c : Char) (index : Int) : Text :=
  let e' := (e.feedArrayChar p c).1
  if e'.toolIndex = index ∧ (e.arrayInElement = true ∨ e'.arrayInElement = true) then [c] else []

theorem Tracks.between
    (h : Tracks p isOpen events region e) (array : p.config.toolCallBodyArray = true)
    (closed : e.arrayInElement = false) (state : ParserState) (started : Bool)
    (free : state = e.state ∨ state = .content) : Tracks p isOpen events region
    { e with state := state, arrayStarted := started, arrayInElement := false } := by
  refine ⟨?_, h.args, nofun, fun some => ?_, fun on inside => ?_⟩
  · have before := h.calls
    rw [ends_of_closed (by rw [opened_array array, closed])] at before
    rw [ends_of_closed (by rw [opened_array array])]
    exact before
  · have := (h.held some).2.1 array
    rw [closed] at this
    cases this
  · cases free with
    | inl same => exact h.skip on (same ▸ inside)
    | inr content =>
      rw [show state = ParserState.content from content] at inside
      exact absurd (show ParserState.content ∈ toolStates from inside) (by decide)

theorem Tracks.arrayChar (d : Disciplined p initialState isOpen)
    (h : Tracks p isOpen events region e)
    (array : p.config.toolCallBodyArray = true) (args : e.state = .toolArgs) (c : Char) :
    Tracks p isOpen (events ++ (e.feedArrayChar p c).2)
    (fun i => region i ++ elementLetter p e c i) (e.feedArrayChar p c).1 := by
  have json : p.config.toolCallBodyArray = false → p.config.toolArgsJson = true :=
    fun plain => absurd (array.symm.trans plain) Bool.noConfusion
  by_cases inside : e.arrayInElement = true
  · -- in an element the character is one of its call
    have fed := h.argsChar args (fun _ => inside) json c
    have index := (feedArgsChar_index e c).1
    have still := ((feedArgsChar_index e c).2).trans inside
    have letter : elementLetter p e c = fun i => if e.toolIndex = i then [c] else [] := by
      funext i
      have same : (e.feedArrayChar p c).1.toolIndex = e.toolIndex := by
        rw [feedArrayChar, if_pos inside]
        dsimp only
        split
        · unfold endArrayElement
          dsimp only
          split <;> exact index
        · exact index
      unfold elementLetter
      dsimp only
      rw [same]
      by_cases mine : e.toolIndex = i
      · rw [if_pos ⟨mine, .inl inside⟩, if_pos mine]
      · rw [if_neg fun both => mine both.1, if_neg mine]
    rw [letter, feedArrayChar, if_pos inside]
    dsimp only
    split
    · rw [← append_assoc]
      exact fed.endElement array still
    · exact fed
  · have closed : e.arrayInElement = false := Bool.not_eq_true _ ▸ inside
    have quiet : ∀ (state : ParserState) (started : Bool), state = e.state ∨ state = .content →
        e.feedArrayChar p c =
          ({ e with state := state, arrayStarted := started, arrayInElement := false }, []) →
        Tracks p isOpen (events ++ (e.feedArrayChar p c).2)
          (fun i => region i ++ elementLetter p e c i) (e.feedArrayChar p c).1 := by
      intro state started free step
      have letter : (fun i => region i ++ elementLetter p e c i) = region := by
        funext i
        unfold elementLetter
        rw [step]
        dsimp only
        rw [closed, if_neg fun both => both.2.elim nofun nofun, append_nil]
      rw [letter, step, append_nil]
      exact h.between array closed state started free
    have bail : e.feedArrayChar p c = e.bailArrayToContent p c →
        Tracks p isOpen (events ++ (e.feedArrayChar p c).2)
          (fun i => region i ++ elementLetter p e c i) (e.feedArrayChar p c).1 := by
      intro step
      have left := (h.between array closed .content false (.inr rfl)).plain d nofun [c]
      have out : (e.bailArrayToContent p c).1.arrayInElement = false := by
        unfold bailArrayToContent emitPlain resetArrayState
        dsimp only
        split
        · rfl
        · split <;> rfl
      have letter : (fun i => region i ++ elementLetter p e c i) = region := by
        funext i
        unfold elementLetter
        rw [step]
        dsimp only
        rw [closed, out, if_neg fun both => both.2.elim nofun nofun, append_nil]
      rw [letter, step]
      exact left
    have same : e = { e with state := e.state, arrayStarted := e.arrayStarted, arrayInElement := false } := by
      rw [← closed]
    by_cases space : c ∈ [' ', '\t', '\r', '\n']
    · refine quiet e.state e.arrayStarted (.inl rfl) ?_
      rw [feedArrayChar, if_neg inside, if_pos space, ← same]
    · cases started : e.arrayStarted with
      | false =>
        by_cases bracket : c = '['
        · refine quiet e.state true (.inl rfl) ?_
          rw [feedArrayChar, if_neg inside, if_neg space, started]
          rw [if_pos (show (!false) = true from rfl), if_pos bracket, ← closed]
        · refine bail ?_
          rw [feedArrayChar, if_neg inside, if_neg space, started]
          rw [if_pos (show (!false) = true from rfl), if_neg bracket]
      | true =>
        by_cases comma : c = ','
        · refine quiet e.state e.arrayStarted (.inl rfl) ?_
          rw [feedArrayChar, if_neg inside, if_neg space, started]
          rw [if_neg (by decide), if_pos comma, ← started, ← same]
        · by_cases brace : c = '\x7b'
          · have step : e.feedArrayChar p c = e.startArrayElement c := by
              rw [feedArrayChar, if_neg inside, if_neg space, started]
              rw [if_neg (by decide), if_neg comma, if_pos brace]
            have opens : (e.startArrayElement c).1.arrayInElement = true ∧
                (e.startArrayElement c).1.toolIndex = e.toolIndex + 1 := by
              rw [startArrayElement_eq]
              exact ⟨(feedArgsChar_index _ c).2, (feedArgsChar_index _ c).1⟩
            have letter : elementLetter p e c =
                fun i => if e.toolIndex + 1 = i then [c] else [] := by
              funext i
              unfold elementLetter
              rw [step]
              dsimp only
              rw [opens.1, opens.2]
              by_cases mine : e.toolIndex + 1 = i
              · rw [if_pos ⟨mine, .inr rfl⟩, if_pos mine]
              · rw [if_neg fun both => mine both.1, if_neg mine]
            rw [letter, step]
            exact h.startElement array args closed c
          · by_cases bracket : c = ']'
            · refine quiet .content false (.inr rfl) ?_
              rw [feedArrayChar, if_neg inside, if_neg space, started]
              rw [if_neg (by decide), if_neg comma, if_neg brace, if_pos bracket]
              rfl
            · refine bail ?_
              rw [feedArrayChar, if_neg inside, if_neg space, started]
              rw [if_neg (by decide), if_neg comma, if_neg brace, if_neg bracket]

end letters

section tokens

variable {p : EngineSetup} {isOpen : ParserState → Bool} {initialState : ParserState}
  {events : List SemanticEvent} {region : Int → Text} {e : Engine}

theorem Tracks.letter (d : Disciplined p initialState isOpen) (h : Tracks p isOpen events region e)
    (c : Char) : Tracks p isOpen (events ++ (e.emitForState p [c]).2)
    (fun i => region i ++ argLetter p e c i) (e.emitForState p [c]).1 := by
  by_cases args : e.state = .toolArgs
  · by_cases array : p.config.toolCallBodyArray = true
    · have step : e.emitForState p [c] = e.feedArrayChar p c := by
        rw [emitForState, if_pos args, if_pos array, feedArrayText, if_neg (not_not.mpr args)]
        exact andThen_nil _
      have letter : argLetter p e c = elementLetter p e c := by
        funext i
        unfold argLetter elementLetter
        rw [step]
        dsimp only
        by_cases mine : (e.feedArrayChar p c).1.toolIndex = i ∧
            (e.arrayInElement = true ∨ (e.feedArrayChar p c).1.arrayInElement = true)
        · rw [if_pos ⟨args, mine.1, fun _ => mine.2⟩, if_pos mine]
        · rw [if_neg fun both => mine ⟨both.2.1, both.2.2 array⟩, if_neg mine]
      rw [step, letter]
      exact h.arrayChar d array args c
    · have letter : ∀ e' : Engine, (e.emitForState p [c]).1 = e' → e'.toolIndex = e.toolIndex →
          argLetter p e c = fun i => if e.toolIndex = i then [c] else [] := by
        intro e' step index
        funext i
        unfold argLetter
        rw [step]
        dsimp only
        by_cases mine : e.toolIndex = i
        · rw [if_pos ⟨args, index.trans mine, fun on => absurd on array⟩, if_pos mine]
        · rw [if_neg fun both => mine (index.symm.trans both.2.1), if_neg mine]
      by_cases json : p.config.toolArgsJson = true
      · have step : e.emitForState p [c] = e.feedArgsChar c := by
          rw [emitForState, if_pos args, if_neg array, if_pos json, feedArgsText_cons]
          exact andThen_nil _
        rw [letter _ rfl (by rw [step]; exact (feedArgsChar_index e c).1), step]
        exact h.argsChar args (fun on => absurd on array) (fun _ => json) c
      · have step : e.emitForState p [c] = (e, [e.event .argValueChunk [c]]) := by
          rw [emitForState, if_pos args, if_neg array, if_neg json]
        have nothing : e.argsBuffer = [] := by
          by_contra some
          exact json ((h.held some).2.2 (Bool.not_eq_true _ ▸ array))
        rw [letter _ rfl (by rw [step]), step]
        refine h.quiet (callMarks_chunk rfl) rfl rfl (fun i => ?_) h.element h.held h.skip
        rw [argText_one]
        unfold heldArgs event
        rw [nothing, ite_self, append_nil, nil_append]
        by_cases mine : e.toolIndex = i
        · rw [if_pos ⟨rfl, mine⟩, if_pos mine]
        · rw [if_neg fun both => mine both.2, if_neg mine]
  · have letter : (fun i => region i ++ argLetter p e c i) = region := by
      funext i
      unfold argLetter
      dsimp only
      rw [if_neg fun both => args both.1, append_nil]
    rw [letter, emitForState, if_neg args]
    exact h.plain d args [c]

theorem Tracks.text (d : Disciplined p initialState isOpen) (h : Tracks p isOpen events region e)
    (text : Text) : Tracks p isOpen (events ++ (e.emitForState p text).2)
    (fun i => region i ++ argLetters p e text i) (e.emitForState p text).1 := by
  induction text generalizing e events region with
  | nil =>
    have none := emitForState_nil (contentChunks d) e
    have machine : (e.emitForState p []).1 = e := congrArg Prod.fst none
    have quiet : (e.emitForState p []).2.flatMap spellEvent = [] := congrArg Prod.snd none
    have nothing : (fun i => region i ++ argLetters p e [] i) = region := by
      funext i
      exact append_nil _
    rw [machine, nothing]
    refine h.congr ?_
    rw [flatMap_append, quiet, append_nil]
  | cons c rest ih =>
    have whole := emitForState_append (contentChunks d) e [c] rest
    rw [singleton_append] at whole
    have machine := congrArg Prod.fst whole
    have letters := congrArg Prod.snd whole
    have step := ih (h.letter d c)
    have regions : (fun i => region i ++ argLetters p e (c :: rest) i) =
        fun i => region i ++ argLetter p e c i ++ argLetters p (e.emitForState p [c]).1 rest i := by
      funext i
      rw [argLetters, append_assoc]
    rw [regions, show (e.emitForState p (c :: rest)).1 = _ from machine]
    refine step.congr ?_
    rw [append_assoc, flatMap_append]
    refine Eq.trans ?_ flatMap_append.symm
    exact congrArg _ letters.symm

theorem transitionEvents_cons (value : Text) (header : Option Text) (index : Int)
    (type : EventType) (rest : List EventType) : ∃ head index',
    index' = (if type = .toolCallStart then index + 1 else index) ∧
    (head = [] ∧ type = .textChunk ∨ ∃ text, head = [⟨type, text, index'⟩]) ∧
    transitionEvents value header index (type :: rest) =
    ((transitionEvents value header index' rest).1,
    head ++ (transitionEvents value header index' rest).2) := by
  rw [transitionEvents]
  dsimp only
  by_cases dropped : type = .textChunk ∧
      (if type = .textChunk then header.getD value else value) = []
  · rw [if_pos dropped]
    exact ⟨[], _, rfl, .inl ⟨rfl, dropped.1⟩, rfl⟩
  · rw [if_neg dropped]
    exact ⟨[_], _, rfl, .inr ⟨_, rfl⟩, rfl⟩

theorem transitionEvents_calls (value : Text) (header : Option Text) (types : List EventType)
    {marks : List CallMark} {index : Int} {status status' : Bool}
    (h : Calls marks index (if status then 0 else 1))
    (turns : statusAfter status types = some status') :
    Calls (marks ++ callMarks (transitionEvents value header index types).2)
    (transitionEvents value header index types).1 (if status' then 0 else 1) := by
  induction types generalizing marks index status with
  | nil =>
    cases turns
    rw [transitionEvents, show callMarks [] = [] from rfl, append_nil]
    exact h
  | cons type rest ih =>
    obtain ⟨head, index', rfl, form, step⟩ := transitionEvents_cons value header index type rest
    rw [step, callMarks_append, ← append_assoc]
    dsimp only
    have other : type ≠ .toolCallStart → type ≠ .toolCallEnd →
        statusAfter status (type :: rest) = statusAfter status rest →
        Calls (marks ++ callMarks head ++ callMarks (transitionEvents value header
            (if type = .toolCallStart then index + 1 else index) rest).2)
          (transitionEvents value header (if type = .toolCallStart then index + 1 else index) rest).1
          (if status' then 0 else 1) := by
      intro notStart notEnd same
      have unmarked : callMarks head = [] := by
        rcases form with ⟨rfl, _⟩ | ⟨text, rfl⟩
        · rfl
        · unfold callMarks
          rw [filterMap_cons_none]
          · rfl
          · unfold callMark
            cases type <;> first | rfl | exact absurd rfl notStart | exact absurd rfl notEnd
      rw [unmarked, append_nil, if_neg notStart]
      exact ih h (same ▸ turns)
    cases type with
    | toolCallStart =>
      rw [statusAfter] at turns
      cases status with
      | true => cases turns
      | false =>
        rcases form with ⟨_, wrong⟩ | ⟨text, rfl⟩
        · cases wrong
        · exact ih (show Calls _ _ (if true = true then 0 else 1) from h.start) turns
    | toolCallEnd =>
      rw [statusAfter] at turns
      cases status with
      | false => cases turns
      | true =>
        rcases form with ⟨_, wrong⟩ | ⟨text, rfl⟩
        · cases wrong
        · exact ih (show Calls _ _ (if false = true then 0 else 1) from h.stop) turns
    | textChunk => exact other (by simp) (by simp) rfl
    | reasoningStart => exact other (by simp) (by simp) rfl
    | reasoningChunk => exact other (by simp) (by simp) rfl
    | reasoningEnd => exact other (by simp) (by simp) rfl
    | toolName => exact other (by simp) (by simp) rfl
    | argValueChunk => exact other (by simp) (by simp) rfl

theorem transitionEvents_index (value : Text) (header : Option Text) {types : List EventType}
    (index : Int) (noStart : .toolCallStart ∉ types) :
    (transitionEvents value header index types).1 = index ∧
    (.toolCallEnd ∉ types → callMarks (transitionEvents value header index types).2 = []) ∧
    (.argValueChunk ∉ types → ∀ i, argText i (transitionEvents value header index types).2 = []) := by
  induction types generalizing index with
  | nil => exact ⟨rfl, fun _ => rfl, fun _ _ => rfl⟩
  | cons type rest ih =>
    obtain ⟨head, index', rfl, form, step⟩ := transitionEvents_cons value header index type rest
    have first : type ≠ .toolCallStart := fun same => noStart (same ▸ mem_cons_self)
    rw [if_neg first] at step form
    have ⟨same, marks, args⟩ := ih index fun mem => noStart (mem_cons_of_mem _ mem)
    rw [step]
    refine ⟨same, fun noEnd => ?_, fun noArgs i => ?_⟩
    · rw [callMarks_append, marks fun mem => noEnd (mem_cons_of_mem _ mem), append_nil]
      have notEnd : type ≠ .toolCallEnd := fun same => noEnd (same ▸ mem_cons_self)
      rcases form with ⟨rfl, _⟩ | ⟨text, rfl⟩
      · rfl
      · unfold callMarks
        rw [filterMap_cons_none]
        · rfl
        · unfold callMark
          cases type <;> first | rfl | exact absurd rfl first | exact absurd rfl notEnd
    · rw [argText_append, args fun mem => noArgs (mem_cons_of_mem _ mem), append_nil]
      have notArgs : type ≠ .argValueChunk := fun same => noArgs (same ▸ mem_cons_self)
      rcases form with ⟨rfl, _⟩ | ⟨text, rfl⟩
      · rfl
      · rw [argText_one, if_neg fun both => notArgs both.1]

theorem Tracks.leaving (h : Tracks p isOpen events region e) (transition : Transition) :
    Tracks p isOpen (events ++ (e.flushLeaving transition).2) region (e.flushLeaving transition).1 ∧
    (e.flushLeaving transition).1.state = e.state ∧
    (e.flushLeaving transition).1.toolIndex = e.toolIndex ∧
    ((e.flushLeaving transition).1.argsBuffer ≠ [] →
    e.state = .toolArgs ∧ transition.nextState = .toolArgs) := by
  unfold flushLeaving
  split
  next leaves =>
    refine ⟨⟨?_, fun i => ?_, h.element, fun some => absurd rfl some, h.skip⟩, rfl, rfl,
      fun some => absurd rfl some⟩
    · rw [callMarks_append, callMarks_chunk rfl, append_nil]
      exact h.calls
    · rw [← h.args i, argText_append, argText_one]
      unfold heldArgs event
      dsimp only
      rw [ite_self, append_nil]
      by_cases mine : e.toolIndex = i
      · rw [if_pos ⟨rfl, mine⟩, if_pos mine]
      · rw [if_neg fun both => mine both.2, if_neg mine]
  next stays =>
    rw [append_nil]
    refine ⟨h, rfl, rfl, fun some => ?_⟩
    have args := (h.held some).1
    exact ⟨args, by_contra fun other => stays ⟨args, other, some⟩⟩

theorem Tracks.transition (d : Disciplined p initialState isOpen)
    (h : Tracks p isOpen events region e) {terminal : String} {transition : Transition}
    (found : p.config.transitions.get? (e.state, terminal) = some transition)
    (outside : p.skipToolParsing = true → transition.nextState ∉ toolStates) (value : Text) :
    Tracks p isOpen (events ++ (e.applyTransition p transition value).2)
    (fun i => region i ++ argText i
    (transitionEvents value e.messageHeader e.toolIndex transition.events).2)
    (e.applyTransition p transition value).1 := by
  have listed := (PyDict.mem_items p.config.transitions _ _).mpr found
  obtain ⟨left, state, index, kept⟩ := h.leaving transition
  obtain ⟨f, hf⟩ : ∃ f, f = e.flushLeaving transition := ⟨_, rfl⟩
  obtain ⟨t, ht⟩ : ∃ t, t = transitionEvents value e.messageHeader e.toolIndex transition.events :=
    ⟨_, rfl⟩
  rw [← hf] at left state index kept
  have step : e.applyTransition p transition value =
      ({ f.1.clearHeader with state := transition.nextState, toolIndex := t.1 }.enterArgs p,
        f.2 ++ t.2) := by
    unfold applyTransition
    rw [← hf]
    dsimp only
    rw [index, ← ht]
  have buffer : ∀ g : Engine, (g.enterArgs p).argsBuffer = g.argsBuffer ∧
      (g.enterArgs p).toolIndex = g.toolIndex ∧ (g.enterArgs p).state = g.state ∧
      ((g.enterArgs p).arrayInElement = true → g.arrayInElement = true ∧
        (p.config.toolCallBodyArray = true → g.state ≠ .toolArgs)) := by
    intro g
    unfold enterArgs
    split
    · dsimp only
      split
      · exact ⟨rfl, rfl, rfl, nofun⟩
      next plain => exact ⟨rfl, rfl, rfl, fun inside => ⟨inside, fun on => absurd on plain⟩⟩
    next other => exact ⟨rfl, rfl, rfl, fun inside => ⟨inside, fun _ => other⟩⟩
  have cleared : f.1.clearHeader.argsBuffer = f.1.argsBuffer ∧
      f.1.clearHeader.arrayInElement = f.1.arrayInElement := by
    unfold clearHeader
    split <;> exact ⟨rfl, rfl⟩
  rw [step, ← ht, ← append_assoc]
  obtain ⟨g, hg⟩ : ∃ g, g =
    { f.1.clearHeader with state := transition.nextState, toolIndex := t.1 } := ⟨_, rfl⟩
  have gs : g.state = transition.nextState ∧ g.toolIndex = t.1 ∧
      g.argsBuffer = f.1.argsBuffer ∧ g.arrayInElement = f.1.arrayInElement := by
    rw [hg]
    exact ⟨rfl, rfl, cleared.1, cleared.2⟩
  rw [← hg]
  obtain ⟨sameBuffer, sameIndex, sameState, inside⟩ := buffer g
  -- no transition leaves the region of an array
  have noElement : (g.enterArgs p).arrayInElement = false := by
    rw [← Bool.not_eq_true]
    intro element
    have ⟨array, args⟩ := left.element (gs.2.2.2 ▸ (inside element).1)
    exact (d.array array _ listed).1 (state ▸ args)
  have heldFirst : g.argsBuffer ≠ [] → e.state = .toolArgs ∧ transition.nextState = .toolArgs ∧
      p.config.toolCallBodyArray = false ∧ p.config.toolArgsJson = true := by
    intro some
    rw [gs.2.2.1] at some
    have ⟨args, next⟩ := kept some
    have plain : p.config.toolCallBodyArray = false := by
      rw [← Bool.not_eq_true]
      exact fun array => (d.array array _ listed).1 args
    exact ⟨args, next, plain, (left.held some).2.2 plain⟩
  refine ⟨?_, fun i => ?_, fun element => ?_, fun some => ?_, fun on => ?_⟩
  · rw [callMarks_append, sameIndex, gs.2.1]
    have before := left.calls
    rw [index] at before
    by_cases array : p.config.toolCallBodyArray = true
    · have ⟨_, noStart, noEnd⟩ := d.array array _ listed
      have ⟨sameIndex', marks, _⟩ :=
        transitionEvents_index value e.messageHeader e.toolIndex noStart
      rw [← ht] at sameIndex' marks
      have closed : f.1.arrayInElement = false := by
        rw [← Bool.not_eq_true]
        intro element
        exact (d.array array _ listed).1 (state ▸ (left.element element).2)
      rw [ends_of_closed (by rw [opened_array array, closed])] at before
      rw [marks noEnd, append_nil, sameIndex',
        ends_of_closed (by rw [opened_array array, noElement])]
      exact before
    · have plain : p.config.toolCallBodyArray = false := Bool.not_eq_true _ ▸ array
      have turns := d.calls plain _ listed
      have status : ends p isOpen f.1 = if isOpen e.state = true then 0 else 1 := by
        rw [ends, opened, if_neg array, state]
      have status' : ends p isOpen (g.enterArgs p) =
          if isOpen transition.nextState = true then 0 else 1 := by
        rw [ends, opened, if_neg array, sameState, gs.1]
      rw [status] at before
      rw [status']
      have moved := transitionEvents_calls value e.messageHeader transition.events before turns
      rw [← ht] at moved
      exact moved
  · rw [argText_append, ← left.args i]
    unfold heldArgs
    rw [sameIndex, sameBuffer, gs.2.1, gs.2.2.1, index]
    by_cases empty : f.1.argsBuffer = []
    · rw [empty, ite_self, ite_self, append_nil, append_nil]
    · have ⟨args, next, plain, json⟩ := heldFirst (gs.2.2.1.symm ▸ empty)
      have ⟨noArgs, noStart⟩ := d.held json _ listed args next
      have ⟨sameIndex', _, nothing⟩ :=
        transitionEvents_index value e.messageHeader e.toolIndex noStart
      rw [← ht] at sameIndex' nothing
      rw [sameIndex', nothing noArgs, append_nil, append_nil]
  · rw [noElement] at element
    cases element
  · rw [sameBuffer] at some
    have ⟨args, next, plain, json⟩ := heldFirst some
    rw [sameState, gs.1]
    exact ⟨next, fun array => absurd (array.symm.trans plain) Bool.noConfusion, fun _ => json⟩
  · rw [sameState, gs.1]
    exact outside on

theorem isToolTerminal_of_next {p : EngineSetup} {state : ParserState} {terminal : String}
    {transition : Transition}
    (found : p.config.transitions.get? (state, terminal) = some transition)
    (tool : transition.nextState ∈ toolStates) : p.isToolTerminal terminal = true := by
  unfold EngineSetup.isToolTerminal
  rw [any_eq_true]
  refine ⟨_, (PyDict.mem_items _ _ _).mpr found, ?_⟩
  dsimp only
  rw [Bool.and_eq_true, Bool.or_eq_true, decide_eq_true_iff, decide_eq_true_iff]
  exact ⟨rfl, .inl tool⟩

theorem Tracks.forward (d : Disciplined p initialState isOpen)
    (h : Tracks p isOpen events region e) (on : p.skipToolParsing = true) (transition : Transition)
    (terminal : String) (value : Text) :
    Tracks p isOpen (events ++ (e.forwardTerminal p transition terminal value).2) region
    (e.forwardTerminal p transition terminal value).1 := by
  have outside := h.skip on
  have same : (fun i => region i ++ []) = region := by
    funext i
    exact append_nil _
  have nothing : e.argsBuffer = [] := by
    by_contra some
    rw [(h.held some).1] at outside
    exact outside (by decide)
  have closed : e.arrayInElement = false := by
    rw [← Bool.not_eq_true]
    intro element
    rw [(h.element element).2] at outside
    exact outside (by decide)
  have notOpen : ∀ state, state ∉ toolStates → isOpen state = false := fun state other => by
    rw [← Bool.not_eq_true]
    exact fun opens => other (d.tool state opens)
  -- the machine behind it differs in what does not matter for calls
  have step : ∀ (new : List SemanticEvent) (e' : Engine), callMarks new = [] →
      (∀ i, argText i new = []) → e'.toolIndex = e.toolIndex → e'.argsBuffer = e.argsBuffer →
      e'.arrayInElement = e.arrayInElement → (e'.state = e.state ∨ e'.state = .content) →
      Tracks p isOpen (events ++ new) region e' := by
    intro new e' marks args index buffer element state
    have outside' : e'.state ∉ toolStates := by
      cases state with
      | inl same => exact same ▸ outside
      | inr content =>
        rw [content]
        decide
    rw [← same]
    refine h.quiet marks index ?_ (fun i => ?_) (fun inside => ?_) (fun some => ?_) fun _ => outside'
    · unfold opened
      rw [element, notOpen _ outside', notOpen _ outside]
    · unfold heldArgs
      rw [args i, buffer, nothing, ite_self, ite_self]
    · rw [element, closed] at inside
      cases inside
    · rw [buffer, nothing] at some
      exact absurd rfl some
  have cleared : ∀ span : Bool, ({ e with inSkippedToolSpan := span }.clearHeader).state = e.state ∧
      ({ e with inSkippedToolSpan := span }.clearHeader).toolIndex = e.toolIndex ∧
      ({ e with inSkippedToolSpan := span }.clearHeader).argsBuffer = e.argsBuffer ∧
      ({ e with inSkippedToolSpan := span }.clearHeader).arrayInElement = e.arrayInElement := by
    intro span
    unfold clearHeader
    split <;> exact ⟨rfl, rfl, rfl, rfl⟩
  unfold forwardTerminal
  obtain ⟨span, hspan⟩ : ∃ span, span = (if transition.nextState ∈ toolStates then true
    else if p.isToolExitTerminal terminal = true then false else e.inSkippedToolSpan) := ⟨_, rfl⟩
  rw [← hspan]
  dsimp only
  obtain ⟨state, index, buffer, element⟩ := cleared span
  split
  · refine step _ _ rfl (fun i => ?_) index buffer element (.inr rfl)
    rw [← singleton_append, argText_append, argText_one, argText_one]
    unfold event
    rw [if_neg fun both => EventType.noConfusion both.1, if_neg fun both => EventType.noConfusion both.1]
    rfl
  · split
    · refine step _ _ rfl (fun i => ?_) index buffer element (.inr rfl)
      rw [argText_one]
      exact if_neg fun both => EventType.noConfusion both.1
    · split
      next type found =>
        obtain ⟨chunk, alone⟩ := contents_chunk d found
        refine step _ _ (callMarks_chunk chunk) (fun i => ?_) index buffer element (.inl state)
        rw [argText_one]
        refine if_neg fun both => ?_
        have args := alone both.1
        rw [state] at args
        rw [args] at outside
        exact outside (by decide)
      · refine step _ _ rfl (fun i => rfl) index buffer element (.inl state)

theorem Tracks.closeSpan (h : Tracks p isOpen events region e) (terminal : String) :
    Tracks p isOpen events region (e.closeSkippedSpan p terminal) := by
  unfold closeSkippedSpan
  split
  · exact ⟨h.calls, h.args, h.element, h.held, h.skip⟩
  · exact h

theorem Tracks.terminal (d : Disciplined p initialState isOpen)
    (h : Tracks p isOpen events region e) (terminal : String) (value : Text) :
    Tracks p isOpen (events ++ (e.onTerminal p terminal value).2)
    (fun i => region i ++ argTerminal p e terminal value i) (e.onTerminal p terminal value).1 := by
  have same : (fun i => region i ++ []) = region := by
    funext i
    exact append_nil _
  unfold onTerminal argTerminal
  cases found : p.config.transitions.get? (e.state, terminal) with
  | none =>
    dsimp only
    by_cases drop : p.hasDrops = true ∧ terminal = dropTerminal
    · simp only [if_pos drop]
      rw [same, append_nil]
      exact h
    · simp only [if_neg drop]
      exact (h.closeSpan terminal).text d value
  | some transition =>
    dsimp only
    by_cases markup : p.skipReasoningParsing = true ∧ p.isReasoningMarkup terminal = true
    · simp only [if_pos markup]
      exact h.text d value
    · simp only [if_neg markup]
      by_cases skipped : p.skipToolParsing = true ∧ p.isToolTerminal terminal = true ∧
          (!e.usedAsPlainCloser p transition terminal) = true
      · simp only [if_pos skipped]
        rw [same]
        exact h.forward d skipped.1 transition terminal value
      · simp only [if_neg skipped]
        refine h.transition d found (fun on tool => ?_) value
        refine skipped ⟨on, isToolTerminal_of_next found tool, ?_⟩
        unfold usedAsPlainCloser
        rw [decide_eq_false (not_not.mpr tool), Bool.and_false, Bool.false_and]
        rfl

theorem Tracks.tokens (d : Disciplined p initialState isOpen)
    (h : Tracks p isOpen events region e) (tokens : List LexToken) :
    Tracks p isOpen (events ++ (e.processLexTokens p tokens).2)
    (fun i => region i ++ argTokens p e tokens i) (e.processLexTokens p tokens).1 := by
  induction tokens generalizing e events region with
  | nil =>
    have same : (fun i => region i ++ argTokens p e [] i) = region := by
      funext i
      exact append_nil _
    rw [same, processLexTokens, append_nil]
    exact h
  | cons tok rest ih =>
    have first : Tracks p isOpen (events ++ (e.processToken p tok).2)
        (fun i => region i ++ (if tok.terminal = contentTerminal then argLetters p e tok.value i
          else argTerminal p e tok.terminal tok.value i)) (e.processToken p tok).1 := by
      unfold processToken
      by_cases content : tok.terminal = contentTerminal
      · simp only [if_pos content]
        unfold onContent
        split
        next empty =>
          have same : (fun i => region i ++ argLetters p e tok.value i) = region := by
            funext i
            rw [empty]
            exact append_nil _
          rw [same, append_nil]
          exact h
        · exact h.text d tok.value
      · simp only [if_neg content]
        exact h.terminal d tok.terminal tok.value
    have regions : (fun i => region i ++ argTokens p e (tok :: rest) i) = fun i =>
        (region i ++ (if tok.terminal = contentTerminal then argLetters p e tok.value i
          else argTerminal p e tok.terminal tok.value i)) ++
          argTokens p (e.processToken p tok).1 rest i := by
      funext i
      rw [argTokens, append_assoc]
    rw [regions, processLexTokens_cons]
    unfold andThen
    dsimp only
    rw [← append_assoc]
    exact ih first

end tokens

end Engine

end VllmAmpere.ParserEngine
