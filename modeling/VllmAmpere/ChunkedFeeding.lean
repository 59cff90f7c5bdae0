import VllmAmpere.StreamingEngine

/-! However a text is cut into chunks, the engine emits the same events once adjacent chunk
events are merged. -/

open List

namespace VllmAmpere.ParserEngine

def EventType.isChunk : EventType → Bool
  | textChunk | reasoningChunk | toolName | argValueChunk => true
  | _ => false

/-- Adjacent chunks of one kind and one tool index are one chunk. -/
def joinEvents (a b : SemanticEvent) : Option SemanticEvent :=
  if a.type.isChunk ∧ a.type = b.type ∧ a.toolIndex = b.toolIndex then
    some { a with value := a.value ++ b.value }
  else none

def merged (events : List SemanticEvent) : List SemanticEvent := mergeRuns joinEvents events

def spellEvent (ev : SemanticEvent) : List SemanticEvent :=
  if ev.type.isChunk then ev.value.map fun c => { ev with value := [c] } else [ev]

def Filled (events : List SemanticEvent) : Prop :=
  ∀ ev ∈ events, ev.type.isChunk = true → ev.value ≠ []

theorem mergeRuns_spellEvent {ev : SemanticEvent} (filled : ev.type.isChunk = true → ev.value ≠ [])
    (rest : List SemanticEvent) :
    mergeRuns joinEvents (spellEvent ev ++ rest) = mergeRuns joinEvents (ev :: rest) := by
  unfold spellEvent
  by_cases chunk : ev.type.isChunk = true
  · rw [if_pos chunk]
    have loop : ∀ (value : Text), value ≠ [] →
        mergeRuns joinEvents ((value.map fun c => { ev with value := [c] }) ++ rest) =
          mergeRuns joinEvents ({ ev with value } :: rest) := by
      intro value
      induction value with
      | nil => exact fun empty => absurd rfl empty
      | cons c value ih =>
        intro _
        rw [map_cons, cons_append]
        cases value with
        | nil => rfl
        | cons d value =>
          rw [mergeRuns_cons _ _ (ih (cons_ne_nil d value)), mergeRuns, mergeRuns, mergeRuns]
          cases mergeRuns joinEvents rest with
          | nil =>
            dsimp only
            unfold joinEvents
            rw [if_pos ⟨chunk, rfl, rfl⟩]
            rfl
          | cons b more =>
            unfold joinEvents
            dsimp only
            by_cases same : ev.type = b.type ∧ ev.toolIndex = b.toolIndex
            · rw [if_pos ⟨chunk, same⟩, if_pos ⟨chunk, same⟩]
              dsimp only
              rw [if_pos ⟨chunk, rfl, rfl⟩]
              rfl
            · rw [if_neg fun h => same h.2, if_neg fun h => same h.2]
              dsimp only
              rw [if_pos ⟨chunk, rfl, rfl⟩]
              rfl
    exact loop ev.value (filled chunk)
  · rw [if_neg chunk, singleton_append]

theorem merged_eq {events events' : List SemanticEvent} (filled : Filled events)
    (filled' : Filled events') (same : events.flatMap spellEvent = events'.flatMap spellEvent) :
    merged events = merged events' := by
  unfold merged
  rw [← mergeRuns_spell joinEvents spellEvent events fun ev mem => mergeRuns_spellEvent (filled ev mem),
    same, mergeRuns_spell joinEvents spellEvent events' fun ev mem =>
      mergeRuns_spellEvent (filled' ev mem)]

section steps

variable (r : Engine × List SemanticEvent)

def andThen (f : Engine → Engine × List SemanticEvent) :
    Engine × List SemanticEvent :=
  ((f r.1).1, r.2 ++ (f r.1).2)

def spelled : Engine × List SemanticEvent :=
  (r.1, r.2.flatMap spellEvent)

theorem spelled_andThen {r r' : Engine × List SemanticEvent}
    {f f' : Engine → Engine × List SemanticEvent} (first : spelled r = spelled r')
    (second : spelled (f r.1) = spelled (f' r.1)) :
    spelled (andThen r f) = spelled (andThen r' f') := by
  unfold spelled at first second
  rw [Prod.mk.injEq] at first second
  unfold spelled andThen
  rw [Prod.mk.injEq, flatMap_append, flatMap_append, ← first.1, first.2]
  exact ⟨second.1, by rw [second.2]⟩

theorem andThen_assoc (f g : Engine → Engine × List SemanticEvent) :
    andThen (andThen r f) g = andThen r fun e => andThen (f e) g := by
  unfold andThen
  rw [append_assoc]

@[simp] theorem andThen_nil : andThen r (fun e => (e, [])) = r := by
  unfold andThen
  rw [append_nil]

end steps

namespace Engine

variable (p : EngineSetup)

def ContentChunks : Prop :=
  ∀ state type, p.config.contentEvents.get? state = some type → type.isChunk = true

variable {p}

theorem flushAllSafe_eq (e : Engine) (some : e.argsBuffer ≠ []) :
    e.flushAllSafe = ({ e with argsBuffer := [], argsSafeEnd := 0 },
      [e.event .argValueChunk e.argsBuffer]) := by
  have length := length_pos_iff.mpr some
  unfold flushAllSafe flushSafeArgs
  dsimp only
  rw [if_neg (Nat.ne_of_gt length), drop_length, take_length]
  rfl

theorem feedArgsChar_cases (e : Engine) (ch : Char) : ∃ depth inString escapeNext,
    e.feedArgsChar ch = ({ e with
        argsBuffer := []
        argsSafeEnd := 0
        argsBraceDepth := depth
        argsInString := inString
        argsEscapeNext := escapeNext }, [e.event .argValueChunk (e.argsBuffer ++ [ch])]) ∨
      e.feedArgsChar ch = ({ e with
        argsBuffer := e.argsBuffer ++ [ch]
        argsBraceDepth := depth }, []) ∧ e.argsInString = false ∧ e.argsEscapeNext = false ∧
        depth = 0 := by
  have some : e.argsBuffer ++ [ch] ≠ [] := append_ne_nil_of_right_ne_nil _ (cons_ne_nil _ _)
  unfold feedArgsChar
  dsimp only
  by_cases escape : e.argsEscapeNext = true
  · rw [if_pos escape, flushAllSafe_eq _ some]
    exact ⟨_, _, _, .inl rfl⟩
  · rw [if_neg escape]
    by_cases inString : e.argsInString = true
    · rw [if_pos inString]
      split
      · rw [flushAllSafe_eq _ some]
        exact ⟨_, _, _, .inl rfl⟩
      · split
        · rw [flushAllSafe_eq _ some]
          exact ⟨_, _, _, .inl rfl⟩
        · rw [flushAllSafe_eq _ some]
          exact ⟨_, _, _, .inl rfl⟩
    · rw [if_neg inString]
      split
      · rw [flushAllSafe_eq _ some]
        exact ⟨_, _, _, .inl rfl⟩
      · split
        · rw [flushAllSafe_eq _ some]
          exact ⟨_, _, _, .inl rfl⟩
        · split
          · split
            next zero =>
              exact ⟨_, e.argsInString, e.argsEscapeNext, .inr ⟨rfl,
                Bool.not_eq_true _ ▸ inString, Bool.not_eq_true _ ▸ escape, zero⟩⟩
            · rw [flushAllSafe_eq _ some]
              exact ⟨_, _, _, .inl rfl⟩
          · rw [flushAllSafe_eq _ some]
            exact ⟨_, _, _, .inl rfl⟩

@[simp] theorem feedArgsChar_state (e : Engine) (ch : Char) :
    (e.feedArgsChar ch).1.state = e.state := by
  obtain ⟨depth, inString, escapeNext, out | ⟨held, _⟩⟩ := e.feedArgsChar_cases ch
  · rw [out]
  · rw [held]

theorem feedArgsText_cons (e : Engine) (ch : Char) (rest : Text) :
    e.feedArgsText (ch :: rest) = andThen (e.feedArgsChar ch) fun e => e.feedArgsText rest := by
  have loop : ∀ (text : Text) (e : Engine) (events : List SemanticEvent),
      text.foldl (fun (st : Engine × List SemanticEvent) ch =>
        ((feedArgsChar st.1 ch).1, st.2 ++ (feedArgsChar st.1 ch).2)) (e, events) = andThen (e, events) fun e => e.feedArgsText text := by
    intro text
    induction text with
    | nil =>
      intro e events
      exact (andThen_nil (e, events)).symm
    | cons ch text ih =>
      intro e events
      have first : e.feedArgsText (ch :: text) =
          andThen (e.feedArgsChar ch) fun e => e.feedArgsText text := ih _ _
      rw [foldl_cons, ih]
      unfold andThen
      dsimp only
      rw [first, append_assoc]
      rfl
  exact loop rest _ _

theorem feedArgsText_append (e : Engine) (a b : Text) :
    e.feedArgsText (a ++ b) = andThen (e.feedArgsText a) fun e => e.feedArgsText b := by
  induction a generalizing e with
  | nil => rfl
  | cons ch a ih =>
    rw [cons_append, feedArgsText_cons, feedArgsText_cons, andThen_assoc]
    congr 1
    funext e'
    exact ih e'

theorem feedArgsText_state (e : Engine) (text : Text) : (e.feedArgsText text).1.state = e.state := by
  induction text generalizing e with
  | nil => rfl
  | cons ch text ih =>
    rw [feedArgsText_cons]
    exact (ih _).trans (feedArgsChar_state e ch)

@[simp] theorem emitPlain_state (e : Engine) (text : Text) : (e.emitPlain p text).1.state = e.state := by
  unfold emitPlain
  split
  · rfl
  · split <;> rfl

theorem spelled_chunk (e : Engine) {type : EventType} (chunk : type.isChunk = true) (a b : Text) :
    spelled (e, [e.event type (a ++ b)]) = spelled (e, [e.event type a, e.event type b]) := by
  unfold spelled
  rw [flatMap_cons, flatMap_cons, flatMap_cons, flatMap_nil, append_nil,
    append_nil]
  unfold spellEvent event
  rw [if_pos chunk, if_pos chunk, if_pos chunk, map_append]

section

variable (chunks : ContentChunks p) (e : Engine)
include chunks e

theorem emitPlain_append (a b : Text) :
    spelled (e.emitPlain p (a ++ b)) = spelled (andThen (e.emitPlain p a) fun e => e.emitPlain p b) := by
  unfold emitPlain andThen
  by_cases header : e.state = .messageHeader
  · rw [if_pos header]
    dsimp only
    rw [if_pos header, if_pos header, append_assoc]
    rfl
  · rw [if_neg header]
    cases found : p.config.contentEvents.get? e.state with
    | none =>
      dsimp only
      rw [if_neg header, if_neg header, found]
      rfl
    | some type =>
      dsimp only
      rw [if_neg header, if_neg header, found]
      exact spelled_chunk e (chunks _ _ found) a b

theorem emitPlain_nil :
    spelled (e.emitPlain p []) = (e, []) := by
  unfold emitPlain
  split
  · rw [append_nil]
    rfl
  · split
    next type found =>
      unfold spelled event
      rw [flatMap_cons, spellEvent, if_pos (chunks _ _ found)]
      rfl
    · rfl

theorem feedArrayText_append (a b : Text) :
    spelled (e.feedArrayText p (a ++ b)) =
    spelled (andThen (e.feedArrayText p a) fun e => e.feedArrayText p b) := by
  -- in other states the text is plain
  have plain : ∀ (e : Engine), e.state ≠ .toolArgs → ∀ text,
      spelled (e.feedArrayText p text) = spelled (e.emitPlain p text) := by
    intro e other text
    cases text with
    | nil =>
      rw [emitPlain_nil chunks]
      rfl
    | cons ch text => rw [feedArrayText, if_pos other]
  induction a generalizing e with
  | nil => rfl
  | cons ch a ih =>
    by_cases args : e.state = .toolArgs
    · rw [cons_append, feedArrayText, if_neg (not_not.mpr args), feedArrayText,
        if_neg (not_not.mpr args)]
      refine Eq.trans ?_ (congrArg spelled (andThen_assoc (e.feedArrayChar p ch)
        (fun e => e.feedArrayText p a) fun e => e.feedArrayText p b).symm)
      exact spelled_andThen (f := fun e => e.feedArrayText p (a ++ b)) rfl (ih _)
    · rw [plain e args, emitPlain_append chunks]
      refine spelled_andThen (plain e args _).symm ?_
      rw [plain _ (by rw [emitPlain_state]; exact args)]

theorem emitForState_nil :
    spelled (e.emitForState p []) = (e, []) := by
  unfold emitForState
  split
  · split
    · rfl
    · split <;> rfl
  · exact emitPlain_nil chunks e

theorem emitForState_append (a b : Text) :
    spelled (e.emitForState p (a ++ b)) =
    spelled (andThen (e.emitForState p a) fun e => e.emitForState p b) := by
  by_cases args : e.state = .toolArgs
  · by_cases array : p.config.toolCallBodyArray = true
    · have whole : ∀ (e : Engine) text,
          spelled (e.emitForState p text) = spelled (e.feedArrayText p text) := by
        intro e text
        unfold emitForState
        by_cases args : e.state = .toolArgs
        · rw [if_pos args, if_pos array]
        · rw [if_neg args]
          cases text with
          | nil =>
            rw [emitPlain_nil chunks]
            rfl
          | cons ch text => rw [feedArrayText, if_pos args]
      rw [whole, feedArrayText_append chunks]
      refine spelled_andThen (whole e a).symm ?_
      rw [whole]
    · by_cases json : p.config.toolArgsJson = true
      · have text : ∀ (e : Engine), e.state = .toolArgs → ∀ text,
            e.emitForState p text = e.feedArgsText text := by
          intro e args text
          rw [emitForState, if_pos args, if_neg array, if_pos json]
        rw [text e args, text e args, feedArgsText_append]
        refine spelled_andThen rfl ?_
        rw [text _ ((feedArgsText_state e a).trans args)]
      · unfold emitForState andThen
        rw [if_pos args, if_pos args, if_neg array, if_neg array, if_neg json, if_neg json]
        dsimp only
        rw [if_pos args, if_neg array, if_neg json]
        exact spelled_chunk e (show EventType.argValueChunk.isChunk = true from rfl) a b
  · have text : ∀ (e : Engine), e.state ≠ .toolArgs → ∀ text,
        e.emitForState p text = e.emitPlain p text := fun e other text => by
      rw [emitForState, if_neg other]
    rw [text e args, text e args, emitPlain_append chunks]
    refine spelled_andThen rfl ?_
    rw [text _ (by rw [emitPlain_state]; exact args)]

end

def processToken (p : EngineSetup) (e : Engine) (tok : LexToken) : Engine × List SemanticEvent :=
  if tok.terminal = contentTerminal then e.onContent p tok.value
  else e.onTerminal p tok.terminal tok.value

theorem processLexTokens_cons (e : Engine) (tok : LexToken) (rest : List LexToken) :
    e.processLexTokens p (tok :: rest) =
    andThen (e.processToken p tok) fun e => e.processLexTokens p rest :=
  rfl

theorem processLexTokens_append (e : Engine) (a b : List LexToken) : e.processLexTokens p (a ++ b) =
    andThen (e.processLexTokens p a) fun e => e.processLexTokens p b := by
  induction a generalizing e with
  | nil => rfl
  | cons tok a ih =>
    rw [cons_append, processLexTokens_cons, processLexTokens_cons, andThen_assoc]
    congr 1
    funext e'
    exact ih e'

section

variable (chunks : ContentChunks p) (e : Engine)
include chunks e

theorem processLexTokens_content (text : Text) :
    spelled (e.processLexTokens p (text.map fun c => ⟨contentTerminal, [c]⟩)) =
    spelled (e.emitForState p text) := by
  induction text generalizing e with
  | nil =>
    rw [emitForState_nil chunks]
    rfl
  | cons c text ih =>
    have first : e.processToken p ⟨contentTerminal, [c]⟩ = e.emitForState p [c] := by
      rw [processToken, if_pos rfl, onContent, if_neg (cons_ne_nil c [])]
    rw [map_cons, processLexTokens_cons, first, ← singleton_append (x := c) (l := text),
      emitForState_append chunks]
    exact spelled_andThen rfl (ih _)

theorem processToken_content (text : Text) :
    spelled (e.processToken p ⟨contentTerminal, text⟩) = spelled (e.emitForState p text) := by
  rw [processToken, if_pos rfl, onContent]
  split
  next empty =>
    rw [show text = [] from empty, emitForState_nil chunks]
    rfl
  · rfl

theorem processLexTokens_spell (tokens : List LexToken) :
    spelled (e.processLexTokens p (tokens.flatMap spellToken)) =
    spelled (e.processLexTokens p tokens) := by
  induction tokens generalizing e with
  | nil => rfl
  | cons tok tokens ih =>
    rw [flatMap_cons, processLexTokens_append, processLexTokens_cons]
    have first : spelled (e.processLexTokens p (spellToken tok)) = spelled (e.processToken p tok) := by
      unfold spellToken
      split
      next content =>
        rw [processLexTokens_content chunks, ← processToken_content chunks, ← content]
      · rw [processLexTokens_cons]
        exact congrArg spelled (andThen_nil _)
    exact spelled_andThen first (ih _)

end

end Engine

namespace StreamingParserEngine

open Engine

variable {p : EngineSetup}

theorem feed_spec (chunks : ContentChunks p) (s : StreamingParserEngine) (chunk : Text) :
    ∃ tokens : List LexToken, (∀ more, lexemes p.lexerShape (s.lexer ++ chunk ++ more) =
    tokens ++ lexemes p.lexerShape ((s.feed p chunk).1.lexer ++ more)) ∧
    spelled ((s.feed p chunk).1.machine, (s.feed p chunk).2) =
    spelled (s.machine.processLexTokens p tokens) := by
  unfold feed
  split
  next quick =>
    refine ⟨spellToken ⟨contentTerminal, chunk⟩, fun more => ?_, ?_⟩
    · rw [quick.2.1, nil_append]
      exact lexemes_content fun i lt => bestMatch_of_no_first quick.2.2 lt more
    · rw [spellToken_content, processLexTokens_content chunks]
  next =>
    split
    next empty =>
      refine ⟨[], fun more => ?_, rfl⟩
      rw [empty, append_nil, nil_append]
    next =>
      refine ⟨(IncrementalLexer.feed p.lexerShape s.lexer chunk).1.flatMap spellToken,
        lexer_feed_spec s.lexer chunk, ?_⟩
      rw [processLexTokens_spell chunks]
      dsimp only
      split
      next token single =>
        rw [single]
        have whole : s.machine.processLexTokens p [token] = s.machine.processToken p token := by
          rw [processLexTokens_cons]
          exact andThen_nil _
        rw [whole]
        split
        next content =>
          have content' : (⟨contentTerminal, token.value⟩ : LexToken) = token := by rw [← content]
          have same := processToken_content chunks s.machine token.value
          rw [content'] at same
          exact same.symm
        · rfl
      · rfl

theorem feedAll_spec (chunks : ContentChunks p) (s : StreamingParserEngine) (parts : List Text) :
    ∃ tokens : List LexToken, (∀ more, lexemes p.lexerShape (s.lexer ++ parts.flatten ++ more) =
    tokens ++ lexemes p.lexerShape ((s.feedAll p parts).1.lexer ++ more)) ∧
    spelled ((s.feedAll p parts).1.machine, (s.feedAll p parts).2) =
    spelled (s.machine.processLexTokens p tokens) := by
  induction parts generalizing s with
  | nil => exact ⟨[], fun more => by rw [flatten_nil, append_nil]; rfl, rfl⟩
  | cons chunk parts ih =>
    obtain ⟨first, lexed, same⟩ := feed_spec chunks s chunk
    obtain ⟨others, lexed', same'⟩ := ih (s.feed p chunk).1
    refine ⟨first ++ others, fun more => ?_, ?_⟩
    · have whole := lexed (parts.flatten ++ more)
      rw [← append_assoc, ← append_assoc, lexed'] at whole
      rw [flatten_cons, ← append_assoc, whole, append_assoc]
      rfl
    · rw [processLexTokens_append]
      have machine : (s.feed p chunk).1.machine = (s.machine.processLexTokens p first).1 :=
        congrArg Prod.fst same
      rw [machine] at same'
      exact spelled_andThen (r := ((s.feed p chunk).1.machine, (s.feed p chunk).2))
        (f := fun _ => (((s.feed p chunk).1.feedAll p parts).1.machine,
          ((s.feed p chunk).1.feedAll p parts).2)) same (by
            dsimp only
            rw [machine]
            exact same')

def finishMachine (p : EngineSetup) (e : Engine) : Engine × List SemanticEvent :=
  andThen e.finishArgs fun e => e.finishState p

def parseWhole (p : EngineSetup) (initialState : Option ParserState) (text : Text) :
    Engine × List SemanticEvent :=
  andThen ((Engine.reset p initialState).processLexTokens p (lexemes p.lexerShape text))
    (finishMachine p)

theorem run_spell (chunks : ContentChunks p) (initialState : Option ParserState)
    (parts : List Text) : (run p initialState parts).flatMap spellEvent =
    (parseWhole p initialState parts.flatten).2.flatMap spellEvent := by
  obtain ⟨tokens, lexed, same⟩ := feedAll_spec chunks ⟨.reset p initialState, []⟩ parts
  obtain ⟨s, hs⟩ : ∃ s, s = feedAll p ⟨.reset p initialState, []⟩ parts := ⟨_, rfl⟩
  rw [← hs] at lexed same
  have whole := lexed []
  rw [append_nil, append_nil, nil_append, (lexer_flush_spec s.1.lexer).1]
    at whole
  obtain ⟨flushed, hf⟩ : ∃ f, f = (IncrementalLexer.flush p.lexerShape s.1.lexer).1 := ⟨_, rfl⟩
  have ran : run p initialState parts =
      (andThen (andThen (s.1.machine, s.2) fun e => e.processLexTokens p flushed)
        (finishMachine p)).2 := by
    unfold run finish finishMachine andThen
    rw [← hs, hf]
    dsimp only
    rw [append_assoc, append_assoc]
  have target : parseWhole p initialState parts.flatten =
      andThen (andThen ((Engine.reset p initialState).processLexTokens p tokens)
        fun e => e.processLexTokens p (flushed.flatMap spellToken)) (finishMachine p) := by
    rw [parseWhole, whole, ← hf, processLexTokens_append]
  rw [ran, target]
  have both : spelled (andThen (s.1.machine, s.2) fun e => e.processLexTokens p flushed) =
      spelled (andThen ((Engine.reset p initialState).processLexTokens p tokens)
        fun e => e.processLexTokens p (flushed.flatMap spellToken)) :=
    spelled_andThen same (processLexTokens_spell chunks _ flushed).symm
  exact congrArg Prod.snd (spelled_andThen (f := finishMachine p) both rfl)

end StreamingParserEngine

section filled

variable {p : EngineSetup}

theorem Filled.append {a b : List SemanticEvent} (ha : Filled a) (hb : Filled b) : Filled (a ++ b) := by
  intro ev mem
  cases mem_append.mp mem with
  | inl here => exact ha ev here
  | inr there => exact hb ev there

theorem filled_nil : Filled [] := fun _ mem => absurd mem not_mem_nil

theorem filled_one {a : SemanticEvent} (h : a.type.isChunk = true → a.value ≠ []) : Filled [a] := by
  intro other mem
  rw [mem_singleton.mp mem]
  exact h

namespace Engine

section

variable (e : Engine)
include e

variable (ch : Char)

theorem feedArgsChar_filled : Filled (e.feedArgsChar ch).2 := by
  obtain ⟨depth, inString, escapeNext, out | ⟨held, _⟩⟩ := e.feedArgsChar_cases ch
  · rw [out]
    exact filled_one fun _ => append_ne_nil_of_right_ne_nil _ (cons_ne_nil _ _)
  · rw [held]
    exact filled_nil

theorem feedArgsText_filled (text : Text) : Filled (e.feedArgsText text).2 := by
  induction text generalizing e with
  | nil => exact filled_nil
  | cons ch text ih =>
    rw [feedArgsText_cons]
    exact (feedArgsChar_filled e ch).append (ih _)

theorem emitPlain_filled {text : Text} (some : text ≠ []) :
    Filled (e.emitPlain p text).2 := by
  unfold emitPlain
  split
  · exact filled_nil
  · split
    · exact filled_one fun _ => some
    · exact filled_nil

theorem startArrayElement_eq :
    e.startArrayElement ch =
      andThen ({ e with toolIndex := e.toolIndex + 1, arrayInElement := true }.resetArgsState,
        [⟨.toolCallStart, [], e.toolIndex + 1⟩]) fun e => e.feedArgsChar ch :=
  rfl

theorem startArrayElement_filled : Filled (e.startArrayElement ch).2 := by
  rw [startArrayElement_eq]
  exact (filled_one (a := ⟨.toolCallStart, [], e.toolIndex + 1⟩) nofun).append (feedArgsChar_filled _ ch)

theorem feedArrayChar_filled : Filled (e.feedArrayChar p ch).2 := by
  have bail : Filled (e.bailArrayToContent p ch).2 := emitPlain_filled _ (cons_ne_nil ch [])
  unfold feedArrayChar
  split
  · dsimp only
    split
    · refine (feedArgsChar_filled e ch).append ?_
      unfold endArrayElement
      dsimp only
      split
      · exact filled_one nofun
      next some => exact (filled_one fun _ => some).append (filled_one nofun)
    · exact feedArgsChar_filled e ch
  · split
    · exact filled_nil
    · split
      · split
        · exact filled_nil
        · exact bail
      · split
        · exact filled_nil
        · split
          · exact startArrayElement_filled e ch
          · split
            · exact filled_nil
            · exact bail

theorem feedArrayText_filled (text : Text) : Filled (e.feedArrayText p text).2 := by
  induction text generalizing e with
  | nil => exact filled_nil
  | cons ch text ih =>
    rw [feedArrayText]
    split
    · exact emitPlain_filled e (cons_ne_nil ch text)
    · exact (feedArrayChar_filled e ch).append (ih _)

theorem emitForState_filled {text : Text} (some : text ≠ []) :
    Filled (e.emitForState p text).2 := by
  unfold emitForState
  split
  · split
    · exact feedArrayText_filled e text
    · split
      · exact feedArgsText_filled e text
      · exact filled_one fun _ => some
  · exact emitPlain_filled e some

end

theorem transitionEvents_filled {value : Text} (some : value ≠ []) (header : Option Text)
    (toolIndex : Int) (types : List EventType) :
    Filled (transitionEvents value header toolIndex types).2 := by
  induction types generalizing toolIndex with
  | nil => exact filled_nil
  | cons type types ih =>
    rw [transitionEvents]
    dsimp only
    by_cases dropped : type = .textChunk ∧
        (if type = .textChunk then header.getD value else value) = []
    · rw [if_pos dropped]
      exact ih _
    · rw [if_neg dropped]
      refine (filled_one (a := ⟨type, _, _⟩) fun chunk => ?_).append (ih _)
      by_cases text : type = .textChunk
      · exact fun none => dropped ⟨text, none⟩
      · dsimp only
        rw [if_neg text]
        exact some

variable (e : Engine)

theorem applyTransition_filled (transition : Transition) {value : Text}
    (some : value ≠ []) : Filled (e.applyTransition p transition value).2 := by
  have flushed : Filled (e.flushLeaving transition).2 := by
    unfold flushLeaving
    split
    next held => exact filled_one fun _ => held.2.2
    · exact filled_nil
  exact flushed.append (transitionEvents_filled some _ _ _)

theorem forwardTerminal_filled (transition : Transition) (terminal : String)
    {value : Text} (some : value ≠ []) :
    Filled (e.forwardTerminal p transition terminal value).2 := by
  unfold forwardTerminal
  dsimp only
  split
  · exact (filled_one (a := ⟨.reasoningEnd, value, _⟩) (fun chunk => by cases chunk)).append
      (filled_one fun _ => some)
  · split
    · exact filled_one fun _ => some
    · split
      · exact filled_one fun _ => some
      · exact filled_nil

theorem onTerminal_filled (terminal : String) {value : Text} (some : value ≠ []) :
    Filled (e.onTerminal p terminal value).2 := by
  unfold onTerminal
  split
  · split
    · exact filled_nil
    · exact emitForState_filled _ some
  · split
    · exact emitForState_filled _ some
    · split
      · exact forwardTerminal_filled e _ _ some
      · exact applyTransition_filled e _ some

theorem processLexTokens_filled (tokens : List LexToken)
    (some : ∀ tok ∈ tokens, tok.value ≠ []) : Filled (e.processLexTokens p tokens).2 := by
  induction tokens generalizing e with
  | nil => exact filled_nil
  | cons tok tokens ih =>
    have first := some tok mem_cons_self
    rw [processLexTokens_cons]
    refine Filled.append ?_ (ih _ fun other mem => some other (mem_cons_of_mem _ mem))
    unfold processToken onContent
    by_cases content : tok.terminal = contentTerminal
    · rw [if_pos content, if_neg first]
      exact emitForState_filled e first
    · rw [if_neg content]
      exact onTerminal_filled e _ first

end Engine

namespace StreamingParserEngine

open Engine

theorem feed_filled (s : StreamingParserEngine) (chunk : Text) : Filled (s.feed p chunk).2 := by
  unfold feed
  split
  next quick => exact emitForState_filled _ quick.1
  · split
    · exact filled_nil
    next empty =>
      have nonempty := lexer_feed_nonempty p.lexerShape s.lexer empty
      dsimp only
      split
      next token single =>
        rw [single] at nonempty
        split
        · exact emitForState_filled _ (nonempty token mem_cons_self)
        · rw [single]
          exact processLexTokens_filled _ _ nonempty
      · exact processLexTokens_filled _ _ nonempty

theorem finish_filled (s : StreamingParserEngine) : Filled (s.finish p).2 := by
  unfold finish
  refine ((processLexTokens_filled _ _ (lexer_flush_nonempty s.lexer)).append ?_).append ?_
  · unfold finishArgs
    split
    · exact filled_nil
    next held => exact filled_one fun _ => held
  · unfold finishState
    split
    · dsimp only
      split
      · exact filled_one nofun
      · exact filled_nil
    · split
      · exact filled_one nofun
      · split
        · dsimp only
          split
          · exact filled_nil
          next held => exact filled_one fun _ => held
        · exact filled_nil

theorem run_filled (initialState : Option ParserState) (parts : List Text) :
    Filled (run p initialState parts) := by
  have all : ∀ (parts : List Text) (s : StreamingParserEngine), Filled (s.feedAll p parts).2 := by
    intro parts
    induction parts with
    | nil => exact fun s => filled_nil
    | cons chunk parts ih => exact fun s => (feed_filled s chunk).append (ih _)
  exact (all parts _).append (finish_filled _)

theorem merged_run (chunks : ContentChunks p) (initialState : Option ParserState)
    {parts parts' : List Text} (same : parts.flatten = parts'.flatten) :
    merged (run p initialState parts) = merged (run p initialState parts') := by
  refine merged_eq (run_filled initialState parts) (run_filled initialState parts') ?_
  rw [run_spell chunks, run_spell chunks, same]

end StreamingParserEngine

end filled

/-! The starts and ends of tool calls among the events of a parser engine. -/

inductive CallMark
  | start (index : Int)
  | stop (index : Int)
  deriving DecidableEq, Repr

def CallMark.isStop : CallMark → Bool
  | start _ => false
  | stop _ => true

def CallMark.startIndex : CallMark → Option Int
  | start index => some index
  | stop _ => none

def callMark (ev : SemanticEvent) : Option CallMark :=
  match ev.type with
  | .toolCallStart => some (.start ev.toolIndex)
  | .toolCallEnd => some (.stop ev.toolIndex)
  | _ => none

def callMarks (events : List SemanticEvent) : List CallMark := events.filterMap callMark

def CallsClosed (marks : List CallMark) : Prop :=
  ∀ before index after, marks = before ++ .start index :: after →
    (after.takeWhile CallMark.isStop).count (.stop index) = 1

def IndicesIncrease (marks : List CallMark) : Prop :=
  marks.filterMap CallMark.startIndex =
    (List.range (marks.filterMap CallMark.startIndex).length).map Int.ofNat

/-- Calls up to `index`, of which the last one was ended `ends` times and the others once. -/
structure Calls (marks : List CallMark) (index : Int) (ends : Nat) : Prop where
  low : -1 ≤ index
  closed : ∀ before i after, marks = before ++ .start i :: after →
    (after.takeWhile CallMark.isStop).count (.stop i) =
      if after.all CallMark.isStop = true then ends else 1
  last : ∀ before i after, marks = before ++ .start i :: after →
    after.all CallMark.isStop = true → i = index
  starts : marks.filterMap CallMark.startIndex = (List.range (index + 1).toNat).map Int.ofNat

namespace Calls

variable {marks : List CallMark} {index : Int} {ends : Nat}

theorem snoc_split {mark : CallMark} {before after : List CallMark} {i : Int}
    (h : marks ++ [mark] = before ++ .start i :: after) : (mark = .start i ∧ after = []) ∨
    ∃ earlier, after = earlier ++ [mark] ∧ marks = before ++ .start i :: earlier := by
  cases after.eq_nil_or_concat with
  | inl empty =>
    rw [empty] at h
    exact .inl ⟨(append_inj_right' h rfl) |> singleton_inj.mp, empty⟩
  | inr more =>
    obtain ⟨earlier, other, rfl⟩ := more
    rw [concat_eq_append, ← cons_append, ← append_assoc] at h
    have same := singleton_inj.mp (append_inj_right' h rfl)
    exact .inr ⟨earlier, by rw [same, concat_eq_append], append_inj_left' h rfl⟩

theorem stops_snoc (earlier : List CallMark) (mark stop : CallMark) :
    ((earlier ++ [mark]).takeWhile CallMark.isStop).count stop =
    (earlier.takeWhile CallMark.isStop).count stop +
    if earlier.all CallMark.isStop = true ∧ mark.isStop = true ∧ mark = stop then 1 else 0 := by
  induction earlier with
  | nil =>
    cases stopped : mark.isStop with
    | true => simp [stopped, count_singleton]
    | false => simp [stopped]
  | cons m earlier ih =>
    rw [cons_append]
    cases stopped : m.isStop with
    | true =>
      rw [takeWhile_cons_of_pos stopped, takeWhile_cons_of_pos stopped, count_cons,
        count_cons, ih, all_cons, stopped, Bool.true_and]
      omega
    | false =>
      rw [takeWhile_cons_of_neg (by rw [stopped]; exact Bool.false_ne_true),
        takeWhile_cons_of_neg (by rw [stopped]; exact Bool.false_ne_true), all_cons,
        stopped, Bool.false_and, if_neg fun h => Bool.false_ne_true h.1]
      rfl

protected theorem nil (ends : Nat) : Calls [] (-1) ends where
  low := Int.le_refl _
  closed := fun before i after h => absurd h.symm (append_ne_nil_of_right_ne_nil _ (by simp))
  last := fun before i after h => absurd h.symm (append_ne_nil_of_right_ne_nil _ (by simp))
  starts := rfl

protected theorem start (h : Calls marks index 1) :
    Calls (marks ++ [.start (index + 1)]) (index + 1) 0 where
  low := by
    have := h.low
    omega
  closed := fun before i after split => by
    rcases snoc_split split with ⟨_, rfl⟩ | ⟨earlier, rfl, whole⟩
    · rfl
    · have one : (earlier.takeWhile CallMark.isStop).count (.stop i) = 1 := by
        rw [h.closed before i earlier whole, ite_self]
      rw [stops_snoc, one, if_neg fun bad => Bool.false_ne_true bad.2.1, all_append]
      rw [if_neg (by simp [CallMark.isStop])]
  last := fun before i after split stops => by
    rcases snoc_split split with ⟨same, rfl⟩ | ⟨earlier, rfl, _⟩
    · exact (CallMark.start.inj same).symm
    · rw [all_append] at stops
      simp [CallMark.isStop] at stops
  starts := by
    have low := h.low
    rw [filterMap_append, h.starts, show (index + 1 + 1).toNat = (index + 1).toNat + 1 by omega,
      range_succ, map_append]
    refine congrArg _ (congrArg (fun i => [i]) ?_)
    exact (Int.toNat_of_nonneg (by omega)).symm

protected theorem stop (h : Calls marks index ends) :
    Calls (marks ++ [.stop index]) index (ends + 1) where
  low := h.low
  closed := fun before i after split => by
    rcases snoc_split split with ⟨same, _⟩ | ⟨earlier, rfl, whole⟩
    · cases same
    · rw [stops_snoc, h.closed before i earlier whole, all_append]
      by_cases stops : earlier.all CallMark.isStop = true
      · rw [h.last before i earlier whole stops, if_pos stops, if_pos ⟨stops, rfl, rfl⟩, stops]
        rfl
      · rw [if_neg stops, if_neg fun bad => stops bad.1, if_neg (by simp [stops])]
  last := fun before i after split stops => by
    rcases snoc_split split with ⟨same, _⟩ | ⟨earlier, rfl, whole⟩
    · cases same
    · rw [all_append, Bool.and_eq_true] at stops
      exact h.last before i earlier whole stops.1
  starts := by
    rw [filterMap_append, h.starts]
    exact append_nil _

theorem callsClosed (h : Calls marks index 1) : CallsClosed marks := fun before i after split => by
  rw [h.closed before i after split, ite_self]

theorem callsClosed_of_none (h : Calls marks index ends) (none : index < 0) :
    CallsClosed marks := fun before i after split => by
  have low := h.low
  have starts := h.starts
  rw [split, filterMap_append, show (index + 1).toNat = 0 by omega] at starts
  simp [CallMark.startIndex] at starts

theorem indicesIncrease (h : Calls marks index ends) : IndicesIncrease marks := by
  unfold IndicesIncrease
  rw [h.starts, length_map, length_range]

theorem last_start : ∀ {marks : List CallMark}, marks.filterMap CallMark.startIndex ≠ [] →
    ∃ before i after, marks = before ++ .start i :: after ∧ after.all CallMark.isStop = true := by
  intro marks
  induction marks with
  | nil => exact fun some => absurd rfl some
  | cons m marks ih =>
    intro some
    by_cases later : marks.filterMap CallMark.startIndex = []
    · cases m with
      | stop j =>
        rw [filterMap_cons_none rfl] at some
        exact absurd later some
      | start j =>
        refine ⟨[], j, marks, rfl, all_eq_true.mpr fun other mem => ?_⟩
        cases other with
        | stop k => rfl
        | start k =>
          have listed := mem_filterMap.mpr ⟨_, mem, show (CallMark.start k).startIndex = _ from rfl⟩
          rw [later] at listed
          exact absurd listed not_mem_nil
    · obtain ⟨before, i, after, split, stops⟩ := ih later
      exact ⟨m :: before, i, after, by rw [split]; rfl, stops⟩

theorem ends_eq_one (h : Calls marks index ends) (some : 0 ≤ index) (closed : CallsClosed marks) :
    ends = 1 := by
  have started : marks.filterMap CallMark.startIndex ≠ [] := by
    rw [h.starts]
    intro none
    rw [map_eq_nil_iff, range_eq_nil] at none
    omega
  obtain ⟨before, i, after, split, stops⟩ := last_start started
  have count := h.closed before i after split
  rw [if_pos stops, closed before i after split] at count
  exact count.symm

end Calls

end VllmAmpere.ParserEngine
