import VllmAmpere.IncrementalLexer
import VllmAmpere.PyDict

/-! The streaming parser engine on text without token ids: terminals drive a state machine
that emits semantic events, and the end of JSON arguments is held back. -/

namespace VllmAmpere.ParserEngine

inductive EventType
  | textChunk
  | reasoningStart
  | reasoningChunk
  | reasoningEnd
  | toolCallStart
  | toolName
  | argValueChunk
  | toolCallEnd
  deriving DecidableEq, Repr

inductive ParserState
  | content
  | reasoning
  | messageHeader
  | toolPreamble
  | toolName
  | toolArgs
  | toolBetween
  deriving DecidableEq, Repr

structure SemanticEvent where
  type : EventType
  value : Text := []
  toolIndex : Int
  deriving DecidableEq, Repr

structure Transition where
  nextState : ParserState
  events : List EventType := []

/-- The parts of a configuration that the engine reads. -/
structure ParserEngineConfig where
  terminals : List (String × List Text)
  transitions : PyDict (ParserState × String) Transition
  contentEvents : PyDict ParserState EventType
  initialState : ParserState
  toolArgsJson : Bool := true
  toolCallBodyArray : Bool := false

/-- `DROP_TERMINAL`. -/
def dropTerminal : String := "__DROP__"

/-- What an engine keeps for all its requests: the configuration, the shape of the lexer with
the terminals that are dropped, and the passes it skips. -/
structure EngineSetup where
  config : ParserEngineConfig
  lexerShape : LexerShape
  hasDrops : Bool
  skipToolParsing : Bool := false
  skipReasoningParsing : Bool := false

/-- `_TOOL_STATES`. -/
def toolStates : List ParserState := [.toolPreamble, .toolName, .toolArgs, .toolBetween]

/-- `_PLAIN_STATES`. -/
def plainStates : List ParserState := [.content, .reasoning]

/-- `_REASONING_EVENTS`. -/
def reasoningEvents : List EventType := [.reasoningStart, .reasoningEnd]

namespace EngineSetup

/-- The setup of `__init__`; `dropTexts` are the special tokens that the configuration does
not name, in the order of the set. -/
def ofConfig (escape : Text → Text) (config : ParserEngineConfig) (dropTexts : List Text) :
    EngineSetup where
  config := config
  lexerShape := .ofTerminals (terminalsFromLiterals escape config.terminals ++
    terminalsFromLiterals escape [(dropTerminal, dropTexts)])
  hasDrops := dropTexts ≠ []

variable (p : EngineSetup) (terminal : String)

/-- `terminal in self._tool_terminals`. -/
def isToolTerminal : Bool :=
  p.config.transitions.items.any fun ((state, name), tr) =>
    name = terminal && (tr.nextState ∈ toolStates || state ∈ toolStates)

/-- `terminal in self._tool_exit_terminals`. -/
def isToolExitTerminal : Bool :=
  p.config.transitions.items.any fun ((state, name), tr) =>
    name = terminal && (state ∈ toolStates && tr.nextState ∉ toolStates)

/-- `markers` of `_compute_reasoning_markup_terminals`. -/
def isMarker : Bool :=
  p.config.transitions.items.any fun ((state, name), tr) =>
    name = terminal && ((state = .reasoning || tr.nextState = .reasoning) &&
      tr.nextState ∉ toolStates)

/-- `terminal in self._reasoning_markup_terminals`. -/
def isReasoningMarkup : Bool :=
  (p.config.transitions.items.all fun ((state, name), tr) => !p.isMarker name ||
    state ∈ plainStates && tr.nextState ∈ plainStates && tr.events.all (· ∈ reasoningEvents)) &&
  p.isMarker terminal

end EngineSetup

/-- The state machine of a `StreamingParserEngine`. -/
structure Engine where
  state : ParserState
  toolIndex : Int := -1
  messageHeaderBuffer : Text := []
  inSkippedToolSpan : Bool := false
  argsBuffer : Text := []
  argsSafeEnd : Nat := 0
  argsBraceDepth : Nat := 0
  argsInString : Bool := false
  argsEscapeNext : Bool := false
  arrayStarted : Bool := false
  arrayInElement : Bool := false
  deriving DecidableEq, Repr

namespace Engine

variable (p : EngineSetup) (e : Engine)

def reset (initialState : Option ParserState) : Engine where
  state := initialState.getD p.config.initialState

def event (type : EventType) (value : Text) : SemanticEvent := ⟨type, value, e.toolIndex⟩

def resetArgsState : Engine :=
  { e with
    argsBuffer := []
    argsSafeEnd := 0
    argsBraceDepth := 0
    argsInString := false
    argsEscapeNext := false }

def resetArrayState : Engine := { e with arrayStarted := false, arrayInElement := false }

def flushSafeArgs : Engine × List SemanticEvent :=
  if e.argsSafeEnd = 0 then (e, [])
  else
    ({ e with argsBuffer := e.argsBuffer.drop e.argsSafeEnd, argsSafeEnd := 0 },
      [e.event .argValueChunk (e.argsBuffer.take e.argsSafeEnd)])

/-- `self._args_safe_end = len(self._args_buffer)` before a flush. -/
def flushAllSafe : Engine × List SemanticEvent :=
  { e with argsSafeEnd := e.argsBuffer.length }.flushSafeArgs

variable (ch : Char)

def feedArgsChar : Engine × List SemanticEvent :=
  let e := { e with argsBuffer := e.argsBuffer ++ [ch] }
  if e.argsEscapeNext then { e with argsEscapeNext := false }.flushAllSafe
  else if e.argsInString then
    if ch = '\\' then { e with argsEscapeNext := true }.flushAllSafe
    else if ch = '"' then { e with argsInString := false }.flushAllSafe
    else e.flushAllSafe
  else if ch = '"' then { e with argsInString := true }.flushAllSafe
  else if ch = '\x7b' ∨ ch = '[' then
    { e with argsBraceDepth := e.argsBraceDepth + 1 }.flushAllSafe
  else if ch = '\x7d' ∨ ch = ']' then
    let e := { e with argsBraceDepth := e.argsBraceDepth - 1 }
    if e.argsBraceDepth = 0 then (e, []) else e.flushAllSafe
  else e.flushAllSafe

variable (text : Text)

def feedArgsText : Engine × List SemanticEvent :=
  text.foldl (fun (e, events) ch =>
    let (e, new) := feedArgsChar e ch
    (e, events ++ new)) (e, [])

/-- `_emit_for_state` in the states whose text is not that of arguments. -/
def emitPlain : Engine × List SemanticEvent :=
  if e.state = .messageHeader then
    ({ e with messageHeaderBuffer := e.messageHeaderBuffer ++ text }, [])
  else
    match p.config.contentEvents.get? e.state with
    | some contentType => (e, [e.event contentType text])
    | none => (e, [])

def bailArrayToContent : Engine × List SemanticEvent :=
  ({ e with state := .content }.resetArrayState).emitPlain p [ch]

def startArrayElement : Engine × List SemanticEvent :=
  let e := { e with toolIndex := e.toolIndex + 1, arrayInElement := true }.resetArgsState
  let (e', events) := e.feedArgsChar ch
  (e', e.event .toolCallStart [] :: events)

def endArrayElement : Engine × List SemanticEvent :=
  let e := { e with arrayInElement := false }
  if e.argsBuffer = [] then (e, [e.event .toolCallEnd []])
  else
    ({ e with argsBuffer := [], argsSafeEnd := 0 },
      [e.event .argValueChunk e.argsBuffer, e.event .toolCallEnd []])

def feedArrayChar : Engine × List SemanticEvent :=
  if e.arrayInElement then
    let (e, events) := e.feedArgsChar ch
    if ch = '\x7d' ∧ !e.argsInString ∧ !e.argsEscapeNext ∧ e.argsBraceDepth = 0 then
      let (e, new) := e.endArrayElement
      (e, events ++ new)
    else (e, events)
  else if ch ∈ [' ', '\t', '\r', '\n'] then (e, [])
  else if !e.arrayStarted then
    if ch = '[' then ({ e with arrayStarted := true }, [])
    else e.bailArrayToContent p ch
  else if ch = ',' then (e, [])
  else if ch = '\x7b' then e.startArrayElement ch
  else if ch = ']' then ({ e with state := .content }.resetArrayState, [])
  else e.bailArrayToContent p ch

def feedArrayText (e : Engine) : Text → Engine × List SemanticEvent
  | [] => (e, [])
  | ch :: rest =>
    -- behind the end of the array the rest of the text is content
    if e.state ≠ .toolArgs then e.emitPlain p (ch :: rest)
    else
      let (e, events) := e.feedArrayChar p ch
      let (e, new) := feedArrayText e rest
      (e, events ++ new)

def emitForState : Engine × List SemanticEvent :=
  if e.state = .toolArgs then
    if p.config.toolCallBodyArray then e.feedArrayText p text
    else if p.config.toolArgsJson then e.feedArgsText text
    else (e, [e.event .argValueChunk text])
  else e.emitPlain p text

def onContent : Engine × List SemanticEvent :=
  if text = [] then (e, []) else e.emitForState p text

/-- The loop over the events of a transition; `value` is the text of the terminal and `header`
that of the message header it ends. -/
def transitionEvents (value : Text) (header : Option Text) :
    (toolIndex : Int) → List EventType → Int × List SemanticEvent
  | toolIndex, [] => (toolIndex, [])
  | toolIndex, type :: rest =>
    let toolIndex := if type = .toolCallStart then toolIndex + 1 else toolIndex
    let eventValue := if type = .textChunk then header.getD value else value
    let (last, events) := transitionEvents value header toolIndex rest
    if type = .textChunk ∧ eventValue = [] then (last, events)
    else (last, ⟨type, eventValue, toolIndex⟩ :: events)

variable (transition : Transition)

/-- What is held of the arguments when their region ends. -/
def flushLeaving : Engine × List SemanticEvent :=
  if e.state = .toolArgs ∧ transition.nextState ≠ .toolArgs ∧ e.argsBuffer ≠ [] then
    ({ e with argsBuffer := [] }, [e.event .argValueChunk e.argsBuffer])
  else (e, [])

def enterArgs : Engine :=
  if e.state = .toolArgs then
    let e := { e with
      argsBraceDepth := 0
      argsInString := false
      argsEscapeNext := false
      argsSafeEnd := 0 }
    if p.config.toolCallBodyArray then e.resetArrayState else e
  else e

def messageHeader : Option Text :=
  if e.state = .messageHeader then some e.messageHeaderBuffer else none

def clearHeader : Engine :=
  if e.state = .messageHeader then { e with messageHeaderBuffer := [] } else e

def applyTransition (value : Text) : Engine × List SemanticEvent :=
  let (flushed, held) := e.flushLeaving transition
  let (toolIndex, events) :=
    transitionEvents value e.messageHeader flushed.toolIndex transition.events
  ({ flushed.clearHeader with state := transition.nextState, toolIndex }.enterArgs p, held ++ events)

variable (terminal : String)

def closeSkippedSpan : Engine :=
  if p.skipToolParsing ∧ p.isToolExitTerminal terminal then { e with inSkippedToolSpan := false }
  else e

/-- `used_as_plain_closer`. -/
def usedAsPlainCloser : Bool :=
  p.isToolExitTerminal terminal && transition.nextState ∉ toolStates && !e.inSkippedToolSpan

/-- A terminal of a tool call that is forwarded as text. -/
def forwardTerminal (value : Text) :
    Engine × List SemanticEvent :=
  let leavingHeader := e.state = .messageHeader
  let e := { e with
    inSkippedToolSpan := if transition.nextState ∈ toolStates then true
      else if p.isToolExitTerminal terminal then false else e.inSkippedToolSpan }.clearHeader
  if .reasoningEnd ∈ transition.events then
    ({ e with state := .content }, [e.event .reasoningEnd value, e.event .textChunk value])
  else if leavingHeader then ({ e with state := .content }, [e.event .textChunk value])
  else
    match p.config.contentEvents.get? e.state with
    | some contentType => (e, [e.event contentType value])
    | none => (e, [])

def onTerminal (value : Text) : Engine × List SemanticEvent :=
  match p.config.transitions.get? (e.state, terminal) with
  | none =>
    if p.hasDrops ∧ terminal = dropTerminal then (e, [])
    else (e.closeSkippedSpan p terminal).emitForState p value
  | some transition =>
    if p.skipReasoningParsing ∧ p.isReasoningMarkup terminal then e.emitForState p value
    else if p.skipToolParsing ∧ p.isToolTerminal terminal ∧
        !e.usedAsPlainCloser p transition terminal then
      e.forwardTerminal p transition terminal value
    else e.applyTransition p transition value

def processLexTokens (e : Engine) : List LexToken → Engine × List SemanticEvent
  | [] => (e, [])
  | tok :: rest =>
    let (e, events) := if tok.terminal = contentTerminal then e.onContent p tok.value
      else e.onTerminal p tok.terminal tok.value
    let (e, new) := processLexTokens e rest
    (e, events ++ new)

/-- The arguments that `finish` finds held back. -/
def finishArgs : Engine × List SemanticEvent :=
  if e.argsBuffer = [] then (e, [])
  else ({ e with argsBuffer := [], argsSafeEnd := 0 }, [e.event .argValueChunk e.argsBuffer])

/-- `end_open_call`. -/
def endOpenCall : Bool := if p.config.toolCallBodyArray then e.arrayInElement else true

def finishState : Engine × List SemanticEvent :=
  if e.state ∈ toolStates then
    ({ e with state := .content },
      if e.endOpenCall p ∧ 0 ≤ e.toolIndex then [e.event .toolCallEnd []] else [])
  else if e.state = .reasoning then ({ e with state := .content }, [e.event .reasoningEnd []])
  else if e.state = .messageHeader then
    ({ e with messageHeaderBuffer := [], state := .content },
      if e.messageHeaderBuffer = [] then [] else [e.event .textChunk e.messageHeaderBuffer])
  else (e, [])

end Engine

/-- The state machine behind its lexer, of which the buffer is kept. -/
structure StreamingParserEngine where
  machine : Engine
  lexer : Text := []

namespace StreamingParserEngine

variable (p : EngineSetup) (s : StreamingParserEngine)

/-- `feed` without token ids. -/
def feed (deltaText : Text) : StreamingParserEngine × List SemanticEvent :=
  if deltaText ≠ [] ∧ s.lexer = [] ∧ p.lexerShape.NoFirst deltaText then
    let (machine, events) := s.machine.emitForState p deltaText
    ({ s with machine }, events)
  else if deltaText = [] then (s, [])
  else
    let (tokens, lexer) := IncrementalLexer.feed p.lexerShape s.lexer deltaText
    let (machine, events) := match tokens with
      | [token] =>
        if token.terminal = contentTerminal then s.machine.emitForState p token.value
        else s.machine.processLexTokens p tokens
      | tokens => s.machine.processLexTokens p tokens
    (⟨machine, lexer⟩, events)

def finish : StreamingParserEngine × List SemanticEvent :=
  let (tokens, lexer) := IncrementalLexer.flush p.lexerShape s.lexer
  let (machine, events) := s.machine.processLexTokens p tokens
  let (machine, held) := machine.finishArgs
  let (machine, last) := machine.finishState p
  (⟨machine, lexer⟩, events ++ held ++ last)

/-- The calls of `feed` for the chunks of a text. -/
def feedAll (s : StreamingParserEngine) : List Text → StreamingParserEngine × List SemanticEvent
  | [] => (s, [])
  | chunk :: rest =>
    let (s, events) := s.feed p chunk
    let (s, new) := feedAll s rest
    (s, events ++ new)

/-- All events of a text in chunks, those of `finish` included. -/
def run (initialState : Option ParserState) (chunks : List Text) : List SemanticEvent :=
  let (s, events) := feedAll p ⟨.reset p initialState, []⟩ chunks
  events ++ (s.finish p).2

end StreamingParserEngine

end VllmAmpere.ParserEngine
