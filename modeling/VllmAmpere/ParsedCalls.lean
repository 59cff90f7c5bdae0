import VllmAmpere.ToolCallRegions

/-! What the parser engine makes of a whole text: the events do not depend on its chunks, each
tool call is ended once, and its arguments are the text of its region. -/

open List

namespace VllmAmpere.ParserEngine

open Engine StreamingParserEngine

/-- What is promised of the events of a text, in whichever chunks it is fed. -/
structure Faithful (p : EngineSetup) (initialState : Option ParserState) (text : Text) : Prop where
  chunkFree : ∀ parts : List Text, parts.flatten = text →
    merged (run p initialState parts) = merged (run p initialState [text])
  indices : ∀ parts : List Text, parts.flatten = text →
    IndicesIncrease (callMarks (run p initialState parts))
  closed : ∀ parts : List Text, parts.flatten = text →
    CallsClosed (callMarks (run p initialState parts))
  args : ∀ parts : List Text, parts.flatten = text → ∀ index,
    argText index (run p initialState parts) = argRegion p initialState text index

def machineAfter (p : EngineSetup) (initialState : Option ParserState) (text : Text) : Engine :=
  ((Engine.reset p initialState).processLexTokens p (lexemes p.lexerShape text)).1

/-- Unless calls are the elements of an array, a text ends inside of a tool state only while a
call is open, or before the first one. -/
def EndsOpen (p : EngineSetup) (isOpen : ParserState → Bool) (initialState : Option ParserState)
    (text : Text) : Prop :=
  p.config.toolCallBodyArray = false → 0 ≤ (machineAfter p initialState text).toolIndex →
    (machineAfter p initialState text).state ∈ toolStates →
    isOpen (machineAfter p initialState text).state = true

section ends

variable {p : EngineSetup} {isOpen : ParserState → Bool} {initialState : Option ParserState}

theorem tracks_reset (d : Disciplined p (initialState.getD p.config.initialState) isOpen) :
    Tracks p isOpen [] (fun _ => []) (.reset p initialState) where
  calls := Calls.nil _
  args index := by
    unfold heldArgs reset
    exact ite_self _
  element := nofun
  held some := absurd rfl some
  skip := d.skip

theorem Engine.Tracks.finishArgs {events : List SemanticEvent} {region : Int → Text} {e : Engine}
    (h : Tracks p isOpen events region e) :
    Tracks p isOpen (events ++ e.finishArgs.2) region e.finishArgs.1 ∧
    e.finishArgs.1.argsBuffer = [] ∧ e.finishArgs.1.state = e.state ∧
    e.finishArgs.1.toolIndex = e.toolIndex ∧ e.finishArgs.1.arrayInElement = e.arrayInElement := by
  unfold Engine.finishArgs
  split
  next empty =>
    rw [append_nil]
    exact ⟨h, empty, rfl, rfl, rfl⟩
  next =>
    refine ⟨⟨?_, fun i => ?_, h.element, fun some => absurd rfl some, h.skip⟩, rfl, rfl, rfl, rfl⟩
    · rw [callMarks_append, callMarks_chunk rfl, append_nil]
      exact h.calls
    · rw [← h.args i, argText_append, argText_one]
      unfold heldArgs event
      dsimp only
      rw [ite_self, append_nil]
      by_cases mine : e.toolIndex = i
      · rw [if_pos ⟨rfl, mine⟩, if_pos mine]
      · rw [if_neg fun both => mine both.2, if_neg mine]

theorem finishState_spec (e : Engine) : (∀ i, argText i (e.finishState p).2 = []) ∧
    callMarks (e.finishState p).2 =
    if e.state ∈ toolStates ∧ e.endOpenCall p = true ∧ 0 ≤ e.toolIndex then [.stop e.toolIndex]
    else [] := by
  unfold finishState
  by_cases tool : e.state ∈ toolStates
  · rw [if_pos tool]
    dsimp only
    by_cases open' : e.endOpenCall p = true ∧ 0 ≤ e.toolIndex
    · rw [if_pos open', if_pos ⟨tool, open'⟩]
      exact ⟨fun i => rfl, rfl⟩
    · rw [if_neg open', if_neg fun both => open' both.2]
      exact ⟨fun i => rfl, rfl⟩
  · have noEnd : (if e.state ∈ toolStates ∧ e.endOpenCall p = true ∧ 0 ≤ e.toolIndex then
        [CallMark.stop e.toolIndex] else []) = [] := if_neg fun both => tool both.1
    rw [noEnd, if_neg tool]
    split
    · exact ⟨fun i => rfl, rfl⟩
    · split
      · dsimp only
        split
        · exact ⟨fun i => rfl, rfl⟩
        · exact ⟨fun i => rfl, rfl⟩
      · exact ⟨fun i => rfl, rfl⟩

theorem parseWhole_spec (d : Disciplined p (initialState.getD p.config.initialState) isOpen)
    (text : Text) : ∃ marks, ∃ e : Engine, e = machineAfter p initialState text ∧
    Calls marks e.toolIndex (ends p isOpen e) ∧ (e.arrayInElement = true → e.state = .toolArgs) ∧
    callMarks (parseWhole p initialState text).2 = marks ++
    (if e.state ∈ toolStates ∧ e.endOpenCall p = true ∧ 0 ≤ e.toolIndex then
    [.stop e.toolIndex] else []) ∧ ∀ index, argText index (parseWhole p initialState text).2 =
    argRegion p initialState text index := by
  have read := (tracks_reset d).tokens d (lexemes p.lexerShape text)
  rw [nil_append] at read
  obtain ⟨finished, empty, state, index, element⟩ := read.finishArgs
  have ⟨args, marks⟩ :=
    finishState_spec (p := p) ((machineAfter p initialState text).finishArgs.1)
  refine ⟨callMarks _, _, rfl, read.calls, fun inside => (read.element inside).2, ?_, fun i => ?_⟩
  · have unmarked := finished.calls
    have same : callMarks ((machineAfter p initialState text).finishArgs).2 = [] := by
      unfold Engine.finishArgs
      split
      · rfl
      · exact callMarks_chunk rfl
    have call : ((machineAfter p initialState text).finishArgs.1).endOpenCall p =
        (machineAfter p initialState text).endOpenCall p := by
      unfold endOpenCall
      rw [show (machineAfter p initialState text).finishArgs.1.arrayInElement = _ from element]
      rfl
    unfold parseWhole finishMachine andThen
    dsimp only
    rw [callMarks_append, callMarks_append]
    refine congrArg _ ?_
    refine (congrArg₂ (· ++ ·) same marks).trans ?_
    rw [nil_append, call, show (machineAfter p initialState text).finishArgs.1.state = _ from state,
      show (machineAfter p initialState text).finishArgs.1.toolIndex = _ from index]
    rfl
  · have whole := finished.args i
    unfold heldArgs at whole
    rw [empty, ite_self, append_nil, argText_append] at whole
    unfold parseWhole finishMachine andThen
    dsimp only
    unfold machineAfter at args
    rw [argText_append, argText_append, args i, append_nil]
    exact whole

/-- For a disciplined configuration the events of a text are faithful if and only if the text
does not end in a tool state whose call is over. -/
theorem faithful_iff (d : Disciplined p (initialState.getD p.config.initialState) isOpen)
    (text : Text) : Faithful p initialState text ↔ EndsOpen p isOpen initialState text := by
  obtain ⟨marks, e, he, calls, element, whole, args⟩ := parseWhole_spec d text
  have chunks := contentChunks d
  have sameMarks : ∀ parts : List Text, parts.flatten = text →
      callMarks (run p initialState parts) = callMarks (parseWhole p initialState text).2 := by
    intro parts same
    rw [← callMarks_spell, run_spell chunks, same, callMarks_spell]
  have sameArgs : ∀ parts : List Text, parts.flatten = text → ∀ i,
      argText i (run p initialState parts) = argText i (parseWhole p initialState text).2 := by
    intro parts same i
    rw [← argText_spell, run_spell chunks, same, argText_spell]
  have single : ([text] : List Text).flatten = text := append_nil text
  unfold EndsOpen
  rw [← he]
  constructor
  · intro faithful plain started tool
    have closed := faithful.closed [text] single
    have openCall : e.endOpenCall p = true := by
      unfold endOpenCall
      rw [plain]
      rfl
    rw [sameMarks _ single, whole, if_pos ⟨tool, openCall, started⟩] at closed
    have once := calls.stop.ends_eq_one started closed
    by_contra shut
    rw [ends_of_closed (by rw [opened, plain]; exact Bool.not_eq_true _ ▸ shut)] at once
    cases once
  · intro endsOpen
    have settled : ∃ n, Calls (callMarks (parseWhole p initialState text).2) e.toolIndex n ∧
        (0 ≤ e.toolIndex → n = 1) := by
      rw [whole]
      split
      next stops =>
        refine ⟨_, calls.stop, fun started => ?_⟩
        rw [ends_of_open]
        cases array : p.config.toolCallBodyArray with
        | true =>
          have inside := stops.2.1
          rw [endOpenCall, array] at inside
          rw [opened_array array]
          exact inside
        | false =>
          rw [opened, array]
          exact endsOpen array started stops.1
      next quiet =>
        rw [append_nil]
        refine ⟨_, calls, fun started => ends_of_closed ?_⟩
        rw [← Bool.not_eq_true]
        intro opens
        cases array : p.config.toolCallBodyArray with
        | true =>
          rw [opened_array array] at opens
          refine quiet ⟨?_, ?_, started⟩
          · rw [element opens]
            decide
          · rw [endOpenCall, array]
            exact opens
        | false =>
          rw [opened, array] at opens
          refine quiet ⟨d.tool _ opens, ?_, started⟩
          rw [endOpenCall, array]
          rfl
    obtain ⟨n, settled, once⟩ := settled
    refine ⟨fun parts same => ?_, fun parts same => ?_, fun parts same => ?_, fun parts same i => ?_⟩
    · exact merged_run chunks initialState (same.trans single.symm)
    · rw [sameMarks parts same]
      exact settled.indicesIncrease
    · rw [sameMarks parts same]
      by_cases started : 0 ≤ e.toolIndex
      · rw [once started] at settled
        exact settled.callsClosed
      · exact settled.callsClosed_of_none (Int.not_le.mp started)
    · rw [sameArgs parts same, args]

end ends

section qwen3

/-- `qwen3_config`, without the converter of its arguments. -/
def qwen3Config (thinking : Bool) : ParserEngineConfig where
  terminals := [
    ("THINK_START", ["<think>".toList]),
    ("THINK_END", ["</think>".toList]),
    ("TOOL_START", ["<tool_call>".toList]),
    ("TOOL_END", ["</tool_call>".toList]),
    ("FUNC_PREFIX", ["<function=".toList]),
    ("FUNC_END", ["</function>".toList]),
    ("PARAM_START", ["<parameter=".toList]),
    ("PARAM_END", ["</parameter>".toList]),
    ("CLOSE_ANGLE", [">".toList])]
  transitions := ⟨[
    ((.reasoning, "THINK_START"), ⟨.reasoning, []⟩),
    ((.reasoning, "THINK_END"), ⟨.content, [.reasoningEnd]⟩),
    ((.content, "THINK_END"), ⟨.content, []⟩),
    ((.reasoning, "TOOL_START"), ⟨.toolPreamble, [.reasoningEnd, .toolCallStart]⟩),
    ((.content, "TOOL_START"), ⟨.toolPreamble, [.reasoningEnd, .toolCallStart]⟩),
    ((.content, "FUNC_PREFIX"), ⟨.toolName, [.toolCallStart]⟩),
    ((.toolPreamble, "TOOL_END"), ⟨.content, [.toolCallEnd]⟩),
    ((.toolPreamble, "FUNC_PREFIX"), ⟨.toolName, []⟩),
    ((.toolName, "CLOSE_ANGLE"), ⟨.toolArgs, []⟩),
    ((.toolName, "FUNC_END"), ⟨.toolBetween, [.toolCallEnd]⟩),
    ((.toolArgs, "FUNC_END"), ⟨.toolBetween, [.toolCallEnd]⟩),
    ((.toolArgs, "PARAM_START"), ⟨.toolArgs, [.argValueChunk]⟩),
    ((.toolArgs, "PARAM_END"), ⟨.toolArgs, [.argValueChunk]⟩),
    ((.toolBetween, "TOOL_END"), ⟨.content, []⟩),
    ((.toolBetween, "TOOL_START"), ⟨.toolPreamble, [.toolCallStart]⟩),
    ((.toolBetween, "FUNC_PREFIX"), ⟨.toolName, [.toolCallStart]⟩)], by decide⟩
  contentEvents := ⟨[(.content, .textChunk), (.reasoning, .reasoningChunk),
    (.toolName, .toolName), (.toolArgs, .argValueChunk)], by decide⟩
  initialState := if thinking then .reasoning else .content
  toolArgsJson := false

def qwen3Setup : EngineSetup := .ofConfig id (qwen3Config false) []

/-- Behind `</function>` the call is over. -/
def qwen3Open : ParserState → Bool
  | .toolPreamble | .toolName | .toolArgs => true
  | _ => false

theorem qwen3_disciplined : Disciplined qwen3Setup .content qwen3Open where
  contents := by decide
  tool state opens := by
    cases state <;> first | decide | cases opens
  calls _ := by decide
  array := nofun
  held := nofun
  skip := nofun

/-- A text that is cut off behind its function: the call is ended once more. -/
theorem truncated_call_ends_twice :
    ¬Faithful qwen3Setup none "<tool_call><function=f></function>".toList := by
  intro faithful
  have closed := faithful.closed ["<tool_call><function=f></function>".toList] rfl
  have marks : callMarks (run qwen3Setup none ["<tool_call><function=f></function>".toList]) =
      [.start 0, .stop 0, .stop 0] := by decide +kernel
  rw [marks] at closed
  exact absurd (closed [] 0 [.stop 0, .stop 0] rfl) (by decide)

theorem complete_call_faithful :
    Faithful qwen3Setup none "<tool_call><function=f></function></tool_call>".toList := by
  refine (faithful_iff qwen3_disciplined _).mpr fun _ _ tool => absurd tool ?_
  decide +kernel

end qwen3

end VllmAmpere.ParserEngine
