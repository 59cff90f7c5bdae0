import VllmAmpere.LogitsProcessors

/-! `ThinkingBudgetStateHolder.sync_batch`: the state of each row whose request has a
thinking budget. -/

namespace VllmAmpere.PersistentBatch

variable {F : Type}

/-- The tokens that begin and end a thinking section. -/
structure ReasoningConfig where
  thinkStartTokenIds : List Int
  thinkEndTokenIds : List Int

/-- A state entry. -/
structure ThinkingState where
  inThink : Bool
  inEnd : Bool
  checkCountDown : Int
  thinkCount : Int
  endCount : Int := 0
  promptTokIds : Option (List Int)
  outputTokIds : Option ListRef := none
  thinkingTokenBudget : Int
  prevOutputLength : Int := 0
  specTokenIds : List Int := []
  forceIndex : List Int := []
  startThinking : Int
  endThinking : Int := -1
  inSpecMode : Bool := false
  bonusTokenForced : Bool := false
  continueThinking : Bool
  scanOffset : Int := 0

/-- The last index at or below `i` where `tokenIds` begin. -/
def scanBack (targetList tokenIds : List Int) : Nat → Int
  | 0 => if targetList.take tokenIds.length = tokenIds then 0 else -1
  | i + 1 =>
    if (targetList.drop (i + 1)).take tokenIds.length = tokenIds then (i + 1 : Nat)
    else scanBack targetList tokenIds i

def findLastSequenceIndex (targetList tokenIds : List Int) : Int :=
  if tokenIds = [] ∨ targetList.length < tokenIds.length then -1
  else scanBack targetList tokenIds (targetList.length - tokenIds.length)

def initStateEntry (config : ReasoningConfig) (promptTokIds : Option (List Int))
    (thinkingTokenBudget : Int) : ThinkingState :=
  match promptTokIds with
  | none =>
    { inThink := false, inEnd := false, checkCountDown := thinkingTokenBudget, thinkCount := 0
      promptTokIds, thinkingTokenBudget, startThinking := -1, continueThinking := false }
  | some prompt =>
    let lastStart := findLastSequenceIndex prompt config.thinkStartTokenIds
    let lastEnd := findLastSequenceIndex prompt config.thinkEndTokenIds
    if lastStart > lastEnd then
      let thinkCount := prompt.length - (lastStart + config.thinkStartTokenIds.length)
      { inThink := true
        inEnd := thinkingTokenBudget - thinkCount ≤ 0
        checkCountDown := thinkingTokenBudget - thinkCount
        thinkCount
        promptTokIds
        thinkingTokenBudget
        startThinking := prompt.length - thinkCount - 1
        continueThinking := true }
    else
      { inThink := false, inEnd := false, checkCountDown := thinkingTokenBudget, thinkCount := 0
        promptTokIds, thinkingTokenBudget, startThinking := -1, continueThinking := false }

/-- An entry with the request it was created for, which the sampler never changes. -/
structure Tracked (F : Type) where
  request : RowRequest F
  state : ThinkingState

abbrev Holder (F : Type) := PyDict Nat (Tracked F)

/-- The entry of an added request, or none without a budget. -/
def trackedEntry (config : ReasoningConfig) (r : RowRequest F) : Option (Tracked F) :=
  r.params.thinkingTokenBudget.map fun budget => {
    request := r
    state := { initStateEntry config r.promptTokIds budget with
      outputTokIds := some r.outputTokIds, specTokenIds := [] } }

section Sync

def syncAdded (config : ReasoningConfig) (d : Holder F) (x : AddedRequest (SamplingParams F)) :
    Holder F :=
  match trackedEntry config ⟨x.params, x.promptTokIds, x.outputTokIds⟩ with
  | some entry => d.set x.index entry
  | none => d.pop x.index

def syncMoved (d : Holder F) (m : MovedRequest) : Holder F :=
  match m.direct with
  | .swap =>
    let state1 := d.get? m.i1
    let popped := d.pop m.i1
    let state2 := popped.get? m.i2
    let popped := popped.pop m.i2
    let moved := match state1 with
      | some state => popped.set m.i2 state
      | none => popped
    match state2 with
    | some state => moved.set m.i1 state
    | none => moved
  | .unidirectional =>
    match d.get? m.i1 with
    | some state => (d.pop m.i1).set m.i2 state
    | none => d.pop m.i1

def syncBatch (config : ReasoningConfig) (d : Holder F)
    (batchUpdate : Option (BatchUpdate (SamplingParams F))) : Holder F :=
  match batchUpdate with
  | none => d
  | some update =>
    update.moved.foldl syncMoved
      (update.added.foldl (syncAdded config) (update.removed.foldl PyDict.pop d))

end Sync

def owners (d : Holder F) : Rows (RowRequest F) := fun i => (d.get? i).map (·.request)

def RowRequest.budgeted (r : RowRequest F) : Option (RowRequest F) :=
  r.params.thinkingTokenBudget.map fun _ => r

section Owners

variable (d : Holder F)

theorem owners_set (i : Nat) (entry : Tracked F) :
    owners (d.set i entry) = Function.update (owners d) i (some entry.request) := by
  funext j
  rw [Rows.update_at, owners, PyDict.get?_set]
  split <;> rfl

theorem owners_pop (i : Nat) :
    owners (d.pop i) = Function.update (owners d) i none := by
  funext j
  rw [Rows.update_at, owners, PyDict.get?_pop]
  split <;> rfl

theorem owners_removed (removed : List Nat) :
    owners (removed.foldl PyDict.pop d) = (owners d).clears removed := by
  induction removed generalizing d with
  | nil => rfl
  | cons i removed ih => rw [List.foldl_cons, ih, owners_pop, Rows.clears_cons]

theorem owners_added (config : ReasoningConfig) (d : Holder F)
    (added : List (AddedRequest (SamplingParams F))) :
    owners (added.foldl (syncAdded config) d) = (owners d).adds (added.map fun x => (x.index,
    RowRequest.budgeted ⟨x.params, x.promptTokIds, x.outputTokIds⟩)) := by
  induction added generalizing d with
  | nil => rfl
  | cons x added ih =>
    have step : owners (syncAdded config d x) = Function.update (owners d) x.index
        (RowRequest.budgeted ⟨x.params, x.promptTokIds, x.outputTokIds⟩) := by
      unfold syncAdded trackedEntry RowRequest.budgeted
      cases budget : x.params.thinkingTokenBudget with
      | none => exact owners_pop d x.index
      | some n => exact owners_set d x.index _
    rw [List.foldl_cons, ih, step, List.map_cons, Rows.adds_cons]

theorem owners_swap (i1 i2 : Nat) :
    owners (syncMoved d ⟨i1, i2, .swap⟩) = (owners d).swap i1 i2 := by
  have popped : ∀ j, owners ((d.pop i1).pop i2) j =
      if j = i2 then none else if j = i1 then none else owners d j := fun j => by
    rw [owners_pop, owners_pop, Rows.update_at, Rows.update_at]
  have moved : ∀ j, owners (match d.get? i1 with
      | some state => ((d.pop i1).pop i2).set i2 state
      | none => (d.pop i1).pop i2) j =
      if j = i2 then owners d i1 else if j = i1 then none else owners d j := by
    intro j
    cases found : d.get? i1 with
    | none =>
      have absent : owners d i1 = none := by rw [owners, found]; rfl
      rw [absent]
      exact popped j
    | some state =>
      have there : owners d i1 = some state.request := by rw [owners, found]; rfl
      rw [owners_set, Rows.update_at, popped, there]
      split <;> rfl
  have second : (d.pop i1).get? i2 = if i2 = i1 then none else d.get? i2 := PyDict.get?_pop ..
  funext j
  rw [Rows.swap_at]
  simp only [syncMoved, second]
  by_cases same : i2 = i1
  · rw [if_pos same]
    refine (moved j).trans ?_
    split
    · rfl
    next not_2 => rw [if_neg (same ▸ not_2), if_neg (same ▸ not_2)]
  · rw [if_neg same]
    cases found : d.get? i2 with
    | none =>
      have absent : owners d i2 = none := by rw [owners, found]; rfl
      rw [absent]
      exact moved j
    | some state =>
      have there : owners d i2 = some state.request := by rw [owners, found]; rfl
      simp only [owners_set, Rows.update_at, moved, there]
      by_cases at_1 : j = i1
      · rw [if_pos at_1, if_neg (fun e => same (e.symm.trans at_1)), if_pos at_1]
      · rw [if_neg at_1, if_neg at_1, if_neg at_1]

theorem owners_slide (i1 i2 : Nat) : owners (syncMoved d ⟨i1, i2, .unidirectional⟩) =
    if owners d i1 = none then owners d else (owners d).slide i1 i2 := by
  cases found : d.get? i1 with
  | none =>
    have absent : owners d i1 = none := by rw [owners, found]; rfl
    rw [if_pos absent]
    simp only [syncMoved, found]
    rw [owners_pop]
    conv_rhs => rw [← Function.update_eq_self i1 (owners d), absent]
  | some entry =>
    have there : owners d i1 = some entry.request := by rw [owners, found]; rfl
    rw [if_neg (by rw [there]; simp)]
    simp only [syncMoved, found]
    rw [owners_set, owners_pop, Rows.slide, there]

end Owners

end VllmAmpere.PersistentBatch
