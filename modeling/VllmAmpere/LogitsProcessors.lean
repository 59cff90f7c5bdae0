import Mathlib.Data.Set.Card
import VllmAmpere.BatchMoves

/-! The logits processors that keep their state in a dict of rows:
`process_dict_updates` replays a batch update. -/

open List Function

namespace VllmAmpere.PersistentBatch

variable {F T : Type}

/-- Creates the state of an added request, or none. -/
abbrev NewState (F T : Type) := SamplingParams F → Option (List Int) → ListRef → Option T

/-- `req_entries`, with `updated`. -/
abbrev DictState (T : Type) := PyDict Nat T × Bool

section Updates

variable (truthy : T → Bool) (newState : NewState F T) (s : DictState T)

def addEntry (x : AddedRequest (SamplingParams F)) : DictState T :=
  match newState x.params x.promptTokIds x.outputTokIds with
  | some state => (s.1.set x.index state, true)
  | none => (s.1.pop x.index, s.2 || (s.1.get? x.index).isSome)

def removeEntry (index : Nat) : DictState T :=
  (s.1.pop index, s.2 || (s.1.get? index).any truthy)

def moveEntry (m : MovedRequest) : DictState T :=
  let aEntry := s.1.get? m.i1
  let popped := s.1.pop m.i1
  let bEntry := popped.get? m.i2
  let popped := popped.pop m.i2
  let moved := match aEntry with
    | some entry => popped.set m.i2 entry
    | none => popped
  let entries := match bEntry, m.direct with
    | some entry, .swap => moved.set m.i1 entry
    | _, _ => moved
  (entries, s.2 || aEntry.isSome || bEntry.isSome)

def processDictUpdates (reqEntries : PyDict Nat T)
    (batchUpdate : Option (BatchUpdate (SamplingParams F))) : DictState T :=
  match batchUpdate with
  | none => (reqEntries, false)
  | some update =>
    let added := update.added.foldl (addEntry newState) (reqEntries, false)
    if added.1.items = [] then added
    else update.moved.foldl moveEntry (update.removed.foldl (removeEntry truthy) added)

end Updates

def entryRows (d : PyDict Nat T) : Rows T := d.get?

def RowRequest.entry (newState : NewState F T) (r : RowRequest F) : Option T :=
  newState r.params r.promptTokIds r.outputTokIds

section Replay

variable {truthy : T → Bool} {newState : NewState F T} (s : DictState T)

theorem addEntry_rows (x : AddedRequest (SamplingParams F)) :
    entryRows (addEntry newState s x).1 = Function.update (entryRows s.1) x.index
    (newState x.params x.promptTokIds x.outputTokIds) := by
  funext i
  rw [Rows.update_at]
  unfold addEntry
  split
  next state created => exact (s.1.get?_set ..).trans (by rw [created]; rfl)
  next created => exact (s.1.get?_pop ..).trans (by rw [created]; rfl)

theorem removeEntry_rows (i : Nat) :
    entryRows (removeEntry truthy s i).1 = Function.update (entryRows s.1) i none := by
  funext j
  rw [Rows.update_at]
  exact s.1.get?_pop ..

theorem moveEntry_rows (m : MovedRequest) :
    entryRows (moveEntry s m).1 = (entryRows s.1).move m.rowMove := by
  funext j
  have popped : ∀ k, ((s.1.pop m.i1).pop m.i2).get? k =
      if k = m.i2 then none else if k = m.i1 then none else s.1.get? k := fun k => by
    rw [PyDict.get?_pop, PyDict.get?_pop]
  have b_entry : (s.1.pop m.i1).get? m.i2 = if m.i2 = m.i1 then none else s.1.get? m.i2 :=
    PyDict.get?_pop ..
  have moved : ∀ k, (match s.1.get? m.i1 with
      | some entry => ((s.1.pop m.i1).pop m.i2).set m.i2 entry
      | none => (s.1.pop m.i1).pop m.i2).get? k =
      if k = m.i2 then s.1.get? m.i1 else if k = m.i1 then none else s.1.get? k := by
    intro k
    cases found : s.1.get? m.i1 with
    | none => exact popped k
    | some entry =>
      rw [PyDict.get?_set, popped]
      split <;> rfl
  cases direct : m.direct with
  | unidirectional =>
    have row : m.rowMove = .slide m.i1 m.i2 := by rw [MovedRequest.rowMove, direct]
    rw [row, Rows.move, Rows.slide_at]
    simp only [entryRows, moveEntry, direct]
    split
    next impossible => cases impossible
    next => exact moved j
  | swap =>
    have row : m.rowMove = .swap m.i1 m.i2 := by rw [MovedRequest.rowMove, direct]
    rw [row, Rows.move, Rows.swap_at]
    simp only [entryRows, moveEntry, direct, b_entry]
    by_cases same : m.i2 = m.i1
    · rw [if_pos same]
      refine (moved j).trans ?_
      split
      · rfl
      next not_2 => rw [if_neg (same ▸ not_2), if_neg (same ▸ not_2)]
    · rw [if_neg same]
      cases found : s.1.get? m.i2 with
      | none => exact moved j
      | some entry =>
        simp only [PyDict.get?_set, moved]
        by_cases at_1 : j = m.i1
        · rw [if_pos at_1, if_neg (fun e => same (e.symm.trans at_1)), if_pos at_1]
        · rw [if_neg at_1, if_neg at_1, if_neg at_1]

theorem foldl_addEntry (newState : NewState F T) (added : List (AddedRequest (SamplingParams F))) (s : DictState T) :
    entryRows (added.foldl (addEntry newState) s).1 = (entryRows s.1).adds
    (added.map fun x => (x.index, newState x.params x.promptTokIds x.outputTokIds)) := by
  induction added generalizing s with
  | nil => rfl
  | cons x added ih =>
    rw [foldl_cons, ih, addEntry_rows, map_cons, Rows.adds_cons]

theorem foldl_removeEntry (removed : List Nat) (s : DictState T) :
    entryRows (removed.foldl (removeEntry truthy) s).1 = (entryRows s.1).clears removed := by
  induction removed generalizing s with
  | nil => rfl
  | cons i removed ih => rw [foldl_cons, ih, removeEntry_rows, Rows.clears_cons]

theorem foldl_moveEntry (moved : List MovedRequest) (s : DictState T) :
    entryRows (moved.foldl moveEntry s).1 =
    (entryRows s.1).moves (moved.map MovedRequest.rowMove) := by
  induction moved generalizing s with
  | nil => rfl
  | cons m moved ih =>
    rw [foldl_cons, ih, moveEntry_rows, map_cons, Rows.moves_cons]

theorem moves_none (moved : List RowMove) :
    Rows.moves (fun _ => (none : Option T)) moved = fun _ => none := by
  induction moved with
  | nil => rfl
  | cons m moved ih =>
    have step : Rows.move (fun _ => (none : Option T)) m = fun _ => none := by
      funext j
      cases m with
      | slide a b => rw [Rows.move, Rows.slide_at, ite_self, ite_self]
      | swap a b => rw [Rows.move, Rows.swap_at, ite_self, ite_self]
    rw [Rows.moves_cons, step, ih]

theorem processDictUpdates_rows (reqEntries : PyDict Nat T)
    (update : BatchUpdate (SamplingParams F)) :
    entryRows (processDictUpdates truthy newState reqEntries (some update)).1 =
    (((entryRows reqEntries).adds (update.added.map fun x =>
    (x.index, newState x.params x.promptTokIds x.outputTokIds))).clears update.removed).moves
    (update.moved.map MovedRequest.rowMove) := by
  have added := foldl_addEntry newState update.added (reqEntries, false)
  simp only [processDictUpdates]
  split
  next empty =>
    have none_left : entryRows (update.added.foldl (addEntry newState) (reqEntries, false)).1 =
        fun _ => none := by
      funext i
      simp only [entryRows, PyDict.get?, empty, lookup_nil]
    rw [← added, none_left]
    have cleared : Rows.clears (fun _ => (none : Option T)) update.removed = fun _ => none := by
      funext i
      rw [Rows.clears_at, ite_self]
    rw [cleared, moves_none]
  next => rw [foldl_moveEntry, foldl_removeEntry, added]

theorem processDictUpdates_log {c₀ c : Rows (RowRequest F)} {reqEntries : PyDict Nat T}
    {update : BatchUpdate (SamplingParams F)}
    (before : entryRows reqEntries = Rows.project (RowRequest.entry newState) c₀)
    (log : RowLog c₀ update.removed (update.added.map AddedRequest.rowAdd)
    (update.moved.map MovedRequest.rowMove) c) :
    entryRows (processDictUpdates truthy newState reqEntries (some update)).1 =
    Rows.project (RowRequest.entry newState) c := by
  rw [processDictUpdates_rows, before, ← log.replay, Rows.project_moves,
    Rows.project_clears, Rows.project_adds, map_map]
  rfl

end Replay

namespace LogitBias

/-- `params.logit_bias or None`. -/
def newState : NewState F (List (Int × F)) := fun params _ _ =>
  match params.logitBias with
  | none => none
  | some [] => none
  | some (bias :: rest) => some (bias :: rest)

end LogitBias

namespace MinTokens

/-- The state of a request below its minimum of output tokens. -/
structure Entry where
  minTokens : Nat
  outTokIds : ListRef
  stopTokIds : List Int
  usesStructuredOutput : Bool
  deriving DecidableEq, Repr

variable (heap : Heap)

def addRequest : NewState F Entry := fun params _ outputTokIds =>
  if params.minTokens = 0 ∨ params.minTokens ≤ (heap outputTokIds).length then none
  else some ⟨params.minTokens, outputTokIds, params.allStopTokenIds, params.structuredOutputs⟩

/-- An entry until its request has attained its minimum. -/
def pending (entry : Entry) : Option Entry :=
  if entry.minTokens ≤ (heap entry.outTokIds).length then none else some entry

def prune (minToks : PyDict Nat Entry) : PyDict Nat Entry where
  items := minToks.items.filter fun item => (pending heap item.2).isSome
  nodup := minToks.nodup.sublist (filter_sublist.map _)

def updateState (minToks : PyDict Nat Entry)
    (batchUpdate : Option (BatchUpdate (SamplingParams F))) : PyDict Nat Entry :=
  prune heap (processDictUpdates (fun _ => true) (addRequest heap) minToks batchUpdate).1

def Grows (heap heap' : Heap) : Prop := ∀ ref, (heap ref).length ≤ (heap' ref).length

theorem prune_rows (d : PyDict Nat Entry) :
    entryRows (prune heap d) = Rows.project (pending heap) (entryRows d) := by
  funext i
  cases found : d.get? i with
  | none =>
    have absent : (prune heap d).get? i = none := by
      by_contra there
      obtain ⟨entry, there⟩ := Option.ne_none_iff_exists'.mp there
      rw [← PyDict.mem_items] at there
      have old := (d.mem_items i entry).mp (mem_of_mem_filter there)
      rw [found] at old
      cases old
    simp only [entryRows, Rows.project, absent, found, Option.bind_none]
  | some entry =>
    simp only [entryRows, Rows.project, found, Option.bind_some]
    cases kept : pending heap entry with
    | none =>
      by_contra there
      obtain ⟨other, there⟩ := Option.ne_none_iff_exists'.mp there
      rw [← PyDict.mem_items] at there
      have old := (d.mem_items i other).mp (mem_of_mem_filter there)
      cases Option.some.inj (found.symm.trans old)
      have := of_mem_filter there
      simp [kept] at this
    | some same =>
      have unchanged : same = entry := by
        unfold pending at kept
        split at kept
        · cases kept
        · exact (Option.some.inj kept).symm
      rw [unchanged, ← PyDict.mem_items]
      exact mem_filter.mpr ⟨(d.mem_items i entry).mpr found, by simp [kept]⟩

theorem pending_entry {heap heap' : Heap} (grows : Grows heap heap') (r : RowRequest F) :
    (r.entry (addRequest heap)).bind (pending heap') = r.entry (addRequest heap') := by
  have longer := grows r.outputTokIds
  unfold RowRequest.entry addRequest pending
  by_cases no_min : r.params.minTokens = 0
  · rw [if_pos (.inl no_min), if_pos (.inl no_min)]
    rfl
  · by_cases reached : r.params.minTokens ≤ (heap r.outputTokIds).length
    · rw [if_pos (.inr reached), if_pos (.inr (Nat.le_trans reached longer))]
      rfl
    · rw [if_neg (by simp [no_min, reached])]
      simp only [Option.bind_some, no_min, false_or]

theorem pending_rows {heap heap' : Heap} (grows : Grows heap heap') (c : Rows (RowRequest F)) :
    Rows.project (pending heap') (Rows.project (RowRequest.entry (addRequest heap)) c) =
    Rows.project (RowRequest.entry (addRequest heap')) c := by
  funext i
  simp only [Rows.project, Option.bind_assoc]
  congr 1
  funext r
  exact pending_entry grows r

theorem updateState_none {heap heap' : Heap} {c : Rows (RowRequest F)}
    {minToks : PyDict Nat Entry} (grows : Grows heap heap')
    (before : entryRows minToks = Rows.project (RowRequest.entry (addRequest heap)) c) :
    entryRows (updateState (F := F) heap' minToks none) =
      Rows.project (RowRequest.entry (addRequest heap')) c := by
  rw [updateState, prune_rows, processDictUpdates, before, pending_rows grows]

theorem updateState_log {heap heap' : Heap} {c₀ c : Rows (RowRequest F)}
    {minToks : PyDict Nat Entry} {update : BatchUpdate (SamplingParams F)}
    (grows : Grows heap heap')
    (before : entryRows minToks = Rows.project (RowRequest.entry (addRequest heap)) c₀)
    (log : RowLog c₀ update.removed (update.added.map AddedRequest.rowAdd)
    (update.moved.map MovedRequest.rowMove) c) :
    entryRows (updateState heap' minToks (some update)) =
    Rows.project (RowRequest.entry (addRequest heap')) c := by
  have self : Grows heap' heap' := fun _ => Nat.le_refl _
  rw [updateState, prune_rows, processDictUpdates_rows, before, Rows.project_moves,
    Rows.project_clears, Rows.project_adds, pending_rows grows, ← log.replay, Rows.project_moves,
    Rows.project_clears, Rows.project_adds, map_map, map_map]
  congr 4
  funext x
  exact congrArg (Prod.mk x.index)
    (pending_entry self ⟨x.params, x.promptTokIds, x.outputTokIds⟩)

end MinTokens

/-! `MinPLogitsProcessor`: an array of rows and the number of its entries that are
not zero. -/

variable {F S : Type} [Zero F] [DecidableEq F] [Zero S] [DecidableEq S]

structure MinP (S : Type) where
  minPCount : Int
  minPCpu : Nat → S

namespace MinP

def init : MinP S := ⟨0, fun _ => 0⟩

/-- An added request. The count follows the parameter, the array its float32 value. -/
def addRow (float32 : F → S) (s : MinP S) (x : AddedRequest (SamplingParams F)) : MinP S :=
  let minP := x.params.minP
  let minPBefore := s.minPCpu x.index
  if minPBefore ≠ float32 minP then
    { minPCpu := Function.update s.minPCpu x.index (float32 minP)
      minPCount :=
        if minP ≠ 0 ∧ minPBefore = 0 then s.minPCount + 1
        else if minP = 0 ∧ minPBefore ≠ 0 then s.minPCount - 1
        else s.minPCount }
  else s

def removeRow (s : MinP S) (index : Nat) : MinP S :=
  if s.minPCpu index ≠ 0 then
    { minPCpu := Function.update s.minPCpu index 0, minPCount := s.minPCount - 1 }
  else s

def moveRow (s : MinP S) (m : MovedRequest) : MinP S :=
  let minPA := s.minPCpu m.i1
  let minPB := s.minPCpu m.i2
  let exchanged :=
    if minPA ≠ minPB then
      let moved := Function.update s.minPCpu m.i2 minPA
      if m.direct = .swap then Function.update moved m.i1 minPB else moved
    else s.minPCpu
  if m.direct = .unidirectional then
    { minPCpu := if minPA ≠ 0 then Function.update exchanged m.i1 0 else exchanged
      minPCount := if minPB ≠ 0 then s.minPCount - 1 else s.minPCount }
  else { s with minPCpu := exchanged }

def updateState (float32 : F → S) (s : MinP S)
    (batchUpdate : Option (BatchUpdate (SamplingParams F))) : MinP S :=
  match batchUpdate with
  | none => s
  | some update =>
    let s := update.added.foldl (addRow float32) s
    if s.minPCount ≠ 0 then update.moved.foldl moveRow (update.removed.foldl removeRow s) else s

end MinP

section Counts

def nonzero (x : S) : Int := if x ≠ 0 then 1 else 0

def Counts (cpu : Nat → S) (count : Int) : Prop :=
  {i | cpu i ≠ 0}.Finite ∧ count = ({i | cpu i ≠ 0}.ncard : Int)

omit [DecidableEq S] in
theorem Counts.zero : Counts (fun _ => (0 : S)) 0 := by
  simp [Counts]

variable {cpu : Nat → S}

theorem Counts.update {count : Int} (h : Counts cpu count) (i : Nat) (x : S) :
    Counts (Function.update cpu i x) (count + nonzero x - nonzero (cpu i)) := by
  obtain ⟨finite, count_eq⟩ := h
  by_cases zero : x = 0
  · have rows : {j | Function.update cpu i x j ≠ 0} = {j | cpu j ≠ 0} \ {i} := by
      ext j
      by_cases here : j = i
      · subst here
        simp [zero]
      · simp [here]
    rw [Counts, rows]
    refine ⟨finite.subset Set.sdiff_subset, ?_⟩
    by_cases before : cpu i = 0
    · rw [Set.sdiff_singleton_eq_self (by simpa using before)]
      simp [nonzero, zero, before, count_eq]
    · have mem : i ∈ {j | cpu j ≠ 0} := before
      have one := Set.ncard_sdiff_singleton_add_one mem finite
      have now : nonzero x = 0 := if_neg (by simp [zero])
      have was : nonzero (cpu i) = 1 := if_pos before
      rw [now, was]
      omega
  · have rows : {j | Function.update cpu i x j ≠ 0} = insert i {j | cpu j ≠ 0} := by
      ext j
      by_cases here : j = i
      · subst here
        simp [zero]
      · simp [here]
    rw [Counts, rows]
    refine ⟨finite.insert i, ?_⟩
    by_cases before : cpu i = 0
    · rw [Set.ncard_insert_of_notMem (by simpa using before) finite]
      simp [nonzero, zero, before, count_eq]
    · rw [Set.insert_eq_of_mem (show i ∈ {j | cpu j ≠ 0} from before)]
      simp [nonzero, zero, before, count_eq]

theorem Counts.all_zero (h : Counts cpu 0) : cpu = fun _ => 0 := by
  obtain ⟨finite, count⟩ := h
  have empty : {i | cpu i ≠ 0} = ∅ := (Set.ncard_eq_zero finite).mp (by omega)
  funext i
  by_contra there
  have mem : i ∈ {i | cpu i ≠ 0} := there
  rw [empty] at mem
  exact mem

omit [DecidableEq S] in
theorem Counts.congr {count count' : Int} (h : Counts cpu count)
    (same : count = count') : Counts cpu count' :=
  same ▸ h

theorem nonzero_zero : nonzero (0 : S) = 0 := if_neg fun some => some rfl

end Counts

namespace MinP

variable {float32 : F → S}

def shown (float32 : F → S) (c : Rows (RowRequest F)) (i : Nat) : S :=
  (c i).elim 0 fun r => float32 r.params.minP

/-- The array shows the requests of the rows and the count counts its entries. -/
structure Shows (float32 : F → S) (s : MinP S) (c : Rows (RowRequest F)) : Prop where
  cpu : s.minPCpu = shown float32 c
  count : Counts s.minPCpu s.minPCount

omit [Zero F] [DecidableEq F] [DecidableEq S] in
theorem shown_update (c : Rows (RowRequest F)) (i : Nat) (x : Option (RowRequest F)) :
    shown float32 (Function.update c i x) = Function.update (shown float32 c) i
    (x.elim 0 fun r => float32 r.params.minP) := by
  funext j
  rw [shown, Rows.update_at, update_apply]
  split <;> rfl

def Spared (float32 : F → S) (s : MinP S) (x : AddedRequest (SamplingParams F)) : Prop :=
  x.params.minP ≠ 0 → float32 x.params.minP = 0 → s.minPCpu x.index = 0

variable {s : MinP S} {c : Rows (RowRequest F)}

theorem Shows.addRow (zero : float32 0 = 0)
    (h : Shows float32 s c) {x : AddedRequest (SamplingParams F)} (spared : Spared float32 s x) :
    Shows float32 (s.addRow float32 x) (c.adds [x.rowAdd]) := by
  have rows : shown float32 (c.adds [x.rowAdd]) =
      Function.update s.minPCpu x.index (float32 x.params.minP) := by
    rw [h.cpu]
    exact shown_update c x.index _
  simp only [MinP.addRow]
  split
  next differs =>
    refine ⟨rows.symm, (h.count.update x.index (float32 x.params.minP)).congr ?_⟩
    by_cases before : s.minPCpu x.index = 0
    · have now : float32 x.params.minP ≠ 0 := fun e => differs (before.trans e.symm)
      have param : x.params.minP ≠ 0 := fun e => now (e ▸ zero)
      rw [if_pos ⟨param, before⟩, before, nonzero_zero, nonzero, if_pos now, Int.sub_zero]
    · have was : nonzero (s.minPCpu x.index) = 1 := if_pos before
      rw [if_neg fun both => before both.2, was]
      by_cases param : x.params.minP = 0
      · rw [if_pos ⟨param, before⟩, param, zero, nonzero_zero, Int.add_zero]
      · have now : nonzero (float32 x.params.minP) = 1 :=
          if_pos fun e => before (spared param e)
        rw [if_neg fun both => param both.1, now]
        exact Int.add_sub_cancel ..
  next same =>
    refine ⟨?_, h.count⟩
    rw [rows, ← not_not.mp same, update_eq_self]

omit [Zero F] [DecidableEq F] in
theorem Shows.removeRow (h : Shows float32 s c) (i : Nat) :
    Shows float32 (s.removeRow i) (Function.update c i none) := by
  have rows : shown float32 (Function.update c i none) = Function.update s.minPCpu i 0 := by
    rw [h.cpu]
    exact shown_update c i none
  unfold MinP.removeRow
  split
  next there =>
    refine ⟨rows.symm, (h.count.update i 0).congr ?_⟩
    rw [nonzero_zero, nonzero, if_pos there, Int.add_zero]
  next absent =>
    refine ⟨?_, h.count⟩
    rw [rows, ← not_not.mp absent, update_eq_self]

omit [Zero F] [DecidableEq F] [DecidableEq S] in
theorem shown_slide (c : Rows (RowRequest F)) {a b : Nat} (other : a ≠ b) :
    shown float32 (c.slide a b) = Function.update
    (Function.update (shown float32 c) b (shown float32 c a)) a 0 := by
  funext j
  rw [shown, Rows.slide_at, update_apply, update_apply]
  by_cases at_a : j = a
  · rw [if_pos at_a, if_neg (at_a ▸ other), if_pos at_a]
    rfl
  · rw [if_neg at_a, if_neg at_a]
    split <;> rfl

omit [Zero F] [DecidableEq F] [DecidableEq S] in
theorem shown_swap (c : Rows (RowRequest F)) (a b : Nat) :
    shown float32 (c.swap a b) = Function.update
    (Function.update (shown float32 c) b (shown float32 c a)) a (shown float32 c b) := by
  funext j
  rw [shown, Rows.swap_at, update_apply, update_apply]
  by_cases at_a : j = a
  · rw [if_pos at_a]
    split
    next at_b => rw [← at_b, at_a]; rfl
    next => rfl
  · rw [if_neg at_a, if_neg at_a]
    split <;> rfl

omit [Zero F] [DecidableEq F] in
theorem Shows.slideRow (h : Shows float32 s c) {a b : Nat}
    (other : a ≠ b) : Shows float32 (s.moveRow ⟨a, b, .unidirectional⟩) (c.slide a b) := by
  have filled : (if s.minPCpu a ≠ s.minPCpu b then Function.update s.minPCpu b (s.minPCpu a)
      else s.minPCpu) = Function.update s.minPCpu b (s.minPCpu a) := by
    split
    · rfl
    next same => rw [not_not.mp same, update_eq_self]
  have source : Function.update s.minPCpu b (s.minPCpu a) a = s.minPCpu a :=
    update_of_ne other _ _
  have freed : (if s.minPCpu a ≠ 0 then
      Function.update (Function.update s.minPCpu b (s.minPCpu a)) a 0
      else Function.update s.minPCpu b (s.minPCpu a)) =
      Function.update (Function.update s.minPCpu b (s.minPCpu a)) a 0 := by
    split
    · rfl
    next empty =>
      have here : Function.update s.minPCpu b (s.minPCpu a) a = 0 :=
        source.trans (not_not.mp empty)
      conv_rhs => rw [← here]
      rw [update_eq_self]
  have result : s.moveRow ⟨a, b, .unidirectional⟩ = {
      minPCpu := Function.update (Function.update s.minPCpu b (s.minPCpu a)) a 0
      minPCount := if s.minPCpu b ≠ 0 then s.minPCount - 1 else s.minPCount } := by
    simp only [MinP.moveRow, reduceCtorEq, if_true, if_false, filled, freed]
  have count : Counts (Function.update (Function.update s.minPCpu b (s.minPCpu a)) a 0)
      (if s.minPCpu b ≠ 0 then s.minPCount - 1 else s.minPCount) := by
    refine ((h.count.update b (s.minPCpu a)).update a 0).congr ?_
    rw [source, nonzero_zero]
    by_cases empty : s.minPCpu b = 0
    · rw [if_neg fun some => some empty, empty, nonzero_zero]
      omega
    · have was : nonzero (s.minPCpu b) = 1 := if_pos empty
      rw [if_pos empty, was]
      omega
  rw [result]
  exact ⟨by rw [shown_slide c other, ← h.cpu], count⟩

omit [Zero F] [DecidableEq F] in
theorem Shows.swapRow (h : Shows float32 s c) (a b : Nat) :
    Shows float32 (s.moveRow ⟨a, b, .swap⟩) (c.swap a b) := by
  have exchanged : (if s.minPCpu a ≠ s.minPCpu b then
      Function.update (Function.update s.minPCpu b (s.minPCpu a)) a (s.minPCpu b)
      else s.minPCpu) =
      Function.update (Function.update s.minPCpu b (s.minPCpu a)) a (s.minPCpu b) := by
    split
    · rfl
    next same =>
      conv_rhs => rw [not_not.mp same, update_eq_self, ← not_not.mp same]
      rw [update_eq_self]
  have result : s.moveRow ⟨a, b, .swap⟩ = { s with
      minPCpu := Function.update (Function.update s.minPCpu b (s.minPCpu a)) a (s.minPCpu b) } := by
    simp only [MinP.moveRow, reduceCtorEq, if_true, if_false, exchanged]
  rw [result]
  refine ⟨?_, ((h.count.update b (s.minPCpu a)).update a (s.minPCpu b)).congr ?_⟩
  · rw [shown_swap, ← h.cpu]
  · by_cases same : a = b
    · rw [same, update_self, Int.add_sub_cancel]
      exact Int.add_sub_cancel ..
    · rw [update_of_ne same, Int.sub_add_cancel]
      exact Int.add_sub_cancel ..

theorem Shows.foldl_addRow (zero : float32 0 = 0) {added : List (AddedRequest (SamplingParams F))}
    (h : Shows float32 s c)
    (distinct : (added.map (·.index)).Nodup) (spared : ∀ x ∈ added, Spared float32 s x) :
    Shows float32 (added.foldl (MinP.addRow float32) s)
    (c.adds (added.map AddedRequest.rowAdd)) := by
  induction added generalizing s c with
  | nil => exact h
  | cons x added ih =>
    rw [map_cons, nodup_cons] at distinct
    have first := h.addRow zero (spared x mem_cons_self)
    refine ih first distinct.2 fun y mem param underflow => ?_
    have other : y.index ≠ x.index := fun e =>
      distinct.1 (e ▸ mem_map_of_mem (f := (·.index)) mem)
    have kept : (s.addRow float32 x).minPCpu y.index = s.minPCpu y.index := by
      simp only [MinP.addRow]
      split
      · exact update_of_ne other ..
      · rfl
    rw [kept]
    exact spared y (mem_cons_of_mem _ mem) param underflow

omit [Zero F] [DecidableEq F] in
theorem Shows.foldl_removeRow (h : Shows float32 s c) (removed : List Nat) :
    Shows float32 (removed.foldl MinP.removeRow s) (c.clears removed) := by
  induction removed generalizing s c with
  | nil => exact h
  | cons i removed ih => exact ih (h.removeRow i)

omit [Zero F] [DecidableEq F] in
theorem Shows.foldl_moveRow (h : Shows float32 s c)
    {moved : List MovedRequest} (other : ∀ m ∈ moved, m.direct = .unidirectional → m.i1 ≠ m.i2) :
    Shows float32 (moved.foldl MinP.moveRow s) (c.moves (moved.map MovedRequest.rowMove)) := by
  induction moved generalizing s c with
  | nil => exact h
  | cons m moved ih =>
    refine ih ?_ fun m mem => other m (mem_cons_of_mem _ mem)
    obtain ⟨i1, i2, direct⟩ := m
    cases direct with
    | unidirectional => exact h.slideRow (other _ mem_cons_self rfl)
    | swap => exact h.swapRow i1 i2

theorem foldl_of_zero (zero : s.minPCpu = fun _ => 0) (removed : List Nat)
    (moved : List MovedRequest) :
    moved.foldl MinP.moveRow (removed.foldl MinP.removeRow s) = s := by
  have keep_removed : ∀ removed : List Nat, removed.foldl MinP.removeRow s = s := by
    intro removed
    induction removed with
    | nil => rfl
    | cons i removed ih =>
      have step : s.removeRow i = s := if_neg (by rw [zero]; simp)
      rw [foldl_cons, step, ih]
  have step : ∀ m, s.moveRow m = s := by
    intro m
    obtain ⟨count, cpu⟩ := s
    subst zero
    simp [MinP.moveRow]
  rw [keep_removed]
  induction moved with
  | nil => rfl
  | cons m moved ih => rw [foldl_cons, step, ih]

theorem Shows.updateState (zero : float32 0 = 0) {c₀ c : Rows (RowRequest F)}
    (h : Shows float32 s c₀) {update : BatchUpdate (SamplingParams F)}
    (distinct : (update.added.map (·.index)).Nodup)
    (spared : ∀ x ∈ update.added, Spared float32 s x)
    (other : ∀ m ∈ update.moved, m.direct = .unidirectional → m.i1 ≠ m.i2)
    (log : RowLog c₀ update.removed (update.added.map AddedRequest.rowAdd)
    (update.moved.map MovedRequest.rowMove) c) :
    Shows float32 (s.updateState float32 (some update)) c := by
  have added := h.foldl_addRow zero distinct spared
  have replayed := (added.foldl_removeRow update.removed).foldl_moveRow other
  rw [log.replay] at replayed
  simp only [MinP.updateState]
  split
  · exact replayed
  next none_counted =>
    have count := added.count
    rw [not_not.mp none_counted] at count
    rw [foldl_of_zero count.all_zero] at replayed
    exact replayed

omit [Zero F] [DecidableEq F] [DecidableEq S] in
theorem Shows.unique {s s' : MinP S} (h : Shows float32 s c) (h' : Shows float32 s' c) : s = s' := by
  obtain ⟨count, cpu⟩ := s
  obtain ⟨count', cpu'⟩ := s'
  have same : cpu = cpu' := h.cpu.trans h'.cpu.symm
  subst same
  have counts : count = count' := h.count.2.trans h'.count.2.symm
  rw [counts]

end MinP

end VllmAmpere.PersistentBatch
