import VllmAmpere.OutputLedger

/-! What one call of `OutputProcessor` does to requests, their external ids and their
parents. -/

open List

namespace VllmAmpere.OutputProcessor

open ParallelSampling

namespace Processor

variable {s s' s'' : Processor} {X Y : List ReqId} {id : ReqId} {st : RequestState}

theorem removeInternalId_congr {e : ReqId} {externalReqIds : PyDict ReqId (List ReqId)}
    (same : s'.externalReqIds = s.externalReqIds)
    (removed : s.removeInternalId e id = .ok { s with externalReqIds }) :
    s'.removeInternalId e id = .ok { s' with externalReqIds } := by
  simp only [removeInternalId] at removed ⊢
  rw [same]
  split at removed
  next mem =>
    rw [if_pos mem]
    injection removed with removed
    injection removed with _ _ left _
    rw [left]
  next => cases removed

/-- A request leaves, and its parent with it when no child is left in its set. -/
structure Finished (s s' : Processor) (st : RequestState) : Prop where
  sound : Sound s' []
  left : ∃ parents, Left s s' [st.requestId] parents ∧
    ∀ p, p ∈ parents ↔ st.parentReq = some p ∧ s'.childRequests p = []
  unlisted : ∀ p, st.parentReq = some p → st.requestId ∉ s'.childRequests p

/-- `_finish_request`, once the final output has been made. -/
theorem Sound.finish (h : Sound s []) (found : s.requestStates.get? id = some st)
    {childRequests : ReqId → List ReqId}
    (sublist : ∀ p, (childRequests p).Sublist (s.childRequests p))
    (kept : ∀ p c, c ∈ s.childRequests p → c ≠ id → c ∈ childRequests p)
    (unlisted : ∀ p, st.parentReq = some p → id ∉ childRequests p) :
    ∃ s', finishRequest { s with childRequests } st = .ok s' ∧ Finished s s' st := by
  have name := h.external.named id st found
  rw [← name] at unlisted
  obtain ⟨externalReqIds, removed, external⟩ := h.external.remove found not_mem_nil
  have taken : Sound { s with externalReqIds } [id] := ⟨external, ⟨h.families.tracked,
    h.families.plain, h.families.distinct, h.families.child, h.families.parent⟩⟩
  obtain ⟨popped, left⟩ := taken.pop (mem_singleton_self id) sublist kept
  have gone : (s.requestStates.pop id).get? id = none := by rw [PyDict.get?_pop, if_pos rfl]
  have sound : Sound { s with
      requestStates := s.requestStates.pop id, externalReqIds, childRequests } [] :=
    ⟨popped.external.dead gone, popped.families⟩
  have left : Left s { s with
      requestStates := s.requestStates.pop id, externalReqIds, childRequests } [id] [] :=
    ⟨left.states, left.parents, left.sublist, left.kept⟩
  have internal : removeInternalId { s with
      requestStates := s.requestStates.pop id, childRequests } st.externalReqId id =
        .ok { s with
          requestStates := s.requestStates.pop id, childRequests, externalReqIds } :=
    removeInternalId_congr (s := s) rfl removed
  unfold finishRequest
  simp only [name, internal]
  cases parent : st.parentReq with
  | none =>
    refine ⟨_, rfl, sound, ⟨[], name ▸ left, fun p => ?_⟩, unlisted⟩
    rw [parent]
    exact ⟨nofun, fun both => nomatch both.1⟩
  | some p =>
    by_cases empty : childRequests p = []
    · simp only [if_pos empty]
      refine ⟨_, rfl, sound.popParent (p := p) fun c mem => ?_, ⟨[p], ?_, fun q => ?_⟩, unlisted⟩
      · have none_left : c ∈ childRequests p := mem
        rw [empty] at none_left
        cases none_left
      · exact name ▸ left.trans (Left.parentOnly _ p)
      · rw [mem_singleton, parent, Option.some.injEq]
        refine ⟨fun same => ⟨same.symm, same ▸ empty⟩, fun both => both.1.symm⟩
    · simp only [if_neg empty]
      refine ⟨_, rfl, sound, ⟨[], name ▸ left, fun q => ?_⟩, unlisted⟩
      rw [parent, Option.some.injEq]
      refine ⟨nofun, ?_⟩
      rintro ⟨rfl, none_left⟩
      exact absurd none_left empty

def kind (st : RequestState) : Option ReqId × Bool := (st.parentReq, st.hasDetokenizer)

/-- The families are as they were. -/
structure Quiet (s s' : Processor) : Prop where
  parents : s'.parentRequests = s.parentRequests
  children : s'.childRequests = s.childRequests
  states : ∀ c, (s'.requestStates.get? c).map kind = (s.requestStates.get? c).map kind

theorem Sound.setState (h : Sound s X) (st' : RequestState)
    (found : s.requestStates.get? id = some st) (name : st'.requestId = id)
    (same : st'.externalReqId = st.externalReqId) (single : st.parentReq = none)
    (kinds : kind st' = kind st) : Sound (s.setState st') X ∧ Quiet s (s.setState st') := by
  have parent : st'.parentReq = none := (congrArg Prod.fst kinds).trans single
  have at_key : ∀ c, (s.setState st').requestStates.get? c =
      if c = id then some st' else s.requestStates.get? c := fun c => by
    rw [Processor.setState, name, PyDict.get?_set]
  have others : ∀ c st'' p, (s.setState st').requestStates.get? c = some st'' →
      st''.parentReq = some p → s.requestStates.get? c = some st'' := by
    intro c st'' p there child
    rw [at_key] at there
    split at there
    · cases there
      rw [parent] at child
      cases child
    · exact there
  refine ⟨⟨h.external.setState found name same, ?_⟩, rfl, rfl, fun c => ?_⟩
  · exact {
      tracked := fun c st'' p there child =>
        h.families.tracked c st'' p (others c st'' p there child) child
      plain := fun c st'' p there child =>
        h.families.plain c st'' p (others c st'' p there child) child
      distinct := h.families.distinct
      child := by
        intro p c mem
        obtain ⟨no_parent, own⟩ := h.families.child p c mem
        refine ⟨no_parent, fun st'' there => ?_⟩
        rw [at_key] at there
        split at there
        next here =>
          have := own st (here ▸ found)
          rw [single] at this
          cases this
        · exact own st'' there
      parent := by
        intro p there
        have absent := h.families.parent p there
        rw [at_key]
        split
        next here =>
          rw [here, found] at absent
          cases absent
        · exact absent }
  · rw [at_key]
    split
    next here => rw [here, found, Option.map_some, Option.map_some, kinds]
    next => rfl

theorem finalChildren_single (childRequests : ReqId → List ReqId) (isPooling : Bool)
    (single : st.parentReq = none) : finalChildren childRequests st isPooling = childRequests := by
  unfold finalChildren
  rw [single, ite_self]

theorem Sound.processOutput (h : Sound s []) {output : EngineCoreOutput}
    (fits : ∀ st, s.requestStates.get? output.requestId = some st →
    output.isPooling = !st.hasDetokenizer) :
    ∃ s', s.processOutput output = .ok s' ∧ Sound s' [] ∧ (Quiet s s' ∨
    ∃ st, s.requestStates.get? output.requestId = some st ∧ output.finishes = true ∧
    Finished s s' st) := by
  have quiet : Quiet s s := ⟨rfl, rfl, fun _ => rfl⟩
  unfold Processor.processOutput
  cases found : s.requestStates.get? output.requestId with
  | none => exact ⟨s, rfl, h, .inl quiet⟩
  | some st =>
    simp only
    have name := h.external.named _ st found
    split
    next finishes =>
      by_cases streaming : st.streamingInput = true
      · rw [if_pos streaming]
        have single : st.parentReq = none := by
          cases parent : st.parentReq with
          | none => rfl
          | some p =>
            have := (h.families.plain _ st p found parent).1
            rw [streaming] at this
            cases this
        have made : s.makeFinalOutput st output.isPooling = s := by
          rw [makeFinalOutput, finalChildren_single _ _ single]
        rw [made]
        split
        next final queue _ =>
          have ⟨sound, quiet⟩ := h.setState
            { applyStreamingUpdate st final with inputChunkQueue := some queue }
            found name rfl single rfl
          exact ⟨_, rfl, sound, .inl quiet⟩
        next =>
          have ⟨sound, quiet⟩ := h.setState { st with inputChunkQueue := none }
            found name rfl single rfl
          exact ⟨_, rfl, sound, .inl quiet⟩
      · rw [if_neg streaming]
        have unlisted : ∀ p, st.parentReq = some p →
            output.requestId ∉ finalChildren s.childRequests st output.isPooling p := by
          intro p parent mem
          have generative : output.isPooling = false := by
            rw [fits st found, (h.families.plain _ st p found parent).2]
            rfl
          rw [finalChildren, generative, if_neg Bool.false_ne_true, parent] at mem
          simp only [Function.update_self, mem_removeChild (h.families.distinct p), name] at mem
          exact mem.2 rfl
        obtain ⟨s', done, finished⟩ := h.finish found
          (finalChildren_sublist s.childRequests st output.isPooling)
          (fun p c mem other => finalChildren_kept mem (name ▸ other)) unlisted
        exact ⟨s', done, finished.sound, .inr ⟨st, rfl, finishes, finished⟩⟩
    next => exact ⟨s, rfl, h, .inl quiet⟩

end Processor

/-! Outputs of the engine and aborts, for many requests at once: under which condition
a parent request leaves with the last of its children. -/

namespace Processor

variable {s s' s'' : Processor} {X Y : List ReqId} {id : ReqId} {st : RequestState}

def Backed (s : Processor) : Prop := ∀ p, (s.parentRequests.get? p).isSome →
  ∃ c st, s.requestStates.get? c = some st ∧ st.parentReq = some p

section Process

/-- Pooling outputs are those of requests that are not detokenized. -/
def Fits (s : Processor) (outputs : List EngineCoreOutput) : Prop :=
  ∀ output ∈ outputs, ∀ st, s.requestStates.get? output.requestId = some st →
    output.isPooling = !st.hasDetokenizer

/-- A parent whose set still has a child that has left keeps one in flight. -/
def KeepsChild (s : Processor) (outputs : List EngineCoreOutput) : Prop :=
  ∀ p, (s.parentRequests.get? p).isSome →
    (∀ c ∈ s.childRequests p, (s.requestStates.get? c).isSome) ∨
    ∃ c st, s.requestStates.get? c = some st ∧ st.parentReq = some p ∧
      ∀ output ∈ outputs, output.requestId = c → output.finishes = false

variable {c : ReqId}

theorem Quiet.before (q : Quiet s s') {st' : RequestState}
    (found : s'.requestStates.get? c = some st') :
    ∃ st, s.requestStates.get? c = some st ∧ kind st = kind st' := by
  have same := q.states c
  rw [found, Option.map_some] at same
  exact Option.map_eq_some_iff.mp same.symm

theorem Quiet.after (q : Quiet s s') {st : RequestState}
    (found : s.requestStates.get? c = some st) :
    ∃ st', s'.requestStates.get? c = some st' ∧ kind st' = kind st := by
  have same := q.states c
  rw [found, Option.map_some] at same
  exact Option.map_eq_some_iff.mp same

theorem Quiet.backed (q : Quiet s s') (backed : Backed s) : Backed s' := by
  intro p there
  rw [q.parents] at there
  obtain ⟨c, st, found, child⟩ := backed p there
  obtain ⟨st', found', same⟩ := q.after found
  exact ⟨c, st', found', (congrArg Prod.fst same).trans child⟩

variable {outputs : List EngineCoreOutput}

theorem Quiet.keepsChild (q : Quiet s s') {output : EngineCoreOutput}
    (keeps : KeepsChild s (output :: outputs)) : KeepsChild s' outputs := by
  intro p there
  rw [q.parents] at there
  rcases keeps p there with all | ⟨c, st, found, child, stays⟩
  · refine .inl fun c mem => ?_
    rw [q.children] at mem
    obtain ⟨st, found⟩ := Option.isSome_iff_exists.mp (all c mem)
    obtain ⟨st', found', -⟩ := q.after found
    rw [found']
    rfl
  · obtain ⟨st', found', same⟩ := q.after found
    exact .inr ⟨c, st', found', (congrArg Prod.fst same).trans child,
      fun o mem => stays o (mem_cons_of_mem _ mem)⟩

theorem Finished.others (f : Finished s s' st) (other : c ≠ st.requestId) :
    s'.requestStates.get? c = s.requestStates.get? c := by
  obtain ⟨parents, left, -⟩ := f.left
  rw [left.states, if_neg (by simpa using other)]

section

variable (h : Sound s []) (f : Finished s s' st)
  (found : s.requestStates.get? st.requestId = some st)
include h f found

theorem Finished.backed (backed : Backed s)
    {output : EngineCoreOutput}
    (keeps : KeepsChild s (output :: outputs)) (own : output.requestId = st.requestId)
    (finishes : output.finishes = true) : Backed s' := by
  intro p there
  obtain ⟨parents, left, leaves⟩ := f.left
  obtain ⟨there, stays⟩ := left.parent_before there
  by_cases child : st.parentReq = some p
  · have some_left : s'.childRequests p ≠ [] := fun empty => stays ((leaves p).mpr ⟨child, empty⟩)
    rcases keeps p there with all | ⟨c, stc, foundc, childc, unfinished⟩
    · obtain ⟨c, mem⟩ := exists_mem_of_ne_nil _ some_left
      have other : c ≠ st.requestId := fun e => f.unlisted p child (e ▸ mem)
      have listed := (left.sublist p).subset mem
      obtain ⟨stc, foundc⟩ := Option.isSome_iff_exists.mp (all c listed)
      exact ⟨c, stc, (f.others other).trans foundc, (h.families.child p c listed).2 stc foundc⟩
    · have other : c ≠ st.requestId := by
        rintro rfl
        rw [unfinished output mem_cons_self own] at finishes
        cases finishes
      exact ⟨c, stc, (f.others other).trans foundc, childc⟩
  · obtain ⟨c, stc, foundc, childc⟩ := backed p there
    have other : c ≠ st.requestId := by
      rintro rfl
      rw [found] at foundc
      cases foundc
      exact child childc
    exact ⟨c, stc, (f.others other).trans foundc, childc⟩

theorem Finished.keepsChild {output : EngineCoreOutput}
    (keeps : KeepsChild s (output :: outputs)) (own : output.requestId = st.requestId)
    (finishes : output.finishes = true) : KeepsChild s' outputs := by
  intro p there
  obtain ⟨parents, left, -⟩ := f.left
  rcases keeps p (left.parent_before there).1 with all | ⟨c, stc, foundc, childc, unfinished⟩
  · refine .inl fun c mem => ?_
    have listed := (left.sublist p).subset mem
    have other : c ≠ st.requestId := by
      rintro rfl
      exact f.unlisted p ((h.families.child p _ listed).2 st found) mem
    rw [f.others other]
    exact all c listed
  · have other : c ≠ st.requestId := by
      rintro rfl
      rw [unfinished output mem_cons_self own] at finishes
      cases finishes
    exact .inr ⟨c, stc, (f.others other).trans foundc, childc,
      fun o mem => unfinished o (mem_cons_of_mem _ mem)⟩

end

theorem Sound.process (h : Sound s []) (backed : Backed s)
    (fits : Fits s outputs) (keeps : KeepsChild s outputs) :
    ∃ s', outputs.foldlM Processor.processOutput s = .ok s' ∧ Sound s' [] ∧ Backed s' := by
  induction outputs generalizing s with
  | nil => exact ⟨s, rfl, h, backed⟩
  | cons output outputs ih =>
    obtain ⟨s₁, done, sound, effect⟩ := h.processOutput (fits output mem_cons_self)
    have kinds : ∀ c st', s₁.requestStates.get? c = some st' →
        ∃ st, s.requestStates.get? c = some st ∧ kind st = kind st' := by
      intro c st' found
      rcases effect with quiet | ⟨st, -, -, finished⟩
      · exact quiet.before found
      · obtain ⟨parents, left, -⟩ := finished.left
        exact ⟨st', (left.before found).1, rfl⟩
    have fits₁ : Fits s₁ outputs := by
      intro o mem st' found
      obtain ⟨st, found, same⟩ := kinds _ st' found
      rw [fits o (mem_cons_of_mem _ mem) st found]
      exact congrArg _ (congrArg Prod.snd same)
    rw [foldlM_cons, done]
    rcases effect with quiet | ⟨st, found, finishes, finished⟩
    · exact ih sound (quiet.backed backed) fits₁ (quiet.keepsChild keeps)
    · have name := h.external.named _ st found
      rw [← name] at found
      exact ih sound (finished.backed h found backed keeps name.symm finishes) fits₁
        (finished.keepsChild h found keeps name.symm finishes)

end Process

section Abort

variable (order : SetOrder)
  (recurse : Processor → List ReqId → Except Processor (Processor × List ReqId))

theorem gather_cons {body : Processor → ReqId → Except Processor (Processor × List ReqId)}
    {ids found more : List ReqId} (first : body s id = .ok (s', found))
    (rest : gather body s' ids = .ok (s'', more)) :
    gather body s (id :: ids) = .ok (s'', found ++ more) := by
  rw [gather, first]
  simp only [rest]
  rfl

theorem Sound.collectInternal {ids : List ReqId} (h : Sound s X)
    (distinct : ids.Pairwise fun a b => a = b → s.requestStates.get? a = none)
    (new : ∀ id ∈ ids, (s.requestStates.get? id).isSome → id ∉ X) :
    ∃ externalReqIds, gather (collectId true) s ids = .ok ({ s with externalReqIds }, ids) ∧
    Sound { s with externalReqIds } (ids ++ X) := by
  induction ids generalizing s X with
  | nil => exact ⟨s.externalReqIds, rfl, h⟩
  | cons id ids ih =>
    rw [pairwise_cons] at distinct
    have families : ∀ externalReqIds, Families { s with externalReqIds } := fun _ =>
      ⟨h.families.tracked, h.families.plain, h.families.distinct, h.families.child,
        h.families.parent⟩
    have collected : ∃ externalReqIds,
        collectId true s id = .ok ({ s with externalReqIds }, [id]) ∧
          External { s with externalReqIds } (id :: X) := by
      cases found : s.requestStates.get? id with
      | none =>
        refine ⟨s.externalReqIds, by simp only [collectId, found]; rfl, h.external.congr ?_⟩
        intro c alive
        rw [mem_cons]
        refine ⟨.inr, fun mem => mem.resolve_left ?_⟩
        rintro rfl
        rw [found] at alive
        cases alive
      | some st =>
        obtain ⟨left, removed, external⟩ := h.external.remove found
          (new id mem_cons_self (by rw [found]; rfl))
        refine ⟨left, ?_, external⟩
        simp only [collectId, found, removed]
        rfl
    obtain ⟨left, first, external⟩ := collected
    obtain ⟨last, rest, sound⟩ := @ih { s with externalReqIds := left } (id :: X)
      ⟨external, families left⟩ distinct.2 (by
        intro c mem alive inside
        rcases mem_cons.mp inside with rfl | old
        · rw [distinct.1 c mem rfl] at alive
          cases alive
        · exact new c (mem_cons_of_mem _ mem) alive old)
    refine ⟨last, gather_cons first rest, sound.external.congr fun c _ => ?_, sound.families⟩
    simp only [mem_append, mem_cons]
    exact or_left_comm.trans (or_assoc.symm)

theorem Sound.collectExternal (h : Sound s X) (ids : List ReqId) :
    ∃ externalReqIds found, gather (collectId false) s ids =
    .ok ({ s with externalReqIds }, found) ∧ Sound { s with externalReqIds } (found ++ X) ∧
    ∀ c ∈ found, ∃ st, s.requestStates.get? c = some st ∧ st.externalReqId ∈ ids := by
  induction ids generalizing s X with
  | nil => exact ⟨s.externalReqIds, [], rfl, h, nofun⟩
  | cons e ids ih =>
    have listed : ∀ c ∈ (s.externalReqIds.get? e).getD [], ∃ st,
        s.requestStates.get? c = some st ∧ st.externalReqId = e := by
      intro c mem
      rw [h.external.listed] at mem
      exact mem_live.mp (mem_of_mem_filter mem)
    have first : Sound { s with externalReqIds := s.externalReqIds.pop e }
        ((s.externalReqIds.get? e).getD [] ++ X) :=
      ⟨h.external.popExternal e, ⟨h.families.tracked, h.families.plain, h.families.distinct,
        h.families.child, h.families.parent⟩⟩
    obtain ⟨left, more, rest, sound, from_ids⟩ := ih first
    refine ⟨left, _, gather_cons rfl rest, ⟨sound.external.congr fun c _ => ?_,
      sound.families⟩, fun c mem => ?_⟩
    · simp only [mem_append]
      exact or_left_comm.trans or_assoc.symm
    · rcases mem_append.mp mem with here | later
      · obtain ⟨st, found, ext⟩ := listed c here
        exact ⟨st, found, ext ▸ mem_cons_self⟩
      · obtain ⟨st, found, ext⟩ := from_ids c later
        exact ⟨st, found, mem_cons_of_mem _ ext⟩

/-- What the recursion does to the children of a parent. -/
def Recurses (recurse : Processor → List ReqId → Except Processor (Processor × List ReqId)) :
    Prop :=
  ∀ s Y children, Sound s Y → children.Nodup →
    (∀ c ∈ children, s.parentRequests.get? c = none) →
    (∀ c ∈ children, (s.requestStates.get? c).isSome → c ∉ Y) →
    ∃ s' found, recurse s children = .ok (s', found) ∧ Sound s' Y ∧ Left s s' children []

/-- What an abort of some internal ids leaves. -/
structure Aborted (s s' : Processor) (ids : List ReqId) : Prop where
  left : ∃ gone parents, Left s s' gone parents ∧
    (∀ c ∈ gone, c ∈ ids ∨
      ∃ p ∈ ids, (s.parentRequests.get? p).isSome ∧ c ∈ s.childRequests p) ∧
    ∀ p ∈ parents, p ∈ ids
  dead : ∀ c ∈ ids, s'.requestStates.get? c = none ∧ s'.parentRequests.get? c = none

theorem Sound.abortState (h : Sound s (id :: Y)) (found : s.requestStates.get? id = some st) :
    ∃ s', Processor.abortId recurse order s id = .ok (s', [id]) ∧ Sound s' Y ∧
    Aborted s s' [id] := by
  have name := h.external.named id st found
  obtain ⟨children, hchildren⟩ : ∃ children, children =
      if st.hasQueue then finalChildren s.childRequests st (!st.hasDetokenizer)
      else s.childRequests := ⟨_, rfl⟩
  have ⟨popped, left⟩ := @Sound.pop s (id :: Y) id h mem_cons_self children (by
      intro p
      rw [hchildren]
      split
      · exact finalChildren_sublist ..
      · exact List.Sublist.refl _) (by
      intro p c mem other
      rw [hchildren]
      split
      · exact finalChildren_kept mem (name ▸ other)
      · exact mem)
  have gone : (s.requestStates.pop id).get? id = none := by rw [PyDict.get?_pop, if_pos rfl]
  have no_parent : s.parentRequests.get? id = none := by
    by_contra there
    have := h.families.parent id (Option.isSome_iff_ne_none.mpr there)
    rw [found] at this
    cases this
  refine ⟨_, ?_, ⟨popped.external.dead gone, popped.families⟩, ⟨[id], [], left,
    fun c mem => .inl mem, nofun⟩, fun c mem => ?_⟩
  · simp only [Processor.abortId, found, hchildren]
    split <;> rfl
  · cases mem_singleton.mp mem
    exact ⟨gone, no_parent⟩

theorem Sound.abortParent (h : Sound s (id :: Y)) (absent : s.requestStates.get? id = none)
    (there : s.parentRequests.get? id = some ()) (recurses : Recurses recurse)
    (new : ∀ c ∈ s.childRequests id, (s.requestStates.get? c).isSome → c ∉ id :: Y) :
    ∃ s' found, Processor.abortId recurse order s id = .ok (s', found) ∧ Sound s' Y ∧
    Aborted s s' [id] := by
  have perm := order.perm (s.childRequests id)
  have children : ∃ s₁ found, (if s.childRequests id = [] then .ok (s, [])
      else recurse s (order.order (s.childRequests id))) = .ok (s₁, found) ∧
      Sound s₁ (id :: Y) ∧ Left s s₁ (s.childRequests id) [] := by
    split
    next empty =>
      rw [empty]
      exact ⟨s, [], rfl, h, Left.refl s⟩
    next =>
      obtain ⟨s₁, found, done, sound, left⟩ := recurses s (id :: Y) _ h
        (perm.nodup_iff.mpr (h.families.distinct id))
        (fun c mem => (h.families.child id c (perm.mem_iff.mp mem)).1)
        (fun c mem => new c (perm.mem_iff.mp mem))
      refine ⟨s₁, found, done, sound, ?_⟩
      exact {
        states := fun c => by
          rw [left.states]
          exact if_congr perm.mem_iff rfl rfl
        parents := left.parents
        sublist := left.sublist
        kept := fun p c mem out => left.kept p c mem fun inside => out (perm.mem_iff.mp inside) }
  obtain ⟨s₁, found, done, sound, left⟩ := children
  have last : ∀ c ∈ s₁.childRequests id, s₁.requestStates.get? c = none := fun c mem => by
    rw [left.states, if_pos ((left.sublist id).subset mem)]
  have popped := sound.popParent last
  have gone : s₁.requestStates.get? id = none := by rw [left.states, absent, ite_self]
  refine ⟨_, found, ?_, ⟨popped.external.dead gone, popped.families⟩,
    ⟨_, _, left.trans (Left.parentOnly s₁ id), fun c mem => ?_, fun _ mem => mem⟩,
    fun c mem => ?_⟩
  · simp only [Processor.abortId, absent, there, done]
    rfl
  · rw [append_nil] at mem
    exact .inr ⟨id, mem_singleton_self id, by rw [there]; rfl, mem⟩
  · cases mem_singleton.mp mem
    exact ⟨gone, by simp only [PyDict.get?_pop, if_true]⟩

theorem Sound.abortId (h : Sound s (id :: Y))
    (recurses : (s.parentRequests.get? id).isSome → Recurses recurse)
    (new : ∀ c ∈ s.childRequests id, (s.requestStates.get? c).isSome → c ∉ id :: Y) :
    ∃ s' found, Processor.abortId recurse order s id = .ok (s', found) ∧ Sound s' Y ∧
    Aborted s s' [id] := by
  cases found : s.requestStates.get? id with
  | some st =>
    obtain ⟨s', done, sound, aborted⟩ := h.abortState order recurse found
    exact ⟨s', _, done, sound, aborted⟩
  | none =>
    cases there : s.parentRequests.get? id with
    | some _ => exact h.abortParent order recurse found there (recurses (by rw [there]; rfl)) new
    | none =>
      refine ⟨s, [], by simp only [Processor.abortId, found, there],
        ⟨h.external.dead found, h.families⟩, ⟨[], [], Left.refl s, nofun, nofun⟩, fun c mem => ?_⟩
      cases mem_singleton.mp mem
      exact ⟨found, there⟩

theorem Sound.abortLoop {ids : List ReqId} (h : Sound s (ids ++ Y))
    (recurses : (∃ p ∈ ids, (s.parentRequests.get? p).isSome) → Recurses recurse)
    (apart : ids.Pairwise fun a b => ∀ st, s.requestStates.get? b = some st → st.parentReq ≠ some a)
    (outer : ∀ p ∈ ids, ∀ c ∈ s.childRequests p, (s.requestStates.get? c).isSome → c ∉ Y) :
    ∃ s' found, gather (Processor.abortId recurse order) s ids = .ok (s', found) ∧ Sound s' Y ∧
    Aborted s s' ids := by
  induction ids generalizing s with
  | nil => exact ⟨s, [], rfl, h, ⟨[], [], Left.refl s, nofun, nofun⟩, nofun⟩
  | cons id ids ih =>
    rw [pairwise_cons] at apart
    have new : ∀ c ∈ s.childRequests id, (s.requestStates.get? c).isSome →
        c ∉ id :: (ids ++ Y) := by
      intro c mem alive inside
      obtain ⟨st, found⟩ := Option.isSome_iff_exists.mp alive
      have child := (h.families.child id c mem).2 st found
      have parent := (h.families.tracked c st id found child).2
      rcases mem_cons.mp inside with rfl | inside
      · rw [h.families.parent _ parent] at found
        cases found
      · rcases mem_append.mp inside with later | out
        · exact apart.1 c later st found child
        · exact outer id mem_cons_self c mem alive out
    obtain ⟨s₁, found, first, sound, aborted⟩ := h.abortId order recurse
      (fun there => recurses ⟨id, mem_cons_self, there⟩) new
    obtain ⟨gone, parents, left, from_ids, known⟩ := aborted.left
    obtain ⟨s₂, more, rest, sound₂, aborted₂⟩ := ih sound
      (fun ⟨p, mem, there⟩ => recurses ⟨p, mem_cons_of_mem _ mem,
        (left.parent_before there).1⟩)
      (apart.2.imp fun separate st found => separate st (left.before found).1)
      (fun p mem c listed alive => by
        obtain ⟨st, found⟩ := Option.isSome_iff_exists.mp alive
        exact outer p (mem_cons_of_mem _ mem) c ((left.sublist p).subset listed)
          (by rw [(left.before found).1]; rfl))
    obtain ⟨gone₂, parents₂, left₂, from_ids₂, known₂⟩ := aborted₂.left
    refine ⟨s₂, _, gather_cons first rest, sound₂,
      ⟨_, _, left.trans left₂, fun c mem => ?_, fun p mem => ?_⟩, fun c mem => ?_⟩
    · rcases mem_append.mp mem with now | later
      · rcases from_ids c now with here | ⟨p, here, there, listed⟩
        · cases mem_singleton.mp here
          exact .inl mem_cons_self
        · cases mem_singleton.mp here
          exact .inr ⟨id, mem_cons_self, there, listed⟩
      · rcases from_ids₂ c later with here | ⟨p, here, there, listed⟩
        · exact .inl (mem_cons_of_mem _ here)
        · exact .inr ⟨p, mem_cons_of_mem _ here, (left.parent_before there).1,
            (left.sublist p).subset listed⟩
    · rcases mem_append.mp mem with now | later
      · exact mem_singleton.mp (known p now) ▸ mem_cons_self
      · exact mem_cons_of_mem _ (known₂ p later)
    · rcases mem_cons.mp mem with rfl | later
      · have ⟨no_state, no_parent⟩ := aborted.dead c (mem_singleton_self c)
        rw [left₂.states, left₂.parents, no_state, no_parent, ite_self, ite_self]
        exact ⟨rfl, rfl⟩
      · exact aborted₂.dead c later

theorem recurses_abortRequests (depth : Nat) : Recurses (abortRequests order (depth + 1) true) := by
  intro s Y children h distinct no_parents new
  obtain ⟨left, collected, sound⟩ := h.collectInternal
    (distinct.imp fun ne same => absurd same ne) new
  have never : ∀ p ∈ children, ∀ c st, s.requestStates.get? c = some st →
      st.parentReq ≠ some p := by
    intro p mem c st found child
    have := (h.families.tracked c st p found child).2
    rw [no_parents p mem] at this
    cases this
  obtain ⟨s', found, done, sound', aborted⟩ := sound.abortLoop order (abortRequests order depth true)
    (by
      rintro ⟨p, mem, there⟩
      rw [show s.parentRequests.get? p = none from no_parents p mem] at there
      cases there)
    (pairwise_of_forall_mem_list fun p mem c _ st found => never p mem c st found)
    (by
      intro p mem c listed alive
      obtain ⟨st, found⟩ := Option.isSome_iff_exists.mp alive
      exact absurd ((h.families.child p c listed).2 st found) (never p mem c st found))
  obtain ⟨gone, parents, effect, from_ids, known⟩ := aborted.left
  have in_children : ∀ c ∈ gone, c ∈ children := by
    intro c mem
    rcases from_ids c mem with here | ⟨p, here, there, -⟩
    · exact here
    · rw [show s.parentRequests.get? p = none from no_parents p here] at there
      cases there
  refine ⟨s', found, ?_, sound', ?_⟩
  · rw [abortRequests, collected]
    exact done
  · exact {
      states := fun c => by
        split
        next mem => exact (aborted.dead c mem).1
        next out => exact (effect.states c).trans (if_neg fun mem => out (in_children c mem))
      parents := fun p => by
        rw [effect.parents, if_neg not_mem_nil]
        split
        next mem => exact (no_parents p (known p mem)).symm
        next => rfl
      sublist := effect.sublist
      kept := fun p c mem out => effect.kept p c mem fun inside => out (in_children c inside) }

end Abort

end Processor

end VllmAmpere.OutputProcessor
