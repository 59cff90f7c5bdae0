import VllmAmpere.OutputProcessor

/-! What the maps of `OutputProcessor` say about the requests in flight, and how each
operation on one request keeps it. -/

open List

namespace VllmAmpere.PyDict

variable {κ α : Type} [DecidableEq κ]

theorem items_pop (d : PyDict κ α) (key : κ) :
    (d.pop key).items = d.items.filter fun item => item.1 ≠ key :=
  rfl

theorem keys_filter_set (d : PyDict κ α) (P : κ × α → Bool) {key : κ} {old value : α}
    (found : d.get? key = some old) (same : P (key, value) = P (key, old)) :
    ((d.set key value).items.filter P).map Prod.fst = (d.items.filter P).map Prod.fst := by
  have replaced : ∀ items : List (κ × α), items.lookup key = some old →
      ((dictSet key value items).filter P).map Prod.fst = (items.filter P).map Prod.fst := by
    intro items
    induction items with
    | nil => exact nofun
    | cons item items ih =>
      intro there
      rw [lookup_cons_if] at there
      unfold dictSet
      split at there
      next here =>
        subst here
        rw [if_pos rfl, List.filter_cons, List.filter_cons]
        have first : P item = P (item.1, value) := by rw [same, ← Option.some.inj there]
        rw [first]
        split
        · rw [map_cons, map_cons]
        · rfl
      next other =>
        rw [if_neg (Ne.symm other), List.filter_cons, List.filter_cons]
        split
        · rw [map_cons, map_cons, ih there]
        · exact ih there
  exact replaced d.items found

end VllmAmpere.PyDict

namespace VllmAmpere.OutputProcessor

open ParallelSampling

namespace Processor

variable {s s' : Processor} {X Y : List ReqId} {id : ReqId} {st : RequestState}

/-- The requests in flight with an external id, in the order they were added. -/
def live (s : Processor) (externalReqId : ReqId) : List ReqId :=
  (s.requestStates.items.filter fun x => x.2.externalReqId = externalReqId).map Prod.fst

theorem mem_live {e c : ReqId} : c ∈ s.live e ↔
    ∃ st, s.requestStates.get? c = some st ∧ st.externalReqId = e := by
  simp only [live, mem_map, mem_filter, decide_eq_true_eq]
  constructor
  · rintro ⟨⟨c, st⟩, ⟨mem, ext⟩, rfl⟩
    exact ⟨st, (s.requestStates.mem_items c st).mp mem, ext⟩
  · rintro ⟨st, found, ext⟩
    exact ⟨(c, st), ⟨(s.requestStates.mem_items c st).mpr found, ext⟩, rfl⟩

theorem nodup_live (s : Processor) (e : ReqId) : (s.live e).Nodup :=
  s.requestStates.nodup.sublist (filter_sublist.map _)

/-- `external_req_ids` has the requests in flight, but not those in `X` that are
about to leave. -/
structure External (s : Processor) (X : List ReqId) : Prop where
  named : ∀ id st, s.requestStates.get? id = some st → st.requestId = id
  listed : ∀ e, (s.externalReqIds.get? e).getD [] = (s.live e).filter (· ∉ X)
  nonempty : ∀ e, s.externalReqIds.get? e ≠ some []

namespace External

theorem congr (h : External s X) (same : ∀ c, (s.requestStates.get? c).isSome →
    (c ∈ X ↔ c ∈ Y)) : External s Y := by
  refine ⟨h.named, fun e => (h.listed e).trans ?_, h.nonempty⟩
  refine filter_congr fun c mem => ?_
  obtain ⟨st, found, -⟩ := mem_live.mp mem
  have := same c (Option.isSome_iff_exists.mpr ⟨st, found⟩)
  simp only [this]

theorem dead (h : External s (id :: X)) (gone : s.requestStates.get? id = none) : External s X :=
  h.congr fun c alive => by
    rw [mem_cons]
    refine ⟨fun mem => mem.resolve_left ?_, .inr⟩
    rintro rfl
    rw [gone] at alive
    cases alive

theorem filter_cons (s : Processor) (X : List ReqId) (e : ReqId)
    (found : s.requestStates.get? id = some st) : (s.live e).filter (· ∉ id :: X) =
    if e = st.externalReqId then ((s.live e).filter (· ∉ X)).erase id
    else (s.live e).filter (· ∉ X) := by
  split
  next same =>
    have nodup : ((s.live e).filter (· ∉ X)).Nodup := (s.nodup_live e).filter _
    rw [nodup.erase_eq_filter, filter_filter]
    refine filter_congr fun c _ => ?_
    by_cases here : c = id <;> simp [here]
  next other =>
    refine filter_congr fun c inside => ?_
    have not_id : c ≠ id := by
      rintro rfl
      obtain ⟨st', found', ext⟩ := mem_live.mp inside
      rw [found] at found'
      cases found'
      exact other ext.symm
    simp [not_id]

theorem remove (h : External s X) (found : s.requestStates.get? id = some st) (new : id ∉ X) :
    ∃ externalReqIds, s.removeInternalId st.externalReqId id = .ok { s with externalReqIds } ∧
    External { s with externalReqIds } (id :: X) := by
  obtain ⟨ids, hids⟩ : ∃ ids, ids = (s.live st.externalReqId).filter (· ∉ X) := ⟨_, rfl⟩
  obtain ⟨left, hleft⟩ : ∃ left : PyDict ReqId (List ReqId), left =
      if ids.erase id = [] then s.externalReqIds.pop st.externalReqId
      else s.externalReqIds.set st.externalReqId (ids.erase id) := ⟨_, rfl⟩
  have mem : id ∈ ids := by
    rw [hids]
    exact mem_filter.mpr ⟨mem_live.mpr ⟨st, found, rfl⟩, decide_eq_true new⟩
  have at_key : ∀ e, left.get? e = if e = st.externalReqId then
      (if ids.erase id = [] then none else some (ids.erase id)) else s.externalReqIds.get? e := by
    intro e
    rw [hleft]
    split
    · rw [PyDict.get?_pop]
    · rw [PyDict.get?_set]
  refine ⟨left, ?_, h.named, fun e => ?_, fun e => ?_⟩
  · unfold removeInternalId
    rw [h.listed, ← hids, if_pos mem, hleft]
  · refine Eq.trans ?_ (filter_cons s X e found).symm
    show (left.get? e).getD [] = _
    rw [at_key]
    split
    next here =>
      rw [here, ← hids]
      split
      next last => exact last.symm
      next => rfl
    next => exact h.listed e
  · show left.get? e ≠ some []
    rw [at_key]
    split
    · split
      · simp
      next some_left => exact fun empty => some_left (Option.some.inj empty)
    · exact h.nonempty e

theorem popExternal (h : External s X) (e : ReqId) :
    External { s with externalReqIds := s.externalReqIds.pop e }
      ((s.externalReqIds.get? e).getD [] ++ X) := by
  refine ⟨h.named, fun e' => ?_, fun e' => ?_⟩
  · show ((s.externalReqIds.pop e).get? e').getD [] =
      (s.live e').filter (· ∉ (s.externalReqIds.get? e).getD [] ++ X)
    rw [PyDict.get?_pop, h.listed e]
    split
    next here =>
      subst here
      refine (filter_eq_nil_iff.mpr fun c mem out => ?_).symm
      have out := of_decide_eq_true out
      rw [mem_append, not_or, mem_filter] at out
      exact out.1 ⟨mem, decide_eq_true out.2⟩
    next other =>
      rw [h.listed e']
      refine filter_congr fun c inside => ?_
      have elsewhere : c ∉ (s.live e).filter (· ∉ X) := fun mem => by
        obtain ⟨st, found, ext⟩ := mem_live.mp inside
        obtain ⟨st', found', ext'⟩ := mem_live.mp (mem_of_mem_filter mem)
        rw [found] at found'
        cases found'
        exact other (ext.symm.trans ext')
      exact decide_eq_decide.mpr (not_congr (mem_append.trans (or_iff_right elsewhere)).symm)
  · show (s.externalReqIds.pop e).get? e' ≠ some []
    rw [PyDict.get?_pop]
    split
    · simp
    · exact h.nonempty e'

theorem popState (h : External s X) (out : id ∈ X) :
    External { s with requestStates := s.requestStates.pop id } X := by
  refine ⟨fun c st found => ?_, fun e => ?_, h.nonempty⟩
  · rw [PyDict.get?_pop] at found
    split at found
    · cases found
    · exact h.named c st found
  · refine (h.listed e).trans ?_
    have same : Processor.live { s with requestStates := s.requestStates.pop id } e =
        (s.live e).filter (· ≠ id) := by
      simp only [live, PyDict.items_pop, filter_filter, filter_map]
      congr 1
      refine filter_congr fun c _ => ?_
      rw [Bool.and_comm]
      rfl
    rw [same, filter_filter]
    refine filter_congr fun c _ => ?_
    by_cases here : c = id
    · simp [here, out]
    · simp [here]

theorem setState (h : External s X) {st' : RequestState}
    (found : s.requestStates.get? id = some st) (name : st'.requestId = id)
    (same : st'.externalReqId = st.externalReqId) : External (s.setState st') X := by
  refine ⟨fun c st found => ?_, fun e => ?_, h.nonempty⟩
  · simp only [Processor.setState, PyDict.get?_set] at found
    split at found
    next here =>
      cases found
      exact here.symm
    · exact h.named c st found
  · refine (h.listed e).trans ?_
    have kept : (s.setState st').live e = s.live e := by
      rw [live, Processor.setState, name]
      exact s.requestStates.keys_filter_set _ found (by rw [same])
    rw [kept]

theorem add (h : External s []) (new : s.requestStates.get? st.requestId = none)
    (parentRequests : PyDict ReqId Unit) :
    External { s with
      requestStates := s.requestStates.set st.requestId st
      parentRequests
      externalReqIds := s.externalReqIds.set st.externalReqId
        ((s.externalReqIds.get? st.externalReqId).getD [] ++ [st.requestId]) } [] := by
  have listed : ∀ e, (s.externalReqIds.get? e).getD [] = s.live e := fun e =>
    (h.listed e).trans (filter_eq_self.mpr fun _ _ => by simp)
  refine ⟨fun c st' found => ?_, fun e => ?_, fun e => ?_⟩
  · rw [PyDict.get?_set] at found
    split at found
    next here =>
      cases found
      exact here.symm
    · exact h.named c st' found
  · simp only [PyDict.get?_set, live, PyDict.items_set_new _ _ new, filter_append,
      map_append, not_mem_nil, not_false_eq_true, decide_true, filter_true]
    split
    next here =>
      rw [Option.getD_some, listed, here]
      congr 1
      simp
    next other =>
      rw [listed, live]
      simp [Ne.symm other]
  · simp only [PyDict.get?_set]
    split
    · simp
    · exact h.nonempty e

end External

end Processor

/-! Parent requests and their children while requests leave `OutputProcessor`. -/

namespace Processor

variable {s s' s'' : Processor} {X : List ReqId} {id : ReqId} {st : RequestState}

/-- Children in flight are in the set of their parent, and their parent is known. The
ids of requests, of children and of parents do not clash. -/
structure Families (s : Processor) : Prop where
  tracked : ∀ id st p, s.requestStates.get? id = some st → st.parentReq = some p →
    id ∈ s.childRequests p ∧ (s.parentRequests.get? p).isSome
  plain : ∀ id st p, s.requestStates.get? id = some st → st.parentReq = some p →
    st.streamingInput = false ∧ st.hasDetokenizer = true
  distinct : ∀ p, (s.childRequests p).Nodup
  child : ∀ p c, c ∈ s.childRequests p → s.parentRequests.get? c = none ∧
    ∀ st, s.requestStates.get? c = some st → st.parentReq = some p
  parent : ∀ p, (s.parentRequests.get? p).isSome → s.requestStates.get? p = none

/-- Requests and parents have left, and with the requests perhaps their ids in the sets
of their parents. -/
structure Left (s s' : Processor) (gone parents : List ReqId) : Prop where
  states : ∀ c, s'.requestStates.get? c = if c ∈ gone then none else s.requestStates.get? c
  parents : ∀ p, s'.parentRequests.get? p =
    if p ∈ parents then none else s.parentRequests.get? p
  sublist : ∀ p, (s'.childRequests p).Sublist (s.childRequests p)
  kept : ∀ p c, c ∈ s.childRequests p → c ∉ gone → c ∈ s'.childRequests p

namespace Left

theorem refl (s : Processor) : Left s s [] [] where
  states := fun _ => by simp
  parents := fun _ => by simp
  sublist := fun _ => List.Sublist.refl _
  kept := fun _ _ mem _ => mem

theorem trans {gone gone' parents parents' : List ReqId} (h : Left s s' gone parents)
    (h' : Left s' s'' gone' parents') : Left s s'' (gone ++ gone') (parents ++ parents') where
  states := by
    intro c
    rw [h'.states, h.states]
    by_cases first : c ∈ gone
    · rw [if_pos first, if_pos (mem_append_left _ first), ite_self]
    · simp only [mem_append, first, false_or, if_false]
  parents := by
    intro p
    rw [h'.parents, h.parents]
    by_cases first : p ∈ parents
    · rw [if_pos first, if_pos (mem_append_left _ first), ite_self]
    · simp only [mem_append, first, false_or, if_false]
  sublist := fun p => (h'.sublist p).trans (h.sublist p)
  kept := by
    intro p c mem left
    rw [mem_append, not_or] at left
    exact h'.kept p c (h.kept p c mem left.1) left.2

theorem parentOnly (s : Processor) (p : ReqId) :
    Left s { s with parentRequests := s.parentRequests.pop p } [] [p] where
  states := fun _ => by simp
  parents := fun q => by simp [PyDict.get?_pop]
  sublist := fun _ => List.Sublist.refl _
  kept := fun _ _ mem _ => mem

theorem before {gone parents : List ReqId} (h : Left s s' gone parents)
    (found : s'.requestStates.get? id = some st) :
    s.requestStates.get? id = some st ∧ id ∉ gone := by
  rw [h.states] at found
  split at found
  · cases found
  next left => exact ⟨found, left⟩

theorem parent_before {gone parents : List ReqId} (h : Left s s' gone parents) {p : ReqId}
    (there : (s'.parentRequests.get? p).isSome) :
    (s.parentRequests.get? p).isSome ∧ p ∉ parents := by
  rw [h.parents] at there
  split at there
  · cases there
  next left => exact ⟨there, left⟩

end Left

theorem Families.left {gone parents : List ReqId} (h : Families s) (l : Left s s' gone parents)
    (last : ∀ id st p, s.requestStates.get? id = some st → st.parentReq = some p →
      id ∉ gone → p ∉ parents) : Families s' where
  tracked := by
    intro id st p found child
    obtain ⟨found, alive⟩ := l.before found
    have ⟨mem, there⟩ := h.tracked id st p found child
    refine ⟨l.kept p id mem alive, ?_⟩
    rw [l.parents, if_neg (last id st p found child alive)]
    exact there
  plain := fun id st p found child => h.plain id st p (l.before found).1 child
  distinct := fun p => (h.distinct p).sublist (l.sublist p)
  child := by
    intro p c mem
    have ⟨no_parent, own⟩ := h.child p c ((l.sublist p).subset mem)
    refine ⟨?_, fun st found => own st (l.before found).1⟩
    rw [l.parents, no_parent, ite_self]
  parent := by
    intro p there
    rw [l.states, h.parent p (l.parent_before there).1, ite_self]

theorem finalChildren_sublist (childRequests : ReqId → List ReqId) (st : RequestState)
    (isPooling : Bool) (p : ReqId) :
    (finalChildren childRequests st isPooling p).Sublist (childRequests p) := by
  unfold finalChildren
  split
  · exact List.Sublist.refl _
  · cases st.parentReq with
    | none => exact List.Sublist.refl _
    | some parent =>
      simp only [Function.update_apply]
      split
      next here =>
        subst here
        exact removeChild_sublist ..
      next => exact List.Sublist.refl _

theorem finalChildren_kept {childRequests : ReqId → List ReqId} {isPooling : Bool} {p c : ReqId}
    (mem : c ∈ childRequests p) (other : c ≠ st.requestId) :
    c ∈ finalChildren childRequests st isPooling p := by
  unfold finalChildren
  split
  · exact mem
  · cases st.parentReq with
    | none => exact mem
    | some parent =>
      simp only [Function.update_apply]
      split
      next here =>
        subst here
        unfold removeChild
        rw [if_pos rfl]
        split
        · exact (mem_erase_of_ne other).mpr mem
        · exact mem
      next => exact mem

/-- The ids of external requests and those of parents are right. -/
structure Sound (s : Processor) (X : List ReqId) : Prop where
  external : External s X
  families : Families s

theorem Sound.pop (h : Sound s X) (out : id ∈ X) {childRequests : ReqId → List ReqId}
    (sublist : ∀ p, (childRequests p).Sublist (s.childRequests p))
    (kept : ∀ p c, c ∈ s.childRequests p → c ≠ id → c ∈ childRequests p) :
    Sound { s with requestStates := s.requestStates.pop id, childRequests } X ∧
      Left s { s with requestStates := s.requestStates.pop id, childRequests } [id] [] := by
  have left : Left s { s with requestStates := s.requestStates.pop id, childRequests } [id] [] := {
    states := fun c => by simp [PyDict.get?_pop]
    parents := fun p => by simp
    sublist := sublist
    kept := fun p c mem alive => kept p c mem fun e => alive (mem_singleton.mpr e) }
  have popped := h.external.popState out
  exact ⟨⟨⟨popped.named, popped.listed, popped.nonempty⟩,
    h.families.left left fun _ _ _ _ _ _ => not_mem_nil⟩, left⟩

theorem Sound.popParent (h : Sound s X) {p : ReqId}
    (last : ∀ c ∈ s.childRequests p, s.requestStates.get? c = none) :
    Sound { s with parentRequests := s.parentRequests.pop p } X := by
  refine ⟨⟨h.external.named, h.external.listed, h.external.nonempty⟩,
    h.families.left (Left.parentOnly s p) ?_⟩
  rintro id st q found child - mem
  cases mem_singleton.mp mem
  have := last id (h.families.tracked id st _ found child).1
  rw [found] at this
  cases this

end Processor

end VllmAmpere.OutputProcessor
