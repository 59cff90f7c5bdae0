import Mathlib
import VllmAmpere.OutputCalls
import VllmAmpere.TransitionSystem

/-! The runs of `OutputProcessor`: the maps are exact, unless a call takes the last
child of a parent and leaves the parent. -/

open List

namespace VllmAmpere.OutputProcessor

open ParallelSampling

section Names

theorem childId_injective {i j : Nat} {p : ReqId} (same : childId i p = childId j p) : i = j := by
  have chars := congrArg String.toList same
  simp only [childId, String.toList_append, append_assoc] at chars
  exact Nat.repr_injective (String.toList_inj.mp (append_cancel_right chars))

theorem childId_ne (i : Nat) (p : ReqId) : childId i p ≠ p := by
  intro same
  have length := congrArg String.length same
  simp only [childId, String.length_append] at length
  have one : "_".length = 1 := rfl
  omega

end Names

namespace Processor

variable {s s' : Processor} {id : ReqId} {st : RequestState}

def Unused (s : Processor) (id : ReqId) : Prop :=
  s.requestStates.get? id = none ∧ s.parentRequests.get? id = none ∧ ∀ p, id ∉ s.childRequests p

section Adding

theorem Backed.of_states (backed : Backed s) (parents : s'.parentRequests = s.parentRequests)
    (states : ∀ c st, s.requestStates.get? c = some st → st.parentReq ≠ none →
    s'.requestStates.get? c = some st) : Backed s' := by
  intro p there
  rw [parents] at there
  obtain ⟨c, st, found, child⟩ := backed p there
  exact ⟨c, st, states c st found (by rw [child]; exact nofun), child⟩

theorem Sound.finishSingle (h : Sound s []) (backed : Backed s)
    (found : s.requestStates.get? id = some st) (single : st.parentReq = none) :
    ∃ s', s.finishRequest st = .ok s' ∧ Sound s' [] ∧ Backed s' := by
  have name := h.external.named id st found
  obtain ⟨s', done, finished⟩ := h.finish found (fun p => List.Sublist.refl _)
    (fun p c mem _ => mem) (fun p parent => by rw [single] at parent; cases parent)
  refine ⟨s', done, finished.sound, fun p there => ?_⟩
  obtain ⟨parents, left, -⟩ := finished.left
  obtain ⟨c, stc, foundc, child⟩ := backed p (left.parent_before there).1
  have other : c ≠ st.requestId := by
    rintro rfl
    rw [name, found] at foundc
    cases foundc
    rw [single] at child
    cases child
  exact ⟨c, stc, (finished.others other).trans foundc, child⟩

theorem Sound.update (h : Sound s []) (backed : Backed s) (request : EngineCoreRequest)
    (found : s.requestStates.get? id = some st) (single : st.parentReq = none) :
    ∃ s', s.updateStreamingRequestState st request = .ok s' ∧ Sound s' [] ∧ Backed s' := by
  have name := h.external.named id st found
  have changed : ∀ st' : RequestState, st'.requestId = id →
      st'.externalReqId = st.externalReqId → kind st' = kind st →
      ∃ s', Except.ok (s.setState st') = (.ok s' : Except Processor Processor) ∧
        Sound s' [] ∧ Backed s' := by
    intro st' name same kinds
    have ⟨sound, quiet⟩ := h.setState st' found name same single kinds
    exact ⟨_, rfl, sound, quiet.backed backed⟩
  unfold updateStreamingRequestState
  split
  · exact h.finishSingle backed found single
  · exact changed _ name rfl rfl
  · exact changed _ name rfl rfl
  · exact changed _ name rfl rfl
  · exact changed _ name rfl rfl

variable {request : EngineCoreRequest}

theorem Sound.addSingle (h : Sound s []) (backed : Backed s)
    (unused : Unused s request.requestId) (hasQueue : Bool) :
    ∃ s', s.addRequest request none hasQueue = .ok s' ∧ Sound s' [] ∧ Backed s' := by
  obtain ⟨new, no_parent, no_child⟩ := unused
  obtain ⟨st, hst⟩ : ∃ st, st = fromNewRequest request none hasQueue := ⟨_, rfl⟩
  have single : st.parentReq = none := hst ▸ rfl
  have name : st.requestId = request.requestId := hst ▸ rfl
  have ext : st.externalReqId = request.externalReqId := hst ▸ rfl
  have external := h.external.add (name ▸ new) s.parentRequests
  rw [name, ext] at external
  have at_key : ∀ c, (s.requestStates.set request.requestId st).get? c =
      if c = request.requestId then some st else s.requestStates.get? c := fun c =>
    PyDict.get?_set ..
  have others : ∀ c st' p, (s.requestStates.set request.requestId st).get? c = some st' →
      st'.parentReq = some p → s.requestStates.get? c = some st' := by
    intro c st' p found child
    rw [at_key] at found
    split at found
    · cases found
      rw [single] at child
      cases child
    · exact found
  refine ⟨_, by simp only [addRequest, new, ← hst], ⟨external, ?_⟩, ?_⟩
  · exact {
      tracked := fun c st' p found child =>
        h.families.tracked c st' p (others c st' p found child) child
      plain := fun c st' p found child =>
        h.families.plain c st' p (others c st' p found child) child
      distinct := h.families.distinct
      child := by
        intro p c mem
        obtain ⟨plain, own⟩ := h.families.child p c mem
        have not_new : c ≠ request.requestId := by
          rintro rfl
          exact no_child p mem
        refine ⟨plain, fun st' found => ?_⟩
        rw [at_key, if_neg not_new] at found
        exact own st' found
      parent := by
        intro p there
        have not_new : p ≠ request.requestId := by
          rintro rfl
          rw [show s.parentRequests.get? request.requestId = none from no_parent] at there
          cases there
        rw [at_key, if_neg not_new]
        exact h.families.parent p there }
  · refine backed.of_states rfl fun c st' found _ => ?_
    have not_new : c ≠ request.requestId := by
      rintro rfl
      rw [new] at found
      cases found
    rw [at_key, if_neg not_new]
    exact found

/-- The names that a fan-out needs. -/
structure FanNames (s : Processor) (p : ReqId) (indices : List Nat) : Prop where
  state : s.requestStates.get? p = none
  listed : ∀ q, p ∉ s.childRequests q
  children : ∀ i ∈ indices, Unused s (childId i p)

section

variable (h : Sound s []) (backed : Backed s) (generative : request.isPooling = false)
  (single : request.resumable = false) (hasQueue : Bool)
include h backed generative single hasQueue

theorem Sound.addChild {i : Nat} {rest : List Nat}
    (names : FanNames s request.requestId (i :: rest)) (new : i ∉ rest) :
    ∃ s', addChildRequest request hasQueue s i = .ok s' ∧ Sound s' [] ∧ Backed s' ∧
    FanNames s' request.requestId rest := by
  obtain ⟨p, hp⟩ : ∃ p, p = request.requestId := ⟨_, rfl⟩
  obtain ⟨c, hc⟩ : ∃ c, c = childId i p := ⟨_, rfl⟩
  rw [← hp] at names ⊢
  obtain ⟨new_state, new_parent, new_child⟩ : Unused s c :=
    hc ▸ names.children i mem_cons_self
  have other : c ≠ p := hc ▸ childId_ne i p
  obtain ⟨st, hst⟩ : ∃ st, st = fromNewRequest { request with requestId := c } (some p) hasQueue :=
    ⟨_, rfl⟩
  have child : st.parentReq = some p := hst ▸ rfl
  have name : st.requestId = c := hst ▸ rfl
  have ext : st.externalReqId = request.externalReqId := hst ▸ rfl
  have external := h.external.add (name ▸ new_state) (s.parentRequests.set p ())
  rw [name, ext] at external
  obtain ⟨sets, hsets⟩ : ∃ sets, sets = Function.update s.childRequests p
      (ParallelSampling.addChild (s.childRequests p) c) := ⟨_, rfl⟩
  have mem_sets : ∀ q d, d ∈ sets q ↔ d ∈ s.childRequests q ∨ q = p ∧ d = c := by
    intro q d
    rw [hsets, Function.update_apply]
    split
    next here => simp [here, mem_addChild]
    next there => simp [there]
  have at_key : ∀ d, (s.requestStates.set c st).get? d =
      if d = c then some st else s.requestStates.get? d := fun d => PyDict.get?_set ..
  have at_parent : ∀ q, (s.parentRequests.set p ()).get? q =
      if q = p then some () else s.parentRequests.get? q := fun q => PyDict.get?_set ..
  have kept : ∀ d st', s.requestStates.get? d = some st' →
      (s.requestStates.set c st).get? d = some st' := by
    intro d st' found
    rw [at_key, if_neg, found]
    rintro rfl
    rw [new_state] at found
    cases found
  obtain ⟨s', hs'⟩ : ∃ s' : Processor, s' = {
      requestStates := s.requestStates.set c st
      parentRequests := s.parentRequests.set p ()
      externalReqIds := s.externalReqIds.set request.externalReqId
        ((s.externalReqIds.get? request.externalReqId).getD [] ++ [c])
      childRequests := sets } := ⟨_, rfl⟩
  have families : Families s' := by
    rw [hs']
    exact {
      tracked := by
        intro d st' q found parent
        simp only [at_key, at_parent, mem_sets] at found ⊢
        split at found
        next here =>
          cases found
          rw [child] at parent
          cases parent
          exact ⟨.inr ⟨rfl, here⟩, by simp⟩
        next =>
          obtain ⟨mem, there⟩ := h.families.tracked d st' q found parent
          exact ⟨.inl mem, by split; rfl; exact there⟩
      plain := by
        intro d st' q found parent
        simp only [at_key] at found
        split at found
        · cases found
          rw [hst]
          exact ⟨single, by simp [fromNewRequest, generative]⟩
        · exact h.families.plain d st' q found parent
      distinct := by
        intro q
        simp only [hsets, Function.update_apply]
        split
        · exact nodup_addChild (h.families.distinct p) c
        · exact h.families.distinct q
      child := by
        intro q d mem
        simp only [mem_sets] at mem
        simp only [at_key, at_parent]
        rcases mem with old | ⟨rfl, rfl⟩
        · obtain ⟨plain, own⟩ := h.families.child q d old
          have not_parent : d ≠ p := by
            rintro rfl
            exact names.listed q old
          have not_new : d ≠ c := by
            rintro rfl
            exact new_child q old
          rw [if_neg not_parent, if_neg not_new]
          exact ⟨plain, own⟩
        · refine ⟨by rw [if_neg other]; exact new_parent, fun st' found => ?_⟩
          rw [if_pos rfl] at found
          cases found
          exact child
      parent := by
        intro q there
        simp only [at_key, at_parent] at there ⊢
        split at there
        next here => rw [here, if_neg other.symm, names.state]
        next =>
          rw [if_neg, h.families.parent q there]
          rintro rfl
          rw [new_parent] at there
          cases there }
  have backed' : Backed s' := by
    intro q there
    simp only [hs', at_parent] at there ⊢
    split at there
    next here =>
      exact ⟨c, st, by rw [at_key, if_pos rfl], here ▸ child⟩
    next =>
      obtain ⟨d, st', found, parent⟩ := backed q there
      exact ⟨d, st', kept d st' found, parent⟩
  have names' : FanNames s' p rest := by
    rw [hs']
    refine ⟨?_, fun q mem => ?_, fun j mem => ?_⟩
    · simp only [at_key, if_neg other.symm, names.state]
    · rcases (mem_sets q p).mp mem with old | ⟨-, same⟩
      · exact names.listed q old
      · exact other same.symm
    · obtain ⟨free, no_parent, no_child⟩ := names.children j (mem_cons_of_mem _ mem)
      have apart : childId j p ≠ c := by
        rw [hc]
        exact fun same => new (childId_injective same ▸ mem)
      refine ⟨by simp only [at_key, if_neg apart, free],
        by simp only [at_parent, if_neg (childId_ne j p), no_parent], fun q listed => ?_⟩
      rcases (mem_sets q _).mp listed with old | ⟨-, same⟩
      · exact no_child q old
      · exact apart same
  refine ⟨s', ?_, ⟨?_, families⟩, backed', names'⟩
  · simp only [addChildRequest, addRequest, ← hp, ← hc, ← hsets, new_state, ← hst, hs']
  · rw [hs']
    exact ⟨external.named, external.listed, external.nonempty⟩

theorem Sound.addChildren {indices : List Nat} (names : FanNames s request.requestId indices)
    (distinct : indices.Nodup) :
    ∃ s', indices.foldlM (addChildRequest request hasQueue) s = .ok s' ∧ Sound s' [] ∧
    Backed s' := by
  induction indices generalizing s with
  | nil => exact ⟨s, rfl, h, backed⟩
  | cons i rest ih =>
    rw [nodup_cons] at distinct
    obtain ⟨s₁, first, sound, backed₁, names₁⟩ :=
      h.addChild backed generative single hasQueue names distinct.1
    obtain ⟨s', rest, done⟩ := ih sound backed₁ names₁ distinct.2
    refine ⟨s', ?_, done⟩
    rw [foldlM_cons, first]
    exact rest

end

end Adding

section Calls

/-- What the callers promise: new names are new, children are neither pooling nor
streaming requests, and pooling outputs are those of pooling requests. -/
def Promised (s : Processor) : Call → Prop
  | .add request _ => Unused s request.requestId ∨
    ∃ st, s.requestStates.get? request.requestId = some st ∧ st.parentReq = none
  | .addChildren request n _ => request.isPooling = false ∧ request.resumable = false ∧
    FanNames s request.requestId (List.range n)
  | .process outputs => Fits s outputs
  | .abort _ _ _ => True

/-- The condition under which no parent stays behind: an abort of the last children of a
parent names the parent's internal id, behind those of the children, and no internal id
twice; a parent whose set has kept an aborted child keeps a child in flight. -/
def KeepsFamilies (s : Processor) : Call → Prop
  | .add _ _ | .addChildren _ _ _ => True
  | .process outputs => KeepsChild s outputs
  | .abort requestIds internal _ =>
    (internal = true → requestIds.Pairwise fun a b =>
      ∀ st, s.requestStates.get? b = some st → a ≠ b ∧ st.parentReq ≠ some a) ∧
    ∀ p, (s.parentRequests.get? p).isSome → internal = true ∧ p ∈ requestIds ∨
      ∃ c st, s.requestStates.get? c = some st ∧ st.parentReq = some p ∧
        (if internal then c else st.externalReqId) ∉ requestIds

variable {ids : List ReqId}

theorem Sound.backed_after (h : Sound s []) (aborted : Aborted s s' ids)
    (keeps : ∀ p, (s.parentRequests.get? p).isSome → p ∈ ids ∨
    ∃ c st, s.requestStates.get? c = some st ∧ st.parentReq = some p ∧ c ∉ ids) : Backed s' := by
  obtain ⟨gone, parents, left, from_ids, -⟩ := aborted.left
  intro p there
  have before := (left.parent_before there).1
  have not_named : p ∉ ids := fun mem => by
    rw [(aborted.dead p mem).2] at there
    cases there
  obtain ⟨c, st, found, child, out⟩ := (keeps p before).resolve_left not_named
  have alive : c ∉ gone := by
    intro mem
    rcases from_ids c mem with here | ⟨q, here, -, listed⟩
    · exact out here
    · have := (h.families.child q c listed).2 st found
      rw [child] at this
      exact not_named (Option.some.inj this ▸ here)
  exact ⟨c, st, by rw [left.states, if_neg alive, found], child⟩

theorem Aborted.of_external {externalReqIds : PyDict ReqId (List ReqId)}
    (h : Aborted { s with externalReqIds } s' ids) : Aborted s s' ids := by
  obtain ⟨gone, parents, left, rest⟩ := h.left
  exact ⟨⟨gone, parents, ⟨left.states, left.parents, left.sublist, left.kept⟩, rest⟩, h.dead⟩

theorem Sound.abortInternal (h : Sound s []) (order : SetOrder)
    (keeps : KeepsFamilies s (.abort ids true order)) :
    ∃ s' found, s.abortRequests order (s.parentRequests.len + 2) true ids = .ok (s', found) ∧
    Sound s' [] ∧ Backed s' := by
  obtain ⟨apart, covered⟩ := keeps
  have apart := apart rfl
  obtain ⟨left, collected, sound⟩ := h.collectInternal
    (apart.imp fun separate same => by
      by_contra alive
      obtain ⟨st, found⟩ := Option.ne_none_iff_exists'.mp alive
      exact (separate st (same ▸ found)).1 same) fun _ _ _ => not_mem_nil
  obtain ⟨s', found, done, sound', aborted⟩ := sound.abortLoop order
    (abortRequests order (s.parentRequests.len + 1) true)
    (fun _ => recurses_abortRequests order _)
    (apart.imp fun separate st found => (separate st found).2) fun _ _ _ _ _ => not_mem_nil
  refine ⟨s', found, ?_, sound', ?_⟩
  · rw [abortRequests, collected]
    exact done
  · refine h.backed_after aborted.of_external fun p there => ?_
    refine (covered p there).imp And.right fun held => ?_
    obtain ⟨c, st, found, child, out⟩ := held
    exact ⟨c, st, found, child, out⟩

theorem Sound.abortExternal (h : Sound s []) (order : SetOrder)
    (keeps : KeepsFamilies s (.abort ids false order)) :
    ∃ s' found, s.abortRequests order (s.parentRequests.len + 2) false ids = .ok (s', found) ∧
    Sound s' [] ∧ Backed s' := by
  obtain ⟨left, internalIds, collected, sound, from_ids⟩ := h.collectExternal ids
  have no_parents : ∀ c ∈ internalIds, s.parentRequests.get? c = none := by
    intro c mem
    obtain ⟨st, found, -⟩ := from_ids c mem
    by_contra there
    rw [h.families.parent c (Option.isSome_iff_ne_none.mpr there)] at found
    cases found
  have never : ∀ p ∈ internalIds, ∀ c st, s.requestStates.get? c = some st →
      st.parentReq ≠ some p := by
    intro p mem c st found child
    have := (h.families.tracked c st p found child).2
    rw [no_parents p mem] at this
    cases this
  obtain ⟨s', found, done, sound', aborted⟩ := sound.abortLoop order
    (abortRequests order (s.parentRequests.len + 1) true)
    (fun _ => recurses_abortRequests order _)
    (pairwise_of_forall_mem_list fun p mem c _ st found => never p mem c st found)
    fun _ _ _ _ _ => not_mem_nil
  refine ⟨s', found, ?_, sound', ?_⟩
  · rw [abortRequests, collected]
    exact done
  · refine h.backed_after aborted.of_external fun p there => .inr ?_
    obtain ⟨c, st, found, child, out⟩ := (keeps.2 p there).resolve_left fun both => by cases both.1
    refine ⟨c, st, found, child, fun mem => ?_⟩
    obtain ⟨st', found', ext⟩ := from_ids c mem
    rw [found] at found'
    cases found'
    exact out ext

theorem Sound.call (h : Sound s []) (backed : Backed s) (call : Call)
    (promised : Promised s call) (keeps : KeepsFamilies s call) :
    ∃ s', s.call call = .ok s' ∧ Sound s' [] ∧ Backed s' := by
  cases call with
  | add request hasQueue =>
    rcases promised with unused | ⟨st, found, single⟩
    · exact h.addSingle backed unused hasQueue
    · obtain ⟨s', done, rest⟩ := h.update backed request found single
      refine ⟨s', ?_, rest⟩
      simp only [Processor.call, addRequest, found, done]
  | addChildren request n hasQueue =>
    obtain ⟨generative, single, names⟩ := promised
    exact h.addChildren backed generative single hasQueue names nodup_range
  | process outputs => exact h.process backed promised keeps
  | abort ids internal order =>
    cases internal with
    | true =>
      obtain ⟨s', found, done, rest⟩ := h.abortInternal order keeps
      exact ⟨s', by rw [Processor.call, done]; rfl, rest⟩
    | false =>
      obtain ⟨s', found, done, rest⟩ := h.abortExternal order keeps
      exact ⟨s', by rw [Processor.call, done]; rfl, rest⟩

end Calls

/-- The runs of a processor; a call that raises leaves the state behind where it raised. -/
def runs : TransitionSystem Processor Call where
  init s := s = empty
  step s call s' := Promised s call ∧ (s.call call = .ok s' ∨ s.call call = .error s')

/-- The maps say which requests are in flight, and nothing else. -/
structure Exact (s : Processor) : Prop where
  external : ∀ e, (s.externalReqIds.get? e).getD [] = s.live e
  nonempty : ∀ e, s.externalReqIds.get? e ≠ some []
  parents : ∀ p, (s.parentRequests.get? p).isSome ↔
    ∃ c st, s.requestStates.get? c = some st ∧ st.parentReq = some p
  drained : s.requestStates.items = [] →
    s.externalReqIds.items = [] ∧ s.parentRequests.items = []

theorem Sound.exact (h : Sound s []) (backed : Backed s) : Exact s := by
  have external : ∀ e, (s.externalReqIds.get? e).getD [] = s.live e := fun e =>
    (h.external.listed e).trans (filter_eq_self.mpr fun _ _ => by simp)
  refine ⟨external, h.external.nonempty, fun p => ⟨backed p, ?_⟩, fun drained => ⟨?_, ?_⟩⟩
  · rintro ⟨c, st, found, child⟩
    exact (h.families.tracked c st p found child).2
  · refine s.externalReqIds.items_eq_nil fun e => ?_
    have none_live : s.live e = [] := by rw [live, drained]; rfl
    have listed := external e
    rw [none_live] at listed
    cases found : s.externalReqIds.get? e with
    | none => rfl
    | some ids =>
      rw [found, Option.getD_some] at listed
      exact absurd (listed ▸ found) (h.external.nonempty e)
  · refine s.parentRequests.items_eq_nil fun p => ?_
    by_contra there
    obtain ⟨c, st, found, -⟩ := backed p (Option.isSome_iff_ne_none.mpr there)
    rw [← PyDict.mem_items, drained] at found
    cases found

/-- In a run whose calls all keep the families the maps are exact after each call. -/
theorem reachable_exact (h : (runs.meeting KeepsFamilies).Reachable s) : Exact s := by
  have inv : Sound s [] ∧ Backed s := by
    refine h.invariant (P := fun s => Sound s [] ∧ Backed s) ?_ ?_
    · rintro s rfl
      exact ⟨⟨⟨nofun, fun _ => rfl, fun _ => nofun⟩, nofun, nofun, fun _ => nodup_nil,
        nofun, nofun⟩, nofun⟩
    · rintro s call s' - ⟨sound, backed⟩ ⟨keeps, promised, done⟩
      obtain ⟨t, ok, rest⟩ := sound.call backed call promised keeps
      rw [ok] at done
      rcases done with same | raised
      · cases same
        exact rest
      · cases raised
  exact inv.1.exact inv.2

section Fanned

def fanned : EngineCoreRequest := ⟨"p", "e", false, false⟩

def sameOrder : SetOrder := ⟨fun ids => ids, fun _ => List.Perm.refl _⟩

def fannedOut : Except Processor Processor := empty.call (.addChildren fanned 2 true)

def abortedRun (requestIds : List ReqId) (internal : Bool) : Except Processor Processor :=
  fannedOut.bind fun s => s.call (.abort requestIds internal sameOrder)

theorem promised_fanned : Promised empty (.addChildren fanned 2 true) :=
  ⟨rfl, rfl, rfl, fun _ => not_mem_nil, fun _ _ => ⟨rfl, rfl, fun _ => not_mem_nil⟩⟩

theorem ok_of_map {α : Type} {x : Except Processor Processor} {f : Processor → α} {a : α}
    (h : x.toOption.map f = some a) : ∃ s, x = .ok s ∧ f s = a := by
  cases x with
  | error s => cases h
  | ok s => exact ⟨s, rfl, Option.some.inj h⟩

theorem reachable_exact_aborted : ∃ s, abortedRun ["p"] true = .ok s ∧ Exact s ∧
    s.requestStates.items = [] ∧ s.parentRequests.items = [] := by
  obtain ⟨t, first, parents⟩ := ok_of_map (x := fannedOut)
    (f := fun s => s.parentRequests.items) (a := [("p", ())]) (by decide +kernel)
  obtain ⟨s, run, states⟩ := ok_of_map (x := abortedRun ["p"] true)
    (f := fun s => s.requestStates.items) (a := []) (by decide +kernel)
  have second : t.call (.abort ["p"] true sameOrder) = .ok s := by
    rw [abortedRun, first] at run
    exact run
  have covered : KeepsFamilies t (.abort ["p"] true sameOrder) := by
    refine ⟨fun _ => pairwise_singleton .., fun p there => .inl ⟨rfl, ?_⟩⟩
    have mem := (t.parentRequests.mem_items p ()).mpr (Option.isSome_iff_exists.mp there).choose_spec
    rw [parents] at mem
    cases mem_singleton.mp mem
    exact mem_singleton_self _
  have added : (runs.meeting KeepsFamilies).step empty (.addChildren fanned 2 true) t :=
    ⟨trivial, promised_fanned, .inl first⟩
  have aborted : (runs.meeting KeepsFamilies).step t (.abort ["p"] true sameOrder) s :=
    ⟨covered, trivial, .inl second⟩
  have exact := reachable_exact (.step (.step (.init rfl) added) aborted)
  exact ⟨s, run, exact, states, (exact.drained states).2⟩

/-- An abort by the external id takes both children, and their parent stays. -/
theorem aborted_parent_stays : ∃ s, runs.Reachable s ∧ s.requestStates.items = [] ∧
    s.parentRequests.items = [("p", ())] ∧ ¬Exact s := by
  obtain ⟨t, first, -⟩ := ok_of_map (x := fannedOut) (f := fun _ => ()) (a := ())
    (by decide +kernel)
  obtain ⟨s, run, maps⟩ := ok_of_map (x := abortedRun ["e"] false)
    (f := fun s => (s.requestStates.items, s.parentRequests.items)) (a := ([], [("p", ())]))
    (by decide +kernel)
  have second : t.call (.abort ["e"] false sameOrder) = .ok s := by
    rw [abortedRun, first] at run
    exact run
  have added : runs.step empty (.addChildren fanned 2 true) t := ⟨promised_fanned, .inl first⟩
  have aborted : runs.step t (.abort ["e"] false sameOrder) s := ⟨trivial, .inl second⟩
  obtain ⟨states, parents⟩ := Prod.mk.inj maps
  refine ⟨s, .step (.step (.init rfl) added) aborted, states, parents, fun exact => ?_⟩
  rw [(exact.drained states).2] at parents
  cases parents

end Fanned

end Processor

end VllmAmpere.OutputProcessor
