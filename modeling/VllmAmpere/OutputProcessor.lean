import Mathlib.Data.List.Nodup
import VllmAmpere.PyDict

/-! `ParentRequest`: the child requests of a request that samples several outputs. -/

namespace VllmAmpere.ParallelSampling

abbrev ReqId := String

inductive RequestOutputKind
  | cumulative
  | delta
  | finalOnly
  deriving DecidableEq, Repr

inductive FinishReason
  | stop
  | length
  | abort
  | error
  | repetition
  deriving DecidableEq, Repr

/-- `f"{index}_{request_id}"`. -/
def childId (index : Nat) (requestId : ReqId) : ReqId := Nat.repr index ++ "_" ++ requestId

/-- `child_requests.add`, for the set of the child requests that have not finished. -/
def addChild (childRequests : List ReqId) (id : ReqId) : List ReqId :=
  if id ∈ childRequests then childRequests else childRequests ++ [id]

/-- What `get_outputs` does to the set for a completion that has finished or not, and
whether the completion had finished and was returned before. -/
def removeChild (childRequests : List ReqId) (id : ReqId) (finished : Bool) :
    List ReqId × Bool :=
  if finished then
    if id ∈ childRequests then (childRequests.erase id, false) else (childRequests, true)
  else (childRequests, false)

variable {childRequests : List ReqId}

theorem mem_addChild {id c : ReqId} :
    c ∈ addChild childRequests id ↔ c ∈ childRequests ∨ c = id := by
  unfold addChild
  split
  next mem =>
    refine ⟨.inl, ?_⟩
    rintro (old | rfl)
    · exact old
    · exact mem
  next => rw [List.mem_append, List.mem_singleton]

theorem nodup_addChild (h : childRequests.Nodup) (id : ReqId) :
    (addChild childRequests id).Nodup := by
  unfold addChild
  split
  · exact h
  next new =>
    refine List.nodup_append.mpr ⟨h, List.nodup_singleton id, ?_⟩
    rintro c mem d last rfl
    exact new (List.mem_singleton.mp last ▸ mem)

theorem removeChild_sublist (childRequests : List ReqId) (id : ReqId) (finished : Bool) :
    (removeChild childRequests id finished).1.Sublist childRequests := by
  unfold removeChild
  split
  · split
    · exact List.erase_sublist
    · exact List.Sublist.refl _
  · exact List.Sublist.refl _

theorem mem_removeChild (h : childRequests.Nodup) {id c : ReqId} :
    c ∈ (removeChild childRequests id true).1 ↔ c ∈ childRequests ∧ c ≠ id := by
  unfold removeChild
  rw [if_pos rfl]
  split
  · rw [h.mem_erase_iff]
    exact and_comm
  next absent =>
    refine ⟨fun mem => ⟨mem, ?_⟩, And.left⟩
    rintro rfl
    exact absent mem

end VllmAmpere.ParallelSampling

/-! `OutputProcessor`: the maps of the requests that are in flight, of their external
ids and of their parents. What the requests output is left out here. -/

namespace VllmAmpere.OutputProcessor

open ParallelSampling

structure EngineCoreRequest where
  requestId : ReqId
  externalReqId : ReqId
  resumable : Bool
  /-- Without sampling parameters. -/
  isPooling : Bool

structure EngineCoreOutput where
  requestId : ReqId
  finishReason : Option FinishReason
  /-- With a pooling output. -/
  isPooling : Bool
  /-- The stop string that the detokenizer finds in the text of the new tokens. -/
  stopString : Option String

def EngineCoreOutput.finishes (output : EngineCoreOutput) : Bool :=
  output.finishReason.isSome || (!output.isPooling && output.stopString.isSome)

structure RequestState where
  requestId : ReqId
  externalReqId : ReqId
  parentReq : Option ReqId
  hasQueue : Bool
  hasDetokenizer : Bool
  streamingInput : Bool
  /-- The `final` flags of the queued updates. -/
  inputChunkQueue : Option (List Bool)
  deriving DecidableEq

/-- A parent request is known by its id: `parentRequests` has the ids of
`parent_requests`, `childRequests` the set of each parent object. -/
structure Processor where
  requestStates : PyDict ReqId RequestState
  parentRequests : PyDict ReqId Unit
  externalReqIds : PyDict ReqId (List ReqId)
  childRequests : ReqId → List ReqId

/-- The order in which a Python set yields what was added to it. -/
structure SetOrder where
  order : List ReqId → List ReqId
  perm : ∀ ids, (order ids).Perm ids

namespace Processor

def empty : Processor := ⟨PyDict.empty, PyDict.empty, PyDict.empty, fun _ => []⟩

def fromNewRequest (request : EngineCoreRequest) (parentReq : Option ReqId) (hasQueue : Bool) :
    RequestState where
  requestId := request.requestId
  externalReqId := request.externalReqId
  parentReq := parentReq
  hasQueue := hasQueue
  hasDetokenizer := !request.isPooling
  streamingInput := request.resumable
  inputChunkQueue := if request.resumable then some [] else none

/-- What `make_request_output` does to the parent of a request that has finished. -/
def finalChildren (childRequests : ReqId → List ReqId) (st : RequestState) (isPooling : Bool) :
    ReqId → List ReqId :=
  if isPooling then childRequests
  else
    match st.parentReq with
    | none => childRequests
    | some parent => Function.update childRequests parent
      (removeChild (childRequests parent) st.requestId true).1

def makeFinalOutput (s : Processor) (st : RequestState) (isPooling : Bool) : Processor :=
  { s with childRequests := finalChildren s.childRequests st isPooling }

/-- `internal_ids.remove` and its cleanup. An error is the state where it raises. -/
def removeInternalId (s : Processor) (externalReqId id : ReqId) : Except Processor Processor :=
  let internalIds := (s.externalReqIds.get? externalReqId).getD []
  if id ∈ internalIds then
    .ok { s with
      externalReqIds :=
        if internalIds.erase id = [] then s.externalReqIds.pop externalReqId
        else s.externalReqIds.set externalReqId (internalIds.erase id) }
  else .error { s with externalReqIds := s.externalReqIds.set externalReqId internalIds }

def finishRequest (s : Processor) (st : RequestState) : Except Processor Processor :=
  let s := { s with requestStates := s.requestStates.pop st.requestId }
  match s.removeInternalId st.externalReqId st.requestId with
  | .error s => .error s
  | .ok s =>
    match st.parentReq with
    | some parent =>
      if s.childRequests parent = [] then
        .ok { s with parentRequests := s.parentRequests.pop parent }
      else .ok s
    | none => .ok s

def setState (s : Processor) (st : RequestState) : Processor :=
  { s with requestStates := s.requestStates.set st.requestId st }

def applyStreamingUpdate (st : RequestState) (final : Bool) : RequestState :=
  { st with streamingInput := !final }

def updateStreamingRequestState (s : Processor) (st : RequestState) (request : EngineCoreRequest) :
    Except Processor Processor :=
  match request.resumable, st.inputChunkQueue with
  | false, none => s.finishRequest st
  | false, some [] => .ok (s.setState { st with streamingInput := false })
  | false, some (update :: queue) =>
    .ok (s.setState { st with inputChunkQueue := some ((update :: queue).dropLast ++ [true]) })
  | true, none => .ok (s.setState { applyStreamingUpdate st false with inputChunkQueue := some [] })
  | true, some queue => .ok (s.setState { st with inputChunkQueue := some (queue ++ [false]) })

def addRequest (s : Processor) (request : EngineCoreRequest) (parentReq : Option ReqId)
    (hasQueue : Bool) : Except Processor Processor :=
  match s.requestStates.get? request.requestId with
  | some st => s.updateStreamingRequestState st request
  | none =>
    .ok { s with
      requestStates := s.requestStates.set request.requestId
        (fromNewRequest request parentReq hasQueue)
      parentRequests :=
        match parentReq with
        | some parent => s.parentRequests.set parent ()
        | none => s.parentRequests
      externalReqIds := s.externalReqIds.set request.externalReqId
        ((s.externalReqIds.get? request.externalReqId).getD [] ++ [request.requestId]) }

/-- One child of a request: `get_child_info`, then `add_request` for the child. -/
def addChildRequest (request : EngineCoreRequest) (hasQueue : Bool) (s : Processor)
    (index : Nat) : Except Processor Processor :=
  let parent := request.requestId
  let child := childId index parent
  let s := { s with
    childRequests := Function.update s.childRequests parent
      (addChild (s.childRequests parent) child) }
  s.addRequest { request with requestId := child } (some parent) hasQueue

def processOutput (s : Processor) (output : EngineCoreOutput) : Except Processor Processor :=
  match s.requestStates.get? output.requestId with
  | none => .ok s
  | some st =>
    if output.finishes then
      let s := s.makeFinalOutput st output.isPooling
      if st.streamingInput then
        match st.inputChunkQueue with
        | some (final :: queue) => .ok (s.setState
          { applyStreamingUpdate st final with inputChunkQueue := some queue })
        | _ => .ok (s.setState { st with inputChunkQueue := none })
      else s.finishRequest st
    else .ok s

/-- The first loop of `abort_requests` for one id, with the internal ids it finds. -/
def collectId (internal : Bool) (s : Processor) (id : ReqId) :
    Except Processor (Processor × List ReqId) :=
  if internal then
    match s.requestStates.get? id with
    | none => .ok (s, [id])
    | some st => (s.removeInternalId st.externalReqId id).map fun s => (s, [id])
  else
    .ok ({ s with externalReqIds := s.externalReqIds.pop id }, (s.externalReqIds.get? id).getD [])

def gather (body : Processor → ReqId → Except Processor (Processor × List ReqId)) :
    Processor → List ReqId → Except Processor (Processor × List ReqId)
  | s, [] => .ok (s, [])
  | s, id :: ids =>
    match body s id with
    | .error s => .error s
    | .ok (s, found) => (gather body s ids).map fun (s, more) => (s, found ++ more)

/-- The second loop of `abort_requests` for one internal id. -/
def abortId (recurse : Processor → List ReqId → Except Processor (Processor × List ReqId))
    (order : SetOrder) (s : Processor) (id : ReqId) : Except Processor (Processor × List ReqId) :=
  match s.requestStates.get? id with
  | some st =>
    let s := { s with requestStates := s.requestStates.pop id }
    .ok (if st.hasQueue then s.makeFinalOutput st (!st.hasDetokenizer) else s, [id])
  | none =>
    match s.parentRequests.get? id with
    | none => .ok (s, [])
    | some () =>
      let children :=
        if s.childRequests id = [] then .ok (s, [])
        else recurse s (order.order (s.childRequests id))
      children.map fun (s, found) =>
        ({ s with parentRequests := s.parentRequests.pop id }, found)

/-- `abort_requests`, with the depth of its recursion. -/
def abortRequests (order : SetOrder) :
    Nat → Bool → Processor → List ReqId → Except Processor (Processor × List ReqId)
  | 0, _, s, _ => .error s
  | depth + 1, internal, s, requestIds =>
    match gather (collectId internal) s requestIds with
    | .error s => .error s
    | .ok (s, internalReqIds) =>
      gather (abortId (abortRequests order depth true) order) s internalReqIds

end Processor

/-- A call of a method. -/
inductive Call
  | add (request : EngineCoreRequest) (hasQueue : Bool)
  /-- The callers' loop over the children of a parent request. -/
  | addChildren (request : EngineCoreRequest) (n : Nat) (hasQueue : Bool)
  | process (outputs : List EngineCoreOutput)
  | abort (requestIds : List ReqId) (internal : Bool) (order : SetOrder)

def Processor.call (s : Processor) : Call → Except Processor Processor
  | .add request hasQueue => s.addRequest request none hasQueue
  | .addChildren request n hasQueue =>
    (List.range n).foldlM (Processor.addChildRequest request hasQueue) s
  | .process outputs => outputs.foldlM Processor.processOutput s
  | .abort requestIds internal order =>
    (s.abortRequests order (s.parentRequests.len + 2) internal requestIds).map Prod.fst

end VllmAmpere.OutputProcessor
