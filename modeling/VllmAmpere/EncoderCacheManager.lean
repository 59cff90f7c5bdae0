import VllmAmpere.PyDict
import VllmAmpere.SchedulerState

/-! `EncoderCacheManager`: the encoder outputs that are cached, who references them,
and the slots they take. -/

namespace VllmAmpere.Sched

def Request.getNumEncoderEmbeds (r : Request) (inputId : Nat) : Except PyError Nat := do
  pyAssert (inputId < r.mmFeatures.length) ""
  let f ← pyGet r.mmFeatures inputId
  .ok f.getNumEmbeds

structure EncoderCacheManager where
  cacheSize : Nat
  numFreeSlots : Int
  numFreeableSlots : Int
  /-- The ids of the requests that reference an entry. -/
  cached : PyDict String (List String)
  numEmbedsByHash : PyDict String Nat
  requestCachedIds : PyDict String (List Nat)
  /-- The entries without a reference, the oldest first. -/
  freeable : PyDict String Nat
  freed : List String

namespace EncoderCacheManager

def init (cacheSize : Nat) : EncoderCacheManager where
  cacheSize := cacheSize
  numFreeSlots := cacheSize
  numFreeableSlots := cacheSize
  cached := .empty
  numEmbedsByHash := .empty
  requestCachedIds := .empty
  freeable := .empty
  freed := []

variable (m : EncoderCacheManager)

def reset : EncoderCacheManager := init m.cacheSize

/-- Take an entry that gets its first reference out of `freeable`. -/
def popFreeable (mmHash : String) : Except PyError EncoderCacheManager := do
  let numEncoderEmbeds ← m.freeable.getItem mmHash
  .ok { m with
    freeable := m.freeable.pop mmHash
    numFreeableSlots := m.numFreeableSlots - numEncoderEmbeds }

/-- `self.request_cached_ids.setdefault(request_id, set()).add(input_id)`. -/
def registerInput (requestId : String) (inputId : Nat) : EncoderCacheManager :=
  let inputs := (m.requestCachedIds.get? requestId).getD []
  let inputs := if inputId ∈ inputs then inputs else inputs ++ [inputId]
  { m with requestCachedIds := m.requestCachedIds.set requestId inputs }

variable (r : Request) (inputId : Nat)

def checkAndUpdateCache :
    Except PyError (Bool × EncoderCacheManager) := do
  let f ← pyGet r.mmFeatures inputId
  match m.cached.get? f.identifier with
  | none => .ok (false, m)
  | some references =>
    let m ← if references.isEmpty then m.popFreeable f.identifier else .ok m
    let m := { m with cached := m.cached.set f.identifier (setAdd references r.requestId) }
    .ok (true, m.registerInput r.requestId inputId)

def getCachedNumEncoderEmbeds : Except PyError (Option Nat) := do
  let f ← pyGet r.mmFeatures inputId
  .ok (m.numEmbedsByHash.get? f.identifier)

/-- `freeable.popitem(last=False)` and what goes with the entry. -/
def evictEntry (mmHash : String) (numFreeEmbeds : Nat) : Except PyError EncoderCacheManager := do
  let _ ← m.cached.getItem mmHash
  let _ ← m.numEmbedsByHash.getItem mmHash
  .ok { m with
    freeable := m.freeable.pop mmHash
    cached := m.cached.pop mmHash
    numEmbedsByHash := m.numEmbedsByHash.pop mmHash
    freed := m.freed ++ [mmHash]
    numFreeSlots := m.numFreeSlots + numFreeEmbeds }

/-- The loop of `can_allocate` over the entries of `freeable`; `popitem` on an empty
dict raises. -/
def evict (numEmbeds : Int) : List (String × Nat) → EncoderCacheManager →
    Except PyError EncoderCacheManager
  | [], m => if numEmbeds > m.numFreeSlots then .error .key else .ok m
  | (mmHash, numFreeEmbeds) :: rest, m =>
    if numEmbeds > m.numFreeSlots then do
      let m ← m.evictEntry mmHash numFreeEmbeds
      evict numEmbeds rest m
    else .ok m

def canAllocate (encoderComputeBudget : Int)
    (numEmbedsToSchedule : Nat) : Except PyError (Bool × EncoderCacheManager) := do
  let numEmbeds ← r.getNumEncoderEmbeds inputId
  if (numEmbeds : Int) > encoderComputeBudget then .ok (false, m)
  else if (numEmbeds + numEmbedsToSchedule : Int) ≤ m.numFreeSlots then .ok (true, m)
  else if (numEmbeds + numEmbedsToSchedule : Int) > m.numFreeableSlots then .ok (false, m)
  else
    let m ← m.evict (numEmbeds + numEmbedsToSchedule) m.freeable.items
    .ok (true, m)

def allocate : Except PyError EncoderCacheManager := do
  let f ← pyGet r.mmFeatures inputId
  let references := (m.cached.get? f.identifier).getD []
  let numEncoderEmbeds ← r.getNumEncoderEmbeds inputId
  let cachedNumEncoderEmbeds := (m.numEmbedsByHash.get? f.identifier).getD numEncoderEmbeds
  pyAssert (cachedNumEncoderEmbeds = numEncoderEmbeds) ""
  pyAssert (m.numFreeSlots ≥ numEncoderEmbeds) ""
  pyAssert (m.numFreeableSlots ≥ numEncoderEmbeds) ""
  let m := { m with
    cached := m.cached.set f.identifier (setAdd references r.requestId)
    numEmbedsByHash := m.numEmbedsByHash.set f.identifier cachedNumEncoderEmbeds
    numFreeSlots := m.numFreeSlots - numEncoderEmbeds
    numFreeableSlots := m.numFreeableSlots - numEncoderEmbeds }
  .ok (m.registerInput r.requestId inputId)

def getCachedInputIds : List Nat := (m.requestCachedIds.get? r.requestId).getD []

/-- Take an input out of `request_cached_ids`, and its request with its last input. -/
def unregisterInput (requestId : String) (inputId : Nat) : EncoderCacheManager :=
  match m.requestCachedIds.get? requestId with
  | none => m
  | some inputs =>
    let inputs := inputs.filter (· ≠ inputId)
    { m with requestCachedIds :=
        if inputs.isEmpty then m.requestCachedIds.pop requestId
        else m.requestCachedIds.set requestId inputs }

def anyIdentifier (r : Request) (mmHash : String) : List Nat → Except PyError Bool
  | [] => .ok false
  | otherId :: rest => do
    let f ← pyGet r.mmFeatures otherId
    if f.identifier = mmHash then .ok true else anyIdentifier r mmHash rest

/-- Take a request out of the references of an entry; the entry becomes freeable with
its last reference. -/
def dropReference (mmHash requestId : String) (references : List String) :
    Except PyError EncoderCacheManager :=
  let references := discard references requestId
  let m := { m with cached := m.cached.set mmHash references }
  if references.isEmpty then do
    let numEncoderEmbeds ← m.numEmbedsByHash.getItem mmHash
    .ok { m with
      freeable := m.freeable.set mmHash numEncoderEmbeds
      numFreeableSlots := m.numFreeableSlots + numEncoderEmbeds }
  else .ok m

def freeEncoderInput : Except PyError EncoderCacheManager := do
  let f ← pyGet r.mmFeatures inputId
  let m := m.unregisterInput r.requestId inputId
  let references := (m.cached.get? f.identifier).getD []
  if references.isEmpty then .ok m
  else
    let needed ← anyIdentifier r f.identifier (m.getCachedInputIds r)
    if needed then .ok m else m.dropReference f.identifier r.requestId references

/-- The loop of `free`, over the set of cached inputs in the order Python gives it. -/
def free (r : Request) : List Nat → EncoderCacheManager → Except PyError EncoderCacheManager
  | [], m => .ok m
  | inputId :: rest, m => do
    let m ← m.freeEncoderInput r inputId
    free r rest m

def getFreedMmHashes : List String × EncoderCacheManager :=
  (m.freed.filter fun mmHash => (m.cached.get? mmHash).isNone, { m with freed := [] })

end EncoderCacheManager

end VllmAmpere.Sched
