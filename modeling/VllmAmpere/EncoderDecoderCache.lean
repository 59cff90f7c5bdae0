import VllmAmpere.EncoderCacheAccounts

/-! The encoder cache manager of encoder-decoder models: a counter of free slots that the
scheduler's passes, processed steps and frees move. -/

open List

namespace VllmAmpere.Sched

structure EncoderDecoderCacheManager where
  cacheSize : Nat
  numFreeSlots : Int
  allocated : List String
  toFree : List String

namespace EncoderDecoderCacheManager

def init (cacheSize : Nat) : EncoderDecoderCacheManager := ⟨cacheSize, cacheSize, [], []⟩

def getCachedInputIds (r : Request) : List Nat := List.range r.mmFeatures.length

variable (m : EncoderDecoderCacheManager)

def reset : EncoderDecoderCacheManager := init m.cacheSize

def canAllocate (r : Request) (inputId : Nat) (encoderComputeBudget : Int)
    (numEmbedsToSchedule : Nat) : Except PyError Bool := do
  let numEncoderEmbeds ← r.getNumEncoderEmbeds inputId
  if (numEncoderEmbeds : Int) > encoderComputeBudget then .ok false
  else .ok (decide ((numEncoderEmbeds + numEmbedsToSchedule : Int) ≤ m.numFreeSlots))

def allocate (r : Request) (inputId : Nat) : Except PyError EncoderDecoderCacheManager := do
  let numEncoderEmbeds ← r.getNumEncoderEmbeds inputId
  let f ← pyGet r.mmFeatures inputId
  .ok { m with
    numFreeSlots := m.numFreeSlots - numEncoderEmbeds
    allocated := m.allocated ++ [f.identifier] }

def freeEncoderInput (r : Request) (inputId : Nat) :
    Except PyError EncoderDecoderCacheManager := do
  let numEncoderEmbeds ← r.getNumEncoderEmbeds inputId
  .ok { m with numFreeSlots := m.numFreeSlots + numEncoderEmbeds }

/-- The loop of `free` over the inputs of a request. -/
def freeInputs (r : Request) : List Nat → EncoderDecoderCacheManager →
    Except PyError EncoderDecoderCacheManager
  | [], m => .ok m
  | inputId :: rest, m => do
    let m ← m.freeEncoderInput r inputId
    freeInputs r rest m

def free (r : Request) : Except PyError EncoderDecoderCacheManager :=
  freeInputs r (List.range r.mmFeatures.length) m

def getFreedMmHashes : List String × EncoderDecoderCacheManager :=
  (m.toFree, { m with toFree := m.allocated, allocated := [] })

end EncoderDecoderCacheManager

/-- The components hold the manager of an encoder-decoder model and pass its calls on. -/
structure HoldEncoderDecoderCache {ω : Type} (parts : Components ω)
    (cacheOf : ω → EncoderDecoderCacheManager) : Prop where
  canAllocate : ∀ w r i budget n answer, (cacheOf w).canAllocate r i budget n = .ok answer →
    (parts.canAllocate w r i budget n).1 = answer ∧
      cacheOf (parts.canAllocate w r i budget n).2 = cacheOf w
  allocate : ∀ w r i m, (cacheOf w).allocate r i = .ok m →
    cacheOf (parts.allocateEncoder w r i) = m
  getCachedInputIds : ∀ w r, parts.getCachedInputIds w r =
    EncoderDecoderCacheManager.getCachedInputIds r
  freeEncoderInput : ∀ w r i m, (cacheOf w).freeEncoderInput r i = .ok m →
    cacheOf (parts.freeEncoderInput w r i) = m
  free : ∀ w r m, (cacheOf w).free r = .ok m → cacheOf (parts.freeEncoder w r) = m
  hasCacheItem : ∀ w mmHash, cacheOf (parts.hasCacheItem w mmHash).2 = cacheOf w
  ecUpdateStateAfterAlloc : ∀ w r i, cacheOf (parts.ecUpdateStateAfterAlloc w r i) = cacheOf w
  ecUpdateStateAfterFree : ∀ w r i, cacheOf (parts.ecUpdateStateAfterFree w r i) = cacheOf w

/-- The scheduler and, for each input that was allocated and not yet released, its
request, its index and its embeddings. -/
structure EncoderDecoderRun (ω : Type) where
  sched : Scheduler ω
  held : List (String × Nat × Nat)

inductive EncoderDecoderCall (ω : Type)
  /-- A request is added or its fields change. -/
  | setRequest (id : String) (r : Request)
  /-- The encoder pass of a request; `getsBlocks` says whether the request gets its blocks. -/
  | schedule (id : String) (numComputedTokens numNewTokens encoderComputeBudget shift : Int)
      (getsBlocks : Bool)
  /-- `_free_encoder_inputs` behind a step of the request. -/
  | processed (id : String)
  /-- The request is finished, aborted or preempted, or found no blocks. -/
  | free (id : String)
  /-- `reset_encoder_cache`. -/
  | reset (world : ω)

namespace EncoderDecoderRun

def entry (r : Request) (i : Nat) : String × Nat × Nat := (r.requestId, i, r.embedsAt i)

/-- What is held after inputs of a request are released. -/
def release (r : Request) (inputs : List Nat) (held : List (String × Nat × Nat)) :
    List (String × Nat × Nat) :=
  inputs.foldl (fun held i => held.erase (entry r i)) held

/-- The inputs that `_free_encoder_inputs` releases for a request. -/
def processedInputs (cfg : SchedulerConfig) (r : Request) : List Nat :=
  let stop := fun (i : Nat) => r.mmFeatures[i]?.elim 0 fun f => f.toMultiModalFeatureSpec.stop
  (EncoderDecoderCacheManager.getCachedInputIds r).filter fun i =>
    decide ((cfg.isEncoderDecoder ∧ r.numComputedTokens > 0) ∨
      (stop i + cfg.numPrefillLookahead : Int) ≤ r.numComputedTokens - r.numOutputPlaceholders)

variable {ω : Type} (cfg : SchedulerConfig) (parts : Components ω)
  (cacheOf : ω → EncoderDecoderCacheManager)

def call (s : EncoderDecoderRun ω) : EncoderDecoderCall ω → Except PyError (EncoderDecoderRun ω)
  | .setRequest id r => .ok { s with sched := s.sched.setRequest id r }
  | .schedule id numComputedTokens numNewTokens encoderComputeBudget shift getsBlocks => do
    let (plan, sched) ← s.sched.tryScheduleEncoderInputs cfg parts id numComputedTokens
      numNewTokens encoderComputeBudget shift
    let inputs := plan.encoderInputsToSchedule ++ plan.externalLoadEncoderInput
    .ok (if getsBlocks then
      { sched := sched.allocateEncoderInputs cfg parts id inputs
        held := s.held ++ inputs.map (entry (s.sched.request id)) }
      else { s with sched := sched })
  | .processed id =>
    .ok { sched := s.sched.freeEncoderInputs cfg parts id
          held := release (s.sched.request id) (processedInputs cfg (s.sched.request id)) s.held }
  | .free id =>
    let r := s.sched.request id
    .ok { sched := { s.sched with world := parts.freeEncoder s.sched.world r }
          held := release r (EncoderDecoderCacheManager.getCachedInputIds r) s.held }
  | .reset world => .ok { sched := { s.sched with world := world }, held := [] }

def Allowed (s : EncoderDecoderRun ω) : EncoderDecoderCall ω → Prop
  | .setRequest id r => r.requestId = id
  | .reset world => cacheOf world = (cacheOf s.sched.world).reset
  | _ => True

def Held (s : EncoderDecoderRun ω) (r : Request) (i : Nat) : Prop :=
  entry r i ∈ s.held ∨ r.embedsAt i = 0

def ReleasesHeld (s : EncoderDecoderRun ω) : EncoderDecoderCall ω → Prop
  | .processed id => ∀ i ∈ processedInputs cfg (s.sched.request id), s.Held (s.sched.request id) i
  | .free id => ∀ i < (s.sched.request id).mmFeatures.length, s.Held (s.sched.request id) i
  | _ => True

def heldEmbeds (held : List (String × Nat × Nat)) : Nat := (held.map fun e => e.2.2).sum

/-- The counter is right, and an input is only admitted if it fits beside what is held. -/
structure Accounts (cacheSize : Nat) (s : EncoderDecoderRun ω) : Prop where
  numFreeSlots : (cacheOf s.sched.world).numFreeSlots = cacheSize - heldEmbeds s.held
  bounded : (cacheOf s.sched.world).numFreeSlots ≤ cacheSize
  admits : ∀ r i budget numEmbedsToSchedule,
    (cacheOf s.sched.world).canAllocate r i budget numEmbedsToSchedule = .ok true →
      heldEmbeds s.held + numEmbedsToSchedule + r.embedsAt i ≤ cacheSize

end EncoderDecoderRun

/-- The runs of the scheduler over an encoder-decoder model, from an empty cache. -/
def encoderDecoderRuns {ω : Type} (cfg : SchedulerConfig) (parts : Components ω)
    (cacheOf : ω → EncoderDecoderCacheManager) (cacheSize : Nat) :
    TransitionSystem (EncoderDecoderRun ω) (EncoderDecoderCall ω) where
  init s := cacheOf s.sched.world = .init cacheSize ∧ s.held = []
  step s c s' := s.Allowed cacheOf c ∧ s.call cfg parts c = .ok s'

def encoderDecoderRunsReleasingHeld {ω : Type} (cfg : SchedulerConfig) (parts : Components ω)
    (cacheOf : ω → EncoderDecoderCacheManager) (cacheSize : Nat) :
    TransitionSystem (EncoderDecoderRun ω) (EncoderDecoderCall ω) where
  init := (encoderDecoderRuns cfg parts cacheOf cacheSize).init
  step s c s' := s.ReleasesHeld cfg c ∧
    (encoderDecoderRuns cfg parts cacheOf cacheSize).step s c s'

/-! The free slots of an encoder-decoder model are those that are not held as long as
only what is held is released; a request that lives on behind its first step releases
its inputs again. -/

section

variable {ω : Type} {cfg : SchedulerConfig} {parts : Components ω}
  {cacheOf : ω → EncoderDecoderCacheManager} {s s' : Scheduler ω} {id : String}

namespace EncoderDecoderCacheManager

variable {m : EncoderDecoderCacheManager} {r : Request}

theorem getNumEncoderEmbeds_lt {i : Nat} (h : i < r.mmFeatures.length) :
    r.getNumEncoderEmbeds i = .ok (r.embedsAt i) :=
  Request.getNumEncoderEmbeds_eq (getElem?_eq_getElem h)

theorem canAllocate_ok {i : Nat} (h : i < r.mmFeatures.length) (budget : Int) (n : Nat) :
    ∃ answer, m.canAllocate r i budget n = .ok answer := by
  unfold canAllocate
  rw [getNumEncoderEmbeds_lt h]
  simp only [bind, Except.bind]
  split
  · exact ⟨_, rfl⟩
  · exact ⟨_, rfl⟩

theorem canAllocate_fits {i : Nat} {budget : Int} {n : Nat}
    (h : m.canAllocate r i budget n = .ok true) : (r.embedsAt i + n : Int) ≤ m.numFreeSlots := by
  unfold canAllocate at h
  obtain ⟨embeds, hembeds, h⟩ := bind_eq_ok.mp h
  have inRange : i < r.mmFeatures.length := by
    obtain ⟨_, hassert, _⟩ := bind_eq_ok.mp hembeds
    exact pyAssert_ok.mp hassert
  cases (getNumEncoderEmbeds_lt inRange).symm.trans hembeds
  split at h
  · cases h
  · exact of_decide_eq_true (Except.ok.inj h)

theorem allocate_ok {i : Nat} (h : i < r.mmFeatures.length) :
    ∃ m', m.allocate r i = .ok m' ∧ m'.numFreeSlots = m.numFreeSlots - r.embedsAt i ∧
    m'.cacheSize = m.cacheSize := by
  refine ⟨{ m with
    numFreeSlots := m.numFreeSlots - r.embedsAt i
    allocated := m.allocated ++ [r.mmFeatures[i].identifier] }, ?_, rfl, rfl⟩
  unfold allocate
  rw [getNumEncoderEmbeds_lt h, pyGet_ok.mpr (getElem?_eq_getElem h)]
  rfl

theorem freeEncoderInput_ok {i : Nat} (h : i < r.mmFeatures.length) : m.freeEncoderInput r i =
    .ok { m with numFreeSlots := m.numFreeSlots + r.embedsAt i } := by
  unfold freeEncoderInput
  rw [getNumEncoderEmbeds_lt h]
  rfl

theorem freeInputs_ok (inputs : List Nat) (h : ∀ i ∈ inputs, i < r.mmFeatures.length)
    (m : EncoderDecoderCacheManager) : freeInputs r inputs m =
    .ok { m with numFreeSlots := m.numFreeSlots + (inputs.map r.embedsAt).sum } := by
  induction inputs generalizing m with
  | nil => simp [freeInputs]
  | cons i rest ih =>
    rw [freeInputs, freeEncoderInput_ok (h i mem_cons_self)]
    refine (ih (fun j hj => h j (mem_cons_of_mem i hj)) _).trans ?_
    simp only [map_cons, sum_cons, Nat.cast_add, Except.ok.injEq, mk.injEq, true_and,
      and_true]
    omega

end EncoderDecoderCacheManager

/-- A pass leaves the manager as it is and plans inputs that the request has. -/
structure Scheduler.EncoderPassed (cacheOf : ω → EncoderDecoderCacheManager) (id : String)
    (s s' : Scheduler ω) (plan : EncoderPlan) : Prop where
  request : s'.request = s.request
  cache : cacheOf s'.world = cacheOf s.world
  planned : ∀ i ∈ plan.encoderInputsToSchedule ++ plan.externalLoadEncoderInput,
    i < (s.request id).mmFeatures.length

variable (cfg) in
theorem planEncoderInput_passed (hold : HoldEncoderDecoderCache parts cacheOf) {i : Nat}
    (inRange : i < (s.request id).mmFeatures.length) (f : MultiModalFeature) {scan : EncoderScan}
    (planned : ∀ j ∈ scan.encoderInputsToSchedule ++ scan.externalLoadEncoderInput,
    j < (s.request id).mmFeatures.length) :
    s.EncoderPassed cacheOf id (s.planEncoderInput cfg parts i f scan).2
    (s.planEncoderInput cfg parts i f scan).1.toEncoderPlan := by
  unfold Scheduler.planEncoderInput
  generalize hext : (if cfg.hasEcConnector then parts.hasCacheItem s.world f.identifier
    else (false, s.world)) = external
  obtain ⟨isExternal, world⟩ := external
  have cache : cacheOf world = cacheOf s.world := by
    split at hext
    · rw [← hold.hasCacheItem s.world f.identifier, hext]
    · cases hext
      rfl
  cases isExternal with
  | true =>
    refine ⟨rfl, cache, fun j hj => ?_⟩
    rcases mem_append.mp hj with hj | hj
    · exact planned j (mem_append_left _ hj)
    · rcases mem_append.mp hj with hj | hj
      · exact planned j (mem_append_right _ hj)
      · exact mem_singleton.mp hj ▸ inRange
  | false =>
    refine ⟨rfl, cache, fun j hj => ?_⟩
    rcases mem_append.mp hj with hj | hj
    · rcases mem_append.mp hj with hj | hj
      · exact planned j (mem_append_left _ hj)
      · exact mem_singleton.mp hj ▸ inRange
    · exact planned j (mem_append_right _ hj)

theorem fitEncoderInput_passed (hold : HoldEncoderDecoderCache parts cacheOf) {i : Nat}
    (inRange : i < (s.request id).mmFeatures.length) (f : MultiModalFeature) {scan : EncoderScan}
    (planned : ∀ j ∈ scan.encoderInputsToSchedule ++ scan.externalLoadEncoderInput,
    j < (s.request id).mmFeatures.length) (numComputedTokens shift windowEnd : Int) :
    s.EncoderPassed cacheOf id
    (s.fitEncoderInput cfg parts id numComputedTokens shift windowEnd i f scan).2
    (s.fitEncoderInput cfg parts id numComputedTokens shift windowEnd i f scan).1.1.toEncoderPlan := by
  have ⟨answer, hanswer⟩ := (cacheOf s.world).canAllocate_ok inRange scan.encoderComputeBudget
    scan.numEmbedsToSchedule
  have held := (hold.canAllocate s.world (s.request id) i scan.encoderComputeBudget
    scan.numEmbedsToSchedule answer hanswer).2
  unfold Scheduler.fitEncoderInput
  generalize parts.canAllocate s.world (s.request id) i scan.encoderComputeBudget
    scan.numEmbedsToSchedule = asked at held
  obtain ⟨fits, world⟩ := asked
  dsimp only at held ⊢
  split
  · exact ⟨rfl, rfl, planned⟩
  split
  · exact ⟨rfl, held, planned⟩
  split
  · exact ⟨rfl, held, planned⟩
  · have passed := planEncoderInput_passed cfg hold (s := { s with world := world })
      inRange f planned
    exact ⟨passed.request, passed.cache.trans held, passed.planned⟩

theorem scanEncoderInputs_passed (hold : HoldEncoderDecoderCache parts cacheOf)
    (encDec : cfg.isEncoderDecoder) {numComputedTokens shift windowEnd : Int}
    (features : List MultiModalFeature) {i : Nat} {scan : EncoderScan} {s s' : Scheduler ω}
    (inRange : i + features.length ≤ (s.request id).mmFeatures.length)
    (planned : ∀ j ∈ scan.encoderInputsToSchedule ++ scan.externalLoadEncoderInput,
    j < (s.request id).mmFeatures.length) {result : Option EncoderScan}
    (h : Scheduler.scanEncoderInputs cfg parts id numComputedTokens shift windowEnd i features scan
    s = .ok (result, s')) : s'.request = s.request ∧ cacheOf s'.world = cacheOf s.world ∧
    ∀ scan', result = some scan' → s.EncoderPassed cacheOf id s' scan'.toEncoderPlan := by
  induction features generalizing i scan s with
  | nil =>
    cases h
    refine ⟨rfl, rfl, fun scan' same => ?_⟩
    cases same
    exact ⟨rfl, rfl, planned⟩
  | cons f rest ih =>
    rw [length_cons] at inRange
    unfold Scheduler.scanEncoderInputs at h
    obtain ⟨⟨answer, s₁⟩, hscan, h⟩ := bind_eq_ok.mp h
    unfold Scheduler.scanEncoderInput at hscan
    -- What the scan does with `f`: it plans inputs that are there and keeps the manager.
    have first : ∃ scan₁ goes, answer = some (scan₁, goes) ∧
        s.EncoderPassed cacheOf id s₁ scan₁.toEncoderPlan := by
      split at hscan
      · obtain ⟨-, -, hscan⟩ := bind_eq_ok.mp hscan
        cases hscan
        exact ⟨scan, true, rfl, rfl, rfl, planned⟩
      · unfold Scheduler.knownEncoderInput at hscan
        simp only [encDec, if_true] at hscan
        obtain ⟨hanswer, hs⟩ := Prod.mk.inj (Except.ok.inj hscan)
        subst hs
        exact ⟨_, _, hanswer.symm, fitEncoderInput_passed hold (by omega) f planned _ _ _⟩
    obtain ⟨scan₁, goes, rfl, passed⟩ := first
    cases goes with
    | false =>
      cases h
      refine ⟨passed.request, passed.cache, fun scan' same => ?_⟩
      cases same
      exact passed
    | true =>
      obtain ⟨request, cache, last⟩ := ih (by rw [passed.request]; omega)
        (by rw [passed.request]; exact passed.planned) h
      refine ⟨request.trans passed.request, cache.trans passed.cache, fun scan' same => ?_⟩
      have ended := last scan' same
      exact ⟨ended.request.trans passed.request, ended.cache.trans passed.cache,
        passed.request ▸ ended.planned⟩

theorem tryScheduleEncoderInputs_passed (hold : HoldEncoderDecoderCache parts cacheOf)
    (encDec : cfg.isEncoderDecoder)
    {numComputedTokens numNewTokens encoderComputeBudget shift : Int} {plan : EncoderPlan}
    (h : s.tryScheduleEncoderInputs cfg parts id numComputedTokens numNewTokens
    encoderComputeBudget shift = .ok (plan, s')) : s.EncoderPassed cacheOf id s' plan := by
  unfold Scheduler.tryScheduleEncoderInputs at h
  dsimp only at h
  split at h
  · cases h
    exact ⟨rfl, rfl, nofun⟩
  · obtain ⟨⟨scan, s₁⟩, hscan, h⟩ := bind_eq_ok.mp h
    have ⟨request, cache, passed⟩ := scanEncoderInputs_passed hold encDec _
      (by rw [slice_length]; omega) (by simp) hscan
    cases scan with
    | none =>
      cases h
      exact ⟨request, cache, nofun⟩
    | some scan =>
      cases h
      exact passed scan rfl

variable (cfg) in
theorem allocateEncoderInputs_slots (hold : HoldEncoderDecoderCache parts cacheOf)
    (inputs : List Nat) (s : Scheduler ω)
    (inRange : ∀ i ∈ inputs, i < (s.request id).mmFeatures.length) :
    (cacheOf (s.allocateEncoderInputs cfg parts id inputs).world).numFreeSlots =
    (cacheOf s.world).numFreeSlots - (inputs.map (s.request id).embedsAt).sum ∧
    (cacheOf (s.allocateEncoderInputs cfg parts id inputs).world).cacheSize =
    (cacheOf s.world).cacheSize := by
  induction inputs generalizing s with
  | nil => simp [Scheduler.allocateEncoderInputs]
  | cons i rest ih =>
    obtain ⟨m', hallocate, slots, size⟩ := (cacheOf s.world).allocate_ok (inRange i mem_cons_self)
    have held := hold.allocate s.world (s.request id) i m' hallocate
    let world := if cfg.hasEcConnector then
        parts.ecUpdateStateAfterAlloc (parts.allocateEncoder s.world (s.request id) i)
          (s.request id) i
      else parts.allocateEncoder s.world (s.request id) i
    have hworld : cacheOf world = m' := by
      dsimp only [world]
      split
      · rw [hold.ecUpdateStateAfterAlloc, held]
      · exact held
    have tail := ih { s with world := world } fun j hj => inRange j (mem_cons_of_mem i hj)
    rw [show cacheOf ({ s with world := world } : Scheduler ω).world = m' from hworld, slots,
      size] at tail
    refine ⟨tail.1.trans ?_, tail.2⟩
    rw [map_cons, sum_cons, Nat.cast_add]
    dsimp only
    omega

variable (cfg) in
theorem freeEncoderInputs_slots (hold : HoldEncoderDecoderCache parts cacheOf) (id : String)
    (s : Scheduler ω) :
    cacheOf (s.freeEncoderInputs cfg parts id).world = { cacheOf s.world with
      numFreeSlots := (cacheOf s.world).numFreeSlots +
        ((EncoderDecoderRun.processedInputs cfg (s.request id)).map
          (s.request id).embedsAt).sum } := by
  have each : ∀ (inputs : List Nat) (w : ω),
      (∀ i ∈ inputs, i < (s.request id).mmFeatures.length) →
      cacheOf (inputs.foldl (fun world i =>
        let world := parts.freeEncoderInput world (s.request id) i
        if cfg.hasEcConnector then parts.ecUpdateStateAfterFree world (s.request id) i
        else world) w) = { cacheOf w with
          numFreeSlots := (cacheOf w).numFreeSlots + (inputs.map (s.request id).embedsAt).sum } := by
    intro inputs
    induction inputs with
    | nil => simp
    | cons i rest ih =>
      intro w inRange
      have freed := hold.freeEncoderInput w (s.request id) i _
        ((cacheOf w).freeEncoderInput_ok (inRange i mem_cons_self))
      rw [foldl_cons, ih _ fun j hj => inRange j (mem_cons_of_mem i hj)]
      have cache : cacheOf (if cfg.hasEcConnector then
          parts.ecUpdateStateAfterFree (parts.freeEncoderInput w (s.request id) i) (s.request id) i
          else parts.freeEncoderInput w (s.request id) i) =
          { cacheOf w with
            numFreeSlots := (cacheOf w).numFreeSlots + (s.request id).embedsAt i } := by
        split
        · rw [hold.ecUpdateStateAfterFree, freed]
        · exact freed
      simp only [cache, map_cons, sum_cons, Nat.cast_add, Int.add_assoc]
  unfold Scheduler.freeEncoderInputs
  simp only [hold.getCachedInputIds]
  exact each _ s.world fun i hi => mem_range.mp (mem_filter.mp hi).1

namespace EncoderDecoderRun

variable {cacheSize : Nat} {e e' : EncoderDecoderRun ω}

theorem heldEmbeds_append (held more : List (String × Nat × Nat)) :
    heldEmbeds (held ++ more) = heldEmbeds held + heldEmbeds more := by
  simp [heldEmbeds]

theorem heldEmbeds_entries (r : Request) (inputs : List Nat) :
    heldEmbeds (inputs.map (entry r)) = (inputs.map r.embedsAt).sum := by
  simp [heldEmbeds, entry, Function.comp_def]

theorem heldEmbeds_release (r : Request) (inputs : List Nat) (nodup : inputs.Nodup)
    (held : List (String × Nat × Nat)) :
    heldEmbeds held ≤ heldEmbeds (release r inputs held) + (inputs.map r.embedsAt).sum ∧
    (heldEmbeds held = heldEmbeds (release r inputs held) + (inputs.map r.embedsAt).sum ↔
    ∀ i ∈ inputs, entry r i ∈ held ∨ r.embedsAt i = 0) := by
  induction inputs generalizing held with
  | nil => simp [release]
  | cons i rest ih =>
    rw [nodup_cons] at nodup
    obtain ⟨le, exactly⟩ := ih nodup.2 (held.erase (entry r i))
    have others : (∀ j ∈ rest, entry r j ∈ held.erase (entry r i) ∨ r.embedsAt j = 0) ↔
        ∀ j ∈ rest, entry r j ∈ held ∨ r.embedsAt j = 0 := by
      refine forall₂_congr fun j hj => or_congr_left ?_
      refine mem_erase_of_ne fun same => nodup.1 ?_
      rwa [← (Prod.mk.inj (Prod.mk.inj same).2).1]
    rw [others] at exactly
    rw [release, foldl_cons, ← release, map_cons, sum_cons, forall_mem_cons]
    by_cases mem : entry r i ∈ held
    · have erased : heldEmbeds held = r.embedsAt i + heldEmbeds (held.erase (entry r i)) :=
        ((perm_cons_erase mem).map fun e : String × Nat × Nat => e.2.2).sum_eq
      refine ⟨by omega, ?_⟩
      rw [← exactly]
      simp only [mem, true_or, true_and]
      omega
    · rw [erase_of_not_mem mem] at le exactly
      rw [erase_of_not_mem mem]
      refine ⟨by omega, ?_⟩
      rw [← exactly]
      simp only [mem, false_or]
      omega

theorem Accounts.of_slots {s : EncoderDecoderRun ω}
    (slots : (cacheOf s.sched.world).numFreeSlots = cacheSize - heldEmbeds s.held) :
    s.Accounts cacheOf cacheSize := by
  refine ⟨slots, by omega, fun r i budget n admitted => ?_⟩
  have := EncoderDecoderCacheManager.canAllocate_fits admitted
  omega

theorem step_cacheSize (hold : HoldEncoderDecoderCache parts cacheOf)
    (encDec : cfg.isEncoderDecoder) {c : EncoderDecoderCall ω}
    (step : (encoderDecoderRuns cfg parts cacheOf cacheSize).step e c e') :
    (cacheOf e'.sched.world).cacheSize = (cacheOf e.sched.world).cacheSize := by
  obtain ⟨allowed, hcall⟩ := step
  cases c with
  | setRequest id r =>
    cases hcall
    rfl
  | schedule id numComputedTokens numNewTokens encoderComputeBudget shift getsBlocks =>
    obtain ⟨⟨plan, s₁⟩, hplan, hcall⟩ := bind_eq_ok.mp hcall
    have passed := tryScheduleEncoderInputs_passed hold encDec hplan
    cases hcall
    cases getsBlocks with
    | false => exact congrArg _ passed.cache
    | true =>
      exact (allocateEncoderInputs_slots cfg hold _ s₁ (passed.request ▸ passed.planned)).2.trans
        (congrArg _ passed.cache)
  | processed id =>
    cases hcall
    have freed := freeEncoderInputs_slots cfg hold id e.sched
    have size := congrArg EncoderDecoderCacheManager.cacheSize freed
    exact size
  | free id =>
    cases hcall
    have freed := hold.free e.sched.world (e.sched.request id) _
      (EncoderDecoderCacheManager.freeInputs_ok _ (fun i hi => mem_range.mp hi) _)
    have size := congrArg EncoderDecoderCacheManager.cacheSize freed
    exact size
  | reset world =>
    cases hcall
    have size := congrArg EncoderDecoderCacheManager.cacheSize allowed
    exact size

/-- A step from right accounts keeps them right exactly when it releases only what is
held. -/
theorem step_accounts (hold : HoldEncoderDecoderCache parts cacheOf)
    (encDec : cfg.isEncoderDecoder) (size : (cacheOf e.sched.world).cacheSize = cacheSize)
    (accounts : e.Accounts cacheOf cacheSize) {c : EncoderDecoderCall ω}
    (step : (encoderDecoderRuns cfg parts cacheOf cacheSize).step e c e') :
    e'.Accounts cacheOf cacheSize ↔ e.ReleasesHeld cfg c := by
  obtain ⟨allowed, hcall⟩ := step
  have before := accounts.numFreeSlots
  cases c with
  | setRequest id r =>
    cases hcall
    exact ⟨fun _ => trivial, fun _ => .of_slots before⟩
  | schedule id numComputedTokens numNewTokens encoderComputeBudget shift getsBlocks =>
    obtain ⟨⟨plan, s₁⟩, hplan, hcall⟩ := bind_eq_ok.mp hcall
    have passed := tryScheduleEncoderInputs_passed hold encDec hplan
    cases hcall
    refine ⟨fun _ => trivial, fun _ => .of_slots ?_⟩
    cases getsBlocks with
    | false => exact passed.cache ▸ before
    | true =>
      have slots := (allocateEncoderInputs_slots cfg hold _ s₁
        (passed.request ▸ passed.planned)).1
      rw [passed.cache, passed.request] at slots
      simp only [if_true, heldEmbeds_append, heldEmbeds_entries, slots]
      omega
  | processed id =>
    cases hcall
    have slots := congrArg EncoderDecoderCacheManager.numFreeSlots
      (freeEncoderInputs_slots cfg hold id e.sched)
    obtain ⟨-, exactly⟩ := heldEmbeds_release (e.sched.request id)
      (processedInputs cfg (e.sched.request id)) (nodup_range.filter _) e.held
    refine Iff.trans ⟨fun after => ?_, fun h => .of_slots ?_⟩ exactly
    · have := after.numFreeSlots
      dsimp only at this slots
      omega
    · dsimp only at slots ⊢
      omega
  | free id =>
    cases hcall
    have slots := congrArg EncoderDecoderCacheManager.numFreeSlots (hold.free e.sched.world
      (e.sched.request id) _ (EncoderDecoderCacheManager.freeInputs_ok _
        (fun i hi => mem_range.mp hi) _))
    obtain ⟨-, exactly⟩ := heldEmbeds_release (e.sched.request id)
      (List.range (e.sched.request id).mmFeatures.length) nodup_range e.held
    have same : e.ReleasesHeld cfg (.free id) ↔
        ∀ i ∈ List.range (e.sched.request id).mmFeatures.length,
          entry (e.sched.request id) i ∈ e.held ∨ (e.sched.request id).embedsAt i = 0 := by
      simp only [mem_range]
      rfl
    refine Iff.trans ⟨fun after => ?_, fun h => .of_slots ?_⟩ (exactly.trans same.symm)
    · have := after.numFreeSlots
      dsimp only [EncoderDecoderCacheManager.getCachedInputIds] at this slots
      omega
    · dsimp only [EncoderDecoderCacheManager.getCachedInputIds] at slots ⊢
      omega
  | reset world =>
    cases hcall
    refine ⟨fun _ => trivial, fun _ => .of_slots ?_⟩
    dsimp only
    rw [allowed]
    simp [EncoderDecoderCacheManager.reset, EncoderDecoderCacheManager.init, size, heldEmbeds]

/-- In every run that releases only what is held the accounts are right in every state. -/
theorem reachable_accounts_of_releasesHeld (hold : HoldEncoderDecoderCache parts cacheOf)
    (encDec : cfg.isEncoderDecoder)
    (reached : (encoderDecoderRunsReleasingHeld cfg parts cacheOf cacheSize).Reachable e) :
    e.Accounts cacheOf cacheSize := by
  suffices (cacheOf e.sched.world).cacheSize = cacheSize ∧ e.Accounts cacheOf cacheSize from this.2
  refine reached.invariant (P := fun e => (cacheOf e.sched.world).cacheSize = cacheSize ∧
    e.Accounts cacheOf cacheSize) ?_ ?_
  · rintro e ⟨cache, held⟩
    rw [cache]
    exact ⟨rfl, .of_slots (by rw [cache, held]; simp [EncoderDecoderCacheManager.init, heldEmbeds])⟩
  · rintro e c e' - ⟨size, accounts⟩ ⟨releases, step⟩
    exact ⟨(step_cacheSize hold encDec step).trans size,
      (step_accounts hold encDec size accounts step).mpr releases⟩

end EncoderDecoderRun

end

namespace EncoderDecoderRun

def encoderDecoderParts : Components EncoderDecoderCacheManager :=
  { Components.idle with
    canAllocate := fun m r i budget n => ((m.canAllocate r i budget n).toOption.getD false, m)
    allocateEncoder := fun m r i => (m.allocate r i).toOption.getD m
    freeEncoderInput := fun m r i => (m.freeEncoderInput r i).toOption.getD m
    getCachedInputIds := fun _ r => EncoderDecoderCacheManager.getCachedInputIds r
    freeEncoder := fun m r => (m.free r).toOption.getD m }

theorem encoderDecoderParts_hold : HoldEncoderDecoderCache encoderDecoderParts id where
  canAllocate m r i budget n answer h := by
    change m.canAllocate r i budget n = .ok answer at h
    unfold encoderDecoderParts
    dsimp only
    rw [h]
    exact ⟨rfl, rfl⟩
  allocate m r i m' h := by
    change m.allocate r i = .ok m' at h
    simp only [encoderDecoderParts, h]
    rfl
  getCachedInputIds _ _ := rfl
  freeEncoderInput m r i m' h := by
    change m.freeEncoderInput r i = .ok m' at h
    simp only [encoderDecoderParts, h]
    rfl
  free m r m' h := by
    change m.free r = .ok m' at h
    simp only [encoderDecoderParts, h]
    rfl
  hasCacheItem _ _ := rfl
  ecUpdateStateAfterAlloc _ _ _ := rfl
  ecUpdateStateAfterFree _ _ _ := rfl

/-- An audio model with room for the encoder output of one request. -/
def audioConfig : SchedulerConfig :=
  { maxNumRunningReqs := 2, maxNumActiveReqs := 2, maxNumScheduledTokens := 8,
    maxNumBatchedTokens := 8, maxModelLen := 16, maxNumEncoderInputTokens := 3,
    isEncoderDecoder := true }

def audioRequest : Request :=
  { Request.new "a" [1, 2, 3, 4] 8 with
    mmFeatures := [{ identifier := "audio", mmPosition := ⟨0, 3, by decide⟩ }] }

def idleRun : EncoderDecoderRun EncoderDecoderCacheManager :=
  { sched := .init audioConfig (.init 3), held := [] }

/-- The request is scheduled and aborted before its step is processed. -/
theorem aborted_accounts : ∃ e : EncoderDecoderRun EncoderDecoderCacheManager,
    (encoderDecoderRunsReleasingHeld audioConfig encoderDecoderParts id 3).Reachable e ∧
    e.sched.world.allocated = ["audio"] ∧ e.Accounts id 3 := by
  have added : (encoderDecoderRunsReleasingHeld audioConfig encoderDecoderParts id 3).Reachable _ :=
    .step (s := idleRun) (a := .setRequest "a" audioRequest) (.init ⟨rfl, rfl⟩)
      ⟨trivial, rfl, rfl⟩
  have scheduled : (encoderDecoderRunsReleasingHeld audioConfig encoderDecoderParts id 3).Reachable
      _ := .step (a := .schedule "a" 0 4 3 0 true) added ⟨trivial, trivial, rfl⟩
  have aborted : (encoderDecoderRunsReleasingHeld audioConfig encoderDecoderParts id 3).Reachable
      _ := .step (a := .free "a") scheduled ⟨by
        intro i hi
        have first : i = 0 := by
          have : i < 1 := hi
          omega
        subst first
        exact .inl (by decide +kernel), trivial, rfl⟩
  exact ⟨_, aborted, by decide +kernel,
    reachable_accounts_of_releasesHeld encoderDecoderParts_hold rfl aborted⟩

/-- The request lives on behind its first step: its second processed step releases the
input again, and the counter passes the size of the cache. -/
theorem decoding_exceeds : ¬∀ e : EncoderDecoderRun EncoderDecoderCacheManager,
    (encoderDecoderRuns audioConfig encoderDecoderParts id 3).Reachable e → e.Accounts id 3 := by
  intro all
  have added : (encoderDecoderRuns audioConfig encoderDecoderParts id 3).Reachable _ :=
    .step (s := idleRun) (a := .setRequest "a" audioRequest) (.init ⟨rfl, rfl⟩) ⟨rfl, rfl⟩
  have scheduled : (encoderDecoderRuns audioConfig encoderDecoderParts id 3).Reachable _ :=
    .step (a := .schedule "a" 0 4 3 0 true) added ⟨trivial, rfl⟩
  have advanced : (encoderDecoderRuns audioConfig encoderDecoderParts id 3).Reachable _ :=
    .step (a := .setRequest "a" { audioRequest with numComputedTokens := 4 }) scheduled ⟨rfl, rfl⟩
  have processed : (encoderDecoderRuns audioConfig encoderDecoderParts id 3).Reachable _ :=
    .step (a := .processed "a") advanced ⟨trivial, rfl⟩
  have decoded : (encoderDecoderRuns audioConfig encoderDecoderParts id 3).Reachable _ :=
    .step (a := .schedule "a" 4 1 3 0 true) processed ⟨trivial, rfl⟩
  have again : (encoderDecoderRuns audioConfig encoderDecoderParts id 3).Reachable _ :=
    .step (a := .processed "a") decoded ⟨trivial, rfl⟩
  have bounded := (all _ again).bounded
  exact absurd bounded (by decide +kernel)

end EncoderDecoderRun

end VllmAmpere.Sched
