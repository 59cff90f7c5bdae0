import VllmAmpere.Loops
import VllmAmpere.SchedulerState

/-! How many tokens of a request a step may take: the Mamba chunk ends, the encoder
inputs of the chunk and the prefill look-ahead. -/

namespace VllmAmpere.Sched

/-- `cdiv` on Python ints. -/
def cdivInt (a b : Int) : Int := -(-a / b)

def getMambaPrefillCheckpointPosition (numTokens : Int) (hashBlockSize : Nat)
    (dropEagleBlock : Bool) : Int :=
  let checkpointPosition := (numTokens - 1) / hashBlockSize * hashBlockSize
  max (if dropEagleBlock then checkpointPosition - hashBlockSize else checkpointPosition) 0

def isMambaPrefillCheckpointValid (queryStart queryEnd checkpointPosition : Int)
    (hashBlockSize mambaBlockSize : Nat) (checkpointAlignment : Option Nat) : Bool :=
  match checkpointAlignment with
  | none => false
  | some alignment =>
    let initialStateCol := (queryStart - 1) / mambaBlockSize
    let checkpointCol := cdivInt queryEnd mambaBlockSize - 2
    queryStart % hashBlockSize = 0 ∧ checkpointCol > initialStateCol ∧
      queryStart + hashBlockSize ≤ checkpointPosition ∧
      queryStart < checkpointPosition ∧ checkpointPosition < queryEnd ∧
      (checkpointPosition - queryStart) % alignment = 0

/-- `min((s for s in stops if start < s < end), default=end)`. -/
def earliestStop (start stop : Int) (stops : List Int) : Int :=
  (stops.filter fun s => start < s ∧ s < stop).foldl min stop

namespace SchedulerConfig

variable (cfg : SchedulerConfig)

/-- `_mamba_block_aligned_split`, from the position where the chunk starts. -/
def mambaSplitFrom (r : Request) (start numNewTokens : Int) : Int :=
  let prefillEnd : Int := max (r.numPromptTokens : Int) (r.numTokens - 1)
  if start ≥ prefillEnd then numNewTokens
  else
    let blockSize : Int := cfg.cacheBlockSize
    let aligned : Int := r.numTokens - r.numTokens % blockSize
    let lastCachePosition := if cfg.useEagleBlockDrop then max (aligned - blockSize) 0 else aligned
    let stop := start + numNewTokens
    let checkpointPosition :=
      getMambaPrefillCheckpointPosition prefillEnd cfg.hashBlockSize cfg.useEagleBlockDrop
    let useInternalCheckpoint : Bool := cfg.mambaHasPrefillCheckpointBlocks ∧ stop ≥ prefillEnd ∧
      isMambaPrefillCheckpointValid start stop checkpointPosition cfg.hashBlockSize
        cfg.cacheBlockSize cfg.mambaPrefillCheckpointAlignment
    let lastCachePosition := if useInternalCheckpoint then 0 else lastCachePosition
    let maxPrefillTokens : Int :=
      if 0 < cfg.longPrefillTokenThreshold then
        min cfg.maxNumScheduledTokens cfg.longPrefillTokenThreshold
      else cfg.maxNumScheduledTokens
    let alignedEnd := stop / blockSize * blockSize
    let stop :=
      if stop < prefillEnd ∧ (alignedEnd > start ∨ blockSize ≤ maxPrefillTokens) then alignedEnd
      else stop
    let nextBlockBoundary := (start / blockSize + 1) * blockSize
    let tail : Int :=
      if cfg.mambaPartialCacheHit ∧ ¬useInternalCheckpoint then
        r.numPromptTokens / cfg.hashBlockSize * cfg.hashBlockSize
      else 0
    let tailBoundary : Int :=
      if tail ≠ 0 ∧ cfg.useEagleBlockDrop then max (tail - cfg.hashBlockSize) 0 else tail
    let junction : Int := r.sharedPrefixBoundary
    let blockFloored := start + (junction - start) / blockSize * blockSize
    let junctionStop :=
      if cfg.mambaSharedPrefixCheckpoint ∧ junction ≤ r.numPromptTokens then junction
      else blockFloored
    let stops := [
      if start % blockSize ≠ 0 ∧ ¬useInternalCheckpoint then nextBlockBoundary else 0,
      lastCachePosition,
      if lastCachePosition < tailBoundary ∧ tailBoundary < r.numPromptTokens then tailBoundary
        else 0,
      if start < junction ∧ junction < stop then junctionStop else 0]
    max (earliestStop start stop stops - start) 0

def mambaBlockAlignedSplit (r : Request) (numNewTokens : Int)
    (numNewLocalComputedTokens numExternalComputedTokens : Nat) : Int :=
  cfg.mambaSplitFrom r
    (r.numComputedTokens + numNewLocalComputedTokens + numExternalComputedTokens) numNewTokens

def reservePrefillLookahead (r : Request) (numComputedTokens numNewTokens : Int) : Int :=
  let remaining := r.numTokens - numComputedTokens - numNewTokens
  max (if 0 < remaining ∧ remaining < cfg.numPrefillLookahead then
      numNewTokens - (cfg.numPrefillLookahead - remaining) else numNewTokens) 0

end SchedulerConfig

/-- What `_try_schedule_encoder_inputs` returns. -/
structure EncoderPlan where
  encoderInputsToSchedule : List Nat := []
  numNewTokens : Int
  encoderComputeBudget : Int
  externalLoadEncoderInput : List Nat := []

/-- The trackers of the loop over the features of a chunk. -/
structure EncoderScan extends EncoderPlan where
  mmHashesToSchedule : List (String × Nat) := []
  numEmbedsToSchedule : Nat := 0

/-- The half-open range of feature indices that overlap `[start, stop)`, by the two
binary searches of `get_mm_features_in_window` over sorted features. -/
def getMmFeaturesInWindow (features : List MultiModalFeature) (start stop : Int) : Nat × Nat :=
  ((features.takeWhile fun f => (f.stop : Int) < start + 1).length,
   (features.takeWhile fun f => (f.mmPosition.offset : Int) < stop).length)

namespace Scheduler

variable {ω : Type} (cfg : SchedulerConfig) (parts : Components ω) (s : Scheduler ω) (id : String)

def rejectOnEncoderCacheEmbedMismatch (cached requested : Nat) :
    Bool × Scheduler ω :=
  if cached = requested then (false, s)
  else (true, { s with encoderCacheMismatchReqs := setAdd s.encoderCacheMismatchReqs id })

/-- The check of a feature against what the cache holds under its identifier. -/
def rejectOnCachedMismatch (requested : Nat) :
    Option Nat → Bool × Scheduler ω
  | some cached => s.rejectOnEncoderCacheEmbedMismatch id cached requested
  | none => (false, s)

/-- Whether a feature needs no scheduling: rejected (`some true`), already there
(`some false`) or to be scheduled (`none`). -/
def knownEncoderInput (i : Nat) (f : MultiModalFeature)
    (scheduled : Option Nat) : Option Bool × Scheduler ω :=
  let r := s.request id
  if cfg.isEncoderDecoder then (none, s)
  else match scheduled with
    | some scheduled =>
      let (rejected, s) := s.rejectOnEncoderCacheEmbedMismatch id scheduled f.getNumEmbeds
      (some rejected, s)
    | none =>
      match s.rejectOnCachedMismatch id f.getNumEmbeds
          (parts.getCachedNumEncoderEmbeds s.world r i) with
      | (true, s) => (some true, s)
      | (false, s) =>
        let (cached, world) := parts.checkAndUpdateCache s.world r i
        (if cached then some false else none, { s with world := world })

/-- Take a feature that fits into the plan of the chunk. -/
def planEncoderInput (i : Nat) (f : MultiModalFeature) (scan : EncoderScan) :
    EncoderScan × Scheduler ω :=
  let scan := { scan with
    mmHashesToSchedule := dictSet f.identifier f.getNumEmbeds scan.mmHashesToSchedule
    numEmbedsToSchedule := scan.numEmbedsToSchedule + f.getNumEmbeds }
  let (external, world) :=
    if cfg.hasEcConnector then parts.hasCacheItem s.world f.identifier else (false, s.world)
  let s := { s with world := world }
  if external then
    ({ scan with externalLoadEncoderInput := scan.externalLoadEncoderInput ++ [i] }, s)
  else
    ({ scan with
      encoderComputeBudget := scan.encoderComputeBudget - f.getNumEmbeds
      encoderInputsToSchedule := scan.encoderInputsToSchedule ++ [i] }, s)

/-- A feature to be scheduled: the trackers and whether the loop goes on. -/
def fitEncoderInput (numComputedTokens shift windowEnd : Int)
    (i : Nat) (f : MultiModalFeature) (scan : EncoderScan) : (EncoderScan × Bool) × Scheduler ω :=
  let startPos : Int := f.mmPosition.offset
  let numEncoderTokens : Int := f.mmPosition.length
  if cfg.disableChunkedMmInput ∧ numComputedTokens < startPos ∧
      numComputedTokens + scan.numNewTokens < startPos + numEncoderTokens then
    (({ scan with numNewTokens := max 0 (startPos - (numComputedTokens + shift)) }, false), s)
  else
    let (fits, world) := parts.canAllocate s.world (s.request id) i scan.encoderComputeBudget
      scan.numEmbedsToSchedule
    let s := { s with world := world }
    if ¬fits then
      (({ scan with numNewTokens :=
        if numComputedTokens + shift < startPos then startPos - (numComputedTokens + shift)
        else 0 }, false), s)
    else
      let startIdxRel := max 0 (numComputedTokens - startPos)
      let endIdxRel := min numEncoderTokens (windowEnd - startPos)
      let embeds := f.getEmbedsIndicesInRange startIdxRel.toNat endIdxRel.toNat
      if embeds.2 = embeds.1 then ((scan, true), s)
      else
        let (scan, s) := s.planEncoderInput cfg parts i f scan
        ((scan, true), s)

/-- What the scan does with one feature: `none` when the request is rejected,
otherwise the trackers and whether the loop goes on. -/
def scanEncoderInput (numComputedTokens shift windowEnd : Int)
    (i : Nat) (f : MultiModalFeature) (scan : EncoderScan) :
    Except PyError (Option (EncoderScan × Bool) × Scheduler ω) :=
  if cfg.isEncoderDecoder ∧ numComputedTokens > 0 then do
    pyAssert (f.mmPosition.offset = 0) ("Encoder input should be processed at the beginning of " ++
      "the sequence when encoder-decoder models are used.")
    .ok (some (scan, true), s)
  else
    match s.knownEncoderInput cfg parts id i f (scan.mmHashesToSchedule.lookup f.identifier) with
    | (some true, s) => .ok (none, s)
    | (some false, s) => .ok (some (scan, true), s)
    | (none, s) =>
      let (fitted, s) := s.fitEncoderInput cfg parts id numComputedTokens shift windowEnd i f scan
      .ok (some fitted, s)

/-- The loop over the features `i`, `i + 1`, … of the window. -/
def scanEncoderInputs (id : String) (numComputedTokens shift windowEnd : Int) :
    Nat → List MultiModalFeature → EncoderScan → Scheduler ω →
      Except PyError (Option EncoderScan × Scheduler ω)
  | _, [], scan, s => .ok (some scan, s)
  | i, f :: rest, scan, s => do
    match ← s.scanEncoderInput cfg parts id numComputedTokens shift windowEnd i f scan with
    | (none, s) => .ok (none, s)
    | (some (scan, false), s) => .ok (some scan, s)
    | (some (scan, true), s) =>
      scanEncoderInputs id numComputedTokens shift windowEnd (i + 1) rest scan s

def tryScheduleEncoderInputs
    (numComputedTokens numNewTokens encoderComputeBudget shift : Int) :
    Except PyError (EncoderPlan × Scheduler ω) := do
  let r := s.request id
  if numNewTokens = 0 ∨ ¬r.hasEncoderInputs then
    .ok ({ numNewTokens := numNewTokens, encoderComputeBudget := encoderComputeBudget }, s)
  else
    let windowEnd := numComputedTokens + numNewTokens + shift
    let (lo, hi) := getMmFeaturesInWindow r.mmFeatures numComputedTokens windowEnd
    let lo := if cfg.isEncoderDecoder then 0 else lo
    let (scan, s) ← scanEncoderInputs cfg parts id numComputedTokens shift windowEnd lo
      (slice r.mmFeatures lo hi)
      { numNewTokens := numNewTokens, encoderComputeBudget := encoderComputeBudget } s
    match scan with
    | some scan => .ok (scan.toEncoderPlan, s)
    | none => .ok ({ numNewTokens := 0, encoderComputeBudget := encoderComputeBudget }, s)

/-- The encoder caps of a chunk, for requests with encoder inputs. -/
def encoderPlan
    (numComputedTokens numNewTokens encoderComputeBudget : Int) :
    Except PyError (EncoderPlan × Scheduler ω) :=
  if (s.request id).hasEncoderInputs then
    s.tryScheduleEncoderInputs cfg parts id numComputedTokens numNewTokens encoderComputeBudget
      cfg.numPrefillLookahead
  else .ok ({ numNewTokens := numNewTokens, encoderComputeBudget := encoderComputeBudget }, s)

/-- Allocate the encoder cache for the scheduled and the externally loaded inputs. -/
def allocateEncoderInputs (inputs : List Nat) : Scheduler ω :=
  let allocate := fun world i =>
    let world := parts.allocateEncoder world (s.request id) i
    if cfg.hasEcConnector then parts.ecUpdateStateAfterAlloc world (s.request id) i else world
  { s with world := inputs.foldl allocate s.world }

end Scheduler

/-! The first half of a scheduling step: the running requests, and the preemptions
that make room for them. -/

/-- The local variables of `schedule`. -/
structure Step (ω : Type) where
  sched : Scheduler ω
  reqIndex : Nat := 0
  tokenBudget : Int
  inputBudget : Int
  encoderComputeBudget : Int
  scheduledNewReqs : List String := []
  scheduledResumedReqs : List String := []
  scheduledRunningReqs : List String := []
  preemptedReqs : List String := []
  reqToNewBlocks : List (String × KVCacheBlocks) := []
  numScheduledTokens : List (String × Int) := []
  scheduledEncoderInputs : List (String × List Nat) := []
  scheduledSpecDecodeTokens : List (String × List Int) := []
  scheduledLoras : List Nat := []
  prefillScheduled : Bool := false
  hasSyncKvLoads : Bool := false
  stepSkippedWaiting : List String := []
  stepSkippedKvHolding : List String := []

/-- What a step fixes before its loops. -/
structure StepLimits where
  deferPrefills : Bool
  longPrefillTokenThreshold : Int

/-- The cap that keeps a long prefill from starving other requests. -/
def StepLimits.cap (limits : StepLimits) (numNewTokens : Int) : Int :=
  if 0 < limits.longPrefillTokenThreshold ∧ limits.longPrefillTokenThreshold < numNewTokens then
    limits.longPrefillTokenThreshold
  else numNewTokens

/-- Whether the connector still holds blocks that will be freed, and the state after
asking. -/
def Scheduler.pendingBlockFrees {ω : Type} (cfg : SchedulerConfig) (parts : Components ω)
    (s : Scheduler ω) : Bool × Scheduler ω :=
  if cfg.hasConnector then
    let (pending, world) := parts.hasPendingBlockFrees s.world
    (pending, { s with world := world })
  else (false, s)

namespace Step

variable {ω : Type} (cfg : SchedulerConfig) (parts : Components ω) (limits : StepLimits)
  (st : Step ω)

/-- Whether the step passes over a running request, and the state after asking. -/
def skipsRunning (id : String) : Bool × Scheduler ω :=
  let s := st.sched
  let r := s.request id
  if r.numOutputPlaceholders > 0 ∧ r.numComputedTokens + 2 - r.numOutputPlaceholders ≥
      r.numPromptTokens + r.maxTokens then (true, s)
  else if s.currentStep < r.nextDecodeEligibleStep then (true, s)
  else if limits.deferPrefills ∧ r.isPrefillChunk then (true, s)
  else if cfg.hasEcConnector ∧ r.hasEncoderInputs then
    let (available, world) := parts.ensureCacheAvailable s.world r
      (r.numComputedTokens - r.numOutputPlaceholders)
    (!available, { s with world := world })
  else (false, s)

/-- The tokens of a running request before its encoder caps. -/
def numNewTokensRunning (r : Request) : Int :=
  let wanted := r.numTokensWithSpec + r.numOutputPlaceholders - r.numComputedTokens
  let fits := min (min (limits.cap wanted) st.tokenBudget) (st.inputBudget - cfg.draftSlots)
  let inModel := min fits (cfg.maxModelLen - r.numComputedTokens - cfg.numSampledTokensPerStep)
  if cfg.needMambaBlockAlignedSplit then cfg.mambaBlockAlignedSplit r inModel 0 0 else inModel

/-- `max(self.running, key=lambda r: (r.priority, r.arrival_time))`: the first of the
largest. -/
def lowestPriority (request : String → Request) : List String → Option String
  | [] => none
  | id :: rest => some (rest.foldl (fun best id =>
      let key := fun i => toLex ((request i).priority, (request i).arrivalTime)
      if key best < key id then id else best) id)

/-- Take a lowest-priority victim out of `running` and out of this step. -/
def unschedule (victim : String) : Step ω :=
  let victimIndex := st.sched.running.idxOf victim
  let st := { st with
    sched := { st.sched with running := st.sched.running.eraseIdx victimIndex }
    reqIndex := if victimIndex < st.reqIndex then st.reqIndex - 1 else st.reqIndex }
  if victim ∈ st.scheduledRunningReqs then
    let restored := (st.numScheduledTokens.lookup victim).getD 0
    let inputs := (st.scheduledEncoderInputs.lookup victim).getD []
    { st with
      scheduledRunningReqs := st.scheduledRunningReqs.erase victim
      numScheduledTokens := (dictPop victim st.numScheduledTokens).2
      tokenBudget := st.tokenBudget + restored
      inputBudget := st.inputBudget + (restored + cfg.draftSlots)
      reqToNewBlocks := (dictPop victim st.reqToNewBlocks).2
      scheduledSpecDecodeTokens := (dictPop victim st.scheduledSpecDecodeTokens).2
      scheduledEncoderInputs := (dictPop victim st.scheduledEncoderInputs).2
      encoderComputeBudget := st.encoderComputeBudget +
        ((inputs.map fun i => ((st.sched.request victim).mmFeatures[i]?.elim 0
          MultiModalFeature.getNumEmbeds)).sum : Nat) }
  else st

def preemptionVictim : Option String :=
  match cfg.policy with
  | .priority => lowestPriority st.sched.request st.sched.running
  | .fcfs => st.sched.running.getLast?

def removeVictim (victim : String) : Step ω :=
  match cfg.policy with
  | .priority => st.unschedule cfg victim
  | .fcfs => { st with sched := { st.sched with running := st.sched.running.dropLast } }

/-- A round of the loop around `allocate_slots`: the new blocks of the request, if it
gets them, and the step. -/
def allocateRound (id : String) (numNewTokens : Int) (state : Option KVCacheBlocks × Step ω) :
    Except PyError (Round (Option KVCacheBlocks × Step ω)) :=
  let st := state.2
  let (newBlocks, world) := parts.allocateSlots st.sched.world (st.sched.request id)
    { numNewTokens := numNewTokens, numLookaheadTokens := cfg.numLookaheadTokens }
  let st := { st with sched := { st.sched with world := world } }
  match newBlocks with
  | some newBlocks => .ok (.leave (some newBlocks, st))
  | none =>
    let (pending, sched) := st.sched.pendingBlockFrees cfg parts
    let st := { st with sched := sched }
    if pending then .ok (.leave (none, st))
    else
      match st.preemptionVictim cfg with
      | none => .error .index
      | some victim =>
        if ¬st.sched.requestBlocksCanBeFreed cfg (st.sched.request victim) then
          .ok (.leave (none, st))
        else do
          let st := st.removeVictim cfg victim
          let sched ← st.sched.preemptRequest cfg parts victim cfg.requiresKvDelivery
          let st := { st with sched := sched, preemptedReqs := st.preemptedReqs ++ [victim] }
          if victim = id then .ok (.leave (none, st)) else .ok (.next (none, st))

def scheduleRunning (id : String) (newBlocks : KVCacheBlocks) (plan : EncoderPlan) : Step ω :=
  let r := st.sched.request id
  let n := plan.numNewTokens
  let numScheduledSpecTokens := n + r.numComputedTokens - r.numTokens - r.numOutputPlaceholders
  let st := { st with
    scheduledRunningReqs := st.scheduledRunningReqs ++ [id]
    prefillScheduled := st.prefillScheduled || r.isPrefillChunk
    reqToNewBlocks := dictSet id newBlocks st.reqToNewBlocks
    numScheduledTokens := dictSet id n st.numScheduledTokens
    tokenBudget := st.tokenBudget - n
    inputBudget := st.inputBudget - (n + cfg.draftSlots)
    reqIndex := st.reqIndex + 1
    scheduledSpecDecodeTokens :=
      if ¬r.specTokenIds.isEmpty ∧ 0 < numScheduledSpecTokens then
        dictSet id (r.specTokenIds.take numScheduledSpecTokens.toNat) st.scheduledSpecDecodeTokens
      else st.scheduledSpecDecodeTokens
    sched := st.sched.setRequest id { r with specTokenIds := [] } }
  let st :=
    if plan.encoderInputsToSchedule.isEmpty then st
    else { st with
      scheduledEncoderInputs :=
        dictSet id plan.encoderInputsToSchedule st.scheduledEncoderInputs
      sched := st.sched.allocateEncoderInputs cfg parts id plan.encoderInputsToSchedule
      encoderComputeBudget := plan.encoderComputeBudget }
  { st with sched := st.sched.allocateEncoderInputs cfg parts id plan.externalLoadEncoderInput }

def runningRound : Except PyError (Round (Step ω)) :=
  match st.sched.running[st.reqIndex]? with
  | none => .ok (.leave st)
  | some id =>
    if ¬0 < st.tokenBudget ∨ st.inputBudget ≤ cfg.draftSlots then .ok (.leave st)
    else do
      let (skips, sched) := st.skipsRunning cfg parts limits id
      let st := { st with sched := sched }
      if skips then .ok (.next { st with reqIndex := st.reqIndex + 1 })
      else
        let r := st.sched.request id
        let (plan, sched) ← st.sched.encoderPlan cfg parts id r.numComputedTokens
          (st.numNewTokensRunning cfg limits r) st.encoderComputeBudget
        let st := { st with sched := sched }
        let plan := { plan with numNewTokens :=
          cfg.reservePrefillLookahead r r.numComputedTokens plan.numNewTokens }
        if plan.numNewTokens = 0 then .ok (.next { st with reqIndex := st.reqIndex + 1 })
        else
          let allocated ← iterate (allocateRound cfg parts id plan.numNewTokens)
            (st.sched.running.length + 1) (none, st)
          match allocated with
          | none => .error (.runtime "the preemption loop did not end")
          | some (none, st) => .ok (.leave st)
          | some (some newBlocks, st) =>
            .ok (.next (st.scheduleRunning cfg parts id newBlocks plan))

def runningLoras : List Nat :=
  (st.scheduledRunningReqs.filterMap fun id =>
    (st.sched.request id).loraIntId.filter (0 < ·)).dedup

def scheduleRunningReqs : Except PyError (Step ω) := do
  let ended ← iterate (runningRound cfg parts limits) (st.sched.running.length + 1) st
  match ended with
  | none => .error (.runtime "the loop over the running requests did not end")
  | some st =>
    match cfg.maxLoras with
    | none => .ok st
    | some maxLoras => do
      let st := { st with scheduledLoras := st.runningLoras }
      pyAssert (st.scheduledLoras.length ≤ maxLoras) "len(scheduled_loras) <= max_loras"
      .ok st

end Step

end VllmAmpere.Sched
