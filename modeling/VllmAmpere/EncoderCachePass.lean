import VllmAmpere.EncoderCacheRun

/-! The encoder pass of the scheduler, over components that hold an encoder cache, is a
run of calls of that cache. -/

open List

namespace VllmAmpere.Sched

/-- The components hold an encoder cache in their state and pass its calls on; the
encoder-cache connector leaves it alone. -/
structure HoldEncoderCache {ω : Type} (parts : Components ω)
    (cacheOf : ω → EncoderCacheManager) : Prop where
  checkAndUpdateCache : ∀ w r i answer, (cacheOf w).checkAndUpdateCache r i = .ok answer →
    (parts.checkAndUpdateCache w r i).1 = answer.1 ∧
      cacheOf (parts.checkAndUpdateCache w r i).2 = answer.2
  canAllocate : ∀ w r i budget n answer, (cacheOf w).canAllocate r i budget n = .ok answer →
    (parts.canAllocate w r i budget n).1 = answer.1 ∧
      cacheOf (parts.canAllocate w r i budget n).2 = answer.2
  allocate : ∀ w r i m, (cacheOf w).allocate r i = .ok m →
    cacheOf (parts.allocateEncoder w r i) = m
  hasCacheItem : ∀ w mmHash, cacheOf (parts.hasCacheItem w mmHash).2 = cacheOf w
  ecUpdateStateAfterAlloc : ∀ w r i, cacheOf (parts.ecUpdateStateAfterAlloc w r i) = cacheOf w

/-- An encoder cache run stands where the scheduler stands in a pass over a request. -/
structure EncoderRun.Tracks {ω : Type} (cacheOf : ω → EncoderCacheManager) (s : Scheduler ω)
    (id : String) (e : EncoderRun) : Prop where
  request : e.request = s.request
  manager : e.manager = cacheOf s.world
  requestId : e.pass.requestId = id

/-- The trackers of the scan are those of the pass. -/
structure EncoderScan.Plans (scan : EncoderScan) (e : EncoderRun) : Prop where
  admitted : (scan.encoderInputsToSchedule ++ scan.externalLoadEncoderInput).Perm
    e.pass.admitted
  numEmbeds : scan.numEmbedsToSchedule = e.pass.numEmbedsToSchedule
  known : ∀ mmHash, scan.mmHashesToSchedule.lookup mmHash ≠ none ↔
    ∃ i ∈ e.pass.admitted, e.current.identifierAt i = some mmHash

/-- The embeddings of an identifier are cached for the request of the pass, or planned. -/
def EncoderRun.Provides (e : EncoderRun) (mmHash : String) : Prop :=
  e.manager.Holds e.pass.requestId mmHash ∨
    ∃ i ∈ e.pass.admitted, e.current.identifierAt i = some mmHash

/-- What is left of the compute budget, beside the inputs to encode. -/
def EncoderScan.Spends (r : Request) (budget : Int) (scan : EncoderScan) : Prop :=
  ((scan.encoderInputsToSchedule.map r.embedsAt).sum : Int) + scan.encoderComputeBudget = budget ∧
    0 ≤ scan.encoderComputeBudget

/-- The scan finds no embedding of the feature in its window. -/
def MultiModalFeature.NoEmbeds (f : MultiModalFeature) (numComputedTokens windowEnd : Int) : Prop :=
  let embeds := f.getEmbedsIndicesInRange (max 0 (numComputedTokens - f.mmPosition.offset)).toNat
    (min (f.mmPosition.length : Int) (windowEnd - f.mmPosition.offset)).toNat
  embeds.2 = embeds.1

def EncoderRun.Covers (e : EncoderRun) (numComputedTokens windowEnd : Int)
    (features : List MultiModalFeature) : Prop :=
  ∀ f ∈ features, e.Provides f.identifier ∨ f.NoEmbeds numComputedTokens windowEnd

variable {ω : Type} {cfg : SchedulerConfig} {parts : Components ω}
  {cacheOf : ω → EncoderCacheManager} {cacheSize : Nat} {s s' : Scheduler ω} {id : String}
  {e : EncoderRun}

/-- The run goes on to where the scheduler stands, without allocating. -/
structure EncoderRun.Follows (cacheOf : ω → EncoderCacheManager) (cacheSize : Nat) (id : String)
    (e : EncoderRun) (s' : Scheduler ω) (e' : EncoderRun) : Prop where
  leads : (encoderCacheRuns cacheSize).Leads e e'
  sound : e'.Sound cacheSize
  tracks : e'.Tracks cacheOf s' id
  request : e'.request = e.request
  roomier : e.manager.Roomier e'.manager
  provides : ∀ mmHash, e.Provides mmHash → e'.Provides mmHash

theorem EncoderRun.Follows.refl (sound : e.Sound cacheSize) (tracks : e.Tracks cacheOf s id) :
    e.Follows cacheOf cacheSize id s e := ⟨.refl, sound, tracks, rfl, .refl, fun _ h => h⟩

theorem EncoderRun.Follows.trans {e' e'' : EncoderRun} {s'' : Scheduler ω}
    (h : e.Follows cacheOf cacheSize id s' e') (h' : e'.Follows cacheOf cacheSize id s'' e'') :
    e.Follows cacheOf cacheSize id s'' e'' :=
  ⟨h.leads.trans h'.leads, h'.sound, h'.tracks, h'.request.trans h.request,
    h.roomier.trans h'.roomier, fun mmHash known => h'.provides mmHash (h.provides mmHash known)⟩

theorem EncoderRun.Tracks.current (tracks : e.Tracks cacheOf s id) : e.current = s.request id := by
  rw [EncoderRun.current, tracks.request, tracks.requestId]

variable {i : Nat} {f : MultiModalFeature}

theorem embedsAt_eq {r : Request} (h : r.mmFeatures[i]? = some f) : r.embedsAt i = f.getNumEmbeds := by
  simp [Request.embedsAt, h]

theorem rejectOnEncoderCacheEmbedMismatch_frame (s : Scheduler ω) (id : String)
    (cached requested : Nat) :
    (s.rejectOnEncoderCacheEmbedMismatch id cached requested).2.request = s.request ∧
    (s.rejectOnEncoderCacheEmbedMismatch id cached requested).2.world = s.world := by
  unfold Scheduler.rejectOnEncoderCacheEmbedMismatch
  split <;> exact ⟨rfl, rfl⟩

theorem rejectOnCachedMismatch_frame (s : Scheduler ω) (id : String) (requested : Nat)
    (cached : Option Nat) : (s.rejectOnCachedMismatch id requested cached).2.request = s.request ∧
    (s.rejectOnCachedMismatch id requested cached).2.world = s.world := by
  cases cached with
  | none => exact ⟨rfl, rfl⟩
  | some n => exact rejectOnEncoderCacheEmbedMismatch_frame s id n requested

/-- Whether a feature is known already takes a check at most; one to be scheduled is
neither planned nor cached, and its check changes nothing. -/
theorem knownEncoderInput_run (hold : HoldEncoderCache parts cacheOf)
    (notEncDec : cfg.isEncoderDecoder = false) (sound : e.Sound cacheSize)
    (tracks : e.Tracks cacheOf s id)
    (feature : (s.request id).mmFeatures[i]? = some f) (scheduled : Option Nat)
    {known : Option Bool} (h : s.knownEncoderInput cfg parts id i f scheduled = (known, s')) :
    ∃ e', e.Follows cacheOf cacheSize id s' e' ∧ e'.pass = e.pass ∧
    (known = none → scheduled = none ∧ e.manager.cached.get? f.identifier = none ∧
    e'.manager = e.manager) ∧
    (known = some false → scheduled ≠ none ∨ e.manager.cached.get? f.identifier ≠ none ∧
    e'.Provides f.identifier) := by
  unfold Scheduler.knownEncoderInput at h
  simp only [notEncDec, Bool.false_eq_true, if_false] at h
  cases scheduled with
  | some n =>
    have ⟨request, world⟩ := rejectOnEncoderCacheEmbedMismatch_frame s id n f.getNumEmbeds
    dsimp only at h
    obtain ⟨rfl, rfl⟩ := Prod.mk.inj h
    exact ⟨e, .refl sound ⟨tracks.request.trans request.symm,
      tracks.manager.trans (congrArg cacheOf world.symm), tracks.requestId⟩, rfl, nofun,
      fun _ => .inl nofun⟩
  | none =>
    dsimp only at h
    have frame := rejectOnCachedMismatch_frame s id f.getNumEmbeds
      (parts.getCachedNumEncoderEmbeds s.world (s.request id) i)
    generalize s.rejectOnCachedMismatch id f.getNumEmbeds
      (parts.getCachedNumEncoderEmbeds s.world (s.request id) i) = result at h frame
    obtain ⟨rejected, s₁⟩ := result
    have tracks₁ : e.Tracks cacheOf s₁ id := ⟨tracks.request.trans frame.1.symm,
      tracks.manager.trans (congrArg cacheOf frame.2.symm), tracks.requestId⟩
    cases rejected with
    | true =>
      obtain ⟨rfl, rfl⟩ := Prod.mk.inj h
      exact ⟨e, .refl sound tracks₁, rfl, nofun, nofun⟩
    | false =>
      have current : e.current = s.request id := tracks.current
      have identified : e.current.identifierAt i = some f.identifier :=
        Request.identifierAt_eq.mpr ⟨f, current ▸ feature, rfl⟩
      obtain ⟨hit, m', hcall, keeps, holds, miss, cached⟩ :=
        EncoderCacheManager.checkAndUpdateCache_spec sound.accounts sound.references
          (sound.named e.pass.requestId) identified
      have answers := hold.checkAndUpdateCache s₁.world (s.request id) i (hit, m') (by
        rw [← tracks₁.manager, ← current]
        exact hcall)
      have step : (encoderCacheRuns cacheSize).Leads e (e.setManager m') :=
        .single ⟨.checkAndUpdateCache i, by
          have := (List.getElem?_eq_some_iff.mp (current ▸ feature)).1
          exact this, bind_eq_ok.mpr ⟨_, hcall, rfl⟩⟩
      obtain ⟨answer, rfl⟩ := Prod.mk.inj h
      have answered : (if hit = true then some false else none) = known := by
        have first : (parts.checkAndUpdateCache s₁.world (s.request id) i).1 = hit := answers.1
        rw [← first]
        exact answer
      refine ⟨e.setManager m', ⟨step, sound.keeps keeps,
        ⟨tracks₁.request, answers.2.symm, tracks₁.requestId⟩, rfl, keeps.roomier,
        fun mmHash => Or.imp_left (holds _ mmHash)⟩, rfl, fun unknown => ?_, fun found => .inr ?_⟩
      · have missed : hit = false := by
          cases hit with
          | true => rw [unknown] at answered; cases answered
          | false => rfl
        have ⟨absent, same⟩ := miss missed
        exact ⟨rfl, absent, same⟩
      · cases hit with
        | true => exact (cached rfl).imp_right .inl
        | false => rw [found] at answered; cases answered

theorem planEncoderInput_run (hold : HoldEncoderCache parts cacheOf)
    (tracks : e.Tracks cacheOf s id)
    (feature : (s.request id).mmFeatures[i]? = some f) {scan scan' : EncoderScan}
    (plans : scan.Plans e) (h : s.planEncoderInput cfg parts i f scan = (scan', s')) :
    (e.plan i).Tracks cacheOf s' id ∧ scan'.Plans (e.plan i) := by
  have current : e.current = s.request id := tracks.current
  have embeds : e.current.embedsAt i = f.getNumEmbeds := embedsAt_eq (current ▸ feature)
  have identified : e.current.identifierAt i = some f.identifier :=
    Request.identifierAt_eq.mpr ⟨f, current ▸ feature, rfl⟩
  have known : ∀ mmHash,
      (dictSet f.identifier f.getNumEmbeds scan.mmHashesToSchedule).lookup mmHash ≠ none ↔
        ∃ j ∈ e.pass.admitted ++ [i], e.current.identifierAt j = some mmHash := by
    intro mmHash
    simp only [lookup_dictSet, mem_append, mem_singleton, or_and_right, exists_or,
      exists_eq_left, identified, Option.some.injEq, ← plans.known mmHash]
    split
    · rename_i same
      simp [same]
    · rename_i other
      exact (or_iff_left (Ne.symm other)).symm
  unfold Scheduler.planEncoderInput at h
  generalize hext : (if cfg.hasEcConnector then parts.hasCacheItem s.world f.identifier
    else (false, s.world)) = external at h
  obtain ⟨isExternal, world⟩ := external
  have hworld : e.manager = cacheOf world := by
    rw [tracks.manager]
    split at hext
    · rw [← hold.hasCacheItem s.world f.identifier, hext]
    · cases hext
      rfl
  cases isExternal with
  | true =>
    obtain ⟨rfl, rfl⟩ := Prod.mk.inj h
    refine ⟨⟨tracks.request, hworld, tracks.requestId⟩, ?_, ?_, known⟩
    · change (scan.encoderInputsToSchedule ++ (scan.externalLoadEncoderInput ++ [i])).Perm
        (e.pass.admitted ++ [i])
      rw [← append_assoc]
      exact plans.admitted.append_right [i]
    · exact congrArg₂ (· + ·) plans.numEmbeds embeds.symm
  | false =>
    obtain ⟨rfl, rfl⟩ := Prod.mk.inj h
    refine ⟨⟨tracks.request, hworld, tracks.requestId⟩, ?_, ?_, known⟩
    · change ((scan.encoderInputsToSchedule ++ [i]) ++ scan.externalLoadEncoderInput).Perm
        (e.pass.admitted ++ [i])
      refine .trans ?_ (plans.admitted.append_right [i])
      rw [append_assoc, append_assoc]
      exact (perm_append_comm).append_left _
    · exact congrArg₂ (· + ·) plans.numEmbeds embeds.symm

/-- What a feature that may fit makes of the tokens of the chunk: the scan stops before it,
or it is not cut where items are not chunked, and the cache has room for it. -/
structure EncoderScan.Fitted (cfg : SchedulerConfig) (numComputedTokens shift : Int)
    (m : EncoderCacheManager) (r : Request) (i : Nat) (f : MultiModalFeature)
    (scan scan' : EncoderScan) (goes : Bool) : Prop where
  stopped : goes = false →
    scan'.numNewTokens = max 0 ((f.mmPosition.offset : Int) - (numComputedTokens + shift))
  passed : goes = true → scan'.numNewTokens = scan.numNewTokens ∧
    ¬(cfg.disableChunkedMmInput ∧ numComputedTokens < f.mmPosition.offset ∧
      numComputedTokens + scan.numNewTokens < f.mmPosition.offset + f.mmPosition.length) ∧
    ∃ m', m.canAllocate r i scan.encoderComputeBudget scan.numEmbedsToSchedule = .ok (true, m')
  keys : ∀ mmHash, mmHash ≠ f.identifier →
    scan'.mmHashesToSchedule.lookup mmHash = scan.mmHashesToSchedule.lookup mmHash

variable (cfg parts) in
theorem planEncoderInput_trackers (s : Scheduler ω) (i : Nat) (f : MultiModalFeature)
    (scan : EncoderScan) :
    (s.planEncoderInput cfg parts i f scan).1.numNewTokens = scan.numNewTokens ∧
    (s.planEncoderInput cfg parts i f scan).1.mmHashesToSchedule =
    dictSet f.identifier f.getNumEmbeds scan.mmHashesToSchedule := by
  unfold Scheduler.planEncoderInput
  dsimp only
  generalize (if cfg.hasEcConnector then parts.hasCacheItem s.world f.identifier
    else (false, s.world)) = external
  cases external.1 <;> exact ⟨rfl, rfl⟩

theorem planEncoderInput_spends {r : Request} (feature : r.mmFeatures[i]? = some f)
    {scan scan' : EncoderScan} (h : s.planEncoderInput cfg parts i f scan = (scan', s'))
    {budget : Int} (spent : scan.Spends r budget)
    (within : (r.embedsAt i : Int) ≤ scan.encoderComputeBudget) : scan'.Spends r budget := by
  have embeds := embedsAt_eq feature
  obtain ⟨sum, left⟩ := spent
  unfold Scheduler.planEncoderInput at h
  generalize (if cfg.hasEcConnector then parts.hasCacheItem s.world f.identifier
    else (false, s.world)) = external at h
  obtain ⟨isExternal, world⟩ := external
  cases isExternal with
  | true =>
    cases h
    exact ⟨sum, left⟩
  | false =>
    cases h
    refine ⟨?_, by dsimp only; omega⟩
    rw [map_append, sum_append]
    simp only [map_cons, map_nil, sum_cons, sum_nil]
    omega

theorem fitEncoderInput_run (hold : HoldEncoderCache parts cacheOf) (sound : e.Sound cacheSize)
    (tracks : e.Tracks cacheOf s id)
    (feature : (s.request id).mmFeatures[i]? = some f) {scan scan' : EncoderScan} {goes : Bool}
    (plans : scan.Plans e) (unplanned : scan.mmHashesToSchedule.lookup f.identifier = none)
    (absent : e.manager.cached.get? f.identifier = none) {numComputedTokens shift windowEnd : Int}
    (h : s.fitEncoderInput cfg parts id numComputedTokens shift windowEnd i f scan =
    ((scan', goes), s')) : ∃ e', e.Follows cacheOf cacheSize id s' e' ∧ scan'.Plans e' ∧
    (goes = true → e'.Provides f.identifier ∨ f.NoEmbeds numComputedTokens windowEnd) ∧
    (∀ budget, scan.Spends e.current budget → scan'.Spends e.current budget) ∧
    scan.Fitted cfg numComputedTokens shift e.manager e.current i f scan' goes := by
  have current : e.current = s.request id := tracks.current
  have identified : e.current.identifierAt i = some f.identifier :=
    Request.identifierAt_eq.mpr ⟨f, current ▸ feature, rfl⟩
  have fresh : some f.identifier ∉ e.pass.admitted.map e.current.identifierAt := by
    intro planned
    obtain ⟨j, hj, same⟩ := mem_map.mp planned
    exact (plans.known f.identifier).mpr ⟨j, hj, same⟩ unplanned
  have allowed : ∀ take, e.Allowed (.canAllocate i scan.encoderComputeBudget take) :=
    fun _ => ⟨f.identifier, identified, absent, fresh⟩
  obtain ⟨fits, m', hcall, keeps, holds, within⟩ := EncoderCacheManager.canAllocate_spec sound.accounts
    sound.references (current ▸ feature : e.current.mmFeatures[i]? = some f)
    scan.encoderComputeBudget e.pass.numEmbedsToSchedule
  have answers := hold.canAllocate s.world (s.request id) i scan.encoderComputeBudget
    scan.numEmbedsToSchedule (fits, m') (by
      rw [← tracks.manager, ← current, plans.numEmbeds]
      exact hcall)
  -- The call with the answer that the scheduler makes use of.
  have step : ∀ take e', (if fits && take then (e.setManager m').plan i
      else e.setManager m') = e' →
      (encoderCacheRuns cacheSize).Leads e e' ∧ e'.Sound cacheSize := by
    rintro take _ rfl
    obtain ⟨e', hcall', sound', -⟩ := sound.call (allowed take)
    have same : e.call (.canAllocate i scan.encoderComputeBudget take) =
        .ok (if fits && take then (e.setManager m').plan i else e.setManager m') :=
      bind_eq_ok.mpr ⟨_, hcall, rfl⟩
    cases hcall'.symm.trans same
    exact ⟨.single ⟨_, allowed take, same⟩, sound'⟩
  have plans' : scan.Plans (e.setManager m') := ⟨plans.admitted, plans.numEmbeds, plans.known⟩
  rw [← plans.numEmbeds] at hcall
  unfold Scheduler.fitEncoderInput at h
  generalize parts.canAllocate s.world (s.request id) i scan.encoderComputeBudget
    scan.numEmbedsToSchedule = answer at h answers
  obtain ⟨fits', world⟩ := answer
  obtain ⟨hfits, hworld⟩ := answers
  dsimp only at h hworld hfits
  subst hfits
  have tracks' : (e.setManager m').Tracks cacheOf { s with world := world } id :=
    ⟨tracks.request, hworld.symm, tracks.requestId⟩
  have follows : (encoderCacheRuns cacheSize).Leads e (e.setManager m') ∧
      (e.setManager m').Sound cacheSize → e.Follows cacheOf cacheSize id
        { s with world := world } (e.setManager m') := fun both =>
    ⟨both.1, both.2, tracks', rfl, keeps.roomier, fun mmHash => Or.imp_left (holds _ mmHash)⟩
  split at h
  · obtain ⟨hscan, rfl⟩ := Prod.mk.inj h
    obtain ⟨rfl, rfl⟩ := Prod.mk.inj hscan
    refine ⟨e, .refl sound tracks, ⟨plans.admitted, plans.numEmbeds, plans.known⟩, (by simp),
      fun _ spent => spent, fun _ => rfl, (by simp), fun _ _ => rfl⟩
  rename_i uncut
  split at h
  · obtain ⟨hscan, rfl⟩ := Prod.mk.inj h
    obtain ⟨rfl, rfl⟩ := Prod.mk.inj hscan
    refine ⟨_, follows (step false _ (if_neg (by simp))),
      ⟨plans'.admitted, plans'.numEmbeds, plans'.known⟩, (by simp), fun _ spent => spent, fun _ => ?_,
      (by simp), fun _ _ => rfl⟩
    dsimp only
    split <;> omega
  rename_i fitting
  have room : ∃ m', e.manager.canAllocate e.current i scan.encoderComputeBudget
      scan.numEmbedsToSchedule = .ok (true, m') :=
    ⟨m', by rw [hcall, not_not.mp fitting]⟩
  split at h
  · rename_i none
    obtain ⟨hscan, rfl⟩ := Prod.mk.inj h
    obtain ⟨rfl, rfl⟩ := Prod.mk.inj hscan
    exact ⟨_, follows (step false _ (if_neg (by simp))),
      ⟨plans'.admitted, plans'.numEmbeds, plans'.known⟩, fun _ => .inr none, fun _ spent => spent,
      (by simp), fun _ => ⟨rfl, uncut, room⟩, fun _ _ => rfl⟩
  · obtain ⟨leads, sound'⟩ := step true _ (if_pos (by simpa using fitting))
    have trackers := planEncoderInput_trackers cfg parts
      { s with world := world } i f scan
    generalize hplan : Scheduler.planEncoderInput cfg parts { s with world := world } i f scan =
      planned at h trackers
    obtain ⟨hscan, rfl⟩ := Prod.mk.inj h
    obtain ⟨rfl, rfl⟩ := Prod.mk.inj hscan
    obtain ⟨tracks₂, plans₂⟩ := planEncoderInput_run hold tracks' feature plans' hplan
    refine ⟨_, ⟨leads, sound', tracks₂, rfl, keeps.roomier, fun mmHash => Or.imp (holds _ mmHash)
      (Exists.imp fun _ => And.imp_left (mem_append_left _))⟩, plans₂,
      fun _ => .inl (.inr ⟨i, mem_append_right _ mem_cons_self, identified⟩),
      fun budget spent => ?_, (by simp), fun _ => ⟨trackers.1, uncut, room⟩, fun mmHash other => ?_⟩
    · rw [current] at spent ⊢
      exact planEncoderInput_spends (current ▸ feature) hplan spent
        (current ▸ (within (not_not.mp fitting)).2)
    · rw [trackers.2, lookup_dictSet, if_neg other]

theorem scanEncoderInput_run (hold : HoldEncoderCache parts cacheOf)
    (notEncDec : cfg.isEncoderDecoder = false) (sound : e.Sound cacheSize)
    (tracks : e.Tracks cacheOf s id)
    (feature : (e.request id).mmFeatures[i]? = some f) {scan : EncoderScan} (plans : scan.Plans e)
    {numComputedTokens shift windowEnd : Int} {result : Option (EncoderScan × Bool)}
    (h : s.scanEncoderInput cfg parts id numComputedTokens shift windowEnd i f scan =
    .ok (result, s')) : ∃ e', e.Follows cacheOf cacheSize id s' e' ∧
    ∀ scan' goes, result = some (scan', goes) → scan'.Plans e' ∧
    (goes = true → e'.Provides f.identifier ∨ f.NoEmbeds numComputedTokens windowEnd) ∧
    (∀ budget, scan.Spends e.current budget → scan'.Spends e.current budget) ∧
    ((scan' = scan ∧ goes = true ∧ (scan.mmHashesToSchedule.lookup f.identifier ≠ none ∨
    e.manager.cached.get? f.identifier ≠ none)) ∨
    scan.Fitted cfg numComputedTokens shift e.manager e.current i f scan' goes) := by
  unfold Scheduler.scanEncoderInput at h
  simp only [notEncDec, Bool.false_eq_true, false_and, if_false] at h
  generalize hknown : s.knownEncoderInput cfg parts id i f
    (scan.mmHashesToSchedule.lookup f.identifier) = answer at h
  obtain ⟨known, s₁⟩ := answer
  obtain ⟨e₁, follows₁, pass₁, unknown, found⟩ := knownEncoderInput_run hold notEncDec sound tracks
    (tracks.request ▸ feature) _ hknown
  have current₁ : e₁.current = e.current := by
    rw [EncoderRun.current, EncoderRun.current, follows₁.request, pass₁]
  have plans₁ : scan.Plans e₁ := by
    refine ⟨pass₁ ▸ plans.admitted, pass₁ ▸ plans.numEmbeds, ?_⟩
    rw [pass₁, current₁]
    exact plans.known
  cases known with
  | some rejected =>
    cases rejected with
    | true =>
      cases h
      exact ⟨e₁, follows₁, (by simp)⟩
    | false =>
      cases h
      refine ⟨e₁, follows₁, fun scan' goes same => ?_⟩
      cases same
      refine ⟨plans₁, fun _ => .inl ?_, fun _ spent => spent,
        .inl ⟨rfl, rfl, (found rfl).imp_right And.left⟩⟩
      rcases found rfl with planned | ⟨-, provided⟩
      · exact .inr ((plans₁.known f.identifier).mp planned)
      · exact provided
  | none =>
    obtain ⟨unplanned, absent, manager⟩ := unknown rfl
    have hfit : s₁.fitEncoderInput cfg parts id numComputedTokens shift windowEnd i f scan =
        (((s₁.fitEncoderInput cfg parts id numComputedTokens shift windowEnd i f scan).1.1,
          (s₁.fitEncoderInput cfg parts id numComputedTokens shift windowEnd i f scan).1.2), s') :=
      Prod.ext rfl (Prod.mk.inj (Except.ok.inj h)).2
    have answered := (Prod.mk.inj (Except.ok.inj h)).1
    obtain ⟨e₂, follows₂, plans₂, provides, spends, fitted⟩ := fitEncoderInput_run hold follows₁.sound follows₁.tracks
      (follows₁.tracks.request ▸ follows₁.request ▸ feature) plans₁ unplanned
      (manager ▸ absent) hfit
    refine ⟨e₂, follows₁.trans follows₂, fun _ _ same => ?_⟩
    rw [current₁] at spends
    rw [show _ = (_, _) from Option.some.inj (answered.trans same)] at plans₂ provides spends fitted
    rw [manager, current₁] at fitted
    exact ⟨plans₂, provides, spends, .inr fitted⟩

/-- The scan gets past the features: one that is neither cached nor planned, nor has the
identifier of one before it, is not cut, and the first one has room in the cache. -/
def EncoderScan.PassesAll (cfg : SchedulerConfig) (numComputedTokens : Int)
    (m : EncoderCacheManager) (r : Request) (i : Nat) (features : List MultiModalFeature)
    (scan : EncoderScan) : Prop :=
  ∀ k f, features[k]? = some f → m.cached.get? f.identifier = none →
    scan.mmHashesToSchedule.lookup f.identifier = none →
    (∀ j g, j < k → features[j]? = some g → g.identifier ≠ f.identifier) →
      ¬(cfg.disableChunkedMmInput ∧ numComputedTokens < f.mmPosition.offset ∧
        numComputedTokens + scan.numNewTokens < f.mmPosition.offset + f.mmPosition.length) ∧
      (k = 0 → ∃ m', m.canAllocate r i scan.encoderComputeBudget scan.numEmbedsToSchedule =
        .ok (true, m'))

theorem EncoderScan.PassesAll.cons {numComputedTokens shift : Int} {m m₁ : EncoderCacheManager}
    {r : Request} {rest : List MultiModalFeature}
    {scan scan₁ : EncoderScan} (roomier : m.Roomier m₁)
    (first : (scan₁ = scan ∧ (scan.mmHashesToSchedule.lookup f.identifier ≠ none ∨
    m.cached.get? f.identifier ≠ none)) ∨
    scan.Fitted cfg numComputedTokens shift m r i f scan₁ true)
    (others : scan₁.PassesAll cfg numComputedTokens m₁ r (i + 1) rest) :
    scan₁.numNewTokens = scan.numNewTokens ∧
    scan.PassesAll cfg numComputedTokens m r i (f :: rest) := by
  have tokens : scan₁.numNewTokens = scan.numNewTokens := by
    rcases first with ⟨rfl, -⟩ | fitted
    · rfl
    · exact (fitted.passed rfl).1
  refine ⟨tokens, fun k g hk absent unplanned distinct => ?_⟩
  cases k with
  | zero =>
    cases hk
    rcases first with ⟨-, known | known⟩ | fitted
    · exact absurd unplanned known
    · exact absurd absent known
    · obtain ⟨-, uncut, room⟩ := fitted.passed rfl
      exact ⟨uncut, fun _ => room⟩
  | succ k =>
    have other : g.identifier ≠ f.identifier := (distinct 0 f (by omega) rfl).symm
    obtain ⟨uncut, -⟩ := others k g hk (roomier.cached _ absent) (by
      rcases first with ⟨rfl, -⟩ | fitted
      · exact unplanned
      · rw [fitted.keys _ other, unplanned]) fun j g' hj hg' => distinct (j + 1) g' (by omega) hg'
    rw [tokens] at uncut
    exact ⟨uncut, nofun⟩

section

variable (hold : HoldEncoderCache parts cacheOf) (notEncDec : cfg.isEncoderDecoder = false)
include hold notEncDec

/-- What the scan does with the features of the window: it stops before one of them, or
passes them all. -/
theorem scanEncoderInputs_run {numComputedTokens shift windowEnd : Int}
    (features : List MultiModalFeature) {scan : EncoderScan}
    {s s' : Scheduler ω} {e : EncoderRun} (sound : e.Sound cacheSize)
    (tracks : e.Tracks cacheOf s id)
    (feature : ∀ k f, features[k]? = some f → (e.request id).mmFeatures[i + k]? = some f)
    (plans : scan.Plans e) {result : Option EncoderScan}
    (h : Scheduler.scanEncoderInputs cfg parts id numComputedTokens shift windowEnd i features scan
    s = .ok (result, s')) : ∃ e', e.Follows cacheOf cacheSize id s' e' ∧
    ∀ scan', result = some scan' → scan'.Plans e' ∧
    (∀ budget, scan.Spends (e.request id) budget → scan'.Spends (e.request id) budget) ∧
    ((∃ before f after, features = before ++ f :: after ∧
    e'.Covers numComputedTokens windowEnd before ∧
    scan'.numNewTokens = max 0 ((f.mmPosition.offset : Int) - (numComputedTokens + shift))) ∨
    (scan'.numNewTokens = scan.numNewTokens ∧ e'.Covers numComputedTokens windowEnd features ∧
    scan.PassesAll cfg numComputedTokens e.manager (e.request id) i features)) := by
  induction features generalizing i scan s e with
  | nil =>
    cases h
    refine ⟨e, .refl sound tracks, fun scan' same => ?_⟩
    cases same
    exact ⟨plans, fun _ spent => spent, .inr ⟨rfl, nofun, fun _ _ hk => nomatch hk⟩⟩
  | cons f rest ih =>
    unfold Scheduler.scanEncoderInputs at h
    obtain ⟨⟨answer, s₁⟩, hscan, h⟩ := bind_eq_ok.mp h
    have ⟨e₁, follows₁, first⟩ := scanEncoderInput_run hold notEncDec sound tracks
      (feature 0 f rfl) plans hscan
    have current : e.current = e.request id := congrArg e.request tracks.requestId
    rw [current] at first
    cases answer with
    | none =>
      cases h
      exact ⟨e₁, follows₁, nofun⟩
    | some answer =>
      obtain ⟨scan₁, goes⟩ := answer
      obtain ⟨plans₁, covers₁, spends₁, outcome⟩ := first scan₁ goes rfl
      cases goes with
      | false =>
        cases h
        refine ⟨e₁, follows₁, fun scan' same => ?_⟩
        cases same
        refine ⟨plans₁, spends₁, .inl ⟨[], f, rest, rfl, nofun, ?_⟩⟩
        rcases outcome with ⟨-, goes, -⟩ | fitted
        · cases goes
        · exact fitted.stopped rfl
      | true =>
        have ⟨e₂, follows₂, others⟩ := ih follows₁.sound follows₁.tracks
          (fun k g hk => by
            rw [follows₁.request, Nat.add_right_comm]
            exact feature (k + 1) g hk) plans₁ h
        refine ⟨e₂, follows₁.trans follows₂, fun scan' same => ?_⟩
        have ⟨plans₂, spends₂, rest₂⟩ := others scan' same
        rw [follows₁.request] at spends₂
        refine ⟨plans₂, fun budget spent => spends₂ budget (spends₁ budget spent), ?_⟩
        have here := (covers₁ rfl).imp_left (follows₂.provides f.identifier)
        rcases rest₂ with ⟨before, g, after, split, covers, stopped⟩ | ⟨tokens, covers, passed⟩
        · exact .inl ⟨f :: before, g, after, congrArg (f :: ·) split,
            forall_mem_cons.mpr ⟨here, covers⟩, stopped⟩
        · rw [follows₁.request] at passed
          have ⟨tokens₁, all⟩ := passed.cons (m := e.manager) follows₁.roomier
            (outcome.imp_left fun known => ⟨known.1, known.2.2⟩)
          exact .inr ⟨tokens.trans tokens₁, forall_mem_cons.mpr ⟨here, covers⟩, all⟩

/-- `_try_schedule_encoder_inputs` makes calls of a run of the encoder cache, and every
input it returns was admitted in its pass. It leaves nothing of the chunk, stops before a
feature of the window, or passes all of them. -/
theorem tryScheduleEncoderInputs_run (sound : e.Sound cacheSize)
    (request : e.request = s.request) (manager : e.manager = cacheOf s.world)
    {numComputedTokens numNewTokens encoderComputeBudget shift : Int} {plan : EncoderPlan}
    (h : s.tryScheduleEncoderInputs cfg parts id numComputedTokens numNewTokens
      encoderComputeBudget shift = .ok (plan, s')) :
    ∃ e', (encoderCacheRuns cacheSize).Leads e e' ∧ e'.Sound cacheSize ∧
      e'.Tracks cacheOf s' id ∧ e'.current = s.request id ∧
      ((plan.encoderInputsToSchedule ++ plan.externalLoadEncoderInput).Perm e'.pass.admitted ∨
        plan.encoderInputsToSchedule ++ plan.externalLoadEncoderInput = [] ∧
          (plan.numNewTokens = 0 ∨ (s.request id).mmFeatures = [])) ∧
      let window := getMmFeaturesInWindow (s.request id).mmFeatures numComputedTokens
        (numComputedTokens + numNewTokens + shift)
      let features := slice (s.request id).mmFeatures window.1 window.2
      (0 ≤ encoderComputeBudget →
        (plan.encoderInputsToSchedule.map (s.request id).embedsAt).sum ≤ encoderComputeBudget) ∧
      (plan.numNewTokens = 0 ∨
      (∃ before f after, features = before ++ f :: after ∧
        e'.Covers numComputedTokens (numComputedTokens + numNewTokens + shift) before ∧
        plan.numNewTokens = max 0 ((f.mmPosition.offset : Int) - (numComputedTokens + shift))) ∨
      (plan.numNewTokens = numNewTokens ∧ ((s.request id).mmFeatures = [] ∨
        e'.Covers numComputedTokens (numComputedTokens + numNewTokens + shift) features ∧
        EncoderScan.PassesAll cfg numComputedTokens (cacheOf s.world) (s.request id) window.1 features
          { numNewTokens := numNewTokens, encoderComputeBudget := encoderComputeBudget }))) := by
  obtain ⟨e₀, begun, sound₀, -⟩ := sound.call (c := .beginPass id) trivial
  cases begun
  have begins : (encoderCacheRuns cacheSize).Leads e { e with pass := { requestId := id } } :=
    .single ⟨.beginPass id, trivial, rfl⟩
  have tracks : EncoderRun.Tracks cacheOf s id { e with pass := { requestId := id } } :=
    ⟨request, manager, rfl⟩
  unfold Scheduler.tryScheduleEncoderInputs at h
  dsimp only at h
  split at h
  · rename_i none
    cases h
    have none : numNewTokens = 0 ∨ (s.request id).mmFeatures = [] := by
      simpa [Request.hasEncoderInputs] using none
    exact ⟨_, begins, sound₀, tracks, congrFun request id, .inr ⟨rfl, none⟩, fun h => h,
      none.imp_right fun none => .inr ⟨rfl, .inl none⟩⟩
  · simp only [notEncDec, Bool.false_eq_true, if_false] at h
    obtain ⟨⟨scan, s₁⟩, hscan, h⟩ := bind_eq_ok.mp h
    have plans₀ : EncoderScan.Plans
        { numNewTokens := numNewTokens, encoderComputeBudget := encoderComputeBudget }
        { e with pass := { requestId := id } } := ⟨.refl [], rfl, by simp⟩
    have ⟨e₁, follows, outcome⟩ := scanEncoderInputs_run hold notEncDec _ sound₀
      tracks (fun k f hk => by
        rw [slice_getElem?] at hk
        split at hk
        · exact request ▸ hk
        · cases hk) plans₀ hscan
    have current : e₁.current = s.request id := by
      rw [EncoderRun.current, follows.request, follows.tracks.requestId]
      exact congrFun request id
    cases scan with
    | none =>
      cases h
      exact ⟨e₁, begins.trans follows.leads, follows.sound, follows.tracks, current,
        .inr ⟨rfl, .inl rfl⟩, fun h => h, .inl rfl⟩
    | some scan =>
      cases h
      have ⟨plans₁, spends, tokens⟩ := outcome scan rfl
      refine ⟨e₁, begins.trans follows.leads, follows.sound, follows.tracks, current,
        .inl plans₁.admitted, fun nonneg => ?_, .inr (tokens.imp_right fun passed => ⟨passed.1, .inr ⟨passed.2.1, ?_⟩⟩)⟩
      · have spent := spends encoderComputeBudget ⟨by simp, nonneg⟩
        rw [show EncoderRun.request { e with pass := { requestId := id } } = s.request from
          request] at spent
        obtain ⟨sum, left⟩ := spent
        omega
      have all := passed.2.2
      rw [show EncoderRun.manager { e with pass := { requestId := id } } = cacheOf s.world from
        manager, show EncoderRun.request { e with pass := { requestId := id } } = s.request from
        request] at all
      exact all

end

/-- Components that hold an encoder cache and nothing else. -/
def encoderParts : Components EncoderCacheManager :=
  { Components.idle with
    getCachedNumEncoderEmbeds := fun m r i => (m.getCachedNumEncoderEmbeds r i).toOption.getD none
    checkAndUpdateCache := fun m r i => (m.checkAndUpdateCache r i).toOption.getD (false, m)
    canAllocate := fun m r i budget n => (m.canAllocate r i budget n).toOption.getD (false, m)
    allocateEncoder := fun m r i => (m.allocate r i).toOption.getD m
    freeEncoderInput := fun m r i => (m.freeEncoderInput r i).toOption.getD m
    getCachedInputIds := fun m r => m.getCachedInputIds r
    freeEncoder := fun m r =>
      (EncoderCacheManager.free r (m.getCachedInputIds r) m).toOption.getD m }

theorem encoderParts_hold : HoldEncoderCache encoderParts fun m => m where
  checkAndUpdateCache m r i answer h := by
    unfold encoderParts
    dsimp only
    rw [h]
    exact ⟨rfl, rfl⟩
  canAllocate m r i budget n answer h := by
    unfold encoderParts
    dsimp only
    rw [h]
    exact ⟨rfl, rfl⟩
  allocate m r i m' h := by
    unfold encoderParts
    dsimp only
    rw [h]
    rfl
  hasCacheItem _ _ := rfl
  ecUpdateStateAfterAlloc _ _ _ := rfl

end VllmAmpere.Sched
