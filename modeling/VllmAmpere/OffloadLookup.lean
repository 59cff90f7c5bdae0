import Mathlib.Data.List.Sort
import VllmAmpere.CPUOffloadingManager

/-! The lookup of offloaded chunks: a prefix scan for full attention and a suffix scan for windows,
run over the groups until the hit they agree on no longer shrinks. -/

open List

namespace VllmAmpere.OffloadLookup

open KVOffload

inductive MambaCacheMode
  | none | align | all
  deriving DecidableEq, Repr

/-- The specs an offloaded group may have, each with what the lookup reads. -/
inductive KVCacheSpec
  | fullAttention
  | slidingWindow (slidingWindow extraRetainedTokens : Nat)
  | chunkedLocalAttention (attentionChunkSize : Nat)
  | mamba (mambaCacheMode : MambaCacheMode)
  deriving DecidableEq, Repr

def getSlidingWindowSizeInChunks (kvCacheSpec : KVCacheSpec) (tokensPerChunk : Nat) :
    Except PyError (Option Nat) :=
  match kvCacheSpec with
  | .slidingWindow window extra => do
    pyAssert (0 < window) ""
    .ok (some (max (cdiv window tokensPerChunk) (cdiv (window - 1 + extra) tokensPerChunk)))
  | .chunkedLocalAttention size => do
    pyAssert (0 < size) ""
    .ok (some (cdiv size tokensPerChunk))
  | .mamba _ => .ok (some 1)
  | .fullAttention => .ok none

/-- The config of a group, with the window that `from_spec` computes for it. -/
structure GroupOffloadConfig where
  kvCacheSpec : KVCacheSpec
  tokensPerChunk : Nat
  isEagleGroup : Bool
  slidingWindowSizeInChunks : Option Nat
  chunked : 0 < tokensPerChunk
  window : getSlidingWindowSizeInChunks kvCacheSpec tokensPerChunk = .ok slidingWindowSizeInChunks

namespace GroupOffloadConfig

variable (g : GroupOffloadConfig)

/-- `-num_tokens % tokens_per_chunk`. -/
def rightPadding (numTokens : Nat) : Nat :=
  (g.tokensPerChunk - numTokens % g.tokensPerChunk) % g.tokensPerChunk

def loadWindowSizeInChunks (numTokens : Nat) : Except PyError (Option Nat) :=
  match g.kvCacheSpec with
  | .slidingWindow window extra =>
    match g.slidingWindowSizeInChunks with
    | some size => .ok (some (max size
        (cdiv (window - 1 + extra + g.rightPadding numTokens) g.tokensPerChunk)))
    | none => .error (.assertion "")
  | _ => .ok g.slidingWindowSizeInChunks

end GroupOffloadConfig

/-- `resolve_mamba_align_size` from the first group on. -/
def resolveMambaAlignSize : List GroupOffloadConfig → Option Nat → Except PyError (Option Nat)
  | [], size => .ok size
  | g :: groups, size =>
    if g.kvCacheSpec = .mamba .align ∨ g.kvCacheSpec = .mamba .all then do
      pyAssert (size = none ∨ size = some g.tokensPerChunk) ""
      resolveMambaAlignSize groups (some g.tokensPerChunk)
    else resolveMambaAlignSize groups size

def roundDown (x y : Nat) : Nat := x / y * y

/-- `xs[-n:]`. -/
def lastN {α : Type} (xs : List α) (n : Nat) : List α := if n = 0 then xs else xs.drop (xs.length - n)

section

variable {K : Type} (answer : K → LookupResult)

/-- The scan of `_maximal_prefix_lookup`: the hits, whether one was deferred, and the keys that
were looked up. -/
def scanPrefix : List K → Nat → Bool → List K → Nat × Bool × List K
  | [], hitCount, deferLookup, asked => (hitCount, deferLookup, asked)
  | key :: keys, hitCount, deferLookup, asked =>
    match answer key with
    | .hit => scanPrefix keys (hitCount + 1) deferLookup (asked ++ [key])
    | .hitPending => scanPrefix keys (hitCount + 1) true (asked ++ [key])
    | .retry => scanPrefix keys hitCount true (asked ++ [key])
    | .miss => (hitCount, deferLookup, asked ++ [key])

/-- The number of consecutive chunks that can be loaded, `none` where a lookup was deferred. -/
def maximalPrefixLookup (keys asked : List K) : Option Nat × List K :=
  let scan := scanPrefix answer keys 0 false asked
  (if scan.2.1 then none else some scan.1, scan.2.2)

/-- What the scan of `_sliding_window_lookup` keeps. -/
structure WindowScan where
  deferLookup : Bool
  pendingInWindow : Bool
  consecutiveHits : Nat
  requiredWindow : Nat

variable (slidingWindowSize : Nat)

def WindowScan.next (s : WindowScan) : LookupResult → WindowScan
  | .hit => { s with consecutiveHits := s.consecutiveHits + 1 }
  | .hitPending => { s with pendingInWindow := true, consecutiveHits := s.consecutiveHits + 1 }
  | .retry => ⟨true, false, 0, slidingWindowSize⟩
  | .miss => { s with consecutiveHits := 0, pendingInWindow := false,
                      requiredWindow := slidingWindowSize }

/-- The keys are those up to the index of the scan, the last one first. -/
def scanWindow : List K → WindowScan → List K → Option Nat × List K
  | [], s, asked =>
    (if s.deferLookup ∨ s.pendingInWindow then none else some s.consecutiveHits, asked)
  | key :: keys, s, asked =>
    let s := s.next slidingWindowSize (answer key)
    if s.consecutiveHits = s.requiredWindow then
      (if s.deferLookup ∨ s.pendingInWindow then none else some (keys.length + s.requiredWindow),
        asked ++ [key])
    else scanWindow keys s (asked ++ [key])

def slidingWindowLookup (keys : List K) (initialWindowSize : Nat) (asked : List K) :
    Option Nat × List K :=
  scanWindow answer slidingWindowSize keys.reverse
    ⟨false, false, 0, if initialWindowSize = 0 then slidingWindowSize else initialWindowSize⟩ asked

end

/-! ### The search -/

/-- What the lookup reads of the scheduler and the request. -/
structure Request (K : Type) where
  kvGroupConfigs : List GroupOffloadConfig
  groupStates : List (List K)
  numTokens : Nat
  numLocallyComputedTokens : Nat
  maxLoadTokens : Option Nat
  chunksBeingLoaded : List K

/-- The variables of the loop, and the keys that were looked up. -/
structure Search (K : Type) where
  maxHitSizeTokens : Nat
  numHitTokens : Nat
  deferLookup : Bool
  eagleVerified : List Nat
  lookedUpSlidingWindow : Bool
  lookupGroups : List Nat
  asked : List K

section

variable {K : Type} (req : Request K)

def fullAttentionGroups : List Nat :=
  (List.range req.kvGroupConfigs.length).filter fun i =>
    (req.kvGroupConfigs[i]?).any fun g => g.slidingWindowSizeInChunks.isNone

def windowSize (i : Nat) : Nat :=
  ((req.kvGroupConfigs[i]?).bind fun g => g.slidingWindowSizeInChunks).getD 0

/-- The groups with windows, the largest windows first. -/
def slidingWindowGroups : List Nat :=
  ((List.range req.kvGroupConfigs.length).filter fun i =>
    (req.kvGroupConfigs[i]?).any fun g => g.slidingWindowSizeInChunks.isSome).mergeSort
      fun i j => windowSize req j ≤ windowSize req i

def lookupGroups : List Nat := fullAttentionGroups req ++ slidingWindowGroups req

variable (answer : K → LookupResult)

/-- The keys of a group that a lookup queries, and the bound on the hit before it. -/
structure Query (K : Type) where
  maxHitSizeTokens : Nat
  isEagleUnverified : Bool
  numChunks : Nat
  startChunkIdx : Nat
  keys : List K

/-- `int(is_eagle_unverified)`: the chunk by which a lookup is widened, which is popped again. -/
def Query.unverified (q : Query K) : Nat := if q.isEagleUnverified then 1 else 0

def Query.reached (q : Query K) (g : GroupOffloadConfig) (numHitChunks : Nat) : Nat :=
  min q.maxHitSizeTokens (g.tokensPerChunk * (q.startChunkIdx + (numHitChunks - q.unverified)))

def makeQuery (i : Nat) (g : GroupOffloadConfig) (offloadKeys : List K) (s : Search K) : Query K :=
  let isEagleUnverified := g.isEagleGroup ∧ i ∉ s.eagleVerified
  let bounded := min s.maxHitSizeTokens (offloadKeys.length * g.tokensPerChunk)
  let maxHitSizeTokens :=
    if req.maxLoadTokens.isSome then roundDown bounded g.tokensPerChunk else bounded
  let queryMax :=
    if isEagleUnverified then
      min (maxHitSizeTokens + g.tokensPerChunk) (offloadKeys.length * g.tokensPerChunk)
    else maxHitSizeTokens
  let numChunks := min (cdiv queryMax g.tokensPerChunk) offloadKeys.length
  let startChunkIdx := req.numLocallyComputedTokens / g.tokensPerChunk
  ⟨maxHitSizeTokens, isEagleUnverified, numChunks, startChunkIdx,
    slice offloadKeys startChunkIdx numChunks⟩

def lookupGroup (g : GroupOffloadConfig) (q : Query K) (asked : List K) :
    Except PyError (Option Nat × List K) :=
  match g.slidingWindowSizeInChunks with
  | none => .ok (maximalPrefixLookup answer q.keys asked)
  | some size => do
    let candidateEnd := min q.maxHitSizeTokens ((q.numChunks - q.unverified) * g.tokensPerChunk)
    match ← g.loadWindowSizeInChunks candidateEnd with
    | none => .error (.assertion "")
    | some initialWindow =>
      .ok (slidingWindowLookup answer (size + q.unverified) q.keys (initialWindow + q.unverified)
        asked)

/-- The search once the lookup of a group is known, where it is not over. -/
def settle (i : Nat) (g : GroupOffloadConfig) (q : Query K) (numHitChunks : Option Nat)
    (asked : List K) (s : Search K) : Option (Search K) :=
  let maxHitSizeTokens := numHitChunks.elim q.maxHitSizeTokens (q.reached g)
  let deferLookup := s.deferLookup || numHitChunks.isNone
  let eagleVerified :=
    if numHitChunks.isSome ∧ q.isEagleUnverified then i :: s.eagleVerified else s.eagleVerified
  let newNumHitTokens := maxHitSizeTokens - req.numLocallyComputedTokens
  if newNumHitTokens < g.tokensPerChunk then none
  else
    let shrunk := newNumHitTokens < s.numHitTokens
    some {
      maxHitSizeTokens := maxHitSizeTokens
      numHitTokens := newNumHitTokens
      deferLookup := if shrunk then false else deferLookup
      eagleVerified := if shrunk ∧ ¬g.isEagleGroup then [] else eagleVerified
      lookedUpSlidingWindow := s.lookedUpSlidingWindow || g.slidingWindowSizeInChunks.isSome
      lookupGroups :=
        if shrunk ∧ deferLookup then lookupGroups req
        else if shrunk ∧ s.lookedUpSlidingWindow ∧ s.lookupGroups = [] then slidingWindowGroups req
        else s.lookupGroups
      asked := asked }

/-- One group of a pass; `none` where nothing can be loaded. -/
def visitGroup (i : Nat) (s : Search K) : Except PyError (Option (Search K)) := do
  let g ← pyGet req.kvGroupConfigs i
  let offloadKeys ← pyGet req.groupStates i
  pyAssert (req.numTokens / g.tokensPerChunk ≤ offloadKeys.length) ""
  let q := makeQuery req i g offloadKeys s
  if q.maxHitSizeTokens - req.numLocallyComputedTokens < g.tokensPerChunk then .ok none
  else do
    let found ← lookupGroup answer g q s.asked
    if found.1 = some 0 then .ok none else .ok (settle req i g q found.1 found.2 s)

def visitGroups : List Nat → Search K → Except PyError (Option (Search K))
  | [], s => .ok (some s)
  | i :: groups, s => do
    match ← visitGroup req answer i s with
    | none => .ok none
    | some s => visitGroups groups s

/-- How a search ends. -/
inductive Outcome (K : Type)
  | nothing
  | settled (s : Search K)

def converge : Nat → Search K → Except PyError (Option (Outcome K))
  | fuel, s =>
    if s.lookupGroups = [] then .ok (some (.settled s))
    else
      match fuel with
      | 0 => .ok none
      | fuel + 1 => do
        match ← visitGroups req answer s.lookupGroups
            { s with lookedUpSlidingWindow := false, lookupGroups := [] } with
        | none => .ok (some .nothing)
        | some s => converge fuel s

def chunksToLoad (g : GroupOffloadConfig) (offloadKeys : List K) (numHitTokens : Nat) :
    Except PyError (List K) := do
  let size ← g.loadWindowSizeInChunks (req.numLocallyComputedTokens + numHitTokens)
  let keys := slice offloadKeys (req.numLocallyComputedTokens / g.tokensPerChunk)
    (cdiv (req.numLocallyComputedTokens + numHitTokens) g.tokensPerChunk)
  match size with
  | none => .ok keys
  | some size => .ok (lastN keys size)

def beingLoaded [DecidableEq K] (numHitTokens : Nat) :
    List (GroupOffloadConfig × List K) → Except PyError Bool
  | [] => .ok false
  | (g, offloadKeys) :: groups => do
    let keys ← chunksToLoad req g offloadKeys numHitTokens
    if ∃ key ∈ keys, key ∈ req.chunksBeingLoaded then .ok true
    else beingLoaded numHitTokens groups

def initialMaxHit (maxNumNewTokens mambaAlignSize : Option Nat) : Nat :=
  let computed := req.numLocallyComputedTokens
  let bound := (maxNumNewTokens.map fun n => computed + n).elim req.numTokens (min req.numTokens)
  let bound := (req.maxLoadTokens.map fun n => computed + n).elim bound (min bound)
  if slidingWindowGroups req = [] then bound
  else
    match mambaAlignSize with
    | none => bound - 1
    | some size => roundDown (bound - 1) size

/-- `_lookup_complete_chunks`: the tokens that can be loaded, `none` where the request is delayed,
with the keys that were looked up for them. -/
def lookupCompleteChunks [DecidableEq K] (fuel : Nat) (maxNumNewTokens : Option Nat) :
    Except PyError (Option (Option Nat × List K)) := do
  let mambaAlignSize ← resolveMambaAlignSize req.kvGroupConfigs none
  let start : Search K := {
    maxHitSizeTokens := initialMaxHit req maxNumNewTokens mambaAlignSize
    numHitTokens := 0
    deferLookup := false
    eagleVerified := []
    lookedUpSlidingWindow := false
    lookupGroups := lookupGroups req
    asked := [] }
  match ← converge req answer fuel start with
  | none => .ok none
  | some .nothing => .ok (some (some 0, []))
  | some (.settled s) =>
    if s.deferLookup then .ok (some (none, s.asked))
    else do
      let delayed ←
        if req.chunksBeingLoaded = [] then .ok false
        else beingLoaded req s.numHitTokens (req.kvGroupConfigs.zip req.groupStates)
      .ok (some (if delayed then none else some s.numHitTokens, s.asked))

end

/-! What the two scans of the offloaded chunks find: a prefix of hits, or a window of hits at the
end that they return. -/

open KVOffload

variable {K : Type} {answer : K → LookupResult}

def Hit (answer : K → LookupResult) (asked : List K) (key : K) : Prop :=
  answer key = .hit ∧ key ∈ asked

theorem Hit.mono {asked asked' : List K} {key : K} (h : Hit answer asked key)
    (more : asked ⊆ asked') : Hit answer asked' key :=
  ⟨h.1, more h.2⟩

/-! ### Prefixes -/

theorem scanPrefix_asked (keys : List K) (hits : Nat) (defer : Bool) (asked : List K) :
    asked ⊆ (scanPrefix answer keys hits defer asked).2.2 := by
  induction keys generalizing hits defer asked with
  | nil => exact List.Subset.refl asked
  | cons key keys ih =>
    have grow : asked ⊆ asked ++ [key] := subset_append_left _ _
    rw [scanPrefix]
    cases answer key with
    | miss => exact grow
    | _ => exact List.Subset.trans grow (ih _ _ _)

theorem scanPrefix_hits {keys asked : List K} {hits : Nat} {defer : Bool}
    (h : (scanPrefix answer keys hits defer asked).2.1 = false) :
    defer = false ∧ ∃ n ≤ keys.length, (scanPrefix answer keys hits defer asked).1 = hits + n ∧
    ∀ key ∈ keys.take n, Hit answer (scanPrefix answer keys hits defer asked).2.2 key := by
  induction keys generalizing hits defer asked with
  | nil => exact ⟨h, 0, le_rfl, rfl, by simp⟩
  | cons key keys ih =>
    rw [scanPrefix] at h ⊢
    cases found : answer key with
    | hit =>
      rw [found] at h
      dsimp only at h ⊢
      obtain ⟨same, n, bound, count, all⟩ := ih h
      refine ⟨same, n + 1, Nat.succ_le_succ bound, by omega, fun k hk => ?_⟩
      rw [take_succ_cons] at hk
      cases mem_cons.mp hk with
      | inl here =>
        have asked' := @scanPrefix_asked K answer keys (hits + 1) defer (asked ++ [key])
        rw [here]
        exact ⟨found, asked' (by simp)⟩
      | inr later => exact all k later
    | hitPending =>
      rw [found] at h
      exact absurd (ih h).1 (by simp)
    | retry =>
      rw [found] at h
      exact absurd (ih h).1 (by simp)
    | miss =>
      rw [found] at h
      exact ⟨h, 0, Nat.zero_le _, rfl, by simp⟩

theorem maximalPrefixLookup_asked (keys asked : List K) :
    asked ⊆ (maximalPrefixLookup answer keys asked).2 :=
  scanPrefix_asked keys 0 false asked

theorem maximalPrefixLookup_hits {keys asked : List K} {n : Nat}
    (h : (maximalPrefixLookup answer keys asked).1 = some n) : n ≤ keys.length ∧
    ∀ key ∈ keys.take n, Hit answer (maximalPrefixLookup answer keys asked).2 key := by
  unfold maximalPrefixLookup at h ⊢
  dsimp only at h ⊢
  cases defer : (scanPrefix answer keys 0 false asked).2.1 with
  | true => rw [defer] at h; cases h
  | false =>
    rw [defer] at h
    obtain ⟨-, m, bound, count, all⟩ := scanPrefix_hits defer
    have same : (scanPrefix answer keys 0 false asked).1 = n := Option.some.inj h
    have nm : n = m := by omega
    rw [nm]
    exact ⟨bound, all⟩

/-! ### Windows -/

variable {size initial : Nat}

theorem scanWindow_asked (keys : List K) (s : WindowScan) (asked : List K) :
    asked ⊆ (scanWindow answer size keys s asked).2 := by
  induction keys generalizing s asked with
  | nil => exact List.Subset.refl asked
  | cons key keys ih =>
    have grow : asked ⊆ asked ++ [key] := subset_append_left _ _
    rw [scanWindow]
    split
    · exact grow
    · exact List.Subset.trans grow (ih _ _)

/-- What a scan knows of the hits it has just passed: `run`, with `tail` behind it. -/
structure Running (answer : K → LookupResult) (size initial : Nat) (s : WindowScan)
    (run tail asked : List K) : Prop where
  count : s.consecutiveHits = run.length
  hits : s.pendingInWindow = false → ∀ key ∈ run, Hit answer asked key
  required : s.requiredWindow = if tail = [] then initial else size

theorem Running.next {s : WindowScan} {run tail asked : List K}
    (h : Running answer size initial s run tail asked) (key : K) : ∃ run' tail',
    run' ++ tail' = key :: (run ++ tail) ∧
    Running answer size initial (s.next size (answer key)) run' tail' (asked ++ [key]) := by
  have grow : asked ⊆ asked ++ [key] := subset_append_left _ _
  cases found : answer key with
  | hit =>
    refine ⟨key :: run, tail, rfl, ⟨?_, fun clear k hk => ?_, h.required⟩⟩
    · exact congrArg Nat.succ h.count
    · cases mem_cons.mp hk with
      | inl here => rw [here]; exact ⟨found, by simp⟩
      | inr later => exact (h.hits clear k later).mono grow
  | hitPending =>
    refine ⟨key :: run, tail, rfl, ⟨?_, fun clear => ?_, h.required⟩⟩
    · exact congrArg Nat.succ h.count
    · cases clear
  | retry =>
    exact ⟨[], key :: (run ++ tail), rfl, rfl, by simp, rfl⟩
  | miss =>
    exact ⟨[], key :: (run ++ tail), rfl, rfl, by simp, rfl⟩

/-- The end of a window: its last keys are hits, as many as the window asks for. -/
structure WindowEnd (answer : K → LookupResult) (size initial : Nat) (keys asked : List K)
    (stop : Nat) : Prop where
  bound : stop ≤ keys.length
  hits : ∀ j < stop, stop ≤ j + (if stop = keys.length then initial else size) →
    ∀ key, keys[j]? = some key → Hit answer asked key

theorem windowEnd_of_run {before run tail asked : List K} {n : Nat}
    (hits : ∀ key ∈ run, Hit answer asked key)
    (long : (if tail = [] then initial else size) ≤ run.length ∨ before = [])
    (stop : n = before.length + run.length) :
    WindowEnd answer size initial (before ++ (run ++ tail)) asked n := by
  have total : (before ++ (run ++ tail)).length = n + tail.length := by
    rw [length_append, length_append, stop, Nat.add_assoc]
  refine ⟨by omega, fun j hj reach key found => ?_⟩
  have last : n = (before ++ (run ++ tail)).length ↔ tail = [] := by
    rw [total, ← length_eq_zero_iff]
    omega
  simp only [last] at reach
  have behind : before.length ≤ j := by
    cases long with
    | inl long => omega
    | inr none => rw [none]; exact Nat.zero_le _
  rw [getElem?_append_right behind, getElem?_append_left (by omega)] at found
  exact hits key (mem_of_getElem? found)

theorem scanWindow_hits {rest asked run tail : List K} {s : WindowScan} {n : Nat}
    (running : Running answer size initial s run tail asked)
    (h : (scanWindow answer size rest s asked).1 = some n) :
    WindowEnd answer size initial (rest.reverse ++ (run ++ tail))
    (scanWindow answer size rest s asked).2 n := by
  induction rest generalizing s asked run tail with
  | nil =>
    rw [scanWindow] at h ⊢
    dsimp only at h
    split at h
    · cases h
    next clear =>
      have hits := running.hits (by simpa using (not_or.mp clear).2)
      refine windowEnd_of_run hits (.inr rfl) ?_
      rw [← Option.some.inj h, running.count]
      exact (Nat.zero_add _).symm
  | cons key keys ih =>
    obtain ⟨run', tail', same, next⟩ := running.next key
    have split : (key :: keys).reverse ++ (run ++ tail) = keys.reverse ++ (run' ++ tail') := by
      rw [same, reverse_cons, append_assoc]
      rfl
    rw [split]
    rw [scanWindow] at h ⊢
    split at h
    next full =>
      rw [if_pos full]
      split at h
      · cases h
      next clear =>
        have hits := next.hits (by simpa using (not_or.mp clear).2)
        have long : (if tail' = [] then initial else size) = run'.length := by
          rw [← next.required, ← full, next.count]
        refine windowEnd_of_run hits (.inl long.le) ?_
        rw [← Option.some.inj h, next.required, long, length_reverse]
    next short =>
      rw [if_neg short]
      exact ih next h

theorem slidingWindowLookup_asked (keys asked : List K) :
    asked ⊆ (slidingWindowLookup answer size keys initial asked).2 :=
  scanWindow_asked _ _ _

theorem slidingWindowLookup_hits {keys asked : List K} {n : Nat} (positive : 0 < initial)
    (h : (slidingWindowLookup answer size keys initial asked).1 = some n) :
    WindowEnd answer size initial keys (slidingWindowLookup answer size keys initial asked).2 n := by
  unfold slidingWindowLookup at h ⊢
  rw [if_neg positive.ne'] at h ⊢
  have start : Running answer size initial ⟨false, false, 0, initial⟩ [] [] asked :=
    ⟨rfl, by simp, rfl⟩
  have found := scanWindow_hits start h
  rwa [reverse_reverse, append_nil, append_nil] at found

end VllmAmpere.OffloadLookup
