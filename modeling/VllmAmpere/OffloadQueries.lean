import VllmAmpere.OffloadLookup

/-! One lookup of a group: where it defers nothing, the chunks that are read for the hit it leaves
are hits. -/

open List

namespace VllmAmpere.OffloadLookup

open KVOffload

variable {K : Type}

/-! ### Windows -/

theorem loadWindow_ok (g : GroupOffloadConfig) (numTokens : Nat) :
    match g.slidingWindowSizeInChunks with
    | none => g.loadWindowSizeInChunks numTokens = .ok none
    | some size => 0 < size ∧ ∃ window, g.loadWindowSizeInChunks numTokens = .ok (some window) ∧
        size ≤ window ∧ (numTokens % g.tokensPerChunk = 0 → window = size) := by
  obtain ⟨kvCacheSpec, tokensPerChunk, isEagleGroup, sizes, chunked, window⟩ := g
  have positive : ∀ {a : Nat}, 0 < a → 0 < cdiv a tokensPerChunk := by
    intro a ha
    rw [lt_cdiv_iff chunked]
    omega
  cases kvCacheSpec with
  | fullAttention =>
    obtain rfl := Except.ok.inj window
    rfl
  | mamba mode =>
    obtain rfl := Except.ok.inj window
    exact ⟨Nat.one_pos, 1, rfl, le_rfl, fun _ => rfl⟩
  | chunkedLocalAttention size =>
    obtain ⟨_, some, same⟩ := bind_eq_ok.mp window
    rw [pyAssert_ok] at some
    obtain rfl := Except.ok.inj same
    exact ⟨positive some, _, rfl, le_rfl, fun _ => rfl⟩
  | slidingWindow size extra =>
    obtain ⟨_, some, same⟩ := bind_eq_ok.mp window
    rw [pyAssert_ok] at some
    obtain rfl := Except.ok.inj same
    refine ⟨(positive some).trans_le (le_max_left _ _), _, rfl, le_max_left _ _, fun aligned => ?_⟩
    have none : GroupOffloadConfig.rightPadding ⟨.slidingWindow size extra, tokensPerChunk,
        isEagleGroup, _, chunked, window⟩ numTokens = 0 := by
      unfold GroupOffloadConfig.rightPadding
      dsimp only at aligned ⊢
      rw [aligned, Nat.sub_zero, Nat.mod_self]
    rw [none, Nat.add_zero]
    exact Nat.max_eq_left (le_max_right _ _)

/-! ### Bounds -/

theorem cdiv_min_mul {a c tokens : Nat} (positive : 0 < tokens) :
    cdiv (min a (tokens * c)) tokens = min (cdiv a tokens) c := by
  have full : cdiv (tokens * c) tokens = c := by
    rw [Nat.mul_comm]
    exact cdiv_mul_self positive c
  cases Nat.le_total a (tokens * c) with
  | inl less =>
    rw [Nat.min_eq_left less, Nat.min_eq_left]
    exact full ▸ cdiv_mono less
  | inr more =>
    rw [Nat.min_eq_right more, full, Nat.min_eq_right]
    exact full ▸ cdiv_mono more

theorem roundDown_le (x y : Nat) : roundDown x y ≤ x := Nat.div_mul_le_self x y

variable {req : Request K} {g : GroupOffloadConfig} {offloadKeys : List K} {s : Search K} {i : Nat}

theorem makeQuery_max_le :
    (makeQuery req i g offloadKeys s).maxHitSizeTokens ≤ s.maxHitSizeTokens := by
  unfold makeQuery
  dsimp only
  split
  · exact (roundDown_le _ _).trans (Nat.min_le_left _ _)
  · exact Nat.min_le_left _ _

theorem makeQuery_numChunks : (makeQuery req i g offloadKeys s).numChunks ≤ offloadKeys.length ∧
    (makeQuery req i g offloadKeys s).numChunks ≤
    cdiv (makeQuery req i g offloadKeys s).maxHitSizeTokens g.tokensPerChunk +
    (makeQuery req i g offloadKeys s).unverified := by
  refine ⟨Nat.min_le_right _ _, (Nat.min_le_left _ _).trans ?_⟩
  unfold Query.unverified
  change cdiv (if (g.isEagleGroup = true ∧ i ∉ s.eagleVerified) then _ else _) _ ≤
    cdiv _ _ + if (decide (g.isEagleGroup = true ∧ i ∉ s.eagleVerified)) = true then 1 else 0
  by_cases widened : g.isEagleGroup = true ∧ i ∉ s.eagleVerified
  · rw [if_pos widened, if_pos (decide_eq_true widened), cdiv_le_iff g.chunked, Nat.add_mul,
      Nat.one_mul]
    refine (Nat.min_le_left _ _).trans (Nat.add_le_add_right ?_ _)
    exact cdiv_mul_ge g.chunked
  · have off : decide (g.isEagleGroup = true ∧ i ∉ s.eagleVerified) = false :=
      decide_eq_false widened
    rw [if_neg widened, off]
    exact le_rfl

theorem mem_slice {xs : List K} {start stop : Nat} {x : K} (h : x ∈ slice xs start stop) :
    ∃ j, start + j < stop ∧ xs[start + j]? = some x := by
  obtain ⟨j, hj⟩ := mem_iff_getElem?.mp h
  rw [slice_getElem?] at hj
  split at hj
  next inside => exact ⟨j, inside, hj⟩
  · cases hj

theorem mem_lastN {xs : List K} {n : Nat} {x : K} (positive : 0 < n) (h : x ∈ lastN xs n) :
    ∃ j < xs.length, xs.length ≤ j + n ∧ xs[j]? = some x := by
  rw [lastN, if_neg positive.ne'] at h
  obtain ⟨k, hk⟩ := mem_iff_getElem?.mp h
  rw [getElem?_drop] at hk
  have inside := (List.getElem?_eq_some_iff.mp hk).1
  exact ⟨_, inside, by omega, hk⟩

/-! ### One group -/

variable {answer : K → LookupResult}

def Ready (req : Request K) (answer : K → LookupResult) (asked : List K) (g : GroupOffloadConfig)
    (offloadKeys : List K) (numHitTokens : Nat) : Prop :=
  ∃ keys, chunksToLoad req g offloadKeys numHitTokens = .ok keys ∧ ∀ key ∈ keys, Hit answer asked key

theorem Ready.mono {asked asked' : List K} {n : Nat}
    (h : Ready req answer asked g offloadKeys n) (more : asked ⊆ asked') :
    Ready req answer asked' g offloadKeys n := by
  obtain ⟨keys, read, hits⟩ := h
  exact ⟨keys, read, fun key hk => (hits key hk).mono more⟩

theorem Ready.shrink {asked : List K} {n n' : Nat} (full : g.slidingWindowSizeInChunks = none)
    (h : Ready req answer asked g offloadKeys n) (less : n' ≤ n) :
    Ready req answer asked g offloadKeys n' := by
  have windowless : ∀ tokens, g.loadWindowSizeInChunks tokens = .ok none := by
    intro tokens
    have window := loadWindow_ok g tokens
    rw [full] at window
    exact window
  obtain ⟨keys, read, hits⟩ := h
  unfold chunksToLoad at read
  rw [windowless] at read
  obtain rfl := Except.ok.inj read
  refine ⟨_, by rw [chunksToLoad, windowless]; rfl, fun key hk => ?_⟩
  obtain ⟨j, inside, found⟩ := mem_slice hk
  refine hits key (mem_iff_getElem?.mpr ⟨j, ?_⟩)
  rw [slice_getElem?, if_pos ?_]
  · exact found
  · exact inside.trans_le (cdiv_mono (by omega))

theorem ready_of_found {found : Option Nat × List K} {n : Nat}
    (h : lookupGroup answer g (makeQuery req i g offloadKeys s) s.asked = .ok found)
    (some' : found.1 = some n) (filled : n ≠ 0)
    (computed : req.numLocallyComputedTokens ≤ (makeQuery req i g offloadKeys s).reached g n) :
    Ready req answer found.2 g offloadKeys
    ((makeQuery req i g offloadKeys s).reached g n - req.numLocallyComputedTokens) := by
  obtain ⟨within, few⟩ := makeQuery_numChunks (g := g)
    (s := s) (i := i)
  have keysEq : (makeQuery req i g offloadKeys s).keys = slice offloadKeys
      (makeQuery req i g offloadKeys s).startChunkIdx (makeQuery req i g offloadKeys s).numChunks :=
    rfl
  have startEq : (makeQuery req i g offloadKeys s).startChunkIdx =
      req.numLocallyComputedTokens / g.tokensPerChunk := rfl
  generalize makeQuery req i g offloadKeys s = q at h computed within few keysEq startEq
  have bound : req.numLocallyComputedTokens + (q.reached g n - req.numLocallyComputedTokens) =
      q.reached g n := by omega
  have last : cdiv (q.reached g n) g.tokensPerChunk =
      min (cdiv q.maxHitSizeTokens g.tokensPerChunk)
        (q.startChunkIdx + (n - q.unverified)) := cdiv_min_mul g.chunked
  have length : q.keys.length = q.numChunks - q.startChunkIdx := by
    rw [keysEq, slice_length, Nat.min_eq_left within]
  unfold lookupGroup at h
  unfold Ready chunksToLoad
  rw [bound, ← startEq]
  cases window : g.slidingWindowSizeInChunks with
  | none =>
    rw [window] at h
    have windowless := loadWindow_ok g (q.reached g n)
    rw [window] at windowless
    rw [windowless]
    obtain rfl := Except.ok.inj h
    obtain ⟨most, hits⟩ := maximalPrefixLookup_hits some'
    refine ⟨_, rfl, fun key hk => hits key ?_⟩
    obtain ⟨j, inside, found⟩ := mem_slice hk
    rw [last] at inside
    have few' : j < n := by omega
    refine mem_of_getElem? (i := j) ?_
    rw [getElem?_take, if_pos few', keysEq, slice_getElem?, if_pos (by omega)]
    exact found
  | some size =>
    rw [window] at h
    dsimp only at h
    have first := loadWindow_ok g (min q.maxHitSizeTokens
      ((q.numChunks - q.unverified) * g.tokensPerChunk))
    have again := loadWindow_ok g (q.reached g n)
    rw [window] at first again
    obtain ⟨-, initial, ran, least, -⟩ := first
    obtain ⟨positive, size', read, wide, aligned⟩ := again
    rw [ran] at h
    rw [read]
    obtain rfl := Except.ok.inj h
    have ends := slidingWindowLookup_hits (by omega) some'
    have stop := ends.bound
    have one : q.unverified ≤ 1 := by
      unfold Query.unverified
      split <;> omega
    have enough : q.startChunkIdx + (n - q.unverified) ≤
        cdiv q.maxHitSizeTokens g.tokensPerChunk := by omega
    rw [Nat.min_eq_right enough] at last
    refine ⟨_, rfl, fun key hk => ?_⟩
    rw [last] at hk
    obtain ⟨j, hj, reach, found⟩ := mem_lastN (by omega) hk
    rw [slice_length] at hj reach
    rw [slice_getElem?] at found
    split at found
    next inside =>
      have here : q.keys[j]? = some key := by
        rw [keysEq, slice_getElem?, if_pos (by omega)]
        exact found
      refine ends.hits j (by omega) ?_ key here
      by_cases whole : n = q.keys.length
      · -- the rightmost window ends at the bound that it was computed for
        have candidate : q.reached g n = min q.maxHitSizeTokens
            ((q.numChunks - q.unverified) * g.tokensPerChunk) := by
          have chunks : q.startChunkIdx + (n - q.unverified) = q.numChunks - q.unverified := by
            omega
          rw [Query.reached, chunks, Nat.mul_comm g.tokensPerChunk]
        rw [candidate, ran] at read
        have same := Option.some.inj (Except.ok.inj read)
        rw [if_pos whole]
        omega
      · have before : q.startChunkIdx + (n - q.unverified) <
            cdiv q.maxHitSizeTokens g.tokensPerChunk := by omega
        rw [lt_cdiv_iff g.chunked] at before
        have ended : q.reached g n =
            g.tokensPerChunk * (q.startChunkIdx + (n - q.unverified)) := by
          rw [Query.reached, Nat.min_eq_right]
          rw [Nat.mul_comm]
          exact before.le
        have same := aligned (by rw [ended, Nat.mul_mod_right])
        rw [if_neg whole]
        omega
    · cases found

/-! The search for a hit: it ends, and the groups it leaves settled can read the chunks of it. -/

/-- The `i`-th group can read a hit. -/
def GroupReady (req : Request K) (answer : K → LookupResult) (asked : List K) (i n : Nat) : Prop :=
  ∀ g offloadKeys, req.kvGroupConfigs[i]? = some g → req.groupStates[i]? = some offloadKeys →
    Ready req answer asked g offloadKeys n

theorem mem_slidingWindowGroups : i ∈ slidingWindowGroups req ↔
    ∃ g, req.kvGroupConfigs[i]? = some g ∧ g.slidingWindowSizeInChunks.isSome = true := by
  unfold slidingWindowGroups
  rw [mem_mergeSort, mem_filter, Option.any_eq_true]
  constructor
  · exact fun h => h.2
  · rintro ⟨g, found, windowed⟩
    exact ⟨mem_range.mpr (List.getElem?_eq_some_iff.mp found).1, g, found, windowed⟩

theorem mem_fullAttentionGroups : i ∈ fullAttentionGroups req ↔
    ∃ g, req.kvGroupConfigs[i]? = some g ∧ g.slidingWindowSizeInChunks.isNone = true := by
  unfold fullAttentionGroups
  rw [mem_filter, Option.any_eq_true]
  constructor
  · exact fun h => h.2
  · rintro ⟨g, found, full⟩
    exact ⟨mem_range.mpr (List.getElem?_eq_some_iff.mp found).1, g, found, full⟩

theorem mem_lookupGroups (found : req.kvGroupConfigs[i]? = some g) : i ∈ lookupGroups req := by
  rw [lookupGroups, mem_append, mem_fullAttentionGroups, mem_slidingWindowGroups]
  cases window : g.slidingWindowSizeInChunks with
  | none => exact .inl ⟨g, found, by rw [window]; rfl⟩
  | some size => exact .inr ⟨g, found, by rw [window]; rfl⟩

/-- What a visit of a group does to the search. -/
structure Visited (req : Request K) (answer : K → LookupResult) (i : Nat) (s s' : Search K) :
    Prop where
  shrinks : s'.maxHitSizeTokens ≤ s.maxHitSizeTokens
  tokens : s'.numHitTokens = s'.maxHitSizeTokens - req.numLocallyComputedTokens
  asked : s.asked ⊆ s'.asked
  looked : s'.lookedUpSlidingWindow = true ↔ s.lookedUpSlidingWindow = true ∨
    i ∈ slidingWindowGroups req
  ready : GroupReady req answer s'.asked i s'.numHitTokens ∨ s'.deferLookup = true ∨
    s'.lookupGroups = lookupGroups req
  deferred : s.deferLookup = true → s'.deferLookup = true ∨ s'.lookupGroups = lookupGroups req
  pending : s'.lookupGroups = s.lookupGroups ∨ s'.numHitTokens < s.numHitTokens ∧
    (s'.lookupGroups = lookupGroups req ∨
      s.lookupGroups = [] ∧ s'.lookupGroups = slidingWindowGroups req)
  rerun : s'.numHitTokens < s.numHitTokens → s.lookedUpSlidingWindow = true →
    s'.lookupGroups = lookupGroups req ∨ s.lookupGroups ≠ [] ∨
      s'.lookupGroups = slidingWindowGroups req

theorem lookupGroup_asked {q : Query K} {asked : List K}
    {found : Option Nat × List K} (h : lookupGroup answer g q asked = .ok found) :
    asked ⊆ found.2 := by
  unfold lookupGroup at h
  cases window : g.slidingWindowSizeInChunks with
  | none =>
    rw [window] at h
    obtain rfl := Except.ok.inj h
    exact maximalPrefixLookup_asked _ _
  | some size =>
    rw [window] at h
    obtain ⟨initial, -, h⟩ := bind_eq_ok.mp h
    cases initial with
    | none => cases h
    | some initial =>
      obtain rfl := Except.ok.inj h
      exact slidingWindowLookup_asked _ _

section

variable {q : Query K} {s s' : Search K} {found : Option Nat} {asked : List K}

def bounded (g : GroupOffloadConfig) (q : Query K) (found : Option Nat) : Nat :=
  found.elim q.maxHitSizeTokens (q.reached g)

theorem settle_some (h : settle req i g q found asked s = some s') :
    g.tokensPerChunk ≤ bounded g q found - req.numLocallyComputedTokens ∧
    s'.maxHitSizeTokens = bounded g q found ∧
    s'.numHitTokens = bounded g q found - req.numLocallyComputedTokens ∧ s'.asked = asked ∧
    s'.lookedUpSlidingWindow = (s.lookedUpSlidingWindow || g.slidingWindowSizeInChunks.isSome) ∧
    (s'.numHitTokens < s.numHitTokens → s'.deferLookup = false ∧ s'.lookupGroups =
    if s.deferLookup || found.isNone then lookupGroups req
    else if s.lookedUpSlidingWindow = true ∧ s.lookupGroups = [] then slidingWindowGroups req
    else s.lookupGroups) ∧
    (¬s'.numHitTokens < s.numHitTokens → s'.deferLookup = (s.deferLookup || found.isNone) ∧
    s'.lookupGroups = s.lookupGroups) := by
  unfold settle at h
  dsimp only at h
  split at h
  · cases h
  next enough =>
    obtain rfl := Option.some.inj h
    refine ⟨Nat.le_of_not_lt enough, rfl, rfl, rfl, rfl, fun shrunk => ?_, fun kept => ?_⟩
    · dsimp only at shrunk ⊢
      simp only [shrunk, true_and, if_true]
    · dsimp only at kept ⊢
      simp only [kept, false_and, if_false, and_self]

end

theorem settle_visited {offloadKeys : List K} {s s' : Search K} {found : Option Nat × List K}
    (config : req.kvGroupConfigs[i]? = some g) (state : req.groupStates[i]? = some offloadKeys)
    (looked : lookupGroup answer g (makeQuery req i g offloadKeys s) s.asked = .ok found)
    (filled : found.1 ≠ some 0)
    (h : settle req i g (makeQuery req i g offloadKeys s) found.1 found.2 s = some s') :
    Visited req answer i s s' := by
  obtain ⟨enough, maxEq, tokens, askedEq, lookedEq, shrunk, kept⟩ := settle_some h
  have lower : bounded g (makeQuery req i g offloadKeys s) found.1 ≤ s.maxHitSizeTokens := by
    refine le_trans ?_ (@makeQuery_max_le K req g offloadKeys s i)
    unfold bounded
    cases found.1 with
    | none => exact le_rfl
    | some n => exact Nat.min_le_left _ _
  have chunk := g.chunked
  have asked : s.asked ⊆ s'.asked := askedEq ▸ lookupGroup_asked looked
  have windowed : i ∈ slidingWindowGroups req ↔ g.slidingWindowSizeInChunks.isSome = true := by
    rw [mem_slidingWindowGroups]
    constructor
    · rintro ⟨g', same, some⟩
      rw [config] at same
      exact Option.some.inj same ▸ some
    · exact fun some => ⟨g, config, some⟩
  refine ⟨maxEq ▸ lower, ?_, asked, ?_, ?_, ?_, ?_, ?_⟩
  · rw [tokens, maxEq]
  · rw [lookedEq, windowed, Bool.or_eq_true]
  · cases result : found.1 with
    | some n =>
      refine .inl fun g' keys' same same' => ?_
      rw [config] at same
      rw [state] at same'
      obtain rfl := Option.some.inj same
      obtain rfl := Option.some.inj same'
      rw [result] at tokens enough filled
      rw [tokens, askedEq]
      exact ready_of_found looked result (fun zero => filled (congrArg some zero))
        (Nat.le_of_lt (Nat.lt_of_sub_pos (chunk.trans_le enough)))
    | none =>
      rw [result] at shrunk kept
      by_cases less : s'.numHitTokens < s.numHitTokens
      · exact .inr (.inr ((shrunk less).2.trans (if_pos (by simp))))
      · exact .inr (.inl ((kept less).1.trans (by simp)))
  · intro deferred
    rw [deferred, Bool.true_or] at shrunk kept
    by_cases less : s'.numHitTokens < s.numHitTokens
    · exact .inr ((shrunk less).2.trans (if_pos rfl))
    · exact .inl (kept less).1
  · by_cases less : s'.numHitTokens < s.numHitTokens
    · have pending := (shrunk less).2
      split at pending
      · exact .inr ⟨less, .inl pending⟩
      · split at pending
        next both => exact .inr ⟨less, .inr ⟨both.2, pending⟩⟩
        · exact .inl pending
    · exact .inl (kept less).2
  · intro less behind
    have pending := (shrunk less).2
    split at pending
    · exact .inl pending
    · split at pending
      · exact .inr (.inr pending)
      next neither => exact .inr (.inl fun none => neither ⟨behind, none⟩)

theorem visitGroup_visited {s s' : Search K}
    (h : visitGroup req answer i s = .ok (some s')) : Visited req answer i s s' := by
  obtain ⟨g, config, h⟩ := bind_eq_ok.mp h
  obtain ⟨offloadKeys, state, h⟩ := bind_eq_ok.mp h
  obtain ⟨_, -, h⟩ := bind_eq_ok.mp h
  rw [pyGet_ok] at config state
  dsimp only at h
  split at h
  · cases h
  · obtain ⟨found, looked, h⟩ := bind_eq_ok.mp h
    split at h
    · cases h
    next filled => exact settle_visited config state looked filled (Except.ok.inj h)

end VllmAmpere.OffloadLookup
