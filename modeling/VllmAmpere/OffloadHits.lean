import VllmAmpere.OffloadQueries

/-! The hit that the search agrees on: the passes end, and every group can read its chunks. -/

namespace VllmAmpere.OffloadLookup

open KVOffload

variable {K : Type} {req : Request K} {answer : K → LookupResult}

/-- Where a pass stands with `rest` of its groups to visit: a group that is not ready is visited
again, or the request is delayed. -/
structure Inv (req : Request K) (answer : K → LookupResult) (rest : List Nat) (s : Search K) :
    Prop where
  settled : ∀ i ∈ lookupGroups req, GroupReady req answer s.asked i
    (s.maxHitSizeTokens - req.numLocallyComputedTokens) ∨ i ∈ rest ∨ i ∈ s.lookupGroups ∨
      s.deferLookup = true
  pending : s.lookupGroups = [] ∨ s.lookupGroups = slidingWindowGroups req ∨
    s.lookupGroups = lookupGroups req
  looked : ∀ i ∈ slidingWindowGroups req, i ∈ rest ∨ s.lookedUpSlidingWindow = true
  tokens : s.numHitTokens = s.maxHitSizeTokens - req.numLocallyComputedTokens ∨
    s.numHitTokens = 0 ∧ ∀ i ∈ lookupGroups req, i ∈ rest

variable {rest : List Nat} {s : Search K}

theorem Inv.tokens_le (inv : Inv req answer rest s) :
    s.numHitTokens ≤ s.maxHitSizeTokens - req.numLocallyComputedTokens := by
  cases inv.tokens with
  | inl same => exact same.le
  | inr start => rw [start.1]; exact Nat.zero_le _

theorem sliding_subset {i : Nat} (h : i ∈ slidingWindowGroups req) : i ∈ lookupGroups req :=
  List.mem_append_right _ h

theorem Visited.still_pending {i : Nat} {s s' : Search K} (visited : Visited req answer i s s')
    {j : Nat} (known : j ∈ lookupGroups req) (h : j ∈ s.lookupGroups) : j ∈ s'.lookupGroups := by
  cases visited.pending with
  | inl same => rw [same]; exact h
  | inr more =>
    cases more.2 with
    | inl all => rw [all]; exact known
    | inr none => rw [none.1] at h; cases h

theorem Inv.keeps_ready {i j : Nat} {s s' : Search K}
    (inv : Inv req answer (i :: rest) s) (visited : Visited req answer i s s')
    (known : j ∈ lookupGroups req) (other : j ≠ i) (behind : j ∉ rest)
    (ready : GroupReady req answer s.asked j (s.maxHitSizeTokens - req.numLocallyComputedTokens)) :
    GroupReady req answer s'.asked j s'.numHitTokens ∨ j ∈ s'.lookupGroups := by
  have passed : j ∉ i :: rest := by simp [other, behind]
  have tokens : s.numHitTokens = s.maxHitSizeTokens - req.numLocallyComputedTokens := by
    cases inv.tokens with
    | inl same => exact same
    | inr start => exact absurd (start.2 j known) passed
  have less : s'.numHitTokens ≤ s.numHitTokens := by
    rw [tokens, visited.tokens]
    exact Nat.sub_le_sub_right visited.shrinks _
  rw [← tokens] at ready
  cases Nat.lt_or_eq_of_le less with
  | inr same =>
    refine .inl fun g keys config state => ?_
    rw [same]
    exact (ready g keys config state).mono visited.asked
  | inl shrunk =>
    cases List.mem_append.mp known with
    | inl full =>
      refine .inl fun g keys config state => ?_
      obtain ⟨g', config', windowless⟩ := mem_fullAttentionGroups.mp full
      rw [config] at config'
      obtain rfl := Option.some.inj config'
      exact ((ready g keys config state).shrink (Option.isNone_iff_eq_none.mp windowless) less).mono
        visited.asked
    | inr window =>
      have before := (inv.looked j window).resolve_left passed
      right
      cases visited.rerun shrunk before with
      | inl all => rw [all]; exact known
      | inr more =>
        cases more with
        | inr sliding => rw [sliding]; exact window
        | inl already =>
          refine visited.still_pending known ?_
          cases inv.pending.resolve_left already with
          | inl sliding => rw [sliding]; exact window
          | inr all => rw [all]; exact known

theorem Inv.visited {i : Nat} {s s' : Search K}
    (inv : Inv req answer (i :: rest) s) (visited : Visited req answer i s s') :
    Inv req answer rest s' where
  settled := by
    intro j known
    rw [← visited.tokens]
    by_cases here : j = i
    · rw [here] at known ⊢
      cases visited.ready with
      | inl ready => exact .inl ready
      | inr later =>
        cases later with
        | inl deferred => exact .inr (.inr (.inr deferred))
        | inr all => exact .inr (.inr (.inl (all ▸ known)))
    · by_cases behind : j ∈ rest
      · exact .inr (.inl behind)
      · cases inv.settled j known with
        | inl ready =>
          cases inv.keeps_ready visited known here behind ready with
          | inl ready => exact .inl ready
          | inr pending => exact .inr (.inr (.inl pending))
        | inr open' =>
          cases open' with
          | inl inside => exact absurd inside (by simp [here, behind])
          | inr open' =>
            cases open' with
            | inl pending => exact .inr (.inr (.inl (visited.still_pending known pending)))
            | inr deferred =>
              cases visited.deferred deferred with
              | inl still => exact .inr (.inr (.inr still))
              | inr all => exact .inr (.inr (.inl (all ▸ known)))
  pending := by
    cases visited.pending with
    | inl same => rw [same]; exact inv.pending
    | inr more =>
      cases more.2 with
      | inl all => exact .inr (.inr all)
      | inr sliding => exact .inr (.inl sliding.2)
  looked := by
    intro j window
    cases inv.looked j window with
    | inr before => exact .inr (visited.looked.mpr (.inl before))
    | inl inside =>
      cases List.mem_cons.mp inside with
      | inl here => exact .inr (visited.looked.mpr (.inr (here ▸ window)))
      | inr later => exact .inl later
  tokens := .inl visited.tokens

theorem visitGroups_inv {groups : List Nat} {s s' : Search K} (inv : Inv req answer groups s)
    (h : visitGroups req answer groups s = .ok (some s')) :
    Inv req answer [] s' ∧ s'.maxHitSizeTokens ≤ s.maxHitSizeTokens ∧
    (s'.lookupGroups = s.lookupGroups ∨ s'.maxHitSizeTokens < s.maxHitSizeTokens) ∧
    (groups ≠ [] → s'.numHitTokens = s'.maxHitSizeTokens - req.numLocallyComputedTokens) := by
  induction groups generalizing s with
  | nil =>
    obtain rfl := Option.some.inj (Except.ok.inj h)
    exact ⟨inv, le_rfl, .inl rfl, fun none => absurd rfl none⟩
  | cons i rest ih =>
    rw [visitGroups, bind_eq_ok] at h
    obtain ⟨next, visit, h⟩ := h
    cases next with
    | none => cases h
    | some next =>
      have visited := visitGroup_visited visit
      obtain ⟨inv', less, again, tokens⟩ := ih (inv.visited visited) h
      refine ⟨inv', less.trans visited.shrinks, ?_, fun _ => ?_⟩
      · cases again with
        | inr shrunk => exact .inr (shrunk.trans_le visited.shrinks)
        | inl same =>
          cases visited.pending with
          | inl kept => exact .inl (same.trans kept)
          | inr more =>
            have bound := inv.tokens_le
            have shrunk := more.1
            rw [visited.tokens] at shrunk
            exact .inr (by omega)
      · cases rest with
        | nil =>
          obtain rfl := Option.some.inj (Except.ok.inj h)
          exact visited.tokens
        | cons => exact tokens (by simp)

/-! ### The passes -/

/-- Where one pass is over. -/
structure Between (req : Request K) (answer : K → LookupResult) (s : Search K) : Prop where
  settled : ∀ i ∈ lookupGroups req, GroupReady req answer s.asked i
    (s.maxHitSizeTokens - req.numLocallyComputedTokens) ∨ i ∈ s.lookupGroups ∨
      s.deferLookup = true
  pending : s.lookupGroups = [] ∨ s.lookupGroups = slidingWindowGroups req ∨
    s.lookupGroups = lookupGroups req
  tokens : s.numHitTokens = s.maxHitSizeTokens - req.numLocallyComputedTokens ∨
    s.numHitTokens = 0 ∧ s.lookupGroups = lookupGroups req

def Search.fresh (s : Search K) : Search K :=
  { s with lookedUpSlidingWindow := false, lookupGroups := [] }

theorem Between.start (between : Between req answer s)
    (more : s.lookupGroups ≠ []) : Inv req answer s.lookupGroups s.fresh where
  settled := by
    intro i known
    cases between.settled i known with
    | inl ready => exact .inl ready
    | inr open' =>
      cases open' with
      | inl pending => exact .inr (.inl pending)
      | inr deferred => exact .inr (.inr (.inr deferred))
  pending := .inl rfl
  looked := by
    intro i window
    cases between.pending.resolve_left more with
    | inl sliding => exact .inl (sliding ▸ window)
    | inr all => exact .inl (all ▸ sliding_subset window)
  tokens := by
    cases between.tokens with
    | inl same => exact .inl same
    | inr start => exact .inr ⟨start.1, fun i known => start.2 ▸ known⟩

theorem Between.next {s s' : Search K} (between : Between req answer s) (more : s.lookupGroups ≠ [])
    (h : visitGroups req answer s.lookupGroups s.fresh = .ok (some s')) :
    Between req answer s' ∧ s'.maxHitSizeTokens ≤ s.maxHitSizeTokens ∧
    (s'.lookupGroups = [] ∨ s'.maxHitSizeTokens < s.maxHitSizeTokens) := by
  obtain ⟨inv, less, again, tokens⟩ := visitGroups_inv (between.start more) h
  refine ⟨⟨fun i known => ?_, inv.pending, .inl (tokens more)⟩, less, again⟩
  cases inv.settled i known with
  | inl ready => exact .inl ready
  | inr open' => exact .inr (open'.resolve_left (by simp))

variable {fuel : Nat}

theorem converge_step (more : s.lookupGroups ≠ []) :
    converge req answer (fuel + 1) s = visitGroups req answer s.lookupGroups s.fresh >>=
    fun next => next.elim (.ok (some .nothing)) (converge req answer fuel) := by
  rw [converge, if_neg more]
  congr 1
  funext next
  cases next <;> rfl

theorem converge_done (done : s.lookupGroups = []) :
    converge req answer fuel s = .ok (some (.settled s)) := by
  cases fuel with
  | zero => rw [converge, if_pos done]
  | succ fuel => rw [converge, if_pos done]

theorem converge_ends {fuel fuel' : Nat} (between : Between req answer s)
    (enough : s.maxHitSizeTokens < fuel) (enough' : s.maxHitSizeTokens < fuel') :
    converge req answer fuel s = converge req answer fuel' s ∧
    converge req answer fuel s ≠ .ok none := by
  induction fuel generalizing fuel' s with
  | zero => omega
  | succ fuel ih =>
    cases fuel' with
    | zero => omega
    | succ fuel' =>
      by_cases done : s.lookupGroups = []
      · rw [converge_done done, converge_done done]
        exact ⟨rfl, by simp⟩
      · rw [converge_step done, converge_step done]
        cases pass : visitGroups req answer s.lookupGroups s.fresh with
        | error e => exact ⟨rfl, fun h => by cases h⟩
        | ok next =>
          cases next with
          | none => exact ⟨rfl, fun h => by cases h⟩
          | some s' =>
            obtain ⟨between', -, again⟩ := between.next done pass
            cases again with
            | inl ended =>
              change converge req answer fuel s' = converge req answer fuel' s' ∧
                converge req answer fuel s' ≠ .ok none
              rw [converge_done ended, converge_done ended]
              exact ⟨rfl, by simp⟩
            | inr shrunk => exact ih between' (by omega) (by omega)

theorem converge_settled {s s' : Search K} (between : Between req answer s)
    (h : converge req answer fuel s = .ok (some (.settled s'))) :
    Between req answer s' ∧ s'.lookupGroups = [] ∧ s'.maxHitSizeTokens ≤ s.maxHitSizeTokens := by
  induction fuel generalizing s with
  | zero =>
    by_cases done : s.lookupGroups = []
    · rw [converge_done done] at h
      obtain rfl := Outcome.settled.inj (Option.some.inj (Except.ok.inj h))
      exact ⟨between, done, le_rfl⟩
    · rw [converge, if_neg done] at h
      cases h
  | succ fuel ih =>
    by_cases done : s.lookupGroups = []
    · rw [converge_done done] at h
      obtain rfl := Outcome.settled.inj (Option.some.inj (Except.ok.inj h))
      exact ⟨between, done, le_rfl⟩
    · rw [converge_step done, bind_eq_ok] at h
      obtain ⟨next, pass, h⟩ := h
      cases next with
      | none => cases h
      | some next =>
        obtain ⟨between', less, -⟩ := between.next done pass
        obtain ⟨settled, ended, less'⟩ := ih between' h
        exact ⟨settled, ended, less'.trans less⟩

/-! ### The lookup -/

/-- A hit within the tokens of the request and the given caps. -/
structure WithinCaps (req : Request K) (maxNumNewTokens : Option Nat) (n : Nat) : Prop where
  tokens : req.numLocallyComputedTokens + n ≤ req.numTokens
  new : ∀ cap ∈ maxNumNewTokens, n ≤ cap
  load : ∀ cap ∈ req.maxLoadTokens, n ≤ cap

theorem min_elim_le (a : Nat) (cap : Option Nat) : cap.elim a (min a) ≤ a := by
  cases cap with
  | none => exact le_rfl
  | some n => exact Nat.min_le_left a n

theorem elim_min_le {a : Nat} {cap : Option Nat} {n : Nat} (h : n ∈ cap) :
    cap.elim a (min a) ≤ n := by
  obtain rfl := Option.mem_def.mp h
  exact Nat.min_le_right a n

theorem initialMaxHit_le {maxNumNewTokens mambaAlignSize : Option Nat} :
    initialMaxHit req maxNumNewTokens mambaAlignSize ≤ req.numTokens ∧
    (∀ cap ∈ maxNumNewTokens, initialMaxHit req maxNumNewTokens mambaAlignSize ≤
    req.numLocallyComputedTokens + cap) ∧
    ∀ cap ∈ req.maxLoadTokens, initialMaxHit req maxNumNewTokens mambaAlignSize ≤
    req.numLocallyComputedTokens + cap := by
  set first := (maxNumNewTokens.map fun n => req.numLocallyComputedTokens + n).elim
    req.numTokens (min req.numTokens) with firstEq
  set bound := (req.maxLoadTokens.map fun n => req.numLocallyComputedTokens + n).elim
    first (min first) with boundEq
  have under : initialMaxHit req maxNumNewTokens mambaAlignSize ≤ bound := by
    unfold initialMaxHit
    dsimp only
    rw [← firstEq, ← boundEq]
    split
    · exact le_rfl
    · split
      · exact Nat.sub_le bound 1
      · exact (roundDown_le _ _).trans (Nat.sub_le bound 1)
  have boundFirst : bound ≤ first := min_elim_le _ _
  refine ⟨under.trans (boundFirst.trans (min_elim_le _ _)), fun cap h => ?_, fun cap h => ?_⟩
  · exact under.trans (boundFirst.trans
      (elim_min_le (Option.mem_def.mpr (by rw [Option.mem_def.mp h]; rfl))))
  · exact under.trans (elim_min_le (Option.mem_def.mpr (by rw [Option.mem_def.mp h]; rfl)))

def startSearch (req : Request K) (maxNumNewTokens mambaAlignSize : Option Nat) : Search K where
  maxHitSizeTokens := initialMaxHit req maxNumNewTokens mambaAlignSize
  numHitTokens := 0
  deferLookup := false
  eagleVerified := []
  lookedUpSlidingWindow := false
  lookupGroups := lookupGroups req
  asked := []

theorem Between.initial (maxNumNewTokens mambaAlignSize : Option Nat) :
    Between req answer (startSearch req maxNumNewTokens mambaAlignSize) where
  settled := fun _ known => .inr (.inl known)
  pending := .inr (.inr rfl)
  tokens := .inr ⟨rfl, rfl⟩

def conclude [DecidableEq K] (req : Request K) :
    Option (Outcome K) → Except PyError (Option (Option Nat × List K))
  | none => .ok none
  | some .nothing => .ok (some (some 0, []))
  | some (.settled s) =>
    if s.deferLookup then .ok (some (none, s.asked))
    else
      (if req.chunksBeingLoaded = [] then .ok false
        else beingLoaded req s.numHitTokens (req.kvGroupConfigs.zip req.groupStates)) >>=
        fun delayed => .ok (some (if delayed then none else some s.numHitTokens, s.asked))

theorem lookupCompleteChunks_eq [DecidableEq K] (fuel : Nat) (maxNumNewTokens : Option Nat) :
    lookupCompleteChunks req answer fuel maxNumNewTokens =
    resolveMambaAlignSize req.kvGroupConfigs none >>= fun mambaAlignSize =>
    converge req answer fuel (startSearch req maxNumNewTokens mambaAlignSize) >>= conclude req := by
  unfold lookupCompleteChunks
  congr 1
  funext mambaAlignSize
  dsimp only [startSearch]
  congr 1
  funext outcome
  cases outcome with
  | none => rfl
  | some outcome =>
    cases outcome with
    | nothing => rfl
    | settled s =>
      dsimp only [conclude]
      split
      · rfl
      · split <;> rfl

theorem conclude_hit [DecidableEq K] {outcome : Option (Outcome K)} {n : Nat} {asked : List K}
    (h : conclude req outcome = .ok (some (some n, asked))) :
    n = 0 ∨ ∃ s : Search K, outcome = some (.settled s) ∧ s.deferLookup = false ∧
    s.numHitTokens = n ∧ s.asked = asked := by
  cases outcome with
  | none => cases h
  | some outcome =>
    cases outcome with
    | nothing =>
      have same := Option.some.inj (Except.ok.inj h)
      exact .inl (Option.some.inj (congrArg Prod.fst same)).symm
    | settled s =>
      right
      rw [conclude] at h
      cases deferred : s.deferLookup with
      | true =>
        rw [if_pos deferred] at h
        cases h
      | false =>
        rw [if_neg (by rw [deferred]; exact Bool.false_ne_true)] at h
        obtain ⟨delayed, -, h⟩ := bind_eq_ok.mp h
        cases delayed with
        | true => cases h
        | false =>
          have same := Option.some.inj (Except.ok.inj h)
          exact ⟨s, rfl, deferred, Option.some.inj (congrArg Prod.fst same),
            congrArg Prod.snd same⟩

theorem conclude_ne_none [DecidableEq K] {outcome : Option (Outcome K)} (ended : outcome ≠ none) :
    conclude req outcome ≠ .ok none := by
  intro h
  cases outcome with
  | none => exact ended rfl
  | some outcome =>
    cases outcome with
    | nothing => cases h
    | settled s =>
      rw [conclude] at h
      split at h
      · cases h
      · obtain ⟨delayed, -, h⟩ := bind_eq_ok.mp h
        cases h

theorem Between.hit {maxNumNewTokens mambaAlignSize : Option Nat}
    (h : converge req answer fuel (startSearch req maxNumNewTokens mambaAlignSize) =
    .ok (some (.settled s))) (undeferred : s.deferLookup = false) (some' : 0 < s.numHitTokens) :
    WithinCaps req maxNumNewTokens s.numHitTokens ∧
    ∀ i ∈ lookupGroups req, GroupReady req answer s.asked i s.numHitTokens := by
  obtain ⟨between, ended, less⟩ :=
    converge_settled (Between.initial maxNumNewTokens mambaAlignSize) h
  have tokens : s.numHitTokens = s.maxHitSizeTokens - req.numLocallyComputedTokens := by
    cases between.tokens with
    | inl same => exact same
    | inr start => omega
  obtain ⟨all, new, load⟩ := @initialMaxHit_le _ req maxNumNewTokens mambaAlignSize
  change s.maxHitSizeTokens ≤ initialMaxHit req maxNumNewTokens mambaAlignSize at less
  refine ⟨⟨by omega, fun cap given => ?_, fun cap given => ?_⟩, fun i known => ?_⟩
  · have := new cap given
    omega
  · have := load cap given
    omega
  · rw [tokens]
    cases between.settled i known with
    | inl ready => exact ready
    | inr open' =>
      cases open' with
      | inl pending => rw [ended] at pending; cases pending
      | inr deferred => rw [undeferred] at deferred; cases deferred

/-- Whatever the manager answers to the keys, the lookup ends, and where it finds a hit, the hit is
within the caps and every group can read its chunks of it: each was answered as a hit. -/
theorem lookupCompleteChunks_reads [DecidableEq K] (req : Request K) (answer : K → LookupResult)
    (maxNumNewTokens : Option Nat) : ∃ result : Except PyError (Option (Option Nat × List K)),
    (∀ fuel, req.numTokens < fuel → lookupCompleteChunks req answer fuel maxNumNewTokens = result) ∧
    result ≠ .ok none ∧ ∀ n asked, result = .ok (some (some n, asked)) → 0 < n →
    WithinCaps req maxNumNewTokens n ∧ ∀ (i : Nat) g offloadKeys, req.kvGroupConfigs[i]? = some g →
    req.groupStates[i]? = some offloadKeys → Ready req answer asked g offloadKeys n := by
  refine ⟨lookupCompleteChunks req answer (req.numTokens + 1) maxNumNewTokens,
    fun fuel enough => ?_, fun h => ?_, fun n asked h hit => ?_⟩
  · rw [lookupCompleteChunks_eq, lookupCompleteChunks_eq]
    congr 1
    funext mambaAlignSize
    have start := @initialMaxHit_le _ req maxNumNewTokens mambaAlignSize
    rw [(converge_ends (Between.initial maxNumNewTokens mambaAlignSize)
      (start.1.trans_lt enough) (start.1.trans_lt (Nat.lt_succ_self _))).1]
  · rw [lookupCompleteChunks_eq, bind_eq_ok] at h
    obtain ⟨mambaAlignSize, -, h⟩ := h
    obtain ⟨outcome, ended, h⟩ := bind_eq_ok.mp h
    have start := @initialMaxHit_le _ req maxNumNewTokens mambaAlignSize
    refine conclude_ne_none (fun none => ?_) h
    rw [none] at ended
    exact (converge_ends (Between.initial maxNumNewTokens mambaAlignSize)
      (start.1.trans_lt (Nat.lt_succ_self _)) (start.1.trans_lt (Nat.lt_succ_self _))).2 ended
  · rw [lookupCompleteChunks_eq, bind_eq_ok] at h
    obtain ⟨mambaAlignSize, -, h⟩ := h
    obtain ⟨outcome, ended, h⟩ := bind_eq_ok.mp h
    obtain none | ⟨s, rfl, undeferred, rfl, rfl⟩ := conclude_hit h
    · omega
    · obtain ⟨caps, ready⟩ := Between.hit ended undeferred hit
      exact ⟨caps, fun i g offloadKeys config state =>
        ready i (mem_lookupGroups config) g offloadKeys config state⟩

end VllmAmpere.OffloadLookup
