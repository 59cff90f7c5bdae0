import Mathlib.Data.List.Flatten
import VllmAmpere.CacheHitSoundness

/-! The hybrid KV cache coordinator: the split of its groups by spec and the
fixed-point search for the longest cache hit of all of them. -/

open List

namespace VllmAmpere

structure KVCacheGroupSpec where
  kvCacheSpec : KVCacheSpec
  isEagleGroup : Bool
  deriving DecidableEq

/-- Groups that share one spec; the list of their ids is never empty. -/
structure SpecGroup where
  spec : KVCacheSpec
  firstGroupId : Nat
  otherGroupIds : List Nat
  useEagle : Bool
  deriving DecidableEq

def SpecGroup.groupIds (group : SpecGroup) : List Nat :=
  group.firstGroupId :: group.otherGroupIds

/-- The group with index `groupId` joins the first spec group of its spec. -/
def addToSpecGroups (spec : KVCacheSpec) (groupId : Nat) (useEagle : Bool) :
    List SpecGroup → List SpecGroup
  | [] => [⟨spec, groupId, [], useEagle⟩]
  | group :: rest =>
    if group.spec = spec then
      { group with
        otherGroupIds := group.otherGroupIds ++ [groupId]
        useEagle := group.useEagle || useEagle } :: rest
    else group :: addToSpecGroups spec groupId useEagle rest

/-- What a coordinator is built with. -/
structure CoordinatorConfig where
  kvCacheGroups : List KVCacheGroupSpec
  useEagle : Bool
  dcpWorldSize : Nat
  pcpWorldSize : Nat
  schedulerBlockSize : Nat
  hashBlockSize : Nat
  allowPartialHashHits : Bool

namespace CoordinatorConfig

variable (c : CoordinatorConfig)

def eagleGroupIds : List Nat :=
  let flagged := (List.range c.kvCacheGroups.length).filter fun i =>
    c.kvCacheGroups[i]?.any KVCacheGroupSpec.isEagleGroup
  if c.useEagle ∧ flagged = [] then List.range c.kvCacheGroups.length else flagged

variable (spec : KVCacheSpec)

def managerDcpWorldSize : Nat := if spec.dcpSharded then c.dcpWorldSize else 1

def managerPcpWorldSize : Nat := if spec.dcpSharded then c.pcpWorldSize else 1

def managerBlockSize : Nat := spec.blockSize * c.managerDcpWorldSize spec

def hasPartialMambaGroup : Bool :=
  c.kvCacheGroups.any fun g => g.kvCacheSpec.kind == .mamba .align &&
    (c.dcpWorldSize == 1 && c.hashBlockSize < g.kvCacheSpec.blockSize ||
      1 < c.dcpWorldSize && c.hashBlockSize ≤ g.kvCacheSpec.blockSize)

def hasUnsupportedPartialHitManager : Bool :=
  c.kvCacheGroups.any fun g => g.kvCacheSpec.prefixCacheable &&
    !g.kvCacheSpec.kind.supportsFineGrainedHashLookup &&
    c.managerBlockSize g.kvCacheSpec != c.hashBlockSize

def enablePartialHashHits : Bool :=
  c.allowPartialHashHits && c.hasPartialMambaGroup && !c.hasUnsupportedPartialHitManager

def cacheHitAlignmentTokens : Nat :=
  if c.enablePartialHashHits then c.hashBlockSize else c.schedulerBlockSize

/-- The loop of `verify_and_split_kv_cache_groups`. -/
def splitGroups : (groupId : Nat) → List KVCacheGroupSpec → List SpecGroup → List SpecGroup
  | _, [], groups => groups
  | groupId, g :: rest, groups =>
    if g.kvCacheSpec.prefixCacheable then
      splitGroups (groupId + 1) rest
        (addToSpecGroups g.kvCacheSpec groupId (c.eagleGroupIds.contains groupId) groups)
    else splitGroups (groupId + 1) rest groups

def attentionGroups : List SpecGroup :=
  let groups := c.splitGroups 0 c.kvCacheGroups []
  groups.filter (·.spec.kind.isFullAttention) ++ groups.filter (!·.spec.kind.isFullAttention)

def isSimpleHybrid : Bool :=
  match c.attentionGroups with
  | [first, _] => first.spec.kind.isFullAttention
  | _ => false

/-- The extra unit an EAGLE lookup matches and then drops. -/
def eagleMargin : Nat :=
  if c.enablePartialHashHits && spec.kind.supportsFineGrainedHashLookup &&
      c.hashBlockSize < c.managerBlockSize spec then c.hashBlockSize
  else c.managerBlockSize spec

/-- What the constructors assert, block sizes of sharded groups counted as the
managers count them. -/
structure Valid : Prop where
  hash_pos : 0 < c.hashBlockSize
  scheduler_pos : 0 < c.schedulerBlockSize
  dcp_pos : 0 < c.dcpWorldSize
  pcp_pos : 0 < c.pcpWorldSize
  hash_dvd_scheduler : c.hashBlockSize ∣ c.schedulerBlockSize
  block_dvd_scheduler : ∀ g ∈ c.kvCacheGroups, c.managerBlockSize g.kvCacheSpec ∣
    c.schedulerBlockSize
  hash_dvd_block : ∀ g ∈ c.kvCacheGroups, g.kvCacheSpec.prefixCacheable →
    c.hashBlockSize ∣ c.managerBlockSize g.kvCacheSpec
  dcp_supported : 1 < c.dcpWorldSize → ∀ g ∈ c.kvCacheGroups,
    g.kvCacheSpec.kind.isFullAttention ∨ g.kvCacheSpec.dcpSharded = false
  pcp_supported : 1 < c.pcpWorldSize → ∀ g ∈ c.kvCacheGroups,
    g.kvCacheSpec.kind.isFullAttention ∨
      g.kvCacheSpec.kind.isMamba = false ∧ g.kvCacheSpec.dcpSharded = false
  groups_ne_nil : c.attentionGroups ≠ []

theorem valid_iff : c.Valid ↔
    0 < c.hashBlockSize ∧ 0 < c.schedulerBlockSize ∧ 0 < c.dcpWorldSize ∧ 0 < c.pcpWorldSize ∧
    c.hashBlockSize ∣ c.schedulerBlockSize ∧
    (∀ g ∈ c.kvCacheGroups, c.managerBlockSize g.kvCacheSpec ∣ c.schedulerBlockSize) ∧
    (∀ g ∈ c.kvCacheGroups, g.kvCacheSpec.prefixCacheable →
    c.hashBlockSize ∣ c.managerBlockSize g.kvCacheSpec) ∧
    (1 < c.dcpWorldSize → ∀ g ∈ c.kvCacheGroups,
    g.kvCacheSpec.kind.isFullAttention ∨ g.kvCacheSpec.dcpSharded = false) ∧
    (1 < c.pcpWorldSize → ∀ g ∈ c.kvCacheGroups, g.kvCacheSpec.kind.isFullAttention ∨
    g.kvCacheSpec.kind.isMamba = false ∧ g.kvCacheSpec.dcpSharded = false) ∧
    c.attentionGroups ≠ [] :=
  ⟨fun h => ⟨h.1, h.2, h.3, h.4, h.5, h.6, h.7, h.8, h.9, h.10⟩,
    fun ⟨h1, h2, h3, h4, h5, h6, h7, h8, h9, h10⟩ => ⟨h1, h2, h3, h4, h5, h6, h7, h8, h9, h10⟩⟩

instance : Decidable c.Valid := decidable_of_iff' _ c.valid_iff

end CoordinatorConfig

/-- A coordinator that was built, with the block pool its managers share. -/
structure HybridKVCacheCoordinator extends CoordinatorConfig where
  blockPool : BlockPool
  valid : toCoordinatorConfig.Valid
  hashBlockSize_eq : blockPool.hashBlockSize = hashBlockSize

/-- The variables of the search that live across its rounds. -/
structure SearchState where
  currHitLength : Nat
  longestHitLength : Nat
  hitBlocksByGroup : Nat → Option (List BlockId)
  hitLengthByGroup : Nat → Nat
  eagleVerified : List Nat

namespace SearchState

/-- `zip(group_ids, hit_blocks)` stored with the new length. -/
def storeHits (st : SearchState) (newHitLength : Nat) :
    List Nat → List (List BlockId) → SearchState
  | groupId :: groupIds, blocks :: rest =>
    storeHits { st with
      hitBlocksByGroup := Function.update st.hitBlocksByGroup groupId (some blocks)
      hitLengthByGroup := Function.update st.hitLengthByGroup groupId newHitLength }
      newHitLength groupIds rest
  | _, _ => st

def dropsEagleBlock (st : SearchState) (idx : Nat) (group : SpecGroup) : Bool :=
  group.useEagle && !st.eagleVerified.contains idx

end SearchState

namespace HybridKVCacheCoordinator

variable (c : HybridKVCacheCoordinator) (blockHashes : List BlockHash)

def query (group : SpecGroup) : CacheHitQuery where
  blockHashes := blockHashes
  kvCacheGroupIds := group.groupIds
  blockPool := c.blockPool
  kvCacheSpec := group.spec
  alignmentTokens := c.cacheHitAlignmentTokens
  dcpWorldSize := c.managerDcpWorldSize group.spec
  pcpWorldSize := c.managerPcpWorldSize group.spec

/-- The length a group is looked up to. No margin for Mamba: its finder never drops. -/
def lookupLength (maxCacheHitLength idx : Nat) (group : SpecGroup) (st : SearchState) : Nat :=
  if st.dropsEagleBlock idx group && !group.spec.kind.isMamba then
    min (st.currHitLength + c.eagleMargin group.spec) maxCacheHitLength
  else st.currHitLength

def lookupGroup (maxCacheHitLength idx : Nat) (group : SpecGroup)
    (st : SearchState) : Except PyError SearchState :=
  if group.spec.kind.isFullAttention ∧ (st.hitBlocksByGroup group.firstGroupId).isSome then
    -- full attention is downward-closed: a later round only trims
    .ok { st with
      currHitLength := min st.currHitLength (st.hitLengthByGroup group.firstGroupId) }
  else do
    let dropEagleBlock := st.dropsEagleBlock idx group
    let (rows, newHitLength) ← (c.query blockHashes group).findLongestCacheHit
      (c.lookupLength maxCacheHitLength idx group st) dropEagleBlock
    let hitBlocks := (c.query blockHashes group).computedBlocks rows
    let eagleVerified :=
      if dropEagleBlock then idx :: st.eagleVerified
      else if newHitLength < st.currHitLength then [] else st.eagleVerified
    .ok { SearchState.storeHits { st with eagleVerified } newHitLength group.groupIds hitBlocks with
      currHitLength := newHitLength
      longestHitLength := max st.longestHitLength newHitLength }

/-- One round over the spec groups from index `idx` on. -/
def lookupGroups (blockHashes : List BlockHash) (maxCacheHitLength : Nat) :
    (idx : Nat) → List SpecGroup → SearchState → Except PyError SearchState
  | _, [], st => .ok st
  | idx, group :: rest, st => do
    let st ← c.lookupGroup blockHashes maxCacheHitLength idx group st
    lookupGroups blockHashes maxCacheHitLength (idx + 1) rest st

/-- The rounds of the search; a round that does not shorten the hit is the last. -/
def searchRounds (blockHashes : List BlockHash) (maxCacheHitLength hitLength : Nat)
    (st : SearchState) : Except PyError (Nat × SearchState) :=
  match c.lookupGroups blockHashes maxCacheHitLength 0 c.attentionGroups
      { st with currHitLength := hitLength } with
  | .error e => .error e
  | .ok st' =>
    if hitLength ≤ st'.currHitLength then .ok (hitLength, st')
    else if c.isSimpleHybrid then .ok (st'.currHitLength, st')
    else searchRounds blockHashes maxCacheHitLength st'.currHitLength st'
termination_by hitLength

def initialSearch (maxCacheHitLength : Nat) : SearchState where
  currHitLength := maxCacheHitLength
  longestHitLength := 0
  hitBlocksByGroup := fun _ => none
  hitLengthByGroup := fun _ => 0
  eagleVerified := []

/-- The lists of full-attention groups cut to the final length. -/
def truncateFullAttention (hitLength : Nat) (st : SearchState) (group : SpecGroup) :
    SearchState :=
  if group.spec.kind.isFullAttention then
    { st with
      hitBlocksByGroup := fun i =>
        if i ∈ group.groupIds then
          (st.hitBlocksByGroup i).map (·.take (cdiv hitLength (c.managerBlockSize group.spec)))
        else st.hitBlocksByGroup i }
  else st

/-- The blocks of each group, the hit length and `num_uncached_common_prefix_tokens`. -/
def findLongestCacheHit (maxCacheHitLength : Nat) :
    Except PyError (List (List BlockId) × Nat × Int) := do
  let (hitLength, st) ← c.searchRounds blockHashes maxCacheHitLength maxCacheHitLength
    (initialSearch maxCacheHitLength)
  let st := c.attentionGroups.foldl (c.truncateFullAttention hitLength) st
  let cacheHitBlocks := (List.range c.kvCacheGroups.length).map fun i =>
    (st.hitBlocksByGroup i).getD []
  .ok (cacheHitBlocks, hitLength, (st.longestHitLength : Int) - hitLength)

end HybridKVCacheCoordinator

/-! The split of KV cache groups into spec groups: every cacheable group is in
exactly one, next to groups of its own spec. -/

variable {c : CoordinatorConfig}

theorem addToSpecGroups_ids (spec : KVCacheSpec) (groupId : Nat) (useEagle : Bool)
    (groups : List SpecGroup) :
    ((addToSpecGroups spec groupId useEagle groups).flatMap SpecGroup.groupIds).Perm
    (groupId :: groups.flatMap SpecGroup.groupIds) := by
  induction groups with
  | nil => simp [addToSpecGroups, SpecGroup.groupIds]
  | cons group rest ih =>
    rw [addToSpecGroups]
    split
    · simp only [flatMap_cons, SpecGroup.groupIds, cons_append]
      refine List.Perm.trans ?_ (List.Perm.swap _ _ _)
      refine List.Perm.cons _ ?_
      rw [append_assoc]
      exact perm_middle
    · simp only [flatMap_cons]
      exact (List.Perm.append_left _ ih).trans perm_middle

/-- What the spec groups record about the KV cache groups seen so far. -/
structure CoordinatorConfig.Splits (c : CoordinatorConfig) (seen : Nat)
    (groups : List SpecGroup) : Prop where
  nodup : (groups.flatMap SpecGroup.groupIds).Nodup
  member : ∀ group ∈ groups, ∀ i ∈ group.groupIds, i < seen ∧
    ∃ g, c.kvCacheGroups[i]? = some g ∧ g.kvCacheSpec = group.spec ∧ g.kvCacheSpec.prefixCacheable
  complete : ∀ i < seen, ∀ g, c.kvCacheGroups[i]? = some g → g.kvCacheSpec.prefixCacheable →
    ∃ group ∈ groups, i ∈ group.groupIds
  eagle : ∀ group ∈ groups, group.useEagle = true ↔ ∃ i ∈ group.groupIds, i ∈ c.eagleGroupIds

namespace CoordinatorConfig

variable {seen : Nat} {groups : List SpecGroup} {g : KVCacheGroupSpec}

theorem Splits.skip (h : c.Splits seen groups) (hg : c.kvCacheGroups[seen]? = some g)
    (hskip : g.kvCacheSpec.prefixCacheable = false) : c.Splits (seen + 1) groups where
  nodup := h.nodup
  member group hgroup i hi := by
    have ⟨hlt, hrest⟩ := h.member group hgroup i hi
    exact ⟨by omega, hrest⟩
  complete i hi g' hg' hcache := by
    by_cases hiseen : i = seen
    · rw [hiseen, hg, Option.some.injEq] at hg'
      rw [← hg', hskip] at hcache
      exact absurd hcache (by simp)
    · exact h.complete i (by omega) g' hg' hcache
  eagle := h.eagle

variable {group : SpecGroup}

theorem mem_addToSpecGroups {spec : KVCacheSpec} {groupId : Nat} {useEagle : Bool}
    (h : group ∈ addToSpecGroups spec groupId useEagle groups) :
    group ∈ groups ∨ group = ⟨spec, groupId, [], useEagle⟩ ∨
      ∃ old ∈ groups, old.spec = spec ∧ group = { old with
        otherGroupIds := old.otherGroupIds ++ [groupId], useEagle := old.useEagle || useEagle } := by
  induction groups with
  | nil => exact .inr (.inl (by simpa [addToSpecGroups] using h))
  | cons old rest ih =>
    rw [addToSpecGroups] at h
    split at h
    · rename_i hspec
      rcases mem_cons.mp h with heq | hmem
      · exact .inr (.inr ⟨old, mem_cons_self, hspec, heq⟩)
      · exact .inl (mem_cons_of_mem _ hmem)
    · rcases mem_cons.mp h with heq | hmem
      · exact .inl (heq ▸ mem_cons_self)
      · rcases ih hmem with hin | hnew | ⟨old', hold, hrest⟩
        · exact .inl (mem_cons_of_mem _ hin)
        · exact .inr (.inl hnew)
        · exact .inr (.inr ⟨old', mem_cons_of_mem _ hold, hrest⟩)

theorem Splits.add (h : c.Splits seen groups) (hg : c.kvCacheGroups[seen]? = some g)
    (hcache : g.kvCacheSpec.prefixCacheable = true) :
    c.Splits (seen + 1)
      (addToSpecGroups g.kvCacheSpec seen (c.eagleGroupIds.contains seen) groups) where
  nodup := by
    rw [(addToSpecGroups_ids _ _ _ _).nodup_iff, nodup_cons]
    refine ⟨?_, h.nodup⟩
    intro hmem
    have ⟨group, hgroup, hi⟩ := mem_flatMap.mp hmem
    exact absurd (h.member group hgroup seen hi).1 (Nat.lt_irrefl _)
  member group hgroup i hi := by
    rcases mem_addToSpecGroups hgroup with hold | hnew | ⟨old, hold, hspec, heq⟩
    · have ⟨hlt, hrest⟩ := h.member group hold i hi
      exact ⟨by omega, hrest⟩
    · subst hnew
      simp only [SpecGroup.groupIds, mem_singleton] at hi
      exact ⟨by omega, g, hi ▸ hg, rfl, hcache⟩
    · subst heq
      rw [SpecGroup.groupIds, ← cons_append, mem_append, mem_singleton] at hi
      rcases hi with hin | hlast
      · have ⟨hlt, hrest⟩ := h.member old hold i hin
        exact ⟨by omega, hrest⟩
      · exact ⟨by omega, g, hlast ▸ hg, hspec.symm, hcache⟩
  complete i hi g' hg' hcache' := by
    have hmem : i ∈ (addToSpecGroups g.kvCacheSpec seen (c.eagleGroupIds.contains seen)
        groups).flatMap SpecGroup.groupIds := by
      rw [(addToSpecGroups_ids _ _ _ _).mem_iff, mem_cons]
      by_cases hiseen : i = seen
      · exact .inl hiseen
      · have ⟨group, hgroup, hin⟩ := h.complete i (by omega) g' hg' hcache'
        exact .inr (mem_flatMap.mpr ⟨group, hgroup, hin⟩)
    exact mem_flatMap.mp hmem
  eagle group hgroup := by
    rcases mem_addToSpecGroups hgroup with hold | hnew | ⟨old, hold, _, heq⟩
    · exact h.eagle group hold
    · subst hnew
      simp [SpecGroup.groupIds]
    · subst heq
      have hids : ∀ i, i ∈ SpecGroup.groupIds { old with
          otherGroupIds := old.otherGroupIds ++ [seen]
          useEagle := old.useEagle || c.eagleGroupIds.contains seen } ↔
          i ∈ old.groupIds ∨ i = seen := by
        intro i
        simp [SpecGroup.groupIds, or_assoc]
      simp only [Bool.or_eq_true, h.eagle old hold, hids, contains_iff_mem]
      constructor
      · rintro (⟨i, hi, he⟩ | he)
        · exact ⟨i, .inl hi, he⟩
        · exact ⟨seen, .inr rfl, he⟩
      · rintro ⟨i, hi | hi, he⟩
        · exact .inl ⟨i, hi, he⟩
        · exact .inr (hi ▸ he)

theorem splitGroups_splits {rest : List KVCacheGroupSpec}
    (hrest : c.kvCacheGroups.drop seen = rest) (h : c.Splits seen groups) :
    c.Splits (seen + rest.length) (c.splitGroups seen rest groups) := by
  induction rest generalizing seen groups with
  | nil => exact h
  | cons g rest ih =>
    have hg : c.kvCacheGroups[seen]? = some g := by
      have := congrArg (·[0]?) hrest
      simpa using this
    have htail : c.kvCacheGroups.drop (seen + 1) = rest := by
      rw [← drop_drop, hrest, drop_one, tail_cons]
    rw [splitGroups, length_cons, show seen + (rest.length + 1) = seen + 1 + rest.length by
      omega]
    split
    · rename_i hcache
      exact ih htail (h.add hg hcache)
    · rename_i hskip
      exact ih htail (h.skip hg (by simpa using hskip))

theorem attentionGroups_perm (c : CoordinatorConfig) :
    c.attentionGroups.Perm (c.splitGroups 0 c.kvCacheGroups []) :=
  filter_append_perm _ _

theorem attentionGroups_splits (c : CoordinatorConfig) :
    c.Splits c.kvCacheGroups.length c.attentionGroups := by
  have hnil : c.Splits 0 [] := ⟨by simp, by simp, fun i hi => by omega, by simp⟩
  have h := splitGroups_splits (c := c) rfl hnil
  rw [Nat.zero_add] at h
  have hperm := c.attentionGroups_perm
  exact
    { nodup := (hperm.flatMap_right _).nodup_iff.mpr h.nodup
      member := fun group hgroup => h.member group (hperm.mem_iff.mp hgroup)
      complete := fun i hi g hg hcache => by
        have ⟨group, hgroup, hin⟩ := h.complete i hi g hg hcache
        exact ⟨group, hperm.mem_iff.mpr hgroup, hin⟩
      eagle := fun group hgroup => h.eagle group (hperm.mem_iff.mp hgroup) }

theorem exists_specGroup {i : Nat} (hg : c.kvCacheGroups[i]? = some g)
    (hcache : g.kvCacheSpec.prefixCacheable) :
    ∃ group ∈ c.attentionGroups, i ∈ group.groupIds ∧ group.spec = g.kvCacheSpec := by
  have hsplit := c.attentionGroups_splits
  have hi : i < c.kvCacheGroups.length := (List.getElem?_eq_some_iff.mp hg).1
  have ⟨group, hgroup, hin⟩ := hsplit.complete i hi g hg hcache
  have ⟨_, g', hg', hspec, _⟩ := hsplit.member group hgroup i hin
  rw [hg, Option.some.injEq] at hg'
  exact ⟨group, hgroup, hin, hg' ▸ hspec.symm⟩

theorem specGroup_member (hgroup : group ∈ c.attentionGroups) :
    ∃ g ∈ c.kvCacheGroups, g.kvCacheSpec = group.spec ∧ g.kvCacheSpec.prefixCacheable := by
  have ⟨_, g, hg, hspec, hcache⟩ :=
    c.attentionGroups_splits.member group hgroup group.firstGroupId mem_cons_self
  exact ⟨g, mem_of_getElem? hg, hspec, hcache⟩

theorem groupIds_nodup (hgroup : group ∈ c.attentionGroups) : group.groupIds.Nodup :=
  (nodup_flatMap.mp c.attentionGroups_splits.nodup).1 group hgroup

theorem groupIds_disjoint {i j : Nat} {group group' : SpecGroup}
    (hi : c.attentionGroups[i]? = some group) (hj : c.attentionGroups[j]? = some group')
    (hne : i ≠ j) : ∀ id ∈ group.groupIds, id ∉ group'.groupIds := by
  have hpair := (nodup_flatMap.mp c.attentionGroups_splits.nodup).2
  rw [pairwise_iff_getElem] at hpair
  obtain ⟨hilt, rfl⟩ := List.getElem?_eq_some_iff.mp hi
  obtain ⟨hjlt, rfl⟩ := List.getElem?_eq_some_iff.mp hj
  intro id hid hid'
  rcases Nat.lt_or_gt_of_ne hne with hlt | hgt
  · exact hpair i j hilt hjlt hlt hid hid'
  · exact hpair j i hjlt hilt hgt hid' hid

end CoordinatorConfig

end VllmAmpere
