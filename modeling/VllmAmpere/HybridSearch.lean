import VllmAmpere.HybridCoordinator
import VllmAmpere.TransitionSystem

/-! The fixed-point search of the hybrid coordinator as a transition system over
single lookups: its invariant, its termination and what every group is served. -/

open List

namespace VllmAmpere

namespace HybridKVCacheCoordinator

variable {c : HybridKVCacheCoordinator} {blockHashes : List BlockHash} {maxCacheHitLength : Nat}

theorem alignment_pos (c : HybridKVCacheCoordinator) : 0 < c.cacheHitAlignmentTokens := by
  unfold CoordinatorConfig.cacheHitAlignmentTokens
  split
  · exact c.valid.hash_pos
  · exact c.valid.scheduler_pos

theorem manager_unsharded {g : KVCacheGroupSpec} (hg : g ∈ c.kvCacheGroups)
    (hfull : g.kvCacheSpec.kind.isFullAttention = false) :
    c.managerDcpWorldSize g.kvCacheSpec = 1 ∧ c.managerPcpWorldSize g.kvCacheSpec = 1 := by
  have hdcp := c.valid.dcp_pos
  have hpcp := c.valid.pcp_pos
  have hd : 1 < c.dcpWorldSize → g.kvCacheSpec.dcpSharded = false := fun h => by
    simpa [hfull] using c.valid.dcp_supported h g hg
  have hp : 1 < c.pcpWorldSize → g.kvCacheSpec.dcpSharded = false := fun h => by
    have := c.valid.pcp_supported h g hg
    simp only [hfull, Bool.false_eq_true, false_or] at this
    exact this.2
  unfold CoordinatorConfig.managerDcpWorldSize CoordinatorConfig.managerPcpWorldSize
  cases hs : g.kvCacheSpec.dcpSharded with
  | false => simp
  | true =>
    simp only [hs, Bool.true_eq_false, imp_false, Nat.not_lt] at hd hp
    simp only [if_true]
    omega

theorem unsupported_blockSize {g : KVCacheGroupSpec} (hg : g ∈ c.kvCacheGroups)
    (hcache : g.kvCacheSpec.prefixCacheable) (hpart : c.enablePartialHashHits)
    (hkind : g.kvCacheSpec.kind.supportsFineGrainedHashLookup = false) :
    c.managerBlockSize g.kvCacheSpec = c.hashBlockSize := by
  unfold CoordinatorConfig.enablePartialHashHits at hpart
  simp only [Bool.and_eq_true, Bool.not_eq_true'] at hpart
  have hnone := hpart.2
  unfold CoordinatorConfig.hasUnsupportedPartialHitManager at hnone
  simp only [any_eq_false] at hnone
  have := hnone g hg
  simpa [hcache, hkind] using this

theorem query_compatible (blockHashes : List BlockHash) {group : SpecGroup}
    (hgroup : group ∈ c.attentionGroups) : (c.query blockHashes group).Compatible := by
  have ⟨g, hg, hspec, hcache⟩ := CoordinatorConfig.specGroup_member hgroup
  have hpos : 0 < c.managerDcpWorldSize group.spec := by
    unfold CoordinatorConfig.managerDcpWorldSize
    split
    · exact c.valid.dcp_pos
    · exact Nat.one_pos
  have hworld : group.spec.kind.isFullAttention ∨
      c.managerDcpWorldSize group.spec = 1 ∧ c.managerPcpWorldSize group.spec = 1 := by
    rw [← hspec]
    cases hfull : g.kvCacheSpec.kind.isFullAttention with
    | true => exact .inl rfl
    | false => exact .inr (manager_unsharded hg hfull)
  refine ⟨c.hashBlockSize_eq ▸ c.valid.hash_pos, hpos, hworld, ?_, c.alignment_pos, ?_⟩
  · show c.blockPool.hashBlockSize ∣ c.managerBlockSize group.spec
    rw [c.hashBlockSize_eq, ← hspec]
    exact c.valid.hash_dvd_block g hg hcache
  · show c.managerBlockSize group.spec ∣ c.cacheHitAlignmentTokens ∨
      c.cacheHitAlignmentTokens = c.blockPool.hashBlockSize ∧
        group.spec.kind.supportsFineGrainedHashLookup
    rw [c.hashBlockSize_eq, ← hspec]
    unfold CoordinatorConfig.cacheHitAlignmentTokens
    cases hpart : c.enablePartialHashHits with
    | false => exact .inl (c.valid.block_dvd_scheduler g hg)
    | true =>
      cases hkind : g.kvCacheSpec.kind.supportsFineGrainedHashLookup with
      | true => exact .inr ⟨rfl, rfl⟩
      | false => exact .inl (unsupported_blockSize hg hcache hpart hkind ▸ Nat.dvd_refl _)

theorem eagleMargin_eq {group : SpecGroup} (hgroup : group ∈ c.attentionGroups) :
    c.eagleMargin group.spec = (c.query blockHashes group).dropUnit := by
  have ⟨g, hg, hspec, hcache⟩ := CoordinatorConfig.specGroup_member hgroup
  show c.eagleMargin group.spec =
    min c.cacheHitAlignmentTokens (c.managerBlockSize group.spec)
  rw [← hspec]
  have hblock := Nat.le_of_dvd c.valid.scheduler_pos (c.valid.block_dvd_scheduler g hg)
  unfold CoordinatorConfig.eagleMargin CoordinatorConfig.cacheHitAlignmentTokens
  cases hpart : c.enablePartialHashHits with
  | false => simp [Nat.min_eq_right hblock]
  | true =>
    cases hkind : g.kvCacheSpec.kind.supportsFineGrainedHashLookup with
    | true =>
      simp only [Bool.true_and, decide_eq_true_eq, if_true]
      split <;> omega
    | false => simp [unsupported_blockSize hg hcache hpart hkind]

end HybridKVCacheCoordinator

namespace SearchState

variable {st : SearchState} {newHitLength : Nat} {groupIds : List Nat}
  {hitBlocks : List (List BlockId)}

theorem storeHits_other {id : Nat} (hid : id ∉ groupIds) :
    (st.storeHits newHitLength groupIds hitBlocks).hitBlocksByGroup id = st.hitBlocksByGroup id ∧
    (st.storeHits newHitLength groupIds hitBlocks).hitLengthByGroup id =
    st.hitLengthByGroup id := by
  induction groupIds generalizing st hitBlocks with
  | nil => simp [storeHits]
  | cons first rest ih =>
    cases hitBlocks with
    | nil => simp [storeHits]
    | cons blocks hitBlocks =>
      rw [mem_cons, not_or] at hid
      rw [storeHits, (ih hid.2).1, (ih hid.2).2]
      simp [hid.1]

theorem storeHits_stored (st : SearchState) (newHitLength : Nat) {k id : Nat}
    {blocks : List BlockId} (hnodup : groupIds.Nodup)
    (hid : groupIds[k]? = some id) (hblocks : hitBlocks[k]? = some blocks) :
    (st.storeHits newHitLength groupIds hitBlocks).hitBlocksByGroup id = some blocks ∧
    (st.storeHits newHitLength groupIds hitBlocks).hitLengthByGroup id = newHitLength := by
  induction groupIds generalizing st hitBlocks k with
  | nil => simp at hid
  | cons first rest ih =>
    rw [nodup_cons] at hnodup
    cases hitBlocks with
    | nil => simp at hblocks
    | cons head hitBlocks =>
      rw [storeHits]
      cases k with
      | zero =>
        simp only [getElem?_cons_zero, Option.some.injEq] at hid hblocks
        subst hid hblocks
        rw [(storeHits_other hnodup.1).1, (storeHits_other hnodup.1).2]
        simp
      | succ k => exact ih _ hnodup.2 (by simpa using hid) (by simpa using hblocks)

theorem storeHits_eagleVerified :
    (st.storeHits newHitLength groupIds hitBlocks).eagleVerified = st.eagleVerified := by
  induction groupIds generalizing st hitBlocks with
  | nil => simp [storeHits]
  | cons first rest ih =>
    cases hitBlocks with
    | nil => simp [storeHits]
    | cons blocks hitBlocks => rw [storeHits, ih]

end SearchState

namespace HybridKVCacheCoordinator

variable {c : HybridKVCacheCoordinator} {blockHashes : List BlockHash} {maxCacheHitLength : Nat}

/-- What the finder of chunked-local groups asserts: blocks as long as the hit
alignment and no EAGLE. -/
structure ChunkedSupported (c : HybridKVCacheCoordinator) : Prop where
  blockSize : ∀ g ∈ c.kvCacheGroups, g.kvCacheSpec.prefixCacheable →
    g.kvCacheSpec.kind.isChunkedLocalAttention →
      g.kvCacheSpec.blockSize = c.cacheHitAlignmentTokens
  noEagle : ∀ i ∈ c.eagleGroupIds, ∀ g, c.kvCacheGroups[i]? = some g →
    g.kvCacheSpec.prefixCacheable → g.kvCacheSpec.kind.isChunkedLocalAttention = false

variable {group : SpecGroup}

theorem ChunkedSupported.lookup (h : c.ChunkedSupported) (hgroup : group ∈ c.attentionGroups)
    (hchunked : group.spec.kind.isChunkedLocalAttention) (idx : Nat) (st : SearchState) :
    group.spec.blockSize = c.cacheHitAlignmentTokens ∧ st.dropsEagleBlock idx group = false := by
  have ⟨g, hg, hspec, hcache⟩ := CoordinatorConfig.specGroup_member hgroup
  refine ⟨hspec ▸ h.blockSize g hg hcache (hspec ▸ hchunked), ?_⟩
  have hsplit := c.attentionGroups_splits
  cases huse : group.useEagle with
  | false => simp [SearchState.dropsEagleBlock, huse]
  | true =>
    have ⟨i, hi, heagle⟩ := (hsplit.eagle group hgroup).mp huse
    have ⟨_, g', hg', hspec', hcache'⟩ := hsplit.member group hgroup i hi
    have := h.noEagle i heagle g' hg' hcache'
    rw [hspec', hchunked] at this
    exact absurd this (by simp)

/-- The lists kept for a spec group are what a finder found at the recorded length. -/
def Kept (c : HybridKVCacheCoordinator) (blockHashes : List BlockHash) (st : SearchState)
    (group : SpecGroup) (maxLength : Nat) (dropEagleBlock : Bool) : Prop :=
  ∃ rows, (c.query blockHashes group).Found maxLength dropEagleBlock rows
      (st.hitLengthByGroup group.firstGroupId) ∧
    ∀ k id, group.groupIds[k]? = some id →
      st.hitBlocksByGroup id = some (rows.map fun row => row.getD k c.blockPool.nullBlock)

/-- The lookup of a spec group leaves the state this way. -/
structure Looked (c : HybridKVCacheCoordinator) (blockHashes : List BlockHash)
    (maxCacheHitLength idx : Nat) (group : SpecGroup) (st st' : SearchState) : Prop where
  kept : Kept c blockHashes st' group (c.lookupLength maxCacheHitLength idx group st)
    (st.dropsEagleBlock idx group && !group.spec.kind.isMamba)
  length : st'.hitLengthByGroup group.firstGroupId = st'.currHitLength
  frame : ∀ id ∉ group.groupIds, st'.hitBlocksByGroup id = st.hitBlocksByGroup id ∧
    st'.hitLengthByGroup id = st.hitLengthByGroup id
  verified : st'.eagleVerified =
    if st.dropsEagleBlock idx group then idx :: st.eagleVerified
    else if st'.currHitLength < st.currHitLength then [] else st.eagleVerified
  aligned : c.cacheHitAlignmentTokens ∣ st'.currHitLength
  le : st'.currHitLength ≤ st.currHitLength

variable {idx : Nat} {st : SearchState}

theorem lookupLength_le (hcurr : st.currHitLength ≤ maxCacheHitLength) :
    c.lookupLength maxCacheHitLength idx group st ≤ maxCacheHitLength := by
  unfold lookupLength
  split
  · exact Nat.min_le_right _ _
  · exact hcurr

theorem lookupGroup_looked
    (hgroup : c.attentionGroups[idx]? = some group) (hchunk : c.ChunkedSupported)
    (hlen : maxCacheHitLength / c.hashBlockSize ≤ blockHashes.length)
    (hcurr : st.currHitLength ≤ maxCacheHitLength) (hnew : ¬(group.spec.kind.isFullAttention ∧
    (st.hitBlocksByGroup group.firstGroupId).isSome)) :
    ∃ st', c.lookupGroup blockHashes maxCacheHitLength idx group st = .ok st' ∧
    Looked c blockHashes maxCacheHitLength idx group st st' := by
  have hmem := mem_of_getElem? hgroup
  have hq := query_compatible blockHashes hmem
  have hbound : c.lookupLength maxCacheHitLength idx group st /
      (c.query blockHashes group).blockPool.hashBlockSize ≤
      (c.query blockHashes group).blockHashes.length := by
    show _ / c.blockPool.hashBlockSize ≤ blockHashes.length
    rw [c.hashBlockSize_eq]
    exact Nat.le_trans (Nat.div_le_div_right (lookupLength_le hcurr)) hlen
  have ⟨rows, newHitLength, hfind, hfound⟩ := CacheHitQuery.findLongestCacheHit_found hq hbound
    (st.dropsEagleBlock idx group) fun hchunked => hchunk.lookup hmem hchunked idx st
  have hcols : ∀ k id, group.groupIds[k]? = some id →
      ((c.query blockHashes group).computedBlocks rows)[k]? =
        some (rows.map fun row => row.getD k c.blockPool.nullBlock) := by
    intro k id hid
    have hk : k < group.groupIds.length := (List.getElem?_eq_some_iff.mp hid).1
    simp [CacheHitQuery.computedBlocks, query, hk]
  have hstored := fun (verified : List Nat) k id (hid : group.groupIds[k]? = some id) =>
    SearchState.storeHits_stored { st with eagleVerified := verified } newHitLength
      (CoordinatorConfig.groupIds_nodup hmem) hid (hcols k id hid)
  have hfirst := fun verified => (hstored verified 0 group.firstGroupId rfl).2
  unfold lookupGroup
  rw [if_neg hnew]
  refine ⟨_, bind_eq_ok.mpr ⟨(rows, newHitLength), hfind, rfl⟩, ?_⟩
  refine ⟨⟨rows, ?_, fun k id hid => (hstored _ k id hid).1⟩, hfirst _,
    fun id hid => SearchState.storeHits_other hid, SearchState.storeHits_eagleVerified,
    hfound.aligned, ?_⟩
  · exact (hfirst _).symm ▸ hfound
  · have hle := hfound.le
    show newHitLength ≤ st.currHitLength
    unfold lookupLength at hle
    rw [← eagleMargin_eq hmem] at hle
    cases hd : (st.dropsEagleBlock idx group && !group.spec.kind.isMamba) with
    | false =>
      have hd' : (st.dropsEagleBlock idx group &&
        !(c.query blockHashes group).kvCacheSpec.kind.isMamba) = false := hd
      simpa [hd, hd'] using hle
    | true =>
      have hd' : (st.dropsEagleBlock idx group &&
        !(c.query blockHashes group).kvCacheSpec.kind.isMamba) = true := hd
      simp only [hd, hd', if_true] at hle
      omega

/-- Where the search stands: the hit length of the round, the index of the next
spec group and the variables. -/
structure SearchPoint where
  hitLength : Nat
  next : Nat
  st : SearchState

inductive SearchMove
  | lookup
  | nextRound

def searchSystem (c : HybridKVCacheCoordinator) (blockHashes : List BlockHash)
    (maxCacheHitLength : Nat) : TransitionSystem SearchPoint SearchMove where
  init p := p = ⟨maxCacheHitLength, 0, initialSearch maxCacheHitLength⟩
  step p move p' := match move with
    | .lookup => ∃ group, c.attentionGroups[p.next]? = some group ∧
        c.lookupGroup blockHashes maxCacheHitLength p.next group p.st = .ok p'.st ∧
        p'.hitLength = p.hitLength ∧ p'.next = p.next + 1
    | .nextRound => c.attentionGroups.length ≤ p.next ∧
        p.st.currHitLength < p.hitLength ∧ c.isSimpleHybrid = false ∧
        p' = ⟨p.st.currHitLength, 0, p.st⟩

/-- What a spec group looked up in this round guarantees. -/
structure Passed (c : HybridKVCacheCoordinator) (blockHashes : List BlockHash)
    (hitLength : Nat) (st : SearchState) (group : SpecGroup) : Prop where
  kept : ∃ maxLength dropEagleBlock, Kept c blockHashes st group maxLength dropEagleBlock ∧
    (group.spec.kind.isChunkedLocalAttention → maxLength ≤ hitLength)
  reaches : st.currHitLength ≤ st.hitLengthByGroup group.firstGroupId
  bounded : group.spec.kind.isFullAttention = false →
    st.hitLengthByGroup group.firstGroupId ≤ hitLength

structure SearchInv (c : HybridKVCacheCoordinator) (blockHashes : List BlockHash)
    (maxCacheHitLength : Nat) (p : SearchPoint) : Prop where
  le_max : p.hitLength ≤ maxCacheHitLength
  curr_le : p.st.currHitLength ≤ p.hitLength
  next_le : p.next ≤ c.attentionGroups.length
  aligned : c.cacheHitAlignmentTokens ∣ p.st.currHitLength ∨
    p.next = 0 ∧ ∀ id, p.st.hitBlocksByGroup id = none
  stored : ∀ group ∈ c.attentionGroups, group.spec.kind.isFullAttention →
    (p.st.hitBlocksByGroup group.firstGroupId).isSome →
    c.cacheHitAlignmentTokens ∣ p.st.hitLengthByGroup group.firstGroupId ∧
    ∃ maxLength dropEagleBlock, Kept c blockHashes p.st group maxLength dropEagleBlock
  passed : ∀ i < p.next, ∀ group, c.attentionGroups[i]? = some group →
    Passed c blockHashes p.hitLength p.st group
  last : ∀ group, 0 < p.next → c.attentionGroups[p.next - 1]? = some group →
    group.spec.kind.isFullAttention = false →
    p.st.hitLengthByGroup group.firstGroupId = p.st.currHitLength

theorem Kept.frame {st st' : SearchState} {maxLength : Nat}
    {dropEagleBlock : Bool} (h : Kept c blockHashes st group maxLength dropEagleBlock)
    (hframe : ∀ id ∈ group.groupIds, st'.hitBlocksByGroup id = st.hitBlocksByGroup id ∧
    st'.hitLengthByGroup id = st.hitLengthByGroup id) :
    Kept c blockHashes st' group maxLength dropEagleBlock := by
  have ⟨rows, hfound, hblocks⟩ := h
  refine ⟨rows, ?_, ?_⟩
  · rw [(hframe _ mem_cons_self).2]
    exact hfound
  · intro k id hid
    rw [(hframe id (mem_of_getElem? hid)).1]
    exact hblocks k id hid

theorem Passed.frame {hitLength : Nat} {st st' : SearchState}
    (h : Passed c blockHashes hitLength st group)
    (hframe : ∀ id ∈ group.groupIds, st'.hitBlocksByGroup id = st.hitBlocksByGroup id ∧
    st'.hitLengthByGroup id = st.hitLengthByGroup id)
    (hle : st'.currHitLength ≤ st.currHitLength) : Passed c blockHashes hitLength st' group := by
  have ⟨maxLength, dropEagleBlock, hkept, hchunk⟩ := h.kept
  have hlength := (hframe _ mem_cons_self).2
  refine ⟨⟨maxLength, dropEagleBlock, hkept.frame hframe, hchunk⟩, ?_, ?_⟩
  · rw [hlength]
    exact Nat.le_trans hle h.reaches
  · rw [hlength]
    exact h.bounded

theorem searchInv_init :
    SearchInv c blockHashes maxCacheHitLength
      ⟨maxCacheHitLength, 0, initialSearch maxCacheHitLength⟩ where
  le_max := Nat.le_refl _
  curr_le := Nat.le_refl _
  next_le := Nat.zero_le _
  aligned := .inr ⟨rfl, fun _ => rfl⟩
  stored group _ _ h := by simp [initialSearch] at h
  passed i hi := absurd hi (Nat.not_lt_zero i)
  last _ h := absurd h (Nat.lt_irrefl 0)

variable {p : SearchPoint}

theorem SearchInv.trim (h : SearchInv c blockHashes maxCacheHitLength p)
    (hgroup : c.attentionGroups[p.next]? = some group) (hfull : group.spec.kind.isFullAttention)
    (hstored : (p.st.hitBlocksByGroup group.firstGroupId).isSome) :
    SearchInv c blockHashes maxCacheHitLength
      ⟨p.hitLength, p.next + 1, { p.st with
        currHitLength :=
          min p.st.currHitLength (p.st.hitLengthByGroup group.firstGroupId) }⟩ := by
  have hmem := mem_of_getElem? hgroup
  have ⟨haligned, maxLength, dropEagleBlock, hkept⟩ := h.stored group hmem hfull hstored
  have hchunked : group.spec.kind.isChunkedLocalAttention = false := by
    cases hk : group.spec.kind <;>
      simp_all [SpecKind.isFullAttention, SpecKind.isChunkedLocalAttention]
  have hnext : p.next < c.attentionGroups.length := (List.getElem?_eq_some_iff.mp hgroup).1
  refine ⟨h.le_max, Nat.le_trans (Nat.min_le_left _ _) h.curr_le, hnext, ?_, h.stored, ?_, ?_⟩
  · refine .inl ?_
    rcases h.aligned with hcurr | ⟨_, hnone⟩
    · rcases Nat.le_total p.st.currHitLength
        (p.st.hitLengthByGroup group.firstGroupId) with hle | hle
      · exact (Nat.min_eq_left hle).symm ▸ hcurr
      · exact (Nat.min_eq_right hle).symm ▸ haligned
    · rw [hnone] at hstored
      simp at hstored
  · intro i hi g hg
    replace hi : i < p.next + 1 := hi
    by_cases hin : i < p.next
    · exact (h.passed i hin g hg).frame (fun _ _ => ⟨rfl, rfl⟩) (Nat.min_le_left _ _)
    · obtain rfl : i = p.next := by omega
      rw [hgroup, Option.some.injEq] at hg
      subst hg
      exact ⟨⟨maxLength, dropEagleBlock, hkept, by simp [hchunked]⟩, Nat.min_le_right _ _,
        by simp [hfull]⟩
  · intro g _ hg hnotfull
    rw [Nat.add_sub_cancel, hgroup, Option.some.injEq] at hg
    rw [← hg, hfull] at hnotfull
    exact absurd hnotfull (by simp)

theorem Looked.other {idx i : Nat} {group g : SpecGroup} {st st' : SearchState}
    (h : Looked c blockHashes maxCacheHitLength idx group st st')
    (hgroup : c.attentionGroups[idx]? = some group) (hg : c.attentionGroups[i]? = some g)
    (hne : i ≠ idx) : ∀ id ∈ g.groupIds, st'.hitBlocksByGroup id = st.hitBlocksByGroup id ∧
    st'.hitLengthByGroup id = st.hitLengthByGroup id :=
  fun id hid => h.frame id (CoordinatorConfig.groupIds_disjoint hg hgroup hne id hid)

theorem lookupLength_chunked (hchunk : c.ChunkedSupported)
    (hmem : group ∈ c.attentionGroups) (hkind : group.spec.kind.isChunkedLocalAttention)
    (st : SearchState) : c.lookupLength maxCacheHitLength idx group st = st.currHitLength := by
  simp [lookupLength, (hchunk.lookup hmem hkind idx st).2]

theorem SearchInv.looked {st' : SearchState}
    (h : SearchInv c blockHashes maxCacheHitLength p) (hchunk : c.ChunkedSupported)
    (hgroup : c.attentionGroups[p.next]? = some group)
    (hlooked : Looked c blockHashes maxCacheHitLength p.next group p.st st') :
    SearchInv c blockHashes maxCacheHitLength ⟨p.hitLength, p.next + 1, st'⟩ := by
  have hmem := mem_of_getElem? hgroup
  have hcurr : st'.currHitLength ≤ p.hitLength := Nat.le_trans hlooked.le h.curr_le
  have hnext : p.next < c.attentionGroups.length := (List.getElem?_eq_some_iff.mp hgroup).1
  refine ⟨h.le_max, hcurr, hnext, .inl hlooked.aligned, ?_, ?_, ?_⟩
  · intro g hg hfull hsome
    have ⟨i, hi, heq⟩ := mem_iff_getElem.mp hg
    have hgi : c.attentionGroups[i]? = some g := heq ▸ getElem?_eq_getElem hi
    by_cases hin : i = p.next
    · rw [hin, hgroup, Option.some.injEq] at hgi
      subst hgi
      refine ⟨?_, _, _, hlooked.kept⟩
      show _ ∣ st'.hitLengthByGroup _
      rw [hlooked.length]
      exact hlooked.aligned
    · have hother := hlooked.other hgroup hgi hin
      have hfirst := hother _ mem_cons_self
      replace hsome : (st'.hitBlocksByGroup g.firstGroupId).isSome := hsome
      rw [hfirst.1] at hsome
      have ⟨haligned, maxLength, dropEagleBlock, hkept⟩ := h.stored g hg hfull hsome
      refine ⟨?_, maxLength, dropEagleBlock, hkept.frame hother⟩
      show _ ∣ st'.hitLengthByGroup _
      rw [hfirst.2]
      exact haligned
  · intro i hi g hg
    replace hi : i < p.next + 1 := hi
    by_cases hin : i < p.next
    · exact (h.passed i hin g hg).frame (hlooked.other hgroup hg (by omega)) hlooked.le
    · obtain rfl : i = p.next := by omega
      rw [hgroup, Option.some.injEq] at hg
      subst hg
      refine ⟨⟨_, _, hlooked.kept, fun hkind => ?_⟩, ?_, fun _ => ?_⟩
      · rw [lookupLength_chunked hchunk hmem hkind]
        exact h.curr_le
      · exact Nat.le_of_eq hlooked.length.symm
      · exact hlooked.length ▸ hcurr
  · intro g _ hg _
    rw [Nat.add_sub_cancel, hgroup, Option.some.injEq] at hg
    exact hg ▸ hlooked.length

theorem SearchInv.lookup
    (h : SearchInv c blockHashes maxCacheHitLength p) (hchunk : c.ChunkedSupported)
    (hlen : maxCacheHitLength / c.hashBlockSize ≤ blockHashes.length)
    (hgroup : c.attentionGroups[p.next]? = some group) :
    ∃ st', c.lookupGroup blockHashes maxCacheHitLength p.next group p.st = .ok st' ∧
    SearchInv c blockHashes maxCacheHitLength ⟨p.hitLength, p.next + 1, st'⟩ := by
  by_cases hstored : group.spec.kind.isFullAttention ∧
      (p.st.hitBlocksByGroup group.firstGroupId).isSome
  · exact ⟨_, by rw [lookupGroup, if_pos hstored], h.trim hgroup hstored.1 hstored.2⟩
  · have ⟨st', hst', hlooked⟩ := lookupGroup_looked hgroup hchunk hlen
      (Nat.le_trans h.curr_le h.le_max) hstored
    exact ⟨st', hst', h.looked hchunk hgroup hlooked⟩

theorem SearchInv.nextRound (h : SearchInv c blockHashes maxCacheHitLength p)
    (hend : c.attentionGroups.length ≤ p.next) :
    SearchInv c blockHashes maxCacheHitLength ⟨p.st.currHitLength, 0, p.st⟩ where
  le_max := Nat.le_trans h.curr_le h.le_max
  curr_le := Nat.le_refl _
  next_le := Nat.zero_le _
  aligned := .inl <| h.aligned.resolve_right fun hnone => by
    have := length_pos_of_ne_nil c.valid.groups_ne_nil
    omega
  stored := h.stored
  passed i hi := absurd hi (Nat.not_lt_zero i)
  last _ hpos := absurd hpos (Nat.lt_irrefl 0)

section

variable (hchunk : c.ChunkedSupported)
  (hlen : maxCacheHitLength / c.hashBlockSize ≤ blockHashes.length)
include hchunk hlen

theorem searchSystem_inv
    (h : (searchSystem c blockHashes maxCacheHitLength).Reachable p) :
    SearchInv c blockHashes maxCacheHitLength p := by
  apply h.invariant
  · intro p hp
    exact hp ▸ searchInv_init
  · intro p move p' _ hinv hstep
    cases move with
    | lookup =>
      have ⟨group, hgroup, hlookup, hlength, hnext⟩ := hstep
      have ⟨st', hst', hinv'⟩ := hinv.lookup hchunk hlen hgroup
      rw [hst', Except.ok.injEq] at hlookup
      obtain ⟨hitLength, next, st⟩ := p'
      simp only at hlength hnext hlookup
      rw [hlength, hnext, ← hlookup]
      exact hinv'
    | nextRound =>
      have ⟨hend, _, _, heq⟩ := hstep
      exact heq ▸ hinv.nextRound hend

theorem lookupGroups_reaches {hitLength next : Nat}
    (rest : List SpecGroup) (hrest : c.attentionGroups.drop next = rest)
    (h : (searchSystem c blockHashes maxCacheHitLength).Reachable ⟨hitLength, next, st⟩) :
    ∃ st', c.lookupGroups blockHashes maxCacheHitLength next rest st = .ok st' ∧
    ∃ last, c.attentionGroups.length ≤ last ∧
    (searchSystem c blockHashes maxCacheHitLength).Reachable ⟨hitLength, last, st'⟩ := by
  induction rest generalizing next st with
  | nil => exact ⟨st, rfl, next, drop_eq_nil_iff.mp hrest, h⟩
  | cons group rest ih =>
    have hgroup : c.attentionGroups[next]? = some group := by
      have := congrArg (·[0]?) hrest
      simpa using this
    have htail : c.attentionGroups.drop (next + 1) = rest := by
      rw [← drop_drop, hrest, drop_one, tail_cons]
    have ⟨st₁, hst₁, _⟩ := (searchSystem_inv hchunk hlen h).lookup hchunk hlen hgroup
    have hreach : (searchSystem c blockHashes maxCacheHitLength).Reachable
        ⟨hitLength, next + 1, st₁⟩ := .step (a := .lookup) h ⟨group, hgroup, hst₁, rfl, rfl⟩
    have ⟨st', hst', hlast⟩ := ih htail hreach
    exact ⟨st', bind_eq_ok.mpr ⟨st₁, hst₁, hst'⟩, hlast⟩

theorem searchRounds_ends (hitLength : Nat)
    (hcurr : st.currHitLength = hitLength)
    (h : (searchSystem c blockHashes maxCacheHitLength).Reachable ⟨hitLength, 0, st⟩) :
    ∃ p, (searchSystem c blockHashes maxCacheHitLength).Reachable p ∧
    c.attentionGroups.length ≤ p.next ∧ c.searchRounds blockHashes maxCacheHitLength hitLength st =
    .ok (p.st.currHitLength, p.st) ∧ (p.st.currHitLength = p.hitLength ∨ c.isSimpleHybrid) := by
  induction hitLength using Nat.strongRecOn generalizing st with
  | _ hitLength ih =>
    have ⟨st', hround, last, hlast, hreach⟩ := lookupGroups_reaches hchunk hlen
      c.attentionGroups rfl h
    have hst : { st with currHitLength := hitLength } = st := by rw [← hcurr]
    have hle := (searchSystem_inv hchunk hlen hreach).curr_le
    rw [searchRounds, hst, hround]
    simp only
    by_cases hstop : hitLength ≤ st'.currHitLength
    · have heq : st'.currHitLength = hitLength := Nat.le_antisymm hle hstop
      rw [if_pos hstop, ← heq]
      exact ⟨_, hreach, hlast, by rw [heq], .inl heq⟩
    · rw [if_neg hstop]
      by_cases hsimple : c.isSimpleHybrid
      · rw [if_pos hsimple]
        exact ⟨_, hreach, hlast, rfl, .inr hsimple⟩
      · rw [if_neg hsimple]
        have hshorter : st'.currHitLength < hitLength := by omega
        exact ih _ hshorter rfl (.step (a := .nextRound) hreach
          ⟨hlast, hshorter, by simpa using hsimple, rfl⟩)

end

end HybridKVCacheCoordinator

end VllmAmpere
