import VllmAmpere.HybridCacheHit

/-! The EAGLE lookahead of a cache hit: which spec groups have the unit past the
hit cached, and the round in which the search leaves one of them unverified. -/

open List

namespace VllmAmpere

namespace HybridKVCacheCoordinator

variable {c : HybridKVCacheCoordinator} {blockHashes : List BlockHash}
  {maxCacheHitLength final : Nat}

/-- Each group has the lookahead unit that begins at `len` cached: one block, or one
hash unit inside a block for fine-grained managers. -/
def LookaheadCached (c : HybridKVCacheCoordinator) (blockHashes : List BlockHash) (len : Nat)
    (group : SpecGroup) : Prop :=
  ∀ id ∈ group.groupIds, ∃ n block, c.CachedFor blockHashes id n block ∧
    len + c.eagleMargin group.spec ≤ n ∧
      n ≤ (len / c.managerBlockSize group.spec + 1) * c.managerBlockSize group.spec

variable {group : SpecGroup}

theorem lookaheadCached_of_row {len n : Nat} {row : BlockRow}
    (hmem : group ∈ c.attentionGroups) (hat : (c.query blockHashes group).CachedAt n row)
    (hlow : len + (c.query blockHashes group).dropUnit ≤ n)
    (hhigh : n ≤ (len / c.managerBlockSize group.spec + 1) * c.managerBlockSize group.spec) :
    c.LookaheadCached blockHashes len group := by
  intro id hid
  have ⟨k, hk⟩ := mem_iff_getElem?.mp hid
  exact ⟨n, _, cachedFor_of_row hk hat, eagleMargin_eq hmem ▸ hlow, hhigh⟩

variable {st : SearchState}

theorem Kept.lookahead {maxLength : Nat}
    (h : Kept c blockHashes st group maxLength true) (hmem : group ∈ c.attentionGroups)
    (hpos : 0 < st.hitLengthByGroup group.firstGroupId) :
    c.LookaheadCached blockHashes (st.hitLengthByGroup group.firstGroupId) group := by
  have ⟨rows, hfound, _⟩ := h
  have ⟨n, row, hat, hlow, hhigh⟩ := hfound.lookahead rfl hpos
  exact lookaheadCached_of_row hmem hat hlow hhigh

/-- The lookup at this point drops an EAGLE block and shortens the hit to a length
at which a sliding-window group that counts as verified lacks the lookahead. -/
def StaleDrop (c : HybridKVCacheCoordinator) (blockHashes : List BlockHash)
    (maxCacheHitLength : Nat) (p : SearchPoint) (st' : SearchState) : Prop :=
  ∃ group, c.attentionGroups[p.next]? = some group ∧
    c.lookupGroup blockHashes maxCacheHitLength p.next group p.st = .ok st' ∧
    p.st.dropsEagleBlock p.next group ∧ group.spec.kind.isFullAttention = false ∧
    st'.currHitLength < p.st.currHitLength ∧ 0 < st'.currHitLength ∧
    ∃ j ∈ p.st.eagleVerified, ∃ verified, c.attentionGroups[j]? = some verified ∧
      verified.spec.kind.isFullAttention = false ∧ verified.spec.kind.isMamba = false ∧
      ¬c.LookaheadCached blockHashes st'.currHitLength verified

theorem fullAttention_first {i j : Nat} {group other : SpecGroup}
    (hi : c.attentionGroups[i]? = some group) (hfull : group.spec.kind.isFullAttention)
    (hj : c.attentionGroups[j]? = some other) (hlt : j < i) : other.spec.kind.isFullAttention := by
  unfold CoordinatorConfig.attentionGroups at hi hj
  simp only at hi hj
  generalize c.splitGroups 0 c.kvCacheGroups [] = groups at hi hj
  have hilt : i < (groups.filter (·.spec.kind.isFullAttention)).length := by
    by_contra hge
    rw [getElem?_append_right (by omega)] at hi
    have := (mem_filter.mp (mem_of_getElem? hi)).2
    simp [hfull] at this
  rw [getElem?_append_left (by omega)] at hj
  exact (mem_filter.mp (mem_of_getElem? hj)).2

/-- The invariant of the verified set in a search that ends at length `final`. -/
structure EagleInv (c : HybridKVCacheCoordinator) (blockHashes : List BlockHash) (final : Nat)
    (p : SearchPoint) : Prop where
  verified : ∀ j ∈ p.st.eagleVerified, ∀ group, c.attentionGroups[j]? = some group →
    group.spec.kind.isFullAttention = false → group.spec.kind.isMamba = false →
    0 < p.st.currHitLength →
      c.LookaheadCached blockHashes p.st.currHitLength group ∨ final < p.st.currHitLength
  full : ∀ group ∈ c.attentionGroups, group.spec.kind.isFullAttention →
    (p.st.hitBlocksByGroup group.firstGroupId).isSome →
    p.st.currHitLength ≤ p.st.hitLengthByGroup group.firstGroupId ∧
      (group.useEagle → ∃ maxLength, Kept c blockHashes p.st group maxLength true)
  early : (∀ j ∈ p.st.eagleVerified, j < p.next) ∨
    ∀ group ∈ c.attentionGroups, (p.st.hitBlocksByGroup group.firstGroupId).isSome
  marked : ∀ i < p.next, ∀ group, c.attentionGroups[i]? = some group → group.useEagle →
    group.spec.kind.isFullAttention = false →
    i ∈ p.st.eagleVerified ∨ p.st.currHitLength < p.hitLength
  single : c.isSimpleHybrid → (∀ j ∈ p.st.eagleVerified, j < p.next) ∧
    ∀ group, 0 < p.next → c.attentionGroups[p.next - 1]? = some group → group.useEagle →
      group.spec.kind.isFullAttention = false → p.next - 1 ∈ p.st.eagleVerified

variable {p : SearchPoint}

section

variable (h : EagleInv c blockHashes final p) (hgroup : c.attentionGroups[p.next]? = some group)
include h hgroup

theorem EagleInv.trim (hfull : group.spec.kind.isFullAttention)
    (hstored : (p.st.hitBlocksByGroup group.firstGroupId).isSome) :
    EagleInv c blockHashes final ⟨p.hitLength, p.next + 1, { p.st with
      currHitLength := min p.st.currHitLength (p.st.hitLengthByGroup group.firstGroupId) }⟩ := by
  have hle := (h.full group (mem_of_getElem? hgroup) hfull hstored).1
  rw [Nat.min_eq_left hle]
  refine ⟨h.verified, h.full, ?_, ?_, fun hsimple => ⟨?_, ?_⟩⟩
  · exact h.early.imp (fun hlt j hj => Nat.lt_succ_of_lt (hlt j hj)) id
  · intro i hi g hg huse hnotfull
    by_cases hin : i = p.next
    · rw [hin, hgroup, Option.some.injEq] at hg
      rw [← hg, hfull] at hnotfull
      exact absurd hnotfull (by simp)
    · replace hi : i < p.next + 1 := hi
      exact h.marked i (by omega) g hg huse hnotfull
  · exact fun j hj => Nat.lt_succ_of_lt ((h.single hsimple).1 j hj)
  · intro g _ hg _ hnotfull
    rw [Nat.add_sub_cancel, hgroup, Option.some.injEq] at hg
    rw [← hg, hfull] at hnotfull
    exact absurd hnotfull (by simp)

theorem EagleInv.not_verified
    (hnew : (p.st.hitBlocksByGroup group.firstGroupId).isSome = false) :
    ∀ j ∈ p.st.eagleVerified, j < p.next := by
  rcases h.early with hlt | hall
  · exact hlt
  · rw [hall group (mem_of_getElem? hgroup)] at hnew
    simp at hnew

end

variable {idx : Nat}

theorem dropsEagleBlock_of_not_mem (group : SpecGroup)
    (h : idx ∉ st.eagleVerified) : st.dropsEagleBlock idx group = group.useEagle := by
  simp [SearchState.dropsEagleBlock, h]

theorem mem_of_not_drops (huse : group.useEagle) (h : st.dropsEagleBlock idx group = false) :
    idx ∈ st.eagleVerified := by
  simpa [SearchState.dropsEagleBlock, huse] using h

theorem Looked.verified_cases {st st' : SearchState}
    (h : Looked c blockHashes maxCacheHitLength idx group st st') :
    st.dropsEagleBlock idx group = true ∧ st'.eagleVerified = idx :: st.eagleVerified ∨
    st.dropsEagleBlock idx group = false ∧ st'.currHitLength < st.currHitLength ∧
    st'.eagleVerified = [] ∨
    st.dropsEagleBlock idx group = false ∧ st'.currHitLength = st.currHitLength ∧
    st'.eagleVerified = st.eagleVerified := by
  have hverified := h.verified
  have hle := h.le
  cases hd : st.dropsEagleBlock idx group with
  | true => simpa [hd] using hverified
  | false =>
    by_cases hlt : st'.currHitLength < st.currHitLength
    · exact .inr (.inl ⟨rfl, hlt, by simpa [hd, hlt] using hverified⟩)
    · have heq : st'.currHitLength = st.currHitLength := by omega
      simpa [hd, heq] using hverified

theorem EagleInv.looked {st' : SearchState}
    (h : EagleInv c blockHashes final p) (hinv : SearchInv c blockHashes maxCacheHitLength p)
    (hgroup : c.attentionGroups[p.next]? = some group) (hnew : ¬(group.spec.kind.isFullAttention ∧
    (p.st.hitBlocksByGroup group.firstGroupId).isSome))
    (hlooked : Looked c blockHashes maxCacheHitLength p.next group p.st st')
    (hstep : c.lookupGroup blockHashes maxCacheHitLength p.next group p.st = .ok st')
    (hstale : StaleDrop c blockHashes maxCacheHitLength p st' → final < st'.currHitLength) :
    EagleInv c blockHashes final ⟨p.hitLength, p.next + 1, st'⟩ := by
  have hmem := mem_of_getElem? hgroup
  have hcases := hlooked.verified_cases
  have hsub : ∀ j ∈ st'.eagleVerified, j = p.next ∨ j ∈ p.st.eagleVerified := by
    intro j hj
    rcases hcases with ⟨_, heq⟩ | ⟨_, _, heq⟩ | ⟨_, _, heq⟩ <;> rw [heq] at hj
    · exact mem_cons.mp hj
    · exact absurd hj not_mem_nil
    · exact .inr hj
  refine ⟨?_, ?_, ?_, ?_, fun hsimple => ⟨?_, ?_⟩⟩
  · intro j hj g hg hnotfull hnotmamba hpos
    replace hpos : 0 < st'.currHitLength := hpos
    show c.LookaheadCached blockHashes st'.currHitLength g ∨ final < st'.currHitLength
    have hold : j ∈ p.st.eagleVerified → st'.currHitLength = p.st.currHitLength →
        c.LookaheadCached blockHashes st'.currHitLength g ∨
          final < st'.currHitLength := fun hin heq => by
      rw [heq] at hpos ⊢
      exact h.verified j hin g hg hnotfull hnotmamba hpos
    rcases hcases with ⟨hd, heq⟩ | ⟨_, _, heq⟩ | ⟨_, hsame, heq⟩
    · rcases hsub j hj with hjn | hjold
      · rw [hjn, hgroup, Option.some.injEq] at hg
        subst hg
        have hkept := hlooked.kept
        rw [hd, hnotmamba] at hkept
        rw [← hlooked.length] at hpos ⊢
        exact .inl (Kept.lookahead hkept hmem hpos)
      · by_cases hshort : st'.currHitLength < p.st.currHitLength
        · have hgroupNotFull : group.spec.kind.isFullAttention = false := by
            by_contra hne
            have hfull : group.spec.kind.isFullAttention = true := by simpa using hne
            have hlt := h.not_verified hgroup (by simpa [hfull] using hnew) j hjold
            rw [fullAttention_first hgroup hfull hg hlt] at hnotfull
            simp at hnotfull
          by_cases hcached : c.LookaheadCached blockHashes st'.currHitLength g
          · exact .inl hcached
          · exact .inr (hstale ⟨group, hgroup, hstep, hd, hgroupNotFull, hshort, hpos, j, hjold,
              g, hg, hnotfull, hnotmamba, hcached⟩)
        · exact hold hjold (Nat.le_antisymm hlooked.le (Nat.not_lt.mp hshort))
    · rw [heq] at hj
      exact absurd hj not_mem_nil
    · exact hold (heq ▸ hj) hsame
  · intro g hg hfull hsome
    replace hsome : (st'.hitBlocksByGroup g.firstGroupId).isSome := hsome
    show st'.currHitLength ≤ st'.hitLengthByGroup g.firstGroupId ∧ _
    obtain ⟨i, hi, heq⟩ := mem_iff_getElem.mp hg
    have hgi : c.attentionGroups[i]? = some g := heq ▸ getElem?_eq_getElem hi
    by_cases hin : i = p.next
    · rw [hin, hgroup, Option.some.injEq] at hgi
      subst hgi
      refine ⟨Nat.le_of_eq hlooked.length.symm, fun huse =>
        ⟨c.lookupLength maxCacheHitLength p.next group p.st, ?_⟩⟩
      have hnot : p.next ∉ p.st.eagleVerified := fun hmem' =>
        absurd (h.not_verified hgroup (by simpa [hfull] using hnew) _ hmem') (Nat.lt_irrefl _)
      have hkept := hlooked.kept
      have hmamba : group.spec.kind.isMamba = false := by
        cases hk : group.spec.kind <;> simp_all [SpecKind.isFullAttention, SpecKind.isMamba]
      rw [dropsEagleBlock_of_not_mem _ hnot, huse, hmamba] at hkept
      exact hkept
    · have hother := hlooked.other hgroup hgi hin
      have hfirst := hother _ mem_cons_self
      rw [hfirst.1] at hsome
      obtain ⟨hle, hkept⟩ := h.full g hg hfull hsome
      rw [hfirst.2]
      exact ⟨Nat.le_trans hlooked.le hle, fun huse =>
        (hkept huse).imp fun _ hk => hk.frame hother⟩
  · refine h.early.imp (fun hlt j hj => ?_) fun hall g hg => ?_
    · rcases hsub j hj with hjn | hjold
      · exact hjn ▸ Nat.lt_succ_self _
      · exact Nat.lt_succ_of_lt (hlt j hjold)
    · obtain ⟨i, hi, heq⟩ := mem_iff_getElem.mp hg
      have hgi : c.attentionGroups[i]? = some g := heq ▸ getElem?_eq_getElem hi
      show (st'.hitBlocksByGroup g.firstGroupId).isSome
      by_cases hin : i = p.next
      · rw [hin, hgroup, Option.some.injEq] at hgi
        obtain ⟨rows, _, hblocks⟩ := hlooked.kept
        rw [← hgi, hblocks 0 group.firstGroupId rfl]
        rfl
      · rw [(hlooked.other hgroup hgi hin _ mem_cons_self).1]
        exact hall g hg
  · intro i hi g hg huse hnotfull
    replace hi : i < p.next + 1 := hi
    show i ∈ st'.eagleVerified ∨ st'.currHitLength < p.hitLength
    have hcurr := hinv.curr_le
    have hle := hlooked.le
    have hprev : i ∈ p.st.eagleVerified ∨ p.st.currHitLength < p.hitLength ∨
        i = p.next ∧ p.st.dropsEagleBlock p.next group = true := by
      by_cases hin : i = p.next
      · rw [hin, hgroup, Option.some.injEq] at hg
        cases hd : p.st.dropsEagleBlock p.next group with
        | true => exact .inr (.inr ⟨hin, rfl⟩)
        | false => exact .inl (hin ▸ mem_of_not_drops (hg ▸ huse) hd)
      · exact (h.marked i (by omega) g hg huse hnotfull).imp_right .inl
    rcases hprev with hold | hlt | ⟨hin, hd⟩
    · rcases hcases with ⟨_, heq⟩ | ⟨_, hshort, _⟩ | ⟨_, _, heq⟩
      · exact .inl (heq ▸ mem_cons_of_mem _ hold)
      · exact .inr (by omega)
      · exact .inl (heq ▸ hold)
    · exact .inr (by omega)
    · rcases hcases with ⟨_, heq⟩ | ⟨hd', _⟩ | ⟨hd', _⟩
      · exact .inl (heq ▸ hin ▸ mem_cons_self)
      · simp [hd] at hd'
      · simp [hd] at hd'
  · intro j hj
    rcases hsub j hj with hjn | hjold
    · exact hjn ▸ Nat.lt_succ_self _
    · exact Nat.lt_succ_of_lt ((h.single hsimple).1 j hjold)
  · intro g _ hg huse _
    rw [Nat.add_sub_cancel, hgroup, Option.some.injEq] at hg
    have hnot : p.next ∉ p.st.eagleVerified := fun hmem' =>
      absurd ((h.single hsimple).1 _ hmem') (Nat.lt_irrefl _)
    have hd := dropsEagleBlock_of_not_mem group hnot
    rw [hg, huse] at hd
    rw [← hg] at hd
    rcases hcases with ⟨_, heq⟩ | ⟨hd', _⟩ | ⟨hd', _⟩
    · show p.next + 1 - 1 ∈ st'.eagleVerified
      rw [heq, Nat.add_sub_cancel]
      exact mem_cons_self
    · simp [hd] at hd'
    · simp [hd] at hd'

theorem EagleInv.nextRound (h : EagleInv c blockHashes final p)
    (hinv : SearchInv c blockHashes maxCacheHitLength p)
    (hend : c.attentionGroups.length ≤ p.next) (hmany : c.isSimpleHybrid = false) :
    EagleInv c blockHashes final ⟨p.st.currHitLength, 0, p.st⟩ where
  verified := h.verified
  full := h.full
  early := .inr fun group hmem => by
    have ⟨i, hi, heq⟩ := mem_iff_getElem.mp hmem
    have hpassed := hinv.passed i (Nat.lt_of_lt_of_le hi hend) group
      (heq ▸ getElem?_eq_getElem hi)
    have ⟨_, _, ⟨_, _, hblocks⟩, _⟩ := hpassed.kept
    rw [hblocks 0 group.firstGroupId rfl]
    rfl
  marked i hi := absurd hi (Nat.not_lt_zero i)
  single hsimple := by simp [hmany] at hsimple

variable {hitLength : Nat}

end HybridKVCacheCoordinator

end VllmAmpere
