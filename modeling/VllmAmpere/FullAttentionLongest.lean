import Mathlib.Order.Bounds.Basic
import VllmAmpere.HybridCacheHit

/-! The full-attention finder against the lengths its cache covers: the run of full blocks
and the probe of the block behind it reach the longest of them. -/

namespace VllmAmpere

namespace CacheHitQuery

variable (q : CacheHitQuery)

/-- A length in drop units whose full blocks are cached and, where it ends inside a block,
whose tail is cached under a hash boundary in that block that is at most `probeEnd`. -/
structure Covered (maxLength probeEnd len : Nat) : Prop where
  unit : q.dropUnit ∣ len
  le : len ≤ maxLength
  blocks : ∀ i, (i + 1) * q.blockSize ≤ len → ∃ row, q.CachedAt ((i + 1) * q.blockSize) row
  tail : ¬q.blockSize ∣ len → ∃ n row, len ≤ n ∧ n ≤ probeEnd ∧
    n ≤ (len / q.blockSize + 1) * q.blockSize ∧ q.CachedAt n row

def coveredLengths (maxLength probeEnd : Nat) : Set Nat := {len | q.Covered maxLength probeEnd len}

/-- A hit `len` with its `rows`: aligned, within `maxLength`, each full block cached under
its own hash and a tail under a boundary that covers it; before the EAGLE drop it is the
longest covered length. -/
structure LongestHit (maxLength probeEnd : Nat) (dropEagleBlock : Bool) (rows : List BlockRow)
    (len : Nat) : Prop where
  aligned : q.alignmentTokens ∣ len
  le : len ≤ maxLength
  length : rows.length = cdiv len q.blockSize
  blocks : ∀ i, (i + 1) * q.blockSize ≤ len →
    ∃ row, rows[i]? = some row ∧ q.CachedAt ((i + 1) * q.blockSize) row
  tail : ¬q.blockSize ∣ len → ∃ n row, rows[len / q.blockSize]? = some row ∧ len ≤ n ∧
    n ≤ (len / q.blockSize + 1) * q.blockSize ∧ q.CachedAt n row
  longest : ∃ full, IsGreatest (q.coveredLengths maxLength probeEnd) full ∧
    len = (full - if dropEagleBlock then q.dropUnit else 0) / q.alignmentTokens * q.alignmentTokens

variable {q}

theorem cachedRun_stops {blockHashes : List BlockHash} {blockHash : BlockHash}
    (h : blockHashes[(q.cachedRun blockHashes).length]? = some blockHash) :
    q.getCachedBlock blockHash = none := by
  induction blockHashes with
  | nil => cases h
  | cons first rest ih =>
    rw [cachedRun] at h
    cases hc : q.getCachedBlock first with
    | none =>
      rw [hc] at h
      rw [← Option.some.inj h]
      exact hc
    | some cached =>
      rw [hc] at h
      exact ih h

theorem searchDown_passes {blockHashes : BlockHashList} {first count : Nat}
    {found : Option (Nat × BlockRow)}
    (h : q.searchDown blockHashes (fun _ => true) first count = .ok found) {i : Nat}
    (hfirst : first ≤ i) (hi : i < first + count) (hpast : ∀ hit ∈ found, hit.1 < i)
    {blockHash : BlockHash} (hget : blockHashes.getItem i = .ok blockHash) :
    q.getCachedBlock blockHash = none := by
  induction count with
  | zero => omega
  | succ count ih =>
    rw [searchDown] at h
    obtain ⟨last, hlast, h⟩ := bind_eq_ok.mp h
    cases hc : q.getCachedBlock last with
    | none =>
      rw [hc] at h
      rcases Nat.lt_or_ge i (first + count) with hlt | hge
      · exact ih h hlt
      · obtain rfl : i = first + count := by omega
        rw [hget] at hlast
        rw [Except.ok.inj hlast]
        exact hc
    | some cached =>
      rw [hc] at h
      simp only [if_true, Except.ok.injEq] at h
      subst h
      have := hpast _ rfl
      omega

theorem searchDown_found {blockHashes : BlockHashList} {accept : Nat → Bool} {first count i : Nat}
    {row : BlockRow} (h : q.searchDown blockHashes accept first count = .ok (some (i, row))) :
    first ≤ i ∧ i < first + count ∧ ∃ blockHash, blockHashes.getItem i = .ok blockHash ∧
    q.getCachedBlock blockHash = some row := by
  induction count with
  | zero => cases h
  | succ count ih =>
    rw [searchDown] at h
    obtain ⟨last, hlast, h⟩ := bind_eq_ok.mp h
    have hrest : q.searchDown blockHashes accept first count = .ok (some (i, row)) →
        first ≤ i ∧ i < first + (count + 1) ∧ ∃ blockHash,
          blockHashes.getItem i = .ok blockHash ∧ q.getCachedBlock blockHash = some row := by
      intro h
      obtain ⟨hle, hlt, hhit⟩ := ih h
      exact ⟨hle, by omega, hhit⟩
    cases hc : q.getCachedBlock last with
    | none =>
      rw [hc] at h
      exact hrest h
    | some cached =>
      rw [hc] at h
      by_cases hacc : accept (first + count) = true
      · simp only [hacc, if_true, Except.ok.injEq, Option.some.injEq, Prod.mk.injEq] at h
        obtain ⟨rfl, rfl⟩ := h
        exact ⟨by omega, by omega, last, hlast, hc⟩
      · simp only [hacc] at h
        exact hrest h

/-- The run of full blocks that a lookup begins with. -/
structure FullRun (q : CacheHitQuery) (maxLength : Nat) (rows : List BlockRow) : Prop where
  cached : ∀ i < rows.length, ∃ row, q.CachedAt ((i + 1) * q.blockSize) row
  le : rows.length * q.blockSize ≤ maxLength
  stops : (rows.length + 1) * q.blockSize ≤ maxLength →
    ∀ row, ¬q.CachedAt ((rows.length + 1) * q.blockSize) row

variable {maxLength probeEnd len : Nat} {rows : List BlockRow}

theorem fullRun_cachedRun (hq : q.Compatible) {blockHashes : List BlockHash}
    (hhash : ∀ i, blockHashes[i]? =
    q.blockHashes[(i + 1) * q.blockSize / q.blockPool.hashBlockSize - 1]?) :
    q.FullRun maxLength (q.cachedRun (blockHashes.take (maxLength / q.blockSize))) := by
  have hbs := hq.blockSize_pos
  refine ⟨fun i hi => ?_, FullAttentionManager.cachedRun_take_mul_le _ _ _,
    fun hle row hat => ?_⟩
  · obtain ⟨blockHash, hget, hrow⟩ := cachedRun_getElem? (List.getElem?_eq_getElem hi)
    rw [List.getElem?_take] at hget
    split at hget
    · exact ⟨_, cachedAt_block hbs hq.hash_dvd ((hhash i).symm.trans hget) hrow⟩
    · cases hget
  · obtain ⟨-, -, blockHash, hget, hrow⟩ := hat
    have hlt := (Nat.le_div_iff_mul_le hbs).mpr hle
    rw [← hhash, ← List.getElem?_take_of_lt hlt] at hget
    rw [cachedRun_stops hget] at hrow
    cases hrow

section

variable (h : q.FullRun maxLength rows)
include h

theorem FullRun.lt_next
    (hc : q.Covered maxLength probeEnd len) : len < (rows.length + 1) * q.blockSize := by
  by_contra hlt
  have hle := Nat.not_lt.mp hlt
  obtain ⟨row, hat⟩ := hc.blocks rows.length hle
  exact h.stops (hle.trans hc.le) row hat

theorem FullRun.covered (hq : q.Compatible) :
    q.Covered maxLength probeEnd (rows.length * q.blockSize) := by
  refine ⟨Nat.dvd_mul_left_of_dvd hq.dropUnit_dvd.1 _, h.le, fun i hi => ?_, fun hnot => ?_⟩
  · exact h.cached i (Nat.le_of_mul_le_mul_right hi hq.blockSize_pos)
  · exact absurd (Nat.dvd_mul_left _ _) hnot

theorem FullRun.greatest (hq : q.Compatible)
    (hunit : q.dropUnit = q.blockSize) :
    IsGreatest (q.coveredLengths maxLength probeEnd) (rows.length * q.blockSize) := by
  refine ⟨h.covered hq, fun len hlen => ?_⟩
  obtain ⟨n, rfl⟩ := hunit ▸ hlen.unit
  have hlt := h.lt_next hlen
  rw [Nat.mul_comm] at hlt ⊢
  exact Nat.mul_le_mul_right _ (Nat.le_of_lt_succ (Nat.lt_of_mul_lt_mul_right hlt))

theorem FullRun.covered_tail (hq : q.Compatible) {row : BlockRow}
    (hunit : q.dropUnit ∣ len) (hat : q.CachedAt len row)
    (hhigh : len < (rows.length + 1) * q.blockSize) (hle : len ≤ maxLength) : q.Covered maxLength maxLength len := by
  have hbs := hq.blockSize_pos
  refine ⟨hunit, hle, fun i hi => h.cached i ?_, fun _ => ⟨len, row, Nat.le_refl _, hle, ?_, hat⟩⟩
  · exact Nat.lt_of_succ_lt_succ (Nat.lt_of_mul_lt_mul_right (hi.trans_lt hhigh))
  · exact Nat.le_of_lt ((Nat.div_lt_iff_lt_mul hbs).mp (Nat.lt_succ_self _))

end

end CacheHitQuery

namespace FullAttentionManager

open CacheHitQuery

variable {q : CacheHitQuery} {maxLength len : Nat} {rows : List BlockRow} {dropEagleBlock : Bool}

theorem findFineGrained_greatest (hq : q.Compatible)
    (halign : q.alignmentTokens = q.blockPool.hashBlockSize)
    (h : findFineGrained q q.blockHashes q.blockSize maxLength = .ok (rows, len)) :
    IsGreatest (q.coveredLengths maxLength maxLength) len := by
  have hbs := hq.blockSize_pos
  have hapos := hq.alignment_pos
  have hdvd : q.alignmentTokens ∣ q.blockSize := halign ▸ hq.hash_dvd
  have hscale : q.blockSize / q.alignmentTokens * q.alignmentTokens = q.blockSize :=
    Nat.div_mul_cancel hdvd
  have hscalepos : 0 < q.blockSize / q.alignmentTokens :=
    Nat.div_pos (Nat.le_of_dvd hbs hdvd) hapos
  have hunit : q.dropUnit = q.alignmentTokens := Nat.min_eq_left (Nat.le_of_dvd hbs hdvd)
  have hview : ∀ i, ((BlockHashList.withBlockSize q.blockHashes
      (q.blockSize / q.alignmentTokens)).sliceFrom 0)[i]? =
      q.blockHashes[(i + 1) * q.blockSize / q.blockPool.hashBlockSize - 1]? := by
    intro i
    rw [BlockHashList.sliceFrom_getElem? _ hscalepos, Nat.zero_add, halign,
      scaled_index hq.hash_dvd]
  have hrun := @fullRun_cachedRun q maxLength hq _ hview
  unfold findFineGrained at h
  simp only at h
  generalize q.cachedRun (((BlockHashList.withBlockSize q.blockHashes
    (q.blockSize / q.alignmentTokens)).sliceFrom 0).take (maxLength / q.blockSize)) = run
    at hrun h
  generalize q.blockSize / q.alignmentTokens = scale at hscale hscalepos h
  have hfirst : run.length * q.blockSize = run.length * scale * q.alignmentTokens := by
    rw [Nat.mul_assoc, hscale]
  have hnext : (run.length + 1) * q.blockSize =
      (run.length * scale + scale) * q.alignmentTokens := by
    rw [Nat.add_mul, Nat.add_mul, Nat.one_mul, hfirst, hscale]
  obtain ⟨found, hfound, h⟩ := bind_eq_ok.mp h
  -- a covered length past all the probed boundaries that are not cached
  have hupper : ∀ top, run.length * scale ≤ top →
      (∀ hit ∈ found, hit.1 < top) → ∀ n ∈ q.coveredLengths maxLength maxLength,
        n ≤ top * q.alignmentTokens := by
    intro top htop hpast n hn
    by_contra hlt
    have hlow : run.length * q.blockSize < n := by
      rw [hfirst]
      exact (Nat.mul_le_mul_right _ htop).trans_lt (Nat.not_le.mp hlt)
    have hhigh := hrun.lt_next hn
    have hblock : n / q.blockSize = run.length :=
      Nat.div_eq_of_lt_le (Nat.le_of_lt hlow) hhigh
    have hinside : ¬q.blockSize ∣ n := by
      intro hd
      have hsame := Nat.div_mul_cancel hd
      rw [hblock] at hsame
      omega
    obtain ⟨boundary, row, hle, hprobe, hin, hat⟩ := hn.tail hinside
    rw [hblock] at hin
    have hstrict : boundary ≠ (run.length + 1) * q.blockSize := by
      rintro rfl
      exact hrun.stops hprobe row hat
    obtain ⟨hd, hpos, blockHash, hget, hrow⟩ := hat
    rw [← halign] at hd hget
    obtain ⟨k, rfl⟩ := hd
    rw [Nat.mul_div_cancel_left _ hapos] at hget
    have hk : top < k := by
      have := (Nat.not_le.mp hlt).trans_le hle
      rw [Nat.mul_comm] at this
      exact Nat.lt_of_mul_lt_mul_left this
    have hkscale : k < run.length * scale + scale := by
      have := Nat.lt_of_le_of_ne hin hstrict
      rw [hnext, Nat.mul_comm] at this
      exact Nat.lt_of_mul_lt_mul_right this
    have hkmax : k ≤ maxLength / q.alignmentTokens :=
      (Nat.le_div_iff_mul_le hapos).mpr (by rwa [Nat.mul_comm] at hprobe)
    have hklen : k - 1 < q.blockHashes.length := by
      by_contra hge
      rw [List.getElem?_eq_none (Nat.not_lt.mp hge)] at hget
      cases hget
    have hmiss := searchDown_passes hfound (i := k - 1) (by omega) (by omega)
      (fun hit hhit => by have := hpast hit hhit; omega) (pyGet_ok.mpr hget)
    rw [hmiss] at hrow
    cases hrow
  cases found with
  | none =>
    simp only [Except.ok.injEq, Prod.mk.injEq] at h
    rw [← h.2]
    refine ⟨hrun.covered hq, fun n hn => ?_⟩
    rw [hfirst]
    exact hupper _ (Nat.le_refl _) (by simp) n hn
  | some hit =>
    simp only [Except.ok.injEq, Prod.mk.injEq] at h
    rw [← h.2]
    obtain ⟨hlow, hhigh, blockHash, hget, hrow⟩ := searchDown_found hfound
    have cached : q.CachedAt ((hit.1 + 1) * q.alignmentTokens) hit.2 := by
      refine ⟨halign ▸ Nat.dvd_mul_left _ _, Nat.mul_pos (Nat.succ_pos _) hapos, blockHash, ?_,
        hrow⟩
      rw [← halign, Nat.mul_div_cancel _ hapos]
      exact pyGet_ok.mp hget
    refine ⟨hrun.covered_tail hq (hunit ▸ Nat.dvd_mul_left _ _) cached ?_ ?_,
      fun n hn => hupper _ (by omega) (by simp) n hn⟩
    · rw [hnext]
      exact Nat.mul_lt_mul_of_pos_right (by omega) hapos
    · exact (Nat.mul_le_mul_right _ (by omega)).trans (Nat.div_mul_le_self maxLength _)

theorem findLongestCacheHit_greatest (hq : q.Compatible)
    (h : findLongestCacheHit q maxLength dropEagleBlock = .ok (rows, len)) :
    ∃ run full, IsGreatest (q.coveredLengths maxLength maxLength) full ∧
    trimHit q dropEagleBlock q.blockSize run full = (rows, len) := by
  have hsize : (if 1 < q.dcpWorldSize then q.kvCacheSpec.blockSize * q.dcpWorldSize
      else q.kvCacheSpec.blockSize) = q.blockSize := by
    have := hq.dcp_pos
    unfold blockSize
    split
    · rfl
    · rw [show q.dcpWorldSize = 1 by omega, Nat.mul_one]
  unfold findLongestCacheHit at h
  simp only [hsize] at h
  obtain ⟨-, -, h⟩ := bind_eq_ok.mp h
  obtain ⟨view, hview, h⟩ := bind_eq_ok.mp h
  obtain ⟨run, hrun, h⟩ := bind_eq_ok.mp h
  refine ⟨run.1, run.2, ?_, Except.ok.inj h⟩
  by_cases hfine : q.alignmentTokens < q.blockSize ∧ q.blockSize % q.alignmentTokens = 0
  · obtain ⟨halign, hsupports⟩ := hq.alignment_eq_hash hfine.1
    rw [resolve_fine hsupports hfine] at hview
    cases hview
    rw [if_pos hfine] at hrun
    exact findFineGrained_greatest hq halign hrun
  · obtain ⟨blocks, hblocks, hread⟩ := resolve_view hq.hash_pos hq.blockSize_pos hq.hash_dvd hfine
    rw [hblocks] at hview
    cases hview
    rw [if_neg hfine] at hrun
    cases hrun
    have hunit : q.dropUnit = q.blockSize :=
      Nat.min_eq_right (Nat.le_of_dvd hq.alignment_pos (hq.blockSize_dvd hfine))
    exact (fullRun_cachedRun hq hread.sliceFrom).greatest hq hunit

theorem trimHit_length {run : List BlockRow} {full : Nat}
    (h : trimHit q dropEagleBlock q.blockSize run full = (rows, len)) :
    len = (full - if dropEagleBlock then q.dropUnit else 0) / q.alignmentTokens *
    q.alignmentTokens := by
  have hround : ∀ n, n - n % q.alignmentTokens = n / q.alignmentTokens * q.alignmentTokens := by
    intro n
    have := Nat.div_add_mod' n q.alignmentTokens
    omega
  have hlen := congrArg Prod.snd h
  simp only [trimHit, hround] at hlen
  rw [← hlen]
  congr 2
  by_cases hpos : 0 < full
  · simp only [hpos, and_true]
    split <;> rfl
  · obtain rfl : full = 0 := by omega
    simp

/-- Every lookup returns the longest hit that the hash boundaries within its length allow. -/
theorem findLongestCacheHit_longest (hq : q.Compatible)
    (hkind : q.kvCacheSpec.kind = .fullAttention) (maxLength : Nat) (dropEagleBlock : Bool) :
    ∃ rows len, findLongestCacheHit q maxLength dropEagleBlock = .ok (rows, len) ∧
    q.LongestHit maxLength maxLength dropEagleBlock rows len := by
  obtain ⟨rows, len, hfind, hfound⟩ :=
    findLongestCacheHit_found hq hkind maxLength dropEagleBlock
  obtain ⟨run, full, hgreatest, htrim⟩ := findLongestCacheHit_greatest hq hfind
  have hbs := hq.blockSize_pos
  have hkept : q.ChunkKept maxLength len := by
    intro chunk hchunk
    rw [hkind] at hchunk
    cases hchunk
  have hserves := hfound.serves hkept
  rw [hkind] at hserves
  have hentry : ∀ i, i * q.blockSize < len → ∃ row n, rows[i]? = some row ∧
      min ((i + 1) * q.blockSize) len ≤ n ∧ n ≤ (i + 1) * q.blockSize ∧ q.CachedAt n row := by
    intro i hi
    have hin : i < rows.length := by
      rw [hserves.length]
      exact (lt_cdiv_iff hbs).mpr hi
    obtain ⟨n, -, hhigh, hlow, hat⟩ := hserves.entry i _ (List.getElem?_eq_getElem hin)
    exact ⟨_, n, List.getElem?_eq_getElem hin, hlow, hhigh, hat⟩
  refine ⟨rows, len, hfind, hfound.aligned, hfound.le.trans (Nat.sub_le _ _), hserves.length,
    fun i hi => ?_, fun hinside => ?_, full, hgreatest,
    trimHit_length htrim⟩
  · obtain ⟨row, n, hget, hlow, hhigh, hat⟩ :=
      hentry i ((Nat.mul_lt_mul_of_pos_right (Nat.lt_succ_self i) hbs).trans_le hi)
    rw [Nat.min_eq_left hi] at hlow
    exact ⟨row, hget, Nat.le_antisymm hhigh hlow ▸ hat⟩
  · have hdiv := Nat.div_add_mod' len q.blockSize
    have hmod : len % q.blockSize ≠ 0 := fun h => hinside (Nat.dvd_of_mod_eq_zero h)
    obtain ⟨row, n, hget, hlow, hhigh, hat⟩ := hentry (len / q.blockSize) (by omega)
    have hlt : len < (len / q.blockSize + 1) * q.blockSize :=
      (Nat.div_lt_iff_lt_mul hbs).mp (Nat.lt_succ_self _)
    rw [Nat.min_eq_right (Nat.le_of_lt hlt)] at hlow
    exact ⟨n, row, hget, hlow, hhigh, hat⟩

variable (cached : List (BlockHashWithGroupId × BlockId))

def tokenHashes : CacheHitQuery where
  blockHashes := [[0], [1], [2], [3], [4], [5]]
  kvCacheGroupIds := [0]
  blockPool := HybridKVCacheCoordinator.cachedPool 1 Nat.one_pos cached
  kvCacheSpec := (HybridKVCacheCoordinator.fullGroup 4
    HybridKVCacheCoordinator.fourTokens_pos).kvCacheSpec
  alignmentTokens := 1
  dcpWorldSize := 1
  pcpWorldSize := 1

theorem tokenHashes_compatible :
    (tokenHashes cached).Compatible := by
  have hhash : (tokenHashes cached).blockPool.hashBlockSize = 1 :=
    HybridKVCacheCoordinator.cachedPool_hashBlockSize _ _ _
  exact ⟨hhash ▸ Nat.one_pos, Nat.one_pos, .inl rfl, hhash ▸ Nat.one_dvd _, Nat.one_pos,
    .inr ⟨hhash.symm, rfl⟩⟩

theorem tokenHashes_longest : ∃ rows len,
    findLongestCacheHit (tokenHashes [(⟨[3], 0⟩, 1), (⟨[5], 0⟩, 2)]) 6 true = .ok (rows, len) ∧
    (tokenHashes [(⟨[3], 0⟩, 1), (⟨[5], 0⟩, 2)]).LongestHit 6 6 true rows len :=
  findLongestCacheHit_longest (tokenHashes_compatible _) rfl 6 true

/-- A block cached up to its third token, which a lookup of at most two tokens does not find. -/
theorem boundary_past_length_not_probed :
    ∃ rows len, findLongestCacheHit (tokenHashes [(⟨[2], 0⟩, 1)]) 2 false = .ok (rows, len) ∧
    ¬(tokenHashes [(⟨[2], 0⟩, 1)]).LongestHit 2 6 false rows len := by
  refine ⟨[], 0, by decide +kernel, fun h => ?_⟩
  obtain ⟨full, hgreatest, hlen⟩ := h.longest
  have hcovered : 2 ∈ (tokenHashes [(⟨[2], 0⟩, 1)]).coveredLengths 2 6 := by
    refine ⟨by decide +kernel, Nat.le_refl _, fun i hi => ?_, fun _ => ⟨3, [1], ?_⟩⟩
    · have hone : 4 ≤ (i + 1) * 4 := Nat.le_mul_of_pos_left _ (Nat.succ_pos i)
      exact absurd (hone.trans hi) (by decide)
    · exact ⟨by decide, by decide, by decide +kernel, by decide +kernel, by decide, [2],
        by decide +kernel, by decide +kernel⟩
  have hle := hgreatest.2 hcovered
  have halign : (tokenHashes [(⟨[2], 0⟩, 1)]).alignmentTokens = 1 := rfl
  rw [halign, Nat.div_one, Nat.mul_one] at hlen
  simp only [Bool.false_eq_true, if_false] at hlen
  omega

end FullAttentionManager

end VllmAmpere
