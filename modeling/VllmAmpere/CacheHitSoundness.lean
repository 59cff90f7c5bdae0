import VllmAmpere.SlidingWindowHit

/-! The chunked-local and Mamba finders, and the promise all finders make. -/

open List

namespace VllmAmpere

open CacheHitQuery

namespace CacheHitQuery

variable {q : CacheHitQuery}

theorem Compatible.unsharded (hq : q.Compatible) (hkind : q.kvCacheSpec.kind ≠ .fullAttention) :
    q.dcpWorldSize = 1 ∧ q.pcpWorldSize = 1 := by
  rcases hq.world with h | h
  · cases hk : q.kvCacheSpec.kind <;> simp_all [SpecKind.isFullAttention]
  · exact h

theorem Compatible.blockSize_eq (hq : q.Compatible)
    (hkind : q.kvCacheSpec.kind ≠ .fullAttention) : q.blockSize = q.kvCacheSpec.blockSize := by
  rw [blockSize, (hq.unsharded hkind).1, Nat.mul_one]

end CacheHitQuery

namespace ChunkedLocalAttentionManager

variable {q : CacheHitQuery} {maxLength : Nat}

theorem cachedFrom_ok (view : BlockHashList) (i count : Nat)
    (hitem : ∀ j < i + count, ∃ blockHash, view.getItem j = .ok blockHash) :
    ∃ rows, cachedFrom q view i count = .ok rows ∧ rows.length ≤ count ∧
    ∀ j row, rows[j]? = some row → ∃ blockHash, view.getItem (i + j) = .ok blockHash ∧
    q.getCachedBlock blockHash = some row := by
  induction count generalizing i with
  | zero => exact ⟨[], rfl, Nat.le_refl _, by simp⟩
  | succ n ih =>
    have ⟨blockHash, hget⟩ := hitem i (by omega)
    rw [cachedFrom, hget]
    simp only [bind, Except.bind]
    cases hc : q.getCachedBlock blockHash with
    | none => exact ⟨[], rfl, Nat.zero_le _, by simp⟩
    | some cached =>
      have ⟨rest, hrest, hlen, hrow⟩ := ih (i := i + 1) fun j hj => hitem j (by omega)
      simp only [hrest]
      refine ⟨_, rfl, by simpa using hlen, ?_⟩
      intro j row hj
      cases j with
      | zero =>
        simp only [getElem?_cons_zero, Option.some.injEq] at hj
        exact ⟨blockHash, hget, hj ▸ hc⟩
      | succ j =>
        rw [show i + (j + 1) = i + 1 + j by omega]
        exact hrow j row (by simpa using hj)

theorem chunk_eq {chunk len : Nat} (hchunk : 0 < chunk) (hle : len ≤ maxLength)
    (hstart : maxLength / chunk * chunk ≤ len) : len / chunk = maxLength / chunk := by
  apply Nat.le_antisymm (Nat.div_le_div_right hle)
  exact (Nat.le_div_iff_mul_le hchunk).mpr hstart

theorem findLongestCacheHit_found (hq : q.Compatible) {chunk : Nat}
    (hkind : q.kvCacheSpec.kind = .chunkedLocalAttention chunk)
    (halign : q.kvCacheSpec.blockSize = q.alignmentTokens)
    (hlen : maxLength / q.blockPool.hashBlockSize ≤ q.blockHashes.length) :
    ∃ rows len, findLongestCacheHit q maxLength false = .ok (rows, len) ∧
    q.Found maxLength false rows len := by
  have hfull : q.kvCacheSpec.kind ≠ .fullAttention := by simp [hkind]
  have hworld := hq.unsharded hfull
  have hsize := hq.blockSize_eq hfull
  have hbs := q.kvCacheSpec.blockSize_pos
  have hchunk := q.kvCacheSpec.chunk_pos chunk hkind
  have hhash := hsize ▸ hq.hash_dvd
  obtain ⟨view, hview, hread⟩ := resolve_view hq.hash_pos hbs hhash (by omega)
  have hzero : (if 0 < maxLength then maxLength / chunk * chunk else 0) =
      maxLength / chunk * chunk := by
    split
    · rfl
    · rename_i hz
      rw [Nat.eq_zero_of_not_pos hz, Nat.zero_div, Nat.zero_mul]
  have hstart : maxLength / chunk * chunk / q.kvCacheSpec.blockSize ≤
      maxLength / q.kvCacheSpec.blockSize := Nat.div_le_div_right (Nat.div_mul_le_self _ _)
  generalize hs : maxLength / chunk * chunk / q.kvCacheSpec.blockSize = start at hstart
  obtain ⟨hits, hfrom, hcount, hrow⟩ := cachedFrom_ok (q := q) view start
    (maxLength / q.kvCacheSpec.blockSize - start) fun j hj =>
      hread.getItem_ok hq.hash_pos hbs hhash hlen (by omega)
  have hmul : (start + hits.length) * q.kvCacheSpec.blockSize ≤ maxLength := by
    have hb : start + hits.length ≤ maxLength / q.kvCacheSpec.blockSize := by omega
    exact Nat.le_trans (Nat.mul_le_mul_right _ hb) (Nat.div_mul_le_self _ _)
  refine ⟨List.replicate start q.nullRow ++ hits, (start + hits.length) * q.kvCacheSpec.blockSize,
    ?_, ⟨halign ▸ Nat.dvd_mul_left _ _, by simpa using hmul, ?_, by simp⟩⟩
  · unfold findLongestCacheHit
    simp only [hkind, hzero, hs]
    refine bind_eq_ok.mpr ⟨(), pyAssert_ok.mpr (by simp), bind_eq_ok.mpr ⟨(), pyAssert_ok.mpr hworld.1,
      bind_eq_ok.mpr ⟨(), pyAssert_ok.mpr hworld.2, bind_eq_ok.mpr ⟨(), pyAssert_ok.mpr halign,
        bind_eq_ok.mpr ⟨view, hview, bind_eq_ok.mpr ⟨hits, hfrom, ?_⟩⟩⟩⟩⟩⟩
    simp
  · intro hkept
    have hsame : (start + hits.length) * q.kvCacheSpec.blockSize / chunk * chunk =
        maxLength / chunk * chunk := by
      rcases hkept chunk hkind with hdvd | heq
      · rw [chunk_eq hchunk hmul]
        have : q.kvCacheSpec.blockSize ∣ maxLength / chunk * chunk :=
          Nat.dvd_mul_left_of_dvd hdvd _
        rw [← Nat.div_mul_cancel this, hs]
        exact Nat.mul_le_mul_right _ (Nat.le_add_right _ _)
      · rw [heq]
    constructor
    · rw [hsize, cdiv_mul_self hbs, length_append, length_replicate]
    · intro j row hj
      rw [hkind, hsize]
      simp only [ServesEntry, hsame]
      rw [getElem?_append, length_replicate] at hj
      have hin : maxLength / chunk * chunk < (j + 1) * q.kvCacheSpec.blockSize ↔ start ≤ j := by
        rw [← Nat.div_lt_iff_lt_mul hbs, hs]
        omega
      by_cases hjs : j < start
      · rw [if_pos hjs, getElem?_replicate, if_pos hjs, Option.some.injEq] at hj
        rw [if_neg (by omega)]
        exact hj.symm
      · rw [if_neg hjs] at hj
        rw [if_pos (hin.mpr (by omega))]
        obtain ⟨blockHash, hget, hfound⟩ := hrow (j - start) row hj
        rw [show start + (j - start) = j by omega] at hget
        exact hread.cachedAt hbs hhash hget hfound

end ChunkedLocalAttentionManager

namespace MambaManager

variable {q : CacheHitQuery} {maxLength : Nat}

variable {mode : MambaCacheMode}

theorem servesRows_stateRows {blockIdx len : Nat} {cached : BlockRow}
    (hkind : q.kvCacheSpec.kind = .mamba mode) (hbs : 0 < q.kvCacheSpec.blockSize)
    (hlow : blockIdx * q.kvCacheSpec.blockSize < len)
    (hhigh : len ≤ (blockIdx + 1) * q.kvCacheSpec.blockSize) (hat : q.CachedAt len cached) :
    q.ServesRows q.kvCacheSpec.kind q.kvCacheSpec.blockSize len (stateRows q blockIdx cached) := by
  constructor
  · have h1 := (lt_cdiv_iff (c := blockIdx) hbs).mpr hlow
    have h2 := (cdiv_le_iff (c := blockIdx + 1) hbs).mpr hhigh
    simp only [stateRows, length_append, length_replicate, length_singleton]
    omega
  · intro j row hj
    rw [hkind]
    simp only [ServesEntry]
    rw [stateRows, getElem?_append, length_replicate] at hj
    by_cases hjb : j < blockIdx
    · rw [if_pos hjb, getElem?_replicate, if_pos hjb, Option.some.injEq] at hj
      have := Nat.mul_le_mul_right q.kvCacheSpec.blockSize (show j + 1 ≤ blockIdx from hjb)
      rw [if_neg (by omega)]
      exact hj.symm
    · rw [if_neg hjb] at hj
      have hjeq : j = blockIdx := by
        by_contra hne
        rw [getElem?_eq_none (by simp; omega)] at hj
        simp at hj
      subst hjeq
      simp only [Nat.sub_self, getElem?_cons_zero, Option.some.injEq] at hj
      rw [if_pos hhigh]
      exact hj ▸ hat

theorem found_nil (hq : q.Compatible) : q.Found maxLength false [] 0 := by
  refine ⟨Nat.dvd_zero _, Nat.zero_le _, fun _ => ⟨?_, by simp⟩, by simp⟩
  have := (cdiv_le_iff (a := 0) (c := 0) hq.blockSize_pos).mpr (Nat.zero_le _)
  exact (Nat.le_zero.mp this).symm

theorem findFineGrained_found (maxLength : Nat) (hq : q.Compatible)
    (hkind : q.kvCacheSpec.kind = .mamba mode)
    (halign : q.alignmentTokens = q.blockPool.hashBlockSize)
    (hdvd : q.alignmentTokens ∣ q.kvCacheSpec.blockSize) :
    ∃ rows len, findFineGrained q q.blockHashes maxLength = .ok (rows, len) ∧
    q.Found maxLength false rows len := by
  have hsize := hq.blockSize_eq (by simp [hkind])
  have hbs := q.kvCacheSpec.blockSize_pos
  have hscale := Nat.div_mul_cancel hdvd
  unfold findFineGrained
  simp only
  have ⟨r, hr, hspec⟩ := searchDown_ok (q := q) (.list q.blockHashes)
    (fun _ => true) 0 (min (maxLength / q.alignmentTokens) q.blockHashes.length) fun i hle hi =>
      ⟨_, pyGet_ok.mpr (getElem?_eq_getElem (by omega))⟩
  rw [hr]
  cases r with
  | none => exact ⟨[], 0, rfl, found_nil hq⟩
  | some state =>
    have ⟨_, hlast, _, blockHash, hget, hcached⟩ := hspec state.1 state.2 rfl
    have hat : q.CachedAt ((state.1 + 1) * q.alignmentTokens) state.2 := by
      refine ⟨halign ▸ Nat.dvd_mul_left _ _, Nat.mul_pos (Nat.succ_pos _) hq.alignment_pos,
        blockHash, ?_, hcached⟩
      rw [halign, Nat.mul_div_cancel _ hq.hash_pos]
      exact pyGet_ok.mp hget
    generalize q.kvCacheSpec.blockSize / q.alignmentTokens = scale at hscale
    have hpos : 0 < scale := Nat.pos_of_ne_zero fun hz => by
      rw [hz, Nat.zero_mul] at hscale
      omega
    have hdm := Nat.div_add_mod state.1 scale
    have hmod := Nat.mod_lt state.1 hpos
    have hle : (state.1 + 1) * q.alignmentTokens ≤ maxLength :=
      Nat.le_trans (Nat.mul_le_mul_right _ (by omega)) (Nat.div_mul_le_self _ _)
    have hlow : state.1 / scale * q.kvCacheSpec.blockSize <
        (state.1 + 1) * q.alignmentTokens := by
      rw [← hscale, ← Nat.mul_assoc]
      apply Nat.mul_lt_mul_of_pos_right _ hq.alignment_pos
      rw [Nat.mul_comm]
      omega
    have hhigh : (state.1 + 1) * q.alignmentTokens ≤
        (state.1 / scale + 1) * q.kvCacheSpec.blockSize := by
      rw [← hscale, ← Nat.mul_assoc]
      apply Nat.mul_le_mul_right
      rw [Nat.add_mul, Nat.mul_comm]
      omega
    exact ⟨_, _, rfl, Nat.dvd_mul_left _ _, hle,
      fun _ => hsize ▸ servesRows_stateRows hkind hbs hlow hhigh hat, by simp⟩

theorem findAligned_found (hq : q.Compatible) {view : BlockHashList}
    (hkind : q.kvCacheSpec.kind = .mamba mode) (hread : q.BlockView q.kvCacheSpec.blockSize view)
    (hlen : maxLength / q.blockPool.hashBlockSize ≤ q.blockHashes.length) :
    ∃ rows len, findAligned q view maxLength = .ok (rows, len) ∧
    q.Found maxLength false rows len := by
  have hsize := hq.blockSize_eq (by simp [hkind])
  have hbs := q.kvCacheSpec.blockSize_pos
  have hhash := hsize ▸ hq.hash_dvd
  unfold findAligned
  simp only
  have ⟨r, hr, hspec⟩ := searchDown_ok (q := q) view
    (fun i => q.kvCacheSpec.blockSize == q.alignmentTokens ||
      (i + 1) * q.kvCacheSpec.blockSize % q.alignmentTokens == 0) 0
    (maxLength / q.kvCacheSpec.blockSize) fun i hle hi =>
      hread.getItem_ok hq.hash_pos hbs hhash hlen (by omega)
  rw [hr]
  cases r with
  | none => exact ⟨[], 0, rfl, found_nil hq⟩
  | some state =>
    have ⟨_, hlast, haccept, blockHash, hget, hcached⟩ := hspec state.1 state.2 rfl
    have hat := hread.cachedAt hbs hhash hget hcached
    have halign : q.alignmentTokens ∣ (state.1 + 1) * q.kvCacheSpec.blockSize := by
      simp only [Bool.or_eq_true, beq_iff_eq] at haccept
      rcases haccept with heq | hmod
      · exact heq ▸ Nat.dvd_mul_left _ _
      · exact Nat.dvd_of_mod_eq_zero hmod
    have hle : (state.1 + 1) * q.kvCacheSpec.blockSize ≤ maxLength :=
      Nat.le_trans (Nat.mul_le_mul_right _ (by omega)) (Nat.div_mul_le_self _ _)
    have hlow := Nat.mul_lt_mul_of_pos_right (Nat.lt_succ_self state.1) hbs
    refine ⟨_, _, rfl, halign, hle, fun _ => ?_, by simp⟩
    rw [hsize]
    exact servesRows_stateRows hkind hbs hlow (Nat.le_refl _) hat

theorem findLongestCacheHit_found (hq : q.Compatible) (hkind : q.kvCacheSpec.kind = .mamba mode)
    (hlen : maxLength / q.blockPool.hashBlockSize ≤ q.blockHashes.length) (dropEagleBlock : Bool) :
    ∃ rows len, findLongestCacheHit q maxLength dropEagleBlock = .ok (rows, len) ∧
    q.Found maxLength false rows len := by
  have hfull : q.kvCacheSpec.kind ≠ .fullAttention := by simp [hkind]
  have hworld := hq.unsharded hfull
  have hsize := hq.blockSize_eq hfull
  unfold findLongestCacheHit
  simp only [hkind]
  by_cases hfine : q.alignmentTokens < q.kvCacheSpec.blockSize ∧
      q.kvCacheSpec.blockSize % q.alignmentTokens = 0
  · obtain ⟨halign, hsupports⟩ := hq.alignment_eq_hash (hsize ▸ hfine.1)
    obtain ⟨rows, len, hfind, hfound⟩ := findFineGrained_found maxLength hq hkind
      halign (Nat.dvd_of_mod_eq_zero hfine.2)
    refine ⟨rows, len, bind_eq_ok.mpr ⟨(), pyAssert_ok.mpr hworld.1, bind_eq_ok.mpr ⟨(),
      pyAssert_ok.mpr hworld.2, bind_eq_ok.mpr ⟨_, resolve_fine hsupports hfine, ?_⟩⟩⟩, hfound⟩
    rw [if_pos hfine]
    exact hfind
  · obtain ⟨view, hview, hread⟩ := resolve_view hq.hash_pos q.kvCacheSpec.blockSize_pos
      (hsize ▸ hq.hash_dvd) hfine
    obtain ⟨rows, len, hfind, hfound⟩ := findAligned_found hq hkind hread hlen
    refine ⟨rows, len, bind_eq_ok.mpr ⟨(), pyAssert_ok.mpr hworld.1, bind_eq_ok.mpr ⟨(),
      pyAssert_ok.mpr hworld.2, bind_eq_ok.mpr ⟨view, hview, ?_⟩⟩⟩, hfound⟩
    rw [if_neg hfine]
    exact hfind

end MambaManager

theorem CacheHitQuery.findLongestCacheHit_found {q : CacheHitQuery} (hq : q.Compatible)
    {maxLength : Nat} (hlen : maxLength / q.blockPool.hashBlockSize ≤ q.blockHashes.length)
    (dropEagleBlock : Bool) (hchunked : q.kvCacheSpec.kind.isChunkedLocalAttention →
    q.kvCacheSpec.blockSize = q.alignmentTokens ∧ dropEagleBlock = false) :
    ∃ rows len, q.findLongestCacheHit maxLength dropEagleBlock = .ok (rows, len) ∧
    q.Found maxLength (dropEagleBlock && !q.kvCacheSpec.kind.isMamba) rows len := by
  unfold CacheHitQuery.findLongestCacheHit
  cases hkind : q.kvCacheSpec.kind with
  | fullAttention =>
    have h := FullAttentionManager.findLongestCacheHit_found hq hkind maxLength dropEagleBlock
    simpa [SpecKind.isMamba] using h
  | slidingWindow window extra =>
    have h := SlidingWindowManager.findLongestCacheHit_found hq hkind hlen dropEagleBlock
    simpa [SpecKind.isMamba] using h
  | chunkedLocalAttention chunk =>
    obtain ⟨halign, hdrop⟩ := hchunked (by simp [hkind, SpecKind.isChunkedLocalAttention])
    have h := ChunkedLocalAttentionManager.findLongestCacheHit_found hq hkind halign hlen
    simpa [hdrop] using h
  | mamba mode =>
    have h := MambaManager.findLongestCacheHit_found hq hkind hlen dropEagleBlock
    simpa [SpecKind.isMamba] using h

end VllmAmpere
