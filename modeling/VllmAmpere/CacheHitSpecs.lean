import VllmAmpere.CacheHitFinders

/-! What the cache hit finders return: the length, the blocks they list and, for
a dropped EAGLE block, the cached unit past the returned length. -/

open List

namespace VllmAmpere

/-- What entry `j` of a hit of length `len` must be: a cached block where the
attention of the kind still reads, the null block elsewhere. -/
def ServesEntry {α : Type*} (kind : SpecKind) (blockSize : Nat) (cached : Nat → α → Prop)
    (null : α → Prop) (len j : Nat) (entry : α) : Prop :=
  match kind with
  | .fullAttention => ∃ n, j * blockSize < n ∧ n ≤ (j + 1) * blockSize ∧
      min ((j + 1) * blockSize) len ≤ n ∧ cached n entry
  | .slidingWindow window _ =>
    if len < (j + 1) * blockSize + (window - 1) then cached ((j + 1) * blockSize) entry
    else null entry ∨ window ≤ 1 ∧ (j + 1) * blockSize = len ∧ cached len entry
  | .chunkedLocalAttention chunk =>
    if len / chunk * chunk < (j + 1) * blockSize then cached ((j + 1) * blockSize) entry
    else null entry
  | .mamba _ => if len ≤ (j + 1) * blockSize then cached len entry else null entry

/-- A list of blocks serves a hit of length `len`. -/
structure Serves {α : Type*} (kind : SpecKind) (blockSize : Nat) (cached : Nat → α → Prop)
    (null : α → Prop) (len : Nat) (entries : List α) : Prop where
  length : entries.length = cdiv len blockSize
  entry : ∀ j x, entries[j]? = some x → ServesEntry kind blockSize cached null len j x

theorem ite_prop_mono {c a b a' b' : Prop} [Decidable c] (ha : a → a') (hb : b → b')
    (h : if c then a else b) : if c then a' else b' := by
  split <;> simp_all

theorem ServesEntry.map {α β : Type*} {kind : SpecKind} {blockSize len j : Nat}
    {cached : Nat → α → Prop} {null : α → Prop} {cached' : Nat → β → Prop} {null' : β → Prop}
    {x : α} {y : β} (hcached : ∀ n, cached n x → cached' n y) (hnull : null x → null' y)
    (h : ServesEntry kind blockSize cached null len j x) :
    ServesEntry kind blockSize cached' null' len j y := by
  cases kind with
  | fullAttention =>
    have ⟨n, hlow, hhigh, hcov, hx⟩ := h
    exact ⟨n, hlow, hhigh, hcov, hcached n hx⟩
  | slidingWindow window extra =>
    exact ite_prop_mono (hcached _)
      (Or.imp hnull fun hx => ⟨hx.1, hx.2.1, hcached _ hx.2.2⟩) h
  | chunkedLocalAttention chunk => exact ite_prop_mono (hcached _) hnull h
  | mamba mode => exact ite_prop_mono (hcached _) hnull h

theorem Serves.map {α β : Type*} {kind : SpecKind} {blockSize len : Nat}
    {cached : Nat → α → Prop} {null : α → Prop} {cached' : Nat → β → Prop} {null' : β → Prop}
    {entries : List α} (f : α → β) (hcached : ∀ n x, cached n x → cached' n (f x))
    (hnull : ∀ x, null x → null' (f x)) (h : Serves kind blockSize cached null len entries) :
    Serves kind blockSize cached' null' len (entries.map f) := by
  constructor
  · rw [length_map, h.length]
  · intro j y hj
    rw [getElem?_map, Option.map_eq_some_iff] at hj
    have ⟨x, hx, hxy⟩ := hj
    exact hxy ▸ (h.entry j x hx).map (fun n => hcached n x) (hnull x)

theorem Serves.take {α : Type*} {blockSize len shorter : Nat} {cached : Nat → α → Prop}
    {null : α → Prop} {entries : List α}
    (h : Serves .fullAttention blockSize cached null len entries) (hle : shorter ≤ len) :
    Serves .fullAttention blockSize cached null shorter
    (entries.take (cdiv shorter blockSize)) := by
  constructor
  · rw [length_take, h.length]
    exact Nat.min_eq_left (cdiv_mono hle)
  · intro j x hj
    rw [getElem?_take] at hj
    split at hj
    · have ⟨n, hlow, hhigh, hcov, hx⟩ := h.entry j x hj
      exact ⟨n, hlow, hhigh, by omega, hx⟩
    · simp at hj

namespace CacheHitQuery

variable {q : CacheHitQuery}

/-- The groups of the query have a cached block for the first `n` tokens. -/
def CachedAt (q : CacheHitQuery) (n : Nat) (row : BlockRow) : Prop :=
  q.blockPool.hashBlockSize ∣ n ∧ 0 < n ∧
    ∃ blockHash, q.blockHashes[n / q.blockPool.hashBlockSize - 1]? = some blockHash ∧
      q.getCachedBlock blockHash = some row

theorem cachedRun_getElem? {blockHashes : List BlockHash} {j : Nat} {row : BlockRow}
    (h : (q.cachedRun blockHashes)[j]? = some row) :
    ∃ blockHash, blockHashes[j]? = some blockHash ∧ q.getCachedBlock blockHash = some row := by
  induction blockHashes generalizing j with
  | nil => simp [cachedRun] at h
  | cons blockHash rest ih =>
    rw [cachedRun] at h
    cases hc : q.getCachedBlock blockHash with
    | none => simp [hc] at h
    | some cached =>
      rw [hc] at h
      cases j with
      | zero =>
        simp only [getElem?_cons_zero, Option.some.injEq] at h
        exact ⟨blockHash, rfl, h ▸ hc⟩
      | succ j => exact ih (by simpa using h)

theorem cachedRun_length_le (blockHashes : List BlockHash) :
    (q.cachedRun blockHashes).length ≤ blockHashes.length := by
  induction blockHashes with
  | nil => simp [cachedRun]
  | cons blockHash rest ih =>
    rw [cachedRun]
    split
    · simp
    · simpa using ih

theorem searchDown_ok (blockHashes : BlockHashList) (accept : Nat → Bool) (first count : Nat)
    (hitem : ∀ i, first ≤ i → i < first + count →
    ∃ blockHash, blockHashes.getItem i = .ok blockHash) :
    ∃ r, q.searchDown blockHashes accept first count = .ok r ∧
    ∀ i row, r = some (i, row) → first ≤ i ∧ i < first + count ∧ accept i = true ∧
    ∃ blockHash, blockHashes.getItem i = .ok blockHash ∧ q.getCachedBlock blockHash = some row := by
  induction count with
  | zero => exact ⟨none, rfl, by simp⟩
  | succ n ih =>
    have ⟨blockHash, hget⟩ := hitem (first + n) (by omega) (by omega)
    have ⟨r, hr, hspec⟩ := ih fun i hle hi => hitem i hle (by omega)
    have hrest : ∀ i row, r = some (i, row) → first ≤ i ∧ i < first + (n + 1) ∧
        accept i = true ∧ ∃ blockHash, blockHashes.getItem i = .ok blockHash ∧
          q.getCachedBlock blockHash = some row := by
      intro i row hi
      have ⟨hle, hlt, hfound⟩ := hspec i row hi
      exact ⟨hle, by omega, hfound⟩
    rw [searchDown, hget]
    simp only [bind, Except.bind]
    cases hc : q.getCachedBlock blockHash with
    | none => exact ⟨r, hr, hrest⟩
    | some cached =>
      simp only
      split
      · rename_i hacc
        refine ⟨_, rfl, ?_⟩
        intro i row hi
        simp only [Option.some.injEq, Prod.mk.injEq] at hi
        rw [← hi.1, ← hi.2]
        exact ⟨by omega, by omega, hacc, blockHash, hget, hc⟩
      · exact ⟨r, hr, hrest⟩

/-- A view reads, for block `i`, the hash of the tokens up to its end. -/
structure BlockView (q : CacheHitQuery) (blockSize : Nat) (view : BlockHashList) : Prop where
  getItem : ∀ i, view.getItem i =
    pyGet q.blockHashes ((i + 1) * blockSize / q.blockPool.hashBlockSize - 1)
  sliceFrom : ∀ i, (view.sliceFrom 0)[i]? =
    q.blockHashes[(i + 1) * blockSize / q.blockPool.hashBlockSize - 1]?

theorem scaled_index {blockSize hashBlockSize : Nat} (hdvd : hashBlockSize ∣ blockSize) (i : Nat) :
    (i + 1) * blockSize / hashBlockSize = (i + 1) * (blockSize / hashBlockSize) :=
  Nat.mul_div_assoc _ hdvd

theorem resolve_view {blockSize : Nat} (hpos : 0 < q.blockPool.hashBlockSize)
    (hbs : 0 < blockSize) (hdvd : q.blockPool.hashBlockSize ∣ blockSize)
    (hcoarse : ¬(q.alignmentTokens < blockSize ∧ blockSize % q.alignmentTokens = 0)) :
    ∃ view, q.resolve blockSize = .ok view ∧ BlockView q blockSize view := by
  unfold resolve resolveBlockHashes
  split
  · rename_i heq
    refine ⟨_, rfl, ⟨?_, ?_⟩⟩ <;> intro i <;>
      simp [BlockHashList.getItem, BlockHashList.sliceFrom, heq, Nat.mul_div_cancel _ hpos]
  · have hfine : (q.kvCacheSpec.kind.supportsFineGrainedHashLookup &&
        decide (q.alignmentTokens < blockSize) && blockSize % q.alignmentTokens == 0) = false := by
      by_contra hne
      simp only [Bool.not_eq_false, Bool.and_eq_true, decide_eq_true_eq, beq_iff_eq] at hne
      exact hcoarse ⟨hne.1.2, hne.2⟩
    have hmod : blockSize % q.blockPool.hashBlockSize = 0 := Nat.mod_eq_zero_of_dvd hdvd
    have hscale : 0 < blockSize / q.blockPool.hashBlockSize :=
      Nat.div_pos (Nat.le_of_dvd hbs hdvd) hpos
    simp only [hfine, Bool.false_eq_true, if_false, hmod, pyAssert, if_true, bind, Except.bind]
    refine ⟨_, rfl, ⟨?_, ?_⟩⟩ <;> intro i
    · simp [BlockHashList.getItem, scaled_index hdvd]
    · rw [BlockHashList.sliceFrom_getElem? _ hscale, Nat.zero_add, scaled_index hdvd]

theorem resolve_fine {blockSize : Nat} (hkind : q.kvCacheSpec.kind.supportsFineGrainedHashLookup)
    (hfine : q.alignmentTokens < blockSize ∧ blockSize % q.alignmentTokens = 0) :
    q.resolve blockSize = .ok (.list q.blockHashes) := by
  unfold resolve resolveBlockHashes
  split
  · rfl
  · simp [hkind, hfine.1, hfine.2]

theorem cachedAt_block {blockSize i : Nat} {blockHash : BlockHash} {row : BlockRow}
    (hbs : 0 < blockSize) (hdvd : q.blockPool.hashBlockSize ∣ blockSize)
    (hhash : q.blockHashes[(i + 1) * blockSize / q.blockPool.hashBlockSize - 1]? = some blockHash)
    (hrow : q.getCachedBlock blockHash = some row) : q.CachedAt ((i + 1) * blockSize) row :=
  ⟨Nat.dvd_mul_left_of_dvd hdvd _, Nat.mul_pos (Nat.succ_pos i) hbs, blockHash, hhash, hrow⟩

theorem block_lt_of_div {maxLength blockSize hashBlockSize i : Nat} (hpos : 0 < hashBlockSize)
    (hbs : 0 < blockSize) (hdvd : hashBlockSize ∣ blockSize) (hi : i < maxLength / blockSize) :
    (i + 1) * blockSize / hashBlockSize - 1 < maxLength / hashBlockSize := by
  have hle : (i + 1) * blockSize ≤ maxLength := (Nat.le_div_iff_mul_le hbs).mp hi
  have hpos' : 0 < (i + 1) * blockSize / hashBlockSize := by
    apply Nat.div_pos _ hpos
    exact Nat.le_trans (Nat.le_of_dvd hbs hdvd) (Nat.le_mul_of_pos_left _ (Nat.succ_pos i))
  have := Nat.div_le_div_right (c := hashBlockSize) hle
  omega

theorem BlockView.getItem_ok {blockSize maxLength : Nat} {view : BlockHashList}
    (hview : BlockView q blockSize view) (hpos : 0 < q.blockPool.hashBlockSize)
    (hbs : 0 < blockSize) (hdvd : q.blockPool.hashBlockSize ∣ blockSize)
    (hlen : maxLength / q.blockPool.hashBlockSize ≤ q.blockHashes.length)
    {i : Nat} (hi : i < maxLength / blockSize) : ∃ blockHash, view.getItem i = .ok blockHash := by
  have hlt : (i + 1) * blockSize / q.blockPool.hashBlockSize - 1 < q.blockHashes.length :=
    Nat.lt_of_lt_of_le (block_lt_of_div hpos hbs hdvd hi) hlen
  exact ⟨_, (hview.getItem i).trans (pyGet_ok.mpr (getElem?_eq_getElem hlt))⟩

theorem BlockView.cachedAt {blockSize i : Nat} {view : BlockHashList} {blockHash : BlockHash}
    {row : BlockRow} (hview : BlockView q blockSize view) (hbs : 0 < blockSize)
    (hdvd : q.blockPool.hashBlockSize ∣ blockSize) (hget : view.getItem i = .ok blockHash)
    (hrow : q.getCachedBlock blockHash = some row) : q.CachedAt ((i + 1) * blockSize) row :=
  cachedAt_block hbs hdvd (pyGet_ok.mp ((hview.getItem i).symm.trans hget)) hrow

theorem alignedCount_le (blockSize n : Nat) : q.alignedCount blockSize n ≤ n := by
  induction n with
  | zero => simp [alignedCount]
  | succ n ih =>
    rw [alignedCount]
    split <;> omega

theorem alignedCount_dvd (blockSize n : Nat) :
    q.alignmentTokens ∣ q.alignedCount blockSize n * blockSize := by
  induction n with
  | zero => simp [alignedCount]
  | succ n ih =>
    rw [alignedCount]
    split
    · exact ih
    · rename_i h
      exact Nat.dvd_of_mod_eq_zero (not_not.mp h)

theorem popUnaligned_of_dvd {blockSize : Nat} {rows : List BlockRow}
    (h : q.alignmentTokens ∣ rows.length * blockSize) : q.popUnaligned blockSize rows = rows := by
  unfold popUnaligned
  split
  · rfl
  · apply take_of_length_le
    cases hn : rows.length with
    | zero => simp
    | succ n =>
      rw [hn] at h
      simp [alignedCount, Nat.mod_eq_zero_of_dvd h]

theorem popUnaligned_eq_take (blockSize : Nat) (rows : List BlockRow) :
    ∃ m ≤ rows.length, q.popUnaligned blockSize rows = rows.take m ∧
    q.alignmentTokens ∣ m * blockSize := by
  unfold popUnaligned
  split
  · rename_i h
    exact ⟨rows.length, Nat.le_refl _, take_length.symm, h ▸ Nat.dvd_mul_left _ _⟩
  · exact ⟨_, alignedCount_le _ _, rfl, alignedCount_dvd _ _⟩

def ServesRows (q : CacheHitQuery) (kind : SpecKind) (blockSize len : Nat)
    (rows : List BlockRow) : Prop :=
  Serves kind blockSize q.CachedAt (· = q.nullRow) len rows

/-- The rows cover the first `len` tokens with full blocks, the last one perhaps
cached up to an interior boundary only. -/
abbrev CoveredTo (q : CacheHitQuery) (blockSize len : Nat) (rows : List BlockRow) : Prop :=
  q.ServesRows .fullAttention blockSize len rows

theorem CoveredTo.unit_after {blockSize len shorter unit : Nat} {rows : List BlockRow}
    (h : CoveredTo q blockSize len rows) (hbs : 0 < blockSize) (hunit : 0 < unit)
    (hub : unit ∣ blockSize) (hus : unit ∣ shorter) (hle : shorter + unit ≤ len) :
    ∃ n row, rows[shorter / blockSize]? = some row ∧ q.CachedAt n row ∧
    shorter + unit ≤ n ∧ n ≤ (shorter / blockSize + 1) * blockSize := by
  have hdm := Nat.div_add_mod shorter blockSize
  have hmod := Nat.mod_lt shorter hbs
  have hcomm := Nat.mul_comm blockSize (shorter / blockSize)
  have hin : shorter / blockSize < rows.length := by
    rw [h.length, lt_cdiv_iff hbs]
    omega
  have ⟨n, _, hnle, hcov, hat⟩ := h.entry _ _ (getElem?_eq_getElem hin)
  have hroom : shorter + unit ≤ (shorter / blockSize + 1) * blockSize := by
    have hlt : shorter < (shorter / blockSize + 1) * blockSize := by
      rw [Nat.add_mul]
      omega
    have hd : unit ∣ (shorter / blockSize + 1) * blockSize := Nat.dvd_mul_left_of_dvd hub _
    have hsub := Nat.le_of_dvd (by omega) (Nat.dvd_sub hd hus)
    omega
  exact ⟨n, _, getElem?_eq_getElem hin, hat, by omega, hnle⟩

def blockSize (q : CacheHitQuery) : Nat := q.kvCacheSpec.blockSize * q.dcpWorldSize

def dropUnit (q : CacheHitQuery) : Nat := min q.alignmentTokens q.blockSize

/-- The queries a coordinator makes: hits are aligned to whole blocks or, where
the manager supports it, to hashes. -/
structure Compatible (q : CacheHitQuery) : Prop where
  hash_pos : 0 < q.blockPool.hashBlockSize
  dcp_pos : 0 < q.dcpWorldSize
  world : q.kvCacheSpec.kind.isFullAttention ∨ q.dcpWorldSize = 1 ∧ q.pcpWorldSize = 1
  hash_dvd : q.blockPool.hashBlockSize ∣ q.blockSize
  alignment_pos : 0 < q.alignmentTokens
  alignment : q.blockSize ∣ q.alignmentTokens ∨
    q.alignmentTokens = q.blockPool.hashBlockSize ∧
      q.kvCacheSpec.kind.supportsFineGrainedHashLookup

def ChunkKept (q : CacheHitQuery) (maxLength len : Nat) : Prop :=
  ∀ chunk, q.kvCacheSpec.kind = .chunkedLocalAttention chunk →
    q.kvCacheSpec.blockSize ∣ chunk ∨ len = maxLength

/-- What a lookup promises: an aligned length below the given one, the blocks that
serve it and, where an EAGLE block was dropped, a cached unit past it. -/
structure Found (q : CacheHitQuery) (maxLength : Nat) (dropEagleBlock : Bool)
    (rows : List BlockRow) (len : Nat) : Prop where
  aligned : q.alignmentTokens ∣ len
  le : len ≤ maxLength - if dropEagleBlock then q.dropUnit else 0
  serves : q.ChunkKept maxLength len → q.ServesRows q.kvCacheSpec.kind q.blockSize len rows
  lookahead : dropEagleBlock → 0 < len → ∃ n row, q.CachedAt n row ∧
    len + q.dropUnit ≤ n ∧ n ≤ (len / q.blockSize + 1) * q.blockSize

theorem Compatible.blockSize_pos (h : q.Compatible) : 0 < q.blockSize :=
  Nat.mul_pos q.kvCacheSpec.blockSize_pos h.dcp_pos

theorem Compatible.dropUnit_dvd (h : q.Compatible) :
    q.dropUnit ∣ q.blockSize ∧ q.dropUnit ∣ q.alignmentTokens := by
  unfold dropUnit
  rcases h.alignment with hblock | ⟨hhash, _⟩
  · rw [Nat.min_eq_right (Nat.le_of_dvd h.alignment_pos hblock)]
    exact ⟨Nat.dvd_refl _, hblock⟩
  · have hdvd : q.alignmentTokens ∣ q.blockSize := hhash ▸ h.hash_dvd
    rw [Nat.min_eq_left (Nat.le_of_dvd h.blockSize_pos hdvd)]
    exact ⟨hdvd, Nat.dvd_refl _⟩

theorem Compatible.alignment_eq_hash (h : q.Compatible) (hfine : q.alignmentTokens < q.blockSize) :
    q.alignmentTokens = q.blockPool.hashBlockSize ∧
    q.kvCacheSpec.kind.supportsFineGrainedHashLookup := by
  rcases h.alignment with hblock | hhash
  · exact absurd (Nat.le_of_dvd h.alignment_pos hblock) (by omega)
  · exact hhash

theorem Compatible.blockSize_dvd (h : q.Compatible)
    (hcoarse : ¬(q.alignmentTokens < q.blockSize ∧ q.blockSize % q.alignmentTokens = 0)) :
    q.blockSize ∣ q.alignmentTokens := by
  rcases h.alignment with hblock | ⟨hhash, _⟩
  · exact hblock
  · have hdvd : q.alignmentTokens ∣ q.blockSize := hhash ▸ h.hash_dvd
    have hle := Nat.le_of_dvd h.blockSize_pos hdvd
    have : ¬q.alignmentTokens < q.blockSize :=
      fun hlt => hcoarse ⟨hlt, Nat.mod_eq_zero_of_dvd hdvd⟩
    exact (show q.blockSize = q.alignmentTokens by omega) ▸ Nat.dvd_refl _

end CacheHitQuery

/-! The full-attention finder: a run of full blocks, extended at the hash
granularity, then cut back by the EAGLE drop and the alignment. -/

namespace FullAttentionManager

open CacheHitQuery

variable {q : CacheHitQuery} {blockSize maxLength : Nat}

theorem coveredTo_cachedRun (hbs : 0 < blockSize) (hdvd : q.blockPool.hashBlockSize ∣ blockSize)
    {blockHashes : List BlockHash} (count : Nat) (hhash : ∀ i, blockHashes[i]? =
    q.blockHashes[(i + 1) * blockSize / q.blockPool.hashBlockSize - 1]?) :
    CoveredTo q blockSize ((q.cachedRun (blockHashes.take count)).length * blockSize)
    (q.cachedRun (blockHashes.take count)) := by
  constructor
  · exact (cdiv_mul_self hbs _).symm
  · intro j row hj
    have ⟨blockHash, hget, hrow⟩ := cachedRun_getElem? hj
    rw [getElem?_take] at hget
    split at hget
    · have hat := cachedAt_block hbs hdvd ((hhash j).symm.trans hget) hrow
      exact ⟨(j + 1) * blockSize, Nat.mul_lt_mul_of_pos_right (Nat.lt_succ_self j) hbs,
        Nat.le_refl _, Nat.min_le_left _ _, hat⟩
    · simp at hget

theorem cachedRun_take_mul_le (blockSize maxLength : Nat) (blockHashes : List BlockHash) :
    (q.cachedRun (blockHashes.take (maxLength / blockSize))).length * blockSize ≤ maxLength := by
  have hlen := cachedRun_length_le (q := q) (blockHashes.take (maxLength / blockSize))
  rw [length_take] at hlen
  exact Nat.le_trans (Nat.mul_le_mul_right _ (by omega)) (Nat.div_mul_le_self maxLength blockSize)

theorem CoveredTo.append_tail {rows : List BlockRow} {cachedTail : BlockRow} {len : Nat}
    (h : CoveredTo q blockSize (rows.length * blockSize) rows) (hbs : 0 < blockSize)
    (hlt : rows.length * blockSize < len) (hle : len ≤ (rows.length + 1) * blockSize)
    (hat : q.CachedAt len cachedTail) : CoveredTo q blockSize len (rows ++ [cachedTail]) := by
  constructor
  · have hlow := (lt_cdiv_iff (c := rows.length) hbs).mpr hlt
    have hhigh := (cdiv_le_iff (c := rows.length + 1) hbs).mpr hle
    simp only [length_append, length_singleton]
    omega
  · intro j row hj
    rw [getElem?_append] at hj
    split at hj
    · rename_i hj'
      have ⟨n, hnlt, hnle, hcov, hrow⟩ := h.entry j row hj
      have := Nat.mul_le_mul_right blockSize (show j + 1 ≤ rows.length from hj')
      exact ⟨n, hnlt, hnle, by omega, hrow⟩
    · rename_i hj'
      have hjl : j = rows.length := by
        by_contra hne
        rw [getElem?_eq_none (by simp; omega)] at hj
        simp at hj
      subst hjl
      simp only [Nat.sub_self, getElem?_cons_zero, Option.some.injEq] at hj
      exact ⟨len, hlt, hle, Nat.min_le_right _ _, hj ▸ hat⟩

theorem findFineGrained_ok (maxLength : Nat) (hpos : 0 < q.blockPool.hashBlockSize) (hbs : 0 < blockSize)
    (hdvd : q.blockPool.hashBlockSize ∣ blockSize)
    (halign : q.alignmentTokens = q.blockPool.hashBlockSize) :
    ∃ rows len, findFineGrained q q.blockHashes blockSize maxLength = .ok (rows, len) ∧
    CoveredTo q blockSize len rows ∧ len ≤ maxLength ∧ q.alignmentTokens ∣ len := by
  have hscale : blockSize / q.alignmentTokens * q.alignmentTokens = blockSize :=
    Nat.div_mul_cancel (halign ▸ hdvd)
  have hscalepos : 0 < blockSize / q.alignmentTokens := by
    rw [halign]
    exact Nat.div_pos (Nat.le_of_dvd hbs hdvd) hpos
  have hview : ∀ i, ((BlockHashList.withBlockSize q.blockHashes
      (blockSize / q.alignmentTokens)).sliceFrom 0)[i]? =
      q.blockHashes[(i + 1) * blockSize / q.blockPool.hashBlockSize - 1]? := by
    intro i
    rw [BlockHashList.sliceFrom_getElem? _ hscalepos, Nat.zero_add, halign, scaled_index hdvd]
  have hrows := coveredTo_cachedRun hbs hdvd (maxLength / blockSize) hview
  have hle := cachedRun_take_mul_le (q := q) blockSize maxLength
    ((BlockHashList.withBlockSize q.blockHashes (blockSize / q.alignmentTokens)).sliceFrom 0)
  unfold findFineGrained
  simp only
  generalize q.cachedRun (((BlockHashList.withBlockSize q.blockHashes
    (blockSize / q.alignmentTokens)).sliceFrom 0).take (maxLength / blockSize)) = rows at hrows hle
  generalize hscaleEq : blockSize / q.alignmentTokens = scale at hscale hscalepos
  generalize hmaxEq : min (min (rows.length * scale + scale - 1)
    (maxLength / q.alignmentTokens)) q.blockHashes.length = maxPartialIdx
  have ⟨r, hr, hspec⟩ := searchDown_ok (q := q) (.list q.blockHashes)
    (fun _ => true) (rows.length * scale) (maxPartialIdx - rows.length * scale) fun i hfirst hi =>
      ⟨_, pyGet_ok.mpr (getElem?_eq_getElem (by omega))⟩
  rw [hr]
  cases r with
  | none => exact ⟨rows, _, rfl, hrows, hle, Nat.dvd_mul_left_of_dvd (halign ▸ hdvd) _⟩
  | some found =>
    have ⟨hfirst, hlast, _, blockHash, hget, hrow⟩ := hspec found.1 found.2 rfl
    have hat : q.CachedAt ((found.1 + 1) * q.alignmentTokens) found.2 := by
      refine ⟨halign ▸ Nat.dvd_mul_left _ _, Nat.mul_pos (Nat.succ_pos _) (halign ▸ hpos),
        blockHash, ?_, hrow⟩
      rw [halign, Nat.mul_div_cancel _ hpos]
      exact pyGet_ok.mp hget
    have hbase : rows.length * blockSize = rows.length * scale * q.alignmentTokens := by
      rw [Nat.mul_assoc, hscale]
    have hnext : (rows.length + 1) * blockSize =
        (rows.length * scale + scale) * q.alignmentTokens := by
      rw [Nat.add_mul, Nat.add_mul, hbase, hscale, Nat.one_mul]
    have hapos : 0 < q.alignmentTokens := halign ▸ hpos
    refine ⟨_, _, rfl, CoveredTo.append_tail hrows hbs ?_ ?_ hat, ?_, Nat.dvd_mul_left _ _⟩
    · rw [hbase]
      exact Nat.mul_lt_mul_of_pos_right (by omega) hapos
    · rw [hnext]
      exact Nat.mul_le_mul_right _ (by omega)
    · exact Nat.le_trans (Nat.mul_le_mul_right _ (by omega))
        (Nat.div_mul_le_self maxLength q.alignmentTokens)

theorem trimHit_found {rows : List BlockRow} {len : Nat} (hq : q.Compatible)
    (hkind : q.kvCacheSpec.kind = .fullAttention) (h : CoveredTo q q.blockSize len rows)
    (hle : len ≤ maxLength) (hunit : q.dropUnit ∣ len) (dropEagleBlock : Bool) :
    ∃ rows' len', trimHit q dropEagleBlock q.blockSize rows len = (rows', len') ∧
    q.Found maxLength dropEagleBlock rows' len' := by
  have hbs := hq.blockSize_pos
  have hapos := hq.alignment_pos
  have hupos : 0 < q.dropUnit := by
    unfold dropUnit
    omega
  have hshort : ∀ a, a - a % q.alignmentTokens ≤ a := fun a => Nat.sub_le _ _
  have haligned : ∀ a, q.alignmentTokens ∣ a - a % q.alignmentTokens := Nat.dvd_sub_mod
  unfold trimHit
  rw [show min q.alignmentTokens q.blockSize = q.dropUnit from rfl]
  simp only
  by_cases hdrop : dropEagleBlock ∧ 0 < len
  · have hd := hshort (len - q.dropUnit)
    have huLen : q.dropUnit ≤ len := Nat.le_of_dvd hdrop.2 hunit
    rw [if_pos hdrop]
    refine ⟨_, _, rfl, haligned _, ?_, fun _ => hkind ▸ Serves.take h (by omega), ?_⟩
    · simp only [hdrop.1, if_true]
      omega
    · intro _ _
      have ⟨n, row, _, hat, hlow, hhigh⟩ := h.unit_after hbs hupos hq.dropUnit_dvd.1
        (Nat.dvd_trans hq.dropUnit_dvd.2 (haligned (len - q.dropUnit))) (by omega)
      exact ⟨n, row, hat, hlow, hhigh⟩
  · have hd := hshort len
    rw [if_neg hdrop]
    refine ⟨_, _, rfl, haligned _, ?_, fun _ => hkind ▸ Serves.take h hd, ?_⟩
    · split
      · have hz : len = 0 := by
          by_contra hne
          exact hdrop ⟨by assumption, by omega⟩
        omega
      · omega
    · intro hd' hpos'
      exact absurd ⟨hd', by omega⟩ hdrop

theorem findLongestCacheHit_found (hq : q.Compatible)
    (hkind : q.kvCacheSpec.kind = .fullAttention) (maxLength : Nat) (dropEagleBlock : Bool) :
    ∃ rows len, findLongestCacheHit q maxLength dropEagleBlock = .ok (rows, len) ∧
    q.Found maxLength dropEagleBlock rows len := by
  have hbs := hq.blockSize_pos
  have hsize : (if 1 < q.dcpWorldSize then q.kvCacheSpec.blockSize * q.dcpWorldSize
      else q.kvCacheSpec.blockSize) = q.blockSize := by
    have := hq.dcp_pos
    unfold blockSize
    split
    · rfl
    · rw [show q.dcpWorldSize = 1 by omega, Nat.mul_one]
  have hcover : ∃ view rows len, q.resolve q.blockSize = .ok view ∧
      ((q.alignmentTokens < q.blockSize ∧ q.blockSize % q.alignmentTokens = 0) ∧
          (∃ hashes, view = .list hashes ∧
            findFineGrained q hashes q.blockSize maxLength = .ok (rows, len)) ∨
        ¬(q.alignmentTokens < q.blockSize ∧ q.blockSize % q.alignmentTokens = 0) ∧
          (q.cachedRun ((view.sliceFrom 0).take (maxLength / q.blockSize)),
            (q.cachedRun ((view.sliceFrom 0).take (maxLength / q.blockSize))).length *
              q.blockSize) = (rows, len)) ∧
      CoveredTo q q.blockSize len rows ∧ len ≤ maxLength ∧ q.dropUnit ∣ len := by
    by_cases hfine : q.alignmentTokens < q.blockSize ∧ q.blockSize % q.alignmentTokens = 0
    · obtain ⟨halign, hsupports⟩ := hq.alignment_eq_hash hfine.1
      obtain ⟨rows, len, hfind, hrows, hle, hdvd⟩ :=
        findFineGrained_ok maxLength hq.hash_pos hbs hq.hash_dvd halign
      exact ⟨_, rows, len, resolve_fine hsupports hfine, .inl ⟨hfine, _, rfl, hfind⟩, hrows, hle,
        Nat.dvd_trans hq.dropUnit_dvd.2 hdvd⟩
    · obtain ⟨view, hview, hread⟩ := resolve_view hq.hash_pos hbs hq.hash_dvd hfine
      refine ⟨view, _, _, hview, .inr ⟨hfine, rfl⟩,
        coveredTo_cachedRun hbs hq.hash_dvd _ hread.sliceFrom, cachedRun_take_mul_le _ _ _,
        Nat.dvd_mul_left_of_dvd hq.dropUnit_dvd.1 _⟩
  obtain ⟨view, rows, len, hview, hrows, hcov, hle, hunit⟩ := hcover
  obtain ⟨rows', len', htrim, hfound⟩ := trimHit_found hq hkind hcov hle hunit dropEagleBlock
  refine ⟨rows', len', ?_, hfound⟩
  unfold findLongestCacheHit
  simp only [hkind, SpecKind.isFullAttention, Bool.true_or, hsize]
  refine bind_eq_ok.mpr ⟨(), pyAssert_ok.mpr (by simp), bind_eq_ok.mpr ⟨view, hview,
    bind_eq_ok.mpr ⟨(rows, len), ?_, congrArg Except.ok htrim⟩⟩⟩
  rcases hrows with ⟨hfine, hashes, rfl, hfind⟩ | ⟨hfine, hrun⟩
  · rw [if_pos hfine]
    exact hfind
  · rw [if_neg hfine, hrun]

end FullAttentionManager

end VllmAmpere
