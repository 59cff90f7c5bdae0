import VllmAmpere.CacheHitSpecs

/-! The sliding-window finder: the scan from the right, the window it stops at and
the pops that follow it. -/

open List

namespace VllmAmpere

namespace SlidingWindowManager

open CacheHitQuery

variable {q : CacheHitQuery} {maxLength : Nat}

/-- The state of the window scan: null blocks still to visit, then the current
run of cached blocks, whose end is aligned once the EAGLE block is dropped. -/
structure WindowRun (q : CacheHitQuery) (dropEagleBlock : Bool) (i num total : Nat)
    (rows : List BlockRow) : Prop where
  length : rows.length = total
  le : i + num ≤ total
  before : ∀ j < i, rows[j]? = some q.nullRow
  run : ∀ j row, i ≤ j → j < i + num → rows[j]? = some row →
    q.CachedAt ((j + 1) * q.kvCacheSpec.blockSize) row
  aligned : 0 < num → q.alignmentTokens ∣
    (if dropEagleBlock then i + num - 1 else i + num) * q.kvCacheSpec.blockSize

variable {dropEagleBlock : Bool} {rows : List BlockRow}

theorem WindowRun.restart {i num total : Nat}
    (h : WindowRun q dropEagleBlock (i + 1) num total rows) :
    WindowRun q dropEagleBlock i 0 total rows where
  length := h.length
  le := by have := h.le; omega
  before j hj := h.before j (by omega)
  run j row hle hlt := by omega
  aligned hpos := by omega

theorem WindowRun.extend {i num total : Nat}
    {cached : BlockRow} (h : WindowRun q dropEagleBlock (i + 1) num total rows)
    (hcached : q.CachedAt ((i + 1) * q.kvCacheSpec.blockSize) cached)
    (hstart : num = 0 → q.alignmentTokens ∣
      (if dropEagleBlock then i else i + 1) * q.kvCacheSpec.blockSize) :
    WindowRun q dropEagleBlock i (num + 1) total (rows.set i cached) where
  length := by rw [length_set, h.length]
  le := by have := h.le; omega
  before j hj := by
    rw [getElem?_set_ne (by omega)]
    exact h.before j (by omega)
  run j row hle hlt hj := by
    by_cases hji : j = i
    · subst hji
      have hlen : j < rows.length := by
        have := h.le
        have := h.length
        omega
      rw [getElem?_set_self hlen, Option.some.injEq] at hj
      exact hj ▸ hcached
    · rw [getElem?_set_ne (by omega)] at hj
      exact h.run j row (by omega) (by omega) hj
  aligned _ := by
    by_cases hnum : num = 0
    · subst hnum
      simpa using hstart rfl
    · have := h.aligned (by omega)
      rwa [show i + 1 + num = i + (num + 1) by omega] at this

theorem WindowRun.trim {i num total : Nat} (h : WindowRun q dropEagleBlock i num total rows) :
    WindowRun q dropEagleBlock i num (i + num) (rows.take (i + num)) where
  length := by rw [length_take, h.length]; exact Nat.min_eq_left h.le
  le := Nat.le_refl _
  before j hj := by
    rw [getElem?_take, if_pos (by omega)]
    exact h.before j hj
  run j row hle hlt hj := by
    rw [getElem?_take, if_pos hlt] at hj
    exact h.run j row hle hlt hj
  aligned := h.aligned

theorem searchWindow_ok {view : BlockHashList} (need : Nat) {total : Nat}
    (hitem : ∀ j < total, ∃ blockHash, view.getItem j = .ok blockHash)
    (hcached : ∀ j blockHash row, view.getItem j = .ok blockHash →
    q.getCachedBlock blockHash = some row → q.CachedAt ((j + 1) * q.kvCacheSpec.blockSize) row)
    {i num : Nat} (h : WindowRun q dropEagleBlock i num total rows) (hnum : num < max need 1) :
    ∃ matchFound num' rows' i' total',
    searchWindow q view dropEagleBlock need i num rows = .ok (matchFound, num', rows') ∧
    WindowRun q dropEagleBlock i' num' total' rows' ∧ i' + num' ≤ i + num ∧
    if matchFound then num' = max need 1 ∧ total' = i' + num' else num' < max need 1 ∧ i' = 0 := by
  induction i generalizing num rows with
  | zero => exact ⟨false, num, rows, 0, total, rfl, h, Nat.le_refl _, hnum, rfl⟩
  | succ i ih =>
    have ⟨blockHash, hget⟩ := hitem i (by have := h.le; omega)
    have hskip : ∃ matchFound num' rows' i' total',
        searchWindow q view dropEagleBlock need i 0 rows = .ok (matchFound, num', rows') ∧
        WindowRun q dropEagleBlock i' num' total' rows' ∧ i' + num' ≤ i + 1 + num ∧
        if matchFound then num' = max need 1 ∧ total' = i' + num'
        else num' < max need 1 ∧ i' = 0 := by
      have ⟨found, num', rows', i', total', hr, hrun, hle, hend⟩ :=
        ih h.restart (by omega)
      exact ⟨found, num', rows', i', total', hr, hrun, by omega, hend⟩
    rw [searchWindow, hget]
    simp only [bind, Except.bind]
    cases hc : q.getCachedBlock blockHash with
    | none => exact hskip
    | some cached =>
      simp only
      by_cases hmis : num = 0 ∧ q.kvCacheSpec.blockSize ≠ q.alignmentTokens ∧
          (if dropEagleBlock then i else i + 1) * q.kvCacheSpec.blockSize %
            q.alignmentTokens ≠ 0
      · rw [if_pos hmis]
        have hz := hmis.1
        subst hz
        exact hskip
      · rw [if_neg hmis]
        have hstart : num = 0 → q.alignmentTokens ∣
            (if dropEagleBlock then i else i + 1) * q.kvCacheSpec.blockSize := by
          intro hz
          by_cases hsame : q.kvCacheSpec.blockSize = q.alignmentTokens
          · exact hsame ▸ Nat.dvd_mul_left _ _
          · apply Nat.dvd_of_mod_eq_zero
            by_contra hne
            exact hmis ⟨hz, hsame, hne⟩
        have hext := h.extend (hcached i blockHash cached hget hc) hstart
        split
        · exact ⟨true, num + 1, _, i, i + (num + 1), rfl, hext.trim, by omega, by omega, rfl⟩
        · have ⟨found, num', rows', i', total', hr, hrun, hle, hend⟩ := ih hext (by omega)
          exact ⟨found, num', rows', i', total', hr, hrun, by omega, hend⟩

theorem servesRows_of_run {window extra i num : Nat}
    (hkind : q.kvCacheSpec.kind = .slidingWindow window extra)
    (h : WindowRun q dropEagleBlock i num (i + num) rows)
    (hnum : num = cdiv (window - 1) q.kvCacheSpec.blockSize ∨
    cdiv (window - 1) q.kvCacheSpec.blockSize = 0 ∧ num = 1 ∨
    i = 0 ∧ num < cdiv (window - 1) q.kvCacheSpec.blockSize ∨ i + num = 0) :
    q.ServesRows q.kvCacheSpec.kind q.kvCacheSpec.blockSize
    (rows.length * q.kvCacheSpec.blockSize) rows := by
  have hbs := q.kvCacheSpec.blockSize_pos
  constructor
  · rw [cdiv_mul_self hbs]
  · intro j row hj
    have hjlt : j < i + num := by
      rw [← h.length]
      exact (List.getElem?_eq_some_iff.mp hj).1
    have hwindow : rows.length * q.kvCacheSpec.blockSize <
        (j + 1) * q.kvCacheSpec.blockSize + (window - 1) ↔
        i + num - (j + 1) < cdiv (window - 1) q.kvCacheSpec.blockSize := by
      rw [lt_cdiv_iff hbs, h.length, Nat.sub_mul]
      have := Nat.mul_le_mul_right q.kvCacheSpec.blockSize (show j + 1 ≤ i + num from hjlt)
      omega
    rw [hkind]
    simp only [ServesEntry, hwindow]
    by_cases hij : i ≤ j
    · have hat := h.run j row hij hjlt hj
      split
      · exact hat
      · rename_i hout
        have hlast : j + 1 = i + num := by omega
        have hw : window ≤ 1 := by
          have := (cdiv_le_iff (a := window - 1) (c := 0) hbs).mp (by omega)
          omega
        rw [h.length, ← hlast]
        exact Or.inr ⟨hw, rfl, hat⟩
    · rw [if_neg (by omega)]
      rw [h.before j (by omega), Option.some.injEq] at hj
      exact Or.inl hj.symm

theorem WindowRun.prefix {num m total : Nat}
    (h : WindowRun q dropEagleBlock 0 num total rows) (hm : m ≤ num)
    (haligned : q.alignmentTokens ∣ m * q.kvCacheSpec.blockSize) :
    WindowRun q false 0 m (0 + m) (rows.take m) where
  length := by
    have := h.le
    rw [length_take, h.length]
    omega
  le := Nat.le_refl _
  before j hj := by omega
  run j row hle hlt hj := by
    rw [getElem?_take, if_pos (by omega)] at hj
    exact h.run j row hle (by omega) hj
  aligned _ := by simpa using haligned

theorem WindowRun.dropLast {i num : Nat} (h : WindowRun q true i (num + 1) (i + (num + 1)) rows) :
    WindowRun q false i num (i + num) rows.dropLast where
  length := by
    rw [length_dropLast, h.length]
    omega
  le := Nat.le_refl _
  before j hj := by
    have := h.length
    rw [getElem?_dropLast, if_pos (by omega)]
    exact h.before j hj
  run j row hle hlt hj := by
    rw [getElem?_dropLast] at hj
    split at hj
    · exact h.run j row hle (by omega) hj
    · simp at hj
  aligned _ := by simpa using h.aligned (by omega)

/-- What the steps after the scan must leave. -/
structure WindowHit (q : CacheHitQuery) (dropEagleBlock : Bool) (maxNumBlocks : Nat)
    (rows : List BlockRow) : Prop where
  aligned : q.alignmentTokens ∣ rows.length * q.kvCacheSpec.blockSize
  le : rows.length + (if dropEagleBlock ∧ 0 < rows.length then 1 else 0) ≤ maxNumBlocks
  serves : q.ServesRows q.kvCacheSpec.kind q.kvCacheSpec.blockSize
    (rows.length * q.kvCacheSpec.blockSize) rows
  lookahead : dropEagleBlock → 0 < rows.length →
    ∃ row, q.CachedAt ((rows.length + 1) * q.kvCacheSpec.blockSize) row

def dropped (q : CacheHitQuery) (dropEagleBlock : Bool) (rows : List BlockRow) : List BlockRow :=
  if dropEagleBlock ∧ rows ≠ [] then q.popUnaligned q.kvCacheSpec.blockSize rows.dropLast else rows

theorem windowHit_of_match {window extra i num maxNumBlocks : Nat}
    (hkind : q.kvCacheSpec.kind = .slidingWindow window extra)
    (h : WindowRun q dropEagleBlock i num (i + num) rows) (hle : i + num ≤ maxNumBlocks)
    (hnum : num = max (contiguousBlocksForHit window q.kvCacheSpec.blockSize dropEagleBlock) 1) :
    WindowHit q dropEagleBlock maxNumBlocks (dropped q dropEagleBlock rows) := by
  cases dropEagleBlock with
  | false =>
    simp only [contiguousBlocksForHit, Bool.false_eq_true, if_false, Nat.add_zero] at hnum
    have hrows : dropped q false rows = rows := by simp [dropped]
    rw [hrows]
    have haligned := h.aligned (by omega)
    refine ⟨?_, by simp [h.length, hle], servesRows_of_run hkind h (by omega), by simp⟩
    rw [h.length]
    simpa using haligned
  | true =>
    simp only [contiguousBlocksForHit, if_true] at hnum
    obtain rfl : num = cdiv (window - 1) q.kvCacheSpec.blockSize + 1 := by omega
    have hrun := h.dropLast
    have haligned : q.alignmentTokens ∣ rows.dropLast.length * q.kvCacheSpec.blockSize := by
      rw [hrun.length]
      exact h.aligned (by omega)
    have hne : rows ≠ [] := by
      intro hnil
      have hlen := h.length
      rw [hnil] at hlen
      simp at hlen
    have hrows : dropped q true rows = rows.dropLast := by
      rw [dropped, if_pos ⟨rfl, hne⟩]
      exact popUnaligned_of_dvd haligned
    rw [hrows]
    refine ⟨haligned, ?_, servesRows_of_run hkind hrun (.inl rfl), ?_⟩
    · rw [hrun.length]
      split <;> omega
    · intro _ _
      rw [hrun.length]
      have hin : i + cdiv (window - 1) q.kvCacheSpec.blockSize < rows.length := by
        rw [h.length]
        omega
      exact ⟨_, h.run _ _ (by omega) (by omega) (getElem?_eq_getElem hin)⟩

theorem windowHit_of_run {window extra num total maxNumBlocks : Nat}
    (hkind : q.kvCacheSpec.kind = .slidingWindow window extra)
    (h : WindowRun q dropEagleBlock 0 num total rows) (hle : num ≤ maxNumBlocks)
    (hnum : num < max (contiguousBlocksForHit window q.kvCacheSpec.blockSize dropEagleBlock) 1) :
    WindowHit q dropEagleBlock maxNumBlocks
    (dropped q dropEagleBlock (q.popUnaligned q.kvCacheSpec.blockSize (rows.take num))) := by
  have hlen : (rows.take num).length = num := by
    have := h.le
    rw [length_take, h.length]
    omega
  have ⟨m, hm, hpop, haligned⟩ := popUnaligned_eq_take (q := q) q.kvCacheSpec.blockSize
    (rows.take num)
  rw [hlen] at hm
  rw [take_take, Nat.min_eq_left hm] at hpop
  have hpre := fun k (hk : k ≤ num) hal => h.prefix (m := k) hk hal
  have hlenk : ∀ k ≤ num, (rows.take k).length = k := by
    intro k hk
    have := h.le
    rw [length_take, h.length]
    omega
  rw [hpop]
  have hend : ∃ k ≤ num, dropped q dropEagleBlock (rows.take m) = rows.take k ∧
      q.alignmentTokens ∣ k * q.kvCacheSpec.blockSize ∧
      (dropEagleBlock → k = 0 ∨ k < num) := by
    by_cases hdrop : dropEagleBlock ∧ rows.take m ≠ []
    · have hmpos : 0 < m := by
        have := length_pos_of_ne_nil hdrop.2
        rwa [hlenk m hm] at this
      have hlast : (rows.take m).dropLast = rows.take (m - 1) := by
        rw [dropLast_eq_take, hlenk m hm, take_take]
        congr 1
        omega
      have ⟨k, hk, hpopk, halk⟩ := popUnaligned_eq_take (q := q) q.kvCacheSpec.blockSize
        (rows.take (m - 1))
      rw [hlenk (m - 1) (by omega)] at hk
      refine ⟨k, by omega, ?_, halk, fun _ => .inr (by omega)⟩
      rw [dropped, if_pos hdrop, hlast, hpopk, take_take, Nat.min_eq_left hk]
    · refine ⟨m, hm, by rw [dropped, if_neg hdrop], haligned, fun hd => .inl ?_⟩
      have hnil : rows.take m = [] := by
        by_contra hne
        exact hdrop ⟨hd, hne⟩
      have := hlenk m hm
      rw [hnil] at this
      simpa using this.symm
  have ⟨k, hk, hrows, hal, hdropk⟩ := hend
  rw [hrows]
  have hrun := hpre k hk hal
  have hshort : 0 + k = 0 ∨ k < cdiv (window - 1) q.kvCacheSpec.blockSize := by
    unfold contiguousBlocksForHit at hnum
    cases dropEagleBlock with
    | false =>
      simp only [Bool.false_eq_true, if_false, Nat.add_zero] at hnum
      omega
    | true =>
      simp only [if_true] at hnum
      have := hdropk rfl
      omega
  refine ⟨?_, ?_, servesRows_of_run hkind hrun (by omega), ?_⟩
  · rw [hlenk k hk]
    exact hal
  · rw [hlenk k hk]
    split
    · rename_i hd
      have := hdropk hd.1
      omega
    · omega
  · intro hd hpos
    rw [hlenk k hk] at hpos ⊢
    have hklt : k < rows.length := by
      have := hdropk hd
      have := h.le
      rw [h.length]
      omega
    have := hdropk hd
    exact ⟨_, h.run _ _ (Nat.zero_le _) (by omega) (getElem?_eq_getElem hklt)⟩

theorem WindowHit.length_le
    (h : WindowHit q dropEagleBlock (maxLength / q.kvCacheSpec.blockSize) rows) :
    rows.length * q.kvCacheSpec.blockSize ≤
    maxLength - if dropEagleBlock then q.kvCacheSpec.blockSize else 0 := by
  have hmul := Nat.mul_le_mul_right q.kvCacheSpec.blockSize h.le
  have hmax := Nat.div_mul_le_self maxLength q.kvCacheSpec.blockSize
  rw [Nat.add_mul] at hmul
  by_cases hpos : 0 < rows.length
  · simp only [hpos, and_true] at hmul
    cases dropEagleBlock <;> simp at hmul ⊢ <;> omega
  · rw [Nat.eq_zero_of_not_pos hpos, Nat.zero_mul]
    exact Nat.zero_le _

/-- A lookup: the scan with the view it reads, and what is returned. -/
structure Lookup (q : CacheHitQuery) (window maxLength : Nat) (dropEagleBlock : Bool)
    (view : BlockHashList) (matchFound : Bool) (i num total : Nat) (rows : List BlockRow) :
    Prop where
  reads : BlockView q q.kvCacheSpec.blockSize view
  search : searchWindow q view dropEagleBlock
    (contiguousBlocksForHit window q.kvCacheSpec.blockSize dropEagleBlock)
    (maxLength / q.kvCacheSpec.blockSize) 0
    (List.replicate (maxLength / q.kvCacheSpec.blockSize) q.nullRow) =
      .ok (matchFound, num, rows)
  run : WindowRun q dropEagleBlock i num total rows
  le : i + num ≤ maxLength / q.kvCacheSpec.blockSize
  ends : if matchFound then
      num = max (contiguousBlocksForHit window q.kvCacheSpec.blockSize dropEagleBlock) 1 ∧
        total = i + num
    else num < max (contiguousBlocksForHit window q.kvCacheSpec.blockSize dropEagleBlock) 1 ∧ i = 0

def hitRows (q : CacheHitQuery) (dropEagleBlock matchFound : Bool) (num : Nat)
    (rows : List BlockRow) : List BlockRow :=
  dropped q dropEagleBlock (if matchFound then rows
    else q.popUnaligned q.kvCacheSpec.blockSize (rows.take num))

theorem Compatible.window_blocks (hq : q.Compatible) {window extra : Nat}
    (hkind : q.kvCacheSpec.kind = .slidingWindow window extra) :
    q.dcpWorldSize = 1 ∧ q.pcpWorldSize = 1 ∧ q.blockSize = q.kvCacheSpec.blockSize ∧
    q.kvCacheSpec.blockSize ∣ q.alignmentTokens := by
  have hworld : q.dcpWorldSize = 1 ∧ q.pcpWorldSize = 1 := by
    rcases hq.world with h | h
    · simp [hkind, SpecKind.isFullAttention] at h
    · exact h
  have hsize : q.blockSize = q.kvCacheSpec.blockSize := by
    rw [blockSize, hworld.1, Nat.mul_one]
  refine ⟨hworld.1, hworld.2, hsize, ?_⟩
  rcases hq.alignment with h | h
  · rwa [hsize] at h
  · simp [hkind, SpecKind.supportsFineGrainedHashLookup, SpecKind.isFullAttention,
      SpecKind.isMamba] at h

theorem findLongestCacheHit_lookup (hq : q.Compatible) {window extra : Nat}
    (hkind : q.kvCacheSpec.kind = .slidingWindow window extra)
    (hlen : maxLength / q.blockPool.hashBlockSize ≤ q.blockHashes.length) (dropEagleBlock : Bool) :
    ∃ view matchFound i num total rows,
    Lookup q window maxLength dropEagleBlock view matchFound i num total rows ∧
    findLongestCacheHit q maxLength dropEagleBlock =
    .ok (hitRows q dropEagleBlock matchFound num rows,
    (hitRows q dropEagleBlock matchFound num rows).length * q.kvCacheSpec.blockSize) := by
  obtain ⟨hdcp, hpcp, hsize, hdvd⟩ := Compatible.window_blocks hq hkind
  have hbs := q.kvCacheSpec.blockSize_pos
  have hhash := hsize ▸ hq.hash_dvd
  obtain ⟨view, hview, hread⟩ := resolve_view hq.hash_pos hbs hhash
    (fun hfine => absurd (Nat.le_of_dvd hq.alignment_pos hdvd) (by omega))
  have hrun : WindowRun q dropEagleBlock (maxLength / q.kvCacheSpec.blockSize) 0
      (maxLength / q.kvCacheSpec.blockSize)
      (List.replicate (maxLength / q.kvCacheSpec.blockSize) q.nullRow) :=
    ⟨length_replicate, Nat.le_refl _, fun j hj => by simp [hj],
      fun j row hle hlt => by omega, fun h => absurd h (Nat.lt_irrefl 0)⟩
  obtain ⟨matchFound, num, rows, i, total, hsearch, hend, hle, hresult⟩ := searchWindow_ok
    (contiguousBlocksForHit window q.kvCacheSpec.blockSize dropEagleBlock)
    (fun j hj => hread.getItem_ok hq.hash_pos hbs hhash hlen hj)
    (fun j blockHash row hget hrow => hread.cachedAt hbs hhash hget hrow) hrun (by omega)
  refine ⟨view, matchFound, i, num, total, rows, ⟨hread, hsearch, hend, hle, hresult⟩, ?_⟩
  unfold findLongestCacheHit
  simp only [hkind]
  exact bind_eq_ok.mpr ⟨(), pyAssert_ok.mpr hdcp, bind_eq_ok.mpr ⟨(), pyAssert_ok.mpr hpcp,
    bind_eq_ok.mpr ⟨view, hview, bind_eq_ok.mpr ⟨(matchFound, num, rows), hsearch, rfl⟩⟩⟩⟩

theorem findLongestCacheHit_found (hq : q.Compatible) {window extra : Nat}
    (hkind : q.kvCacheSpec.kind = .slidingWindow window extra)
    (hlen : maxLength / q.blockPool.hashBlockSize ≤ q.blockHashes.length) (dropEagleBlock : Bool) :
    ∃ rows len, findLongestCacheHit q maxLength dropEagleBlock = .ok (rows, len) ∧
    q.Found maxLength dropEagleBlock rows len := by
  obtain ⟨-, -, hsize, hdvd⟩ := Compatible.window_blocks hq hkind
  have hunit : q.dropUnit = q.kvCacheSpec.blockSize := by
    rw [dropUnit, hsize]
    exact Nat.min_eq_right (Nat.le_of_dvd hq.alignment_pos hdvd)
  obtain ⟨view, matchFound, i, num, total, rows, hlookup, hfind⟩ :=
    findLongestCacheHit_lookup hq hkind hlen dropEagleBlock
  have hhit : WindowHit q dropEagleBlock (maxLength / q.kvCacheSpec.blockSize)
      (hitRows q dropEagleBlock matchFound num rows) := by
    have hends := hlookup.ends
    cases matchFound with
    | true =>
      simp only [if_true] at hends
      obtain ⟨hnum, rfl⟩ := hends
      exact windowHit_of_match hkind hlookup.run hlookup.le hnum
    | false =>
      simp only [Bool.false_eq_true, if_false] at hends
      obtain ⟨hnum, rfl⟩ := hends
      exact windowHit_of_run hkind hlookup.run (by have := hlookup.le; omega) hnum
  refine ⟨_, _, hfind, ⟨hhit.aligned, ?_, fun _ => by rw [hsize]; exact hhit.serves, ?_⟩⟩
  · rw [hunit]
    exact hhit.length_le
  · intro hd hpos
    obtain ⟨row, hrow⟩ := hhit.lookahead hd (Nat.pos_of_mul_pos_right hpos)
    refine ⟨_, row, hrow, Nat.le_of_eq ?_, Nat.le_of_eq ?_⟩
    · rw [hunit, Nat.add_mul, Nat.one_mul]
    · rw [hsize, Nat.mul_div_cancel _ q.kvCacheSpec.blockSize_pos]

end SlidingWindowManager

end VllmAmpere
