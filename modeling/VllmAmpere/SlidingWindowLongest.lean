import Mathlib.Order.Lattice.Nat
import VllmAmpere.HybridCacheHit

/-! The sliding-window finder against the longest length its cache can serve: the scan
reaches every run it could stop at, and only the pops around the EAGLE drop lose a length. -/

open List

namespace VllmAmpere

namespace CacheHitQuery

variable (q : CacheHitQuery)

/-- All groups of the query have block `j` cached. -/
def BlockCached (j : Nat) : Prop := ∃ row, q.CachedAt ((j + 1) * q.kvCacheSpec.blockSize) row

/-- A positive length whose last window is cached, with the block behind it where an EAGLE
block is dropped. -/
structure Servable (window maxLength : Nat) (dropEagleBlock : Bool) (len : Nat) : Prop where
  aligned : q.alignmentTokens ∣ len
  le : len + (if dropEagleBlock then q.kvCacheSpec.blockSize else 0) ≤ maxLength
  window : ∀ j, (j + 1) * q.kvCacheSpec.blockSize ≤ len →
    len < (j + 1) * q.kvCacheSpec.blockSize + (window - 1) → q.BlockCached j
  lookahead : dropEagleBlock → q.BlockCached (len / q.kvCacheSpec.blockSize)

def servableLengths (window maxLength : Nat) (dropEagleBlock : Bool) : Set Nat :=
  {len | len = 0 ∨ q.Servable window maxLength dropEagleBlock len}

theorem exists_longest (window maxLength : Nat) (dropEagleBlock : Bool) :
    ∃ len, IsGreatest (q.servableLengths window maxLength dropEagleBlock) len := by
  have hbound : BddAbove (q.servableLengths window maxLength dropEagleBlock) := by
    refine ⟨maxLength, fun len hlen => ?_⟩
    cases hlen with
    | inl hzero => omega
    | inr hserves =>
      have := hserves.le
      omega
  refine ⟨_, Nat.sSup_mem ⟨0, Or.inl rfl⟩ hbound, fun len hlen => ?_⟩
  exact le_csSup hbound hlen

end CacheHitQuery

namespace SlidingWindowManager

open CacheHitQuery

variable {q : CacheHitQuery} {maxLength : Nat}

variable {view : BlockHashList} {dropEagleBlock matchFound : Bool} {rows : List BlockRow}

/-- The scan does not pass block `stop` by when a run could start there. -/
theorem searchWindow_reaches {need stop : Nat}
    (hcached : ∀ j ≤ stop, stop < j + max need 1 → ∃ blockHash row,
    view.getItem j = .ok blockHash ∧ q.getCachedBlock blockHash = some row)
    (haligned : q.alignmentTokens ∣
    (if dropEagleBlock then stop else stop + 1) * q.kvCacheSpec.blockSize)
    {i num : Nat} (hnum : num < max need 1) (hstop : stop < i + num)
    (hlen : i + num ≤ rows.length) {num' : Nat} {rows' : List BlockRow}
    (h : searchWindow q view dropEagleBlock need i num rows = .ok (matchFound, num', rows')) :
    stop < if matchFound then rows'.length else num' := by
  induction i generalizing num rows with
  | zero =>
    simp only [searchWindow, Except.ok.injEq, Prod.mk.injEq] at h
    obtain ⟨rfl, rfl, rfl⟩ := h
    simpa using hstop
  | succ i ih =>
    have hitem : i ≤ stop → ∃ blockHash row,
        view.getItem i = .ok blockHash ∧ q.getCachedBlock blockHash = some row :=
      fun hle => hcached i hle (by omega)
    rw [searchWindow] at h
    cases hget : view.getItem i with
    | error e =>
      rw [hget] at h
      cases h
    | ok blockHash =>
      rw [hget] at h
      simp only [bind, Except.bind] at h
      cases hc : q.getCachedBlock blockHash with
      | none =>
        rw [hc] at h
        have hbefore : stop < i := by
          by_contra hle
          obtain ⟨found, row, hfound, hrow⟩ := hitem (by omega)
          rw [hget, Except.ok.injEq] at hfound
          rw [← hfound, hc] at hrow
          cases hrow
        exact ih (by omega) (by omega) (by omega) h
      | some cached =>
        rw [hc] at h
        simp only at h
        by_cases hmis : num = 0 ∧ q.kvCacheSpec.blockSize ≠ q.alignmentTokens ∧
            (if dropEagleBlock then i else i + 1) * q.kvCacheSpec.blockSize %
              q.alignmentTokens ≠ 0
        · rw [if_pos hmis] at h
          have hbefore : stop ≠ i := by
            rintro rfl
            exact hmis.2.2 (Nat.mod_eq_zero_of_dvd haligned)
          exact ih (by omega) (by omega) (by omega) h
        · rw [if_neg hmis] at h
          by_cases hfull : need ≤ num + 1
          · rw [if_pos hfull] at h
            simp only [Except.ok.injEq, Prod.mk.injEq] at h
            obtain ⟨rfl, rfl, rfl⟩ := h
            rw [if_pos rfl, length_take, length_set]
            omega
          · rw [if_neg hfull] at h
            exact ih (by omega) (by omega) (by rw [length_set]; omega) h

/-- The blocks a scan needs to stop at a run that ends with block `stop`. -/
def CachedTail (q : CacheHitQuery) (window : Nat) (dropEagleBlock : Bool) (stop : Nat) : Prop :=
  ∀ j ≤ stop, stop < j + max (contiguousBlocksForHit window q.kvCacheSpec.blockSize
    dropEagleBlock) 1 → q.BlockCached j

/-- The tokens of a hit whose scan stops with block `stop`. -/
def tailTokens (q : CacheHitQuery) (dropEagleBlock : Bool) (stop : Nat) : Nat :=
  (if dropEagleBlock then stop else stop + 1) * q.kvCacheSpec.blockSize

theorem CachedTail.servable {window stop : Nat} (h : CachedTail q window dropEagleBlock stop)
    (hstop : stop < maxLength / q.kvCacheSpec.blockSize)
    (haligned : q.alignmentTokens ∣ tailTokens q dropEagleBlock stop) :
    q.Servable window maxLength dropEagleBlock (tailTokens q dropEagleBlock stop) := by
  have hbs := q.kvCacheSpec.blockSize_pos
  have hroom : (stop + 1) * q.kvCacheSpec.blockSize ≤ maxLength :=
    (Nat.le_div_iff_mul_le hbs).mp hstop
  have hinside : ∀ len j, (j + 1) * q.kvCacheSpec.blockSize ≤ len * q.kvCacheSpec.blockSize →
      len * q.kvCacheSpec.blockSize < (j + 1) * q.kvCacheSpec.blockSize + (window - 1) →
      j + 1 ≤ len ∧ len - (j + 1) < cdiv (window - 1) q.kvCacheSpec.blockSize := by
    intro len j hle hlt
    refine ⟨Nat.le_of_mul_le_mul_right hle hbs, ?_⟩
    rw [lt_cdiv_iff hbs, Nat.sub_mul]
    omega
  cases dropEagleBlock with
  | false =>
    refine ⟨haligned, by simpa [tailTokens] using hroom, fun j hle hlt => ?_, fun h => by cases h⟩
    obtain ⟨hj, hneed⟩ := hinside (stop + 1) j hle hlt
    refine h j (by omega) ?_
    simp only [contiguousBlocksForHit, Bool.false_eq_true, if_false]
    omega
  | true =>
    refine ⟨haligned, ?_, fun j hle hlt => ?_, fun _ => ?_⟩
    · rw [Nat.add_mul, Nat.one_mul] at hroom
      exact hroom
    · obtain ⟨hj, hneed⟩ := hinside stop j hle hlt
      refine h j (by omega) ?_
      simp only [contiguousBlocksForHit, if_true]
      omega
    · rw [tailTokens, if_pos rfl, Nat.mul_div_cancel _ hbs]
      exact h stop (Nat.le_refl _) (by omega)

theorem cachedTail_of_servable {window len : Nat}
    (hdvd : q.kvCacheSpec.blockSize ∣ q.alignmentTokens)
    (h : q.Servable window maxLength dropEagleBlock len) (hpos : 0 < len)
    (hlast : dropEagleBlock = false → q.BlockCached (len / q.kvCacheSpec.blockSize - 1)) :
    ∃ stop < maxLength / q.kvCacheSpec.blockSize, CachedTail q window dropEagleBlock stop ∧
    tailTokens q dropEagleBlock stop = len := by
  have hbs := q.kvCacheSpec.blockSize_pos
  obtain ⟨n, rfl⟩ : ∃ n, len = n * q.kvCacheSpec.blockSize :=
    (Nat.dvd_trans hdvd h.aligned).imp fun n hn => hn.trans (Nat.mul_comm _ _)
  have hn : 0 < n := Nat.pos_of_mul_pos_right hpos
  have hle := h.le
  have hinside : ∀ j < n, n - (j + 1) < cdiv (window - 1) q.kvCacheSpec.blockSize →
      q.BlockCached j := by
    intro j hj hneed
    refine h.window j (Nat.mul_le_mul_right _ hj) ?_
    rw [lt_cdiv_iff hbs, Nat.sub_mul] at hneed
    omega
  rw [Nat.mul_div_cancel _ hbs] at hlast
  cases dropEagleBlock with
  | false =>
    refine ⟨n - 1, ?_, fun j hj hneed => ?_, ?_⟩
    · have : n ≤ maxLength / q.kvCacheSpec.blockSize :=
        (Nat.le_div_iff_mul_le hbs).mpr (by simpa using hle)
      omega
    · simp only [contiguousBlocksForHit, Bool.false_eq_true, if_false, Nat.add_zero] at hneed
      by_cases hj' : j = n - 1
      · exact hj' ▸ hlast rfl
      · exact hinside j (by omega) (by omega)
    · rw [tailTokens, if_neg (by simp), Nat.sub_add_cancel hn]
  | true =>
    refine ⟨n, ?_, fun j hj hneed => ?_, rfl⟩
    · refine (Nat.le_div_iff_mul_le hbs).mpr ?_
      rw [Nat.succ_mul]
      simpa using hle
    · simp only [contiguousBlocksForHit, if_true] at hneed
      by_cases hj' : j = n
      · have := h.lookahead rfl
        rw [Nat.mul_div_cancel _ hbs] at this
        exact hj' ▸ this
      · exact hinside j (by omega) (by omega)

theorem Lookup.reaches (hq : q.Compatible) {window extra : Nat}
    (hkind : q.kvCacheSpec.kind = .slidingWindow window extra) {i num total : Nat}
    (h : Lookup q window maxLength dropEagleBlock view matchFound i num total rows) {stop : Nat}
    (hstop : stop < maxLength / q.kvCacheSpec.blockSize)
    (hcached : CachedTail q window dropEagleBlock stop)
    (haligned : q.alignmentTokens ∣ tailTokens q dropEagleBlock stop) : stop < i + num := by
  obtain ⟨-, -, hsize, -⟩ := Compatible.window_blocks hq hkind
  have hreads : ∀ j ≤ stop, stop < j + max (contiguousBlocksForHit window
      q.kvCacheSpec.blockSize dropEagleBlock) 1 → ∃ blockHash row,
      view.getItem j = .ok blockHash ∧ q.getCachedBlock blockHash = some row := by
    intro j hj hneed
    obtain ⟨row, -, -, blockHash, hhash, hrow⟩ := hcached j hj hneed
    exact ⟨blockHash, row, (h.reads.getItem j).trans (pyGet_ok.mpr hhash), hrow⟩
  have hreach := searchWindow_reaches hreads haligned (by omega) hstop
    (by rw [length_replicate]; omega) h.search
  have hends := h.ends
  cases matchFound with
  | true =>
    simp only [if_true] at hreach hends
    rwa [h.run.length, hends.2] at hreach
  | false =>
    simp only [Bool.false_eq_true, if_false] at hreach
    omega

theorem Lookup.cachedTail {window : Nat} {i num total : Nat}
    (h : Lookup q window maxLength dropEagleBlock view matchFound i num total rows) {stop : Nat}
    (hstop : stop < i + num) (hlast : matchFound → stop + 1 = i + num) :
    CachedTail q window dropEagleBlock stop := by
  intro j hj hneed
  have hends := h.ends
  have hi : i ≤ j := by
    cases matchFound with
    | true =>
      simp only [if_true] at hends
      have := hlast rfl
      omega
    | false =>
      simp only [Bool.false_eq_true, if_false] at hends
      omega
  have hin : j < rows.length := by
    have := h.run.le
    have := h.run.length
    omega
  exact ⟨_, h.run.run j _ hi (by omega) (getElem?_eq_getElem hin)⟩

theorem popUnaligned_length_le (blockSize : Nat) (rows : List BlockRow) :
    (q.popUnaligned blockSize rows).length ≤ rows.length := by
  obtain ⟨m, hm, hpop, -⟩ := popUnaligned_eq_take (q := q) blockSize rows
  rw [hpop, length_take]
  exact Nat.min_le_right m rows.length

theorem dropped_length_le (rows : List BlockRow) :
    (dropped q true rows).length ≤ rows.length - 1 := by
  unfold dropped
  split
  · exact (popUnaligned_length_le _ _).trans (Nat.le_of_eq length_dropLast)
  · rename_i h
    have : rows = [] := by
      by_contra hne
      exact h ⟨rfl, hne⟩
    simp [this]

theorem dropped_length (h : q.alignmentTokens ∣ (rows.length - 1) * q.kvCacheSpec.blockSize) :
    (dropped q true rows).length = rows.length - 1 := by
  unfold dropped
  split
  · rw [popUnaligned_of_dvd (by rwa [length_dropLast]), length_dropLast]
  · rename_i h
    have : rows = [] := by
      by_contra hne
      exact h ⟨rfl, hne⟩
    simp [this]

section lengths

variable {window i num total : Nat}

theorem Lookup.length_plain (h : Lookup q window maxLength false view matchFound i num total rows) :
    (hitRows q false matchFound num rows).length = i + num := by
  have hends := h.ends
  have hlen := h.run.length
  have hle := h.run.le
  have hdrop : ∀ r, dropped q false r = r := by simp [dropped]
  rw [hitRows, hdrop]
  cases matchFound with
  | true =>
    simp only [if_true] at hends ⊢
    omega
  | false =>
    simp only [Bool.false_eq_true, if_false] at hends ⊢
    obtain ⟨-, rfl⟩ := hends
    have htake : (rows.take num).length = num := by
      rw [length_take]
      omega
    have haligned : q.alignmentTokens ∣ (rows.take num).length * q.kvCacheSpec.blockSize := by
      rw [htake]
      by_cases hnum : num = 0
      · simp [hnum]
      · simpa using h.run.aligned (by omega)
    rw [popUnaligned_of_dvd haligned, htake, Nat.zero_add]

theorem Lookup.length_eagle (h : Lookup q window maxLength true view matchFound i num total rows)
    (hkeeps : matchFound ∨ q.kvCacheSpec.blockSize = q.alignmentTokens) :
    (hitRows q true matchFound num rows).length = i + num - 1 := by
  have hends := h.ends
  have hlen := h.run.length
  have hle := h.run.le
  unfold hitRows
  cases matchFound with
  | true =>
    simp only [if_true] at hends ⊢
    have hrows : rows.length = i + num := hlen.trans hends.2
    have haligned := h.run.aligned (by omega)
    simp only [if_true] at haligned
    rw [dropped_length (by rwa [hrows]), hrows]
  | false =>
    simp only [Bool.false_eq_true, if_false] at hends ⊢
    obtain ⟨-, rfl⟩ := hends
    have hsame : q.kvCacheSpec.blockSize = q.alignmentTokens :=
      hkeeps.resolve_left Bool.false_ne_true
    have hpop : q.popUnaligned q.kvCacheSpec.blockSize (rows.take num) = rows.take num := by
      rw [popUnaligned, if_pos hsame]
    have htake : (rows.take num).length = num := by
      rw [length_take]
      omega
    rw [hpop, dropped_length (hsame ▸ Nat.dvd_mul_left _ _), htake, Nat.zero_add]

theorem Lookup.length_short (hdvd : q.kvCacheSpec.blockSize ∣ q.alignmentTokens)
    (h : Lookup q window maxLength true view false i num total rows)
    (hsmall : q.kvCacheSpec.blockSize ≠ q.alignmentTokens) :
    (hitRows q true false num rows).length ≤ num - 2 := by
  have hends := h.ends
  have hlen := h.run.length
  have hle := h.run.le
  simp only [Bool.false_eq_true, if_false] at hends
  obtain ⟨-, rfl⟩ := hends
  obtain ⟨m, hm, hpop, halm⟩ := popUnaligned_eq_take (q := q) q.kvCacheSpec.blockSize
    (rows.take num)
  have htake : (rows.take num).length = num := by
    rw [length_take]
    omega
  rw [htake] at hm
  have hlt : num = 0 ∨ m < num := by
    by_contra hne
    obtain ⟨hpos, hsame⟩ : 0 < num ∧ m = num := by omega
    have hrun := h.run.aligned hpos
    simp only [if_true, Nat.zero_add] at hrun
    -- both the run and the run less one block would be aligned
    have hone := Nat.dvd_sub (hsame ▸ halm) hrun
    rw [← Nat.sub_mul, Nat.sub_sub_self hpos, Nat.one_mul] at hone
    exact hsmall (Nat.dvd_antisymm hdvd hone)
  have hbound := dropped_length_le (q := q) (rows.take m)
  unfold hitRows
  simp only [Bool.false_eq_true, if_false]
  rw [hpop, take_take, Nat.min_eq_left hm]
  rw [length_take] at hbound
  omega

end lengths

def tailLengths (q : CacheHitQuery) (window maxLength : Nat) (dropEagleBlock : Bool) : Set Nat :=
  {len | len = 0 ∨ ∃ stop < maxLength / q.kvCacheSpec.blockSize,
    CachedTail q window dropEagleBlock stop ∧
      q.alignmentTokens ∣ tailTokens q dropEagleBlock stop ∧
      tailTokens q dropEagleBlock stop = len}

section short

variable {window i num total : Nat}

theorem Lookup.short_num (hdvd : q.kvCacheSpec.blockSize ∣ q.alignmentTokens)
    (h : Lookup q window maxLength dropEagleBlock view false i num total rows)
    (hneed : max (contiguousBlocksForHit window q.kvCacheSpec.blockSize dropEagleBlock) 1 ≤
    q.alignmentTokens / q.kvCacheSpec.blockSize) :
    i = 0 ∧ num ≤ if dropEagleBlock then 1 else 0 := by
  have hbs := q.kvCacheSpec.blockSize_pos
  have hends := h.ends
  simp only [Bool.false_eq_true, if_false] at hends
  obtain ⟨hnum, rfl⟩ := hends
  refine ⟨rfl, ?_⟩
  by_contra hlong
  have haligned := h.run.aligned (by omega)
  have hunit : q.alignmentTokens =
      q.alignmentTokens / q.kvCacheSpec.blockSize * q.kvCacheSpec.blockSize :=
    (Nat.div_mul_cancel hdvd).symm
  rw [hunit, Nat.mul_dvd_mul_iff_right hbs] at haligned
  cases dropEagleBlock with
  | false =>
    rw [if_neg Bool.false_ne_true] at haligned hlong
    have := Nat.le_of_dvd (by omega) haligned
    omega
  | true =>
    rw [if_pos rfl] at haligned hlong
    have := Nat.le_of_dvd (by omega) haligned
    omega

/-- Where no run short of the window can be aligned, a lookup returns the longest run. -/
theorem Lookup.greatest_tail (hq : q.Compatible) {extra : Nat}
    (hkind : q.kvCacheSpec.kind = .slidingWindow window extra)
    (h : Lookup q window maxLength dropEagleBlock view matchFound i num total rows)
    (hneed : max (contiguousBlocksForHit window q.kvCacheSpec.blockSize dropEagleBlock) 1 ≤
    q.alignmentTokens / q.kvCacheSpec.blockSize) :
    IsGreatest (tailLengths q window maxLength dropEagleBlock)
    ((hitRows q dropEagleBlock matchFound num rows).length * q.kvCacheSpec.blockSize) := by
  obtain ⟨-, -, -, hdvd⟩ := Compatible.window_blocks hq hkind
  have hle := h.le
  have hends := h.ends
  have hreach : ∀ len ∈ tailLengths q window maxLength dropEagleBlock, len = 0 ∨
      ∃ stop < i + num, tailTokens q dropEagleBlock stop = len := by
    rintro len (hzero | ⟨stop, hstop, hcached, haligned, hlen⟩)
    · exact .inl hzero
    · exact .inr ⟨stop, h.reaches hq hkind hstop hcached haligned, hlen⟩
  cases matchFound with
  | true =>
    simp only [if_true] at hends
    have hrun : ∀ stop, stop + 1 = i + num → CachedTail q window dropEagleBlock stop :=
      fun stop hstop => h.cachedTail (by omega) fun _ => hstop
    have haligned := h.run.aligned (by omega)
    cases dropEagleBlock with
    | false =>
      rw [h.length_plain]
      rw [if_neg Bool.false_ne_true] at haligned
      have htokens : tailTokens q false (i + num - 1) = (i + num) * q.kvCacheSpec.blockSize := by
        rw [tailTokens, if_neg Bool.false_ne_true, Nat.sub_add_cancel (by omega)]
      refine ⟨.inr ⟨i + num - 1, by omega, hrun _ (by omega), by rwa [htokens], htokens⟩,
        fun len hlen => ?_⟩
      rcases hreach len hlen with rfl | ⟨stop, hstop, rfl⟩
      · exact Nat.zero_le _
      · exact Nat.mul_le_mul_right _ (by rw [if_neg Bool.false_ne_true]; omega)
    | true =>
      rw [h.length_eagle (.inl rfl)]
      rw [if_pos rfl] at haligned
      refine ⟨.inr ⟨i + num - 1, by omega, hrun _ (by omega), haligned, rfl⟩, fun len hlen => ?_⟩
      rcases hreach len hlen with rfl | ⟨stop, hstop, rfl⟩
      · exact Nat.zero_le _
      · exact Nat.mul_le_mul_right _ (by rw [if_pos rfl]; omega)
  | false =>
    obtain ⟨rfl, hnum⟩ := h.short_num hdvd hneed
    cases dropEagleBlock with
    | false =>
      rw [if_neg Bool.false_ne_true] at hnum
      rw [h.length_plain, Nat.zero_add, Nat.le_zero.mp hnum, Nat.zero_mul]
      refine ⟨.inl rfl, fun len hlen => ?_⟩
      rcases hreach len hlen with rfl | ⟨stop, hstop, -⟩
      · exact Nat.le_refl _
      · omega
    | true =>
      rw [if_pos rfl] at hnum
      have hlength : (hitRows q true false num rows).length = 0 := by
        by_cases hsame : q.kvCacheSpec.blockSize = q.alignmentTokens
        · rw [h.length_eagle (.inr hsame)]
          omega
        · have := h.length_short hdvd hsame
          omega
      rw [hlength, Nat.zero_mul]
      refine ⟨.inl rfl, fun len hlen => ?_⟩
      rcases hreach len hlen with rfl | ⟨stop, hstop, rfl⟩
      · exact Nat.le_refl _
      · obtain rfl : stop = 0 := by omega
        exact Nat.le_of_eq (Nat.zero_mul _)

end short

theorem Lookup.servable (hdvd : q.kvCacheSpec.blockSize ∣ q.alignmentTokens) {window : Nat}
    {i num total : Nat}
    (h : Lookup q window maxLength dropEagleBlock view matchFound i num total rows)
    {len : Nat} (haligned : q.alignmentTokens ∣ len * q.kvCacheSpec.blockSize)
    (hlen : (hitRows q dropEagleBlock matchFound num rows).length = len) :
    len * q.kvCacheSpec.blockSize ∈ q.servableLengths window maxLength dropEagleBlock := by
  have hle := h.le
  by_cases hzero : len = 0
  · exact .inl (by rw [hzero, Nat.zero_mul])
  · cases dropEagleBlock with
    | false =>
      have hall := h.length_plain
      have htail : CachedTail q window false (len - 1) :=
        h.cachedTail (by omega) (fun _ => by omega)
      have hstop : q.alignmentTokens ∣ _ → q.Servable window maxLength false _ :=
        htail.servable (by omega)
      simp only [tailTokens, Bool.false_eq_true, if_false, Nat.sub_add_cancel
        (Nat.pos_of_ne_zero hzero)] at hstop
      exact .inr (hstop haligned)
    | true =>
      have hbound : len ≤ i + num - 1 ∧ (matchFound → len = i + num - 1) := by
        by_cases hkeeps : matchFound ∨ q.kvCacheSpec.blockSize = q.alignmentTokens
        · have := h.length_eagle hkeeps
          exact ⟨by omega, fun _ => by omega⟩
        · obtain ⟨hnot, hsmall⟩ := not_or.mp hkeeps
          obtain rfl : matchFound = false := by simpa using hnot
          have := h.length_short hdvd hsmall
          exact ⟨by omega, fun h => absurd h Bool.false_ne_true⟩
      have htail : CachedTail q window true len :=
        h.cachedTail (by omega) (fun hm => by have := hbound.2 hm; omega)
      exact .inr (htail.servable (by omega) haligned)

theorem tailTokens_true (q : CacheHitQuery) (stop : Nat) :
    tailTokens q true stop = stop * q.kvCacheSpec.blockSize := rfl

/-- A lookup returns the longest length its cache serves exactly when, with an EAGLE drop,
blocks are as large as the alignment or that length fills the window and, without one, the
last block of that length is cached. -/
theorem findLongestCacheHit_longest_iff (hq : q.Compatible) {window extra : Nat}
    (hkind : q.kvCacheSpec.kind = .slidingWindow window extra)
    (hlen : maxLength / q.blockPool.hashBlockSize ≤ q.blockHashes.length) (dropEagleBlock : Bool) :
    ∃ rows len, findLongestCacheHit q maxLength dropEagleBlock = .ok (rows, len) ∧
    (IsGreatest (q.servableLengths window maxLength dropEagleBlock) len ↔ ∀ longest, 0 < longest →
    IsGreatest (q.servableLengths window maxLength dropEagleBlock) longest → if dropEagleBlock then
    q.kvCacheSpec.blockSize = q.alignmentTokens ∨ window - 1 ≤ longest
    else q.BlockCached (longest / q.kvCacheSpec.blockSize - 1)) := by
  have hbs := q.kvCacheSpec.blockSize_pos
  obtain ⟨-, -, -, hdvd⟩ := Compatible.window_blocks hq hkind
  obtain ⟨view, matchFound, i, num, total, rows, hlookup, hfind⟩ :=
    findLongestCacheHit_lookup hq hkind hlen dropEagleBlock
  obtain ⟨rows', len, hfind', hfound⟩ := findLongestCacheHit_found hq hkind hlen dropEagleBlock
  rw [hfind, Except.ok.injEq, Prod.mk.injEq] at hfind'
  obtain ⟨n, hn⟩ : ∃ n, (hitRows q dropEagleBlock matchFound num rows).length = n := ⟨_, rfl⟩
  rw [hn] at hfind hfind'
  refine ⟨_, _, hfind, ?_⟩
  have hmem := hlookup.servable hdvd (hfind'.2 ▸ hfound.aligned) hn
  have hle := hlookup.le
  have hends := hlookup.ends
  constructor
  · intro hgreatest longest hpos hlongest
    obtain rfl := hgreatest.unique hlongest
    have hn0 : 0 < n := Nat.pos_of_mul_pos_right hpos
    cases dropEagleBlock with
    | false =>
      have hall := hlookup.length_plain
      rw [if_neg (by simp), Nat.mul_div_cancel _ hbs]
      have htail : CachedTail q window false (n - 1) :=
        hlookup.cachedTail (by omega) (fun _ => by omega)
      exact htail _ (Nat.le_refl _) (by omega)
    | true =>
      rw [if_pos rfl, or_iff_not_imp_left]
      intro hsmall
      cases matchFound with
      | true =>
        have hall := hlookup.length_eagle (.inl rfl)
        simp only [if_true, contiguousBlocksForHit] at hends
        exact (cdiv_le_iff hbs).mp (by omega)
      | false =>
        -- the run that is left would serve one block more than what is returned
        simp only [Bool.false_eq_true, if_false] at hends
        have hshort := hlookup.length_short hdvd hsmall
        have haligned := hlookup.run.aligned (by omega)
        rw [if_pos rfl] at haligned
        have htail : CachedTail q window true (i + num - 1) :=
          hlookup.cachedTail (by omega) (fun h => absurd h Bool.false_ne_true)
        have hmore : q.Servable window maxLength true _ := htail.servable (by omega) haligned
        have hmul : (i + num - 1) * q.kvCacheSpec.blockSize ≤ n * q.kvCacheSpec.blockSize :=
          hgreatest.2 (.inr hmore)
        have := Nat.le_of_mul_le_mul_right hmul hbs
        omega
  · intro hcond
    obtain ⟨longest, hlongest⟩ := q.exists_longest window maxLength dropEagleBlock
    have hupper := hlongest.2 hmem
    suffices longest ≤ n * q.kvCacheSpec.blockSize by
      rwa [Nat.le_antisymm hupper this]
    by_cases hzero : longest = 0
    · omega
    have hpos := Nat.pos_of_ne_zero hzero
    have hlast := hcond longest hpos hlongest
    have hserves := hlongest.1.resolve_left hzero
    obtain ⟨stop, hstop, hcached, htail⟩ := cachedTail_of_servable hdvd hserves hpos
      (fun hd => by rwa [hd] at hlast)
    have hreach := hlookup.reaches hq hkind hstop hcached (htail ▸ hserves.aligned)
    rw [← htail]
    cases dropEagleBlock with
    | false =>
      have hall := hlookup.length_plain
      exact Nat.mul_le_mul_right _ (by rw [if_neg Bool.false_ne_true]; omega)
    | true =>
      have hkeeps : matchFound ∨ q.kvCacheSpec.blockSize = q.alignmentTokens := by
        rcases hlast with hsame | hfull
        · exact .inr hsame
        · cases matchFound with
          | true => exact .inl rfl
          | false =>
            simp only [Bool.false_eq_true, if_false, contiguousBlocksForHit, if_true] at hends
            rw [← htail, tailTokens_true] at hfull
            have := (cdiv_le_iff hbs).mpr hfull
            omega
      have hall := hlookup.length_eagle hkeeps
      exact Nat.mul_le_mul_right _ (by rw [if_pos rfl]; omega)

section congruence

variable (q) (pool : BlockPool)

def against : CacheHitQuery := { q with blockPool := pool }

@[simp] theorem against_kvCacheSpec : (against q pool).kvCacheSpec = q.kvCacheSpec := rfl

theorem alignedCount_against (blockSize n : Nat) :
    (against q pool).alignedCount blockSize n = q.alignedCount blockSize n := by
  induction n with
  | zero => rfl
  | succ n ih =>
    unfold alignedCount
    rw [ih]
    rfl

theorem popUnaligned_length_against {rows rows' : List BlockRow} (blockSize : Nat)
    (h : rows.length = rows'.length) : (q.popUnaligned blockSize rows).length =
    ((against q pool).popUnaligned blockSize rows').length := by
  unfold popUnaligned
  rw [alignedCount_against]
  show (if blockSize = q.alignmentTokens then rows else _).length =
    (if blockSize = q.alignmentTokens then rows' else _).length
  split
  · exact h
  · rw [length_take, length_take, h]

theorem hitRows_length_against (dropEagleBlock matchFound : Bool) (num : Nat)
    {rows rows' : List BlockRow} (h : rows.length = rows'.length) :
    (hitRows q dropEagleBlock matchFound num rows).length =
    (hitRows (against q pool) dropEagleBlock matchFound num rows').length := by
  have hdropped : ∀ {a b : List BlockRow}, a.length = b.length →
      (dropped q dropEagleBlock a).length = (dropped (against q pool) dropEagleBlock b).length := by
    intro a b hab
    have hnil : a = [] ↔ b = [] := by
      rw [← length_eq_zero_iff, ← length_eq_zero_iff, hab]
    unfold dropped
    simp only [ne_eq, hnil]
    split
    · exact popUnaligned_length_against q pool _ (by simp [hab])
    · exact hab
  refine hdropped ?_
  split
  · exact h
  · exact popUnaligned_length_against q pool _ (by simp [h])

theorem searchWindow_against {view : BlockHashList}
    (hsame : ∀ j blockHash, view.getItem j = .ok blockHash →
    (q.getCachedBlock blockHash).isSome = ((against q pool).getCachedBlock blockHash).isSome)
    (dropEagleBlock : Bool) (need i num : Nat) {rows rows' : List BlockRow}
    (hlen : rows.length = rows'.length) : (searchWindow q view dropEagleBlock need i num rows).map
    (fun r => (r.1, r.2.1, r.2.2.length)) =
    (searchWindow (against q pool) view dropEagleBlock need i num rows').map
    fun r => (r.1, r.2.1, r.2.2.length) := by
  induction i generalizing num rows rows' with
  | zero => simp [searchWindow, Except.map, hlen]
  | succ i ih =>
    unfold searchWindow
    cases hget : view.getItem i with
    | error e => rfl
    | ok blockHash =>
      simp only [bind, Except.bind]
      have hsome := hsame i blockHash hget
      cases hc : q.getCachedBlock blockHash with
      | none =>
        rw [hc] at hsome
        obtain hc' : (against q pool).getCachedBlock blockHash = none := by
          simpa using hsome.symm
        rw [hc']
        exact ih 0 hlen
      | some cached =>
        rw [hc] at hsome
        obtain ⟨cached', hc'⟩ : ∃ cached', (against q pool).getCachedBlock blockHash =
            some cached' := Option.isSome_iff_exists.mp hsome.symm
        rw [hc']
        simp only
        by_cases hmis : num = 0 ∧ q.kvCacheSpec.blockSize ≠ q.alignmentTokens ∧
            (if dropEagleBlock then i else i + 1) * q.kvCacheSpec.blockSize %
              q.alignmentTokens ≠ 0
        · have hmis' : num = 0 ∧
              (against q pool).kvCacheSpec.blockSize ≠ (against q pool).alignmentTokens ∧
              (if dropEagleBlock then i else i + 1) * (against q pool).kvCacheSpec.blockSize %
                (against q pool).alignmentTokens ≠ 0 := hmis
          rw [if_pos hmis, if_pos hmis']
          exact ih num hlen
        · have hmis' : ¬(num = 0 ∧
              (against q pool).kvCacheSpec.blockSize ≠ (against q pool).alignmentTokens ∧
              (if dropEagleBlock then i else i + 1) * (against q pool).kvCacheSpec.blockSize %
                (against q pool).alignmentTokens ≠ 0) := hmis
          rw [if_neg hmis, if_neg hmis']
          by_cases hfull : need ≤ num + 1
          · rw [if_pos hfull, if_pos hfull]
            simp [Except.map, hlen]
          · rw [if_neg hfull, if_neg hfull]
            exact ih (num + 1) (by simp [hlen])

theorem mem_of_resolve {blockSize j : Nat} {view : BlockHashList} {blockHash : BlockHash}
    (hview : q.resolve blockSize = .ok view) (hget : view.getItem j = .ok blockHash) :
    blockHash ∈ q.blockHashes := by
  unfold resolve resolveBlockHashes at hview
  have hlist : ∀ {k}, pyGet q.blockHashes k = .ok blockHash → blockHash ∈ q.blockHashes :=
    fun h => mem_of_getElem? (pyGet_ok.mp h)
  split at hview
  · cases hview
    exact hlist hget
  · simp only at hview
    split at hview
    · cases hview
      exact hlist hget
    · obtain ⟨_, -, hview⟩ := bind_eq_ok.mp hview
      cases hview
      exact hlist hget

theorem findLongestCacheHit_against {window extra : Nat}
    (hkind : q.kvCacheSpec.kind = .slidingWindow window extra)
    (hhash : pool.hashBlockSize = q.blockPool.hashBlockSize) (hsame : ∀ blockHash ∈ q.blockHashes,
    (q.getCachedBlock blockHash).isSome = ((against q pool).getCachedBlock blockHash).isSome)
    (maxLength : Nat) (dropEagleBlock : Bool) :
    (findLongestCacheHit q maxLength dropEagleBlock).map Prod.snd =
    (findLongestCacheHit (against q pool) maxLength dropEagleBlock).map Prod.snd := by
  have hresolve : (against q pool).resolve q.kvCacheSpec.blockSize =
      q.resolve q.kvCacheSpec.blockSize := by
    unfold resolve
    show resolveBlockHashes _ pool.hashBlockSize _ _ _ = _
    rw [hhash]
    rfl
  unfold findLongestCacheHit
  simp only [against_kvCacheSpec, hkind]
  show Except.map _ (pyAssert (q.dcpWorldSize = 1) _ >>= _) =
    Except.map _ (pyAssert (q.dcpWorldSize = 1) _ >>= _)
  cases pyAssert (q.dcpWorldSize = 1) "DCP not support sliding window attn now." with
  | error e => rfl
  | ok _ =>
    show Except.map _ (pyAssert (q.pcpWorldSize = 1) _ >>= _) =
      Except.map _ (pyAssert (q.pcpWorldSize = 1) _ >>= _)
    cases pyAssert (q.pcpWorldSize = 1) "PCP not support sliding window attn now." with
    | error e => rfl
    | ok _ =>
      show Except.map _ (q.resolve q.kvCacheSpec.blockSize >>= _) =
        Except.map _ ((against q pool).resolve q.kvCacheSpec.blockSize >>= _)
      rw [hresolve]
      cases hview : q.resolve q.kvCacheSpec.blockSize with
      | error e => rfl
      | ok view =>
        have hnull : (List.replicate (maxLength / q.kvCacheSpec.blockSize) q.nullRow).length =
            (List.replicate (maxLength / q.kvCacheSpec.blockSize)
              (against q pool).nullRow).length := by
          rw [length_replicate, length_replicate]
        have hscan := searchWindow_against q pool
          (fun j blockHash hget => hsame _ (mem_of_resolve q hview hget)) dropEagleBlock
          (contiguousBlocksForHit window q.kvCacheSpec.blockSize dropEagleBlock)
          (maxLength / q.kvCacheSpec.blockSize) 0 hnull
        show Except.map _ (searchWindow q view _ _ _ _ _ >>= _) =
          Except.map _ (searchWindow (against q pool) view _ _ _ _ _ >>= _)
        revert hscan
        obtain ⟨scan, hs⟩ : ∃ scan, scan = searchWindow q view dropEagleBlock
          (contiguousBlocksForHit window q.kvCacheSpec.blockSize dropEagleBlock)
          (maxLength / q.kvCacheSpec.blockSize) 0
          (List.replicate (maxLength / q.kvCacheSpec.blockSize) q.nullRow) := ⟨_, rfl⟩
        obtain ⟨scan', hs'⟩ : ∃ scan, scan = searchWindow (against q pool) view dropEagleBlock
          (contiguousBlocksForHit window q.kvCacheSpec.blockSize dropEagleBlock)
          (maxLength / q.kvCacheSpec.blockSize) 0
          (List.replicate (maxLength / q.kvCacheSpec.blockSize) (against q pool).nullRow) :=
          ⟨_, rfl⟩
        rw [← hs, ← hs']
        intro hscan
        show Except.map _ (scan >>= _) = Except.map _ (scan' >>= _)
        cases scan with
        | error e =>
          cases scan' with
          | error e' =>
            cases hscan
            rfl
          | ok r => cases hscan
        | ok r =>
          cases scan' with
          | error e => cases hscan
          | ok r' =>
            obtain ⟨matchFound, num, rows⟩ := r
            obtain ⟨matchFound', num', rows'⟩ := r'
            simp only [Except.map, Except.ok.injEq, Prod.mk.injEq] at hscan
            obtain ⟨rfl, rfl, hlen⟩ := hscan
            have hlength := hitRows_length_against q pool dropEagleBlock matchFound num hlen
            exact congrArg (fun n => Except.ok (n * q.kvCacheSpec.blockSize)) hlength

end congruence

/-- Blocks of one token under an alignment of two and a window of eight; blocks 0 to 4 are
cached. -/
def shortRun : CacheHitQuery where
  blockHashes := [[0], [1], [2], [3], [4]]
  kvCacheGroupIds := [0]
  blockPool := HybridKVCacheCoordinator.cachedPool 1 Nat.one_pos
    [(⟨[0], 0⟩, 1), (⟨[1], 0⟩, 2), (⟨[2], 0⟩, 3), (⟨[3], 0⟩, 4), (⟨[4], 0⟩, 5)]
  kvCacheSpec := (HybridKVCacheCoordinator.windowGroup 8 1 Nat.one_pos).kvCacheSpec
  alignmentTokens := 2
  dcpWorldSize := 1
  pcpWorldSize := 1

theorem shortRun_compatible : shortRun.Compatible where
  hash_pos := by decide +kernel
  dcp_pos := Nat.one_pos
  world := .inr ⟨rfl, rfl⟩
  hash_dvd := by decide +kernel
  alignment_pos := Nat.two_pos
  alignment := .inl (by decide)

theorem shortRun_cached : ∀ j < 5, shortRun.BlockCached j := by
  have hreads : ∀ j < 5, shortRun.blockPool.hashBlockSize ∣ (j + 1) * 1 ∧ 0 < (j + 1) * 1 ∧
      shortRun.blockHashes[(j + 1) * 1 / shortRun.blockPool.hashBlockSize - 1]? =
        some [UInt8.ofNat j] ∧
      shortRun.getCachedBlock [UInt8.ofNat j] = some [j + 1] := by decide +kernel
  intro j hj
  obtain ⟨hdvd, hpos, hhash, hrow⟩ := hreads j hj
  exact ⟨_, hdvd, hpos, _, hhash, hrow⟩

/-- A plain lookup finds the four tokens that the cache serves. -/
theorem shortRun_longest : ∃ rows, findLongestCacheHit shortRun 5 false = .ok (rows, 4) ∧
    IsGreatest (shortRun.servableLengths 8 5 false) 4 := by
  have hkind : shortRun.kvCacheSpec.kind = .slidingWindow 8 0 := rfl
  have hlen : 5 / shortRun.blockPool.hashBlockSize ≤ shortRun.blockHashes.length := by
    decide +kernel
  obtain ⟨rows, len, hfind, hiff⟩ :=
    findLongestCacheHit_longest_iff shortRun_compatible hkind hlen false
  have hfour : (findLongestCacheHit shortRun 5 false).map Prod.snd = .ok 4 := by decide +kernel
  rw [hfind, Except.map, Except.ok.injEq] at hfour
  obtain rfl : len = 4 := hfour
  refine ⟨rows, hfind, hiff.mpr fun longest hpos hgreatest => ?_⟩
  -- the window is longer than the request, so it holds the last block
  have hserves := hgreatest.1.resolve_left (Nat.ne_of_gt hpos)
  have hle : longest + 0 ≤ 5 := hserves.le
  rw [if_neg Bool.false_ne_true]
  refine hserves.window _ ?_ ?_
  · change (longest / 1 - 1 + 1) * 1 ≤ longest
    omega
  · change longest < (longest / 1 - 1 + 1) * 1 + 7
    omega

/-- The lookup drops its EAGLE block and returns two tokens where the cache serves four. -/
theorem shortRun_not_longest : ∃ rows, findLongestCacheHit shortRun 5 true = .ok (rows, 2) ∧
    ¬IsGreatest (shortRun.servableLengths 8 5 true) 2 := by
  refine ⟨[[1], [2]], by decide +kernel, fun hgreatest => ?_⟩
  have hserves : shortRun.Servable 8 5 true 4 := by
    refine ⟨by decide, by decide, fun j hle _ => shortRun_cached j ?_,
      fun _ => shortRun_cached 4 (by decide)⟩
    change (j + 1) * 1 ≤ 4 at hle
    omega
  exact absurd (hgreatest.2 (.inr hserves)) (by decide)

end SlidingWindowManager

end VllmAmpere
