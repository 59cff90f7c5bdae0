import VllmAmpere.ByteTilings
import VllmAmpere.RejectionKernels

/-! `PCPManager` of `v1/worker/gpu/pcp_manager.py`: the rows of a batch dealt out to the ranks of
prefill context parallelism, and the index arrays that gather the ranks' tokens and put their
hidden states back in order. An array is a function of its places. -/

open List

namespace VllmAmpere.PCPManager

open RejectionSampler (offset offset_inj offset_cons_succ)
open Tilings (Chained digit_unique)

/-- A row of `num_scheduled_tokens` and `is_prefilling`. -/
structure Query where
  queryLen : Nat
  isPrefilling : Bool

structure RankSegment where
  globalBatchReqIdx : Nat
  globalBatchSlice : Nat × Nat
  rankLocalBatchSlice : Nat × Nat

namespace RankSegment

def numTokens (s : RankSegment) : Nat := s.globalBatchSlice.2 - s.globalBatchSlice.1

def isPrefilling (batch : List Query) (s : RankSegment) : Bool :=
  batch[s.globalBatchReqIdx]?.any Query.isPrefilling

def sortKey (batch : List Query) (s : RankSegment) : Nat × Nat × Nat :=
  ((s.isPrefilling batch).toNat, s.globalBatchReqIdx, s.globalBatchSlice.1)

def keyLe (batch : List Query) (s s' : RankSegment) : Bool :=
  let a := s.sortKey batch
  let b := s'.sortKey batch
  a.1 < b.1 || a.1 == b.1 && (a.2.1 < b.2.1 || a.2.1 == b.2.1 && a.2.2 ≤ b.2.2)

/-- Segments behind each other in the rows of a rank. -/
def relocate : Nat → List RankSegment → List RankSegment
  | _, [] => []
  | rankOffset, s :: segments =>
    { s with rankLocalBatchSlice := (rankOffset, rankOffset + s.numTokens) } ::
      relocate (rankOffset + s.numTokens) segments

end RankSegment

open RankSegment

section

variable (pcpWorldSize dcpWorldSize : Nat)

def replicated (q : Query) : Bool :=
  !q.isPrefilling || decide (1 < dcpWorldSize) &&
    decide (q.queryLen ≤ (2 * pcpWorldSize - 1) * cdiv q.queryLen (2 * pcpWorldSize))

def chunkSize (q : Query) : Nat :=
  if replicated pcpWorldSize dcpWorldSize q then q.queryLen
  else cdiv q.queryLen (2 * pcpWorldSize)

def chunkIndices (rank : Nat) (q : Query) : List Nat :=
  if replicated pcpWorldSize dcpWorldSize q then [0] else [rank, 2 * pcpWorldSize - 1 - rank]

/-- Offset and length of a chunk, unless nothing is left for it. -/
def chunk (q : Query) (chunkIdx : Nat) : Option (Nat × Nat) :=
  let size := chunkSize pcpWorldSize dcpWorldSize q
  let chunkLen := min size (q.queryLen - chunkIdx * size)
  if chunkLen = 0 then none else some (chunkIdx * size, chunkLen)

variable (batch : List Query) (queryStartLoc : List Nat) (rank : Nat)

/-- The request index, query offset and length of each chunk of a rank. -/
def iterRankChunks : List (Nat × Nat × Nat) :=
  batch.zipIdx.flatMap fun (q, i) =>
    if q.queryLen = 0 then []
    else ((chunkIndices pcpWorldSize dcpWorldSize rank q).filterMap
      (chunk pcpWorldSize dcpWorldSize q)).map fun c => (i, c)

def reorderSegments (segments : List RankSegment) : List RankSegment :=
  relocate 0 (segments.mergeSort (keyLe batch))

/-- The segment of a chunk, not yet placed in its rank. -/
def segment (c : Nat × Nat × Nat) : RankSegment where
  globalBatchReqIdx := c.1
  globalBatchSlice := (queryStartLoc.getD c.1 0 + c.2.1, queryStartLoc.getD c.1 0 + c.2.1 + c.2.2)
  rankLocalBatchSlice := (0, 0)

def getRankSegments : List RankSegment :=
  reorderSegments batch (relocate 0
    ((iterRankChunks pcpWorldSize dcpWorldSize batch rank).map (segment queryStartLoc)))

end

/-- Slice assignments to an array in their order: what each writes at a place. -/
def assigned {ε α : Type} (value : ε → Nat → Option α) (entries : List ε) (array : Nat → α) :
    Nat → α :=
  entries.foldl (fun array e p => (value e p).getD (array p)) array

structure BatchLayout where
  segmentsByRank : List (List RankSegment)
  perRankNumTokens : List Nat
  paddedNumTokens : Nat
  hiddenRestoreIdx : Nat → Nat
  paddedGatherIdx : Nat → Nat
  gatheredKvWriteMask : Nat → Bool

section

variable (pcpWorldSize dcpWorldSize : Nat) (batch : List Query)

/-- A rank with a segment of it. -/
abbrev Entry := Nat × RankSegment

variable (paddedNumTokens : Nat) (e : Entry)

/-- `np.arange` over the global slice, at the padded gathered slice. -/
def gatherValue (p : Nat) : Option Nat :=
  let start := e.1 * paddedNumTokens + e.2.rankLocalBatchSlice.1
  if start ≤ p ∧ p < e.1 * paddedNumTokens + e.2.rankLocalBatchSlice.2 then
    some (e.2.globalBatchSlice.1 + (p - start))
  else none

/-- Replicated segments are written for the first rank only. -/
def skipped : Bool :=
  batch[e.2.globalBatchReqIdx]?.any (replicated pcpWorldSize dcpWorldSize) && e.1 != 0

def maskValue (p : Nat) : Option Bool :=
  if skipped pcpWorldSize dcpWorldSize batch e then none
  else (gatherValue paddedNumTokens e p).map fun _ => true

/-- `np.arange` over the padded gathered slice, at the global slice. -/
def restoreValue (t : Nat) : Option Nat :=
  if skipped pcpWorldSize dcpWorldSize batch e then none
  else if e.2.globalBatchSlice.1 ≤ t ∧ t < e.2.globalBatchSlice.2 then
    some (e.1 * paddedNumTokens + e.2.rankLocalBatchSlice.1 + (t - e.2.globalBatchSlice.1))
  else none

/-- `max` of the counts of the ranks. -/
def largest (counts : List Nat) : Nat := counts.foldr max 0

def entries (queryStartLoc : List Nat) : List Entry :=
  (List.range pcpWorldSize).flatMap fun rank =>
    (getRankSegments pcpWorldSize dcpWorldSize batch queryStartLoc rank).map fun s => (rank, s)

/-- `_build_batch_layout`; `empty` is what `np.empty` finds in the memory. -/
def buildBatchLayout (queryStartLoc : List Nat) (empty : Nat → Nat)
    (paddedNumTokens : Option Nat) : Except PyError BatchLayout :=
  let segmentsByRank := (List.range pcpWorldSize).map
    (getRankSegments pcpWorldSize dcpWorldSize batch queryStartLoc)
  let perRankNumTokens := segmentsByRank.map fun segments => (segments.map numTokens).sum
  let most := largest perRankNumTokens
  let padded := paddedNumTokens.getD most
  if padded < most then
    .error (.value <| "PCP padded token count is smaller than the largest rank-local batch: " ++
      s!"{padded} < {most}.")
  else
    let entries := entries pcpWorldSize dcpWorldSize batch queryStartLoc
    .ok {
      segmentsByRank, perRankNumTokens
      paddedNumTokens := padded
      hiddenRestoreIdx := assigned (restoreValue pcpWorldSize dcpWorldSize batch padded) entries empty
      paddedGatherIdx := assigned (gatherValue padded) entries fun _ => 0
      gatheredKvWriteMask :=
        assigned (maskValue pcpWorldSize dcpWorldSize batch padded) entries fun _ => false }

def getNumTokensForDispatch : Nat :=
  largest ((List.range pcpWorldSize).map fun rank =>
    ((iterRankChunks pcpWorldSize dcpWorldSize batch rank).map fun c => c.2.2).sum)

end

section chunks

variable {pcp dcp : Nat} {q : Query}

theorem chunkSize_pos (ranks : 0 < pcp) (some : 0 < q.queryLen) : 0 < chunkSize pcp dcp q := by
  unfold chunkSize
  split
  · exact some
  · exact (lt_cdiv_iff (by omega)).mpr (by omega)

/-- A chunk has the offsets that its size divides to its index. -/
theorem chunk_inside {k pos : Nat} {c : Nat × Nat} (h : chunk pcp dcp q k = some c) :
    c.1 ≤ pos ∧ pos < c.1 + c.2 ↔ pos < q.queryLen ∧ pos / chunkSize pcp dcp q = k := by
  unfold chunk at h
  dsimp only at h
  split at h
  · cases h
  · obtain rfl := Option.some.inj h
    rw [Nat.div_eq_iff (by omega)]
    dsimp only
    omega

theorem chunk_isSome {pos : Nat} (ranks : 0 < pcp) (inside : pos < q.queryLen) :
    ∃ c, chunk pcp dcp q (pos / chunkSize pcp dcp q) = some c := by
  have size : 0 < chunkSize pcp dcp q := chunkSize_pos ranks (by omega)
  have begins := Nat.div_mul_le_self pos (chunkSize pcp dcp q)
  unfold chunk
  dsimp only
  rw [if_neg (by omega)]
  exact ⟨_, rfl⟩

/-- Each place of a request that is not replicated belongs to the chunks of one rank. -/
theorem existsUnique_rank {pos : Nat} (ranks : 0 < pcp) (inside : pos < q.queryLen)
    (split : replicated pcp dcp q = false) :
    ∃! rank, rank < pcp ∧ pos / chunkSize pcp dcp q ∈ chunkIndices pcp dcp rank q := by
  have last : pos / chunkSize pcp dcp q < 2 * pcp := by
    apply Nat.div_lt_of_lt_mul
    have whole := @cdiv_mul_ge q.queryLen (2 * pcp) (by omega)
    simp only [chunkSize, split]
    exact Nat.lt_of_lt_of_le inside whole
  simp only [chunkIndices, split, Bool.false_eq_true, if_false, mem_cons, not_mem_nil,
    or_false]
  generalize pos / chunkSize pcp dcp q = k at last ⊢
  by_cases first : k < pcp
  · exact ⟨k, ⟨first, .inl rfl⟩, fun rank owner => by omega⟩
  · exact ⟨2 * pcp - 1 - k, ⟨by omega, .inr (by omega)⟩, fun rank owner => by omega⟩

theorem mem_chunkIndices_replicated {k rank : Nat} (whole : replicated pcp dcp q = true) :
    k ∈ chunkIndices pcp dcp rank q ↔ k = 0 := by
  simp [chunkIndices, whole]

theorem div_chunkSize_replicated {pos : Nat} (inside : pos < q.queryLen)
    (whole : replicated pcp dcp q = true) : pos / chunkSize pcp dcp q = 0 := by
  rw [chunkSize, if_pos whole]
  exact Nat.div_eq_of_lt inside

end chunks

namespace RankSegment

def tag (s : RankSegment) : Nat × Nat × Nat := (s.globalBatchReqIdx, s.globalBatchSlice)

variable {n : Nat} {segments : List RankSegment}

@[simp] theorem relocate_tag (n : Nat) (segments : List RankSegment) :
    (relocate n segments).map tag = segments.map tag := by
  induction segments generalizing n with
  | nil => rfl
  | cons s segments ih => simp [relocate, tag, ih]

theorem relocate_numTokens (n : Nat) (segments : List RankSegment) :
    (relocate n segments).map numTokens = segments.map numTokens := by
  have same := congrArg (List.map fun tag => tag.2.2 - tag.2.1) (relocate_tag n segments)
  rwa [map_map, map_map] at same

theorem relocate_chained : Chained n ((relocate n segments).map rankLocalBatchSlice)
    (n + (segments.map numTokens).sum) := by
  induction segments generalizing n with
  | nil => rfl
  | cons s segments ih =>
    refine ⟨rfl, ?_⟩
    rw [map_cons, sum_cons, ← Nat.add_assoc]
    exact ih

theorem mem_relocate {s : RankSegment} (h : s ∈ relocate n segments) : n ≤ s.rankLocalBatchSlice.1 ∧
    s.rankLocalBatchSlice.2 = s.rankLocalBatchSlice.1 + s.numTokens ∧
    s.rankLocalBatchSlice.2 ≤ n + (segments.map numTokens).sum := by
  induction segments generalizing n with
  | nil => cases h
  | cons first segments ih =>
    rw [map_cons, sum_cons]
    rcases mem_cons.mp h with rfl | later
    · exact ⟨Nat.le_refl n, rfl, by simp⟩
    · obtain ⟨behind, length, inside⟩ := ih later
      exact ⟨by omega, length, by omega⟩

/-- A place in the rows of a rank is in one of its segments. -/
theorem relocate_unique {s s' : RankSegment} {x : Nat} (h : s ∈ relocate n segments)
    (h' : s' ∈ relocate n segments)
    (inside : s.rankLocalBatchSlice.1 ≤ x ∧ x < s.rankLocalBatchSlice.2)
    (inside' : s'.rankLocalBatchSlice.1 ≤ x ∧ x < s'.rankLocalBatchSlice.2) : s = s' := by
  induction segments generalizing n with
  | nil => cases h
  | cons first segments ih =>
    rcases mem_cons.mp h with rfl | later <;> rcases mem_cons.mp h' with rfl | later'
    · rfl
    · have behind := (mem_relocate later').1
      dsimp only at inside
      omega
    · have behind := (mem_relocate later).1
      dsimp only at inside'
      omega
    · exact ih later later'

end RankSegment

section segments

variable {pcp dcp : Nat} {batch : List Query} {queryStartLoc : List Nat} {rank t : Nat}

theorem mem_iterRankChunks {c : Nat × Nat × Nat} : c ∈ iterRankChunks pcp dcp batch rank ↔
    ∃ q, batch[c.1]? = some q ∧ ∃ k ∈ chunkIndices pcp dcp rank q, chunk pcp dcp q k = some c.2 := by
  have zero : ∀ q k, q.queryLen = 0 → chunk pcp dcp q k = none := by
    intro q k empty
    simp [chunk, empty]
  obtain ⟨i, c⟩ := c
  simp only [iterRankChunks, mem_flatMap, Prod.exists, mem_zipIdx_iff_getElem?]
  constructor
  · rintro ⟨q, i', found, within⟩
    split at within
    · cases within
    · simp only [mem_map, mem_filterMap, Prod.mk.injEq] at within
      obtain ⟨_, ⟨k, owned, here⟩, rfl, rfl⟩ := within
      exact ⟨q, found, k, owned, here⟩
  · rintro ⟨q, found, k, owned, here⟩
    refine ⟨q, i, found, ?_⟩
    rw [if_neg fun empty => by simp [zero q k empty] at here]
    exact mem_map.mpr ⟨c, mem_filterMap.mpr ⟨k, owned, here⟩, rfl⟩

theorem chunk_inj {q : Query} {k k' : Nat} {c : Nat × Nat} (h : chunk pcp dcp q k = some c)
    (h' : chunk pcp dcp q k' = some c) : k = k' := by
  have some : 0 < c.2 := by
    unfold chunk at h
    dsimp only at h
    split at h
    · cases h
    · obtain rfl := Option.some.inj h
      dsimp only
      omega
  have first := (chunk_inside h).mp ⟨Nat.le_refl c.1, by omega⟩
  have second := (chunk_inside h').mp ⟨Nat.le_refl c.1, by omega⟩
  exact first.2.symm.trans second.2

theorem iterRankChunks_nodup (owner : rank < pcp) : (iterRankChunks pcp dcp batch rank).Nodup := by
  rw [iterRankChunks, nodup_flatMap]
  constructor
  · rintro ⟨q, i⟩ -
    dsimp only
    split
    · exact nodup_nil
    · refine List.Nodup.map (Prod.mk_right_injective i) (List.Nodup.filterMap ?_ ?_)
      · exact fun k k' c here here' => chunk_inj here here'
      · unfold chunkIndices
        split
        · exact nodup_singleton 0
        · exact nodup_cons.mpr ⟨by simp; omega, nodup_singleton _⟩
  · have places : (batch.zipIdx.map Prod.snd).Nodup := by
      rw [zipIdx_map_snd]
      exact nodup_range'
    refine (pairwise_map.mp places).imp fun {a b} apart c left right => ?_
    dsimp only at left right
    split at left <;> split at right <;> simp at left right
    obtain ⟨_, _, _, rfl⟩ := left
    obtain ⟨_, _, _, same⟩ := right
    exact apart (congrArg Prod.fst same).symm

theorem segments_tags : ((getRankSegments pcp dcp batch queryStartLoc rank).map tag).Perm
    ((iterRankChunks pcp dcp batch rank).map fun c => tag (segment queryStartLoc c)) := by
  rw [getRankSegments, reorderSegments, relocate_tag]
  refine ((mergeSort_perm _ _).map tag).trans ?_
  rw [relocate_tag, map_map]
  exact List.Perm.refl _

theorem segments_nodup (owner : rank < pcp) :
    ((getRankSegments pcp dcp batch queryStartLoc rank).map tag).Nodup := by
  rw [segments_tags.nodup_iff]
  refine (iterRankChunks_nodup owner).map fun c c' same => ?_
  simp only [tag, segment, Prod.mk.injEq] at same
  obtain ⟨request, start, stop⟩ := same
  rw [request] at start stop
  exact Prod.ext request (Prod.ext (by omega) (by omega))

/-- `query_start_loc` has the sums of the query lengths. -/
def IsStartLoc (batch : List Query) (queryStartLoc : List Nat) : Prop :=
  queryStartLoc = (List.range (batch.length + 1)).map (offset Query.queryLen batch)

theorem IsStartLoc.getD (starts : IsStartLoc batch queryStartLoc) {i : Nat} {q : Query}
    (found : batch[i]? = some q) : queryStartLoc.getD i 0 = offset Query.queryLen batch i := by
  have inside := (List.getElem?_eq_some_iff.mp found).1
  rw [starts, getD_eq_getElem?_getD, getElem?_map, getElem?_range (by omega)]
  rfl

/-- A global token that a segment covers, by its request and its place there. -/
structure Covers (pcp dcp : Nat) (batch : List Query) (rank t : Nat) (s : RankSegment) (q : Query)
    (pos : Nat) : Prop where
  found : batch[s.globalBatchReqIdx]? = some q
  inside : pos < q.queryLen
  place : t = offset Query.queryLen batch s.globalBatchReqIdx + pos
  owned : pos / chunkSize pcp dcp q ∈ chunkIndices pcp dcp rank q
  slice : (chunk pcp dcp q (pos / chunkSize pcp dcp q)).map (fun c =>
    (offset Query.queryLen batch s.globalBatchReqIdx + c.1,
      offset Query.queryLen batch s.globalBatchReqIdx + c.1 + c.2)) = some s.globalBatchSlice

theorem covers_of_mem (starts : IsStartLoc batch queryStartLoc) {s : RankSegment}
    (within : s ∈ getRankSegments pcp dcp batch queryStartLoc rank)
    (inside : s.globalBatchSlice.1 ≤ t ∧ t < s.globalBatchSlice.2) :
    ∃ q pos, Covers pcp dcp batch rank t s q pos := by
  obtain ⟨c, chunked, same⟩ :=
    mem_map.mp (segments_tags.mem_iff.mp (mem_map_of_mem (f := tag) within))
  obtain ⟨q, found, k, owned, here⟩ := mem_iterRankChunks.mp chunked
  simp only [tag, segment, Prod.mk.injEq, starts.getD found] at same
  obtain ⟨request, slice⟩ := same
  rw [← slice] at inside
  dsimp only at inside
  have covered := @chunk_inside pcp dcp q k (t - offset Query.queryLen batch c.1) c.2 here
  obtain ⟨bound, index⟩ := covered.mp (by omega)
  rw [request] at found slice bound index inside
  exact ⟨q, t - offset Query.queryLen batch s.globalBatchReqIdx, found, bound, by omega,
    index ▸ owned, by rw [index, here, ← slice]; rfl⟩

theorem exists_covers (starts : IsStartLoc batch queryStartLoc) (ranks : 0 < pcp) {i pos : Nat}
    {q : Query} (found : batch[i]? = some q) (inside : pos < q.queryLen)
    (owned : pos / chunkSize pcp dcp q ∈ chunkIndices pcp dcp rank q) :
    ∃ s ∈ getRankSegments pcp dcp batch queryStartLoc rank, s.globalBatchReqIdx = i ∧
    s.globalBatchSlice.1 ≤ offset Query.queryLen batch i + pos ∧
    offset Query.queryLen batch i + pos < s.globalBatchSlice.2 := by
  obtain ⟨c, here⟩ := @chunk_isSome pcp dcp q pos ranks inside
  have chunked : (i, c) ∈ iterRankChunks pcp dcp batch rank :=
    mem_iterRankChunks.mpr ⟨q, found, _, owned, here⟩
  obtain ⟨s, within, same⟩ := mem_map.mp
    (segments_tags.mem_iff.mpr (mem_map_of_mem (f := fun c => tag (segment queryStartLoc c))
      chunked))
  simp only [tag, segment, Prod.mk.injEq, starts.getD found] at same
  have covered := (chunk_inside here).mpr ⟨inside, rfl⟩
  refine ⟨s, within, same.1, ?_⟩
  rw [same.2]
  dsimp only
  omega

/-- Two segments that cover a token have the same tag. -/
theorem Covers.tag_eq {rank' pos pos' : Nat} {s s' : RankSegment} {q q' : Query}
    (h : Covers pcp dcp batch rank t s q pos) (h' : Covers pcp dcp batch rank' t s' q' pos') :
    tag s = tag s' ∧ q = q' ∧ pos = pos' := by
  obtain ⟨request, rfl⟩ := offset_inj h.found h'.found h.inside h'.inside (h.place.symm.trans h'.place)
  have found := h.found
  rw [request, h'.found] at found
  obtain rfl := Option.some.inj found
  have slice := h.slice
  rw [request, h'.slice] at slice
  exact ⟨Prod.ext request (Option.some.inj slice).symm, rfl, rfl⟩

theorem Covers.unique {pos pos' : Nat} {s s' : RankSegment} {q q' : Query} (owner : rank < pcp)
    (within : s ∈ getRankSegments pcp dcp batch queryStartLoc rank)
    (within' : s' ∈ getRankSegments pcp dcp batch queryStartLoc rank)
    (h : Covers pcp dcp batch rank t s q pos) (h' : Covers pcp dcp batch rank t s' q' pos') :
    s = s' :=
  inj_on_of_nodup_map (segments_nodup owner) within within' (h.tag_eq h').1

end segments

section assignments

variable {ε α : Type} {value : ε → Nat → Option α} {written : List ε} {array : Nat → α} {p : Nat}

theorem assigned_eq : assigned value written array p =
    (written.reverse.findSome? fun e => value e p).getD (array p) := by
  induction written generalizing array with
  | nil => rfl
  | cons e written ih =>
    rw [assigned, foldl_cons]
    refine ih.trans ?_
    rw [reverse_cons, findSome?_append, findSome?_singleton]
    cases written.reverse.findSome? fun e => value e p <;> rfl

/-- Where all assignments to a place agree, it has their value. -/
theorem assigned_of_agree {x : α} (some : ∃ e ∈ written, value e p ≠ none)
    (agree : ∀ e ∈ written, ∀ y, value e p = .some y → y = x) :
    assigned value written array p = x := by
  rw [assigned_eq]
  cases last : written.reverse.findSome? fun e => value e p with
  | none =>
    obtain ⟨e, within, writes⟩ := some
    exact absurd (findSome?_eq_none_iff.mp last e (mem_reverse.mpr within)) writes
  | some y =>
    obtain ⟨e, within, writes⟩ := exists_of_findSome?_eq_some last
    exact agree e (mem_reverse.mp within) y writes

theorem assigned_of_none (none : ∀ e ∈ written, value e p = none) :
    assigned value written array p = array p := by
  rw [assigned_eq, findSome?_eq_none_iff.mpr fun e within => none e (mem_reverse.mp within)]
  rfl

end assignments

/-- A layout in which the ranks' tokens and the global tokens are each other's inverse. -/
structure Inverse (pcp dcp : Nat) (batch : List Query) (layout : BatchLayout) : Prop where
  restored : ∀ t < (batch.map Query.queryLen).sum,
    layout.hiddenRestoreIdx t < pcp * layout.paddedNumTokens ∧
      layout.paddedGatherIdx (layout.hiddenRestoreIdx t) = t
  written : ∀ p < pcp * layout.paddedNumTokens, layout.gatheredKvWriteMask p = true ↔
    ∃ t < (batch.map Query.queryLen).sum, layout.hiddenRestoreIdx t = p
  tiled : ∀ (rank : Nat) segments, layout.segmentsByRank[rank]? = some segments →
    Chained 0 (segments.map rankLocalBatchSlice) (layout.perRankNumTokens.getD rank 0) ∧
      segments.Pairwise fun s s' => s.isPrefilling batch → s'.isPrefilling batch
  whole : ∀ (rank i : Nat) (segments : List RankSegment) (q : Query), layout.segmentsByRank[rank]? = some segments →
    batch[i]? = some q → replicated pcp dcp q → 0 < q.queryLen →
    ∃ s : RankSegment, s ∈ segments ∧ s.globalBatchReqIdx = i ∧
      s.globalBatchSlice =
        (offset Query.queryLen batch i, offset Query.queryLen batch i + q.queryLen)
  split : ∀ (i : Nat) (q : Query) pos, batch[i]? = some q → replicated pcp dcp q = false → pos < q.queryLen →
    ∃! e : Entry, (∃ segments, layout.segmentsByRank[e.1]? = some segments ∧ e.2 ∈ segments) ∧
      e.2.globalBatchSlice.1 ≤ offset Query.queryLen batch i + pos ∧
      offset Query.queryLen batch i + pos < e.2.globalBatchSlice.2
  dispatched : getNumTokensForDispatch pcp dcp batch = largest layout.perRankNumTokens

section layouts

variable {pcp dcp : Nat} {batch : List Query} {queryStartLoc : List Nat}

theorem mem_entries {e : Entry} : e ∈ entries pcp dcp batch queryStartLoc ↔
    e.1 < pcp ∧ e.2 ∈ getRankSegments pcp dcp batch queryStartLoc e.1 := by
  obtain ⟨rank, s⟩ := e
  simp [entries]

/-- The number of tokens of a rank. -/
def rankTokens (pcp dcp : Nat) (batch : List Query) (rank : Nat) : Nat :=
  ((iterRankChunks pcp dcp batch rank).map fun c => c.2.2).sum

theorem sum_numTokens (rank : Nat) :
    ((getRankSegments pcp dcp batch queryStartLoc rank).map numTokens).sum =
    rankTokens pcp dcp batch rank := by
  have tags := (@segments_tags pcp dcp batch queryStartLoc rank).map fun tag => tag.2.2 - tag.2.1
  rw [map_map, map_map] at tags
  rw [rankTokens]
  refine tags.sum_eq.trans (congrArg List.sum (map_congr_left fun c _ => ?_))
  simp [tag, segment]

theorem le_largest {counts : List Nat} {n : Nat} (within : n ∈ counts) : n ≤ largest counts := by
  induction counts with
  | nil => cases within
  | cons m counts ih =>
    rcases mem_cons.mp within with rfl | later
    · exact Nat.le_max_left _ _
    · exact Nat.le_trans (ih later) (Nat.le_max_right _ _)

/-- The local slice of a segment is within the rows of its rank and as long as the global one. -/
theorem local_of_mem {rank : Nat} {s : RankSegment}
    (within : s ∈ getRankSegments pcp dcp batch queryStartLoc rank) : s.rankLocalBatchSlice.2 =
    s.rankLocalBatchSlice.1 + (s.globalBatchSlice.2 - s.globalBatchSlice.1) ∧
    s.rankLocalBatchSlice.2 ≤ rankTokens pcp dcp batch rank := by
  obtain ⟨-, length, inside⟩ := mem_relocate within
  rw [← relocate_numTokens 0, Nat.zero_add] at inside
  exact ⟨length, Nat.le_trans inside (sum_numTokens rank).le⟩

variable {padded : Nat}

/-- The entry that has a place of the padded gathered batch is the only one. -/
theorem entry_unique (fits : ∀ rank < pcp, rankTokens pcp dcp batch rank ≤ padded) {e e' : Entry}
    {p x x' : Nat} (h : e ∈ entries pcp dcp batch queryStartLoc)
    (h' : e' ∈ entries pcp dcp batch queryStartLoc) (here : gatherValue padded e p = some x)
    (here' : gatherValue padded e' p = some x') : e = e' := by
  rw [mem_entries] at h h'
  have own := (local_of_mem h.2).2
  have own' := (local_of_mem h'.2).2
  have room := fits e.1 h.1
  have room' := fits e'.1 h'.1
  obtain ⟨rank, s⟩ := e
  obtain ⟨rank', s'⟩ := e'
  simp only [gatherValue] at here here'
  split at here
  · split at here'
    · rename_i inside inside'
      dsimp only at inside inside' own own' room room'
      obtain ⟨rfl, -⟩ := @digit_unique padded rank (p - rank * padded) rank' (p - rank' * padded)
        (by omega) (by omega) (by omega)
      have same := @relocate_unique _ _ s s' (p - rank * padded) h.2 h'.2 (by omega) (by omega)
      rw [same]
    · cases here'
  · cases here

/-- Of the entries that are not skipped, one covers a token. -/
theorem written_unique (starts : IsStartLoc batch queryStartLoc) {e e' : Entry} {t y y' : Nat}
    (h : e ∈ entries pcp dcp batch queryStartLoc) (h' : e' ∈ entries pcp dcp batch queryStartLoc)
    (here : restoreValue pcp dcp batch padded e t = some y)
    (here' : restoreValue pcp dcp batch padded e' t = some y') : e = e' := by
  rw [mem_entries] at h h'
  obtain ⟨rank, s⟩ := e
  obtain ⟨rank', s'⟩ := e'
  simp only [restoreValue] at here here'
  split at here
  · cases here
  split at here
  · split at here'
    · cases here'
    split at here'
    · rename_i kept inside kept' inside'
      obtain ⟨q, pos, covers⟩ := covers_of_mem starts h.2 inside
      obtain ⟨q', pos', covers'⟩ := covers_of_mem starts h'.2 inside'
      obtain ⟨-, rfl, rfl⟩ := covers.tag_eq covers'
      have same : rank = rank' := by
        cases whole : replicated pcp dcp q with
        | true =>
          simp [skipped, covers.found, covers'.found, whole] at kept kept'
          exact kept.trans kept'.symm
        | false =>
          exact (existsUnique_rank (by have := h.1; dsimp only at this; omega) covers.inside whole).unique
            ⟨h.1, covers.owned⟩ ⟨h'.1, covers'.owned⟩
      subst same
      exact congrArg (Prod.mk rank) (covers.unique h.1 h.2 h'.2 covers')
    · cases here'
  · cases here

theorem place_iff {t : Nat} : t < (batch.map Query.queryLen).sum ↔
    ∃ i q pos, batch[i]? = some q ∧ pos < q.queryLen ∧ t = offset Query.queryLen batch i + pos := by
  have lengths : ∀ q ∈ batch, (List.replicate q.queryLen ()).length = q.queryLen := by simp
  have places := @RejectionSampler.flatMap_getElem?_eq_some _ _ _ batch _ lengths t ()
  rw [← RejectionSampler.flatMap_length lengths]
  refine Iff.trans ?_ (places.trans ⟨?_, ?_⟩)
  · constructor
    · exact fun inside => List.getElem?_eq_some_iff.mpr ⟨inside, rfl⟩
    · exact fun found => (List.getElem?_eq_some_iff.mp found).1
  · rintro ⟨i, q, pos, found, inside, place, -⟩
    exact ⟨i, q, pos, found, inside, place⟩
  · rintro ⟨i, q, pos, found, inside, place⟩
    exact ⟨i, q, pos, found, inside, place, by simp [inside]⟩

theorem restoreValue_some {e : Entry} {t p : Nat} (h : e ∈ entries pcp dcp batch queryStartLoc)
    (fits : ∀ rank < pcp, rankTokens pcp dcp batch rank ≤ padded)
    (here : restoreValue pcp dcp batch padded e t = some p) : p < pcp * padded ∧
    gatherValue padded e p = some t ∧ maskValue pcp dcp batch padded e p = some true := by
  rw [mem_entries] at h
  obtain ⟨length, inside⟩ := local_of_mem h.2
  have room := fits e.1 h.1
  have above := Nat.mul_le_mul_right padded (Nat.succ_le_of_lt h.1)
  rw [Nat.succ_mul] at above
  unfold restoreValue at here
  split at here
  · cases here
  split at here
  · rename_i kept covered
    obtain rfl := Option.some.inj here
    have gathered : gatherValue padded e (e.1 * padded + e.2.rankLocalBatchSlice.1 +
        (t - e.2.globalBatchSlice.1)) = some t := by
      rw [gatherValue, if_pos (by omega)]
      exact congrArg some (by omega)
    exact ⟨by omega, gathered, by rw [maskValue, if_neg kept, gathered]; rfl⟩
  · cases here

theorem gatherValue_some {e : Entry} {t p : Nat} (starts : IsStartLoc batch queryStartLoc)
    (h : e ∈ entries pcp dcp batch queryStartLoc) (kept : ¬skipped pcp dcp batch e)
    (here : gatherValue padded e p = some t) :
    t < (batch.map Query.queryLen).sum ∧ restoreValue pcp dcp batch padded e t = some p := by
  rw [mem_entries] at h
  obtain ⟨length, -⟩ := local_of_mem h.2
  simp only [gatherValue] at here
  split at here
  · rename_i inside
    obtain rfl := Option.some.inj here
    have covered : e.2.globalBatchSlice.1 ≤ e.2.globalBatchSlice.1 + (p - (e.1 * padded +
        e.2.rankLocalBatchSlice.1)) ∧ e.2.globalBatchSlice.1 + (p - (e.1 * padded +
          e.2.rankLocalBatchSlice.1)) < e.2.globalBatchSlice.2 := by omega
    obtain ⟨q, pos, covers⟩ := covers_of_mem starts h.2 covered
    refine ⟨place_iff.mpr ⟨_, q, pos, covers.found, covers.inside, covers.place⟩, ?_⟩
    rw [restoreValue, if_neg kept, if_pos covered]
    exact congrArg some (by omega)
  · cases here

/-- Every token is written by some entry. -/
theorem exists_restoreValue (starts : IsStartLoc batch queryStartLoc) (ranks : 0 < pcp) {t : Nat}
    (inside : t < (batch.map Query.queryLen).sum) : ∃ e ∈ entries pcp dcp batch queryStartLoc, ∃ p,
    restoreValue pcp dcp batch padded e t = some p := by
  obtain ⟨i, q, pos, found, within, rfl⟩ := place_iff.mp inside
  have owner : ∃ rank < pcp, pos / chunkSize pcp dcp q ∈ chunkIndices pcp dcp rank q ∧
      (replicated pcp dcp q → rank = 0) := by
    cases whole : replicated pcp dcp q with
    | true =>
      refine ⟨0, ranks, ?_, fun _ => rfl⟩
      rw [mem_chunkIndices_replicated whole, div_chunkSize_replicated within whole]
    | false =>
      obtain ⟨rank, ⟨less, owned⟩, -⟩ := existsUnique_rank ranks within whole
      exact ⟨rank, less, owned, by simp⟩
  obtain ⟨rank, less, owned, first⟩ := owner
  obtain ⟨s, inRank, request, covered⟩ := @exists_covers pcp dcp batch queryStartLoc rank starts ranks
    i pos q found within owned
  refine ⟨(rank, s), mem_entries.mpr ⟨less, inRank⟩, rank * padded + s.rankLocalBatchSlice.1 +
    (offset Query.queryLen batch i + pos - s.globalBatchSlice.1), ?_⟩
  rw [restoreValue, if_neg, if_pos covered]
  simp only [skipped, request, found, Option.any_some, Bool.and_eq_true, bne_iff_ne, not_and,
    not_not]
  exact first

theorem keyLe_iff {s s' : RankSegment} : keyLe batch s s' = true ↔
    (s.sortKey batch).1 < (s'.sortKey batch).1 ∨ (s.sortKey batch).1 = (s'.sortKey batch).1 ∧
    ((s.sortKey batch).2.1 < (s'.sortKey batch).2.1 ∨
    (s.sortKey batch).2.1 = (s'.sortKey batch).2.1 ∧
    (s.sortKey batch).2.2 ≤ (s'.sortKey batch).2.2) := by
  simp [keyLe]

theorem segments_prefills (rank : Nat) : (getRankSegments pcp dcp batch queryStartLoc rank).Pairwise
    fun s s' => s.isPrefilling batch → s'.isPrefilling batch := by
  have ordered := @pairwise_mergeSort _ (keyLe batch)
    (fun a b c => by simp only [keyLe_iff]; omega)
    (fun a b => by simp only [Bool.or_eq_true, keyLe_iff]; omega)
    (relocate 0 ((iterRankChunks pcp dcp batch rank).map (segment queryStartLoc)))
  have tags : (((getRankSegments pcp dcp batch queryStartLoc rank).map tag).Pairwise
      fun a b => (batch[a.1]?.any Query.isPrefilling) → batch[b.1]?.any Query.isPrefilling) := by
    rw [getRankSegments, reorderSegments, relocate_tag, pairwise_map]
    refine ordered.imp fun {s s'} le (prefill : s.isPrefilling batch = true) => ?_
    have first : (s.sortKey batch).1 ≤ (s'.sortKey batch).1 := by
      rw [keyLe_iff] at le
      omega
    change s'.isPrefilling batch = true
    cases later : s'.isPrefilling batch with
    | true => rfl
    | false => simp [sortKey, prefill, later] at first
  exact pairwise_map.mp tags

/-- Partition and restore are inverse in every layout that is built. -/
theorem buildBatchLayout_inverse {empty : Nat → Nat} {paddedNumTokens : Option Nat}
    {layout : BatchLayout} (ranks : 0 < pcp) (starts : IsStartLoc batch queryStartLoc)
    (built : buildBatchLayout pcp dcp batch queryStartLoc empty paddedNumTokens = .ok layout) :
    Inverse pcp dcp batch layout := by
  have counts : ((List.range pcp).map (getRankSegments pcp dcp batch queryStartLoc)).map
      (fun segments => (segments.map numTokens).sum) =
        (List.range pcp).map (rankTokens pcp dcp batch) := by
    rw [map_map]
    exact map_congr_left fun rank _ => sum_numTokens rank
  simp only [buildBatchLayout] at built
  split at built
  · cases built
  rename_i room
  obtain rfl := Except.ok.inj built
  generalize hpadded : paddedNumTokens.getD _ = padded at room ⊢
  have fits : ∀ rank < pcp, rankTokens pcp dcp batch rank ≤ padded := by
    intro rank less
    rw [counts] at room
    exact Nat.le_trans (le_largest (mem_map_of_mem (mem_range.mpr less)))
      (Nat.le_of_not_lt room)
  have restore : ∀ {e t p}, e ∈ entries pcp dcp batch queryStartLoc →
      restoreValue pcp dcp batch padded e t = some p →
      assigned (restoreValue pcp dcp batch padded) (entries pcp dcp batch queryStartLoc) empty t = p :=
    fun {e t p} h here => assigned_of_agree ⟨e, h, by simp [here]⟩ fun e' h' y here' => by
      rw [written_unique starts h' h here' here] at here'
      exact Option.some.inj (here'.symm.trans here)
  have segmentsOf : ∀ {rank : Nat} {segments}, ((List.range pcp).map
      (getRankSegments pcp dcp batch queryStartLoc))[rank]? = some segments →
      rank < pcp ∧ segments = getRankSegments pcp dcp batch queryStartLoc rank := by
    intro rank segments found
    rw [getElem?_map, Option.map_eq_some_iff] at found
    obtain ⟨rank', inside, rfl⟩ := found
    obtain ⟨less, rfl⟩ := List.getElem?_eq_some_iff.mp inside
    rw [getElem_range]
    exact ⟨by simpa using less, rfl⟩
  constructor
  case restored =>
    intro t inside
    obtain ⟨e, h, p, here⟩ := @exists_restoreValue pcp dcp batch _ padded starts ranks _ inside
    obtain ⟨bound, gathered, -⟩ := restoreValue_some h fits here
    dsimp only
    rw [restore h here]
    refine ⟨bound, assigned_of_agree ⟨e, h, by simp [gathered]⟩ fun e' h' y here' => ?_⟩
    rw [entry_unique fits h' h here' gathered] at here'
    exact Option.some.inj (here'.symm.trans gathered)
  case written =>
    intro p _
    constructor
    · intro masked
      by_cases writes : ∃ e ∈ entries pcp dcp batch queryStartLoc,
          maskValue pcp dcp batch padded e p ≠ none
      · obtain ⟨e, h, some⟩ := writes
        have kept : ¬skipped pcp dcp batch e := fun skip => some (by rw [maskValue, if_pos skip])
        rw [maskValue, if_neg kept] at some
        obtain ⟨t, gathered⟩ := Option.ne_none_iff_exists'.mp fun none : gatherValue padded e p = none =>
          some (by rw [none]; rfl)
        obtain ⟨inside, here⟩ := gatherValue_some starts h kept gathered
        exact ⟨t, inside, restore h here⟩
      · have none := fun e h => of_not_not fun some => writes ⟨e, h, some⟩
        cases (assigned_of_none none).symm.trans masked
    · rintro ⟨t, inside, rfl⟩
      obtain ⟨e, h, p, here⟩ := @exists_restoreValue pcp dcp batch _ padded starts ranks _ inside
      obtain ⟨-, -, masked⟩ := restoreValue_some h fits here
      dsimp only
      rw [restore h here]
      refine assigned_of_agree ⟨e, h, by simp [masked]⟩ fun e' _ y here' => ?_
      unfold maskValue at here'
      split at here'
      · cases here'
      · obtain ⟨t', -, rfl⟩ := Option.map_eq_some_iff.mp here'
        rfl
  case tiled =>
    intro rank segments found
    obtain ⟨less, rfl⟩ := segmentsOf found
    refine ⟨?_, segments_prefills rank⟩
    have chain := @relocate_chained 0 ((relocate 0 ((iterRankChunks pcp dcp batch rank).map
      (segment queryStartLoc))).mergeSort (keyLe batch))
    rw [← relocate_numTokens 0, Nat.zero_add] at chain
    have count : ((List.range pcp).map (rankTokens pcp dcp batch)).getD rank 0 =
        ((getRankSegments pcp dcp batch queryStartLoc rank).map numTokens).sum := by
      rw [sum_numTokens, getD_eq_getElem?_getD, getElem?_map, getElem?_range less]
      rfl
    dsimp only
    rw [counts, count]
    exact chain
  case whole =>
    intro rank i segments q found request whole some
    obtain ⟨less, rfl⟩ := segmentsOf found
    have chunked : (i, 0, q.queryLen) ∈ iterRankChunks pcp dcp batch rank := by
      refine mem_iterRankChunks.mpr ⟨q, request, 0, (mem_chunkIndices_replicated whole).mpr rfl, ?_⟩
      have size : chunkSize pcp dcp q = q.queryLen := if_pos whole
      simp only [chunk, size, Nat.zero_mul, Nat.sub_zero, Nat.min_self]
      exact if_neg (Nat.ne_of_gt some)
    obtain ⟨s, within, same⟩ := mem_map.mp (segments_tags.mem_iff.mpr
      (mem_map_of_mem (f := fun c => tag (segment queryStartLoc c)) chunked))
    simp only [tag, segment, Prod.mk.injEq, starts.getD request, Nat.add_zero] at same
    exact ⟨s, within, same.1, same.2⟩
  case split =>
    intro i q pos found whole inside
    obtain ⟨rank, ⟨less, owned⟩, only⟩ := existsUnique_rank ranks inside whole
    obtain ⟨s, within, request, covered⟩ := @exists_covers pcp dcp batch queryStartLoc rank starts
      ranks i pos q found inside owned
    refine ⟨(rank, s), ⟨⟨_, ?_, within⟩, covered⟩, ?_⟩
    · rw [getElem?_map, getElem?_range less]
      rfl
    rintro ⟨rank', s'⟩ ⟨⟨segments, found', within'⟩, covered'⟩
    obtain ⟨less', rfl⟩ := segmentsOf found'
    obtain ⟨q₁, pos₁, covers⟩ := covers_of_mem starts within covered
    obtain ⟨q₂, pos₂, covers'⟩ := covers_of_mem starts within' covered'
    obtain ⟨-, rfl, rfl⟩ := covers.tag_eq covers'
    have own := covers.found
    have place := covers.place
    rw [request, found] at own
    obtain rfl := Option.some.inj own
    rw [request, Nat.add_left_cancel_iff] at place
    obtain rfl := place
    obtain rfl := only rank' ⟨less', covers'.owned⟩
    exact congrArg (Prod.mk rank') (covers'.unique less' within' within covers)
  case dispatched =>
    rw [counts]
    rfl

/-- A decode and a prefill of seven tokens; on two ranks the last of its four chunks is short. -/
def mixed : List Query := [⟨1, false⟩, ⟨7, true⟩]

theorem buildBatchLayout_inverse_mixed : ∃ layout,
    buildBatchLayout 2 1 mixed [0, 1, 8] (fun _ => 0) none = .ok layout ∧
    Inverse 2 1 mixed layout :=
  ⟨_, if_neg (Nat.lt_irrefl _), @buildBatchLayout_inverse 2 1 mixed [0, 1, 8] (fun _ => 0) none _
    (by decide) rfl (if_neg (Nat.lt_irrefl _))⟩

end layouts

end VllmAmpere.PCPManager
