import Mathlib.Data.List.Nodup
import VllmAmpere.CanonicalMapping

/-! The pages of the ranks that write a block tile its canonical page, and deployments that
shard no tokens place the same element at the same canonical byte. -/

open List

namespace VllmAmpere.Canonical

open Tilings

/-- The bytes of a run: where each stands in the worker's page and in the canonical page. -/
def CopyRun.bytes (run : CopyRun) : List (Nat × Nat) :=
  (List.range run.numFragments).flatMap fun i => (List.range run.fragmentSize).map fun b =>
    (run.localOffset + i * run.localStride + b, run.canonicalOffset + i * run.canonicalStride + b)

def allBytes (runs : List CopyRun) : List (Nat × Nat) := runs.flatMap CopyRun.bytes

section runs

variable {run : CopyRun} {runs out : List CopyRun}

theorem CopyRun.bytes_single (one : run.numFragments = 1) :
    run.bytes = (List.range run.fragmentSize).map fun b =>
    (run.localOffset + b, run.canonicalOffset + b) := by
  unfold CopyRun.bytes
  rw [one]
  simp only [range_one, flatMap_singleton, Nat.zero_mul, Nat.add_zero]

theorem CopyRun.collapse_bytes (run : CopyRun) : run.collapse.bytes = run.bytes := by
  unfold CopyRun.collapse
  split
  next contiguous =>
    have ⟨_, here, there⟩ := contiguous
    rw [CopyRun.bytes_single rfl]
    dsimp only
    rw [Nat.mul_comm, ← map_range_mul]
    unfold CopyRun.bytes
    rw [here, there]
    simp only [Nat.add_assoc]
  · rfl

theorem coalesce_bytes (out : List CopyRun) (run : CopyRun) :
    allBytes (coalesce out run) = allBytes out ++ run.bytes := by
  have appended : allBytes (out ++ [run.collapse]) = allBytes out ++ run.bytes := by
    rw [allBytes, flatMap_append, flatMap_singleton, CopyRun.collapse_bytes]
    rfl
  unfold coalesce
  dsimp only
  split
  · exact appended
  next prev last =>
    split
    next adjacent =>
      have ⟨one, one', here, there⟩ := adjacent
      have split := dropLast_append_getLast? prev last
      have before : allBytes out = allBytes out.dropLast ++ prev.bytes := by
        conv_lhs => rw [← split]
        rw [allBytes, flatMap_append, flatMap_singleton]
        rfl
      rw [before, ← CopyRun.collapse_bytes run, append_assoc, CopyRun.bytes_single one,
        CopyRun.bytes_single one', ← here, ← there, allBytes, flatMap_append,
        flatMap_singleton, CopyRun.bytes_single rfl, range_add, map_append,
        map_map]
      simp only [Function.comp_def, Nat.add_assoc]
      rfl
    · exact appended

theorem coalesceRuns_bytes (runs : List CopyRun) : allBytes (coalesceRuns runs) = allBytes runs := by
  have loop : ∀ out, allBytes (runs.foldl coalesce out) = allBytes out ++ allBytes runs := by
    induction runs with
    | nil =>
      intro out
      exact (append_nil _).symm
    | cons run rest ih =>
      intro out
      rw [foldl_cons, ih, coalesce_bytes, append_assoc]
      rfl
  exact loop []

def Solid (runs : List CopyRun) : Prop := ∀ run ∈ runs, 0 < run.fragmentSize

theorem CopyRun.collapse_solid (h : 0 < run.fragmentSize) : 0 < run.collapse.fragmentSize := by
  unfold CopyRun.collapse
  split
  next contiguous => exact Nat.mul_pos h (by omega)
  · exact h

theorem Solid.coalesce (h : Solid out) (positive : 0 < run.fragmentSize) :
    Solid (coalesce out run) := by
  have appended : Solid (out ++ [run.collapse]) := by
    intro other mem
    rcases mem_append.mp mem with mem | mem
    · exact h other mem
    · rw [mem_singleton.mp mem]
      exact CopyRun.collapse_solid positive
  unfold Canonical.coalesce
  dsimp only
  split
  · exact appended
  next prev last =>
    split
    · intro other mem
      rcases mem_append.mp mem with mem | mem
      · exact h other ((dropLast_sublist out).subset mem)
      · rw [mem_singleton.mp mem]
        exact Nat.add_pos_left (h prev (mem_of_getLast? last)) _
    · exact appended

theorem Solid.coalesceRuns (h : Solid runs) : Solid (coalesceRuns runs) := by
  have loop : ∀ out, Solid out → Solid (runs.foldl Canonical.coalesce out) := by
    induction runs with
    | nil => exact fun out kept => kept
    | cons run rest ih =>
      intro out kept
      have step := kept.coalesce (h run mem_cons_self)
      exact ih (fun other mem => h other (mem_cons_of_mem _ mem)) _ step
  exact loop [] fun run mem => nomatch mem

theorem CopyRun.intervals_points (canonical : Bool) (run : CopyRun) :
    (run.intervals canonical).flatMap points =
    run.bytes.map fun byte => if canonical then byte.2 else byte.1 := by
  unfold CopyRun.intervals CopyRun.bytes
  rw [flatMap_map, map_flatMap]
  congr 1
  funext i
  rw [map_map, points, Nat.add_sub_cancel_left, range'_eq_map_range]
  cases canonical
  · rfl
  · rfl

theorem runIntervals_points (canonical : Bool) (runs : List CopyRun) :
    ((runIntervals runs canonical).flatMap points).Perm
    ((allBytes runs).map fun byte => if canonical then byte.2 else byte.1) := by
  have perm := (sorted_perm (runs.flatMap (CopyRun.intervals canonical))).flatMap_right points
  refine perm.trans (List.Perm.of_eq ?_)
  rw [flatMap_assoc, allBytes, map_flatMap]
  congr 1
  funext run
  exact run.intervals_points canonical

theorem Solid.intervals (h : Solid runs) (canonical : Bool) :
    ∀ i ∈ runIntervals runs canonical, i.1 < i.2 := by
  intro i mem
  have ⟨run, listed, mem⟩ := mem_flatMap.mp ((sorted_perm _).mem_iff.mp mem)
  obtain ⟨k, _, rfl⟩ := mem_map.mp mem
  exact Nat.lt_add_of_pos_right (h run listed)

end runs

theorem exact_of_chained {intervals : List (Nat × Nat)} {start stop : Nat}
    (h : Chained start intervals stop) (some : intervals ≠ []) :
    (intervals.head?.map Prod.fst == Option.some start) = true ∧
    (intervals.getLast?.map Prod.snd == Option.some stop) = true ∧
    ((intervals.zip intervals.tail).all fun (a, b) => a.2 == b.1) = true := by
  induction intervals generalizing start with
  | nil => exact absurd rfl some
  | cons head rest ih =>
    obtain ⟨left, right⟩ := head
    obtain ⟨rfl, h⟩ := h
    cases rest with
    | nil =>
      cases h
      simp
    | cons next rest =>
      have ⟨first, last, others⟩ := ih h (cons_ne_nil _ _)
      rw [head?_cons, Option.map_some, beq_iff_eq, Option.some.injEq] at first
      refine ⟨by simp, ?_, ?_⟩
      · rw [getLast?_cons_cons]
        exact last
      · rw [tail_cons, zip_cons_cons, all_cons, Bool.and_eq_true, beq_iff_eq]
        exact ⟨first.symm, others⟩

theorem isExactPartition_of_points {intervals : List (Nat × Nat)} {size : Nat}
    (ordered : intervals.Pairwise fun a b => a.1 ≤ b.1) (nonempty : ∀ i ∈ intervals, i.1 < i.2)
    (positive : 0 < size) (h : (intervals.flatMap points).Perm (List.range size)) :
    isExactPartition intervals size = true := by
  rw [range_eq_range'] at h
  have some : intervals ≠ [] := by
    rintro rfl
    have same := h.length_eq
    rw [length_range'] at same
    have : (0 : Nat) = size := same
    omega
  have chained := chained_of_points ordered nonempty h
  rw [Nat.zero_add] at chained
  have ⟨first, last, others⟩ := exact_of_chained chained some
  unfold isExactPartition
  rw [first, last, others, isEmpty_eq_false_iff.mpr some]
  rfl

section tokens

def tokenAt (cpSize interleave cpRank j : Nat) : Nat :=
  if cpSize = 1 then j
  else (j / interleave * cpSize + cpRank) * interleave + j % interleave

variable {cpSize interleave bs : Nat}

/-- The chunks of interleaved tokens divide a block, unless nothing is interleaved. -/
def Fits (cpSize interleave bs : Nat) : Prop := cpSize ≠ 1 → 0 < interleave ∧ interleave ∣ bs

theorem tokenAt_lt (h : Fits cpSize interleave bs) {cpRank j : Nat} (rank : cpRank < cpSize)
    (inside : j < bs) : tokenAt cpSize interleave cpRank j < bs * cpSize := by
  unfold tokenAt
  split
  next one =>
    rw [one, Nat.mul_one]
    exact inside
  next several =>
    have ⟨positive, k, count⟩ := h several
    have chunk : j / interleave < k := by
      apply Nat.div_lt_of_lt_mul
      rwa [← count]
    have inner := digit_lt (digit_lt chunk rank) (Nat.mod_lt j positive)
    rw [count, Nat.mul_comm interleave, Nat.mul_right_comm]
    exact inner

theorem tokenAt_unique (h : Fits cpSize interleave bs) {cpRank cpRank' j j' : Nat}
    (rank : cpRank < cpSize) (rank' : cpRank' < cpSize)
    (same : tokenAt cpSize interleave cpRank j = tokenAt cpSize interleave cpRank' j') :
    cpRank = cpRank' ∧ j = j' := by
  unfold tokenAt at same
  split at same
  next => exact ⟨by omega, same⟩
  next several =>
    have ⟨positive, _⟩ := h several
    have ⟨outer, pos⟩ := digit_unique same (Nat.mod_lt j positive) (Nat.mod_lt j' positive)
    have ⟨chunk, ranks⟩ := digit_unique outer rank rank'
    refine ⟨ranks, ?_⟩
    rw [← Nat.div_add_mod' j interleave, ← Nat.div_add_mod' j' interleave, chunk, pos]

theorem tokenAt_reach (h : Fits cpSize interleave bs) {token : Nat} (inside : token < bs * cpSize) :
    ∃ cpRank < cpSize, ∃ j < bs, tokenAt cpSize interleave cpRank j = token := by
  by_cases one : cpSize = 1
  · rw [one, Nat.mul_one] at inside
    exact ⟨0, by omega, token, inside, if_pos one⟩
  · have ⟨positive, k, count⟩ := h one
    have some : 0 < cpSize := Nat.pos_of_ne_zero fun none => by simp [none] at inside
    have chunks : token / interleave < k * cpSize := by
      apply Nat.div_lt_of_lt_mul
      rwa [← Nat.mul_assoc, ← count]
    have chunk : token / interleave / cpSize < k :=
      Nat.div_lt_of_lt_mul (by rwa [Nat.mul_comm])
    have pos := Nat.mod_lt token positive
    refine ⟨token / interleave % cpSize, Nat.mod_lt _ some,
      token / interleave / cpSize * interleave + token % interleave, ?_, ?_⟩
    · rw [count, Nat.mul_comm interleave]
      exact digit_lt chunk pos
    · rw [tokenAt, if_neg one, digit_div pos, digit_mod pos, Nat.div_add_mod', Nat.div_add_mod']

theorem regionRuns_bytes {ctx : RankContext} (h : Fits ctx.cpSize ctx.interleave bs)
    (region : ByteRegion) : allBytes (regionRuns bs ctx region) =
    (List.range bs).flatMap fun j => (List.range region.bytesPerToken).map fun b =>
    (region.localOffset + j * region.bytesPerToken + b,
    region.canonicalOffset + tokenAt ctx.cpSize ctx.interleave ctx.totalCpRank j *
    region.canonicalTokenStride + b) := by
  unfold regionRuns allBytes tokenAt
  split
  · rw [flatMap_singleton]
    rfl
  next several =>
    have ⟨positive, k, count⟩ := h several
    have chunks : (bs + ctx.interleave - 1) / ctx.interleave = k := by
      rw [count, Nat.mul_comm, Nat.add_sub_assoc positive]
      exact digit_div (Nat.sub_lt positive Nat.one_pos)
    rw [pyRange, chunks, map_map, flatMap_map, count, Nat.mul_comm ctx.interleave,
      ← flatMap_range_mul]
    refine flatMap_congr fun chunk _ => ?_
    refine flatMap_congr fun i mem => ?_
    have pos : i < ctx.interleave := mem_range.mp mem
    refine map_congr_left fun b _ => ?_
    have start : localToCanonicalToken (chunk * ctx.interleave) ctx =
        (chunk * ctx.cpSize + ctx.totalCpRank) * ctx.interleave := by
      unfold localToCanonicalToken
      dsimp only
      rw [Nat.mul_div_cancel _ positive, Nat.mul_mod_left, Nat.add_zero]
    dsimp only [Function.comp]
    rw [start, digit_div pos, digit_mod pos]
    refine Prod.ext ?_ ?_
    · dsimp only
      ring
    · dsimp only
      ring

theorem regionRuns_solid {ctx : RankContext} {region : ByteRegion}
    (positive : 0 < region.bytesPerToken) : Solid (regionRuns bs ctx region) := by
  unfold regionRuns
  split
  · intro run mem
    rw [mem_singleton.mp mem]
    exact positive
  · intro run mem
    obtain ⟨chunk, _, rfl⟩ := mem_map.mp mem
    exact positive

end tokens

section ranks

variable (tp dcp writers : Nat)

def shardOf (rank : Nat) : Nat := rank % tp / (writers * dcp)

def writerOf (rank : Nat) : Nat := rank % tp % (writers * dcp) / dcp

def cpRankOf (rank : Nat) : Nat := rank / tp * dcp + rank % tp % dcp

variable {tp dcp writers} {shards pcp : Nat}

theorem shardOf_lt (split : tp = shards * (writers * dcp)) (positive : 0 < tp) (rank : Nat) :
    shardOf tp dcp writers rank < shards := by
  unfold shardOf
  apply Nat.div_lt_of_lt_mul
  rw [Nat.mul_comm, ← split]
  exact Nat.mod_lt rank positive

theorem cpRankOf_lt (positive : 0 < dcp) {rank : Nat} (inside : rank < tp * pcp) :
    cpRankOf tp dcp rank < dcp * pcp := by
  unfold cpRankOf
  rw [Nat.mul_comm dcp]
  exact digit_lt (Nat.div_lt_of_lt_mul inside) (Nat.mod_lt _ positive)

theorem rank_unique (positive : 0 < dcp) {rank rank' : Nat}
    (shard : shardOf tp dcp writers rank = shardOf tp dcp writers rank')
    (writer : writerOf tp dcp writers rank = writerOf tp dcp writers rank')
    (cpRank : cpRankOf tp dcp rank = cpRankOf tp dcp rank') : rank = rank' := by
  have ⟨pcpRank, dcpRank⟩ :=
    digit_unique cpRank (Nat.mod_lt _ positive) (Nat.mod_lt _ positive)
  have nested : ∀ r, r % tp % dcp = r % tp % (writers * dcp) % dcp := fun r =>
    (Nat.mod_mod_of_dvd _ (Nat.dvd_mul_left dcp writers)).symm
  have replica : rank % tp % (writers * dcp) = rank' % tp % (writers * dcp) := by
    rw [← Nat.div_add_mod' (rank % tp % (writers * dcp)) dcp,
      ← Nat.div_add_mod' (rank' % tp % (writers * dcp)) dcp, ← nested, ← nested, dcpRank]
    unfold writerOf at writer
    rw [writer]
  have tpRank : rank % tp = rank' % tp := by
    rw [← Nat.div_add_mod' (rank % tp) (writers * dcp),
      ← Nat.div_add_mod' (rank' % tp) (writers * dcp), replica]
    unfold shardOf at shard
    rw [shard]
  rw [← Nat.div_add_mod' rank tp, ← Nat.div_add_mod' rank' tp, pcpRank, tpRank]

theorem rank_reach (split : tp = shards * (writers * dcp)) (positive : 0 < dcp)
    {shard writer cpRank : Nat} (hs : shard < shards) (hw : writer < writers)
    (hc : cpRank < dcp * pcp) : ∃ rank < tp * pcp, shardOf tp dcp writers rank = shard ∧
    writerOf tp dcp writers rank = writer ∧ cpRankOf tp dcp rank = cpRank := by
  have digit : cpRank % dcp < dcp := Nat.mod_lt _ positive
  have replica : writer * dcp + cpRank % dcp < writers * dcp := digit_lt hw digit
  have tpRank : shard * (writers * dcp) + (writer * dcp + cpRank % dcp) < tp := by
    rw [split]
    exact digit_lt hs replica
  have pcpRank : cpRank / dcp < pcp := Nat.div_lt_of_lt_mul hc
  refine ⟨cpRank / dcp * tp + (shard * (writers * dcp) + (writer * dcp + cpRank % dcp)), ?_,
    ?_, ?_, ?_⟩
  · rw [Nat.mul_comm tp]
    exact digit_lt pcpRank tpRank
  · rw [shardOf, digit_mod tpRank, digit_div replica]
  · rw [writerOf, digit_mod tpRank, digit_mod replica, digit_div digit]
  · have inner : (shard * (writers * dcp) + (writer * dcp + cpRank % dcp)) % dcp = cpRank % dcp := by
      rw [← Nat.add_assoc, ← Nat.mul_assoc, ← Nat.add_mul]
      exact digit_mod digit
    rw [cpRankOf, digit_div tpRank, digit_mod tpRank, inner]
    exact Nat.div_add_mod' cpRank dcp

end ranks

/-- How the pages of the shards make up a canonical page: each has `regions` regions of rows,
one for a token, and `key` numbers the canonical rows by shard, region and token. -/
structure Grid where
  shards : Nat
  regions : Nat
  rowBytes : Nat
  writers : Nat
  key : Nat → Nat → Nat → Nat

namespace Grid

variable (g : Grid) (bs : Nat) (ctx : RankContext)

def pageBytes : Nat := g.regions * bs * g.rowBytes

/-- The canonical position of a byte of a worker's page. -/
def place (shard cpRank l : Nat) : Nat :=
  g.key shard (l / g.rowBytes / bs)
    (tokenAt ctx.cpSize ctx.interleave cpRank (l / g.rowBytes % bs)) * g.rowBytes + l % g.rowBytes

/-- Regions that place the rows of a shard as the grid has them. -/
def Pages (shard : Nat) (regions : List ByteRegion) : Prop :=
  ∃ (offset : Nat → Nat) (stride : Nat),
    regions = (List.range g.regions).map (fun ρ =>
      ⟨ρ * bs * g.rowBytes, offset ρ, g.rowBytes, stride⟩) ∧
    ∀ ρ token, offset ρ + token * stride = g.key shard ρ token * g.rowBytes

variable {g bs ctx}

theorem Pages.bytes {shard : Nat} {regions : List ByteRegion} (h : g.Pages bs shard regions)
    (fits : Fits ctx.cpSize ctx.interleave bs) : allBytes (interleaveCpTokens regions bs ctx) =
    (List.range (g.pageBytes bs)).map fun l => (l, g.place bs ctx shard ctx.totalCpRank l) := by
  obtain ⟨offset, stride, rfl, placed⟩ := h
  rw [interleaveCpTokens, coalesceRuns_bytes, allBytes, flatMap_assoc, flatMap_map,
    pageBytes, ← map_range_mul, ← flatMap_range_mul]
  refine flatMap_congr fun ρ _ => ?_
  have region := regionRuns_bytes fits ⟨ρ * bs * g.rowBytes, offset ρ, g.rowBytes, stride⟩
  unfold allBytes at region
  rw [region]
  refine flatMap_congr fun j inside => map_congr_left fun b less => ?_
  have inside : j < bs := mem_range.mp inside
  have less : b < g.rowBytes := mem_range.mp less
  unfold place
  rw [digit_div less, digit_mod less, digit_div inside, digit_mod inside, ← placed]
  refine Prod.ext ?_ rfl
  dsimp only
  ring

theorem Pages.solid {shard : Nat} {regions : List ByteRegion} (h : g.Pages bs shard regions)
    (positive : 0 < g.rowBytes) : Solid (interleaveCpTokens regions bs ctx) := by
  obtain ⟨offset, stride, rfl, _⟩ := h
  apply Solid.coalesceRuns
  intro run mem
  obtain ⟨region, listed, mem⟩ := mem_flatMap.mp mem
  obtain ⟨ρ, _, rfl⟩ := mem_map.mp listed
  exact regionRuns_solid positive run mem

/-- The sizes of a deployment are those of the grid. -/
structure Suits (g : Grid) (config : ParallelConfig) (bs : Nat) : Prop where
  split : config.tpSize = g.shards * (g.writers * config.dcpSize)
  rowBytes_pos : 0 < g.rowBytes
  regions_pos : 0 < g.regions
  block_pos : 0 < bs
  fits : Fits (config.dcpSize * config.pcpSize) config.interleave bs
  key : Enumerates g.shards g.regions (bs * (config.dcpSize * config.pcpSize)) g.key

def placeAt (g : Grid) (config : ParallelConfig) (bs rank l : Nat) : Nat :=
  g.place bs (config.ctx rank) (shardOf config.tpSize config.dcpSize g.writers rank)
    (cpRankOf config.tpSize config.dcpSize rank) l

def canonicalBytes (g : Grid) (config : ParallelConfig) (bs : Nat) : Nat :=
  g.shards * g.regions * (bs * (config.dcpSize * config.pcpSize)) * g.rowBytes

/-- The mapping of a rank places its page as the grid has it. -/
structure Maps (g : Grid) (config : ParallelConfig) (bs rank : Nat) (m : CanonicalPageMapping) :
    Prop where
  canonicalSize : m.canonicalPageSizeBytes = g.canonicalBytes config bs
  localSize : m.localPageSizeBytes = g.pageBytes bs
  bytes : allBytes m.runs = (List.range (g.pageBytes bs)).map fun l => (l, g.placeAt config bs rank l)
  solid : Solid m.runs
  numWriters : m.numWriters = g.writers
  writerIndex : m.writerIndex = writerOf config.tpSize config.dcpSize g.writers rank

section tiles

variable {config : ParallelConfig} {rank rank' l l' : Nat}

section

variable (h : g.Suits config bs)
include h

theorem Suits.digits (inside : l < g.pageBytes bs) :
    l / g.rowBytes / bs < g.regions ∧ l / g.rowBytes % bs < bs ∧ l % g.rowBytes < g.rowBytes := by
  have row : l / g.rowBytes < g.regions * bs :=
    Nat.div_lt_of_lt_mul (by rwa [Nat.mul_comm])
  exact ⟨Nat.div_lt_of_lt_mul (by rwa [Nat.mul_comm]), Nat.mod_lt _ h.block_pos,
    Nat.mod_lt _ h.rowBytes_pos⟩

theorem Suits.at_lt (member : rank < config.groupSize)
    (inside : l < g.pageBytes bs) : g.placeAt config bs rank l < g.canonicalBytes config bs := by
  have ⟨region, token, byte⟩ := h.digits inside
  have cpRank : cpRankOf config.tpSize config.dcpSize rank < config.dcpSize * config.pcpSize :=
    cpRankOf_lt config.dcpSize_pos member
  have bound := h.key.bound (shardOf_lt h.split config.tpSize_pos rank) region
    (tokenAt_lt h.fits cpRank token)
  exact digit_lt bound byte

theorem Suits.at_unique (member : rank < config.groupSize)
    (member' : rank' < config.groupSize) (inside : l < g.pageBytes bs)
    (inside' : l' < g.pageBytes bs) (writer : writerOf config.tpSize config.dcpSize g.writers rank =
    writerOf config.tpSize config.dcpSize g.writers rank')
    (same : g.placeAt config bs rank l = g.placeAt config bs rank' l') : rank = rank' ∧ l = l' := by
  have ⟨region, token, byte⟩ := h.digits inside
  have ⟨region', token', byte'⟩ := h.digits inside'
  have cpRank : cpRankOf config.tpSize config.dcpSize rank < config.dcpSize * config.pcpSize :=
    cpRankOf_lt config.dcpSize_pos member
  have cpRank' : cpRankOf config.tpSize config.dcpSize rank' < config.dcpSize * config.pcpSize :=
    cpRankOf_lt config.dcpSize_pos member'
  have ⟨row, bytes⟩ := digit_unique same byte byte'
  have ⟨shards, regions, tokens⟩ := h.key.unique
    (shardOf_lt h.split config.tpSize_pos rank) region (tokenAt_lt h.fits cpRank token)
    (shardOf_lt h.split config.tpSize_pos rank') region' (tokenAt_lt h.fits cpRank' token') row
  have ⟨ranks, rows⟩ := tokenAt_unique h.fits cpRank cpRank' tokens
  refine ⟨rank_unique config.dcpSize_pos shards writer ranks, ?_⟩
  rw [← Nat.div_add_mod' l g.rowBytes, ← Nat.div_add_mod' l' g.rowBytes,
    ← Nat.div_add_mod' (l / g.rowBytes) bs, ← Nat.div_add_mod' (l' / g.rowBytes) bs,
    regions, rows, bytes]

theorem Suits.at_reach {writer c : Nat} (some : writer < g.writers)
    (inside : c < g.canonicalBytes config bs) :
    ∃ rank < config.groupSize, writerOf config.tpSize config.dcpSize g.writers rank = writer ∧
    ∃ l < g.pageBytes bs, g.placeAt config bs rank l = c := by
  have row : c / g.rowBytes < g.shards * g.regions * (bs * (config.dcpSize * config.pcpSize)) :=
    Nat.div_lt_of_lt_mul (by rwa [Nat.mul_comm])
  have ⟨shard, hs, region, hr, token, ht, key⟩ := h.key.reach _ row
  have ⟨cpRank, hc, j, hj, placed⟩ := tokenAt_reach h.fits ht
  have ⟨rank, member, shards, writers, ranks⟩ :=
    rank_reach h.split config.dcpSize_pos hs some hc
  have byte := Nat.mod_lt c h.rowBytes_pos
  refine ⟨rank, member, writers, (region * bs + j) * g.rowBytes + c % g.rowBytes,
    digit_lt (digit_lt hr hj) byte, ?_⟩
  unfold Grid.placeAt place
  rw [shards, ranks, digit_div byte, digit_mod byte, digit_div hj, digit_mod hj]
  have same : tokenAt (config.ctx rank).cpSize (config.ctx rank).interleave cpRank j = token := placed
  rw [same, key, Nat.div_add_mod']

theorem Suits.tiles {writer : Nat} (some : writer < g.writers) :
    (((List.range config.groupSize).filter fun rank =>
    writer == writerOf config.tpSize config.dcpSize g.writers rank).flatMap fun rank =>
    (List.range (g.pageBytes bs)).map (g.placeAt config bs rank)).Perm
    (List.range (g.canonicalBytes config bs)) := by
  have elected : ∀ rank, rank ∈ (List.range config.groupSize).filter (fun rank =>
      writer == writerOf config.tpSize config.dcpSize g.writers rank) ↔
        rank < config.groupSize ∧
          writer = writerOf config.tpSize config.dcpSize g.writers rank := fun rank => by
    rw [mem_filter, mem_range, beq_iff_eq]
  refine (perm_ext_iff_of_nodup ?_ nodup_range).mpr fun c => ?_
  · refine nodup_flatMap.mpr ⟨fun rank mem => ?_, ?_⟩
    · have ⟨member, _⟩ := (elected rank).mp mem
      refine nodup_range.map_on fun l inside l' inside' same => ?_
      exact (h.at_unique member member (mem_range.mp inside) (mem_range.mp inside')
        rfl same).2
    · refine (nodup_range.filter _).imp_of_mem fun {rank rank'} mem mem' differ => ?_
      have ⟨member, writer⟩ := (elected rank).mp mem
      have ⟨member', writer'⟩ := (elected rank').mp mem'
      intro c here there
      obtain ⟨l, inside, placed⟩ := mem_map.mp here
      obtain ⟨l', inside', placed'⟩ := mem_map.mp there
      exact differ (h.at_unique member member' (mem_range.mp inside)
        (mem_range.mp inside') (writer.symm.trans writer') (placed.trans placed'.symm)).1
  · rw [mem_range, mem_flatMap]
    constructor
    · rintro ⟨rank, mem, here⟩
      obtain ⟨l, inside, rfl⟩ := mem_map.mp here
      exact h.at_lt ((elected rank).mp mem).1 (mem_range.mp inside)
    · intro inside
      have ⟨rank, member, writers, l, less, placed⟩ := h.at_reach some inside
      exact ⟨rank, (elected rank).mpr ⟨member, writers.symm⟩,
        mem_map.mpr ⟨l, mem_range.mpr less, placed⟩⟩

end

end tiles

/-- Rows of all heads of a token, K and V in so many parts of the page. -/
def rows (halves heads headBytes shards writers span : Nat) : Grid where
  shards := shards
  regions := halves
  rowBytes := heads * headBytes
  writers := writers
  key := fun shard region token => (region * span + token) * shards + shard

/-- Rows of one head, K and V in so many parts of the page. -/
def heads (halves heads headBytes shards writers span : Nat) : Grid where
  shards := shards
  regions := halves * heads
  rowBytes := headBytes
  writers := writers
  key := fun shard region token =>
    ((region / heads * shards + shard) * heads + region % heads) * span + token

theorem rows_pages (halves h b shards w span bs shard : Nat) :
    (rows halves h b shards w span).Pages bs shard ((List.range halves).map fun half =>
    ⟨half * bs * (h * b), half * (span * shards * (h * b)) + shard * (h * b), h * b,
    shards * (h * b)⟩) := by
  refine ⟨fun half => half * (span * shards * (h * b)) + shard * (h * b), _, rfl, fun ρ token => ?_⟩
  simp only [rows]
  ring

theorem heads_pages (halves h b shards w span bs shard : Nat) :
    (heads halves h b shards w span).Pages bs shard ((List.range halves).flatMap fun half =>
    (List.range h).map fun head =>
    ⟨half * (bs * h * b) + head * bs * b, (half * (shards * h) + shard * h + head) * span * b,
    b, b⟩) := by
  refine ⟨fun region => ((region / h * shards + shard) * h + region % h) * span * b, b, ?_,
    fun ρ token => ?_⟩
  · unfold heads
    dsimp only
    rw [← map_range_mul]
    refine flatMap_congr fun half _ => map_congr_left fun head mem => ?_
    have less := mem_range.mp mem
    rw [digit_div less, digit_mod less]
    congr 1
    · ring
    · ring
  · simp only [heads]
    ring

end Grid

/-- The physical layouts that the mappings know. -/
inductive Layout where
  | packedNHD
  | packedHND
  | splitNHD
  | splitHND

namespace Layout

def shape (numBlocks bs heads headSize : Nat) : Layout → List Nat
  | packedNHD | packedHND => [numBlocks, heads, bs, 2 * headSize]
  | splitNHD | splitHND => [numBlocks, 2, bs, heads, headSize]

def strides (block bs heads headSize : Nat) : Layout → List Nat
  | packedNHD => [block, 2 * headSize, heads * (2 * headSize), 1]
  | packedHND => [block, bs * (2 * headSize), 2 * headSize, 1]
  | splitNHD => [block, bs * heads * headSize, heads * headSize, headSize, 1]
  | splitHND => [block, bs * heads * headSize, headSize, bs * headSize, 1]

def grid (heads headBytes shards writers span : Nat) : Layout → Grid
  | packedNHD => Grid.rows 1 heads (2 * headBytes) shards writers span
  | packedHND => Grid.heads 1 heads (2 * headBytes) shards writers span
  | splitNHD => Grid.rows 2 heads headBytes shards writers span
  | splitHND => Grid.heads 2 heads headBytes shards writers span

variable {bs h b s w n : Nat} (L : Layout)

theorem grid_shards : (L.grid h b s w n).shards = s := by
  cases L <;> rfl

theorem grid_writers : (L.grid h b s w n).writers = w := by
  cases L <;> rfl

theorem grid_pageBytes : (L.grid h b s w n).pageBytes bs = 2 * bs * h * b := by
  cases L
  case packedNHD => simp only [grid, Grid.rows, Grid.pageBytes]; ring
  case packedHND => simp only [grid, Grid.heads, Grid.pageBytes]; ring
  case splitNHD => simp only [grid, Grid.rows, Grid.pageBytes]; ring
  case splitHND => simp only [grid, Grid.heads, Grid.pageBytes]; ring

theorem grid_regions :
    (L.grid h b s w n).regions * (L.grid h b s w n).rowBytes = 2 * h * b := by
  cases L
  case packedNHD => simp only [grid, Grid.rows]; ring
  case packedHND => simp only [grid, Grid.heads]; ring
  case splitNHD => simp only [grid, Grid.rows]; ring
  case splitHND => simp only [grid, Grid.heads]

theorem grid_canonicalBytes (config : ParallelConfig) :
    (L.grid h b s w n).canonicalBytes config bs =
    config.dcpSize * config.pcpSize * s * (2 * bs * h * b) := by
  have size := L.grid_regions (h := h) (b := b) (s := s) (w := w) (n := n)
  calc (L.grid h b s w n).canonicalBytes config bs
      = s * ((L.grid h b s w n).regions * (L.grid h b s w n).rowBytes) *
          (bs * (config.dcpSize * config.pcpSize)) := by
        rw [Grid.canonicalBytes, L.grid_shards]
        ring
    _ = config.dcpSize * config.pcpSize * s * (2 * bs * h * b) := by
        rw [size]
        ring

theorem grid_key :
    Enumerates s (L.grid h b s w n).regions n (L.grid h b s w n).key := by
  cases L
  case packedNHD => exact enumerates_first s 1 n
  case packedHND => exact enumerates_between s 1 h n
  case splitNHD => exact enumerates_first s 2 n
  case splitHND => exact enumerates_between s 2 h n

end Layout

/-- A tensor of the pages of a layer, by its shape and strides. -/
structure Tensor.InLayout (kvCache : Tensor) (spec : AttentionSpec) (numBlocks : Nat)
    (L : Layout) : Prop where
  shape : kvCache.shape = L.shape numBlocks spec.blockSize spec.numKvHeads spec.headSize
  stride : ∃ block,
    kvCache.stride = L.strides block spec.blockSize spec.numKvHeads spec.headSize

/-- The regions found for a shard are pages of the grid of the layout. -/
def Layout.Lays (L : Layout) (kvCache : Tensor) (spec : AttentionSpec)
    (numBlocks shards cpSize w : Nat) (found : Nat → Option (List ByteRegion)) : Prop :=
  ∀ shard regions, found shard = some regions →
    kvCache.InLayout spec numBlocks L ∧ spec.realPageSizeBytes =
      2 * spec.blockSize * spec.numKvHeads * (spec.headSize * kvCache.elementSize) ∧
    (L.grid spec.numKvHeads (spec.headSize * kvCache.elementSize) shards w
      (spec.blockSize * cpSize)).Pages spec.blockSize shard regions

section regions

variable {kvCache : Tensor} {spec : AttentionSpec} {numBlocks shards cpSize : Nat}

theorem packedKvRegions_pages (w : Nat)
    (shape : kvCache.shape = [numBlocks, spec.numKvHeads, spec.blockSize, 2 * spec.headSize]) :
    ∃ L : Layout, L.Lays kvCache spec numBlocks shards cpSize w fun shard =>
      packedKvRegions kvCache spec shard shards cpSize := by
  unfold packedKvRegions
  dsimp only
  split
  · exact ⟨.packedNHD, fun _ _ found => nomatch found⟩
  next page =>
    have page := Classical.not_not.mp page
    have size : spec.realPageSizeBytes =
        2 * spec.blockSize * spec.numKvHeads * (spec.headSize * kvCache.elementSize) := by
      rw [← page]
      ring
    split
    next block headStride tokenStride innerStride strides =>
      split
      · exact ⟨.packedNHD, fun _ _ found => nomatch found⟩
      next inner =>
        obtain rfl := Classical.not_not.mp inner
        split
        next nhd =>
          obtain ⟨rfl, rfl⟩ := nhd
          refine ⟨.packedNHD, fun shard regions found => ?_⟩
          cases found
          refine ⟨⟨shape, block, strides⟩, size, ?_⟩
          have pages := Grid.rows_pages 1 spec.numKvHeads
            (2 * (spec.headSize * kvCache.elementSize)) shards w (spec.blockSize * cpSize)
            spec.blockSize shard
          simp only [range_one, map_singleton, Nat.zero_mul, Nat.zero_add] at pages
          rw [Nat.mul_assoc 2]
          exact pages
        · split
          next hnd =>
            obtain ⟨rfl, rfl⟩ := hnd
            refine ⟨.packedHND, fun shard regions found => ?_⟩
            cases found
            refine ⟨⟨shape, block, strides⟩, size, ?_⟩
            have pages := Grid.heads_pages 1 spec.numKvHeads
              (2 * (spec.headSize * kvCache.elementSize)) shards w (spec.blockSize * cpSize)
              spec.blockSize shard
            simp only [range_one, flatMap_singleton, Nat.zero_mul, Nat.zero_add] at pages
            rw [Nat.mul_assoc 2]
            exact pages
          · exact ⟨.packedNHD, fun _ _ found => nomatch found⟩
    · exact ⟨.packedNHD, fun _ _ found => nomatch found⟩

theorem splitKvRegions_pages (w : Nat)
    (shape : kvCache.shape = [numBlocks, 2, spec.blockSize, spec.numKvHeads, spec.headSize]) :
    ∃ L : Layout, L.Lays kvCache spec numBlocks shards cpSize w fun shard =>
      splitKvRegions kvCache spec shard shards cpSize := by
  unfold splitKvRegions
  dsimp only
  split
  · exact ⟨.splitNHD, fun _ _ found => nomatch found⟩
  next page =>
    have page := Classical.not_not.mp page
    have size : spec.realPageSizeBytes =
        2 * spec.blockSize * spec.numKvHeads * (spec.headSize * kvCache.elementSize) := by
      rw [← page]
      ring
    split
    next block halfStride tokenStride headStride innerStride strides =>
      split
      · exact ⟨.splitNHD, fun _ _ found => nomatch found⟩
      next inner =>
        obtain ⟨inner, half⟩ := not_or.mp inner
        obtain rfl := Classical.not_not.mp inner
        obtain rfl := Classical.not_not.mp half
        split
        next nhd =>
          obtain ⟨rfl, rfl⟩ := nhd
          refine ⟨.splitNHD, fun shard regions found => ?_⟩
          cases found
          exact ⟨⟨shape, block, strides⟩, size, Grid.rows_pages 2 _ _ shards w _ _ shard⟩
        · split
          next hnd =>
            obtain ⟨rfl, rfl⟩ := hnd
            refine ⟨.splitHND, fun shard regions found => ?_⟩
            cases found
            exact ⟨⟨shape, block, strides⟩, size, Grid.heads_pages 2 _ _ shards w _ _ shard⟩
          · exact ⟨.splitNHD, fun _ _ found => nomatch found⟩
    · exact ⟨.splitNHD, fun _ _ found => nomatch found⟩

theorem attentionByteRegions_pages (kvCache : Tensor) (spec : AttentionSpec)
    (numBlocks shards cpSize w : Nat) :
    ∃ L : Layout, L.Lays kvCache spec numBlocks shards cpSize w fun shard =>
      attentionByteRegions kvCache spec numBlocks shard shards cpSize := by
  unfold attentionByteRegions
  dsimp only
  split
  next packed => exact packedKvRegions_pages w packed
  · split
    next split => exact splitKvRegions_pages w split
    · exact ⟨.packedNHD, fun _ _ found => nomatch found⟩

end regions

section mappings

variable {config : ParallelConfig} {spec : AttentionSpec}

theorem headShards_split {rank shards replication : Nat}
    (h : headShards spec (config.ctx rank) = some (shards, replication)) :
    config.tpSize = shards * replication ∧ shards * spec.numKvHeads = config.totalKvHeads := by
  have total : (config.ctx rank).totalKvHeads = config.totalKvHeads := rfl
  have tp : (config.ctx rank).tpSize = config.tpSize := rfl
  unfold headShards at h
  dsimp only at h
  rw [total, tp] at h
  have positive := config.tpSize_pos
  have positive' := config.totalKvHeads_pos
  split at h
  · cases h
  next heads =>
    have heads := Classical.not_not.mp heads
    split at h
    next many =>
      split at h
      · cases h
      next divides =>
        cases h
        have divides := Classical.not_not.mp divides
        have some : 1 ≤ config.totalKvHeads / config.tpSize := Nat.div_pos many positive
        refine ⟨(Nat.mul_one _).symm, ?_⟩
        rw [heads, Nat.max_eq_right some]
        exact Nat.mul_div_cancel' (Nat.dvd_of_mod_eq_zero divides)
    next few =>
      split at h
      · cases h
      next divides =>
        cases h
        have divides := Classical.not_not.mp divides
        refine ⟨(Nat.mul_div_cancel' (Nat.dvd_of_mod_eq_zero divides)).symm, ?_⟩
        rw [heads, Nat.div_eq_of_lt (Nat.lt_of_not_le few)]
        exact Nat.mul_one _

theorem grid_suits {L : Layout} {shards writers b : Nat}
    (fits : Fits (config.dcpSize * config.pcpSize) config.interleave spec.blockSize)
    (split : config.tpSize = shards * (writers * config.dcpSize)) (positive : 0 < b) :
    (L.grid spec.numKvHeads b shards writers
    (spec.blockSize * (config.dcpSize * config.pcpSize))).Suits config spec.blockSize := by
  have sizes := L.grid_regions (h := spec.numKvHeads) (b := b) (s := shards) (w := writers)
    (n := spec.blockSize * (config.dcpSize * config.pcpSize))
  have some : 0 < 2 * spec.numKvHeads * b :=
    Nat.mul_pos (Nat.mul_pos Nat.two_pos spec.numKvHeads_pos) positive
  rw [← sizes] at some
  exact
    { split := by
        rw [L.grid_shards, L.grid_writers]
        exact split
      rowBytes_pos := Nat.pos_of_mul_pos_left some
      regions_pos := Nat.pos_of_mul_pos_right some
      block_pos := spec.blockSize_pos
      fits := fits
      key := by
        rw [L.grid_shards]
        exact L.grid_key }

theorem headsMapping_maps (kv : Tensor) (numBlocks : Nat)
    (fits : Fits (config.dcpSize * config.pcpSize) config.interleave spec.blockSize) :
    ∃ (L : Layout) (shards writers : Nat), ∀ rank m,
    headsMapping spec (some kv) numBlocks (config.ctx rank) = some m →
    kv.InLayout spec numBlocks L ∧ shards * spec.numKvHeads = config.totalKvHeads ∧
    (L.grid spec.numKvHeads (spec.headSize * kv.elementSize) shards writers
    (spec.blockSize * (config.dcpSize * config.pcpSize))).Suits config spec.blockSize ∧
    (L.grid spec.numKvHeads (spec.headSize * kv.elementSize) shards writers
    (spec.blockSize * (config.dcpSize * config.pcpSize))).Maps config spec.blockSize rank m ∧
    m.parallelismAgnostic = (config.dcpSize * config.pcpSize == 1) := by
  cases hs : headShards spec (config.ctx 0) with
  | none =>
    refine ⟨.packedNHD, 0, 0, fun rank m found => ?_⟩
    have hs : headShards spec (config.ctx rank) = none := hs
    unfold headsMapping at found
    dsimp only at found
    rw [hs] at found
    split at found <;> cases found
  | some result =>
    obtain ⟨shards, replication⟩ := result
    have ⟨split, total⟩ := headShards_split hs
    have ⟨L, pages⟩ := attentionByteRegions_pages kv spec numBlocks shards
      (config.dcpSize * config.pcpSize) (replication / config.dcpSize)
    refine ⟨L, shards, replication / config.dcpSize, fun rank m found => ?_⟩
    have hs : headShards spec (config.ctx rank) = some (shards, replication) := hs
    unfold headsMapping at found
    dsimp only at found
    rw [hs] at found
    split at found
    · cases found
    dsimp only at found
    split at found
    · cases found
    next divides =>
      have divides := Classical.not_not.mp divides
      have replicas : replication / config.dcpSize * config.dcpSize = replication :=
        Nat.div_mul_cancel (Nat.dvd_of_mod_eq_zero divides)
      split at found
      · cases found
      next regions recognised =>
        cases found
        have ⟨layout, page, placed⟩ := pages _ _ recognised
        have suits := grid_suits (L := L) (b := spec.headSize * kv.elementSize) fits
          (split.trans (by rw [replicas])) (Nat.mul_pos spec.headSize_pos kv.elementSize_pos)
        refine ⟨layout, total, suits, ?_, rfl⟩
        have fits' : Fits (config.ctx rank).cpSize (config.ctx rank).interleave spec.blockSize :=
          fits
        exact
          { canonicalSize := by
              rw [L.grid_canonicalBytes, page]
              rfl
            localSize := page.trans L.grid_pageBytes.symm
            bytes := by
              rw [placed.bytes fits']
              unfold Grid.placeAt shardOf
              rw [L.grid_writers, replicas]
              rfl
            solid := placed.solid suits.rowBytes_pos
            numWriters := L.grid_writers.symm
            writerIndex := by
              unfold writerOf
              rw [L.grid_writers, replicas]
              rfl }

theorem realPageSizeBytes_pos (states : spec.tokensPerState = 1) : 0 < spec.realPageSizeBytes := by
  have heads : 0 < spec.numHeads := by
    unfold AttentionSpec.numHeads
    cases h : spec.numHeadSlots with
    | none => exact spec.numKvHeads_pos
    | some n => exact spec.numHeadSlots_pos n h
  have content : 0 < spec.stateContentSizeBytes := by
    unfold AttentionSpec.stateContentSizeBytes
    cases h : spec.stateContentBytes with
    | none => exact Nat.mul_pos (Nat.add_pos_left spec.headSize_pos _) spec.dtypeSize_pos
    | some n => exact spec.stateContentBytes_pos n h
  have some : spec.numStates = spec.blockSize := by
    unfold AttentionSpec.numStates
    rw [states, if_pos one_pos, div_one]
    exact congrArg Int.toNat (Rat.floor_intCast spec.blockSize)
  unfold AttentionSpec.realPageSizeBytes
  rw [some]
  exact Nat.mul_pos (Nat.mul_pos heads spec.blockSize_pos) content

def latentGrid (config : ParallelConfig) (spec : AttentionSpec) : Grid :=
  Grid.rows 1 1 (spec.realPageSizeBytes / spec.blockSize) 1 (config.tpSize / config.dcpSize)
    (spec.blockSize * (config.dcpSize * config.pcpSize))

theorem latentMapping_maps {rank : Nat} {m : CanonicalPageMapping}
    (fits : Fits (config.dcpSize * config.pcpSize) config.interleave spec.blockSize)
    (h : latentMapping spec (config.ctx rank) = some m) :
    let g := latentGrid config spec
    g.Suits config spec.blockSize ∧ g.Maps config spec.blockSize rank m ∧
      m.parallelismAgnostic = (config.dcpSize * config.pcpSize == 1) := by
  intro g
  have fits' : Fits (config.ctx rank).cpSize (config.ctx rank).interleave spec.blockSize := fits
  unfold latentMapping at h
  dsimp only at h
  split at h
  · cases h
  next certified =>
    cases h
    simp only [not_or, Classical.not_not] at certified
    obtain ⟨states, whole, replicas, _⟩ := certified
    have row : spec.realPageSizeBytes / spec.blockSize * spec.blockSize = spec.realPageSizeBytes :=
      Nat.div_mul_cancel (Nat.dvd_of_mod_eq_zero whole)
    have rowBytes : g.rowBytes = spec.realPageSizeBytes / spec.blockSize := Nat.one_mul _
    have writers : g.writers * config.dcpSize = config.tpSize :=
      Nat.div_mul_cancel (Nat.dvd_of_mod_eq_zero replicas)
    have positive : 0 < g.rowBytes := by
      have page := realPageSizeBytes_pos states
      rw [← row] at page
      rw [rowBytes]
      exact Nat.pos_of_mul_pos_right page
    have inside : rank % config.tpSize < config.tpSize := Nat.mod_lt _ config.tpSize_pos
    have pages := Grid.rows_pages 1 1 (spec.realPageSizeBytes / spec.blockSize) 1
      (config.tpSize / config.dcpSize) (spec.blockSize * (config.dcpSize * config.pcpSize))
      spec.blockSize 0
    simp only [range_one, map_singleton, Nat.zero_mul, Nat.one_mul, Nat.zero_add] at pages
    refine ⟨?_, ?_, rfl⟩
    · exact
        { split := by
            rw [writers]
            exact (Nat.one_mul _).symm
          rowBytes_pos := positive
          regions_pos := Nat.one_pos
          block_pos := spec.blockSize_pos
          fits := fits
          key := enumerates_first 1 1 _ }
    · exact
        { canonicalSize := by
            have size : g.canonicalBytes config spec.blockSize = config.dcpSize * config.pcpSize *
                (spec.realPageSizeBytes / spec.blockSize * spec.blockSize) := by
              simp only [Grid.canonicalBytes, g, latentGrid, Grid.rows]
              ring
            rw [size, row]
            rfl
          localSize := by
            have size : g.pageBytes spec.blockSize =
                spec.realPageSizeBytes / spec.blockSize * spec.blockSize := by
              simp only [Grid.pageBytes, g, latentGrid, Grid.rows]
              ring
            rw [size, row]
          bytes := by
            rw [Grid.Pages.bytes pages fits']
            unfold Grid.placeAt shardOf
            rw [writers, Nat.div_eq_of_lt inside]
            rfl
          solid := Grid.Pages.solid pages positive
          numWriters := rfl
          writerIndex := by
            unfold writerOf
            rw [writers, Nat.mod_eq_of_lt inside]
            rfl }

theorem layerMapping_cases {kvCache : Option Tensor} {numBlocks rank : Nat}
    {m : CanonicalPageMapping}
    (h : layerMapping (.attention spec) kvCache numBlocks (config.ctx rank) = some m) :
    Fits (config.dcpSize * config.pcpSize) config.interleave spec.blockSize ∧
    (if spec.mla then latentMapping spec (config.ctx rank) = some m
    else headsMapping spec kvCache numBlocks (config.ctx rank) = some m) := by
  unfold layerMapping at h
  dsimp only at h
  split at h
  · cases h
  next certified =>
    refine ⟨fun several => ?_, ?_⟩
    · have positive : 0 < config.dcpSize * config.pcpSize :=
        Nat.mul_pos config.dcpSize_pos config.pcpSize_pos
      have many : 1 < (config.ctx rank).cpSize := Nat.lt_of_le_of_ne positive (Ne.symm several)
      have divides : spec.blockSize % config.interleave = 0 := by
        by_contra broken
        exact certified ⟨many, .inr broken⟩
      refine ⟨Nat.pos_of_ne_zero fun none => ?_, Nat.dvd_of_mod_eq_zero divides⟩
      rw [none, Nat.mod_zero] at divides
      have := spec.blockSize_pos
      omega
    · split at h
      next latent => rwa [if_pos latent]
      next heads => rwa [if_neg heads]

end mappings

section layers

variable (layer : Layer)

theorem Layer.mapping_maps : ∃ (g : Grid) (bs : Nat), ∀ rank m, layer.mapping rank = some m →
    g.Suits layer.config bs ∧ g.Maps layer.config bs rank m := by
  obtain ⟨config, spec, kvCache, numBlocks⟩ := layer
  cases spec with
  | other => exact ⟨⟨0, 0, 0, 0, fun _ _ _ => 0⟩, 0, fun _ _ found => nomatch found⟩
  | attention spec =>
    by_cases fits : Fits (config.dcpSize * config.pcpSize) config.interleave spec.blockSize
    · by_cases mla : spec.mla = true
      · refine ⟨latentGrid config spec, spec.blockSize, fun rank m found => ?_⟩
        have latent := (layerMapping_cases found).2
        rw [if_pos mla] at latent
        have ⟨suits, maps, _⟩ := latentMapping_maps fits latent
        exact ⟨suits, maps⟩
      · cases kvCache with
        | none =>
          refine ⟨⟨0, 0, 0, 0, fun _ _ _ => 0⟩, 0, fun rank m found => ?_⟩
          have heads := (layerMapping_cases found).2
          rw [if_neg mla] at heads
          cases heads
        | some kv =>
          have ⟨L, shards, writers, described⟩ := headsMapping_maps kv numBlocks fits
          refine ⟨L.grid spec.numKvHeads (spec.headSize * kv.elementSize) shards writers
            (spec.blockSize * (config.dcpSize * config.pcpSize)), spec.blockSize,
              fun rank m found => ?_⟩
          have heads := (layerMapping_cases found).2
          rw [if_neg mla] at heads
          have ⟨_, _, suits, maps, _⟩ := described rank m heads
          exact ⟨suits, maps⟩
    · refine ⟨⟨0, 0, 0, 0, fun _ _ _ => 0⟩, 0, fun rank m found => ?_⟩
      exact absurd (layerMapping_cases found).1 fits

theorem mapM_eq_some {α β : Type} {f : α → Option β} {l : List α} {l' : List β}
    (h : l.mapM f = some l') : l.map f = l'.map some := by
  induction l generalizing l' with
  | nil =>
    cases h
    rfl
  | cons a rest ih =>
    rw [mapM_cons] at h
    cases first : f a with
    | none =>
      rw [first] at h
      cases h
    | some b =>
      cases others : rest.mapM f with
      | none =>
        rw [first, others] at h
        cases h
      | some bs =>
        rw [first, others] at h
        cases h
        rw [map_cons, map_cons, first, ih others]

section pages

variable {g : Grid} {config : ParallelConfig} {bs rank : Nat} {m : CanonicalPageMapping}

theorem Grid.Maps.local_points (h : g.Maps config bs rank m) :
    ((runIntervals m.runs false).flatMap points).Perm (List.range m.localPageSizeBytes) := by
  refine (runIntervals_points false m.runs).trans (List.Perm.of_eq ?_)
  rw [h.bytes, h.localSize, map_map]
  exact map_id _

theorem Grid.Maps.canonical_points (h : g.Maps config bs rank m) :
    ((runIntervals m.runs true).flatMap points).Perm
    ((List.range (g.pageBytes bs)).map (g.placeAt config bs rank)) := by
  refine (runIntervals_points true m.runs).trans (List.Perm.of_eq ?_)
  rw [h.bytes, map_map]
  rfl

theorem Grid.Suits.pageBytes_pos (h : g.Suits config bs) : 0 < g.pageBytes bs :=
  Nat.mul_pos (Nat.mul_pos h.regions_pos h.block_pos) h.rowBytes_pos

theorem Grid.Suits.writers_pos (h : g.Suits config bs) : 0 < g.writers ∧ 0 < g.shards := by
  have positive := config.tpSize_pos
  rw [h.split] at positive
  exact ⟨Nat.pos_of_mul_pos_right (Nat.pos_of_mul_pos_left positive),
    Nat.pos_of_mul_pos_right positive⟩

theorem Grid.Suits.canonicalBytes_pos (h : g.Suits config bs) : 0 < g.canonicalBytes config bs :=
  Nat.mul_pos (Nat.mul_pos (Nat.mul_pos h.writers_pos.2 h.regions_pos)
    (Nat.mul_pos h.block_pos (Nat.mul_pos config.dcpSize_pos config.pcpSize_pos))) h.rowBytes_pos

theorem Grid.Maps.local_partition (h : g.Maps config bs rank m) (suits : g.Suits config bs) :
    isExactPartition (runIntervals m.runs false) m.localPageSizeBytes = true := by
  refine isExactPartition_of_points (sorted_pairwise _) (h.solid.intervals false) ?_ h.local_points
  rw [h.localSize]
  exact suits.pageBytes_pos

end pages

variable {layer} {perRank : List CanonicalPageMapping} {g : Grid} {bs : Nat}

theorem Layer.rank_of_mem (h : layer.perRank = some perRank) {m : CanonicalPageMapping}
    (mem : m ∈ perRank) : ∃ rank < layer.config.groupSize, layer.mapping rank = some m := by
  have same := mapM_eq_some h
  have listed : some m ∈ perRank.map some := mem_map_of_mem mem
  rw [← same] at listed
  have ⟨rank, inside, found⟩ := mem_map.mp listed
  exact ⟨rank, mem_range.mp inside, found⟩

section

variable (h : layer.perRank = some perRank)
  (described : ∀ rank m, layer.mapping rank = some m → g.Suits layer.config bs ∧ g.Maps layer.config bs rank m)
  (suits : g.Suits layer.config bs) (blockId : Nat)
include h described suits blockId

theorem Layer.stored_points :
    ((stored perRank blockId).flatMap points).Perm
    (List.range (g.canonicalBytes layer.config bs)) := by
  have some' : blockId % g.writers < g.writers := Nat.mod_lt _ suits.writers_pos.1
  refine ((sorted_perm _).flatMap_right points).trans (.trans ?_ (suits.tiles some'))
  rw [flatMap_assoc]
  have same := mapM_eq_some h
  have elected : ∀ (ranks : List Nat) (mappings : List CanonicalPageMapping),
      ranks.map layer.mapping = mappings.map some →
        ((mappings.filter fun m => m.isWriter blockId).flatMap fun m =>
          (runIntervals m.runs true).flatMap points).Perm
        ((ranks.filter fun rank => blockId % g.writers == writerOf layer.config.tpSize
          layer.config.dcpSize g.writers rank).flatMap fun rank =>
            (List.range (g.pageBytes bs)).map (g.placeAt layer.config bs rank)) := by
    intro ranks
    induction ranks with
    | nil =>
      intro mappings same
      rw [map_eq_nil_iff.mp same.symm]
      exact .refl _
    | cons rank rest ih =>
      intro mappings same
      cases mappings with
      | nil => cases same
      | cons m mappings =>
        have ⟨found, others⟩ := List.cons.inj same
        have ⟨_, maps⟩ := described rank m found
        have writer : m.isWriter blockId = (blockId % g.writers == writerOf layer.config.tpSize
            layer.config.dcpSize g.writers rank) := by
          rw [CanonicalPageMapping.isWriter, maps.numWriters, maps.writerIndex]
        rw [List.filter_cons, List.filter_cons, writer]
        split
        · rw [flatMap_cons, flatMap_cons]
          exact maps.canonical_points.append (ih mappings others)
        · exact ih mappings others
  exact elected _ _ same

theorem Layer.stored_partition :
    isExactPartition (stored perRank blockId) (g.canonicalBytes layer.config bs) = true := by
  refine isExactPartition_of_points (sorted_pairwise _) ?_ suits.canonicalBytes_pos
    (Layer.stored_points h described suits blockId)
  intro i mem
  have ⟨m, listed, mem⟩ := mem_flatMap.mp ((sorted_perm _).mem_iff.mp mem)
  have ⟨rank, _, found⟩ := Layer.rank_of_mem h (mem_filter.mp listed).1
  exact (described rank m found).2.solid.intervals true i mem

end

end layers

end VllmAmpere.Canonical
