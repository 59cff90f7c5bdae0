import VllmAmpere.CanonicalTiling

/-! Where the elements of a layer stand in its canonical pages: deployments that shard no
tokens agree on it. -/

open List

namespace VllmAmpere.Canonical

open Tilings

/-- A byte of an element of K or V, by its token of the block and its head of the model. -/
structure Element where
  token : Nat
  head : Nat
  half : Nat
  element : Nat
  byte : Nat

/-- The position of an entry of the first block, from the strides. -/
def Tensor.address (kvCache : Tensor) (index : List Nat) : Nat :=
  (List.zipWith (· * ·) index kvCache.stride).sum * kvCache.elementSize

/-- An element stands at a position of the page of a rank whose ranks replicate a latent. -/
def HoldsLatent (spec : AttentionSpec) (x : Element) (l : Nat) : Prop :=
  x.token < spec.blockSize ∧ x.head = 0 ∧ x.half = 0 ∧ x.byte < spec.dtypeSize ∧
    x.element * spec.dtypeSize + x.byte < spec.realPageSizeBytes / spec.blockSize ∧
      l = x.token * (spec.realPageSizeBytes / spec.blockSize) +
        (x.element * spec.dtypeSize + x.byte)

/-- An element stands at a position of the page of a rank that holds its head. -/
def HoldsHead (layer : Layer) (spec : AttentionSpec) (rank : Nat) (x : Element) (l : Nat) : Prop :=
  ∃ kv shards replication head, layer.kvCache = some kv ∧
    headShards spec (layer.config.ctx rank) = some (shards, replication) ∧
    head < spec.numKvHeads ∧
    x.head = rank % layer.config.tpSize / replication * spec.numKvHeads + head ∧
    x.token < spec.blockSize ∧ x.half < 2 ∧ x.element < spec.headSize ∧ x.byte < kv.elementSize ∧
    l = x.byte +
      if kv.shape = [layer.numBlocks, spec.numKvHeads, spec.blockSize, 2 * spec.headSize] then
        kv.address [0, head, x.token, x.half * spec.headSize + x.element]
      else kv.address [0, x.half, x.token, head, x.element]

def Holds (layer : Layer) (spec : AttentionSpec) (rank : Nat) (x : Element) (l : Nat) : Prop :=
  if spec.mla then HoldsLatent spec x l else HoldsHead layer spec rank x l

/-- Layers of the same model and of the same physical layout. -/
def SameModel (layer layer' : Layer) (spec spec' : AttentionSpec) : Prop :=
  spec.mla = spec'.mla ∧
    if spec.mla then
      spec.realPageSizeBytes = spec'.realPageSizeBytes ∧ spec.dtypeSize = spec'.dtypeSize
    else
      layer.config.totalKvHeads = layer'.config.totalKvHeads ∧ spec.headSize = spec'.headSize ∧
        ∃ (L : Layout) (kv kv' : Tensor), layer.kvCache = some kv ∧ layer'.kvCache = some kv' ∧
          kv.elementSize = kv'.elementSize ∧ kv.InLayout spec layer.numBlocks L ∧
          kv'.InLayout spec' layer'.numBlocks L

def Places (m : CanonicalPageMapping) (l c : Nat) : Prop := (l, c) ∈ allBytes m.runs

/-- The canonical position of an element, from what deployments have in common. -/
def Layout.canonicalByte (bs total headSize elementSize : Nat) (x : Element) : Layout → Nat
  | packedNHD =>
    (((x.token * total + x.head) * 2 + x.half) * headSize + x.element) * elementSize + x.byte
  | packedHND =>
    (((x.head * bs + x.token) * 2 + x.half) * headSize + x.element) * elementSize + x.byte
  | splitNHD =>
    (((x.half * bs + x.token) * total + x.head) * headSize + x.element) * elementSize + x.byte
  | splitHND =>
    (((x.half * total + x.head) * bs + x.token) * headSize + x.element) * elementSize + x.byte

section place

variable {g : Grid} {bs : Nat} {ctx : RankContext} {shard cpRank : Nat}

theorem place_row (single : ctx.cpSize = 1) {region token r : Nat} (inside : token < bs)
    (less : r < g.rowBytes) : g.place bs ctx shard cpRank ((region * bs + token) * g.rowBytes + r) =
    g.key shard region token * g.rowBytes + r := by
  unfold Grid.place tokenAt
  rw [digit_div less, digit_mod less, digit_div inside, digit_mod inside, if_pos single]

variable {kv : Tensor} {spec : AttentionSpec} {numBlocks shards writers : Nat}

/-- The grid of the layout of a tensor places the elements of a head where the layout has
them. -/
theorem Tensor.InLayout.place (shards writers cpRank : Nat) {L : Layout}
    (h : kv.InLayout spec numBlocks L) (single : ctx.cpSize = 1) {x : Element} {head : Nat} (less : head < spec.numKvHeads)
    (owned : x.head = shard * spec.numKvHeads + head) (token : x.token < spec.blockSize)
    (half : x.half < 2) (element : x.element < spec.headSize) (byte : x.byte < kv.elementSize)
    {l : Nat} (address : l = x.byte +
    if kv.shape = [numBlocks, spec.numKvHeads, spec.blockSize, 2 * spec.headSize] then
    kv.address [0, head, x.token, x.half * spec.headSize + x.element]
    else kv.address [0, x.half, x.token, head, x.element]) :
    l < 2 * spec.blockSize * spec.numKvHeads * (spec.headSize * kv.elementSize) ∧
    (L.grid spec.numKvHeads (spec.headSize * kv.elementSize) shards writers
    spec.blockSize).place spec.blockSize ctx shard cpRank l =
    L.canonicalByte spec.blockSize (shards * spec.numKvHeads) spec.headSize kv.elementSize x := by
  obtain ⟨block, strides⟩ := h.stride
  have shape := h.shape
  have column : x.element * kv.elementSize + x.byte < spec.headSize * kv.elementSize :=
    digit_lt element byte
  -- the row of the layout that holds the element, and its place in the row
  have row : ∃ region r, region < (L.grid spec.numKvHeads (spec.headSize * kv.elementSize) shards
        writers spec.blockSize).regions ∧
      r < (L.grid spec.numKvHeads (spec.headSize * kv.elementSize) shards writers
        spec.blockSize).rowBytes ∧
      l = (region * spec.blockSize + x.token) * (L.grid spec.numKvHeads
        (spec.headSize * kv.elementSize) shards writers spec.blockSize).rowBytes + r ∧
      (L.grid spec.numKvHeads (spec.headSize * kv.elementSize) shards writers
        spec.blockSize).key shard region x.token * (L.grid spec.numKvHeads
          (spec.headSize * kv.elementSize) shards writers spec.blockSize).rowBytes + r =
        L.canonicalByte spec.blockSize (shards * spec.numKvHeads) spec.headSize kv.elementSize x := by
    cases L with
    | packedNHD =>
      have packed : kv.shape = [numBlocks, spec.numKvHeads, spec.blockSize, 2 * spec.headSize] := shape
      refine ⟨0, (head * 2 + x.half) * (spec.headSize * kv.elementSize) +
        (x.element * kv.elementSize + x.byte), Nat.one_pos, ?_, ?_, ?_⟩
      · have vector := digit_lt (digit_lt less half) column
        rw [Nat.mul_assoc spec.numKvHeads] at vector
        exact vector
      · rw [address, if_pos packed, Tensor.address, strides]
        simp only [Layout.strides, zipWith_cons_cons, zipWith_nil_right, sum_cons,
          sum_nil, Layout.grid, Grid.rows]
        ring
      · simp only [Layout.grid, Grid.rows, Layout.canonicalByte, owned]
        ring
    | packedHND =>
      have packed : kv.shape = [numBlocks, spec.numKvHeads, spec.blockSize, 2 * spec.headSize] := shape
      refine ⟨head, x.half * (spec.headSize * kv.elementSize) +
        (x.element * kv.elementSize + x.byte), ?_, digit_lt half column, ?_, ?_⟩
      · simp only [Layout.grid, Grid.heads]
        omega
      · rw [address, if_pos packed, Tensor.address, strides]
        simp only [Layout.strides, zipWith_cons_cons, zipWith_nil_right, sum_cons,
          sum_nil, Layout.grid, Grid.heads]
        ring
      · simp only [Layout.grid, Grid.heads, Layout.canonicalByte, owned, Nat.div_eq_of_lt less,
          Nat.mod_eq_of_lt less]
        ring
    | splitNHD =>
      have unpacked : kv.shape ≠ [numBlocks, spec.numKvHeads, spec.blockSize, 2 * spec.headSize] := by
        rw [shape]
        intro same
        cases congrArg List.length same
      refine ⟨x.half, head * (spec.headSize * kv.elementSize) +
        (x.element * kv.elementSize + x.byte), half, digit_lt less column, ?_, ?_⟩
      · rw [address, if_neg unpacked, Tensor.address, strides]
        simp only [Layout.strides, zipWith_cons_cons, zipWith_nil_right, sum_cons,
          sum_nil, Layout.grid, Grid.rows]
        ring
      · simp only [Layout.grid, Grid.rows, Layout.canonicalByte, owned]
        ring
    | splitHND =>
      have unpacked : kv.shape ≠ [numBlocks, spec.numKvHeads, spec.blockSize, 2 * spec.headSize] := by
        rw [shape]
        intro same
        cases congrArg List.length same
      refine ⟨x.half * spec.numKvHeads + head, x.element * kv.elementSize + x.byte,
        digit_lt half less, column, ?_, ?_⟩
      · rw [address, if_neg unpacked, Tensor.address, strides]
        simp only [Layout.strides, zipWith_cons_cons, zipWith_nil_right, sum_cons,
          sum_nil, Layout.grid, Grid.heads]
        ring
      · simp only [Layout.grid, Grid.heads, Layout.canonicalByte, owned, digit_div less,
          digit_mod less]
        ring
  obtain ⟨region, r, inside, small, here, there⟩ := row
  refine ⟨?_, ?_⟩
  · rw [← L.grid_pageBytes (w := writers) (s := shards) (n := spec.blockSize), here]
    exact digit_lt (digit_lt inside token) small
  · rw [here, place_row single token small, there]

theorem rows_place {halves h b n : Nat} (single : ctx.cpSize = 1) (alone : h = 1) (one : n = 1)
    (l : Nat) : (Grid.rows halves h b shards writers n).place n ctx shard cpRank l =
    (Grid.heads halves h b shards writers n).place n ctx shard cpRank l := by
  subst alone one
  have first : tokenAt ctx.cpSize ctx.interleave cpRank 0 = 0 := if_pos single
  simp only [Grid.place, Grid.rows, Grid.heads, Nat.one_mul, Nat.div_one, Nat.mul_one,
    Nat.add_zero, Nat.mod_one, first]

theorem one_of_mul_eq {a b : Nat} (positive : 0 < b) (h : a * b = b) : a = 1 :=
  Nat.eq_of_mul_eq_mul_right positive (h.trans (Nat.one_mul b).symm)

/-- Layouts with the same strides agree on where the grid places the bytes of a page. -/
theorem Tensor.InLayout.place_congr {L L' : Layout} (h : kv.InLayout spec numBlocks L)
    (h' : kv.InLayout spec numBlocks L') (single : ctx.cpSize = 1) (l : Nat) :
    (L.grid spec.numKvHeads (spec.headSize * kv.elementSize) shards writers
    spec.blockSize).place spec.blockSize ctx shard cpRank l =
    (L'.grid spec.numKvHeads (spec.headSize * kv.elementSize) shards writers
    spec.blockSize).place spec.blockSize ctx shard cpRank l := by
  have shapes := h.shape.symm.trans h'.shape
  have ⟨block, strides⟩ := h.stride
  have ⟨block', strides'⟩ := h'.stride
  have strides := strides.symm.trans strides'
  have size := spec.headSize_pos
  cases L
  case packedNHD =>
    cases L'
    case packedNHD => rfl
    case packedHND =>
      simp only [Layout.strides, List.cons.injEq] at strides
      obtain ⟨_, one, alone, _⟩ := strides
      exact rows_place single (one_of_mul_eq (by omega) alone) (one_of_mul_eq (by omega) one.symm) l
    case splitNHD => cases congrArg List.length shapes
    case splitHND => cases congrArg List.length shapes
  case packedHND =>
    cases L'
    case packedHND => rfl
    case packedNHD =>
      simp only [Layout.strides, List.cons.injEq] at strides
      obtain ⟨_, one, alone, _⟩ := strides
      exact (rows_place single (one_of_mul_eq (by omega) alone.symm)
        (one_of_mul_eq (by omega) one) l).symm
    case splitNHD => cases congrArg List.length shapes
    case splitHND => cases congrArg List.length shapes
  case splitNHD =>
    cases L'
    case splitNHD => rfl
    case splitHND =>
      simp only [Layout.strides, List.cons.injEq] at strides
      obtain ⟨_, _, alone, one, _⟩ := strides
      exact rows_place single (one_of_mul_eq size alone) (one_of_mul_eq size one.symm) l
    case packedNHD => cases congrArg List.length shapes
    case packedHND => cases congrArg List.length shapes
  case splitHND =>
    cases L'
    case splitHND => rfl
    case splitNHD =>
      simp only [Layout.strides, List.cons.injEq] at strides
      obtain ⟨_, _, alone, one, _⟩ := strides
      exact (rows_place single (one_of_mul_eq size alone.symm) (one_of_mul_eq size one) l).symm
    case packedNHD => cases congrArg List.length shapes
    case packedHND => cases congrArg List.length shapes

end place

section agree

variable {layer : Layer} {spec : AttentionSpec} {rank : Nat} {m : CanonicalPageMapping}

theorem Grid.Maps.places_iff {g : Grid} {config : ParallelConfig} {bs l : Nat}
    (h : g.Maps config bs rank m) (inside : l < g.pageBytes bs) (c : Nat) :
    Places m l c ↔ c = g.placeAt config bs rank l := by
  unfold Places
  rw [h.bytes, mem_map]
  constructor
  · rintro ⟨l', _, same⟩
    cases same
    rfl
  · rintro rfl
    exact ⟨l, mem_range.mpr inside, rfl⟩

section

variable (found : layer.mapping rank = some m) (attention : layer.spec = .attention spec)
include found attention

theorem places_latent
    (mla : spec.mla = true) (agnostic : m.parallelismAgnostic = true) {x : Element} {l : Nat}
    (h : HoldsLatent spec x l) (c : Nat) :
    Places m l c ↔ c = x.token * (spec.realPageSizeBytes / spec.blockSize) +
    (x.element * spec.dtypeSize + x.byte) := by
  obtain ⟨config, _, kvCache, numBlocks⟩ := layer
  cases attention
  have ⟨fits, latent⟩ := layerMapping_cases found
  rw [if_pos mla] at latent
  have ⟨suits, maps, single⟩ := latentMapping_maps fits latent
  have single : config.dcpSize * config.pcpSize = 1 :=
    beq_iff_eq.mp (single.symm.trans agnostic)
  obtain ⟨token, _, _, _, column, rfl⟩ := h
  have rowBytes : (latentGrid config spec).rowBytes = spec.realPageSizeBytes / spec.blockSize :=
    Nat.one_mul _
  rw [← rowBytes] at column ⊢
  have row : x.token * (latentGrid config spec).rowBytes +
      (x.element * spec.dtypeSize + x.byte) = (0 * spec.blockSize + x.token) *
        (latentGrid config spec).rowBytes + (x.element * spec.dtypeSize + x.byte) := by
    rw [Nat.zero_mul, Nat.zero_add]
  rw [row, maps.places_iff (digit_lt (digit_lt suits.regions_pos token) column)]
  have single' : (config.ctx rank).cpSize = 1 := single
  unfold Grid.placeAt
  rw [place_row single' token column]
  have first : shardOf config.tpSize config.dcpSize (latentGrid config spec).writers rank = 0 := by
    have less := shardOf_lt suits.split config.tpSize_pos rank
    exact Nat.lt_one_iff.mp less
  have key : (latentGrid config spec).key 0 0 x.token = x.token := by
    simp only [latentGrid, Grid.rows, Nat.zero_mul, Nat.zero_add, Nat.mul_one, Nat.add_zero]
  rw [first, key, Nat.zero_mul, Nat.zero_add]

theorem places_head
    (mla : ¬spec.mla = true) (agnostic : m.parallelismAgnostic = true) {L : Layout} {kv : Tensor}
    (tensor : layer.kvCache = some kv) (layout : kv.InLayout spec layer.numBlocks L) {x : Element}
    {l : Nat} (h : HoldsHead layer spec rank x l) (c : Nat) :
    Places m l c ↔ c = L.canonicalByte spec.blockSize layer.config.totalKvHeads spec.headSize
    kv.elementSize x := by
  obtain ⟨config, _, _, numBlocks⟩ := layer
  cases attention
  cases tensor
  obtain ⟨fits, heads⟩ := layerMapping_cases found
  rw [if_neg mla] at heads
  obtain ⟨L', shards, writers, described⟩ := headsMapping_maps kv numBlocks fits
  obtain ⟨layout', total, suits, maps, single⟩ := described rank m heads
  have single : config.dcpSize * config.pcpSize = 1 :=
    beq_iff_eq.mp (single.symm.trans agnostic)
  have single' : (config.ctx rank).cpSize = 1 := single
  obtain ⟨_, shards', replication, head, same, sharded, less, owned, token, half, element, byte,
    address⟩ := h
  cases same
  -- the shards and their replicas are those of the grid
  obtain ⟨split, total'⟩ := headShards_split sharded
  have split' : config.tpSize = shards * (writers * config.dcpSize) := by
    have split := suits.split
    rwa [L'.grid_shards, L'.grid_writers] at split
  have sameShards : shards = shards' :=
    Nat.eq_of_mul_eq_mul_right spec.numKvHeads_pos (total.trans total'.symm)
  subst sameShards
  have some : 0 < shards := Nat.pos_of_ne_zero fun none => by
    have positive := config.tpSize_pos
    rw [split, none, Nat.zero_mul] at positive
    omega
  have replicas : replication = writers * config.dcpSize :=
    Nat.eq_of_mul_eq_mul_left some (split.symm.trans split')
  rw [single, Nat.mul_one] at maps
  have shard : shardOf config.tpSize config.dcpSize (L'.grid spec.numKvHeads
      (spec.headSize * kv.elementSize) shards writers spec.blockSize).writers rank =
        rank % config.tpSize / replication := by
    rw [shardOf, L'.grid_writers, replicas]
  obtain ⟨inside, placed⟩ := layout.place shards writers (cpRankOf config.tpSize config.dcpSize rank)
    single' less owned token half element byte address
  rw [maps.places_iff (L'.grid_pageBytes ▸ inside), Grid.placeAt, shard,
    layout'.place_congr layout single', placed, total]

end

end agree

section certified

variable {layer : Layer} {perRank : List CanonicalPageMapping}

theorem Layer.mapping_of_get (h : layer.perRank = some perRank) {rank : Nat}
    {m : CanonicalPageMapping} (found : perRank[rank]? = some m) : layer.mapping rank = some m := by
  have same := congrArg (·[rank]?) (mapM_eq_some h)
  simp only [getElem?_map, found, Option.map_some] at same
  have ⟨r, listed, mapped⟩ := Option.map_eq_some_iff.mp same
  have ⟨_, value⟩ := List.getElem?_eq_some_iff.mp listed
  rw [getElem_range] at value
  rw [value]
  exact mapped

theorem Layer.verified (h : layer.perRank = some perRank) : verifyTiling perRank = true := by
  have ⟨g, bs, described⟩ := layer.mapping_maps
  cases perRank with
  | nil =>
    have same := congrArg List.length (mapM_eq_some h)
    rw [length_map, length_range] at same
    have positive : 0 < layer.config.groupSize :=
      Nat.mul_pos layer.config.tpSize_pos layer.config.pcpSize_pos
    exact absurd same (Nat.ne_of_gt positive)
  | cons first rest =>
    have each : ∀ m ∈ first :: rest, ∃ rank, g.Suits layer.config bs ∧
        g.Maps layer.config bs rank m := fun m mem => by
      have ⟨rank, _, found⟩ := Layer.rank_of_mem h mem
      exact ⟨rank, described rank m found⟩
    have ⟨_, suits, maps⟩ := each first mem_cons_self
    unfold verifyTiling
    dsimp only
    rw [Bool.and_eq_true, all_eq_true, all_eq_true]
    refine ⟨fun m mem => ?_, fun blockId _ => ?_⟩
    · have ⟨_, _, maps'⟩ := each m mem
      rw [Bool.and_eq_true, Bool.and_eq_true, beq_iff_eq, beq_iff_eq]
      exact ⟨⟨maps'.canonicalSize.trans maps.canonicalSize.symm,
        maps'.numWriters.trans maps.numWriters.symm⟩, maps'.local_partition suits⟩
    · rw [maps.canonicalSize]
      exact Layer.stored_partition h described suits blockId

theorem Layer.agree {layer layer' : Layer} {spec spec' : AttentionSpec} {rank rank' : Nat}
    {m m' : CanonicalPageMapping} (attention : layer.spec = .attention spec)
    (attention' : layer'.spec = .attention spec') (same : SameModel layer layer' spec spec')
    (block : spec.blockSize = spec'.blockSize) (found : layer.mapping rank = some m)
    (found' : layer'.mapping rank' = some m') (agnostic : m.parallelismAgnostic = true)
    (agnostic' : m'.parallelismAgnostic = true) {x : Element} {l l' : Nat}
    (h : Holds layer spec rank x l) (h' : Holds layer' spec' rank' x l') :
    ∃ c, (∀ d, Places m l d ↔ d = c) ∧ ∀ d, Places m' l' d ↔ d = c := by
  obtain ⟨kind, same⟩ := same
  by_cases mla : spec.mla = true
  · have mla' : spec'.mla = true := kind ▸ mla
    rw [if_pos mla] at same
    rw [Holds, if_pos mla] at h
    rw [Holds, if_pos mla'] at h'
    refine ⟨_, places_latent found attention mla agnostic h, fun d => ?_⟩
    rw [same.1, same.2, block]
    exact places_latent found' attention' mla' agnostic' h' d
  · have mla' : ¬spec'.mla = true := kind ▸ mla
    rw [if_neg mla] at same
    rw [Holds, if_neg mla] at h
    rw [Holds, if_neg mla'] at h'
    obtain ⟨total, size, L, kv, kv', tensor, tensor', element, layout, layout'⟩ := same
    refine ⟨_, places_head found attention mla agnostic tensor layout h, fun d => ?_⟩
    rw [total, size, element, block]
    exact places_head found' attention' mla' agnostic' tensor' layout' h' d

theorem Layer.single_of_agnostic {layer : Layer} {spec : AttentionSpec} {rank : Nat}
    {m : CanonicalPageMapping} (attention : layer.spec = .attention spec)
    (found : layer.mapping rank = some m) (agnostic : m.parallelismAgnostic = true) :
    layer.config.dcpSize * layer.config.pcpSize = 1 := by
  obtain ⟨config, _, kvCache, numBlocks⟩ := layer
  cases attention
  have ⟨fits, mapped⟩ := layerMapping_cases found
  by_cases mla : spec.mla = true
  · rw [if_pos mla] at mapped
    have ⟨_, _, single⟩ := latentMapping_maps fits mapped
    exact beq_iff_eq.mp (single.symm.trans agnostic)
  · rw [if_neg mla] at mapped
    cases kvCache with
    | none => cases mapped
    | some kv =>
      have ⟨_, _, _, described⟩ := headsMapping_maps kv numBlocks fits
      have ⟨_, _, _, _, single⟩ := described rank m mapped
      exact beq_iff_eq.mp (single.symm.trans agnostic)

/-- Where a layer has a mapping at every rank the check passes: the runs of each rank cover
its page once and those of the writers of a block cover the canonical page once. Deployments
that shard no tokens place an element at the same canonical byte. -/
theorem mappings_certified (layer : Layer) (perRank : List CanonicalPageMapping)
    (h : layer.perRank = some perRank) : (verifyTiling perRank = true ∧
    (∀ m ∈ perRank, ((runIntervals m.runs false).flatMap points).Perm
    (List.range m.localPageSizeBytes)) ∧
    ∀ m ∈ perRank, ∀ blockId, isExactPartition (stored perRank blockId)
    m.canonicalPageSizeBytes = true ∧
    ((stored perRank blockId).flatMap points).Perm (List.range m.canonicalPageSizeBytes)) ∧
    ∀ (layer' : Layer) (perRank' : List CanonicalPageMapping), layer'.perRank = some perRank' →
    ∀ spec spec', layer.spec = .attention spec → layer'.spec = .attention spec' →
    SameModel layer layer' spec spec' →
    spec.blockSize * (layer.config.dcpSize * layer.config.pcpSize) =
    spec'.blockSize * (layer'.config.dcpSize * layer'.config.pcpSize) →
    ∀ rank rank' m m', perRank[rank]? = some m → perRank'[rank']? = some m' →
    m.parallelismAgnostic = true → m'.parallelismAgnostic = true →
    ∀ x l l', Holds layer spec rank x l → Holds layer' spec' rank' x l' →
    ∃ c, (∀ d, Places m l d ↔ d = c) ∧ ∀ d, Places m' l' d ↔ d = c := by
  have ⟨g, bs, described⟩ := layer.mapping_maps
  refine ⟨⟨Layer.verified h, fun m mem => ?_, fun m mem blockId => ?_⟩, ?_⟩
  · have ⟨rank, _, found⟩ := Layer.rank_of_mem h mem
    exact (described rank m found).2.local_points
  · have ⟨rank, _, found⟩ := Layer.rank_of_mem h mem
    have ⟨suits, maps⟩ := described rank m found
    rw [maps.canonicalSize]
    exact ⟨Layer.stored_partition h described suits blockId,
      Layer.stored_points h described suits blockId⟩
  · intro layer' perRank' h' spec spec' attention attention' same span rank rank' m m' get get'
      agnostic agnostic' x l l' holds holds'
    have found := Layer.mapping_of_get h get
    have found' := Layer.mapping_of_get h' get'
    rw [Layer.single_of_agnostic attention found agnostic,
      Layer.single_of_agnostic attention' found' agnostic', Nat.mul_one, Nat.mul_one] at span
    exact Layer.agree attention attention' same span found found' agnostic agnostic' holds holds'

/-- The spec of a layer with so many heads of one byte, in blocks of two tokens. -/
def tinySpec (heads : Nat) (positive : 0 < heads) : AttentionSpec where
  mla := false
  blockSize := 2
  numKvHeads := heads
  headSize := 1
  headSizeV := 1
  dtypeSize := 1
  kvQuantMode := .none
  numHeadSlots := none
  stateContentBytes := none
  tokensPerState := 1
  blockSize_pos := Nat.two_pos
  numKvHeads_pos := positive
  headSize_pos := Nat.one_pos
  dtypeSize_pos := Nat.one_pos
  numHeadSlots_pos := fun _ mem => nomatch mem
  stateContentBytes_pos := fun _ mem => nomatch mem

/-- A layer with two heads, on so many ranks that hold so many of them. -/
def tinyLayer (ranks heads : Nat) (some : 0 < ranks) (positive : 0 < heads) : Layer where
  config := ⟨ranks, 1, 1, 1, 2, some, Nat.one_pos, Nat.one_pos, Nat.two_pos⟩
  spec := .attention (tinySpec heads positive)
  kvCache := Option.some ⟨[1, heads, 2, 2], [heads * 4, 4, 2, 1], 1, Nat.one_pos⟩
  numBlocks := 1

theorem halved_certified :
    verifyTiling [⟨8, 4, [⟨0, 0, 4, 1, 4, 4⟩], 1, 0, true⟩, ⟨8, 4, [⟨0, 4, 4, 1, 4, 4⟩], 1, 0, true⟩] =
    true ∧ ∃ c, (∀ d, Places ⟨8, 4, [⟨0, 4, 4, 1, 4, 4⟩], 1, 0, true⟩ 2 d ↔ d = c) ∧
    ∀ d, Places ⟨8, 8, [⟨0, 0, 8, 1, 8, 8⟩], 1, 0, true⟩ 6 d ↔ d = c :=
  have certified := mappings_certified (tinyLayer 2 1 (by decide) (by decide))
    [⟨8, 4, [⟨0, 0, 4, 1, 4, 4⟩], 1, 0, true⟩, ⟨8, 4, [⟨0, 4, 4, 1, 4, 4⟩], 1, 0, true⟩]
    (by decide +kernel)
  ⟨certified.1.1, certified.2 (tinyLayer 1 2 (by decide) (by decide))
    [⟨8, 8, [⟨0, 0, 8, 1, 8, 8⟩], 1, 0, true⟩] (by decide +kernel) _ _ rfl rfl
    ⟨rfl, rfl, rfl, .packedHND, _, _, rfl, rfl, rfl, ⟨rfl, 4, rfl⟩, ⟨rfl, 8, rfl⟩⟩ rfl 1 0 _ _ rfl rfl
    rfl rfl ⟨1, 1, 0, 0, 0⟩ 2 6
    ⟨_, 2, 1, 0, rfl, by decide, by decide, by decide, by decide, by decide, by decide, by decide,
      by decide⟩
    ⟨_, 1, 1, 1, rfl, by decide, by decide, by decide, by decide, by decide, by decide, by decide,
      by decide⟩⟩

end certified

end VllmAmpere.Canonical
