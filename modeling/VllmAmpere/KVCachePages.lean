import VllmAmpere.ByteTilings
import VllmAmpere.KVCacheLayouts

/-! The bytes of the pages of one tensor: each byte of its span is of one layer and one block. -/

open List

namespace VllmAmpere.KVLayout

open Tilings

variable {N K : Type}

def KVCacheTensor.pageStart (tensor : KVCacheTensor N) (l b : Nat) : Nat :=
  tensor.offset + l * tensor.layerStride + b * tensor.blockStride

/-- The bytes of a page: one run, or one for each head where the heads are dealt apart. -/
def heldBytes (layout : KVCacheLayout) (spec : KVCacheSpec K) (headStride page start : Nat) :
    Set Nat :=
  if layout.isBlockCompact ∨ spec.numHeads = 1 then {x | start ≤ x ∧ x < start + page}
  else {x | ∃ h < spec.numHeads, start + h * headStride ≤ x ∧
    x < start + h * headStride + spec.numStates * spec.stateContentSizeBytes}

section

variable {layout : KVCacheLayout} {spec : KVCacheSpec K} {headStride page start x : Nat}

theorem held_compact (compact : layout.isBlockCompact = true)
    (h : x ∈ heldBytes layout spec headStride page start) : ∃ r < page, x = start + r := by
  rw [heldBytes, if_pos (.inl compact)] at h
  obtain ⟨from', to'⟩ := h
  exact ⟨x - start, by omega, by omega⟩

theorem held_runs (apart : layout.isBlockCompact = false)
    (h : x ∈ heldBytes layout spec headStride page start) :
    ∃ k < spec.numHeads, ∃ r < spec.runBytes page, x = start + k * headStride + r := by
  unfold heldBytes at h
  unfold KVCacheSpec.runBytes
  by_cases one : spec.numHeads = 1
  · rw [if_pos (.inr one)] at h
    obtain ⟨from', to'⟩ := h
    rw [if_pos one, one]
    exact ⟨0, Nat.one_pos, x - start, by omega, by omega⟩
  · rw [if_neg (by rw [apart]; simp [one])] at h
    obtain ⟨k, hk, from', to'⟩ := h
    rw [if_neg one]
    exact ⟨k, hk, x - (start + k * headStride), by omega, by omega⟩

end

/-! ### Digits -/

section

variable {l b h r layers blocks heads run : Nat}

theorem paged_digits (hl : l < layers) (hb : b < blocks) (hr : r < run) :
    l * (blocks * run) + (b * run + r) < layers * (blocks * run) ∧
    (l * (blocks * run) + (b * run + r)) / (blocks * run) = l ∧
    (l * (blocks * run) + (b * run + r)) % (blocks * run) / run = b := by
  have inner := digit_lt hb hr
  refine ⟨digit_lt hl inner, digit_div inner, ?_⟩
  rw [digit_mod inner, digit_div hr]

theorem headed_digits (hl : l < layers) (hh : h < heads) (hb : b < blocks) (hr : r < run) :
    l * (heads * (blocks * run)) + (h * (blocks * run) + (b * run + r)) <
    layers * (heads * (blocks * run)) ∧
    (l * (heads * (blocks * run)) + (h * (blocks * run) + (b * run + r))) /
    (heads * (blocks * run)) = l ∧
    (l * (heads * (blocks * run)) + (h * (blocks * run) + (b * run + r))) %
    (heads * (blocks * run)) % (blocks * run) / run = b := by
  have inner := digit_lt hb hr
  have middle := digit_lt hh inner
  refine ⟨digit_lt hl middle, digit_div middle, ?_⟩
  rw [digit_mod middle, digit_mod inner, digit_div hr]

end

/-! ### One tensor -/

/-- What the placement of a tensor goes by. -/
structure Placed (layout : KVCacheLayout) (numBlocks bytesPerBlock : Nat) (spec : KVCacheSpec K)
    (page byteOffset : Nat) (tensor : KVCacheTensor N) : Prop where
  size : spec.pageSizeBytes = .ok page
  pos : 0 < page
  layers : 0 < tensor.layers.length
  strides : ∃ s, computeLayoutStrides spec numBlocks tensor.layers.length layout
      (fixedStrides none (interleavedBlockStride layout bytesPerBlock)) = .ok s ∧
    tensor.layerStride = s .L ∧ tensor.blockStride = s .B ∧
    tensor.offset = byteOffset * max (s .L) page / page

section

variable {layout : KVCacheLayout} {numBlocks bytesPerBlock page byteOffset : Nat}
  {spec : KVCacheSpec K} {tensor : KVCacheTensor N} {v : Dim → Nat}
  (placed : Placed layout numBlocks bytesPerBlock spec page byteOffset tensor)
  (blocks : 0 < numBlocks)

include placed blocks

/-- Where layers are outermost, each byte of the tensor's span is of one layer and block. -/
theorem Placed.owner_outer (outer : layout.isBlockOutermost = false) :
    ∃ owner : Nat → Nat × Nat, ∀ v, viewStrides layout numBlocks spec tensor = .ok v →
    ∀ l < tensor.layers.length, ∀ b < numBlocks,
    ∀ x ∈ heldBytes layout spec (v .H) page (tensor.pageStart l b),
    ∃ y < tensor.layers.length * page * numBlocks,
    x = byteOffset * numBlocks + y ∧ owner y = (l, b) := by
  obtain ⟨s, computed, layerStride, blockStride, offset⟩ := placed.strides
  obtain ⟨has, whole⟩ := hasStrides_of_ok computed placed.size placed.layers blocks
  have free : interleavedBlockStride layout bytesPerBlock = none := by
    rw [interleavedBlockStride, outer]
    rfl
  rw [free] at has
  have start : s .L = page * numBlocks → tensor.offset = byteOffset * numBlocks := by
    intro same
    have most : max (s .L) page = page * numBlocks := by
      rw [same]
      exact Nat.max_eq_left (Nat.le_mul_of_pos_right page blocks)
    rw [offset, most, Nat.mul_comm page, ← Nat.mul_assoc, Nat.mul_div_cancel _ placed.pos]
  cases layout with
  | LBHNC | LBNHC =>
    obtain ⟨hb, hl⟩ := has
    rw [Option.getD_none] at hb hl
    rw [hb] at hl
    refine ⟨fun y => (y / (numBlocks * page), y % (numBlocks * page) / page),
      fun v _ l hl' b hb' x hx => ?_⟩
    obtain ⟨r, hr, rfl⟩ := held_compact rfl hx
    obtain ⟨bound, first, second⟩ := paged_digits hl' hb' hr
    refine ⟨_, ?_, ?_, Prod.ext first second⟩
    · rwa [Nat.mul_assoc, Nat.mul_comm page]
    · rw [KVCacheTensor.pageStart, start hl, layerStride, blockStride, hl, hb,
        Nat.mul_comm page numBlocks]
      omega
  | LHBNC =>
    obtain ⟨hb, hh, hl⟩ := has
    rw [Option.getD_none] at hb hl
    have pages := whole rfl
    refine ⟨fun y => (y / (spec.numHeads * (numBlocks * spec.runBytes page)),
      y % (spec.numHeads * (numBlocks * spec.runBytes page)) %
        (numBlocks * spec.runBytes page) / spec.runBytes page), fun v viewed l hl' b hb' x hx => ?_⟩
    obtain ⟨again, -⟩ := hasStrides_of_ok viewed placed.size placed.layers blocks
    obtain ⟨vb, vh, -⟩ := again
    rw [Option.getD_some, blockStride, hb] at vb
    rw [vb] at vh
    obtain ⟨k, hk, r, hr, rfl⟩ := held_runs rfl hx
    obtain ⟨bound, first, second⟩ := headed_digits hl' hk hb' hr
    have layer : s .L = spec.numHeads * (numBlocks * spec.runBytes page) := by
      rw [hl, hh, hb]
      ring
    have total : spec.numHeads * (numBlocks * spec.runBytes page) = page * numBlocks := by
      rw [← Nat.mul_assoc, Nat.mul_right_comm, pages]
    refine ⟨_, ?_, ?_, Prod.ext first second⟩
    · rwa [Nat.mul_assoc, ← total]
    · rw [KVCacheTensor.pageStart, start (layer.trans total), layerStride, blockStride, layer, hb,
        vh, Nat.mul_comm (spec.runBytes page) numBlocks]
      omega
  | BLHNC | BLNHC | BHLNC => cases outer

/-- Where blocks are outermost, a tensor has its span in each block, and each byte of the span is
of one layer. -/
theorem Placed.owner_inner (outer : layout.isBlockOutermost = true) :
    ∃ owner : Nat → Nat, ∀ v, viewStrides layout numBlocks spec tensor = .ok v →
    ∀ l < tensor.layers.length, ∀ b, ∀ x ∈ heldBytes layout spec (v .H) page (tensor.pageStart l b),
    ∃ y < tensor.layers.length * page, x = b * bytesPerBlock + (byteOffset + y) ∧ owner y = l := by
  obtain ⟨s, computed, layerStride, blockStride, offset⟩ := placed.strides
  obtain ⟨has, whole⟩ := hasStrides_of_ok computed placed.size placed.layers blocks
  have given : interleavedBlockStride layout bytesPerBlock = some bytesPerBlock := by
    rw [interleavedBlockStride, outer]
    rfl
  rw [given] at has
  have start : s .L ≤ page → tensor.offset = byteOffset := by
    intro least
    rw [offset, Nat.max_eq_right least, Nat.mul_div_cancel _ placed.pos]
  cases layout with
  | BLHNC | BLNHC =>
    obtain ⟨hl, hb⟩ := has
    rw [Option.getD_none] at hl
    rw [Option.getD_some] at hb
    refine ⟨fun y => y / page, fun v _ l hl' b x hx => ?_⟩
    obtain ⟨r, hr, rfl⟩ := held_compact rfl hx
    refine ⟨l * page + r, digit_lt hl' hr, ?_, digit_div hr⟩
    rw [KVCacheTensor.pageStart, start hl.le, layerStride, blockStride, hl, hb]
    omega
  | BHLNC =>
    obtain ⟨hl, hh, hb⟩ := has
    rw [Option.getD_none] at hl
    rw [Option.getD_some] at hb
    have pages := whole rfl
    refine ⟨fun y => y % (tensor.layers.length * spec.runBytes page) / spec.runBytes page,
      fun v viewed l hl' b x hx => ?_⟩
    obtain ⟨again, -⟩ := hasStrides_of_ok viewed placed.size placed.layers blocks
    obtain ⟨vl, vh, -⟩ := again
    rw [Option.getD_some, layerStride, hl] at vl
    rw [vl] at vh
    obtain ⟨k, hk, r, hr, rfl⟩ := held_runs rfl hx
    obtain ⟨bound, -, second⟩ := paged_digits hk hl' hr
    have least : s .L ≤ page := by
      rw [hl]
      calc spec.runBytes page ≤ spec.numHeads * spec.runBytes page :=
            Nat.le_mul_of_pos_left _ (by omega)
        _ = page := pages
    have total : spec.numHeads * (tensor.layers.length * spec.runBytes page) =
        tensor.layers.length * page := by
      rw [Nat.mul_left_comm, pages]
    refine ⟨_, total ▸ bound, ?_, second⟩
    rw [KVCacheTensor.pageStart, start least, layerStride, blockStride, hl, hb, vh,
      Nat.mul_comm (spec.runBytes page) tensor.layers.length]
    omega
  | LBHNC | LBNHC | LHBNC => cases outer

theorem Placed.viewed (block : 0 < bytesPerBlock) :
    ∃ v, viewStrides layout numBlocks spec tensor = .ok v := by
  obtain ⟨s, computed, layerStride, blockStride, -⟩ := placed.strides
  obtain ⟨has, whole⟩ := hasStrides_of_ok computed placed.size placed.layers blocks
  have positive : 0 < s .L ∧ 0 < s .B := by
    have pages := placed.pos
    have apart : layout.isBlockCompact = false → 0 < spec.numHeads ∧ 0 < spec.runBytes page := by
      intro h
      have product := whole h
      exact ⟨Nat.pos_of_mul_pos_right (product ▸ pages), Nat.pos_of_mul_pos_left (product ▸ pages)⟩
    cases layout with
    | LBHNC | LBNHC =>
      obtain ⟨hb, hl⟩ := has
      change s .B = page at hb
      change s .L = s .B * numBlocks at hl
      rw [hl, hb]
      exact ⟨Nat.mul_pos pages blocks, pages⟩
    | LHBNC =>
      obtain ⟨hb, hh, hl⟩ := has
      change s .B = spec.runBytes page at hb
      change s .L = s .H * spec.numHeads at hl
      obtain ⟨heads, run⟩ := apart rfl
      rw [hl, hh, hb]
      exact ⟨Nat.mul_pos (Nat.mul_pos run blocks) heads, run⟩
    | BLHNC | BLNHC =>
      obtain ⟨hl, hb⟩ := has
      change s .L = page at hl
      change s .B = bytesPerBlock at hb
      rw [hl, hb]
      exact ⟨pages, block⟩
    | BHLNC =>
      obtain ⟨hl, -, hb⟩ := has
      change s .L = spec.runBytes page at hl
      change s .B = bytesPerBlock at hb
      rw [hl, hb]
      exact ⟨(apart rfl).2, block⟩
  refine computeLayoutStrides_again computed ⟨fun stride hs => ?_, fun stride hs => ?_⟩
  · rw [← Option.some.inj hs, layerStride]
    exact positive.1
  · rw [← Option.some.inj hs, blockStride]
    exact positive.2

end

/-! The tensors of one group: the layers of each spec stand behind those of the specs before,
and together they are within the bytes of a block. -/

/-- The bytes of a page, none where they cannot be computed. -/
def KVCacheSpec.pageBytes (spec : KVCacheSpec K) : Nat := spec.pageSizeBytes.toOption.getD 0

theorem KVCacheSpec.pageBytes_eq {spec : KVCacheSpec K} {page : Nat}
    (h : spec.pageSizeBytes = .ok page) : spec.pageBytes = page := by
  rw [KVCacheSpec.pageBytes, h]
  rfl

def listedBytes (items : List (KVCacheSpec K × List N)) : Nat :=
  (items.map fun item => item.2.length * item.1.pageBytes).sum

/-- The part of a block that the layers of a spec take. -/
structure Slot (K : Type) where
  spec : KVCacheSpec K
  page : Nat
  count : Nat
  byteOffset : Nat

def Slot.stop (slot : Slot K) : Nat := slot.byteOffset + slot.count * slot.page

variable {layout : KVCacheLayout} {numBlocks bytesPerBlock : Nat}

/-- A tensor in its slot. -/
structure Fills (layout : KVCacheLayout) (numBlocks bytesPerBlock : Nat)
    (tensor : KVCacheTensor N) (slot : Slot K) : Prop where
  placed : Placed layout numBlocks bytesPerBlock slot.spec slot.page slot.byteOffset tensor
  count : tensor.layers.length = slot.count
  size : tensor.size = bytesPerBlock * numBlocks

/-- The slots of the tensors, from one offset on. -/
structure Slots (layout : KVCacheLayout) (numBlocks bytesPerBlock byteOffset : Nat)
    (items : List (KVCacheSpec K × List N)) (tensors : List (KVCacheTensor N))
    (slots : List (Slot K)) : Prop where
  fills : List.Forall₂ (Fills layout numBlocks bytesPerBlock) tensors slots
  listed : List.Forall₂ (fun item tensor => item.2 = tensor.layers) items tensors
  specs : items.map Prod.fst = slots.map Slot.spec
  ordered : slots.Pairwise fun a b => a.stop ≤ b.byteOffset
  within : ∀ slot ∈ slots, byteOffset ≤ slot.byteOffset ∧
    slot.stop ≤ byteOffset + listedBytes items

theorem placeLayers_slots {items : List (KVCacheSpec K × List N)} {byteOffset : Nat}
    {tensors : List (KVCacheTensor N)}
    (h : placeLayers layout numBlocks bytesPerBlock items byteOffset = .ok tensors)
    (filled : ∀ item ∈ items, item.2 ≠ []) :
    ∃ slots, Slots layout numBlocks bytesPerBlock byteOffset items tensors slots := by
  induction items generalizing byteOffset tensors with
  | nil =>
    cases h
    exact ⟨[], .nil, .nil, rfl, .nil, by simp⟩
  | cons item items ih =>
    obtain ⟨spec, layerNames⟩ := item
    rw [placeLayers, bind_eq_ok] at h
    obtain ⟨s, strides, h⟩ := h
    obtain ⟨page, size, h⟩ := bind_eq_ok.mp h
    obtain ⟨offset, divided, h⟩ := bind_eq_ok.mp h
    obtain ⟨rest, placed, same⟩ := bind_eq_ok.mp h
    obtain rfl := Except.ok.inj same
    obtain ⟨positive, offsetEq⟩ := floorDiv_ok.mp divided
    obtain ⟨slots, behind⟩ := ih placed fun item hi => filled item (mem_cons_of_mem _ hi)
    have bytes : listedBytes ((spec, layerNames) :: items) =
        layerNames.length * page + listedBytes items := by
      rw [listedBytes, map_cons, sum_cons, spec.pageBytes_eq size]
      rfl
    have some : 0 < layerNames.length :=
      length_pos_iff.mpr (filled (spec, layerNames) mem_cons_self)
    refine ⟨⟨spec, page, layerNames.length, byteOffset⟩ :: slots, .cons ⟨?_, rfl, rfl⟩ behind.fills,
      .cons rfl behind.listed, ?_, .cons (fun slot hs => (behind.within slot hs).1) behind.ordered,
      fun slot hs => ?_⟩
    · exact ⟨size, positive, some, s, strides, rfl, rfl, offsetEq.symm⟩
    · rw [map_cons, map_cons, behind.specs]
    · rw [bytes]
      cases mem_cons.mp hs with
      | inl here =>
        rw [here]
        exact ⟨le_rfl, Nat.add_le_add_left (Nat.le_add_right _ _) _⟩
      | inr later =>
        obtain ⟨first, last⟩ := behind.within slot later
        exact ⟨by omega, by omega⟩

/-! ### The layers of a group -/

section

variable [DecidableEq N] [DecidableEq K] {group : KVCacheGroupSpec N K}

omit [DecidableEq N] in
theorem listedBytes_dictAppend (spec : KVCacheSpec K) (layerName : N)
    (items : List (KVCacheSpec K × List N)) :
    listedBytes (dictAppend spec layerName items) = spec.pageBytes + listedBytes items := by
  unfold listedBytes
  induction items with
  | nil => rw [dictAppend]; simp
  | cons item items ih =>
    rw [dictAppend]
    split
    next same =>
      rw [map_cons, sum_cons, map_cons, sum_cons, length_append,
        Nat.add_mul, ← same]
      simp only [length_singleton]
      omega
    next =>
      rw [map_cons, sum_cons, ih, map_cons, sum_cons]
      exact Nat.add_left_comm _ _ _

/-- What the listing by spec is: every layer under its own spec. -/
structure BySpec (layers : List (N × KVCacheSpec K)) (items : List (KVCacheSpec K × List N)) :
    Prop where
  perm : (items.flatMap Prod.snd).Perm (layers.map Prod.fst)
  own : ∀ item ∈ items, item.2 ≠ [] ∧ ∀ layerName ∈ item.2, (layerName, item.1) ∈ layers
  bytes : listedBytes items = (layers.map fun layer => layer.2.pageBytes).sum

omit [DecidableEq N] in
theorem bySpec (layers : List (N × KVCacheSpec K)) : BySpec layers
    (layers.foldl (fun groups layer => dictAppend layer.2 layer.1 groups) []) := by
  have grow : ∀ (later seen : List (N × KVCacheSpec K)) (items : List (KVCacheSpec K × List N)),
      BySpec seen items → BySpec (seen ++ later)
        (later.foldl (fun groups layer => dictAppend layer.2 layer.1 groups) items) := by
    intro later
    induction later with
    | nil =>
      intro seen items h
      rw [append_nil]
      exact h
    | cons layer later ih =>
      intro seen items h
      have step : BySpec (seen ++ [layer]) (dictAppend layer.2 layer.1 items) := by
        refine ⟨?_, ?_, ?_⟩
        · refine (dictAppend_items _ _ _).trans ((h.perm.cons layer.1).trans ?_)
          rw [map_append]
          exact (perm_append_singleton layer.1 _).symm
        · refine dictAppend_all
            (P := fun (spec : KVCacheSpec K) (layerName : N) =>
              (layerName, spec) ∈ seen ++ [layer]) (by simp) fun item hi => ?_
          obtain ⟨some, own⟩ := h.own item hi
          exact ⟨some, fun layerName hl => mem_append_left _ (own layerName hl)⟩
        · rw [listedBytes_dictAppend, h.bytes, map_append, sum_append]
          simp only [map_cons, map_nil, sum_singleton]
          exact Nat.add_comm _ _
      have rest := ih _ _ step
      rwa [append_assoc, singleton_append] at rest
  exact grow layers [] [] ⟨.nil, by simp, rfl⟩

/-- A group of a uniform type names the layers of its specs. -/
def KVCacheGroupSpec.Listed (group : KVCacheGroupSpec N K) : Prop :=
  match group.kvCacheSpec with
  | .uniformType specs => group.layerNames.Perm specs.keys
  | .same _ => True

/-- What is placed of a group that names its layers. -/
structure Layered (group : KVCacheGroupSpec N K) (pages : List Nat) : Prop where
  perm : ((layersBySpec group).flatMap Prod.snd).Perm group.layerNames
  own : ∀ item ∈ layersBySpec group, item.2 ≠ [] ∧
    ∀ layerName ∈ item.2, getPerLayerSpec group layerName = .ok item.1
  bytes : listedBytes (layersBySpec group) = pages.sum

omit [DecidableEq K] in
theorem pageSizes_sum {pages : List Nat} (h : pageSizes group = .ok pages) {f : N → Nat}
    (hf : ∀ layerName spec, getPerLayerSpec group layerName = .ok spec →
    f layerName = spec.pageBytes) : pages.sum = (group.layerNames.map f).sum := by
  obtain ⟨specs, found, sized⟩ := bind_eq_ok.mp h
  rw [layerSpecs, mapM_eq_ok] at found
  rw [mapM_eq_ok] at sized
  clear h
  generalize group.layerNames = names at found
  induction found generalizing pages with
  | nil =>
    cases sized
    rfl
  | cons own _ ih =>
    cases sized with
    | cons size sized =>
      rw [sum_cons, map_cons, sum_cons, ih sized, hf _ _ own,
        KVCacheSpec.pageBytes_eq size]

theorem layered (listed : group.Listed) {pages : List Nat} (h : pageSizes group = .ok pages) :
    Layered group pages := by
  obtain ⟨layerNames, kvCacheSpec⟩ := group
  cases kvCacheSpec with
  | uniformType specs =>
    have by' := bySpec specs.items
    refine ⟨by'.perm.trans (List.Perm.symm listed), fun item hi => ?_, ?_⟩
    · obtain ⟨some, own⟩ := by'.own item hi
      exact ⟨some, fun layerName hl => PyDict.getItem_ok.mpr
        ((PyDict.mem_items specs layerName item.1).mp (own layerName hl))⟩
    · rw [pageSizes_sum h (f := fun layerName =>
        ((specs.get? layerName).map KVCacheSpec.pageBytes).getD 0) ?_]
      · refine by'.bytes.trans ?_
        have names : layerNames.Perm (specs.items.map Prod.fst) := listed
        rw [(names.map _).sum_eq, map_map]
        refine congrArg List.sum (map_congr_left fun layer hl => ?_)
        rw [Function.comp_apply, (PyDict.mem_items specs layer.1 layer.2).mp hl]
        rfl
      · intro layerName spec found
        rw [PyDict.getItem_ok.mp found]
        rfl
  | same spec =>
    by_cases none : layerNames = []
    · have nothing : layersBySpec (⟨layerNames, .same spec⟩ : KVCacheGroupSpec N K) = [] :=
        if_pos none
      have sum := pageSizes_sum h (f := fun _ => spec.pageBytes) fun _ s same => by
        rw [Except.ok.inj same]
      rw [none] at sum
      refine ⟨?_, ?_, ?_⟩
      · rw [nothing, none]
        exact .nil
      · rw [nothing]
        simp
      · rw [nothing, sum]
        rfl
    · have one : layersBySpec (⟨layerNames, .same spec⟩ : KVCacheGroupSpec N K) =
          [(spec, layerNames)] := if_neg none
      have sum := pageSizes_sum h (f := fun _ => spec.pageBytes) fun _ s same => by
        rw [Except.ok.inj same]
      refine ⟨?_, ?_, ?_⟩
      · rw [one, flatMap_singleton]
      · rw [one]
        intro item hi
        rw [mem_singleton.mp hi]
        exact ⟨none, fun _ _ => rfl⟩
      · rw [one, sum, map_const', sum_replicate, listedBytes]
        simp

end

end VllmAmpere.KVLayout
