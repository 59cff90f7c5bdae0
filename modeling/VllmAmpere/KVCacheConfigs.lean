import VllmAmpere.KVCachePages

/-! The placement of all groups: the pages of a group share no byte, all are within the
allocation, and blocks of block-outermost layouts are apart across groups. -/

open List

namespace VllmAmpere.KVLayout

open Tilings

variable {N K : Type} [DecidableEq N] [DecidableEq K]

/-- A byte of the page of the `l`-th layer of the `i`-th tensor of a group, for block `b`. -/
def Holds (layout : KVCacheLayout) (numBlocks : Nat) (group : KVCacheGroupSpec N K)
    (tensors : List (KVCacheTensor N)) (i l b x : Nat) : Prop :=
  ∃ tensor layerName spec page v, tensors[i]? = some tensor ∧
    tensor.layers[l]? = some layerName ∧ getPerLayerSpec group layerName = .ok spec ∧
    spec.pageSizeBytes = .ok page ∧ viewStrides layout numBlocks spec tensor = .ok v ∧
    b < numBlocks ∧ x ∈ heldBytes layout spec (v .H) page (tensor.pageStart l b)

/-- What the tensors of a group are. -/
structure GroupPlaced (layout : KVCacheLayout) (numBlocks size : Nat)
    (group : KVCacheGroupSpec N K) (tensors : List (KVCacheTensor N)) : Prop where
  layers : (tensors.flatMap KVCacheTensor.layers).Perm group.layerNames
  sizes : ∀ tensor ∈ tensors, tensor.size = size
  viewed : 0 < numBlocks → ∀ tensor ∈ tensors, ∀ layerName ∈ tensor.layers, ∃ spec page v,
    getPerLayerSpec group layerName = .ok spec ∧ spec.pageSizeBytes = .ok page ∧
    viewStrides layout numBlocks spec tensor = .ok v
  unique : ∀ {i l b i' l' b' x : Nat}, Holds layout numBlocks group tensors i l b x →
    Holds layout numBlocks group tensors i' l' b' x → i = i' ∧ l = l' ∧ b = b'
  inside : ∀ {i l b x : Nat}, Holds layout numBlocks group tensors i l b x → x < size

theorem forall₂_getElem? {α β : Type} {R : α → β → Prop} {xs : List α} {ys : List β}
    (h : List.Forall₂ R xs ys) {i : Nat} {x : α} (hx : xs[i]? = some x) :
    ∃ y, ys[i]? = some y ∧ R x y := by
  obtain ⟨inside, rfl⟩ := List.getElem?_eq_some_iff.mp hx
  have length := h.length_eq
  exact ⟨ys[i], getElem?_eq_getElem (length ▸ inside), h.get inside (length ▸ inside)⟩

theorem ordered_cases {α : Type} {R : α → α → Prop} {xs : List α} (h : xs.Pairwise R) {i j : Nat}
    {x y : α} (hx : xs[i]? = some x) (hy : xs[j]? = some y) : i = j ∨ R x y ∨ R y x := by
  obtain ⟨inside, rfl⟩ := List.getElem?_eq_some_iff.mp hx
  obtain ⟨inside', rfl⟩ := List.getElem?_eq_some_iff.mp hy
  have pairs := pairwise_iff_getElem.mp h
  cases Nat.lt_trichotomy i j with
  | inl less => exact .inr (.inl (pairs i j inside inside' less))
  | inr rest =>
    cases rest with
    | inl same => exact .inl same
    | inr more => exact .inr (.inr (pairs j i inside' inside more))

section

variable {layout : KVCacheLayout} {numBlocks bytesPerBlock : Nat} {group : KVCacheGroupSpec N K}
  {tensors : List (KVCacheTensor N)} {slots : List (Slot K)} {pages : List Nat}
  (layered : Layered group pages)
  (slotted : Slots layout numBlocks bytesPerBlock 0 (layersBySpec group) tensors slots)

include layered slotted

theorem slot_of_tensor {i : Nat} {tensor : KVCacheTensor N} (ht : tensors[i]? = some tensor) :
    ∃ slot, slots[i]? = some slot ∧ Fills layout numBlocks bytesPerBlock tensor slot ∧
    ∀ layerName ∈ tensor.layers, getPerLayerSpec group layerName = .ok slot.spec := by
  obtain ⟨slot, hs, fills⟩ := forall₂_getElem? slotted.fills ht
  obtain ⟨item, hi, names⟩ := forall₂_getElem? slotted.listed.flip ht
  refine ⟨slot, hs, fills, fun layerName hl => ?_⟩
  have same : item.1 = slot.spec := by
    have mapped := congrArg (·[i]?) slotted.specs
    simp only [getElem?_map, hi, hs, Option.map_some, Option.some.injEq] at mapped
    exact mapped
  rw [← same]
  exact (layered.own item (mem_of_getElem? hi)).2 layerName (names.symm ▸ hl)

theorem Holds.slot {i l b x : Nat} (h : Holds layout numBlocks group tensors i l b x) :
    b < numBlocks ∧ ∃ tensor slot v, tensors[i]? = some tensor ∧ slots[i]? = some slot ∧
    Fills layout numBlocks bytesPerBlock tensor slot ∧ l < tensor.layers.length ∧
    viewStrides layout numBlocks slot.spec tensor = .ok v ∧
    x ∈ heldBytes layout slot.spec (v .H) slot.page (tensor.pageStart l b) := by
  obtain ⟨tensor, layerName, spec, page, v, ht, hl, found, size, viewed, hb, hx⟩ := h
  obtain ⟨slot, hs, fills, own⟩ := slot_of_tensor layered slotted ht
  have same := Except.ok.inj (found.symm.trans (own layerName (mem_of_getElem? hl)))
  subst same
  have pageSame := Except.ok.inj (size.symm.trans fills.placed.size)
  subst pageSame
  exact ⟨hb, tensor, slot, v, ht, hs, fills, (List.getElem?_eq_some_iff.mp hl).1, viewed, hx⟩

variable (fit : pages.sum ≤ bytesPerBlock)

include fit

theorem Holds.in_block (outer : layout.isBlockOutermost = true) {i l b x : Nat}
    (h : Holds layout numBlocks group tensors i l b x) :
    ∃ slot y, slots[i]? = some slot ∧ slot.byteOffset ≤ y ∧ y < slot.stop ∧ y < bytesPerBlock ∧
    x = b * bytesPerBlock + y := by
  obtain ⟨hb, tensor, slot, v, ht, hs, fills, hl, viewed, hx⟩ := h.slot layered slotted
  obtain ⟨owner, owned⟩ := fills.placed.owner_inner (by omega) outer
  obtain ⟨y, bound, place, -⟩ := owned v viewed l hl b x hx
  have within := (slotted.within slot (mem_of_getElem? hs)).2
  rw [layered.bytes, Nat.zero_add] at within
  rw [fills.count] at bound
  have stop : slot.byteOffset + y < slot.stop := Nat.add_lt_add_left bound _
  exact ⟨slot, slot.byteOffset + y, hs, Nat.le_add_right _ _, stop, by omega, place⟩

omit fit in
theorem Holds.in_span (outer : layout.isBlockOutermost = false) {i l b x : Nat}
    (h : Holds layout numBlocks group tensors i l b x) :
    ∃ slot, slots[i]? = some slot ∧ slot.byteOffset * numBlocks ≤ x ∧
    x < slot.stop * numBlocks := by
  obtain ⟨hb, tensor, slot, v, ht, hs, fills, hl, viewed, hx⟩ := h.slot layered slotted
  obtain ⟨owner, owned⟩ := fills.placed.owner_outer (by omega) outer
  obtain ⟨y, bound, place, -⟩ := owned v viewed l hl b hb x hx
  rw [fills.count] at bound
  refine ⟨slot, hs, by omega, ?_⟩
  rw [Slot.stop, Nat.add_mul]
  omega

theorem Holds.inside {i l b x : Nat} (h : Holds layout numBlocks group tensors i l b x) :
    x < bytesPerBlock * numBlocks := by
  obtain ⟨hb, -⟩ := h.slot layered slotted
  cases outer : layout.isBlockOutermost with
  | true =>
    obtain ⟨slot, y, hs, -, -, less, place⟩ := h.in_block layered slotted fit outer
    rw [place, Nat.mul_comm bytesPerBlock]
    exact digit_lt hb less
  | false =>
    obtain ⟨slot, hs, -, less⟩ := h.in_span layered slotted outer
    have within := (slotted.within slot (mem_of_getElem? hs)).2
    rw [layered.bytes, Nat.zero_add] at within
    exact less.trans_le (Nat.mul_le_mul_right _ (within.trans fit))

theorem Holds.same_tensor {i l b i' l' b' x : Nat}
    (h : Holds layout numBlocks group tensors i l b x)
    (h' : Holds layout numBlocks group tensors i' l' b' x) : i = i' := by
  have impossible : ∀ {slot slot' : Slot K} {y : Nat}, slot.stop ≤ slot'.byteOffset →
      slot'.byteOffset ≤ y → y < slot.stop → False := by
    intro slot slot' y before from' to'
    omega
  cases outer : layout.isBlockOutermost with
  | true =>
    obtain ⟨slot, y, hs, from₁, to₁, less, place⟩ := h.in_block layered slotted fit outer
    obtain ⟨slot', y', hs', from₂, to₂, less', place'⟩ := h'.in_block layered slotted fit outer
    obtain ⟨-, rfl⟩ := digit_unique (place.symm.trans place') less less'
    cases ordered_cases slotted.ordered hs hs' with
    | inl same => exact same
    | inr apart =>
      cases apart with
      | inl before => exact (impossible before from₂ to₁).elim
      | inr behind => exact (impossible behind from₁ to₂).elim
  | false =>
    obtain ⟨slot, hs, from₁, to₁⟩ := h.in_span layered slotted outer
    obtain ⟨slot', hs', from₂, to₂⟩ := h'.in_span layered slotted outer
    cases ordered_cases slotted.ordered hs hs' with
    | inl same => exact same
    | inr apart =>
      cases apart with
      | inl before =>
        have := Nat.mul_le_mul_right numBlocks before
        omega
      | inr behind =>
        have := Nat.mul_le_mul_right numBlocks behind
        omega

theorem Holds.unique {i l b i' l' b' x : Nat} (h : Holds layout numBlocks group tensors i l b x)
    (h' : Holds layout numBlocks group tensors i' l' b' x) : i = i' ∧ l = l' ∧ b = b' := by
  have same := h.same_tensor layered slotted fit h'
  subst same
  have block := h.in_block layered slotted fit
  have block' := h'.in_block layered slotted fit
  obtain ⟨hb, tensor, slot, v, ht, hs, fills, hl, viewed, hx⟩ := h.slot layered slotted
  obtain ⟨hb', tensor', slot', v', ht', hs', -, hl', viewed', hx'⟩ := h'.slot layered slotted
  obtain rfl := Option.some.inj (ht.symm.trans ht')
  obtain rfl := Option.some.inj (hs.symm.trans hs')
  refine ⟨rfl, ?_⟩
  cases outer : layout.isBlockOutermost with
  | true =>
    obtain ⟨_, y, -, -, -, less, place⟩ := block outer
    obtain ⟨_, y', -, -, -, less', place'⟩ := block' outer
    obtain ⟨rfl, -⟩ := digit_unique (place.symm.trans place') less less'
    obtain ⟨owner, owned⟩ := fills.placed.owner_inner (by omega) outer
    obtain ⟨z, -, at', first⟩ := owned v viewed l hl b x hx
    obtain ⟨z', -, at'', second⟩ := owned v' viewed' l' hl' b x hx'
    have zs : z = z' := by omega
    rw [← zs] at second
    exact ⟨first.symm.trans second, rfl⟩
  | false =>
    obtain ⟨owner, owned⟩ := fills.placed.owner_outer (by omega) outer
    obtain ⟨z, -, at', first⟩ := owned v viewed l hl b hb x hx
    obtain ⟨z', -, at'', second⟩ := owned v' viewed' l' hl' b' hb' x hx'
    have zs : z = z' := by omega
    rw [← zs] at second
    exact Prod.ext_iff.mp (first.symm.trans second)

theorem group_placed (block : 0 < bytesPerBlock) :
    GroupPlaced layout numBlocks (bytesPerBlock * numBlocks) group tensors where
  layers := by
    refine List.Perm.trans (.of_eq ?_) layered.perm
    have listed := slotted.listed
    clear slotted layered
    generalize layersBySpec group = items at listed
    induction listed with
    | nil => rfl
    | cons names _ ih => rw [flatMap_cons, flatMap_cons, ih, names]
  sizes := by
    intro tensor ht
    obtain ⟨i, hi⟩ := mem_iff_getElem?.mp ht
    obtain ⟨slot, -, fills, -⟩ := slot_of_tensor layered slotted hi
    exact fills.size
  viewed := by
    intro blocks tensor ht layerName hl
    obtain ⟨i, hi⟩ := mem_iff_getElem?.mp ht
    obtain ⟨slot, -, fills, own⟩ := slot_of_tensor layered slotted hi
    obtain ⟨v, viewed⟩ := fills.placed.viewed blocks block
    exact ⟨slot.spec, slot.page, v, own layerName hl, fills.placed.size, viewed⟩
  unique := fun h h' => h.unique layered slotted fit h'
  inside := fun h => h.inside layered slotted fit

end

/-- What a config says of the allocation: the tensors of each group, and what they hold. -/
structure ConfigPlaced (layout : KVCacheLayout) (groups : List (KVCacheGroupSpec N K))
    (config : KVCacheConfig N K) (size : Nat) (tensors : List (List (KVCacheTensor N))) :
    Prop where
  flat : config.kvCacheTensors = tensors.flatten
  placed : List.Forall₂ (GroupPlaced layout config.numBlocks size) groups tensors
  apart : layout.isBlockOutermost = true → ∀ placed ∈ groups.zip tensors,
    ∀ other ∈ groups.zip tensors, ∀ {i l b i' l' b' x : Nat},
      Holds layout config.numBlocks placed.1 placed.2 i l b x →
        Holds layout config.numBlocks other.1 other.2 i' l' b' x → b = b'

omit [DecidableEq K] in
theorem pageSizes_le {groups : List (KVCacheGroupSpec N K)} {bytesPerBlock : Nat}
    (h : getKVCacheBytesPerBlock groups = .ok bytesPerBlock) : 0 < bytesPerBlock ∧
    ∀ group ∈ groups, ∃ pages, pageSizes group = .ok pages ∧ pages.sum ≤ bytesPerBlock := by
  obtain ⟨pages, sized, h⟩ := bind_eq_ok.mp h
  obtain ⟨_, positive, h⟩ := bind_eq_ok.mp h
  obtain ⟨specs, -, h⟩ := bind_eq_ok.mp h
  rw [pyAssert_ok] at positive
  have rounded := Except.ok.inj h
  have bounded : (pages.map List.sum).foldl max 0 ≤ bytesPerBlock := by
    rw [← rounded]
    refine cdiv_mul_ge ?_
    have nonzero : ∀ (alignments : List Nat) (start : Nat), 0 < start → (∀ a ∈ alignments, 0 < a) →
        0 < alignments.foldl Nat.lcm start := by
      intro alignments
      induction alignments with
      | nil => exact fun _ hs _ => hs
      | cons a rest ih =>
        intro start hs all
        exact ih _ (Nat.lcm_pos hs (all a mem_cons_self))
          fun x hx => all x (mem_cons_of_mem _ hx)
    refine nonzero _ 1 Nat.one_pos fun a ha => ?_
    obtain ⟨spec, -, rfl⟩ := mem_map.mp ha
    cases given : spec.blockStrideAlignment with
    | none => exact Nat.one_pos
    | some alignment => exact spec.alignmentPos alignment given
  refine ⟨positive.trans_le bounded, fun group hg => ?_⟩
  rw [mapM_eq_ok] at sized
  obtain ⟨i, hi⟩ := mem_iff_getElem?.mp hg
  obtain ⟨own, ho, ran⟩ := forall₂_getElem? sized hi
  refine ⟨own, ran, le_trans ?_ bounded⟩
  exact (le_foldl_max _ 0).2 _ (mem_map_of_mem (mem_of_getElem? ho))

/-- The pages of the layers of each group are apart from each other and within the allocation;
blocks of block-outermost layouts are apart across groups too. -/
theorem getKVCacheConfigFromGroups_placed {layout : KVCacheLayout} {override : Option Nat}
    {groups : List (KVCacheGroupSpec N K)} {availableMemory : Nat} {config : KVCacheConfig N K}
    (planned : getKVCacheConfigFromGroups layout override groups availableMemory = .ok config)
    (listed : ∀ group ∈ groups, group.Listed) :
    ∃ size tensors, ConfigPlaced layout groups config size tensors := by
  unfold getKVCacheConfigFromGroups at planned
  by_cases none : groups.length = 0
  · rw [if_pos none] at planned
    obtain rfl := Except.ok.inj planned
    obtain rfl := length_eq_zero_iff.mp none
    exact ⟨0, [], rfl, .nil, by simp⟩
  · rw [if_neg none] at planned
    obtain ⟨_, -, planned⟩ := bind_eq_ok.mp planned
    obtain ⟨bytesPerBlock, bytes, planned⟩ := bind_eq_ok.mp planned
    obtain ⟨tensors, placed, planned⟩ := bind_eq_ok.mp planned
    obtain rfl := Except.ok.inj planned
    rw [mapM_eq_ok] at placed
    obtain ⟨block, fits⟩ := pageSizes_le bytes
    have slots : ∀ group ts, (group, ts) ∈ groups.zip tensors → ∃ pages slots,
        Layered group pages ∧ pages.sum ≤ bytesPerBlock ∧
        Slots layout (override.getD (availableMemory / bytesPerBlock)) bytesPerBlock 0
          (layersBySpec group) ts slots := by
      intro group ts pair
      have hg : group ∈ groups := (of_mem_zip pair).1
      obtain ⟨pages, sized, fit⟩ := fits group hg
      have layers := layered (listed group hg) sized
      obtain ⟨slots, slotted⟩ := placeLayers_slots (forall₂_zip placed pair)
        fun item hi => (layers.own item hi).1
      exact ⟨pages, slots, layers, fit, slotted⟩
    refine ⟨bytesPerBlock * override.getD (availableMemory / bytesPerBlock), tensors, rfl, ?_, ?_⟩
    · refine forall₂_iff_zip.mpr ⟨placed.length_eq, fun {group ts} pair => ?_⟩
      obtain ⟨pages, slots, layers, fit, slotted⟩ := slots group ts pair
      exact group_placed layers slotted fit block
    · intro outer first hf second hs i l b i' l' b' x h h'
      obtain ⟨_, _, layers, fit, slotted⟩ := slots first.1 first.2 hf
      obtain ⟨_, _, layers', fit', slotted'⟩ := slots second.1 second.2 hs
      obtain ⟨_, y, -, -, -, less, place⟩ := h.in_block layers slotted fit outer
      obtain ⟨_, y', -, -, -, less', place'⟩ := h'.in_block layers' slotted' fit' outer
      exact (digit_unique (place.symm.trans place') less less').1

/-! ### Samples -/

theorem unaligned_pos : ∀ alignment ∈ (none : Option Nat), 0 < alignment := by simp

def twoHeads (stateContentSizeBytes : Nat) : KVCacheSpec Unit where
  kind := ()
  blockSize := 16
  numHeads := 2
  tokensPerState := 1
  stateContentSizeBytes := stateContentSizeBytes
  pageSizePadded := none
  blockStrideAlignment := none
  alignmentPos := unaligned_pos

def sampleGroup (layerNames : List String) (specs : PyDict String (KVCacheSpec Unit)) :
    KVCacheGroupSpec String Unit := ⟨layerNames, .uniformType specs⟩

def sampleSpecs (layerName : String) (stateContentSizeBytes : Nat) :
    PyDict String (KVCacheSpec Unit) := PyDict.empty.set layerName (twoHeads stateContentSizeBytes)

def sampleGroups : List (KVCacheGroupSpec String Unit) :=
  [sampleGroup ["wide"] (sampleSpecs "wide" 64), sampleGroup ["narrow"] (sampleSpecs "narrow" 32)]

theorem sampleGroups_placed : ∃ config,
    getKVCacheConfigFromGroups .BLHNC none sampleGroups 8192 = .ok config ∧
    ∃ size tensors, ConfigPlaced .BLHNC sampleGroups config size tensors := by
  have planned : (getKVCacheConfigFromGroups .BLHNC none sampleGroups 8192).toOption.isSome =
      true := by
    decide +kernel
  refine ⟨_, toOption_get planned, getKVCacheConfigFromGroups_placed (toOption_get planned) ?_⟩
  intro group hg
  cases mem_cons.mp hg with
  | inl here => rw [here]; exact .refl _
  | inr later => rw [mem_singleton.mp later]; exact .refl _

def KVCacheConfig.plan (config : KVCacheConfig N K) : Nat × List (KVCacheTensor N) :=
  (config.numBlocks, config.kvCacheTensors)

/-- Where heads are dealt apart from their blocks, the range of a page from its start is not its
own; and the specs of a group that names none of their layers are placed beyond the allocation. -/
theorem page_ranges_overlap : (∃ config tensor, getKVCacheConfigFromGroups .LHBNC none
    [sampleGroup ["wide"] (sampleSpecs "wide" 64)] 4096 = .ok config ∧
    config.plan = (2, [tensor]) ∧ tensor.layers = ["wide"] ∧
    (twoHeads 64).pageSizeBytes = .ok 2048 ∧ tensor.pageStart 0 0 ≤ tensor.pageStart 0 1 ∧
    tensor.pageStart 0 1 < tensor.pageStart 0 0 + 2048) ∧
    ∃ config own unlisted, getKVCacheConfigFromGroups .BLHNC none
    [sampleGroup ["narrow"] (sampleSpecs "narrow" 32), sampleGroup [] (sampleSpecs "wide" 64)]
    1024 = .ok config ∧ config.plan = (1, [own, unlisted]) ∧ unlisted.layers = ["wide"] ∧
    (twoHeads 64).pageSizeBytes = .ok 2048 ∧ unlisted.size < unlisted.pageStart 0 0 + 2048 := by
  have returned : ∀ {x : Except PyError (KVCacheConfig String Unit)} {p},
      x.toOption.map KVCacheConfig.plan = some p → ∃ config, x = .ok config ∧ config.plan = p := by
    intro x p h
    cases x with
    | error e => cases h
    | ok config => exact ⟨config, rfl, Option.some.inj h⟩
  have page : (twoHeads 64).pageSizeBytes = .ok 2048 := by decide +kernel
  constructor
  · obtain ⟨config, planned, same⟩ := returned
      (x := getKVCacheConfigFromGroups .LHBNC none [sampleGroup ["wide"] (sampleSpecs "wide" 64)]
        4096) (p := (2, [⟨4096, ["wide"], 4096, 1024, 0⟩])) (by decide +kernel)
    exact ⟨config, _, planned, same, rfl, page, by decide, by decide⟩
  · obtain ⟨config, planned, same⟩ := returned
      (x := getKVCacheConfigFromGroups .BLHNC none
        [sampleGroup ["narrow"] (sampleSpecs "narrow" 32), sampleGroup [] (sampleSpecs "wide" 64)]
        1024)
      (p := (1, [⟨1024, ["narrow"], 1024, 1024, 0⟩, ⟨1024, ["wide"], 2048, 1024, 0⟩]))
      (by decide +kernel)
    exact ⟨config, _, _, planned, same, rfl, page, by decide⟩

end VllmAmpere.KVLayout
