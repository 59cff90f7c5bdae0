import Mathlib.Data.List.Nodup
import Mathlib.Order.SetNotation
import Mathlib.Tactic.Ring
import VllmAmpere.PyDict

/-! The placement of the layers of a model in one allocation: the strides of a layout, the bytes
of a block and the tensors of each KV cache group. -/

namespace VllmAmpere.KVLayout

/-- The logical dimensions of a cache: layers, blocks, heads, states and their content. -/
inductive Dim
  | L | B | H | N | C
  deriving DecidableEq, Repr

inductive KVCacheLayout
  | LBHNC | LBNHC | LHBNC | BLHNC | BLNHC | BHLNC
  deriving DecidableEq, Repr

namespace KVCacheLayout

/-- The dimensions in the order of memory, the outermost first. -/
def strideOrder : KVCacheLayout → List Dim
  | LBHNC => [.L, .B, .H, .N, .C]
  | LBNHC => [.L, .B, .N, .H, .C]
  | LHBNC => [.L, .H, .B, .N, .C]
  | BLHNC => [.B, .L, .H, .N, .C]
  | BLNHC => [.B, .L, .N, .H, .C]
  | BHLNC => [.B, .H, .L, .N, .C]

variable (layout : KVCacheLayout)

def isLayerCompact : Bool := layout.strideOrder[0]? = some .L

def isBlockCompact : Bool :=
  Dim.L ∈ layout.strideOrder.take 2 ∧ Dim.B ∈ layout.strideOrder.take 2

def isBlockOutermost : Bool := layout.strideOrder[0]? = some .B

end KVCacheLayout

/-- `a // b`. -/
def floorDiv (a b : Nat) : Except PyError Nat :=
  if b = 0 then .error (.runtime "ZeroDivisionError") else .ok (a / b)

/-- What the placement reads of the spec of a layer; `kind` stands for its class and its other
fields. -/
structure KVCacheSpec (K : Type) where
  kind : K
  blockSize : Nat
  numHeads : Nat
  tokensPerState : Rat
  stateContentSizeBytes : Nat
  pageSizePadded : Option Nat
  blockStrideAlignment : Option Nat
  alignmentPos : ∀ alignment ∈ blockStrideAlignment, 0 < alignment
  deriving DecidableEq

namespace KVCacheSpec

variable {K : Type} (spec : KVCacheSpec K)

def numStates : Nat :=
  if 0 < spec.tokensPerState then ((spec.blockSize : Rat) / spec.tokensPerState).floor.toNat else 1

def unpaddedPageSizeBytes : Nat := spec.numHeads * spec.numStates * spec.stateContentSizeBytes

def pageSizeBytes : Except PyError Nat :=
  match spec.pageSizePadded with
  | some padded => do
    pyAssert (spec.unpaddedPageSizeBytes ≤ padded) ""
    .ok padded
  | none => .ok spec.unpaddedPageSizeBytes

end KVCacheSpec

section

variable {K : Type}

/-- The shape of the caches of some layers, without kernel blocks. -/
def cacheShape (spec : KVCacheSpec K) (numBlocks numLayers : Nat) : Dim → Nat
  | .L => numLayers
  | .B => numBlocks
  | .H => spec.numHeads
  | .N => spec.numStates
  | .C => spec.stateContentSizeBytes

def pageGridEnd (order : List Dim) : Nat := max (order.idxOf .L) (order.idxOf .B) + 1

/-- Raises the stride of the innermost of layers and blocks to the padded page. -/
def padPage (padded : Option Nat) (last : Bool) (current : Nat) : Except PyError Nat :=
  match padded with
  | some padded =>
    if last then
      if padded = 0 then .error (.runtime "ZeroDivisionError")
      else do
        pyAssert (max current padded % padded = 0) ""
        .ok (max current padded)
    else .ok current
  | none => .ok current

def strideLoop (shape : Dim → Nat) (fixedStrides : Dim → Option Nat) (padded : Option Nat)
    (gridEnd : Nat) : List (Dim × Nat) → Nat → (Dim → Nat) → Except PyError (Dim → Nat)
  | [], _, strides => .ok strides
  | (dim, physicalIdx) :: dims, current, strides => do
    let current ← padPage padded (physicalIdx = gridEnd - 1) current
    let stride := (fixedStrides dim).getD current
    strideLoop shape fixedStrides padded gridEnd dims (stride * shape dim)
      (Function.update strides dim stride)

def computeLayoutStrides (spec : KVCacheSpec K) (numBlocks numLayers : Nat)
    (layout : KVCacheLayout) (fixedStrides : Dim → Option Nat) : Except PyError (Dim → Nat) := do
  let order := layout.strideOrder
  let gridEnd := pageGridEnd order
  let shape := cacheShape spec numBlocks numLayers
  pyAssert (∀ dim ∈ order, ∀ stride ∈ fixedStrides dim, 0 < stride) ""
  let _ ← floorDiv spec.blockSize spec.blockSize
  pyAssert (spec.pageSizePadded = none ∨
    ((order.take gridEnd).map shape).prod = numLayers * numBlocks)
    "Page padding requires dimensions outside the page tail to be L, B, or singleton"
  strideLoop shape fixedStrides spec.pageSizePadded gridEnd order.zipIdx.reverse 1 fun _ => 0

end

/-! ### Groups -/

/-- The spec of a group: of each layer its own, or one for all. -/
inductive GroupSpec (N K : Type)
  | uniformType (kvCacheSpecs : PyDict N (KVCacheSpec K))
  | same (spec : KVCacheSpec K)

structure KVCacheGroupSpec (N K : Type) where
  layerNames : List N
  kvCacheSpec : GroupSpec N K

/-- Layers of one shape: layer `l`'s page for block `b` starts at
`offset + l * layerStride + b * blockStride`. -/
structure KVCacheTensor (N : Type) where
  size : Nat
  layers : List N
  layerStride : Nat
  blockStride : Nat
  offset : Nat
  deriving DecidableEq

structure KVCacheConfig (N K : Type) where
  numBlocks : Nat
  kvCacheTensors : List (KVCacheTensor N)
  kvCacheGroups : List (KVCacheGroupSpec N K)

section

variable {N K : Type} [DecidableEq N] [DecidableEq K]

def getPerLayerSpec (group : KVCacheGroupSpec N K) (layerName : N) :
    Except PyError (KVCacheSpec K) :=
  match group.kvCacheSpec with
  | .uniformType specs => specs.getItem layerName
  | .same spec => .ok spec

def layerSpecs (group : KVCacheGroupSpec N K) : Except PyError (List (KVCacheSpec K)) :=
  group.layerNames.mapM (getPerLayerSpec group)

def pageSizes (group : KVCacheGroupSpec N K) : Except PyError (List Nat) := do
  (← layerSpecs group).mapM KVCacheSpec.pageSizeBytes

/-- `_get_kv_cache_bytes_per_block`: the widest group, up to a multiple of all alignments. -/
def getKVCacheBytesPerBlock (groups : List (KVCacheGroupSpec N K)) : Except PyError Nat := do
  let pages ← groups.mapM pageSizes
  let bytesPerBlock := (pages.map List.sum).foldl max 0
  pyAssert (0 < bytesPerBlock) ""
  let specs ← groups.mapM layerSpecs
  let alignments := specs.flatten.map fun spec => spec.blockStrideAlignment.getD 1
  let alignment := alignments.foldl Nat.lcm 1
  .ok (cdiv bytesPerBlock alignment * alignment)

def validateKVCacheLayout (layout : KVCacheLayout) (groups : List (KVCacheGroupSpec N K)) :
    Except PyError Unit := do
  let pages ← groups.mapM pageSizes
  if pages.flatten.dedup.length = 1 then .ok ()
  else if ¬layout.isBlockCompact ∨ (1 < groups.length ∧ layout.isLayerCompact) then
    .error (.value "KV cache layout cannot express this model's mixed page sizes")
  else .ok ()

def layersBySpec (group : KVCacheGroupSpec N K) : List (KVCacheSpec K × List N) :=
  match group.kvCacheSpec with
  | .uniformType specs =>
    specs.items.foldl (fun groups layer => dictAppend layer.2 layer.1 groups) []
  | .same spec => if group.layerNames = [] then [] else [(spec, group.layerNames)]

/-- The strides that are given to the layers and the blocks. -/
def fixedStrides (layerStride blockStride : Option Nat) : Dim → Option Nat
  | .L => layerStride
  | .B => blockStride
  | _ => none

variable (layout : KVCacheLayout) (numBlocks bytesPerBlock : Nat)

/-- `interleaved_block_stride`. -/
def interleavedBlockStride : Option Nat :=
  if layout.isBlockOutermost then some bytesPerBlock else none

def placeLayers : List (KVCacheSpec K × List N) → Nat → Except PyError (List (KVCacheTensor N))
  | [], _ => .ok []
  | (spec, layerNames) :: rest, byteOffset => do
    let strides ← computeLayoutStrides spec numBlocks layerNames.length layout
      (fixedStrides none (interleavedBlockStride layout bytesPerBlock))
    let page ← spec.pageSizeBytes
    let offset ← floorDiv (byteOffset * max (strides .L) page) page
    let tensors ← placeLayers rest (byteOffset + layerNames.length * page)
    .ok (⟨bytesPerBlock * numBlocks, layerNames, strides .L, strides .B, offset⟩ :: tensors)

def groupTensors (group : KVCacheGroupSpec N K) : Except PyError (List (KVCacheTensor N)) :=
  placeLayers layout numBlocks bytesPerBlock (layersBySpec group) 0

/-- `get_kv_cache_config_from_groups` past the branches for HiSparse and for GLM-5 models. -/
def getKVCacheConfigFromGroups (numGpuBlocksOverride : Option Nat)
    (groups : List (KVCacheGroupSpec N K)) (availableMemory : Nat) :
    Except PyError (KVCacheConfig N K) :=
  if groups.length = 0 then .ok ⟨1, [], groups⟩
  else do
    validateKVCacheLayout layout groups
    let bytesPerBlock ← getKVCacheBytesPerBlock groups
    let numBlocks := numGpuBlocksOverride.getD (availableMemory / bytesPerBlock)
    let tensors ← groups.mapM (groupTensors layout numBlocks bytesPerBlock)
    .ok ⟨numBlocks, tensors.flatten, groups⟩

def viewStrides (spec : KVCacheSpec K) (tensor : KVCacheTensor N) : Except PyError (Dim → Nat) :=
  computeLayoutStrides spec numBlocks tensor.layers.length layout
    (fixedStrides (some tensor.layerStride) (some tensor.blockStride))

end

/-! The strides of each layout, as the loop over its dimensions leaves them. -/

variable {K : Type} {spec : KVCacheSpec K} {page : Nat}

namespace KVCacheSpec

def padding (spec : KVCacheSpec K) : Nat := spec.pageSizePadded.getD 0

theorem page_eq (h : spec.pageSizeBytes = .ok page) :
    page = max spec.unpaddedPageSizeBytes spec.padding := by
  unfold pageSizeBytes at h
  unfold padding
  cases padded : spec.pageSizePadded with
  | none =>
    rw [padded] at h
    have same := Except.ok.inj h
    rw [Option.getD_none, ← same, Nat.max_zero]
  | some p =>
    rw [padded] at h
    obtain ⟨_, fits, same⟩ := bind_eq_ok.mp h
    rw [pyAssert_ok] at fits
    have same := Except.ok.inj same
    rw [Option.getD_some, ← same, Nat.max_eq_right fits]

def runBytes (spec : KVCacheSpec K) (page : Nat) : Nat :=
  if spec.numHeads = 1 then page else spec.numStates * spec.stateContentSizeBytes

end KVCacheSpec

theorem floorDiv_ok {a b c : Nat} : floorDiv a b = .ok c ↔ 0 < b ∧ a / b = c := by
  unfold floorDiv
  by_cases zero : b = 0
  · simp [zero]
  · rw [if_neg zero, Except.ok.injEq]
    simp [Nat.pos_of_ne_zero zero]

theorem padPage_ok {padded : Option Nat} {last : Bool} {current raised : Nat}
    (h : padPage padded last current = .ok raised) :
    raised = if last then max current (padded.getD 0) else current := by
  unfold padPage at h
  cases padded with
  | none =>
    have same := Except.ok.inj h
    rw [Option.getD_none, Nat.max_zero, ← same, ite_self]
  | some p =>
    cases last with
    | false => exact (Except.ok.inj h).symm
    | true =>
      dsimp only at h
      rw [if_pos rfl] at h
      split at h
      · cases h
      · obtain ⟨_, -, same⟩ := bind_eq_ok.mp h
        exact (Except.ok.inj same).symm

/-- The strides that the loop leaves when no assertion fails. -/
def stridesFrom (shape : Dim → Nat) (fixedStrides : Dim → Option Nat) (padding gridEnd : Nat) :
    List (Dim × Nat) → Nat → (Dim → Nat) → Dim → Nat
  | [], _, strides => strides
  | (dim, physicalIdx) :: dims, current, strides =>
    let stride := (fixedStrides dim).getD
      (if physicalIdx = gridEnd - 1 then max current padding else current)
    stridesFrom shape fixedStrides padding gridEnd dims (stride * shape dim)
      (Function.update strides dim stride)

theorem strideLoop_ok {shape : Dim → Nat} {fixed : Dim → Option Nat} {padded : Option Nat}
    {gridEnd : Nat} {dims : List (Dim × Nat)} {current : Nat} {strides s : Dim → Nat}
    (h : strideLoop shape fixed padded gridEnd dims current strides = .ok s) :
    s = stridesFrom shape fixed (padded.getD 0) gridEnd dims current strides := by
  induction dims generalizing current strides with
  | nil => exact (Except.ok.inj h).symm
  | cons dim dims ih =>
    obtain ⟨dim, i⟩ := dim
    rw [strideLoop, bind_eq_ok] at h
    obtain ⟨raised, padded, rest⟩ := h
    have same := padPage_ok padded
    simp only [decide_eq_true_eq] at same
    rw [stridesFrom, ← same]
    exact ih rest

section

variable {numBlocks numLayers : Nat} {layout : KVCacheLayout} {s : Dim → Nat}

theorem computeLayoutStrides_ok {fixed : Dim → Option Nat}
    (h : computeLayoutStrides spec numBlocks numLayers layout fixed = .ok s) : 0 < spec.blockSize ∧
    (spec.pageSizePadded = none ∨ ((layout.strideOrder.take (pageGridEnd layout.strideOrder)).map
    (cacheShape spec numBlocks numLayers)).prod = numLayers * numBlocks) ∧
    s = stridesFrom (cacheShape spec numBlocks numLayers) fixed spec.padding
    (pageGridEnd layout.strideOrder) layout.strideOrder.zipIdx.reverse 1 fun _ => 0 := by
  unfold computeLayoutStrides at h
  dsimp only at h
  obtain ⟨_, -, h⟩ := bind_eq_ok.mp h
  obtain ⟨_, divides, h⟩ := bind_eq_ok.mp h
  obtain ⟨_, grid, h⟩ := bind_eq_ok.mp h
  exact ⟨(floorDiv_ok.mp divides).1, pyAssert_ok.mp grid, strideLoop_ok h⟩

/-- The strides of a layout: of layers and blocks, and of the heads that are dealt apart. -/
def HasStrides (layout : KVCacheLayout) (run page numHeads numBlocks numLayers : Nat)
    (layerStride blockStride : Option Nat) (s : Dim → Nat) : Prop :=
  match layout with
  | .LBHNC | .LBNHC => s .B = blockStride.getD page ∧ s .L = layerStride.getD (s .B * numBlocks)
  | .BLHNC | .BLNHC => s .L = layerStride.getD page ∧ s .B = blockStride.getD (s .L * numLayers)
  | .LHBNC => s .B = blockStride.getD run ∧ s .H = s .B * numBlocks ∧
      s .L = layerStride.getD (s .H * numHeads)
  | .BHLNC => s .L = layerStride.getD run ∧ s .H = s .L * numLayers ∧
      s .B = blockStride.getD (s .H * numHeads)

theorem run_eq (h : spec.pageSizeBytes = .ok page) (one : spec.pageSizePadded = none ∨
    spec.numHeads = 1) :
    spec.runBytes page = max (spec.numStates * spec.stateContentSizeBytes) spec.padding ∧
    spec.numHeads * spec.runBytes page = page := by
  have size := KVCacheSpec.page_eq h
  unfold KVCacheSpec.unpaddedPageSizeBytes at size
  unfold KVCacheSpec.runBytes
  by_cases single : spec.numHeads = 1
  · rw [single, Nat.one_mul] at size
    rw [if_pos single, single, Nat.one_mul]
    exact ⟨size, rfl⟩
  · have none := one.resolve_right single
    have zero : spec.padding = 0 := by rw [KVCacheSpec.padding, none, Option.getD_none]
    rw [zero, Nat.max_zero] at size
    rw [if_neg single, zero, Nat.max_zero, size, Nat.mul_assoc]
    exact ⟨rfl, rfl⟩

theorem single_head {heads layers blocks : Nat} (hl : 0 < layers) (hb : 0 < blocks)
    (h : layers * heads * blocks = layers * blocks) : heads = 1 := by
  have cancelled := Nat.eq_of_mul_eq_mul_right hb h
  exact Nat.eq_of_mul_eq_mul_left hl (cancelled.trans (Nat.mul_one layers).symm)

theorem hasStrides_of_ok {layerStride blockStride : Option Nat}
    (h : computeLayoutStrides spec numBlocks numLayers layout
    (fixedStrides layerStride blockStride) = .ok s)
    (hp : spec.pageSizeBytes = .ok page) (hl : 0 < numLayers) (hb : 0 < numBlocks) :
    HasStrides layout (spec.runBytes page) page spec.numHeads numBlocks numLayers layerStride
    blockStride s ∧
    (layout.isBlockCompact = false → spec.numHeads * spec.runBytes page = page) := by
  obtain ⟨-, grid, rfl⟩ := computeLayoutStrides_ok h
  have size := KVCacheSpec.page_eq hp
  unfold KVCacheSpec.unpaddedPageSizeBytes at size
  have states : max (spec.stateContentSizeBytes * spec.numStates * spec.numHeads) spec.padding =
      page := by
    rw [size, Nat.mul_comm _ spec.numHeads, Nat.mul_comm spec.stateContentSizeBytes, Nat.mul_assoc]
  have heads : max (spec.stateContentSizeBytes * spec.numHeads * spec.numStates) spec.padding =
      page := by
    rw [← states, Nat.mul_right_comm]
  cases layout with
  | LBHNC =>
    have order : pageGridEnd [.L, .B, .H, .N, .C] = 2 := rfl
    refine ⟨?_, fun outer => by cases outer⟩
    simp [HasStrides, stridesFrom, KVCacheLayout.strideOrder, order, fixedStrides, cacheShape, states]
  | LBNHC =>
    have order : pageGridEnd [.L, .B, .N, .H, .C] = 2 := rfl
    refine ⟨?_, fun outer => by cases outer⟩
    simp [HasStrides, stridesFrom, KVCacheLayout.strideOrder, order, fixedStrides, cacheShape, heads]
  | LHBNC =>
    have order : pageGridEnd [.L, .H, .B, .N, .C] = 3 := rfl
    have one : spec.pageSizePadded = none ∨ spec.numHeads = 1 := by
      refine grid.imp_right fun product => single_head hl hb (Eq.trans ?_ product)
      change numLayers * spec.numHeads * numBlocks = numLayers * (spec.numHeads * (numBlocks * 1))
      ring
    obtain ⟨inner, whole⟩ := run_eq hp one
    rw [Nat.mul_comm spec.numStates] at inner
    refine ⟨?_, fun _ => whole⟩
    simp [HasStrides, stridesFrom, KVCacheLayout.strideOrder, order, fixedStrides, cacheShape, inner]
  | BLHNC =>
    have order : pageGridEnd [.B, .L, .H, .N, .C] = 2 := rfl
    refine ⟨?_, fun outer => by cases outer⟩
    simp [HasStrides, stridesFrom, KVCacheLayout.strideOrder, order, fixedStrides, cacheShape, states]
  | BLNHC =>
    have order : pageGridEnd [.B, .L, .N, .H, .C] = 2 := rfl
    refine ⟨?_, fun outer => by cases outer⟩
    simp [HasStrides, stridesFrom, KVCacheLayout.strideOrder, order, fixedStrides, cacheShape, heads]
  | BHLNC =>
    have order : pageGridEnd [.B, .H, .L, .N, .C] = 3 := rfl
    have one : spec.pageSizePadded = none ∨ spec.numHeads = 1 := by
      refine grid.imp_right fun product => single_head hl hb (Eq.trans ?_ product)
      change numLayers * spec.numHeads * numBlocks = numBlocks * (spec.numHeads * (numLayers * 1))
      ring
    obtain ⟨inner, whole⟩ := run_eq hp one
    rw [Nat.mul_comm spec.numStates] at inner
    refine ⟨?_, fun _ => whole⟩
    simp [HasStrides, stridesFrom, KVCacheLayout.strideOrder, order, fixedStrides, cacheShape, inner]

/-! ### Views -/

theorem strideLoop_succeeds {shape : Dim → Nat} {fixed : Dim → Option Nat} {padded : Option Nat}
    {gridEnd : Nat} {dims : List (Dim × Nat)} (outside : ∀ dim ∈ dims, dim.2 ≠ gridEnd - 1)
    (current : Nat) (strides : Dim → Nat) :
    ∃ s, strideLoop shape fixed padded gridEnd dims current strides = .ok s := by
  induction dims generalizing current strides with
  | nil => exact ⟨strides, rfl⟩
  | cons dim dims ih =>
    have here : decide (dim.2 = gridEnd - 1) = false :=
      decide_eq_false (outside dim List.mem_cons_self)
    have kept : padPage padded (decide (dim.2 = gridEnd - 1)) current = .ok current := by
      rw [here]
      cases padded <;> rfl
    obtain ⟨s, ran⟩ := ih (fun d hd => outside d (List.mem_cons_of_mem _ hd)) _ _
    exact ⟨s, bind_eq_ok.mpr ⟨current, kept, ran⟩⟩

theorem strideLoop_again {shape : Dim → Nat} {fixed fixed' : Dim → Option Nat}
    {padded : Option Nat} {gridEnd : Nat} (inner : List (Dim × Nat)) (last : Dim × Nat)
    (rest : List (Dim × Nat)) (outside : ∀ dim ∈ rest, dim.2 ≠ gridEnd - 1)
    (free : ∀ dim ∈ inner, fixed dim.1 = none ∧ fixed' dim.1 = none) {current : Nat}
    {strides strides' s : Dim → Nat}
    (h : strideLoop shape fixed padded gridEnd (inner ++ last :: rest) current strides = .ok s) :
    ∃ s', strideLoop shape fixed' padded gridEnd (inner ++ last :: rest) current strides' =
    .ok s' := by
  induction inner generalizing current strides strides' with
  | nil =>
    obtain ⟨raised, padded, -⟩ := bind_eq_ok.mp h
    obtain ⟨s', ran⟩ := strideLoop_succeeds outside _ _
    exact ⟨s', bind_eq_ok.mpr ⟨raised, padded, ran⟩⟩
  | cons dim inner ih =>
    obtain ⟨raised, padded, ran⟩ := bind_eq_ok.mp h
    obtain ⟨none, none'⟩ := free dim List.mem_cons_self
    rw [none] at ran
    obtain ⟨s', again⟩ := ih (fun d hd => free d (List.mem_cons_of_mem _ hd)) ran
    refine ⟨s', bind_eq_ok.mpr ⟨raised, padded, ?_⟩⟩
    rw [none']
    exact again

theorem computeLayoutStrides_again {layerStride blockStride layerStride' blockStride' : Option Nat}
    (h : computeLayoutStrides spec numBlocks numLayers layout
    (fixedStrides layerStride blockStride) = .ok s)
    (positive : (∀ stride ∈ layerStride', 0 < stride) ∧ ∀ stride ∈ blockStride', 0 < stride) :
    ∃ s', computeLayoutStrides spec numBlocks numLayers layout
    (fixedStrides layerStride' blockStride') = .ok s' := by
  unfold computeLayoutStrides at h ⊢
  dsimp only at h ⊢
  obtain ⟨_, -, h⟩ := bind_eq_ok.mp h
  obtain ⟨_, divides, h⟩ := bind_eq_ok.mp h
  obtain ⟨_, grid, h⟩ := bind_eq_ok.mp h
  have again : ∃ s', strideLoop (cacheShape spec numBlocks numLayers)
      (fixedStrides layerStride' blockStride') spec.pageSizePadded
      (pageGridEnd layout.strideOrder) layout.strideOrder.zipIdx.reverse 1 (fun _ => 0) =
        .ok s' := by
    cases layout with
    | LBHNC =>
      exact strideLoop_again [(.C, 4), (.N, 3), (.H, 2)] (.B, 1) [(.L, 0)] (by decide)
        (by simp [fixedStrides]) h
    | LBNHC =>
      exact strideLoop_again [(.C, 4), (.H, 3), (.N, 2)] (.B, 1) [(.L, 0)] (by decide)
        (by simp [fixedStrides]) h
    | LHBNC =>
      exact strideLoop_again [(.C, 4), (.N, 3)] (.B, 2) [(.H, 1), (.L, 0)] (by decide)
        (by simp [fixedStrides]) h
    | BLHNC =>
      exact strideLoop_again [(.C, 4), (.N, 3), (.H, 2)] (.L, 1) [(.B, 0)] (by decide)
        (by simp [fixedStrides]) h
    | BLNHC =>
      exact strideLoop_again [(.C, 4), (.H, 3), (.N, 2)] (.L, 1) [(.B, 0)] (by decide)
        (by simp [fixedStrides]) h
    | BHLNC =>
      exact strideLoop_again [(.C, 4), (.N, 3)] (.L, 2) [(.H, 1), (.B, 0)] (by decide)
        (by simp [fixedStrides]) h
  obtain ⟨s', ran⟩ := again
  refine ⟨s', bind_eq_ok.mpr ⟨(), pyAssert_ok.mpr ?_, bind_eq_ok.mpr ⟨_, divides,
    bind_eq_ok.mpr ⟨_, grid, ran⟩⟩⟩⟩
  intro dim _ stride hs
  cases dim with
  | L => exact positive.1 stride hs
  | B => exact positive.2 stride hs
  | _ => cases hs

end

end VllmAmpere.KVLayout
