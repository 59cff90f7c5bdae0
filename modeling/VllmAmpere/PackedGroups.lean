import Mathlib.Algebra.BigOperators.Group.List.Basic
import Mathlib.Data.List.Nodup
import Mathlib.Data.List.Range
import VllmAmpere.Python

/-! The packing of layers with several page sizes into KV cache groups: greedy buckets of one
type, the bytes a block must hold, and the split of the buckets. -/

open List

namespace VllmAmpere.KVPacking

/-- The registered classes of specs, each with what its uniformity test compares. -/
inductive SpecClass
  | fullAttention
  | mlaAttention
  | hiddenStateCache
  | rswa
  | sinkFullAttention
  | chunkedLocalAttention (attentionChunkSize : Nat)
  | slidingWindow (slidingWindow : Nat)
  | slidingWindowMLA (slidingWindow : Nat) (boundedReplay : Bool)
  | kpoolTail (slidingWindow : Nat)
  | circularBuffer
  | mamba (numSpeculativeBlocks numPrefillCheckpointBlocks : Nat)
      (prefillCheckpointAlignment : Option Nat) (tpReplicated : Bool)
  | crossAttention
  | hiSparseHot
  | hiSparseResident
  deriving DecidableEq, Repr

namespace SpecClass

/-- `FullAttentionSpec` and its subclasses. -/
def isFullAttention : SpecClass → Bool
  | fullAttention | mlaAttention | hiddenStateCache | rswa | sinkFullAttention => true
  | _ => false

/-- The window of a `SlidingWindowSpec` or of a subclass. -/
def window? : SpecClass → Option Nat
  | slidingWindow w | slidingWindowMLA w _ | kpoolTail w => some w
  | _ => none

def isKpoolTail : SpecClass → Bool
  | kpoolTail _ => true
  | _ => false

/-- `isinstance(spec, (MambaSpec, CircularBufferSpec))`. -/
def isState : SpecClass → Bool
  | mamba _ _ _ _ | circularBuffer => true
  | _ => false

end SpecClass

structure LayerSpec where
  cls : SpecClass
  blockSize : Nat
  dcpSharded : Bool
  pageSizeBytes : Nat
  pageSizePos : 0 < pageSizeBytes

namespace LayerSpec

theorem eq_iff {a b : LayerSpec} : a = b ↔ a.cls = b.cls ∧ a.blockSize = b.blockSize ∧
    a.dcpSharded = b.dcpSharded ∧ a.pageSizeBytes = b.pageSizeBytes := by
  cases a
  cases b
  simp

instance decEq : DecidableEq LayerSpec := fun _ _ => decidable_of_iff _ eq_iff.symm

/-- What `self` asks of each spec in `is_uniform_with_collection`. -/
def accepts (self spec : LayerSpec) : Bool :=
  match self.cls with
  | .fullAttention | .mlaAttention | .hiddenStateCache | .rswa | .sinkFullAttention =>
    spec.cls.isFullAttention
  | .slidingWindow w => spec.cls.window? = some w
  | .kpoolTail _ => spec.cls.isKpoolTail
  | .mamba .. => spec.cls = self.cls ∧ spec.pageSizeBytes = self.pageSizeBytes
  | _ => spec.cls = self.cls

theorem accepts_self (spec : LayerSpec) : spec.accepts spec = true := by
  obtain ⟨cls, _, _, _, _⟩ := spec
  cases cls <;> simp [accepts, SpecClass.isFullAttention, SpecClass.window?, SpecClass.isKpoolTail]

end LayerSpec

/-- `max(xs, default=0)`. -/
def maxOrZero (xs : List Nat) : Nat := xs.foldl max 0

/-- The names of the layers with their specs; a dict keeps the order of insertion. -/
abbrev Layers (N : Type) := List (N × LayerSpec)

section

variable {N : Type}

/-- `is_uniform_type`. Without layers there is no first spec. -/
def isUniformType : Layers N → Except PyError Bool
  | [] => .error (.runtime "StopIteration")
  | first :: rest =>
    .ok ((first :: rest).all fun layer => layer.2.blockSize = first.2.blockSize ∧
      layer.2.dcpSharded = first.2.dcpSharded ∧ first.2.accepts layer.2)

/-- Puts a layer into the first bucket that stays of one type with it. -/
def addToBuckets (layer : N × LayerSpec) : List (Layers N) → Except PyError (List (Layers N))
  | [] => .ok [[layer]]
  | bucket :: buckets => do
    if ← isUniformType (bucket ++ [layer]) then .ok ((bucket ++ [layer]) :: buckets)
    else .ok (bucket :: (← addToBuckets layer buckets))

def bucketLayers : Layers N → List (Layers N) → Except PyError (List (Layers N))
  | [], buckets => .ok buckets
  | layer :: layers, buckets => do bucketLayers layers (← addToBuckets layer buckets)

def pageSizeLayers (bucket : Layers N) : List (Nat × Layers N) :=
  bucket.foldl (fun groups layer => dictAppend layer.2.pageSizeBytes layer groups) []

/-- Whether there are as many layers of each page size. -/
def balanced (bucket : Layers N) : Bool :=
  match pageSizeLayers bucket with
  | [] => false
  | first :: rest => rest.all fun group => group.2.length = first.2.length

def getMaxLayersPerPageSize (bucket : Layers N) : Nat :=
  maxOrZero ((pageSizeLayers bucket).map fun group => group.2.length)

/-- `from_specs`, which returns `None` for specs of several types. -/
def fromSpecs (layers : Layers N) : Except PyError Unit := do
  pyAssert ((← isUniformType layers) = true) ""

/-- The padding when each value is rounded up to a multiple of `d`. -/
def padding (values : List Nat) (d : Nat) : Nat :=
  (values.map fun x => (d - x % d) % d).sum

/-- The search of `_approximate_gcd` over the chunk sizes from `d` on. -/
def searchGcd (values : List Nat) : Nat → Nat → Nat × Option Nat → Nat
  | 0, _, best => best.1
  | n + 1, d, (bestD, bestPad) =>
    let pad := padding values d
    searchGcd values n (d + 1)
      (match bestPad with
      | none => (d, some pad)
      | some best => if pad < best ∨ (pad = best ∧ d > bestD) then (d, some pad)
        else (bestD, some best))

def approximateGcd (values : List Nat) (lowerBound : Nat) : Except PyError Nat :=
  if values = [] then .error (.value "values must be non-empty")
  else if ∃ x ∈ values, x = 0 then .error (.value "values must be positive")
  else
    let minD := max 1 lowerBound
    let maxD := maxOrZero values
    if minD > maxD then .ok minD
    else .ok (searchGcd values (maxD + 1 - minD) minD (minD, none))

def minRepeatsPerGroup (buckets : List (Layers N)) : Nat :=
  maxOrZero ((buckets.filter fun bucket =>
    balanced bucket ∧ (pageSizeLayers bucket).length > 1).map getMaxLayersPerPageSize)

def repeatsPerGroup (buckets : List (Layers N)) : Except PyError (Option Nat) :=
  if minRepeatsPerGroup buckets = 0 then .ok none
  else do
    let repeats ← approximateGcd ((buckets.filter fun bucket => balanced bucket).map
      getMaxLayersPerPageSize) (minRepeatsPerGroup buckets)
    .ok (some repeats)

variable (repeats : Option Nat)

def numGroupsFor (bucket : Layers N) : Nat :=
  match repeats with
  | some repeats => if balanced bucket then cdiv (getMaxLayersPerPageSize bucket) repeats else 1
  | none => 1

/-- The bytes of the largest of `n` groups a bucket splits into. -/
def widestGroupBytes (bucket : Layers N) (n : Nat) : Nat :=
  ((pageSizeLayers bucket).map fun group => cdiv group.2.length n * group.1).sum

/-- Whether the layers keep a state: one block of each request. It is decided by the first. -/
def isStateBucket (layers : Layers N) : Bool :=
  match layers with
  | [] => false
  | first :: _ => first.2.cls.isState ∨ (repeats = none ∧ first.2.cls.window?.isSome)

/-- The bytes a block must hold however the state buckets are split. -/
def anchorBytes (buckets : List (Layers N)) : Nat :=
  maxOrZero (buckets.map fun bucket => widestGroupBytes bucket
    (if isStateBucket repeats bucket then bucket.length else numGroupsFor repeats bucket))

/-- The number of groups of a bucket, where a state group is kept within the anchor. -/
def numGroups (anchorBytes : Nat) (bucket : Layers N) : Nat :=
  match bucket with
  | [] => numGroupsFor repeats bucket
  | first :: _ =>
    if anchorBytes ≠ 0 ∧ isStateBucket repeats bucket then
      max (numGroupsFor repeats bucket)
        (cdiv bucket.length (max (anchorBytes / first.2.pageSizeBytes) 1))
    else numGroupsFor repeats bucket

/-- `zip(*lists)`: the rows up to the end of the shortest list. -/
def zipLists {α : Type} (lists : List (List α)) : List (List α) :=
  match (lists.map List.length).min? with
  | none => []
  | some rows => (List.range rows).map fun i => lists.filterMap fun list => list[i]?

/-- `xs[i::n]`. -/
def everyNth {α : Type} (xs : List α) (i n : Nat) : List α :=
  (List.range (cdiv (xs.length - i) n)).filterMap fun k => xs[i + k * n]?

/-- The layers of one of `n` groups of a bucket. -/
def groupLayers (bucket : Layers N) (n i : Nat) : Layers N :=
  (everyNth (zipLists ((pageSizeLayers bucket).map Prod.snd)) i n).flatten

def emitGroup (bucket : Layers N) (n i : Nat) : Except PyError (Layers N) := do
  fromSpecs (groupLayers bucket n i)
  .ok (groupLayers bucket n i)

def emitGroups (n : Nat) (bucket : Layers N) : Except PyError (List (Layers N)) :=
  if n = 1 then .ok [bucket] else (List.range n).mapM (emitGroup bucket n)

end

section

variable {N : Type}

/-- The buckets, the repeats for each group and the anchor. -/
structure Plan (N : Type) where
  buckets : List (Layers N)
  repeats : Option Nat
  anchorBytes : Nat

def plan (layers : Layers N) : Except PyError (Plan N) := do
  let buckets ← bucketLayers layers []
  let _ ← buckets.mapM fromSpecs
  let repeats ← repeatsPerGroup buckets
  .ok ⟨buckets, repeats, anchorBytes repeats buckets⟩

/-- The groups, each by its layers; which of them is an EAGLE group is left out. -/
def getPackedKVCacheGroups (isBlockOutermost : Bool) (layers : Layers N) :
    Except PyError (Option (List (Layers N))) :=
  if ¬isBlockOutermost ∨ (layers.map fun layer => layer.2.pageSizeBytes).dedup.length ≤ 1 then
    .ok none
  else do
    let plan ← plan layers
    let groups ← plan.buckets.mapM fun bucket =>
      emitGroups (numGroups plan.repeats plan.anchorBytes bucket) bucket
    .ok (some groups.flatten)

end

/-! Rows read across lists and dealt out in turn: what they have in common with the lists
they come from. -/

variable {α : Type}

theorem cdiv_zero_left {n : Nat} : cdiv 0 n = 0 := by
  unfold cdiv
  by_cases h : n = 0
  · simp [h]
  · exact Nat.div_eq_of_lt (by omega)

theorem cdiv_le_self {a n : Nat} (hn : 0 < n) : cdiv a n ≤ a := by
  by_contra large
  have := (lt_cdiv_iff hn).mp (Nat.lt_of_not_le large)
  have : a ≤ a * n := Nat.le_mul_of_pos_right a hn
  omega

theorem cdiv_one (a : Nat) : cdiv a 1 = a := by
  unfold cdiv
  omega

theorem cdiv_pos {a n : Nat} (ha : 0 < a) (hn : 0 < n) : 0 < cdiv a n := by
  rw [lt_cdiv_iff hn]
  omega

theorem cdiv_le_of_cdiv_le {a n size : Nat} (hn : 0 < n) (hs : 0 < size)
    (h : cdiv a size ≤ n) : cdiv a n ≤ size := by
  by_contra large
  have many := (lt_cdiv_iff hn).mp (Nat.lt_of_not_le large)
  have few : ¬n < cdiv a size := Nat.not_lt.mpr h
  rw [lt_cdiv_iff hs, Nat.mul_comm] at few
  omega

/-! ### Dealing out in turn -/

theorem mem_everyNth_indices {n i j len : Nat} (hn : 0 < n) (hi : i < n) :
    j ∈ (List.range (cdiv (len - i) n)).map (fun k => i + k * n) ↔ j < len ∧ j % n = i := by
  rw [mem_map]
  constructor
  · rintro ⟨k, hk, rfl⟩
    rw [mem_range, lt_cdiv_iff hn] at hk
    rw [Nat.add_mul_mod_self_right, Nat.mod_eq_of_lt hi]
    omega
  · rintro ⟨inside, rem⟩
    refine ⟨j / n, ?_, ?_⟩
    · rw [mem_range, lt_cdiv_iff hn]
      have := Nat.mod_add_div' j n
      omega
    · have := Nat.mod_add_div' j n
      omega

theorem dealt_indices {n : Nat} (hn : 0 < n) (len : Nat) : ((List.range n).flatMap fun i =>
    (List.range (cdiv (len - i) n)).map fun k => i + k * n).Perm (List.range len) := by
  refine (perm_ext_iff_of_nodup ?_ nodup_range).mpr fun j => ?_
  · refine nodup_flatMap.mpr ⟨fun i _ => ?_, ?_⟩
    · refine List.Nodup.map (fun k k' same => ?_) nodup_range
      exact Nat.eq_of_mul_eq_mul_right hn (Nat.add_left_cancel same)
    · refine (nodup_range.imp_of_mem fun {i i'} hi hi' ne j hj hj' => ?_)
      rw [mem_everyNth_indices hn (mem_range.mp hi)] at hj
      rw [mem_everyNth_indices hn (mem_range.mp hi')] at hj'
      exact ne (hj.2.symm.trans hj'.2)
  · rw [mem_flatMap, mem_range]
    constructor
    · rintro ⟨i, hi, hj⟩
      exact ((mem_everyNth_indices hn (mem_range.mp hi)).mp hj).1
    · intro hj
      have hi := Nat.mod_lt j hn
      exact ⟨j % n, mem_range.mpr hi, (mem_everyNth_indices hn hi).mpr ⟨hj, rfl⟩⟩

theorem range_filterMap_getElem? (xs : List α) :
    (List.range xs.length).filterMap (fun i => xs[i]?) = xs := by
  induction xs with
  | nil => rfl
  | cons x xs ih =>
    rw [length_cons, range_succ_eq_map, filterMap_cons, filterMap_map]
    exact congrArg (x :: ·) ih

theorem everyNth_perm {n : Nat} (hn : 0 < n) (xs : List α) :
    ((List.range n).flatMap fun i => everyNth xs i n).Perm xs := by
  have dealt := (dealt_indices hn xs.length).filterMap fun j => xs[j]?
  rw [range_filterMap_getElem?, filterMap_flatMap] at dealt
  simp only [filterMap_map] at dealt
  exact dealt

theorem length_everyNth {n i : Nat} (hn : 0 < n) (xs : List α) :
    (everyNth xs i n).length = cdiv (xs.length - i) n := by
  unfold everyNth
  rw [length_filterMap_eq_countP, countP_eq_length.mpr, length_range]
  intro k hk
  rw [mem_range, lt_cdiv_iff hn] at hk
  rw [getElem?_eq_getElem (by omega)]
  rfl

theorem everyNth_ne_nil {n i : Nat} (hn : 0 < n) {xs : List α} :
    everyNth xs i n ≠ [] ↔ i < xs.length := by
  rw [← length_pos_iff, length_everyNth hn]
  constructor
  · intro h
    by_contra out
    rw [Nat.sub_eq_zero_of_le (Nat.le_of_not_lt out), cdiv_zero_left] at h
    omega
  · intro h
    exact cdiv_pos (by omega) hn

theorem mem_of_mem_everyNth {n i : Nat} {xs : List α} {x : α} (h : x ∈ everyNth xs i n) :
    x ∈ xs := by
  unfold everyNth at h
  obtain ⟨k, _, found⟩ := mem_filterMap.mp h
  exact mem_of_getElem? found

/-! ### Rows across lists -/

section

variable {lists : List (List α)}

variable {rows : Nat}

theorem min?_le_length (h : (lists.map List.length).min? = some rows) {list : List α}
    (hl : list ∈ lists) : rows ≤ list.length :=
  (min?_eq_some_iff.mp h).2 _ (mem_map_of_mem hl)

theorem row_eq {i : Nat} (inside : ∀ list ∈ lists, i < list.length) :
    (lists.filterMap fun list => list[i]?).length = lists.length := by
  rw [length_filterMap_eq_countP, countP_eq_length]
  intro list hl
  rw [getElem?_eq_getElem (inside list hl)]
  rfl

theorem rows_perm (even : ∀ list ∈ lists, list.length = rows) :
    ((List.range rows).flatMap fun i => lists.filterMap fun list => list[i]?).Perm
    lists.flatten := by
  induction lists with
  | nil => simp
  | cons list lists ih =>
    have rest := ih fun l hl => even l (mem_cons_of_mem _ hl)
    have own : (List.range rows).flatMap (fun i => list[i]?.toList) = list := by
      rw [← filterMap_eq_flatMap_toList, ← even list mem_cons_self]
      exact range_filterMap_getElem? list
    have split : ∀ i : Nat, ((list :: lists).filterMap fun l => l[i]?) =
        list[i]?.toList ++ lists.filterMap fun l : List α => l[i]? := by
      intro i
      rw [filterMap_cons]
      cases list[i]? <;> rfl
    simp only [split]
    refine (flatMap_append_perm _ _ _).symm.trans ?_
    rw [own, flatten_cons]
    exact rest.append_left list

theorem zipLists_eq (h : (lists.map List.length).min? = some rows) :
    zipLists lists = (List.range rows).map fun i => lists.filterMap fun list => list[i]? := by
  rw [zipLists, h]

theorem length_zipLists (h : (lists.map List.length).min? = some rows) :
    (zipLists lists).length = rows := by
  rw [zipLists_eq h, length_map, length_range]

theorem length_of_mem_zipLists {row : List α} (h : row ∈ zipLists lists) :
    row.length = lists.length := by
  cases shortest : (lists.map List.length).min? with
  | none =>
    rw [zipLists, shortest] at h
    cases h
  | some rows =>
    rw [zipLists_eq shortest] at h
    obtain ⟨i, hi, rfl⟩ := mem_map.mp h
    exact row_eq fun list hl => (mem_range.mp hi).trans_le (min?_le_length shortest hl)

theorem length_flatten_zipLists (h : (lists.map List.length).min? = some rows) :
    (zipLists lists).flatten.length = rows * lists.length := by
  have all : ∀ row ∈ zipLists lists, row.length = lists.length :=
    fun row hrow => length_of_mem_zipLists hrow
  rw [length_flatten, map_congr_left all, map_const', sum_replicate,
    length_zipLists h]
  rfl

theorem zipLists_perm (some : lists ≠ [])
    (even : ∀ list ∈ lists, list.length = rows) : (zipLists lists).flatten.Perm lists.flatten := by
  have shortest : (lists.map List.length).min? = Option.some rows := by
    refine min?_eq_some_iff.mpr ⟨?_, fun n hn => ?_⟩
    · obtain ⟨list, rest, rfl⟩ := exists_cons_of_ne_nil some
      rw [map_cons, even list mem_cons_self]
      exact mem_cons_self
    · obtain ⟨list, hl, rfl⟩ := mem_map.mp hn
      rw [even list hl]
  rw [zipLists_eq shortest]
  exact rows_perm even

end

end VllmAmpere.KVPacking
