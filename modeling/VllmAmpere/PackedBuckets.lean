import Mathlib.Algebra.BigOperators.Ring.List
import VllmAmpere.PackedGroups
import VllmAmpere.PyDict

/-! The buckets of a packing: they hold every layer once, each bucket is of one type, and its
layers are listed by page size. -/

open List

namespace VllmAmpere.KVPacking

variable {N : Type}

theorem le_maxOrZero {xs : List Nat} {x : Nat} (h : x ∈ xs) : x ≤ maxOrZero xs :=
  (le_foldl_max xs 0).2 x h

theorem maxOrZero_le {xs : List Nat} {bound : Nat} (h : ∀ x ∈ xs, x ≤ bound) :
    maxOrZero xs ≤ bound := by
  have grow : ∀ (xs : List Nat) (a : Nat), a ≤ bound → (∀ x ∈ xs, x ≤ bound) →
      xs.foldl max a ≤ bound := by
    intro xs
    induction xs with
    | nil => exact fun a ha _ => ha
    | cons y ys ih =>
      intro a ha all
      exact ih (max a y) (max_le ha (all y mem_cons_self))
        fun x hx => all x (mem_cons_of_mem _ hx)
  exact grow xs 0 (Nat.zero_le _) h

/-! ### One type -/

theorem isUniformType_cons {first : N × LayerSpec} {rest : Layers N} :
    isUniformType (first :: rest) = .ok true ↔ ∀ layer ∈ first :: rest,
    layer.2.blockSize = first.2.blockSize ∧ layer.2.dcpSharded = first.2.dcpSharded ∧
    first.2.accepts layer.2 = true := by
  simp only [isUniformType, Except.ok.injEq, all_eq_true, decide_eq_true_eq]

variable {layers : Layers N}

theorem ne_nil_of_uniform (h : isUniformType layers = .ok true) : layers ≠ [] := by
  rintro rfl
  cases h

theorem isUniformType_singleton (layer : N × LayerSpec) : isUniformType [layer] = .ok true := by
  refine isUniformType_cons.mpr fun other hother => ?_
  rw [mem_singleton.mp hother]
  exact ⟨rfl, rfl, layer.2.accepts_self⟩

theorem isUniformType_ok (h : layers ≠ []) : ∃ b, isUniformType layers = .ok b := by
  cases layers with
  | nil => exact absurd rfl h
  | cons first rest => exact ⟨_, rfl⟩

theorem fromSpecs_ok : fromSpecs layers = .ok () ↔ isUniformType layers = .ok true := by
  unfold fromSpecs
  cases isUniformType layers with
  | error e => simp [bind, Except.bind]
  | ok b => cases b <;> simp [bind, Except.bind, pyAssert]

def kind (spec : LayerSpec) : SpecClass × Option Nat :=
  match spec.cls with
  | .fullAttention | .mlaAttention | .hiddenStateCache | .rswa | .sinkFullAttention =>
    (.fullAttention, none)
  | .kpoolTail _ => (.kpoolTail 0, none)
  | .mamba a b c d => (.mamba a b c d, some spec.pageSizeBytes)
  | cls => (cls, none)

variable {spec : LayerSpec}

theorem kind_full : spec.cls.isFullAttention = true ↔ kind spec = (.fullAttention, none) := by
  unfold kind
  cases spec.cls <;> simp [SpecClass.isFullAttention]

theorem kind_kpoolTail : spec.cls.isKpoolTail = true ↔ kind spec = (.kpoolTail 0, none) := by
  unfold kind
  cases spec.cls <;> simp [SpecClass.isKpoolTail]

theorem kind_mamba {a b : Nat} {c : Option Nat} {d : Bool} {page : Nat} :
    (spec.cls = .mamba a b c d ∧ spec.pageSizeBytes = page) ↔
    kind spec = (.mamba a b c d, some page) := by
  unfold kind
  cases spec.cls <;> simp

def ComparedWhole : SpecClass → Prop
  | .chunkedLocalAttention _ | .slidingWindow _ | .slidingWindowMLA _ _ | .circularBuffer
  | .crossAttention | .hiSparseHot | .hiSparseResident => True
  | _ => False

theorem kind_whole {cls : SpecClass} (whole : ComparedWhole cls) :
    spec.cls = cls ↔ kind spec = (cls, none) := by
  unfold kind
  cases hs : spec.cls <;> cases cls <;> simp_all [ComparedWhole]

theorem accepts_iff_kind {self : LayerSpec} (plain : ∀ w, self.cls ≠ .slidingWindow w)
    (spec : LayerSpec) : self.accepts spec = true ↔ kind spec = kind self := by
  unfold LayerSpec.accepts
  cases cls : self.cls with
  | slidingWindow w => exact absurd cls (plain w)
  | kpoolTail w =>
    have own : kind self = (.kpoolTail 0, none) := by rw [kind, cls]
    rw [own]
    exact kind_kpoolTail
  | mamba a b c d =>
    have own : kind self = (.mamba a b c d, some self.pageSizeBytes) := by rw [kind, cls]
    rw [own, ← kind_mamba]
    simp
  | fullAttention | mlaAttention | hiddenStateCache | rswa | sinkFullAttention =>
    have own : kind self = (.fullAttention, none) := by rw [kind, cls]
    rw [own]
    exact kind_full
  | _ =>
    have own := (kind_whole (by rw [cls]; trivial)).mp rfl
    rw [own, cls]
    dsimp only
    rw [decide_eq_true_iff]
    exact kind_whole trivial

theorem accepts_of_uniform {first : N × LayerSpec} {rest : Layers N}
    (h : isUniformType (first :: rest) = .ok true) (plain : ∀ w, first.2.cls ≠ .slidingWindow w)
    {a b : N × LayerSpec} (ha : a ∈ first :: rest) (hb : b ∈ first :: rest) :
    a.2.accepts b.2 = true := by
  have accepted := isUniformType_cons.mp h
  have kindA := (accepts_iff_kind plain a.2).mp (accepted a ha).2.2
  have kindB := (accepts_iff_kind plain b.2).mp (accepted b hb).2.2
  refine (accepts_iff_kind (fun w same => ?_) b.2).mpr (kindB.trans kindA.symm)
  have whole : ComparedWhole (.slidingWindow w) := trivial
  have windowed := (kind_whole whole).mp same
  exact plain w ((kind_whole whole).mpr (kindA.symm.trans windowed))

theorem uniform_of_accepts {bucket layers : Layers N} (h : isUniformType bucket = .ok true)
    (some : layers ≠ []) (inside : ∀ layer ∈ layers, layer ∈ bucket)
    (accepts : ∀ first rest, layers = first :: rest →
    ∀ layer ∈ layers, first.2.accepts layer.2 = true) : isUniformType layers = .ok true := by
  cases layers with
  | nil => exact absurd rfl some
  | cons first rest =>
    cases bucket with
    | nil => cases h
    | cons lead others =>
      have same := isUniformType_cons.mp h
      have here := same first (inside first mem_cons_self)
      refine isUniformType_cons.mpr fun layer hlayer => ?_
      have there := same layer (inside layer hlayer)
      exact ⟨there.1.trans here.1.symm, there.2.1.trans here.2.1.symm,
        accepts first rest rfl layer hlayer⟩

/-! ### The buckets -/

theorem addToBuckets_ok (layer : N × LayerSpec) {buckets : List (Layers N)}
    (uniform : ∀ bucket ∈ buckets, isUniformType bucket = .ok true) :
    ∃ buckets', addToBuckets layer buckets = .ok buckets' ∧
    (∀ bucket ∈ buckets', isUniformType bucket = .ok true) ∧
    buckets'.flatten.Perm (layer :: buckets.flatten) := by
  induction buckets with
  | nil =>
    refine ⟨[[layer]], rfl, fun bucket hb => ?_, .refl _⟩
    rw [mem_singleton.mp hb]
    exact isUniformType_singleton layer
  | cons bucket buckets ih =>
    have joined : bucket ++ [layer] ≠ [] := by simp
    obtain ⟨b, hb⟩ := isUniformType_ok joined
    rw [addToBuckets, hb]
    cases b with
    | true =>
      refine ⟨(bucket ++ [layer]) :: buckets, rfl, fun other ho => ?_, ?_⟩
      · cases mem_cons.mp ho with
        | inl same => rw [same, hb]
        | inr rest => exact uniform other (mem_cons_of_mem _ rest)
      · rw [flatten_cons, flatten_cons, append_assoc]
        exact perm_middle
    | false =>
      obtain ⟨buckets', added, uniform', perm⟩ :=
        ih fun other ho => uniform other (mem_cons_of_mem _ ho)
      refine ⟨bucket :: buckets', ?_, fun other ho => ?_, ?_⟩
      · change (do .ok (bucket :: (← addToBuckets layer buckets)) : Except _ _) = _
        rw [added]
        rfl
      · cases mem_cons.mp ho with
        | inl same => exact same ▸ uniform bucket mem_cons_self
        | inr rest => exact uniform' other rest
      · rw [flatten_cons, flatten_cons]
        exact (perm.append_left bucket).trans perm_middle

theorem bucketLayers_ok (layers : Layers N) {buckets : List (Layers N)}
    (uniform : ∀ bucket ∈ buckets, isUniformType bucket = .ok true) :
    ∃ buckets', bucketLayers layers buckets = .ok buckets' ∧
    (∀ bucket ∈ buckets', isUniformType bucket = .ok true) ∧
    buckets'.flatten.Perm (layers ++ buckets.flatten) := by
  induction layers generalizing buckets with
  | nil => exact ⟨buckets, rfl, uniform, .refl _⟩
  | cons layer layers ih =>
    obtain ⟨buckets', added, uniform', perm⟩ := addToBuckets_ok layer uniform
    obtain ⟨buckets'', ran, uniform'', perm'⟩ := ih uniform'
    refine ⟨buckets'', ?_, uniform'', ?_⟩
    · rw [bucketLayers, added]
      exact ran
    · refine perm'.trans ((perm.append_left layers).trans ?_)
      rw [cons_append]
      exact perm_middle

/-! ### Layers by page size -/

/-- What the listing by page size is. -/
structure ByPage (bucket : Layers N) (groups : List (Nat × Layers N)) : Prop where
  perm : (groups.flatMap Prod.snd).Perm bucket
  distinct : (groups.map Prod.fst).Nodup
  pages : ∀ group ∈ groups, group.2 ≠ [] ∧ ∀ layer ∈ group.2, layer.2.pageSizeBytes = group.1

theorem byPage (bucket : Layers N) : ByPage bucket (pageSizeLayers bucket) := by
  have grow : ∀ (later : Layers N) (seen : Layers N) (groups : List (Nat × Layers N)),
      ByPage seen groups → ByPage (seen ++ later)
        (later.foldl (fun groups layer => dictAppend layer.2.pageSizeBytes layer groups)
          groups) := by
    intro later
    induction later with
    | nil =>
      intro seen groups h
      rw [append_nil]
      exact h
    | cons layer later ih =>
      intro seen groups h
      have step : ByPage (seen ++ [layer]) (dictAppend layer.2.pageSizeBytes layer groups) := by
        refine ⟨?_, ?_, dictAppend_all
          (P := fun (page : Nat) (layer : N × LayerSpec) => layer.2.pageSizeBytes = page)
          rfl h.pages⟩
        · refine (dictAppend_items _ _ _).trans ((h.perm.cons layer).trans ?_)
          exact (perm_append_singleton layer seen).symm
        · rw [dictAppend_keys]
          split
          · exact h.distinct
          next new => exact nodup_append.mpr ⟨h.distinct, by simp, by simp; grind⟩
      have rest := ih _ _ step
      rwa [append_assoc, singleton_append] at rest
  have start : ByPage ([] : Layers N) [] := ⟨.refl _, .nil, by simp⟩
  exact grow bucket [] [] start

/-! When a packing deals its layers out as it should: to non-empty groups of one type, every
layer to one group, with the states of a group within a block. -/

def pageBytes (layers : Layers N) : Nat := (layers.map fun layer => layer.2.pageSizeBytes).sum

def largestPage (layers : Layers N) : Nat :=
  maxOrZero (layers.map fun layer => layer.2.pageSizeBytes)

namespace Plan

def numGroups (p : Plan N) (bucket : Layers N) : Nat :=
  KVPacking.numGroups p.repeats p.anchorBytes bucket

def IsState (p : Plan N) (layers : Layers N) : Prop := isStateBucket p.repeats layers = true

/-- A state group is within the anchor, or is one state. -/
def Fits (p : Plan N) (layers : Layers N) : Prop :=
  p.IsState layers → pageBytes layers ≤ max p.anchorBytes (largestPage layers)

end Plan

/-- What a packing should be. -/
structure Packs (p : Plan N) (layers : Layers N) (groups : List (Layers N)) : Prop where
  nonempty : ∀ group ∈ groups, group ≠ []
  partition : groups.flatten.Perm layers
  uniform : ∀ group ∈ groups, isUniformType group = .ok true
  fits : ∀ group ∈ groups, p.Fits group

/-! ### Buckets that are dealt out -/

section

variable {bucket : Layers N}

theorem pages_ne_nil (some : bucket ≠ []) : pageSizeLayers bucket ≠ [] := by
  intro none
  have perm := (byPage bucket).perm
  rw [none] at perm
  exact some (nil_perm.mp perm)

theorem rows_exist (some : bucket ≠ []) :
    ∃ rows, (((pageSizeLayers bucket).map Prod.snd).map List.length).min? = Option.some rows := by
  cases h : (((pageSizeLayers bucket).map Prod.snd).map List.length).min? with
  | some rows => exact ⟨rows, rfl⟩
  | none =>
    rw [min?_eq_none_iff, map_eq_nil_iff, map_eq_nil_iff] at h
    exact absurd h (pages_ne_nil some)

theorem balanced_iff (some : bucket ≠ []) : balanced bucket = true ↔
    ∀ group ∈ pageSizeLayers bucket, group.2.length = getMaxLayersPerPageSize bucket := by
  unfold balanced getMaxLayersPerPageSize
  cases h : pageSizeLayers bucket with
  | nil => exact absurd h (pages_ne_nil some)
  | cons first rest =>
    simp only [all_eq_true, decide_eq_true_eq]
    constructor
    · intro same
      have all : ∀ group ∈ first :: rest, group.2.length = first.2.length := by
        intro group hg
        cases mem_cons.mp hg with
        | inl e => rw [e]
        | inr later => exact same group later
      have largest : maxOrZero ((first :: rest).map fun group => group.2.length) =
          first.2.length := by
        refine le_antisymm (maxOrZero_le fun n hn => ?_)
          (le_maxOrZero (mem_map_of_mem mem_cons_self))
        obtain ⟨group, hg, rfl⟩ := mem_map.mp hn
        exact (all group hg).le
      intro group hg
      rw [largest]
      exact all group hg
    · intro all group hg
      rw [all group (mem_cons_of_mem _ hg), all first mem_cons_self]

theorem length_bucket : bucket.length =
    ((pageSizeLayers bucket).map fun group => group.2.length).sum := by
  rw [← (byPage bucket).perm.length_eq, length_flatMap]

theorem pageBytes_bucket : pageBytes bucket =
    ((pageSizeLayers bucket).map fun group => group.2.length * group.1).sum := by
  unfold pageBytes
  rw [← ((byPage bucket).perm.map _).sum_eq, map_flatMap, flatMap_def,
    sum_flatten, map_map]
  refine congrArg List.sum (map_congr_left fun group hg => ?_)
  have same := ((byPage bucket).pages group hg).2
  rw [Function.comp_apply, map_congr_left same, map_const', sum_replicate]
  rfl

theorem widestGroupBytes_one : widestGroupBytes bucket 1 = pageBytes bucket := by
  rw [pageBytes_bucket, widestGroupBytes]
  refine congrArg List.sum (map_congr_left fun group _ => ?_)
  rw [cdiv_one]

theorem widestGroupBytes_balanced (some : bucket ≠ []) (even : balanced bucket = true) (n : Nat) :
    widestGroupBytes bucket n = cdiv (getMaxLayersPerPageSize bucket) n *
    ((pageSizeLayers bucket).map Prod.fst).sum := by
  have all := (balanced_iff some).mp even
  rw [widestGroupBytes, ← sum_map_mul_left]
  refine congrArg List.sum (map_congr_left fun group hg => ?_)
  rw [all group hg]

variable {rows : Nat}
  (shortest : (((pageSizeLayers bucket).map Prod.snd).map List.length).min? = some rows)

include shortest

theorem pages_of_row {row : Layers N} (h : row ∈ zipLists ((pageSizeLayers bucket).map Prod.snd)) :
    row.map (fun layer => layer.2.pageSizeBytes) = (pageSizeLayers bucket).map Prod.fst := by
  rw [zipLists_eq shortest] at h
  obtain ⟨i, hi, rfl⟩ := mem_map.mp h
  have inside : ∀ group ∈ pageSizeLayers bucket, i < group.2.length := by
    intro group hg
    exact (mem_range.mp hi).trans_le
      (min?_le_length shortest (mem_map_of_mem hg))
  have pages := (byPage bucket).pages
  generalize pageSizeLayers bucket = groups at inside pages
  clear shortest h
  induction groups with
  | nil => rfl
  | cons group groups ih =>
    have own := inside group mem_cons_self
    have page := (pages group mem_cons_self).2 _ (getElem_mem own)
    rw [map_cons, filterMap_cons, getElem?_eq_getElem own]
    dsimp only
    rw [map_cons, map_cons, page]
    exact congrArg _ (ih (fun g hg => inside g (mem_cons_of_mem _ hg))
      fun g hg => pages g (mem_cons_of_mem _ hg))

theorem pageBytes_groupLayers {n i : Nat} (hn : 0 < n) : pageBytes (groupLayers bucket n i) =
    cdiv (rows - i) n * ((pageSizeLayers bucket).map Prod.fst).sum := by
  have count : (everyNth (zipLists ((pageSizeLayers bucket).map Prod.snd)) i n).length =
      cdiv (rows - i) n := by
    rw [length_everyNth hn, length_zipLists shortest]
  have all : ∀ row ∈ everyNth (zipLists ((pageSizeLayers bucket).map Prod.snd)) i n,
      (List.sum ∘ List.map fun layer => layer.2.pageSizeBytes) row =
        ((pageSizeLayers bucket).map Prod.fst).sum := by
    intro row hrow
    rw [Function.comp_apply, pages_of_row shortest (mem_of_mem_everyNth hrow)]
  unfold pageBytes groupLayers
  rw [map_flatten, sum_flatten, map_map]
  rw [map_congr_left all, map_const', sum_replicate, count]
  rfl

theorem groupLayers_ne_nil (some : bucket ≠ []) {n i : Nat} (hn : 0 < n) :
    groupLayers bucket n i ≠ [] ↔ i < rows := by
  rw [← length_zipLists shortest, ← everyNth_ne_nil hn]
  unfold groupLayers
  constructor
  · intro h none
    rw [none] at h
    exact h rfl
  · intro h none
    obtain ⟨row, rest, e⟩ := exists_cons_of_ne_nil h
    have inside : row ∈ zipLists ((pageSizeLayers bucket).map Prod.snd) :=
      mem_of_mem_everyNth (e ▸ mem_cons_self)
    rw [e, flatten_cons, append_eq_nil_iff] at none
    have width := length_of_mem_zipLists inside
    rw [none.1, length_nil, length_map] at width
    exact pages_ne_nil some (length_eq_zero_iff.mp width.symm)

theorem mem_bucket_of_mem_groupLayers {n i : Nat} {layer : N × LayerSpec}
    (h : layer ∈ groupLayers bucket n i) : layer ∈ bucket := by
  obtain ⟨row, hrow, hlayer⟩ := mem_flatten.mp h
  have inside := mem_of_mem_everyNth hrow
  rw [zipLists_eq shortest] at inside
  obtain ⟨k, _, rfl⟩ := mem_map.mp inside
  obtain ⟨list, hlist, found⟩ := mem_filterMap.mp hlayer
  obtain ⟨group, hg, rfl⟩ := mem_map.mp hlist
  exact (byPage bucket).perm.subset
    (mem_flatMap.mpr ⟨group, hg, mem_of_getElem? found⟩)

theorem largestPage_groupLayers {n i : Nat} (hn : 0 < n) (hi : i < rows) :
    largestPage (groupLayers bucket n i) = largestPage bucket := by
  refine le_antisymm (maxOrZero_le fun page hpage => ?_) (maxOrZero_le fun page hpage => ?_)
  · obtain ⟨layer, hlayer, rfl⟩ := mem_map.mp hpage
    exact le_maxOrZero (mem_map_of_mem (mem_bucket_of_mem_groupLayers shortest hlayer))
  · obtain ⟨layer, hlayer, rfl⟩ := mem_map.mp hpage
    have listed := (byPage bucket).perm.symm.subset hlayer
    obtain ⟨group, hg, inside⟩ := mem_flatMap.mp listed
    rw [((byPage bucket).pages group hg).2 layer inside]
    have dealt : everyNth (zipLists ((pageSizeLayers bucket).map Prod.snd)) i n ≠ [] := by
      rw [everyNth_ne_nil hn, length_zipLists shortest]
      exact hi
    obtain ⟨row, rest, e⟩ := exists_cons_of_ne_nil dealt
    have hrow : row ∈ everyNth (zipLists ((pageSizeLayers bucket).map Prod.snd)) i n :=
      e ▸ mem_cons_self
    have pages := pages_of_row shortest (mem_of_mem_everyNth hrow)
    have inRow : group.1 ∈ row.map fun layer => layer.2.pageSizeBytes :=
      pages ▸ mem_map_of_mem hg
    obtain ⟨other, hother, page⟩ := mem_map.mp inRow
    rw [← page]
    exact le_maxOrZero (mem_map_of_mem (mem_flatten.mpr ⟨row, hrow, hother⟩))

omit shortest in
theorem dealt_perm {n : Nat} (hn : 0 < n) : ((List.range n).flatMap (groupLayers bucket n)).Perm
    (zipLists ((pageSizeLayers bucket).map Prod.snd)).flatten := by
  have dealt := (everyNth_perm hn (zipLists ((pageSizeLayers bucket).map Prod.snd))).flatten
  rw [flatMap_def, flatten_flatten, map_map] at dealt
  exact dealt

end

end VllmAmpere.KVPacking
