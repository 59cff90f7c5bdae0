import VllmAmpere.PackedSplits

/-! The groups of a packing of mixed page sizes: when they partition the layers. -/

open List

namespace VllmAmpere.KVPacking

variable {N : Type} {bucket layers : Layers N} {p : Plan N}

/-! ### The number of groups -/

theorem numGroupsFor_pos (some : bucket ≠ []) {repeats : Option Nat}
    (positive : ∀ r, repeats = .some r → 0 < r) : 0 < numGroupsFor repeats bucket := by
  cases repeats with
  | none => exact Nat.one_pos
  | some r =>
    unfold numGroupsFor
    dsimp only
    split
    · exact cdiv_pos (getMaxLayersPerPageSize_pos some) (positive r rfl)
    · exact Nat.one_pos

theorem numGroupsFor_le {repeats : Option Nat} (positive : ∀ r, repeats = some r → 0 < r) :
    numGroupsFor repeats bucket = 1 ∨
    balanced bucket = true ∧ numGroupsFor repeats bucket ≤ getMaxLayersPerPageSize bucket := by
  cases repeats with
  | none => exact .inl rfl
  | some r =>
    unfold numGroupsFor
    dsimp only
    split
    next even => exact .inr ⟨even, cdiv_le_self (positive r rfl)⟩
    next => exact .inl rfl

theorem numGroups_of_not_state (state : ¬p.IsState bucket) :
    p.numGroups bucket = numGroupsFor p.repeats bucket := by
  unfold Plan.numGroups numGroups
  cases bucket with
  | nil => rfl
  | cons first rest => exact if_neg fun both => state both.2

theorem numGroups_of_state {first : N × LayerSpec} {rest : Layers N}
    (state : p.IsState (first :: rest)) (anchor : p.anchorBytes ≠ 0) :
    p.numGroups (first :: rest) = max (numGroupsFor p.repeats (first :: rest))
    (cdiv (first :: rest).length (max (p.anchorBytes / first.2.pageSizeBytes) 1)) :=
  if_pos ⟨anchor, state⟩

theorem numGroups_pos (plans : Plans p layers) (hb : bucket ∈ p.buckets) :
    0 < p.numGroups bucket := by
  have some := ne_nil_of_uniform (plans.uniform bucket hb)
  refine (numGroupsFor_pos some plans.repeats).trans_le ?_
  unfold Plan.numGroups numGroups
  cases bucket with
  | nil => exact le_rfl
  | cons first rest =>
    dsimp only
    split
    · exact le_max_left _ _
    · exact le_rfl

theorem widestGroupBytes_pos (some : bucket ≠ []) {n : Nat} (hn : 0 < n) :
    0 < widestGroupBytes bucket n := by
  obtain ⟨group, groups, e⟩ := exists_cons_of_ne_nil (pages_ne_nil some)
  obtain ⟨filled, pages⟩ := (byPage bucket).pages group (e ▸ mem_cons_self)
  obtain ⟨layer, rest, e'⟩ := exists_cons_of_ne_nil filled
  have page : 0 < group.1 := pages layer (e' ▸ mem_cons_self) ▸ layer.2.pageSizePos
  have count : 0 < cdiv group.2.length n := cdiv_pos (length_pos_iff.mpr filled) hn
  rw [widestGroupBytes, e, map_cons, sum_cons]
  have := Nat.mul_pos count page
  omega

theorem anchorBytes_ne_zero (plans : Plans p layers) (hb : bucket ∈ p.buckets)
    (state : p.IsState bucket) : p.anchorBytes ≠ 0 := by
  have some := ne_nil_of_uniform (plans.uniform bucket hb)
  have here := le_maxOrZero (mem_map_of_mem (f := fun bucket => widestGroupBytes bucket
    (if isStateBucket p.repeats bucket then bucket.length else numGroupsFor p.repeats bucket)) hb)
  have own : isStateBucket p.repeats bucket = true := state
  rw [if_pos own] at here
  have positive := widestGroupBytes_pos some (length_pos_iff.mpr some)
  rw [plans.anchor]
  exact (positive.trans_le here).ne'

/-! ### One page size -/

section

variable (one : (pageSizeLayers bucket).length ≤ 1) (some : bucket ≠ [])

include one some

theorem single_page : ∃ group, pageSizeLayers bucket = [group] ∧
    group.2.length = bucket.length ∧ ∀ layer ∈ bucket, layer.2.pageSizeBytes = group.1 := by
  obtain ⟨group, rest, e⟩ := exists_cons_of_ne_nil (pages_ne_nil some)
  have alone : rest = [] := by
    rw [e, length_cons] at one
    exact length_eq_zero_iff.mp (by omega)
  rw [alone] at e
  have perm := (byPage bucket).perm
  have pages := (byPage bucket).pages
  rw [e] at perm pages
  rw [flatMap_singleton] at perm
  refine ⟨group, e, perm.length_eq, fun layer hlayer => ?_⟩
  exact (pages group mem_cons_self).2 layer (perm.symm.subset hlayer)

theorem balanced_of_single : balanced bucket = true ∧
    getMaxLayersPerPageSize bucket = bucket.length := by
  obtain ⟨group, e, length, _⟩ := single_page one some
  have most : getMaxLayersPerPageSize bucket = bucket.length := by
    rw [getMaxLayersPerPageSize, e, ← length]
    exact Nat.zero_max _
  refine ⟨(balanced_iff some).mpr fun g hg => ?_, most⟩
  rw [e, mem_singleton] at hg
  rw [hg, length, most]

variable (plans : Plans p layers) (hb : bucket ∈ p.buckets) (state : p.IsState bucket)

include plans hb state

theorem numGroups_of_single : p.numGroups bucket ≤ getMaxLayersPerPageSize bucket := by
  have least := getMaxLayersPerPageSize_pos some
  have length := (balanced_of_single one some).2
  have anchor := anchorBytes_ne_zero plans hb state
  cases bucket with
  | nil => exact absurd rfl some
  | cons first rest =>
    rw [numGroups_of_state state anchor]
    refine max_le ?_ ?_
    · cases numGroupsFor_le plans.repeats with
      | inl single => rw [single]; omega
      | inr dealt => exact dealt.2
    · rw [length]
      exact cdiv_le_self (lt_of_lt_of_le Nat.one_pos (le_max_right _ _))

theorem widestGroupBytes_of_single : widestGroupBytes bucket (p.numGroups bucket) ≤
    max p.anchorBytes (largestPage bucket) := by
  obtain ⟨group, e, length, pages⟩ := single_page one some
  have anchor := anchorBytes_ne_zero plans hb state
  have positive := numGroups_pos plans hb
  cases bucket with
  | nil => exact absurd rfl some
  | cons first rest =>
    have page := pages first mem_cons_self
    have states : cdiv (first :: rest).length (p.numGroups (first :: rest)) ≤
        max (p.anchorBytes / group.1) 1 := by
      refine cdiv_le_of_cdiv_le positive (lt_of_lt_of_le Nat.one_pos (le_max_right _ _)) ?_
      rw [numGroups_of_state state anchor, page]
      exact le_max_right _ _
    have largest : group.1 ≤ largestPage (first :: rest) :=
      page ▸ le_maxOrZero (mem_map_of_mem mem_cons_self)
    calc widestGroupBytes (first :: rest) (p.numGroups (first :: rest))
        = cdiv (first :: rest).length (p.numGroups (first :: rest)) * group.1 := by
          rw [widestGroupBytes, e, ← length]
          exact Nat.add_zero _
      _ ≤ max (p.anchorBytes / group.1) 1 * group.1 := Nat.mul_le_mul_right _ states
      _ = max (p.anchorBytes / group.1 * group.1) group.1 := by
          rw [← Nat.mul_max_mul_right, Nat.one_mul]
      _ ≤ max p.anchorBytes (largestPage (first :: rest)) := by
          have := Nat.div_mul_le_self p.anchorBytes group.1
          omega

end

theorem lengths_eq {buckets : List (Layers N)} {f : Layers N → List (Layers N)}
    (le : ∀ bucket ∈ buckets, (f bucket).flatten.length ≤ bucket.length)
    (total : (buckets.flatMap f).flatten.length = buckets.flatten.length) :
    ∀ bucket ∈ buckets, (f bucket).flatten.length = bucket.length := by
  have bounded : ∀ buckets : List (Layers N),
      (∀ bucket ∈ buckets, (f bucket).flatten.length ≤ bucket.length) →
        (buckets.flatMap f).flatten.length ≤ buckets.flatten.length := by
    intro buckets
    induction buckets with
    | nil => simp
    | cons bucket buckets ih =>
      intro le
      have own := le bucket mem_cons_self
      have rest := ih fun b hb => le b (mem_cons_of_mem _ hb)
      rw [flatMap_cons, flatten_append, length_append, flatten_cons,
        length_append]
      omega
  induction buckets with
  | nil => simp
  | cons bucket buckets ih =>
    have own := le bucket mem_cons_self
    have rest := bounded buckets fun b hb => le b (mem_cons_of_mem _ hb)
    rw [flatMap_cons, flatten_append, length_append, flatten_cons,
      length_append] at total
    intro b hb
    cases mem_cons.mp hb with
    | inl here => rw [here]; omega
    | inr later => exact ih (fun b hb => le b (mem_cons_of_mem _ hb)) (by omega) b later

theorem flatten_perm {buckets : List (Layers N)} {f : Layers N → List (Layers N)}
    (each : ∀ bucket ∈ buckets, (f bucket).flatten.Perm bucket) :
    (buckets.flatMap f).flatten.Perm buckets.flatten := by
  induction buckets with
  | nil => exact .refl _
  | cons bucket buckets ih =>
    rw [flatMap_cons, flatten_append, flatten_cons]
    exact (each bucket mem_cons_self).append
      (ih fun b hb => each b (mem_cons_of_mem _ hb))

/-! ### The buckets of a plan -/

section

variable (plans : Plans p layers)

include plans

theorem packs_iff_splittable (hb : bucket ∈ p.buckets) :
    Packs p bucket (splitGroups (p.numGroups bucket) bucket) ↔ Splittable p bucket := by
  have uniform := plans.uniform bucket hb
  have some := ne_nil_of_uniform uniform
  rw [packs_splitGroups some uniform (numGroups_pos plans hb)]
  constructor
  · rintro ⟨counts, fits, heads⟩
    exact ⟨fun state _ => ⟨counts, fits state⟩, fun split _ => heads split⟩
  · intro h
    refine ⟨?_, fun state => ?_, fun split i hi first hfirst layer hlayer => ?_⟩
    · by_cases state : p.IsState bucket
      · by_cases mixed : 2 ≤ (pageSizeLayers bucket).length
        · exact (h.states state mixed).1
        · have one : (pageSizeLayers bucket).length ≤ 1 := by omega
          exact .inr ⟨(balanced_of_single one some).1,
            numGroups_of_single one some plans hb state⟩
      · rw [numGroups_of_not_state state]
        exact numGroupsFor_le plans.repeats
    · by_cases mixed : 2 ≤ (pageSizeLayers bucket).length
      · exact (h.states state mixed).2
      · exact widestGroupBytes_of_single (by omega) some plans hb state
    · by_cases plain : ∃ lead ∈ bucket.head?, ∃ w, lead.2.cls = .slidingWindow w
      · exact h.windows split plain i hi first hfirst layer hlayer
      · obtain ⟨rows, shortest⟩ := rows_exist some
        have headIn := mem_bucket_of_mem_groupLayers shortest (mem_of_mem_head? hfirst)
        have layerIn := mem_bucket_of_mem_groupLayers shortest hlayer
        obtain ⟨lead, rest, rfl⟩ := exists_cons_of_ne_nil some
        exact accepts_of_uniform uniform
          (fun w windowed => plain ⟨lead, rfl, w, windowed⟩) headIn layerIn

theorem packs_flatMap : Packs p layers
    (p.buckets.flatMap fun bucket => splitGroups (p.numGroups bucket) bucket) ↔
    ∀ bucket ∈ p.buckets, Packs p bucket (splitGroups (p.numGroups bucket) bucket) := by
  have filled : ∀ bucket ∈ p.buckets, bucket ≠ [] :=
    fun bucket hb => ne_nil_of_uniform (plans.uniform bucket hb)
  constructor
  · intro packs bucket hb
    have kept := lengths_eq (f := fun bucket => splitGroups (p.numGroups bucket) bucket)
      (fun b h => length_splitGroups_le (filled b h) (numGroups_pos plans h))
      (packs.partition.trans plans.perm.symm).length_eq bucket hb
    have inside : ∀ group ∈ splitGroups (p.numGroups bucket) bucket, group ∈
        p.buckets.flatMap fun bucket => splitGroups (p.numGroups bucket) bucket :=
      fun group hg => mem_flatMap.mpr ⟨bucket, hb, hg⟩
    have positive := numGroups_pos plans hb
    exact ⟨fun group hg => packs.nonempty group (inside group hg),
      splitGroups_perm (filled bucket hb) positive (whole_of_length (filled bucket hb) positive kept),
      fun group hg => packs.uniform group (inside group hg),
      fun group hg => packs.fits group (inside group hg)⟩
  · intro all
    refine ⟨?_, ?_, ?_, ?_⟩
    · intro group hg
      obtain ⟨bucket, hb, inside⟩ := mem_flatMap.mp hg
      exact (all bucket hb).nonempty group inside
    · refine (flatten_perm fun bucket hb => (all bucket hb).partition).trans plans.perm
    · intro group hg
      obtain ⟨bucket, hb, inside⟩ := mem_flatMap.mp hg
      exact (all bucket hb).uniform group inside
    · intro group hg
      obtain ⟨bucket, hb, inside⟩ := mem_flatMap.mp hg
      exact (all bucket hb).fits group inside

omit plans in
theorem uniform_of_packs (packs : ∀ bucket ∈ p.buckets,
    Packs p bucket (splitGroups (p.numGroups bucket) bucket)) :
    ∀ bucket ∈ p.buckets, p.numGroups bucket ≠ 1 → ∀ i < p.numGroups bucket,
    isUniformType (groupLayers bucket (p.numGroups bucket) i) = .ok true := by
  intro bucket hb split i hi
  refine (packs bucket hb).uniform _ ?_
  rw [splitGroups, if_neg split]
  exact mem_map_of_mem (mem_range.mpr hi)

end

/-- Specs of several page sizes are packed as they should be exactly when each bucket of the
plan can be split. -/
theorem getPackedKVCacheGroups_packs (layers : Layers N)
    (sizes : 2 ≤ (layers.map fun layer => layer.2.pageSizeBytes).dedup.length) :
    ∃ p, plan layers = .ok p ∧ ((∃ groups, getPackedKVCacheGroups true layers = .ok (some groups) ∧
    Packs p layers groups) ↔ ∀ bucket ∈ p.buckets, Splittable p bucket) := by
  obtain ⟨p, planned, plans⟩ := plan_ok layers
  refine ⟨p, planned, ?_⟩
  constructor
  · rintro ⟨groups, ran, packs⟩ bucket hb
    obtain ⟨rfl, -⟩ := (getPackedKVCacheGroups_ok sizes planned).mp ran
    exact (packs_iff_splittable plans hb).mp ((packs_flatMap plans).mp packs bucket hb)
  · intro splittable
    have packs : ∀ bucket ∈ p.buckets,
        Packs p bucket (splitGroups (p.numGroups bucket) bucket) :=
      fun bucket hb => (packs_iff_splittable plans hb).mpr (splittable bucket hb)
    exact ⟨_, (getPackedKVCacheGroups_ok sizes planned).mpr ⟨rfl, uniform_of_packs packs⟩,
      (packs_flatMap plans).mpr packs⟩

/-! ### A window of two page sizes -/

def sampleSpec (cls : SpecClass) (pages : Nat) : LayerSpec :=
  ⟨cls, 16, false, 1024 * (pages + 1), Nat.mul_pos (by decide) (Nat.succ_pos pages)⟩

def narrow (name : String) : String × LayerSpec := (name, sampleSpec (.slidingWindow 128) 0)

def wide (name : String) : String × LayerSpec := (name, sampleSpec (.slidingWindow 128) 1)

def full (name : String) : String × LayerSpec := (name, sampleSpec .fullAttention 2)

def mixedWindows : Layers String :=
  [full "full", narrow "narrow.0", wide "wide.0", narrow "narrow.1", wide "wide.1",
    narrow "narrow.2"]

theorem mixedWindows_packs : ∃ p, plan mixedWindows = .ok p ∧
    ((∃ groups, getPackedKVCacheGroups true mixedWindows = .ok (some groups) ∧
    Packs p mixedWindows groups) ↔ ∀ bucket ∈ p.buckets, Splittable p bucket) :=
  getPackedKVCacheGroups_packs mixedWindows (by decide +kernel)

/-- The windows are dealt out to two groups, and the third narrow one to none. -/
theorem mixedWindows_loses :
    2 ≤ (mixedWindows.map fun layer => layer.2.pageSizeBytes).dedup.length ∧
    getPackedKVCacheGroups true mixedWindows = .ok (some
    [[full "full"], [narrow "narrow.0", wide "wide.0"], [narrow "narrow.1", wide "wide.1"]]) ∧
    ¬∃ groups, getPackedKVCacheGroups true mixedWindows = .ok (some groups) ∧
    ∃ p, Packs p mixedWindows groups := by
  have ran : getPackedKVCacheGroups true mixedWindows = .ok (some
      [[full "full"], [narrow "narrow.0", wide "wide.0"],
        [narrow "narrow.1", wide "wide.1"]]) := by
    decide +kernel
  refine ⟨by decide +kernel, ran, ?_⟩
  rintro ⟨groups, packed, p, packs⟩
  have same := Option.some.inj (Except.ok.inj (ran.symm.trans packed))
  have count := packs.partition.length_eq
  rw [← same] at count
  cases count

end VllmAmpere.KVPacking
