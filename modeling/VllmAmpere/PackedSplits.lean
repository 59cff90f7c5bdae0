import VllmAmpere.PackedBuckets

/-! The exact condition under which a packing partitions the layers as it should. -/

open List

namespace VllmAmpere.KVPacking

variable {N : Type} {bucket : Layers N}

/-- The groups a bucket is split into, where that does not fail. -/
def splitGroups (n : Nat) (bucket : Layers N) : List (Layers N) :=
  if n = 1 then [bucket] else (List.range n).map (groupLayers bucket n)

theorem emitGroup_ok {n i : Nat} {group : Layers N} : emitGroup bucket n i = .ok group ↔
    isUniformType (groupLayers bucket n i) = .ok true ∧ groupLayers bucket n i = group := by
  unfold emitGroup
  rw [bind_eq_ok, ← fromSpecs_ok]
  constructor
  · rintro ⟨_, uniform, e⟩
    cases e
    exact ⟨uniform, rfl⟩
  · rintro ⟨uniform, rfl⟩
    exact ⟨(), uniform, rfl⟩

theorem emitGroups_ok {n : Nat} {groups : List (Layers N)} :
    emitGroups n bucket = .ok groups ↔ splitGroups n bucket = groups ∧
    (n ≠ 1 → ∀ i < n, isUniformType (groupLayers bucket n i) = .ok true) := by
  unfold emitGroups splitGroups
  by_cases one : n = 1
  · rw [if_pos one, if_pos one]
    simp [one]
  · rw [if_neg one, if_neg one, mapM_eq_ok]
    simp only [emitGroup_ok]
    have all : ∀ xs : List Nat, List.Forall₂ (fun i group =>
        isUniformType (groupLayers bucket n i) = .ok true ∧ groupLayers bucket n i = group)
        xs groups ↔ xs.map (groupLayers bucket n) = groups ∧
          ∀ i ∈ xs, isUniformType (groupLayers bucket n i) = .ok true := by
      intro xs
      induction xs generalizing groups with
      | nil => simp [eq_comm]
      | cons i xs ih =>
        cases groups with
        | nil => simp
        | cons group groups =>
          rw [forall₂_cons, ih, map_cons, List.cons.injEq, forall_mem_cons]
          tauto
    rw [all]
    simp [one]

theorem getPackedKVCacheGroups_ok {layers : Layers N} {groups : List (Layers N)} {p : Plan N}
    (sizes : 2 ≤ (layers.map fun layer => layer.2.pageSizeBytes).dedup.length)
    (planned : plan layers = .ok p) : getPackedKVCacheGroups true layers = .ok (some groups) ↔
    (p.buckets.flatMap fun bucket => splitGroups (p.numGroups bucket) bucket) = groups ∧
    ∀ bucket ∈ p.buckets, p.numGroups bucket ≠ 1 → ∀ i < p.numGroups bucket,
    isUniformType (groupLayers bucket (p.numGroups bucket) i) = .ok true := by
  unfold getPackedKVCacheGroups
  rw [if_neg (by simp only [not_true_eq_false, false_or]; omega), planned]
  change (p.buckets.mapM (fun bucket => emitGroups (p.numGroups bucket) bucket) >>=
    fun groups => Except.ok (some groups.flatten)) = _ ↔ _
  rw [bind_eq_ok]
  simp only [mapM_eq_ok, Except.ok.injEq, Option.some.injEq, emitGroups_ok]
  have all : ∀ (bs : List (Layers N)) (gss : List (List (Layers N))),
      List.Forall₂ (fun bucket groups => splitGroups (p.numGroups bucket) bucket = groups ∧
        (p.numGroups bucket ≠ 1 → ∀ i < p.numGroups bucket,
          isUniformType (groupLayers bucket (p.numGroups bucket) i) = .ok true)) bs gss ↔
        bs.map (fun bucket => splitGroups (p.numGroups bucket) bucket) = gss ∧
          ∀ bucket ∈ bs, p.numGroups bucket ≠ 1 → ∀ i < p.numGroups bucket,
            isUniformType (groupLayers bucket (p.numGroups bucket) i) = .ok true := by
    intro bs
    induction bs with
    | nil =>
      intro gss
      simp [eq_comm]
    | cons bucket bs ih =>
      intro gss
      cases gss with
      | nil => simp
      | cons groups gss =>
        rw [forall₂_cons, ih, map_cons, List.cons.injEq, forall_mem_cons]
        tauto
  constructor
  · rintro ⟨gss, ran, rfl⟩
    obtain ⟨rfl, uniform⟩ := (all _ _).mp ran
    exact ⟨rfl, uniform⟩
  · rintro ⟨rfl, uniform⟩
    exact ⟨_, (all _ _).mpr ⟨rfl, uniform⟩, rfl⟩

/-! ### The plan -/

theorem searchGcd_ge {values : List Nat} {bound : Nat} (n d : Nat) (best : Nat × Option Nat)
    (hd : bound ≤ d) (hb : bound ≤ best.1) : bound ≤ searchGcd values n d best := by
  induction n generalizing d best with
  | zero => exact hb
  | succ n ih =>
    obtain ⟨bestD, bestPad⟩ := best
    cases bestPad with
    | none =>
      rw [searchGcd]
      exact ih (d + 1) _ (by omega) hd
    | some pad =>
      rw [searchGcd]
      refine ih (d + 1) _ (by omega) ?_
      split
      · exact hd
      · exact hb

theorem approximateGcd_ok {values : List Nat} {lowerBound : Nat} (some : values ≠ [])
    (positive : ∀ x ∈ values, x ≠ 0) : ∃ d, approximateGcd values lowerBound = .ok d ∧ 0 < d := by
  unfold approximateGcd
  have least : 0 < max 1 lowerBound := lt_of_lt_of_le Nat.one_pos (le_max_left _ _)
  rw [if_neg some, if_neg (by rintro ⟨x, hx, zero⟩; exact positive x hx zero)]
  dsimp only
  split
  · exact ⟨_, rfl, least⟩
  · exact ⟨_, rfl, searchGcd_ge _ _ _ least least⟩

theorem getMaxLayersPerPageSize_pos (some : bucket ≠ []) : 0 < getMaxLayersPerPageSize bucket := by
  obtain ⟨group, rest, e⟩ := exists_cons_of_ne_nil (pages_ne_nil some)
  have inside : group ∈ pageSizeLayers bucket := e ▸ mem_cons_self
  have filled := ((byPage bucket).pages group inside).1
  refine (length_pos_iff.mpr filled).trans_le ?_
  exact le_maxOrZero (mem_map_of_mem (f := fun group : Nat × Layers N => group.2.length) inside)

/-- What a plan says of the layers. -/
structure Plans (p : Plan N) (layers : Layers N) : Prop where
  uniform : ∀ bucket ∈ p.buckets, isUniformType bucket = .ok true
  perm : p.buckets.flatten.Perm layers
  repeats : ∀ repeats, p.repeats = some repeats → 0 < repeats
  anchor : p.anchorBytes = anchorBytes p.repeats p.buckets

theorem plan_ok (layers : Layers N) : ∃ p, plan layers = .ok p ∧ Plans p layers := by
  obtain ⟨buckets, placed, uniform, perm⟩ := bucketLayers_ok layers (forall_mem_nil _)
  rw [flatten_nil, append_nil] at perm
  have specs : ∃ units, buckets.mapM fromSpecs = .ok units := by
    refine ⟨buckets.map fun _ => (), mapM_eq_ok.mpr ?_⟩
    exact forall₂_map_right_iff.mpr (forall₂_same.mpr fun bucket hb =>
      fromSpecs_ok.mpr (uniform bucket hb))
  obtain ⟨units, checked⟩ := specs
  have chosen : ∃ repeats, repeatsPerGroup buckets = .ok repeats ∧
      ∀ r, repeats = some r → 0 < r := by
    unfold repeatsPerGroup
    by_cases zero : minRepeatsPerGroup buckets = 0
    · rw [if_pos zero]
      exact ⟨none, rfl, by simp⟩
    · rw [if_neg zero]
      have values : (buckets.filter fun bucket => balanced bucket).map
          getMaxLayersPerPageSize ≠ [] := by
        intro empty
        refine zero ?_
        rw [map_eq_nil_iff] at empty
        refine Nat.le_zero.mp (maxOrZero_le fun n hn => ?_)
        obtain ⟨bucket, hb, rfl⟩ := mem_map.mp hn
        obtain ⟨inside, both⟩ := mem_filter.mp hb
        have : bucket ∈ buckets.filter fun bucket => balanced bucket :=
          mem_filter.mpr ⟨inside, (of_decide_eq_true both).1⟩
        rw [empty] at this
        cases this
      obtain ⟨d, found, positive⟩ := approximateGcd_ok
        values fun n hn => by
          obtain ⟨bucket, hb, rfl⟩ := mem_map.mp hn
          have some := ne_nil_of_uniform (uniform bucket (mem_filter.mp hb).1)
          exact (getMaxLayersPerPageSize_pos some).ne'
      rw [found]
      refine ⟨some d, rfl, fun r hr => ?_⟩
      cases hr
      exact positive
  obtain ⟨repeats, found, positive⟩ := chosen
  refine ⟨⟨buckets, repeats, anchorBytes repeats buckets⟩, ?_, uniform, perm, positive, rfl⟩
  unfold plan
  rw [bind_eq_ok]
  exact ⟨buckets, placed, bind_eq_ok.mpr ⟨units, checked, bind_eq_ok.mpr ⟨repeats, found, rfl⟩⟩⟩

/-! The exact condition under which the packing of mixed page sizes partitions the layers: on
each bucket, on the number of its groups and on the classes that lead them. -/

variable {p : Plan N}

/-- A bucket that keeps states of several page sizes must have whole rows for all its groups,
which fit a block; a split bucket led by a plain sliding window may hold its subclasses, which
do not accept the plain window in turn. -/
structure Splittable (p : Plan N) (bucket : Layers N) : Prop where
  states : p.IsState bucket → 2 ≤ (pageSizeLayers bucket).length →
    (p.numGroups bucket = 1 ∨
      balanced bucket = true ∧ p.numGroups bucket ≤ getMaxLayersPerPageSize bucket) ∧
    widestGroupBytes bucket (p.numGroups bucket) ≤ max p.anchorBytes (largestPage bucket)
  windows : p.numGroups bucket ≠ 1 →
    (∃ lead ∈ bucket.head?, ∃ w, lead.2.cls = .slidingWindow w) →
    ∀ i < p.numGroups bucket, ∀ first ∈ (groupLayers bucket (p.numGroups bucket) i).head?,
      ∀ layer ∈ groupLayers bucket (p.numGroups bucket) i, first.2.accepts layer.2 = true

/-! ### Whole rows -/

section

variable {rows : Nat}
  (shortest : (((pageSizeLayers bucket).map Prod.snd).map List.length).min? = some rows)

include shortest

theorem rows_le {group : Nat × Layers N} (hg : group ∈ pageSizeLayers bucket) :
    rows ≤ group.2.length :=
  min?_le_length shortest (mem_map_of_mem hg)

theorem rows_mul_le : rows * (pageSizeLayers bucket).length ≤ bucket.length ∧
    (rows * (pageSizeLayers bucket).length = bucket.length →
    ∀ group ∈ pageSizeLayers bucket, group.2.length = rows) := by
  have least : ∀ group ∈ pageSizeLayers bucket, rows ≤ group.2.length :=
    fun group hg => rows_le shortest hg
  rw [length_bucket]
  clear shortest
  generalize pageSizeLayers bucket = groups at least
  induction groups with
  | nil => simp
  | cons group groups ih =>
    obtain ⟨le, eq⟩ := ih fun g hg => least g (mem_cons_of_mem _ hg)
    have own := least group mem_cons_self
    rw [length_cons, map_cons, sum_cons, Nat.mul_add, Nat.mul_one]
    refine ⟨by omega, fun total g hg => ?_⟩
    cases mem_cons.mp hg with
    | inl here => rw [here]; omega
    | inr later => exact eq (by omega) g later

omit shortest in
theorem balanced_of_rows (some : bucket ≠ [])
    (all : ∀ group ∈ pageSizeLayers bucket, group.2.length = rows) : balanced bucket = true := by
  refine (balanced_iff some).mpr fun group hg => ?_
  rw [all group hg]
  refine le_antisymm ?_ (maxOrZero_le fun n hn => ?_)
  · obtain ⟨g, rest, e⟩ := exists_cons_of_ne_nil (pages_ne_nil some)
    have inside : g ∈ pageSizeLayers bucket := e ▸ mem_cons_self
    rw [← all g inside]
    exact le_maxOrZero (mem_map_of_mem (f := fun group : Nat × Layers N => group.2.length)
      inside)
  · obtain ⟨g, hg, rfl⟩ := mem_map.mp hn
    exact (all g hg).le

theorem rows_of_balanced (some : bucket ≠ []) (even : balanced bucket = true) :
    rows = getMaxLayersPerPageSize bucket := by
  have inside := (min?_eq_some_iff.mp shortest).1
  rw [map_map] at inside
  obtain ⟨group, hg, length⟩ := mem_map.mp inside
  rw [← (balanced_iff some).mp even group hg, ← length]
  rfl

theorem length_splitGroups {n : Nat} (hn : 0 < n) : (splitGroups n bucket).flatten.length =
    if n = 1 then bucket.length else rows * (pageSizeLayers bucket).length := by
  unfold splitGroups
  by_cases one : n = 1
  · rw [if_pos one, if_pos one, flatten_singleton]
  · rw [if_neg one, if_neg one, ← flatMap_def, (dealt_perm hn).length_eq,
      length_flatten_zipLists shortest, length_map]

end

theorem length_splitGroups_le (some : bucket ≠ []) {n : Nat} (hn : 0 < n) :
    (splitGroups n bucket).flatten.length ≤ bucket.length := by
  obtain ⟨rows, shortest⟩ := rows_exist some
  rw [length_splitGroups shortest hn]
  split
  · exact le_rfl
  · exact (rows_mul_le shortest).1

theorem splitGroups_perm (some : bucket ≠ []) {n : Nat} (hn : 0 < n)
    (whole : n = 1 ∨ balanced bucket = true) : (splitGroups n bucket).flatten.Perm bucket := by
  by_cases one : n = 1
  · rw [splitGroups, if_pos one, flatten_singleton]
  · have all := (balanced_iff some).mp (whole.resolve_left one)
    have even : ∀ list ∈ (pageSizeLayers bucket).map Prod.snd,
        list.length = getMaxLayersPerPageSize bucket := by
      intro list hlist
      obtain ⟨group, hg, rfl⟩ := mem_map.mp hlist
      exact all group hg
    have filled : (pageSizeLayers bucket).map Prod.snd ≠ [] := by
      rw [ne_eq, map_eq_nil_iff]
      exact pages_ne_nil some
    rw [splitGroups, if_neg one, ← flatMap_def]
    refine (dealt_perm hn).trans ((zipLists_perm filled even).trans ?_)
    rw [← flatMap_def]
    exact (byPage bucket).perm

theorem whole_of_length (some : bucket ≠ []) {n : Nat} (hn : 0 < n)
    (count : (splitGroups n bucket).flatten.length = bucket.length) :
    n = 1 ∨ balanced bucket = true := by
  obtain ⟨rows, shortest⟩ := rows_exist some
  rw [length_splitGroups shortest hn] at count
  by_cases one : n = 1
  · exact .inl one
  · rw [if_neg one] at count
    exact .inr (balanced_of_rows some ((rows_mul_le shortest).2 count))

/-! ### The states of a group -/

theorem accepts_state {self spec : LayerSpec} (h : self.accepts spec = true) :
    spec.cls.isState = self.cls.isState ∧ spec.cls.window?.isSome = self.cls.window?.isSome := by
  unfold LayerSpec.accepts at h
  cases own : self.cls <;> rw [own] at h <;> cases its : spec.cls <;>
    simp_all [SpecClass.isFullAttention, SpecClass.window?, SpecClass.isKpoolTail,
      SpecClass.isState]

theorem isState_of_subset (uniform : isUniformType bucket = .ok true) {layers : Layers N}
    (some : layers ≠ []) (inside : ∀ layer ∈ layers, layer ∈ bucket) :
    p.IsState layers ↔ p.IsState bucket := by
  cases bucket with
  | nil => cases uniform
  | cons lead rest =>
    cases layers with
    | nil => exact absurd rfl some
    | cons first others =>
      have accepted := isUniformType_cons.mp uniform first (inside first mem_cons_self)
      have same := accepts_state accepted.2.2
      change decide (_ ∨ _ ∧ _) = true ↔ decide (_ ∨ _ ∧ _) = true
      rw [same.1, same.2]

/-! ### One bucket -/

section

variable (some : bucket ≠ []) (uniform : isUniformType bucket = .ok true)

include some uniform

theorem uniform_groupLayers {n i : Nat} (filled : groupLayers bucket n i ≠ []) :
    isUniformType (groupLayers bucket n i) = .ok true ↔
    ∀ first ∈ (groupLayers bucket n i).head?, ∀ layer ∈ groupLayers bucket n i,
    first.2.accepts layer.2 = true := by
  obtain ⟨rows, shortest⟩ := rows_exist some
  constructor
  · intro one first hfirst layer hlayer
    obtain ⟨tail, e⟩ := head?_eq_some_iff.mp hfirst
    rw [e] at one hlayer
    exact (isUniformType_cons.mp one layer hlayer).2.2
  · intro heads
    refine uniform_of_accepts uniform filled
      (fun layer hlayer => mem_bucket_of_mem_groupLayers shortest hlayer)
      fun first rest e layer hlayer => ?_
    exact heads first (by rw [e]; rfl) layer hlayer

theorem packs_splitGroups {n : Nat} (hn : 0 < n) : Packs p bucket (splitGroups n bucket) ↔
    (n = 1 ∨ balanced bucket = true ∧ n ≤ getMaxLayersPerPageSize bucket) ∧
    (p.IsState bucket → widestGroupBytes bucket n ≤ max p.anchorBytes (largestPage bucket)) ∧
    (n ≠ 1 → ∀ i < n, ∀ first ∈ (groupLayers bucket n i).head?,
    ∀ layer ∈ groupLayers bucket n i, first.2.accepts layer.2 = true) := by
  obtain ⟨rows, shortest⟩ := rows_exist some
  have filled : ∀ {i : Nat}, groupLayers bucket n i ≠ [] ↔ i < rows :=
    groupLayers_ne_nil shortest some hn
  have inside : ∀ {i : Nat}, ∀ layer ∈ groupLayers bucket n i, layer ∈ bucket :=
    fun layer hlayer => mem_bucket_of_mem_groupLayers shortest hlayer
  by_cases one : n = 1
  · subst one
    have whole : splitGroups 1 bucket = [bucket] := rfl
    rw [whole, widestGroupBytes_one]
    constructor
    · intro packs
      exact ⟨.inl rfl, packs.fits bucket mem_cons_self, fun h => absurd rfl h⟩
    · rintro ⟨-, fits, -⟩
      have only : ∀ group ∈ [bucket], group = bucket := fun group hg => mem_singleton.mp hg
      refine ⟨fun group hg => only group hg ▸ some, ?_, fun group hg => only group hg ▸ uniform,
        fun group hg => only group hg ▸ fits⟩
      rw [flatten_singleton]
  · have split : splitGroups n bucket = (List.range n).map (groupLayers bucket n) := if_neg one
    constructor
    · intro packs
      have even := (whole_of_length some hn packs.partition.length_eq).resolve_left one
      have same := rows_of_balanced shortest some even
      have member : ∀ i < n, groupLayers bucket n i ∈ splitGroups n bucket :=
        fun i hi => split ▸ mem_map_of_mem (mem_range.mpr hi)
      have enough : n ≤ rows := by
        have last := filled.mp (packs.nonempty _ (member (n - 1) (by omega)))
        omega
      refine ⟨.inr ⟨even, same ▸ enough⟩, fun state => ?_, fun _ i hi => ?_⟩
      · have here := filled.mpr (show 0 < rows by omega)
        have fits := packs.fits _ (member 0 hn) ((isState_of_subset uniform here inside).mpr state)
        rwa [pageBytes_groupLayers shortest hn, Nat.sub_zero, same,
          ← widestGroupBytes_balanced some even, largestPage_groupLayers shortest hn
            (by omega)] at fits
      · exact (uniform_groupLayers some uniform (filled.mpr (by omega))).mp
          (packs.uniform _ (member i hi))
    · rintro ⟨counts, fits, heads⟩
      obtain ⟨even, enough⟩ := counts.resolve_left one
      have same := rows_of_balanced shortest some even
      have member : ∀ group ∈ splitGroups n bucket, ∃ i < n, groupLayers bucket n i = group := by
        intro group hg
        rw [split] at hg
        obtain ⟨i, hi, e⟩ := mem_map.mp hg
        exact ⟨i, mem_range.mp hi, e⟩
      refine ⟨fun group hg => ?_, splitGroups_perm some hn (.inr even), fun group hg => ?_,
        fun group hg state => ?_⟩
      · obtain ⟨i, hi, rfl⟩ := member group hg
        exact filled.mpr (by omega)
      · obtain ⟨i, hi, rfl⟩ := member group hg
        exact (uniform_groupLayers some uniform (filled.mpr (by omega))).mpr (heads one i hi)
      · obtain ⟨i, hi, rfl⟩ := member group hg
        have here := filled.mpr (show i < rows by omega)
        have holds := fits ((isState_of_subset uniform here inside).mp state)
        rw [widestGroupBytes_balanced some even, ← same] at holds
        rw [pageBytes_groupLayers shortest hn, largestPage_groupLayers shortest hn (by omega)]
        exact (Nat.mul_le_mul_right _ (cdiv_mono (Nat.sub_le rows i))).trans holds

end

end VllmAmpere.KVPacking
