import Mathlib.Algebra.BigOperators.Group.List.Lemmas
import VllmAmpere.EncoderCacheManager
import VllmAmpere.QueuePlacement

/-! What the slot counters and the reference sets of the encoder cache stand for, and
that every call of the manager keeps it. -/

open List

namespace VllmAmpere.Sched

namespace Request

def identifierAt (r : Request) (i : Nat) : Option String := r.mmFeatures[i]?.map (·.identifier)

def embedsAt (r : Request) (i : Nat) : Nat := r.mmFeatures[i]?.elim 0 MultiModalFeature.getNumEmbeds

theorem identifierAt_eq {r : Request} {i : Nat} {mmHash : String} : r.identifierAt i = some mmHash ↔
    ∃ f, r.mmFeatures[i]? = some f ∧ f.identifier = mmHash := by
  simp [identifierAt]

theorem getNumEncoderEmbeds_eq {r : Request} {i : Nat} {f : MultiModalFeature}
    (h : r.mmFeatures[i]? = some f) : r.getNumEncoderEmbeds i = .ok (r.embedsAt i) := by
  have inRange : i < r.mmFeatures.length := (List.getElem?_eq_some_iff.mp h).1
  refine bind_eq_ok.mpr ⟨(), pyAssert_ok.mpr inRange, bind_eq_ok.mpr ⟨f, pyGet_ok.mpr h, ?_⟩⟩
  simp [embedsAt, h]

end Request

namespace EncoderCacheManager

variable {m m' : EncoderCacheManager} {request : String → Request}

def Registered (m : EncoderCacheManager) (requestId : String) (i : Nat) : Prop :=
  i ∈ (m.requestCachedIds.get? requestId).getD []

def Holds (m : EncoderCacheManager) (requestId mmHash : String) : Prop :=
  requestId ∈ (m.cached.get? mmHash).getD []

structure Accounts (m : EncoderCacheManager) : Prop where
  numFreeSlots : m.numFreeSlots = m.cacheSize - m.numEmbedsByHash.total id
  numFreeableSlots : m.numFreeableSlots = m.numFreeSlots + m.freeable.total id
  cached_iff : ∀ mmHash, m.cached.get? mmHash = none ↔ m.numEmbedsByHash.get? mmHash = none
  freeable_iff : ∀ mmHash n, m.freeable.get? mmHash = some n ↔
    m.cached.get? mmHash = some [] ∧ m.numEmbedsByHash.get? mmHash = some n

/-- The reference sets say which requests have an input registered under an identifier. -/
structure References (request : String → Request) (m : EncoderCacheManager) : Prop where
  known : ∀ id i, m.Registered id i → ∃ mmHash, (request id).identifierAt i = some mmHash
  holds_iff : ∀ id mmHash, m.Holds id mmHash ↔
    ∃ i, m.Registered id i ∧ (request id).identifierAt i = some mmHash

/-- No call but `allocate` takes slots or caches an entry that was not cached. -/
structure Roomier (m m' : EncoderCacheManager) : Prop where
  cacheSize : m'.cacheSize = m.cacheSize
  numFreeSlots : m.numFreeSlots ≤ m'.numFreeSlots
  cached : ∀ mmHash, m.cached.get? mmHash = none → m'.cached.get? mmHash = none

theorem Roomier.refl : m.Roomier m := ⟨rfl, Int.le_refl _, fun _ h => h⟩

theorem Roomier.trans {m₁ m₂ m₃ : EncoderCacheManager} (h : m₁.Roomier m₂) (h' : m₂.Roomier m₃) :
    m₁.Roomier m₃ :=
  ⟨h'.cacheSize.trans h.cacheSize, h.numFreeSlots.trans h'.numFreeSlots,
    fun mmHash hn => h'.cached mmHash (h.cached mmHash hn)⟩

def unreferencedEmbeds (m : EncoderCacheManager) : Nat :=
  ((m.numEmbedsByHash.items.filter fun item => m.cached.get? item.1 = some []).map Prod.snd).sum

theorem Accounts.unreferenced (h : m.Accounts) : m.freeable.total id = m.unreferencedEmbeds := by
  have same : m.freeable.items.Perm
      (m.numEmbedsByHash.items.filter fun item => m.cached.get? item.1 = some []) := by
    refine (perm_ext_iff_of_nodup m.freeable.nodup.of_map
      (m.numEmbedsByHash.nodup.of_map.filter _)).mpr fun item => ?_
    rw [mem_filter, PyDict.mem_items, PyDict.mem_items, h.freeable_iff, decide_eq_true_eq]
    exact and_comm
  exact (same.map Prod.snd).sum_eq

theorem accounts_init (cacheSize : Nat) : (init cacheSize).Accounts where
  numFreeSlots := by simp [init]
  numFreeableSlots := by simp [init]
  cached_iff := by simp [init]
  freeable_iff := by simp [init]

theorem references_init (request : String → Request) (cacheSize : Nat) :
    (init cacheSize).References request where
  known := by simp [Registered, init]
  holds_iff := by simp [Holds, Registered, init]

theorem registered_registerInput {id id' : String} {i j : Nat} :
    (m.registerInput id i).Registered id' j ↔ (id' = id ∧ j = i) ∨ m.Registered id' j := by
  unfold Registered registerInput
  rw [PyDict.get?_set]
  by_cases h : id' = id
  · subst h
    simp only [if_true, Option.getD_some, true_and]
    split
    · constructor
      · exact .inr
      · rintro (rfl | hj) <;> assumption
    · simp [or_comm]
  · simp [h]

theorem registered_unregisterInput {id id' : String} {i j : Nat} :
    (m.unregisterInput id i).Registered id' j ↔ m.Registered id' j ∧ ¬(id' = id ∧ j = i) := by
  unfold Registered unregisterInput
  cases hm : m.requestCachedIds.get? id with
  | none =>
    by_cases h : id' = id
    · subst h
      simp [hm]
    · simp [h]
  | some inputs =>
    by_cases h : id' = id
    · subst h
      dsimp only
      split <;> rename_i hempty
      · rw [PyDict.get?_pop, if_pos rfl, hm]
        simp only [List.isEmpty_iff, filter_eq_nil_iff, decide_not, Bool.not_eq_true',
          decide_eq_false_iff_not, not_not] at hempty
        simp only [Option.getD_none, not_mem_nil, Option.getD_some, true_and, false_iff,
          not_and, not_not]
        exact hempty j
      · rw [PyDict.get?_set, if_pos rfl, hm]
        simp
    · dsimp only
      split
      · rw [PyDict.get?_pop, if_neg h]
        simp [h]
      · rw [PyDict.get?_set, if_neg h]
        simp [h]

theorem Accounts.congr (h : m.Accounts) (cacheSize : m'.cacheSize = m.cacheSize)
    (free : m'.numFreeSlots = m.numFreeSlots)
    (freeableSlots : m'.numFreeableSlots = m.numFreeableSlots) (cached : m'.cached = m.cached)
    (embeds : m'.numEmbedsByHash = m.numEmbedsByHash) (freeable : m'.freeable = m.freeable) :
    m'.Accounts where
  numFreeSlots := by rw [free, cacheSize, embeds, h.numFreeSlots]
  numFreeableSlots := by rw [freeableSlots, free, freeable, h.numFreeableSlots]
  cached_iff := by rw [cached, embeds]; exact h.cached_iff
  freeable_iff := by rw [cached, embeds, freeable]; exact h.freeable_iff

theorem accounts_registerInput (h : m.Accounts) (id : String) (i : Nat) :
    (m.registerInput id i).Accounts := h.congr rfl rfl rfl rfl rfl rfl

theorem unregisterInput_frame (m : EncoderCacheManager) (id : String) (i : Nat) :
    ∃ inputs, m.unregisterInput id i = { m with requestCachedIds := inputs } := by
  unfold unregisterInput
  split
  · exact ⟨m.requestCachedIds, rfl⟩
  · exact ⟨_, rfl⟩

variable {mmHash : String} {references : List String}

theorem Accounts.embeds_of_cached (h : m.Accounts)
    (cached : m.cached.get? mmHash = some references) :
    ∃ n, m.numEmbedsByHash.get? mmHash = some n := by
  cases hn : m.numEmbedsByHash.get? mmHash with
  | some n => exact ⟨n, rfl⟩
  | none => rw [(h.cached_iff mmHash).mpr hn] at cached; cases cached

theorem Accounts.freeable_none (h : m.Accounts)
    (referenced : m.cached.get? mmHash ≠ some []) : m.freeable.get? mmHash = none := by
  cases hn : m.freeable.get? mmHash with
  | none => rfl
  | some n => exact absurd ((h.freeable_iff mmHash n).mp hn).1 referenced

theorem Accounts.cached_set_iff (h : m.Accounts)
    (cached : m.cached.get? mmHash = some references) (references' : List String)
    (other : String) : (m.cached.set mmHash references').get? other = none ↔
    m.numEmbedsByHash.get? other = none := by
  rw [PyDict.get?_set]
  split
  · rename_i hother
    obtain ⟨n, hn⟩ := h.embeds_of_cached cached
    simp [hother, hn]
  · exact h.cached_iff other

theorem Accounts.setReferences (h : m.Accounts)
    (cached : m.cached.get? mmHash = some references) {references' : List String}
    (before : references ≠ []) (after : references' ≠ []) :
    { m with cached := m.cached.set mmHash references' }.Accounts where
  numFreeSlots := h.numFreeSlots
  numFreeableSlots := h.numFreeableSlots
  cached_iff := h.cached_set_iff cached references'
  freeable_iff other n := by
    dsimp only
    rw [PyDict.get?_set]
    split
    · rename_i hother
      rw [hother, h.freeable_none (by rw [cached]; simpa using before)]
      simp [after]
    · exact h.freeable_iff other n

variable {n : Nat}

theorem Accounts.refer (h : m.Accounts)
    (freeable : m.freeable.get? mmHash = some n) {references' : List String}
    (after : references' ≠ []) :
    { m with
      freeable := m.freeable.pop mmHash
      numFreeableSlots := m.numFreeableSlots - n
      cached := m.cached.set mmHash references' }.Accounts where
  numFreeSlots := h.numFreeSlots
  numFreeableSlots := by
    have pop := m.freeable.total_pop id mmHash
    rw [freeable, Option.elim_some, id_eq] at pop
    have := h.numFreeableSlots
    dsimp only
    omega
  cached_iff := h.cached_set_iff ((h.freeable_iff mmHash n).mp freeable).1 references'
  freeable_iff other k := by
    dsimp only
    rw [PyDict.get?_set, PyDict.get?_pop]
    split
    · simp [after]
    · exact h.freeable_iff other k

theorem Accounts.release (h : m.Accounts)
    (cached : m.cached.get? mmHash = some references) (before : references ≠ [])
    (embeds : m.numEmbedsByHash.get? mmHash = some n) :
    { m with
      cached := m.cached.set mmHash []
      freeable := m.freeable.set mmHash n
      numFreeableSlots := m.numFreeableSlots + n }.Accounts where
  numFreeSlots := h.numFreeSlots
  numFreeableSlots := by
    have set := m.freeable.total_set id mmHash n
    rw [h.freeable_none (by rw [cached]; simpa using before), Option.elim_none, id_eq] at set
    have := h.numFreeableSlots
    dsimp only
    omega
  cached_iff := h.cached_set_iff cached []
  freeable_iff other k := by
    dsimp only
    rw [PyDict.get?_set, PyDict.get?_set]
    split
    · rename_i hother
      subst hother
      simp [embeds]
    · exact h.freeable_iff other k

theorem Accounts.evicted (h : m.Accounts) (freeable : m.freeable.get? mmHash = some n) :
    { m with
      freeable := m.freeable.pop mmHash
      cached := m.cached.pop mmHash
      numEmbedsByHash := m.numEmbedsByHash.pop mmHash
      freed := m.freed ++ [mmHash]
      numFreeSlots := m.numFreeSlots + n }.Accounts where
  numFreeSlots := by
    have pop := m.numEmbedsByHash.total_pop id mmHash
    rw [((h.freeable_iff mmHash n).mp freeable).2, Option.elim_some, id_eq] at pop
    have := h.numFreeSlots
    dsimp only
    omega
  numFreeableSlots := by
    have pop := m.freeable.total_pop id mmHash
    rw [freeable, Option.elim_some, id_eq] at pop
    have := h.numFreeableSlots
    dsimp only
    omega
  cached_iff other := by
    dsimp only
    rw [PyDict.get?_pop, PyDict.get?_pop]
    split
    · simp
    · exact h.cached_iff other
  freeable_iff other k := by
    dsimp only
    rw [PyDict.get?_pop, PyDict.get?_pop, PyDict.get?_pop]
    split
    · simp
    · exact h.freeable_iff other k

theorem Accounts.allocated (h : m.Accounts) (absent : m.cached.get? mmHash = none) (n : Nat)
    (referenced : references ≠ []) :
    { m with
      cached := m.cached.set mmHash references
      numEmbedsByHash := m.numEmbedsByHash.set mmHash n
      numFreeSlots := m.numFreeSlots - n
      numFreeableSlots := m.numFreeableSlots - n }.Accounts where
  numFreeSlots := by
    have set := m.numEmbedsByHash.total_set id mmHash n
    rw [(h.cached_iff mmHash).mp absent, Option.elim_none, id_eq] at set
    have := h.numFreeSlots
    dsimp only
    omega
  numFreeableSlots := by
    have := h.numFreeableSlots
    dsimp only
    omega
  cached_iff other := by
    dsimp only
    rw [PyDict.get?_set, PyDict.get?_set]
    split
    · simp
    · exact h.cached_iff other
  freeable_iff other k := by
    dsimp only
    rw [PyDict.get?_set, PyDict.get?_set]
    split
    · rename_i hother
      rw [hother, h.freeable_none (by rw [absent]; simp)]
      simp [referenced]
    · exact h.freeable_iff other k

variable {i : Nat}

theorem References.add (h : m.References request) {id mmHash : String}
    (identified : (request id).identifierAt i = some mmHash)
    (registered : ∀ id' j, m'.Registered id' j ↔ (id' = id ∧ j = i) ∨ m.Registered id' j)
    (holds : ∀ id' other, m'.Holds id' other ↔ (id' = id ∧ other = mmHash) ∨ m.Holds id' other) :
    m'.References request where
  known id' j hj := by
    rcases (registered id' j).mp hj with ⟨rfl, rfl⟩ | hj
    · exact ⟨mmHash, identified⟩
    · exact h.known id' j hj
  holds_iff id' other := by
    rw [holds, h.holds_iff]
    constructor
    · rintro (⟨rfl, rfl⟩ | ⟨j, hj, hother⟩)
      · exact ⟨i, (registered id' i).mpr (.inl ⟨rfl, rfl⟩), identified⟩
      · exact ⟨j, (registered id' j).mpr (.inr hj), hother⟩
    · rintro ⟨j, hj, hother⟩
      rcases (registered id' j).mp hj with ⟨rfl, rfl⟩ | hj
      · exact .inl ⟨rfl, Option.some.inj (hother.symm.trans identified)⟩
      · exact .inr ⟨j, hj, hother⟩

theorem holds_setReferences {mmHash other id : String} :
    { m with cached := m.cached.set mmHash references }.Holds id other ↔
      if other = mmHash then id ∈ references else m.Holds id other := by
  unfold Holds
  dsimp only
  rw [PyDict.get?_set]
  split <;> simp

/-- What a call that allocates nothing makes of the cache. -/
structure Keeps (request : String → Request) (m m' : EncoderCacheManager) : Prop where
  accounts : m'.Accounts
  references : m'.References request
  roomier : m.Roomier m'

def KeepsHolds (m m' : EncoderCacheManager) : Prop :=
  ∀ id mmHash, m.Holds id mmHash → m'.Holds id mmHash

theorem checkAndUpdateCache_spec (accounts : m.Accounts) (references : m.References request)
    {id mmHash : String} (named : (request id).requestId = id)
    (identified : (request id).identifierAt i = some mmHash) :
    ∃ hit m', m.checkAndUpdateCache (request id) i = .ok (hit, m') ∧ Keeps request m m' ∧
    m.KeepsHolds m' ∧ (hit = false → m.cached.get? mmHash = none ∧ m' = m) ∧
    (hit = true → m.cached.get? mmHash ≠ none ∧ m'.Holds id mmHash) := by
  obtain ⟨f, hf, hhash⟩ := Request.identifierAt_eq.mp identified
  unfold checkAndUpdateCache
  rw [pyGet_ok.mpr hf]
  simp only [bind, Except.bind, hhash, named]
  cases cached : m.cached.get? mmHash with
  | none =>
    exact ⟨false, m, rfl, ⟨accounts, references, .refl⟩, fun _ _ h => h, fun _ => ⟨rfl, rfl⟩,
      (by simp)⟩
  | some ids =>
    have mem_ids : ∀ id' : String, id' ∈ ids ↔ m.Holds id' mmHash := fun id' => by
      unfold Holds
      rw [cached, Option.getD_some]
    have added : setAdd ids id ≠ [] := ne_nil_of_mem (mem_setAdd.mpr (.inl rfl))
    -- The entry with the new reference, whatever else the call has changed.
    have sound : ∀ m₁ : EncoderCacheManager, m₁.Accounts →
        m₁.cached = m.cached.set mmHash (setAdd ids id) → m₁.cacheSize = m.cacheSize →
        m₁.numFreeSlots = m.numFreeSlots → m₁.requestCachedIds = m.requestCachedIds →
        Keeps request m (m₁.registerInput id i) ∧ m.KeepsHolds (m₁.registerInput id i) ∧
          (m₁.registerInput id i).Holds id mmHash := by
      intro m₁ accounts₁ cached₁ size free inputs
      have holds : ∀ id' other, (m₁.registerInput id i).Holds id' other ↔
          (id' = id ∧ other = mmHash) ∨ m.Holds id' other := by
        intro id' other
        unfold Holds
        rw [show (m₁.registerInput id i).cached = m₁.cached from rfl, cached₁, PyDict.get?_set]
        split
        · rename_i hother
          rw [hother, Option.getD_some, mem_setAdd, cached, Option.getD_some]
          simp
        · rename_i hother
          simp [hother]
      refine ⟨⟨accounts_registerInput accounts₁ id i, references.add identified ?_ holds,
        size, free.ge, ?_⟩, fun id' other h => (holds id' other).mpr (.inr h),
        (holds id mmHash).mpr (.inl ⟨rfl, rfl⟩)⟩
      · intro id' j
        rw [registered_registerInput]
        unfold Registered
        rw [inputs]
      · intro other absent
        rw [show (m₁.registerInput id i).cached = m₁.cached from rfl, cached₁, PyDict.get?_set,
          if_neg (by rintro rfl; rw [cached] at absent; cases absent), absent]
    by_cases hempty : ids = []
    · subst hempty
      obtain ⟨n, embeds⟩ := accounts.embeds_of_cached cached
      have freeable := (accounts.freeable_iff mmHash n).mpr ⟨cached, embeds⟩
      have kept := sound _ (accounts.refer freeable added) rfl rfl rfl rfl
      refine ⟨true, _, ?_, kept.1, kept.2.1, (by simp), fun _ => ⟨by simp, kept.2.2⟩⟩
      simp [popFreeable, PyDict.getItem_ok.mpr freeable, bind, Except.bind]
    · have kept := sound _ (accounts.setReferences cached hempty added) rfl rfl rfl rfl
      refine ⟨true, _, ?_, kept.1, kept.2.1, (by simp), fun _ => ⟨by simp, kept.2.2⟩⟩
      simp [hempty]

theorem evictEntry_spec (accounts : m.Accounts) (references : m.References request)
    (freeable : m.freeable.get? mmHash = some n) :
    ∃ m', m.evictEntry mmHash n = .ok m' ∧ Keeps request m m' ∧ m.KeepsHolds m' ∧
    m'.freeable = m.freeable.pop mmHash ∧ m'.numFreeableSlots = m.numFreeableSlots := by
  have ⟨cached, embeds⟩ := (accounts.freeable_iff mmHash n).mp freeable
  have same : ∀ id other : String, id ∈ ((m.cached.pop mmHash).get? other).getD [] ↔
      m.Holds id other := by
    intro id other
    unfold Holds
    rw [PyDict.get?_pop]
    split
    · rename_i hother
      simp [hother, cached]
    · rfl
  refine ⟨{ m with
      freeable := m.freeable.pop mmHash
      cached := m.cached.pop mmHash
      numEmbedsByHash := m.numEmbedsByHash.pop mmHash
      freed := m.freed ++ [mmHash]
      numFreeSlots := m.numFreeSlots + n }, ?_, ⟨accounts.evicted freeable, ?_, rfl, ?_, ?_⟩,
    fun id other h => (same id other).mpr h, rfl, rfl⟩
  · simp [evictEntry, PyDict.getItem_ok.mpr cached, PyDict.getItem_ok.mpr embeds, bind,
      Except.bind]
  · exact ⟨references.known, fun id other => (same id other).trans (references.holds_iff id other)⟩
  · dsimp only
    omega
  · intro other absent
    dsimp only
    rw [PyDict.get?_pop]
    split
    · rfl
    · exact absent

theorem evict_spec (numEmbeds : Int) (items : List (String × Nat))
    (hitems : m.freeable.items = items) (accounts : m.Accounts) (references : m.References request)
    (enough : numEmbeds ≤ m.numFreeableSlots) :
    ∃ m', evict numEmbeds items m = .ok m' ∧ Keeps request m m' ∧ m.KeepsHolds m' ∧
    numEmbeds ≤ m'.numFreeSlots := by
  induction items generalizing m with
  | nil =>
    have all : m.numFreeableSlots = m.numFreeSlots := by
      rw [accounts.numFreeableSlots, PyDict.total, hitems]
      simp
    refine ⟨m, ?_, ⟨accounts, references, .refl⟩, fun _ _ h => h, by omega⟩
    rw [evict, if_neg (by omega)]
  | cons item rest ih =>
    obtain ⟨mmHash, n⟩ := item
    rw [evict]
    by_cases short : numEmbeds > m.numFreeSlots
    · have freeable := (m.freeable.mem_items mmHash n).mp (hitems ▸ mem_cons_self)
      have ⟨m₁, hevict, keeps, holds, left, slots⟩ := evictEntry_spec accounts references freeable
      have ⟨m₂, hrest, keeps₂, holds₂, room⟩ := ih (left ▸ m.freeable.pop_first hitems)
        keeps.accounts keeps.references (slots ▸ enough)
      refine ⟨m₂, ?_, ⟨keeps₂.accounts, keeps₂.references, keeps.roomier.trans keeps₂.roomier⟩,
        fun id other h => holds₂ id other (holds id other h), room⟩
      rw [if_pos short, hevict]
      exact hrest
    · refine ⟨m, ?_, ⟨accounts, references, .refl⟩, fun _ _ h => h, by omega⟩
      rw [if_neg short]

theorem canAllocate_spec (accounts : m.Accounts) (references : m.References request) {r : Request}
    {f : MultiModalFeature} (feature : r.mmFeatures[i]? = some f)
    (encoderComputeBudget : Int) (numEmbedsToSchedule : Nat) :
    ∃ fits m', m.canAllocate r i encoderComputeBudget numEmbedsToSchedule = .ok (fits, m') ∧
    Keeps request m m' ∧ m.KeepsHolds m' ∧
    (fits = true → (r.embedsAt i + numEmbedsToSchedule : Int) ≤ m'.numFreeSlots ∧
    (r.embedsAt i : Int) ≤ encoderComputeBudget) := by
  have same : Keeps request m m := ⟨accounts, references, .refl⟩
  unfold canAllocate
  rw [Request.getNumEncoderEmbeds_eq feature]
  simp only [bind, Except.bind]
  split
  · exact ⟨false, m, rfl, same, fun _ _ h => h, (by simp)⟩
  rename_i within
  have within := Int.not_lt.mp within
  split
  · rename_i room
    exact ⟨true, m, rfl, same, fun _ _ h => h, fun _ => ⟨room, within⟩⟩
  split
  · exact ⟨false, m, rfl, same, fun _ _ h => h, (by simp)⟩
  · rename_i enough
    obtain ⟨m', hevict, keeps, holds, room⟩ := evict_spec
      (r.embedsAt i + numEmbedsToSchedule) m.freeable.items rfl accounts references
      (by omega)
    exact ⟨true, m', by rw [hevict], keeps, holds, fun _ => ⟨room, within⟩⟩

theorem allocate_spec (accounts : m.Accounts) (references : m.References request)
    {id mmHash : String} (named : (request id).requestId = id)
    (identified : (request id).identifierAt i = some mmHash) (absent : m.cached.get? mmHash = none)
    (room : ((request id).embedsAt i : Int) ≤ m.numFreeSlots) :
    ∃ m', m.allocate (request id) i = .ok m' ∧ m'.Accounts ∧ m'.References request ∧
    m.KeepsHolds m' ∧ m'.cacheSize = m.cacheSize ∧
    m'.numFreeSlots = m.numFreeSlots - (request id).embedsAt i ∧
    (∀ other, other ≠ mmHash → m'.cached.get? other = m.cached.get? other) := by
  have ⟨f, hf, hhash⟩ := Request.identifierAt_eq.mp identified
  have added : setAdd [] id ≠ [] := by simp [setAdd]
  have freeable : ((request id).embedsAt i : Int) ≤ m.numFreeableSlots := by
    have := accounts.numFreeableSlots
    omega
  have kept := accounts.allocated absent ((request id).embedsAt i) added
  have holds : ∀ id' other, (({ m with
        cached := m.cached.set mmHash (setAdd [] id) } : EncoderCacheManager).registerInput id i).Holds
        id' other ↔ (id' = id ∧ other = mmHash) ∨ m.Holds id' other := by
    intro id' other
    refine (holds_setReferences (m := m)).trans ?_
    split
    · rename_i hother
      simp [hother, setAdd, Holds, absent]
    · rename_i hother
      simp [hother]
  refine ⟨_, ?_, accounts_registerInput kept id i,
    references.add identified ?_ holds, ?_, rfl, rfl, ?_⟩
  · unfold allocate
    rw [pyGet_ok.mpr hf]
    simp only [bind, Except.bind, hhash, named, Request.getNumEncoderEmbeds_eq hf, absent,
      (accounts.cached_iff mmHash).mp absent, Option.getD_none, pyAssert, ge_iff_le, room,
      freeable, if_true]
  · exact fun id' j => registered_registerInput
  · exact fun id' other h => (holds id' other).mpr (.inr h)
  · intro other hother
    exact (PyDict.get?_set _ _ _ _).trans (if_neg hother)

variable {id : String}

theorem anyIdentifier_spec (references : m.References request) (mmHash : String)
    (inputs : List Nat) (registered : ∀ i ∈ inputs, m.Registered id i) :
    anyIdentifier (request id) mmHash inputs =
    .ok (decide (∃ i ∈ inputs, (request id).identifierAt i = some mmHash)) := by
  induction inputs with
  | nil => simp [anyIdentifier]
  | cons i rest ih =>
    have ⟨other, hother⟩ := references.known id i (registered i mem_cons_self)
    have ⟨f, hf, hhash⟩ := Request.identifierAt_eq.mp hother
    have tail := ih fun j hj => registered j (mem_cons_of_mem i hj)
    unfold anyIdentifier
    rw [pyGet_ok.mpr hf, tail]
    simp only [bind, Except.bind, hhash]
    by_cases same : other = mmHash
    · simp [same, hother]
    · simp [same, hother]

theorem dropReference_spec (accounts : m.Accounts) (id : String) {ids : List String}
    (cached : m.cached.get? mmHash = some ids) (before : ids ≠ []) :
    ∃ m', m.dropReference mmHash id ids = .ok m' ∧ m'.Accounts ∧ m.Roomier m' ∧
    m'.requestCachedIds = m.requestCachedIds ∧
    m'.cached = m.cached.set mmHash (discard ids id) := by
  have absent : ∀ other, m.cached.get? other = none →
      (m.cached.set mmHash (discard ids id)).get? other = none := by
    intro other h
    rw [PyDict.get?_set, if_neg (by rintro rfl; rw [cached] at h; cases h), h]
  unfold dropReference
  by_cases last : discard ids id = []
  · have ⟨n, embeds⟩ := accounts.embeds_of_cached cached
    have released := accounts.release cached before embeds
    refine ⟨{ m with
        cached := m.cached.set mmHash []
        freeable := m.freeable.set mmHash n
        numFreeableSlots := m.numFreeableSlots + n }, ?_, released, ?_, rfl, by rw [last]⟩
    · simp [last, PyDict.getItem_ok.mpr embeds, bind, Except.bind]
    · exact ⟨rfl, Int.le_refl _, last ▸ absent⟩
  · refine ⟨_, ?_, accounts.setReferences cached before last, ⟨rfl, Int.le_refl _, absent⟩,
      rfl, rfl⟩
    simp [last]

/-- Freeing a registered input drops the reference of its request exactly when no other
registered input has the identifier. -/
theorem freeEncoderInput_spec (accounts : m.Accounts) (references : m.References request)
    (named : (request id).requestId = id) (registered : m.Registered id i) :
    ∃ m', m.freeEncoderInput (request id) i = .ok m' ∧ Keeps request m m' ∧
    (∀ id' j, m'.Registered id' j ↔ m.Registered id' j ∧ ¬(id' = id ∧ j = i)) ∧
    ∀ id' mmHash, m.Holds id' mmHash → ¬m'.Holds id' mmHash →
    id' = id ∧ (request id).identifierAt i = some mmHash := by
  obtain ⟨mmHash, identified⟩ := references.known id i registered
  obtain ⟨f, hf, hhash⟩ := Request.identifierAt_eq.mp identified
  have held : m.Holds id mmHash := (references.holds_iff id mmHash).mpr ⟨i, registered, identified⟩
  obtain ⟨ids, cached, mem⟩ : ∃ ids, m.cached.get? mmHash = some ids ∧ id ∈ ids := by
    unfold Holds at held
    cases h : m.cached.get? mmHash with
    | none => rw [h] at held; cases held
    | some ids => exact ⟨ids, rfl, by rwa [h] at held⟩
  obtain ⟨inputs, frame⟩ := m.unregisterInput_frame id i
  have left : ∀ id' j, (m.unregisterInput id i).Registered id' j ↔
      m.Registered id' j ∧ ¬(id' = id ∧ j = i) := fun id' j => registered_unregisterInput
  have accounts₁ : (m.unregisterInput id i).Accounts := by
    rw [frame]
    exact accounts.congr rfl rfl rfl rfl rfl rfl
  have cached₁ : (m.unregisterInput id i).cached = m.cached := by rw [frame]
  have roomier₁ : m.Roomier (m.unregisterInput id i) := by
    rw [frame]
    exact ⟨rfl, Int.le_refl _, fun _ h => h⟩
  have any : anyIdentifier (request id) mmHash ((m.unregisterInput id i).getCachedInputIds
      (request id)) = .ok (decide (∃ j ∈ (m.unregisterInput id i).getCachedInputIds (request id),
        (request id).identifierAt j = some mmHash)) := by
    refine anyIdentifier_spec references mmHash _ fun j hj => ?_
    rw [getCachedInputIds, named] at hj
    exact ((left id j).mp hj).1
  have call : m.freeEncoderInput (request id) i =
      if ∃ j ∈ (m.unregisterInput id i).getCachedInputIds (request id),
        (request id).identifierAt j = some mmHash then .ok (m.unregisterInput id i)
      else (m.unregisterInput id i).dropReference mmHash id ids := by
    unfold freeEncoderInput
    rw [pyGet_ok.mpr hf]
    simp only [bind, Except.bind, named, hhash, cached₁, cached, Option.getD_some,
      List.isEmpty_iff, ne_nil_of_mem mem, if_false]
    rw [any]
    simp only [decide_eq_true_eq]
  rw [call]
  have other_held : ∀ id' other, (∃ j, (m.unregisterInput id i).Registered id' j ∧
      (request id').identifierAt j = some other) → m.Holds id' other := by
    rintro id' other ⟨j, hj, hother⟩
    exact (references.holds_iff id' other).mpr ⟨j, ((left id' j).mp hj).1, hother⟩
  split
  · rename_i needed
    obtain ⟨j, hj, hother⟩ := needed
    rw [getCachedInputIds, named] at hj
    have same : ∀ id' other, (m.unregisterInput id i).Holds id' other ↔ m.Holds id' other := by
      intro id' other
      unfold Holds
      rw [cached₁]
    refine ⟨_, rfl, ⟨accounts₁, ⟨fun id' k hk => references.known id' k ((left id' k).mp hk).1,
      fun id' other => ?_⟩, roomier₁⟩, left, fun id' other h h' => absurd ((same id' other).mpr h) h'⟩
    rw [same]
    refine ⟨fun h => ?_, other_held id' other⟩
    obtain ⟨k, hk, hkother⟩ := (references.holds_iff id' other).mp h
    by_cases freed : id' = id ∧ k = i
    · obtain ⟨rfl, rfl⟩ := freed
      rw [identified] at hkother
      cases hkother
      exact ⟨j, hj, hother⟩
    · exact ⟨k, (left id' k).mpr ⟨hk, freed⟩, hkother⟩
  · rename_i last
    obtain ⟨m', drop, accounts', roomier, inputs', cached'⟩ :=
      dropReference_spec accounts₁ id (cached₁ ▸ cached) (ne_nil_of_mem mem)
    have left' : ∀ id' j, m'.Registered id' j ↔ m.Registered id' j ∧ ¬(id' = id ∧ j = i) := by
      intro id' j
      rw [← left]
      unfold Registered
      rw [inputs']
    have holds' : ∀ id' other, m'.Holds id' other ↔
        m.Holds id' other ∧ ¬(id' = id ∧ other = mmHash) := by
      intro id' other
      unfold Holds
      rw [cached', cached₁, PyDict.get?_set]
      split
      · rename_i hother
        rw [hother, cached, Option.getD_some, Option.getD_some, mem_discard]
        simp [and_comm]
      · rename_i hother
        simp [hother]
    refine ⟨m', drop, ⟨accounts', ⟨fun id' k hk => references.known id' k ((left' id' k).mp hk).1,
      fun id' other => ?_⟩, roomier₁.trans roomier⟩, left', fun id' other h h' => ?_⟩
    · rw [holds', references.holds_iff]
      constructor
      · rintro ⟨⟨k, hk, hkother⟩, kept⟩
        refine ⟨k, (left' id' k).mpr ⟨hk, ?_⟩, hkother⟩
        rintro ⟨rfl, rfl⟩
        exact kept ⟨rfl, Option.some.inj (hkother.symm.trans identified)⟩
      · rintro ⟨k, hk, hkother⟩
        refine ⟨⟨k, ((left' id' k).mp hk).1, hkother⟩, ?_⟩
        rintro ⟨rfl, rfl⟩
        refine last ⟨k, ?_, hkother⟩
        rw [getCachedInputIds, named]
        exact (left id' k).mpr ((left' id' k).mp hk)
    · by_contra kept
      refine h' ((holds' id' other).mpr ⟨h, ?_⟩)
      rintro ⟨rfl, rfl⟩
      exact kept ⟨rfl, identified⟩

theorem free_spec (accounts : m.Accounts) (references : m.References request)
    (named : (request id).requestId = id) (order : List Nat) (nodup : order.Nodup)
    (registered : ∀ i ∈ order, m.Registered id i) :
    ∃ m', free (request id) order m = .ok m' ∧ Keeps request m m' ∧
    (∀ id' j, m'.Registered id' j ↔ m.Registered id' j ∧ ¬(id' = id ∧ j ∈ order)) ∧
    ∀ id' mmHash, m.Holds id' mmHash → ¬m'.Holds id' mmHash →
    id' = id ∧ ∃ i ∈ order, (request id).identifierAt i = some mmHash := by
  induction order generalizing m with
  | nil =>
    exact ⟨m, rfl, ⟨accounts, references, .refl⟩, fun _ _ => by simp, fun _ _ h h' => absurd h h'⟩
  | cons i rest ih =>
    rw [nodup_cons] at nodup
    have ⟨m₁, hfirst, keeps₁, left₁, dropped₁⟩ := freeEncoderInput_spec accounts references named
      (registered i mem_cons_self)
    have ⟨m₂, hrest, keeps₂, left₂, dropped₂⟩ := ih keeps₁.accounts keeps₁.references nodup.2
      fun j hj => (left₁ id j).mpr ⟨registered j (mem_cons_of_mem i hj), by
        rintro ⟨-, rfl⟩
        exact nodup.1 hj⟩
    refine ⟨m₂, ?_, ⟨keeps₂.accounts, keeps₂.references, keeps₁.roomier.trans keeps₂.roomier⟩,
      fun id' j => ?_, fun id' mmHash h h' => ?_⟩
    · rw [free, hfirst]
      exact hrest
    · rw [left₂, left₁, mem_cons]
      tauto
    · by_cases held : m₁.Holds id' mmHash
      · have ⟨same, j, hj, identified⟩ := dropped₂ id' mmHash held h'
        exact ⟨same, j, mem_cons_of_mem i hj, identified⟩
      · have ⟨same, identified⟩ := dropped₁ id' mmHash h held
        exact ⟨same, i, mem_cons_self, identified⟩

end EncoderCacheManager

end VllmAmpere.Sched
