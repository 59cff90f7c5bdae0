import VllmAmpere.CPUOffloadingManager

/-! What holds of the policy of a CPU offload manager after every run: an invariant that its
methods keep where the manager calls them, and the count of idle chunks. -/

open List Function

namespace VllmAmpere.KVOffload.CPUOffloadingManager

open CachePolicy

variable {ι R K P : Type}

/-- What a call that only keeps records leaves as it is. -/
structure SamePool (m m' : CPUOffloadingManager R K P) : Prop where
  policy : m'.policy = m.policy
  numEvictable : m'.numEvictableCacheChunks = m.numEvictableCacheChunks

instance instReflSamePool : Std.Refl (SamePool : CPUOffloadingManager R K P → _ → Prop) :=
  ⟨fun _ => ⟨rfl, rfl⟩⟩

instance instIsTransSamePool : IsTrans (CPUOffloadingManager R K P) SamePool :=
  ⟨fun _ _ _ first second =>
    ⟨second.policy.trans first.policy, second.numEvictable.trans first.numEvictable⟩⟩

theorem keeps_allocateChunks (keys : List K) : PyM.Keeps SamePool
    (allocateChunks keys : PyM (CPUOffloadingManager R K P) (List ChunkStatus)) := by
  intro m
  unfold allocateChunks
  rw [PyM.run_get_bind]
  dsimp only
  unfold pyAssert
  split
  · exact ⟨rfl, rfl⟩
  · exact ⟨rfl, rfl⟩

theorem allocateChunks_new {keys : List K} {m m' : CPUOffloadingManager R K P}
    {chunks : List ChunkStatus} (h : (allocateChunks keys).run m = (.ok chunks, m')) :
    ∃ chunkIds : List Nat, chunks = chunkIds.map ChunkStatus.new := by
  unfold allocateChunks at h
  rw [PyM.run_get_bind] at h
  dsimp only at h
  unfold pyAssert at h
  split at h
  · cases h
    exact ⟨_, rfl⟩
  · cases h

variable {s : P} {m : CPUOffloadingManager R K P}

theorem run_onPolicy_bind {α β : Type} {x : PyM P α} {a : α} (h : x.run m.policy = (.ok a, s))
    (f : α → PyM (CPUOffloadingManager R K P) β) :
    (onPolicy x >>= f).run m = (f a).run { m with policy := s } := by
  rw [PyM.run_bind]
  simp only [onPolicy, h]

theorem run_onPolicy {α : Type} {x : PyM P α} {a : α} (h : x.run m.policy = (.ok a, s)) :
    (onPolicy x).run m = (.ok a, { m with policy := s }) := by
  simp only [onPolicy, h]

section

variable (view : P → K → Option ChunkStatus) (Inv : P → Prop)

def Idle (s : P) (key : K) : Prop := ∃ chunk, view s key = some chunk ∧ chunk.refCnt = 0

def IdleCount (s : P) (n : Int) : Prop :=
  ∃ idle : Finset K, (∀ key, key ∈ idle ↔ Idle view s key) ∧ n = idle.card

/-- The policy meets its invariant and the manager knows how many chunks are idle. -/
structure Coherent (m : CPUOffloadingManager R K P) : Prop where
  policy : Inv m.policy
  idle : IdleCount view m.policy m.numEvictableCacheChunks

def NoneAdded (m m' : CPUOffloadingManager R K P) : Prop :=
  ∀ key, view m.policy key = none → view m'.policy key = none

/-- A coherent manager stays coherent and gets no chunk. -/
abbrev Tame : CPUOffloadingManager R K P → CPUOffloadingManager R K P → Prop :=
  PyM.Under (Coherent view Inv) (NoneAdded view)

end

variable {view : P → K → Option ChunkStatus} {Inv : P → Prop}

instance instReflNoneAdded :
    Std.Refl (NoneAdded view : CPUOffloadingManager R K P → _ → Prop) := ⟨fun _ _ h => h⟩

instance instIsTransNoneAdded : IsTrans (CPUOffloadingManager R K P) (NoneAdded view) :=
  ⟨fun _ _ _ first second key h => second key (first key h)⟩

theorem SamePool.tame {m m' : CPUOffloadingManager R K P} (same : SamePool m m') :
    Tame view Inv m m' := by
  intro h
  refine ⟨fun key missing => ?_, ?_, ?_⟩
  · rw [same.policy]
    exact missing
  · rw [same.policy]
    exact h.policy
  · rw [same.policy, same.numEvictable]
    exact h.idle

theorem tame_of_same {α : Type} {x : PyM (CPUOffloadingManager R K P) α}
    (h : PyM.Keeps SamePool x) : PyM.Keeps (Tame view Inv) x := fun m => (h m).tame

/-! ### The idle count -/

variable {n : Int}

theorem IdleCount.congr {s s' : P} (h : IdleCount view s n)
    (same : view s' = view s) : IdleCount view s' n := by
  obtain ⟨idle, mem, count⟩ := h
  refine ⟨idle, fun key => ?_, count⟩
  rw [mem, Idle, Idle, same]

theorem tame_onPolicy {α : Type} {x : PyM P α} (quiet : Quiet view Inv x) :
    PyM.Keeps (Tame view Inv) (onPolicy x : PyM (CPUOffloadingManager R K P) α) := by
  intro m h
  obtain ⟨a, s', ran, inv, same⟩ := quiet m.policy h.policy
  rw [run_onPolicy ran]
  refine ⟨fun k missing => ?_, inv, h.idle.congr same⟩
  change view s' k = none
  rw [same, missing]

variable {key : K} {chunk : ChunkStatus}

theorem not_idle (found : view s key = some chunk) (busy : chunk.refCnt ≠ 0) : ¬Idle view s key := by
  rintro ⟨chunk', found', zero⟩
  rw [found] at found'
  cases found'
  exact busy zero

variable [DecidableEq K]

theorem IdleCount.erase {s t : P} (h : IdleCount view s n)
    (was : Idle view s key) (others : ∀ k, Idle view t k ↔ k ≠ key ∧ Idle view s k) :
    IdleCount view t (n - 1) ∧ 0 ≤ n - 1 := by
  obtain ⟨idle, mem, count⟩ := h
  have inside := (mem key).mpr was
  have size := Finset.card_erase_add_one inside
  refine ⟨⟨idle.erase key, fun k => ?_, ?_⟩, ?_⟩
  · rw [Finset.mem_erase, mem, others]
  · omega
  · omega

theorem IdleCount.insert {s t : P} (h : IdleCount view s n)
    (busy : ¬Idle view s key) (others : ∀ k, Idle view t k ↔ k = key ∨ Idle view s k) :
    IdleCount view t (n + 1) := by
  obtain ⟨idle, mem, count⟩ := h
  have outside : key ∉ idle := fun inside => busy ((mem key).mp inside)
  refine ⟨Insert.insert key idle, fun k => ?_, ?_⟩
  · rw [Finset.mem_insert, mem, others]
  · rw [Finset.card_insert_of_notMem outside]
    omega

theorem IdleCount.remove {s t : P} (h : IdleCount view s n) {keys : List K}
    (nodup : keys.Nodup) (were : ∀ key ∈ keys, Idle view s key)
    (others : ∀ k, Idle view t k ↔ k ∉ keys ∧ Idle view s k) :
    IdleCount view t (n - keys.length) ∧ 0 ≤ n - keys.length := by
  obtain ⟨idle, mem, count⟩ := h
  have inside : keys.toFinset ⊆ idle := by
    intro key hkey
    exact (mem key).mpr (were key (mem_toFinset.mp hkey))
  have size := Finset.card_sdiff_add_card_eq_card inside
  rw [toFinset_card_of_nodup nodup] at size
  refine ⟨⟨idle \ keys.toFinset, fun k => ?_, ?_⟩, ?_⟩
  · rw [Finset.mem_sdiff, mem, mem_toFinset, others, and_comm]
  · omega
  · omega

variable {policy : CachePolicy K P} (sound : policy.Sound view Inv)

include sound

theorem idle_setRefCnt (found : view s key = some chunk) (refCnt : Int32) (k : K) :
    Idle view (policy.setRefCnt key refCnt s) k ↔
    (k = key ∧ refCnt = 0) ∨ (k ≠ key ∧ Idle view s k) := by
  unfold Idle
  rw [sound.view_setRefCnt s key refCnt, update_apply]
  by_cases same : k = key
  · rw [if_pos same, found]
    simp [same]
  · rw [if_neg same]
    simp [same]

theorem view_setRefCnt_none (refCnt : Int32) {k : K}
    (missing : view s k = none) : view (policy.setRefCnt key refCnt s) k = none := by
  rw [sound.view_setRefCnt s key refCnt, update_apply]
  split
  next same => rw [← same, missing, Option.map_none]
  · exact missing

theorem IdleCount.setRefCnt (h : IdleCount view s n)
    (found : view s key = some chunk) (busy : chunk.refCnt ≠ 0)
    {refCnt : Int32} (used : refCnt ≠ 0) : IdleCount view (policy.setRefCnt key refCnt s) n := by
  obtain ⟨idle, mem, count⟩ := h
  refine ⟨idle, fun k => ?_, count⟩
  rw [mem, idle_setRefCnt sound found]
  constructor
  · intro was
    exact .inr ⟨fun same => not_idle found busy (same ▸ was), was⟩
  · rintro (⟨_, zero⟩ | ⟨_, was⟩)
    · exact absurd zero used
    · exact was

/-! ### The steps of the calls -/

theorem tame_loadKey (key : K) :
    PyM.Keeps (Tame view Inv) (loadKey policy key : PyM (CPUOffloadingManager R K P) _) := by
  intro m h
  unfold loadKey
  rw [PyM.run_get_bind, sound.get_eq]
  cases found : view m.policy key with
  | none => exact ⟨fun _ missing => missing, h⟩
  | some chunk =>
    dsimp only
    by_cases ready : chunk.IsReady
    · have used := ChunkStatus.refCnt_succ_ne_zero ready
      rw [pyAssert, if_pos ready, PyM.run_lift_ok_bind]
      by_cases idle : chunk.refCnt = 0
      · obtain ⟨s', ran, same, inv⟩ :=
          sound.pin m.policy key chunk (chunk.refCnt + 1) h.policy found idle used
        have found' : view s' key = some chunk := by rw [same, found]
        have count := (h.idle.congr same).erase (t := policy.setRefCnt key (chunk.refCnt + 1) s')
          ⟨chunk, found', idle⟩ fun k => by
            rw [idle_setRefCnt sound found']
            simp [used]
        rw [if_pos idle, run_onPolicy_bind ran, PyM.run_modify_bind, PyM.run_get_bind,
          pyAssert, if_pos count.2]
        refine ⟨fun k missing => ?_, inv, count.1⟩
        have missing' : view s' k = none := by rw [same, missing]
        exact view_setRefCnt_none sound _ missing'
      · rw [if_neg idle]
        exact ⟨fun k missing => view_setRefCnt_none sound _ missing,
          sound.reuse m.policy key chunk _ h.policy found idle used,
          h.idle.setRefCnt sound found idle used⟩
    · rw [pyAssert, if_neg ready]
      exact ⟨fun _ missing => missing, h⟩

theorem tame_release (h : Coherent view Inv m)
    (found : view m.policy key = some chunk) (busy : chunk.refCnt ≠ 0) :
    ∃ s', (policy.markEvictable key).run (policy.setRefCnt key 0 m.policy) = (.ok (), s') ∧
    (∀ k, view m.policy k = none → view s' k = none) ∧ Inv s' ∧
    IdleCount view s' (m.numEvictableCacheChunks + 1) := by
  obtain ⟨s', ran, inv, same⟩ := sound.release m.policy key chunk h.policy found busy
  refine ⟨s', ran, fun k missing => ?_, inv, ?_⟩
  · rw [same]
    exact view_setRefCnt_none sound 0 missing
  · have count := h.idle.insert (t := policy.setRefCnt key 0 m.policy) (not_idle found busy)
      fun k => by
        rw [idle_setRefCnt sound found]
        by_cases hk : k = key
        · simp [hk]
        · simp [hk]
    exact count.congr same

theorem tame_unloadKey (key : K) :
    PyM.Keeps (Tame view Inv) (unloadKey policy key : PyM (CPUOffloadingManager R K P) _) := by
  intro m h
  unfold unloadKey
  rw [PyM.run_get_bind, sound.get_eq]
  cases found : view m.policy key with
  | none => exact ⟨fun _ missing => missing, h⟩
  | some chunk =>
    dsimp only
    by_cases loading : chunk.refCnt > 0
    · have busy := ChunkStatus.refCnt_ne_zero_of_pos loading
      rw [pyAssert, if_pos loading, PyM.run_lift_ok_bind, PyM.run_modify_bind]
      by_cases last : chunk.refCnt - 1 = 0
      · obtain ⟨s', ran, kept, inv, count⟩ := tame_release sound h found busy
        rw [if_pos last, PyM.run_modify_bind, last, run_onPolicy ran]
        exact ⟨kept, inv, count⟩
      · rw [if_neg last]
        exact ⟨fun k missing => view_setRefCnt_none sound _ missing,
          sound.reuse m.policy key chunk _ h.policy found busy last,
          h.idle.setRefCnt sound found busy last⟩
    · rw [pyAssert, if_neg loading]
      exact ⟨fun _ missing => missing, h⟩

theorem tame_storedKey (key : K) :
    PyM.Keeps (Tame view Inv) (storedKey policy key : PyM (CPUOffloadingManager R K P) _) := by
  intro m h
  unfold storedKey
  rw [PyM.run_get_bind, sound.get_eq]
  cases found : view m.policy key with
  | none => exact ⟨fun _ missing => missing, h⟩
  | some chunk =>
    dsimp only
    by_cases ready : chunk.IsReady
    · rw [if_pos ready]
      exact ⟨fun _ missing => missing, h⟩
    · obtain ⟨s', ran, kept, inv, count⟩ :=
        tame_release sound h found (ChunkStatus.refCnt_ne_zero ready)
      rw [if_neg ready, PyM.run_modify_bind, PyM.run_modify_bind, run_onPolicy_bind ran]
      exact ⟨kept, inv, count⟩

theorem tame_unstoredKey (key : K) :
    PyM.Keeps (Tame view Inv) (unstoredKey policy key : PyM (CPUOffloadingManager R K P) _) := by
  intro m h
  unfold unstoredKey
  rw [PyM.run_get_bind, sound.get_eq]
  cases found : view m.policy key with
  | none => exact ⟨fun _ missing => missing, h⟩
  | some chunk =>
    dsimp only
    by_cases ready : chunk.IsReady
    · rw [if_pos ready]
      exact ⟨fun _ missing => missing, h⟩
    · obtain ⟨s', ran, inv, gone⟩ := sound.remove m.policy key chunk h.policy found ready
      have busy := not_idle found (ChunkStatus.refCnt_ne_zero ready)
      rw [if_neg ready, run_onPolicy_bind ran]
      refine ⟨fun k missing => ?_, inv, ?_⟩
      · change view s' k = none
        rw [gone, update_apply, missing, ite_self]
      · obtain ⟨idle, mem, count⟩ := h.idle
        refine ⟨idle, fun k => ?_, count⟩
        change _ ↔ Idle view s' k
        rw [mem, Idle, Idle, gone, update_apply]
        split
        next same =>
          rw [same]
          refine ⟨fun was => absurd was busy, ?_⟩
          rintro ⟨_, e, _⟩
          cases e
        · rfl

theorem tame_makeRoom (needed : Int) (keys : List K) : PyM.Keeps (Tame view Inv)
    (makeRoom policy needed keys : PyM (CPUOffloadingManager R K P) _) := by
  intro m h
  unfold makeRoom
  by_cases short : needed > 0
  · rw [if_pos short, PyM.run_get_bind]
    by_cases hopeless : needed > m.numEvictableCacheChunks
    · rw [if_pos hopeless]
      exact ⟨fun _ missing => missing, h⟩
    · obtain ⟨result, s', ran, inv, what⟩ := sound.evict m.policy needed.toNat keys h.policy
      rw [if_neg hopeless, run_onPolicy_bind ran]
      cases result with
      | none =>
        refine ⟨fun k missing => ?_, inv, h.idle.congr what⟩
        change view s' k = none
        rw [what, missing]
      | some evicted =>
        obtain ⟨_, nodup, chosen, gone⟩ := what
        have count := h.idle.remove (t := s') nodup
          (fun key hkey => by
            obtain ⟨pair, hpair, e⟩ := mem_map.mp hkey
            obtain ⟨_, found, zero⟩ := chosen pair hpair
            exact ⟨pair.2, e ▸ found, zero⟩)
          (fun k => by
            rw [Idle, gone]
            dsimp only
            split
            next out => simp [out]
            next stays => simp [stays, Idle])
        rw [length_map] at count
        dsimp only
        rw [PyM.run_modify_bind, PyM.run_get_bind, pyAssert, if_pos count.2,
          PyM.run_lift_ok_bind]
        have freed : ∀ (pairs : List (K × ChunkStatus)) (m' : CPUOffloadingManager R K P),
            SamePool m' ((PyM.forEach (fun pair => PyM.modify (freeChunk pair.2)) pairs).run m').2 :=
          PyM.keeps_forEach fun pair m' => ⟨rfl, rfl⟩
        refine PyM.keeps_behind (R := Tame view Inv) (s := { m with
            policy := s'
            numEvictableCacheChunks := m.numEvictableCacheChunks - evicted.length })
          (freed _ _).tame (fun _ => PyM.keeps_pure _) ?_ |>.imp ?_ id
        · exact ⟨inv, count.1⟩
        · intro kept k missing
          refine kept k ?_
          change view s' k = none
          rw [gone]
          dsimp only
          rw [missing, ite_self]
  · rw [if_neg short]
    exact ⟨fun _ missing => missing, h⟩

omit sound [DecidableEq K] in
theorem keeps_getRequestCacheAccess [DecidableEq R] (reqId : R) : PyM.Keeps SamePool
    (getRequestCacheAccess reqId : PyM (CPUOffloadingManager R K P) (RequestCacheAccess K)) := by
  intro m
  unfold getRequestCacheAccess
  rw [PyM.run_get_bind]
  cases m.accesses reqId with
  | none => exact ⟨rfl, rfl⟩
  | some state =>
    dsimp only
    split
    · exact ⟨rfl, rfl⟩
    · exact ⟨rfl, rfl⟩

omit sound in
theorem keeps_recordKey [DecidableEq R] (groupIdx : K → Nat) (reqId : R) (key : K) :
    PyM.Keeps SamePool (recordKey groupIdx reqId key : PyM (CPUOffloadingManager R K P) Unit) := by
  refine (keeps_getRequestCacheAccess reqId).bind fun state => ?_
  split
  · exact PyM.keeps_pure ()
  · exact (PyM.keeps_lift _).bind fun _ => fun _ => ⟨rfl, rfl⟩

omit sound in
theorem keeps_recordRequestCacheAccess [DecidableEq R] (groupIdx : K → Nat) (keys : List K)
    (reqId : R) (insertedKeys reusedKeys : List K) : PyM.Keeps SamePool
    (recordRequestCacheAccess groupIdx keys reqId insertedKeys reusedKeys :
    PyM (CPUOffloadingManager R K P) Unit) :=
  (PyM.keeps_forEach (keeps_recordKey groupIdx reqId) keys).bind fun _ =>
    (keeps_getRequestCacheAccess reqId).bind fun _ => fun _ => ⟨rfl, rfl⟩

omit sound in
theorem keeps_trackOffer (keys : List K) :
    PyM.Keeps SamePool (trackOffer keys : PyM (CPUOffloadingManager R K P) Unit) := by
  intro m
  unfold trackOffer
  rw [PyM.run_get_bind]
  cases m.counts with
  | none => exact ⟨rfl, rfl⟩
  | some counts =>
    dsimp only
    cases recordAccesses m.maxTrackerSize keys counts with
    | error e => exact ⟨rfl, rfl⟩
    | ok counts => exact ⟨rfl, rfl⟩

/-! ### The calls -/

section

variable [DecidableEq R] (groupIdx : K → Nat)

theorem tame_reportMisses (keysToStore : List K) (reqId : R) : PyM.Keeps (Tame view Inv)
    (reportMisses policy keysToStore reqId : PyM (CPUOffloadingManager R K P) Unit) := by
  refine (tame_of_same (keeps_getRequestCacheAccess reqId)).bind fun state => ?_
  dsimp only
  split
  · exact PyM.keeps_pure ()
  · refine (tame_onPolicy (sound.onStoreMiss _)).bind fun _ => ?_
    exact fun m => SamePool.tame ⟨rfl, rfl⟩

theorem coherent_insertChunks (h : Coherent view Inv m)
    {keysToStore : List K} (reqId : R) (fresh : ∀ key ∈ keysToStore, view m.policy key = none) :
    Coherent view Inv ((insertChunks policy keysToStore reqId).run m).2 := by
  unfold insertChunks
  rw [PyM.run_bind]
  have allocated := (keeps_allocateChunks keysToStore) m
  cases ran : (allocateChunks keysToStore).run m with
  | mk result m' =>
    rw [ran] at allocated
    have h' := (allocated.tame h).2
    cases result with
    | error e => exact h'
    | ok chunks =>
      obtain ⟨chunkIds, rfl⟩ := allocateChunks_new ran
      dsimp only
      unfold pyAssert
      split
      · rw [PyM.run_lift_ok_bind]
        have pairs : (PyM.forEach (fun pair : K × ChunkStatus => policy.insert pair.1 pair.2)
            (keysToStore.zip (chunkIds.map ChunkStatus.new))) =
            PyM.forEach (fun pair : K × Nat => policy.insert pair.1 (ChunkStatus.new pair.2))
              (keysToStore.zip chunkIds) := by
          rw [zip_map_right, PyM.forEach_map]
          rfl
        have absent : ∀ pair ∈ keysToStore.zip chunkIds, view m'.policy pair.1 = none := by
          intro pair hpair
          rw [allocated.policy]
          exact fresh _ (of_mem_zip hpair).1
        obtain ⟨s', inserted, inv, others, new⟩ :=
          sound.insert m'.policy (keysToStore.zip chunkIds) h'.policy absent
        rw [pairs, run_onPolicy_bind inserted]
        have after : Coherent view Inv { m' with policy := s' } := by
          refine ⟨inv, ?_⟩
          obtain ⟨idle, mem, count⟩ := h'.idle
          refine ⟨idle, fun k => ?_, count⟩
          rw [mem]
          by_cases hk : k ∈ (keysToStore.zip chunkIds).map Prod.fst
          · obtain ⟨chunkId, found⟩ := new k hk
            obtain ⟨pair, hpair, e⟩ := mem_map.mp hk
            have was := absent pair hpair
            constructor
            · rintro ⟨chunk, found', _⟩
              rw [← e, was] at found'
              cases found'
            · intro is
              exact absurd is (not_idle found
                (ChunkStatus.refCnt_ne_zero (ChunkStatus.new_not_ready chunkId)))
          · rw [Idle, Idle, others k hk]
        refine (PyM.keeps_behind (R := Tame view Inv)
          (tame_of_same (keeps_getRequestCacheAccess reqId) _) (fun state => ?_) after).2
        exact (PyM.Keeps.bind (fun m => SamePool.tame ⟨rfl, rfl⟩) fun _ => PyM.keeps_pure _)
      · exact h'

omit [DecidableEq R] in
theorem storeCandidates_missing {keys : List K} {key : K}
    (h : key ∈ storeCandidates policy m keys) : view m.policy key = none := by
  have listed : key ∈ keys.filter fun key => policy.get m.policy key = none := by
    unfold storeCandidates admitted at h
    split at h
    · exact mem_of_mem_filter h
    · exact h
  have missing := (mem_filter.mp listed).2
  rw [sound.get_eq] at missing
  exact of_decide_eq_true missing

omit sound [DecidableEq R] [DecidableEq K] in
theorem Coherent.bind {α β : Type} {x : PyM (CPUOffloadingManager R K P) α}
    {f : α → PyM (CPUOffloadingManager R K P) β}
    (h : Coherent view Inv m) (tame : PyM.Keeps (Tame view Inv) x)
    (after : ∀ a m', Coherent view Inv m' → NoneAdded view m m' →
    Coherent view Inv ((f a).run m').2) : Coherent view Inv ((x >>= f).run m).2 := by
  obtain ⟨kept, h'⟩ := tame m h
  rw [PyM.run_bind]
  generalize x.run m = result at kept h'
  obtain ⟨result, m'⟩ := result
  cases result with
  | error e => exact h'
  | ok a => exact after a m' h' kept

theorem coherent_prepareStore (h : Coherent view Inv m) (keys : List K) (req : ReqContext R K) :
    Coherent view Inv ((prepareStore policy groupIdx keys req).run m).2 := by
  refine h.bind (tame_of_same (keeps_trackOffer keys)) fun _ m h _ => ?_
  rw [PyM.run_get_bind]
  dsimp only
  have missing : ∀ key ∈ storeCandidates policy m keys, view m.policy key = none :=
    fun key => storeCandidates_missing sound
  generalize storeCandidates policy m keys = keysToStore at missing
  generalize readyExisting policy m keys = readyExistingKeys
  -- the keys to store stay missing up to their insertion
  refine h.bind (tame_reportMisses sound keysToStore req.reqId) fun _ m h kept => ?_
  replace missing := fun key hkey => kept key (missing key hkey)
  refine h.bind (tame_of_same (keeps_recordRequestCacheAccess groupIdx _ req.reqId [] _))
    fun _ m h kept => ?_
  replace missing := fun key hkey => kept key (missing key hkey)
  split
  · exact h
  · rw [PyM.run_get_bind]
    refine h.bind (tame_makeRoom sound _ keys) fun room m h kept => ?_
    replace missing := fun key hkey => kept key (missing key hkey)
    cases room with
    | none => exact h
    | some toEvict =>
      refine h.bind (x := PyM.modify (recordEvent toEvict true))
        (fun _ => SamePool.tame ⟨rfl, rfl⟩) fun _ m h kept => ?_
      replace missing := fun key hkey => kept key (missing key hkey)
      have inserted := coherent_insertChunks sound h req.reqId missing
      rw [PyM.run_bind]
      generalize (insertChunks policy keysToStore req.reqId).run m = result at inserted
      obtain ⟨result, m'⟩ := result
      cases result with
      | error e => exact inserted
      | ok spec => exact inserted

theorem tame_onRequestFinished (req : ReqContext R K) : PyM.Keeps (Tame view Inv)
    (onRequestFinished policy req : PyM (CPUOffloadingManager R K P) Unit) := by
  intro m
  unfold onRequestFinished
  rw [PyM.run_get_bind]
  cases m.accesses req.reqId with
  | none => exact SamePool.tame ⟨rfl, rfl⟩
  | some state =>
    dsimp only
    split
    · exact SamePool.tame ⟨rfl, rfl⟩
    · exact PyM.keeps_behind (x := PyM.set (m.setAccess req.reqId { state with finished := true }))
        (SamePool.tame ⟨rfl, rfl⟩)
        (fun _ => tame_onPolicy (sound.onRequestFinished _ _ _ req.position))

theorem Coherent.call (h : Coherent view Inv m)
    (c : Call R K) : Coherent view Inv (call policy groupIdx m c) := by
  have of_tame : ∀ {α : Type} {x : PyM (CPUOffloadingManager R K P) α},
      PyM.Keeps (Tame view Inv) x → Coherent view Inv (x.run m).2 := fun tame => (tame m h).2
  cases c with
  | onNewRequest req => exact of_tame (tame_of_same (keeps_getRequestCacheAccess req.reqId))
  | lookup key => exact h
  | prepareLoad keys req recordAccess =>
    refine of_tame ((PyM.keeps_collect (tame_loadKey sound) keys).bind fun _ => ?_)
    split
    · exact (tame_of_same (keeps_recordRequestCacheAccess groupIdx keys req.reqId [] keys)).bind
        fun _ => PyM.keeps_pure _
    · exact (PyM.keeps_pure _).bind fun _ => PyM.keeps_pure _
  | touch keys => exact of_tame (tame_onPolicy (sound.touch keys))
  | completeLoad keys => exact of_tame (PyM.keeps_forEach (tame_unloadKey sound) keys)
  | prepareStore keys req => exact coherent_prepareStore sound groupIdx h keys req
  | completeStore keys success =>
    refine of_tame ?_
    cases success with
    | false => exact PyM.keeps_forEach (tame_unstoredKey sound) keys
    | true =>
      exact (PyM.keeps_collect (tame_storedKey sound) keys).bind
        fun _ m => SamePool.tame ⟨rfl, rfl⟩
  | onRequestFinished req => exact of_tame (tame_onRequestFinished sound req)
  | resetCache =>
    obtain ⟨inv, cleared⟩ := sound.clear m.policy h.policy
    refine ⟨inv, ∅, fun key => ?_, rfl⟩
    change key ∈ ∅ ↔ Idle view (policy.clear m.policy) key
    rw [Idle, cleared]
    simp
  | takeEvents => exact ⟨h.policy, h.idle⟩
  | contextLost reqId => exact ⟨h.policy, h.idle⟩

end

omit sound in
theorem coherent_of_reachable [DecidableEq R] {policies : ι → CachePolicy K P}
    {groupIdx : K → Nat} {start : Nat → P} (sound : ∀ i, (policies i).Sound view Inv)
    (fresh : ∀ numChunks, Inv (start numChunks) ∧ ∀ key, view (start numChunks) key = none)
    (h : (runs policies groupIdx start).Reachable m) : Coherent view Inv m := by
  refine h.invariant ?_ ?_
  · rintro m ⟨numChunks, enableEvents, storeThreshold, maxTrackerSize, rfl⟩
    obtain ⟨inv, empty⟩ := fresh numChunks
    refine ⟨inv, ∅, fun key => ?_, rfl⟩
    change key ∈ ∅ ↔ Idle view (start numChunks) key
    rw [Idle, empty]
    simp
  · rintro m label m' _ coherent rfl
    exact coherent.call (sound label.1) groupIdx label.2

end VllmAmpere.KVOffload.CPUOffloadingManager
