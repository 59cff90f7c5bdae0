import VllmAmpere.LRUCachePolicy

/-! Evictions of the LRU policy: the pops of the lazy heap select the evictable keys of
the smallest ranks, over every run of the manager. -/

open List Function

namespace VllmAmpere.KVOffload.LRUCachePolicy

variable {K : Type} [LinearOrder K] {s : LRUCachePolicy K} {protectedKeys : List K}

theorem mem_evictionOrder {key : K} :
    key ∈ s.evictionOrder protectedKeys ↔ key ∈ s.evictable ∧ key ∉ protectedKeys := by
  rw [evictionOrder, mem_mergeSort, mem_filter, decide_eq_true_iff]

theorem evictionOrder_sorted :
    (s.evictionOrder protectedKeys).Pairwise fun key key' => s.rankOf key ≤ s.rankOf key' := by
  have sorted := @pairwise_mergeSort _
    (fun key key' => decide (s.rankOf key ≤ s.rankOf key'))
    (fun a b c first second => by
      rw [decide_eq_true_iff] at first second ⊢
      exact first.trans second)
    (fun a b => by
      rw [Bool.or_eq_true, decide_eq_true_iff, decide_eq_true_iff]
      exact le_total _ _)
    (s.evictable.filter fun key => key ∉ protectedKeys)
  exact sorted.imp fun h => of_decide_eq_true h

theorem evictionOrder_nodup (h : Ranked s) : (s.evictionOrder protectedKeys).Nodup :=
  (mergeSort_perm _ _).nodup_iff.mpr (h.distinct.filter _)

theorem eq_take_evictionOrder (h : Ranked s) {keys : List K}
    (sorted : keys.Pairwise fun key key' => s.rankOf key < s.rankOf key')
    (inside : ∀ key ∈ keys, key ∈ s.evictionOrder protectedKeys)
    (others : ∀ key ∈ s.evictionOrder protectedKeys, key ∉ keys →
    ∀ first ∈ keys, s.rankOf first ≤ s.rankOf key) :
    keys = (s.evictionOrder protectedKeys).take keys.length := by
  have nodup : keys.Nodup := sorted.imp fun lt same => by
    rw [same] at lt
    exact lt.false
  have all : (s.evictionOrder protectedKeys).Nodup := evictionOrder_nodup h
  have perm : (s.evictionOrder protectedKeys).Perm
      (keys ++ (s.evictionOrder protectedKeys).filter fun key => key ∉ keys) := by
    refine (perm_ext_iff_of_nodup all ?_).mpr fun key => ?_
    · refine nodup_append.mpr ⟨nodup, all.filter _, fun a ha b hb same => ?_⟩
      have out := of_decide_eq_true (mem_filter.mp hb).2
      exact out (same ▸ ha)
    · rw [mem_append, mem_filter, decide_eq_true_iff]
      by_cases hk : key ∈ keys
      · simp [hk, inside key hk]
      · simp [hk]
  have split := perm.eq_of_pairwise
    (fun a b ha hb le ge => by
      have ha' := (mem_evictionOrder.mp ha).1
      have hb' := (mem_evictionOrder.mp (perm.mem_iff.mpr hb)).1
      exact h.rankOf_inj ha' hb' (le_antisymm le ge))
    evictionOrder_sorted
    (by
      refine pairwise_append.mpr ⟨sorted.imp le_of_lt, evictionOrder_sorted.filter _, ?_⟩
      intro first hfirst key hkey
      obtain ⟨listed, out⟩ := mem_filter.mp hkey
      exact others key listed (of_decide_eq_true out) first hfirst)
  rw [split, take_left]

/-- What the pops of an eviction have found. -/
structure Selection (s : LRUCachePolicy K) (protectedKeys : List K)
    (selected : List ((Nat × K) × ChunkStatus)) (deferred : List (Nat × K)) : Prop where
  isHeap : Heapq.IsHeap entryKey s.heap
  chosen : ∀ item ∈ selected, IsCurrent s item.1 ∧ item.1.2 ∉ protectedKeys ∧
    s.chunks.get? item.1.2 = some item.2
  sorted : selected.Pairwise fun item item' => item.1.1 < item'.1.1
  behind : ∀ item ∈ selected, ∀ entry ∈ s.heap, entryKey item.1 ≤ entryKey entry
  held : ∀ entry ∈ deferred, entry.2 ∈ protectedKeys
  covered : ∀ key ∈ s.evictable, s.entryOf key ∈ s.heap ∨
    s.entryOf key ∈ selected.map Prod.fst ∨ s.entryOf key ∈ deferred

theorem isCurrent_entryOf (h : Ranked s) {key : K} (hkey : key ∈ s.evictable) :
    IsCurrent s (s.entryOf key) := ⟨hkey, h.rank hkey⟩

theorem IsCurrent.eq_entryOf {entry : Nat × K} (h : IsCurrent s entry) :
    entry = s.entryOf entry.2 := by
  rw [entryOf, rankOf, h.2, Option.getD_some]

variable {selected : List ((Nat × K) × ChunkStatus)} {deferred : List (Nat × K)}
  {entry : Nat × K} {heap : List (Nat × K)}

theorem Selection.pop (sel : Selection s protectedKeys selected deferred)
    (perm : (entry :: heap).Perm s.heap) (isHeap : Heapq.IsHeap entryKey heap)
    (more : List (Nat × K)) (held : ∀ entry ∈ more, entry.2 ∈ protectedKeys)
    (kept : ∀ key ∈ s.evictable, s.entryOf key = entry →
    entry ∈ selected.map Prod.fst ∨ entry ∈ more) :
    Selection { s with heap := heap } protectedKeys selected (deferred ++ more) := by
  refine ⟨isHeap, sel.chosen, sel.sorted, fun item hitem e he => ?_, ?_, fun key hkey => ?_⟩
  · exact sel.behind item hitem e (perm.subset (mem_cons_of_mem _ he))
  · intro e he
    cases mem_append.mp he with
    | inl old => exact sel.held e old
    | inr new => exact held e new
  · rw [mem_append]
    change s.entryOf key ∈ heap ∨ s.entryOf key ∈ _ ∨ s.entryOf key ∈ _ ∨ s.entryOf key ∈ _
    rcases sel.covered key hkey with inHeap | chosen | later
    · cases mem_cons.mp (perm.mem_iff.mpr inHeap) with
      | inl popped =>
        rw [popped]
        cases kept key hkey popped with
        | inl chosen => exact .inr (.inl chosen)
        | inr more => exact .inr (.inr (.inr more))
      | inr rest => exact .inl rest
    · exact .inr (.inl chosen)
    · exact .inr (.inr (.inl later))

theorem Selection.select (h : Ranked s) (sel : Selection s protectedKeys selected deferred)
    (perm : (entry :: heap).Perm s.heap) (isHeap : Heapq.IsHeap entryKey heap)
    (least : ∀ e ∈ s.heap, entryKey entry ≤ entryKey e) (current : IsCurrent s entry)
    (new : entry.2 ∉ selected.map fun item => item.1.2) (free : entry.2 ∉ protectedKeys)
    {chunk : ChunkStatus} (found : s.chunks.get? entry.2 = some chunk) :
    Selection { s with heap := heap } protectedKeys (selected ++ [(entry, chunk)]) deferred := by
  have inHeap : entry ∈ s.heap := perm.mem_iff.mp mem_cons_self
  refine ⟨isHeap, fun item hitem => ?_, ?_, fun item hitem e he => ?_, sel.held,
    fun key hkey => ?_⟩
  · cases mem_append.mp hitem with
    | inl old => exact sel.chosen item old
    | inr last =>
      rw [mem_singleton.mp last]
      exact ⟨current, free, found⟩
  · refine pairwise_append.mpr ⟨sel.sorted, pairwise_singleton _ _, ?_⟩
    intro item hitem last hlast
    rw [mem_singleton.mp hlast]
    have before := sel.behind item hitem entry inHeap
    rw [Prod.Lex.le_iff] at before
    cases before with
    | inl lt => exact lt
    | inr tie =>
      have same : item.1.1 = entry.1 := tie.1
      have rank := (sel.chosen item hitem).1.2
      rw [same] at rank
      have key := h.injective item.1.2 entry.2 entry.1 rank current.2
      exact absurd (mem_map.mpr ⟨item, hitem, key⟩) new
  · have he' : e ∈ s.heap := perm.subset (mem_cons_of_mem _ he)
    cases mem_append.mp hitem with
    | inl old => exact sel.behind item old e he'
    | inr last =>
      rw [mem_singleton.mp last]
      exact least e he'
  · rw [map_append, mem_append]
    change s.entryOf key ∈ heap ∨ (s.entryOf key ∈ _ ∨ s.entryOf key ∈ [entry]) ∨ _
    rcases sel.covered key hkey with inHeap | chosen | later
    · cases mem_cons.mp (perm.mem_iff.mpr inHeap) with
      | inl popped => exact .inr (.inl (.inr (mem_singleton.mpr popped)))
      | inr rest => exact .inl rest
    · exact .inr (.inl (.inl chosen))
    · exact .inr (.inr later)

theorem selectEntries_run {n fuel : Nat} (h : Ranked s)
    (sel : Selection s protectedKeys selected deferred) (few : selected.length ≤ n)
    (enough : s.heap.length ≤ fuel) : ∃ selected' deferred' heap,
      (selectEntries n protectedKeys fuel selected (selected.map fun item => item.1.2)
          deferred).run s = (.ok (selected', deferred'), { s with heap := heap }) ∧
        Selection { s with heap := heap } protectedKeys selected' deferred' ∧
        selected'.length ≤ n ∧ (selected'.length < n → heap = []) := by
  induction fuel generalizing s selected deferred with
  | zero =>
    exact ⟨selected, deferred, s.heap, rfl, sel, few,
      fun _ => length_eq_zero_iff.mp (Nat.le_zero.mp enough)⟩
  | succ fuel ih =>
    rw [selectEntries, PyM.run_get_bind]
    by_cases short : selected.length < n
    · rw [if_pos short]
      by_cases empty : s.heap = []
      · rw [empty]
        exact ⟨selected, deferred, s.heap, rfl, sel, few, fun _ => empty⟩
      · obtain ⟨entry, heap, popped, _, isHeap, perm, least⟩ := Heapq.heappop_ok sel.isHeap empty
        have fewer : heap.length ≤ fuel := by
          have := perm.length_eq
          rw [length_cons] at this
          omega
        rw [popped]
        dsimp only
        rw [PyM.run_set_bind]
        by_cases current : IsCurrent s entry
        · rw [if_neg (not_not.mpr current)]
          by_cases again : entry.2 ∈ selected.map fun item => item.1.2
          · rw [if_pos again]
            obtain ⟨item, hitem, same⟩ := mem_map.mp again
            have twin : item.1 = entry := by
              rw [(sel.chosen item hitem).1.eq_entryOf, current.eq_entryOf, same]
            have sel' := sel.pop perm isHeap [] (by simp) fun key _ _ =>
              .inl (mem_map.mpr ⟨item, hitem, twin⟩)
            rw [append_nil] at sel'
            exact ih (h.with_heap heap) sel' few fewer
          · rw [if_neg again]
            by_cases safe : entry.2 ∈ protectedKeys
            · rw [if_pos safe]
              have sel' := sel.pop perm isHeap [entry]
                (fun e he => mem_singleton.mp he ▸ safe)
                fun key _ _ => .inr (mem_singleton.mpr rfl)
              exact ih (h.with_heap heap) sel' few fewer
            · rw [if_neg safe]
              obtain ⟨chunk, found, idle⟩ := (h.idle entry.2).mp current.1
              have sel' := sel.select h perm isHeap least current again safe found
              have few' : (selected ++ [(entry, chunk)]).length ≤ n := by
                rw [length_append, length_singleton]
                exact short
              rw [PyDict.getItem_ok.mpr found, PyM.run_lift_ok_bind, pyAssert, if_pos idle,
                PyM.run_lift_ok_bind]
              have after := ih (h.with_heap heap) sel' few' fewer
              rw [map_append] at after
              exact after
        · rw [if_pos current]
          have sel' := sel.pop perm isHeap [] (by simp) fun key hkey same =>
            absurd (same ▸ isCurrent_entryOf h hkey) current
          rw [append_nil] at sel'
          exact ih (h.with_heap heap) sel' few fewer
    · rw [if_neg short]
      exact ⟨selected, deferred, s.heap, rfl, sel, few, fun lt => absurd lt short⟩

/-- The entries selected so far are the first to be evicted, and all when the heap is empty. -/
theorem Selection.keys_eq (h : Ranked s) (sel : Selection s protectedKeys selected deferred) :
    (selected.map fun item => item.1.2) = (s.evictionOrder protectedKeys).take selected.length ∧
    (s.heap = [] → (s.evictionOrder protectedKeys).length = selected.length) := by
  have rank : ∀ item ∈ selected, s.rankOf item.1.2 = item.1.1 := by
    intro item hitem
    rw [rankOf, (sel.chosen item hitem).1.2, Option.getD_some]
  have inside : ∀ key ∈ selected.map fun item => item.1.2,
      key ∈ s.evictionOrder protectedKeys := by
    intro key hkey
    obtain ⟨item, hitem, rfl⟩ := mem_map.mp hkey
    obtain ⟨current, free, _⟩ := sel.chosen item hitem
    exact mem_evictionOrder.mpr ⟨current.1, free⟩
  have sorted : (selected.map fun item => item.1.2).Pairwise
      fun key key' => s.rankOf key < s.rankOf key' := by
    refine pairwise_map.mpr (sel.sorted.imp_of_mem fun hitem hitem' lt => ?_)
    rw [rank _ hitem, rank _ hitem']
    exact lt
  -- a key that is not selected still has its entry in the heap
  have waiting : ∀ key ∈ s.evictionOrder protectedKeys,
      (key ∉ selected.map fun item => item.1.2) → s.entryOf key ∈ s.heap := by
    intro key hkey out
    obtain ⟨evictable, free⟩ := mem_evictionOrder.mp hkey
    rcases sel.covered key evictable with inHeap | chosen | later
    · exact inHeap
    · obtain ⟨item, hitem, same⟩ := mem_map.mp chosen
      refine absurd (mem_map.mpr ⟨item, hitem, ?_⟩) out
      rw [same]
      rfl
    · exact absurd (sel.held _ later) free
  have first := eq_take_evictionOrder h sorted inside fun key hkey out chosen hchosen => by
    obtain ⟨item, hitem, rfl⟩ := mem_map.mp hchosen
    have behind := Prod.Lex.monotone_fst _ _ (sel.behind item hitem _ (waiting key hkey out))
    rw [rank item hitem]
    exact behind
  rw [length_map] at first
  refine ⟨first, fun empty => ?_⟩
  have all : ∀ key ∈ s.evictionOrder protectedKeys, key ∈ selected.map fun item => item.1.2 := by
    intro key hkey
    by_contra out
    have := waiting key hkey out
    rw [empty] at this
    cases this
  have le := (evictionOrder_nodup h).subperm all
  have ge := congrArg List.length first
  have := le.length_le
  rw [length_map] at this ge
  rw [length_take] at ge
  omega

/-- What a manager can tell of a policy. -/
structure SameObservables (s s' : LRUCachePolicy K) : Prop where
  chunks : s'.chunks = s.chunks
  ranks : s'.ranks = s.ranks
  evictable : s'.evictable = s.evictable
  nextRank : s'.nextRank = s.nextRank

/-- Some keys are gone, the others are as they were. -/
structure Drops (keys : List K) (s s' : LRUCachePolicy K) : Prop where
  chunks : ∀ key, s'.chunks.get? key = if key ∈ keys then none else s.chunks.get? key
  ranks : ∀ key, s'.ranks.get? key = if key ∈ keys then none else s.ranks.get? key
  evictable : s'.evictable = s.evictable.filter fun key => key ∉ keys
  nextRank : s'.nextRank = s.nextRank

theorem pushEntries_run (entries : List (Nat × K)) (isHeap : Heapq.IsHeap entryKey s.heap) :
    ∃ heap, (PyM.forEach (fun entry => PyM.modify (pushEntry entry)) entries).run s =
        (.ok (), { s with heap := heap }) ∧ Heapq.IsHeap entryKey heap ∧
      ∀ entry, entry ∈ heap ↔ entry ∈ s.heap ∨ entry ∈ entries := by
  induction entries generalizing s with
  | nil => exact ⟨s.heap, rfl, isHeap, fun entry => by simp⟩
  | cons first entries ih =>
    obtain ⟨heap, ran, isHeap', mem⟩ :=
      ih (s := pushEntry first s) (Heapq.heappush_isHeap isHeap first)
    refine ⟨heap, ran, isHeap', fun entry => ?_⟩
    rw [mem, pushEntry, mem_heappush, mem_cons, or_comm (a := entry = _), or_assoc]

theorem dropKey_run (h : Ranked s) {key : K} (hkey : key ∈ s.evictable) :
    (dropKey key).run s = (.ok (), { s with
      evictable := s.evictable.erase key
      chunks := s.chunks.pop key
      ranks := s.ranks.pop key }) := by
  obtain ⟨chunk, found, _⟩ := (h.idle key).mp hkey
  unfold dropKey removeEvictable
  rw [PyM.run_bind, PyM.run_get_bind, if_pos hkey]
  change (_ : PyM (LRUCachePolicy K) Unit).run { s with evictable := s.evictable.erase key } = _
  rw [PyM.run_get_bind, PyDict.getItem_ok.mpr found, PyM.run_lift_ok_bind, PyM.run_set_bind,
    PyM.run_get_bind]
  have rank := h.rank hkey
  rw [PyDict.getItem_ok.mpr rank, PyM.run_lift_ok_bind]
  rfl

theorem Ranked.drop (h : Ranked s) (key : K) :
    Ranked { s with
      evictable := s.evictable.erase key
      chunks := s.chunks.pop key
      ranks := s.ranks.pop key } := by
  refine ⟨fun k => ?_, h.distinct.erase key, fun k => ?_, fun k k' rank first second => ?_,
    fun k rank found => ?_⟩
  · dsimp only
    rw [PyDict.get?_pop, PyDict.get?_pop]
    split
    · rfl
    · exact h.ranked k
  · dsimp only
    rw [h.distinct.mem_erase_iff, PyDict.get?_pop, h.idle]
    by_cases same : k = key
    · simp [same]
    · simp [same]
  · dsimp only at first second
    rw [PyDict.get?_pop] at first second
    split at first
    · cases first
    · split at second
      · cases second
      · exact h.injective k k' rank first second
  · dsimp only at found
    rw [PyDict.get?_pop] at found
    split at found
    · cases found
    · exact h.bounded k rank found

theorem dropKeys_run {keys : List K} (h : Ranked s) (nodup : keys.Nodup)
    (inside : ∀ key ∈ keys, key ∈ s.evictable) :
    ∃ s', (PyM.forEach dropKey keys).run s = (.ok (), s') ∧ Ranked s' ∧ Drops keys s s' ∧
    s'.heap = s.heap := by
  induction keys generalizing s with
  | nil => exact ⟨s, rfl, h, ⟨by simp, by simp, by simp, rfl⟩, rfl⟩
  | cons key keys ih =>
    obtain ⟨out, nodup⟩ := nodup_cons.mp nodup
    obtain ⟨s', ran, ranked, drops, heap⟩ := ih (h.drop key) nodup fun k hk => by
      refine (h.distinct.mem_erase_iff).mpr ⟨?_, inside k (mem_cons_of_mem _ hk)⟩
      rintro rfl
      exact out hk
    refine ⟨s', ?_, ranked, ⟨fun k => ?_, fun k => ?_, ?_, drops.nextRank⟩, heap⟩
    · rw [PyM.forEach, PyM.run_bind, dropKey_run h (inside key mem_cons_self)]
      exact ran
    · rw [drops.chunks, PyDict.get?_pop]
      by_cases same : k = key
      · simp [same]
      · simp [same]
    · rw [drops.ranks, PyDict.get?_pop]
      by_cases same : k = key
      · simp [same]
      · simp [same]
    · rw [drops.evictable, h.distinct.erase_eq_filter, filter_filter]
      refine filter_congr fun k _ => ?_
      by_cases same : k = key
      · simp [same]
      · simp [same]

/-- An eviction takes the keys of the smallest ranks, or finds too few and changes nothing that
can be told. -/
theorem evict_run (order : KeyOrder K) (h : Inv s) (n : Nat) (protectedKeys : List K) :
    ∃ s', Inv s' ∧ if n ≤ (s.evictionOrder protectedKeys).length then
    ∃ evicted, (evict order n protectedKeys).run s = (.ok (some evicted), s') ∧
    evicted.map Prod.fst = (s.evictionOrder protectedKeys).take n ∧
    (∀ pair ∈ evicted, s.chunks.get? pair.1 = some pair.2) ∧ Drops (evicted.map Prod.fst) s s' else
    (evict order n protectedKeys).run s = (.ok none, s') ∧ SameObservables s s' := by
  by_cases none : n = 0
  · subst none
    refine ⟨s, h, ?_⟩
    rw [if_pos (Nat.zero_le _)]
    exact ⟨[], rfl, rfl, by simp, ⟨by simp, by simp, by simp, rfl⟩⟩
  · have start : Selection s protectedKeys [] [] :=
      ⟨h.heap, by simp, .nil, by simp, by simp, fun key hkey => .inl (h.covered key hkey)⟩
    obtain ⟨selected, deferred, heap, ran, sel, few, ended⟩ :=
      selectEntries_run (n := n) h.toRanked start (Nat.zero_le n)
        le_rfl
    have ranked := h.toRanked.with_heap heap
    obtain ⟨keys, all⟩ := sel.keys_eq ranked
    change (selected.map fun item => item.1.2) =
      (s.evictionOrder protectedKeys).take selected.length at keys
    change heap = [] → (s.evictionOrder protectedKeys).length = selected.length at all
    unfold evict
    rw [if_neg none, PyM.run_get_bind, PyM.run_bind]
    rw [map_nil] at ran
    rw [ran]
    dsimp only
    by_cases short : selected.length < n
    · have exact := all (ended short)
      rw [if_pos short]
      obtain ⟨heap', pushed, isHeap', mem'⟩ :=
        pushEntries_run (s := { s with heap := heap }) (selected.map Prod.fst) sel.isHeap
      obtain ⟨heap'', pushed', isHeap'', mem''⟩ :=
        pushEntries_run (s := { s with heap := heap' }) deferred isHeap'
      refine ⟨{ s with heap := heap'' }, ⟨h.toRanked.with_heap _, isHeap'', fun key hkey => ?_⟩, ?_⟩
      · refine (mem'' _).mpr ?_
        rcases sel.covered key hkey with inHeap | chosen | later
        · exact .inl ((mem' _).mpr (.inl inHeap))
        · exact .inl ((mem' _).mpr (.inr chosen))
        · exact .inr later
      · rw [if_neg (by omega)]
        refine ⟨?_, ⟨rfl, rfl, rfl, rfl⟩⟩
        rw [PyM.forEach_map] at pushed
        rw [PyM.run_bind, pushed]
        dsimp only
        rw [PyM.run_bind, pushed']
        rfl
    · rw [if_neg short]
      have full : selected.length = n := by omega
      have enough : n ≤ (s.evictionOrder protectedKeys).length := by
        have := congrArg List.length keys
        rw [length_map, length_take] at this
        omega
      obtain ⟨heap', pushed, isHeap', mem'⟩ :=
        pushEntries_run (s := { s with heap := heap }) deferred sel.isHeap
      have inside : ∀ key ∈ selected.map fun item => item.1.2, key ∈ s.evictable := by
        intro key hkey
        rw [keys] at hkey
        exact (mem_evictionOrder.mp (mem_of_mem_take hkey)).1
      have nodup : (selected.map fun item => item.1.2).Nodup := by
        rw [keys]
        exact (evictionOrder_nodup h.toRanked).sublist (take_sublist _ _)
      obtain ⟨s', dropped, ranked', drops, sameHeap⟩ :=
        dropKeys_run (s := { s with heap := heap' }) (h.toRanked.with_heap heap') nodup inside
      have inv : Inv s' := by
        refine ⟨ranked', sameHeap ▸ isHeap', fun key hkey => ?_⟩
        rw [drops.evictable, mem_filter, decide_eq_true_iff] at hkey
        have entry : s'.entryOf key = s.entryOf key := by
          rw [entryOf, rankOf, drops.ranks, if_neg hkey.2]
          rfl
        rw [entry, sameHeap]
        refine (mem' _).mpr ?_
        rcases sel.covered key hkey.1 with inHeap | chosen | later
        · exact .inl inHeap
        · obtain ⟨item, hitem, same⟩ := mem_map.mp chosen
          refine absurd (mem_map.mpr ⟨item, hitem, ?_⟩) hkey.2
          rw [same]
          rfl
        · exact .inr later
      obtain ⟨heap'', compacted, inv'⟩ := maybeCompactHeap_run order inv
      refine ⟨{ s' with heap := heap'' }, inv', ?_⟩
      rw [if_pos enough]
      have fst : (selected.map fun item => (item.1.2, item.2)).map Prod.fst =
          selected.map fun item => item.1.2 := by
        rw [map_map]
        rfl
      refine ⟨selected.map fun item => (item.1.2, item.2), ?_, ?_, ?_, ?_⟩
      · rw [PyM.run_bind, pushed]
        dsimp only
        rw [PyM.forEach_map] at dropped
        rw [PyM.run_bind, dropped]
        dsimp only
        rw [PyM.run_bind, compacted]
        rfl
      · rw [fst, keys, full]
      · intro pair hpair
        obtain ⟨item, hitem, rfl⟩ := mem_map.mp hpair
        exact (sel.chosen item hitem).2.2
      · rw [fst]
        exact ⟨drops.chunks, drops.ranks, drops.evictable, drops.nextRank⟩

/-! The LRU policy under the calls of a manager: its invariant over every run, and the
evictions it makes there. -/

theorem inv_new : Inv (new : LRUCachePolicy K) where
  ranked key := rfl
  distinct := .nil
  idle key := by simp [new]
  injective key key' rank found := by simp [new] at found
  bounded key rank found := by simp [new] at found
  heap i x y _ _ hx := by simp [new] at hx
  covered key hkey := by simp [new] at hkey

theorem get_setRefCnt (s : LRUCachePolicy K) (key : K) (refCnt : Int32) :
    get (setRefCnt key refCnt s) = update (get s) key
    ((get s key).map fun chunk => { chunk with refCnt := refCnt }) := by
  funext k
  unfold setRefCnt get
  rw [update_apply]
  cases found : s.chunks.get? key with
  | none =>
    dsimp only
    split
    next same => rw [same, found, Option.map_none]
    · rfl
  | some chunk =>
    dsimp only
    rw [PyDict.get?_set, Option.map_some]

variable {key : K} {chunk : ChunkStatus}

theorem Inv.setRefCnt (h : Inv s) {refCnt : Int32}
    {evictable : List K} {heap : List (Nat × K)} (found : s.chunks.get? key = some chunk)
    (distinct : evictable.Nodup)
    (idle : ∀ k, k ∈ evictable ↔ (k = key ∧ refCnt = 0) ∨ (k ≠ key ∧ k ∈ s.evictable))
    (isHeap : Heapq.IsHeap entryKey heap) (covered : ∀ k ∈ evictable, s.entryOf k ∈ heap) :
    Inv { s with
      chunks := s.chunks.set key { chunk with refCnt := refCnt }
      evictable := evictable
      heap := heap } := by
  refine ⟨⟨fun k => ?_, distinct, fun k => ?_, h.injective, h.bounded⟩, isHeap, covered⟩
  · dsimp only
    rw [PyDict.get?_set]
    split
    next same =>
      rw [same, h.ranked key, found]
      rfl
    · exact h.ranked k
  · dsimp only
    rw [idle, PyDict.get?_set, h.idle]
    by_cases same : k = key
    · simp [same]
    · simp [same]

theorem not_mem_evictable (h : Ranked s)
    (found : s.chunks.get? key = some chunk) (busy : chunk.refCnt ≠ 0) : key ∉ s.evictable := by
  intro inside
  obtain ⟨chunk', found', idle⟩ := (h.idle key).mp inside
  rw [found] at found'
  cases found'
  exact busy idle

theorem Inv.insert (h : Inv s) (out : key ∉ s.evictable) (chunkId : Nat) :
    ∃ s', (insert key (ChunkStatus.new chunkId)).run s = (.ok (), s') ∧ Inv s' ∧
    s'.evictable = s.evictable ∧ s'.chunks = s.chunks.set key (ChunkStatus.new chunkId) := by
  have busy : (ChunkStatus.new chunkId).refCnt ≠ 0 :=
    ChunkStatus.refCnt_ne_zero (ChunkStatus.new_not_ready chunkId)
  refine ⟨{ s with
    chunks := s.chunks.set key (ChunkStatus.new chunkId)
    nextRank := s.nextRank + 1
    ranks := s.ranks.set key (s.nextRank + 1) }, ?_, ⟨⟨fun k => ?_, h.distinct, fun k => ?_,
      fun k k' rank first second => ?_, fun k rank found => ?_⟩, h.heap, fun k hk => ?_⟩, rfl, rfl⟩
  · unfold LRUCachePolicy.insert
    rw [PyM.run_modify_bind, if_neg busy]
    rfl
  · dsimp only
    rw [PyDict.get?_set, PyDict.get?_set]
    split
    · rfl
    · exact h.ranked k
  · dsimp only
    rw [PyDict.get?_set, h.idle]
    by_cases same : k = key
    · have none := mt (h.idle key).mpr out
      simp only [same, ↓reduceIte, Option.some.injEq, none, false_iff]
      rintro ⟨chunk, rfl, zero⟩
      exact busy zero
    · rw [if_neg same]
  · dsimp only at first second
    rw [PyDict.get?_set] at first second
    have old : ∀ k, s.ranks.get? k = some rank → rank ≠ s.nextRank + 1 := by
      intro k found
      have := h.bounded k rank found
      omega
    split at first
    next same =>
      split at second
      next same' => rw [same, same']
      · exact absurd (Option.some.inj first).symm (old k' second)
    · split at second
      · exact absurd (Option.some.inj second).symm (old k first)
      · exact h.injective k k' rank first second
  · dsimp only at found ⊢
    rw [PyDict.get?_set] at found
    split at found
    · exact (Option.some.inj found).symm.le
    · exact (h.bounded k rank found).trans (Nat.le_succ _)
  · have ne : k ≠ key := fun same => out (same ▸ hk)
    have same : (s.ranks.set key (s.nextRank + 1)).get? k = s.ranks.get? k := by
      rw [PyDict.get?_set, if_neg ne]
    rw [entryOf, rankOf]
    dsimp only
    rw [same]
    exact h.covered k hk

theorem Inv.inserts (h : Inv s) {pairs : List (K × Nat)}
    (out : ∀ pair ∈ pairs, pair.1 ∉ s.evictable) :
    ∃ s', (PyM.forEach (fun pair : K × Nat => LRUCachePolicy.insert pair.1
    (ChunkStatus.new pair.2)) pairs).run s = (.ok (), s') ∧ Inv s' ∧
    (∀ key, key ∉ pairs.map Prod.fst → get s' key = get s key) ∧
    ∀ key ∈ pairs.map Prod.fst, ∃ chunkId, get s' key = some (ChunkStatus.new chunkId) := by
  induction pairs generalizing s with
  | nil => exact ⟨s, rfl, h, fun _ _ => rfl, by simp⟩
  | cons pair pairs ih =>
    obtain ⟨s', first, inv, evictable, chunks⟩ := h.insert (out pair mem_cons_self) pair.2
    obtain ⟨t, ran, inv', others, new⟩ := ih inv fun pair' hpair => by
      rw [evictable]
      exact out pair' (mem_cons_of_mem _ hpair)
    refine ⟨t, ?_, inv', fun key hkey => ?_, fun key hkey => ?_⟩
    · rw [PyM.forEach, PyM.run_bind, first]
      exact ran
    · rw [map_cons, mem_cons, not_or] at hkey
      rw [others key hkey.2, get, get, chunks, PyDict.get?_set, if_neg hkey.1]
    · by_cases later : key ∈ pairs.map Prod.fst
      · exact new key later
      · have same : key = pair.1 := by
          rw [map_cons, mem_cons] at hkey
          exact hkey.resolve_right later
        exact ⟨pair.2, by rw [others key later, get, chunks, same, PyDict.get?_set_self]⟩

theorem Inv.remove (h : Inv s) (found : s.chunks.get? key = some chunk) :
    ∃ s', (remove key).run s = (.ok (), s') ∧ Inv s' ∧
    get s' = update (get s) key none := by
  refine ⟨{ s with
    chunks := s.chunks.pop key
    ranks := s.ranks.pop key
    evictable := s.evictable.erase key }, ?_, ⟨h.toRanked.drop key, h.heap, fun k hk => ?_⟩, ?_⟩
  · unfold LRUCachePolicy.remove
    rw [PyM.run_get_bind, PyDict.getItem_ok.mpr found, PyM.run_lift_ok_bind]
    rfl
  · obtain ⟨ne, inside⟩ := (h.distinct.mem_erase_iff).mp hk
    have same : (s.ranks.pop key).get? k = s.ranks.get? k := by
      rw [PyDict.get?_pop, if_neg ne]
    rw [entryOf, rankOf]
    dsimp only
    rw [same]
    exact h.covered k inside
  · funext k
    rw [update_apply]
    exact PyDict.get?_pop _ _ _

theorem policy_sound (order : KeyOrder K) : (policy order).Sound get Inv where
  get_eq := rfl
  view_setRefCnt := get_setRefCnt
  touch keys s h := by
    obtain ⟨s', ran, inv, chunks, _⟩ := updateRecency_run order h keys.reverse
    exact ⟨(), s', ran, inv, by unfold get; rw [chunks]⟩
  onStoreMiss keys s h := by
    obtain ⟨s', ran, inv, chunks, _⟩ := updateRecency_run order h keys.reverse
    exact ⟨(), s', ran, inv, by unfold get; rw [chunks]⟩
  onRequestFinished keyGroups _ _ position s h := by
    obtain ⟨s', ran, inv, chunks, _⟩ :=
      updateRecency_run order h (orderRequestKeys keyGroups position).reverse
    exact ⟨(), s', ran, inv, by unfold get; rw [chunks]⟩
  clear s _ := ⟨inv_new, fun key => rfl⟩
  insert s pairs h missing := by
    refine h.inserts fun pair hpair inside => ?_
    obtain ⟨chunk, found, _⟩ := (h.idle pair.1).mp inside
    have := missing pair hpair
    rw [get, found] at this
    cases this
  remove s key chunk h found _ := h.remove found
  pin s key chunk refCnt h found idle used := by
    have inside : key ∈ s.evictable := (h.idle key).mpr ⟨chunk, found, idle⟩
    refine ⟨{ s with evictable := s.evictable.erase key }, ?_, rfl, ?_⟩
    · change (removeEvictable key).run s = _
      unfold removeEvictable
      rw [PyM.run_get_bind, if_pos inside]
      rfl
    · change Inv (setRefCnt key refCnt { s with evictable := s.evictable.erase key })
      unfold setRefCnt
      have found' : ({ s with evictable := s.evictable.erase key } : LRUCachePolicy K).chunks.get?
          key = some chunk := found
      rw [found']
      refine h.setRefCnt found (h.distinct.erase key) (fun k => ?_) h.heap fun k hk => ?_
      · rw [h.distinct.mem_erase_iff]
        simp [used]
      · exact h.covered k ((h.distinct.mem_erase_iff).mp hk).2
  reuse s key chunk refCnt h found busy used := by
    change Inv (setRefCnt key refCnt s)
    unfold setRefCnt
    have found' : s.chunks.get? key = some chunk := found
    rw [found']
    refine h.setRefCnt found h.distinct (fun k => ?_) h.heap h.covered
    have out := not_mem_evictable h.toRanked found busy
    by_cases same : k = key
    · simp [same, out, used]
    · simp [same]
  release s key chunk h found busy := by
    have out := not_mem_evictable h.toRanked found busy
    have found' : s.chunks.get? key = some chunk := found
    have assigned : (policy order).setRefCnt key 0 s =
        { s with chunks := s.chunks.set key { chunk with refCnt := 0 } } := by
      change setRefCnt key 0 s = _
      unfold setRefCnt
      rw [found']
    have marked : Inv { s with
        chunks := s.chunks.set key { chunk with refCnt := 0 }
        evictable := s.evictable ++ [key]
        heap := Heapq.heappush entryKey s.heap (s.entryOf key) } := by
      refine h.setRefCnt found (nodup_append.mpr ⟨h.distinct, nodup_singleton key, ?_⟩)
        (fun k => ?_) (Heapq.heappush_isHeap h.heap _) fun k hk => ?_
      · intro k hk k' hk' same
        rw [same, mem_singleton.mp hk'] at hk
        exact out hk
      · by_cases same : k = key
        · simp [same]
        · simp [same]
      · rw [mem_heappush]
        cases mem_append.mp hk with
        | inl old => exact .inr (h.covered k old)
        | inr last => exact .inl (by rw [mem_singleton.mp last])
    obtain ⟨heap, compacted, inv⟩ := maybeCompactHeap_run order marked
    refine ⟨_, ?_, inv, ?_⟩
    · rw [assigned]
      change (markEvictable order key).run _ = _
      unfold markEvictable
      rw [PyM.run_modify_bind, addEvictable]
      dsimp only
      rw [if_neg out, PyM.run_bind, pushEvictable_run]
      · exact compacted
      · dsimp only
        rw [h.rank_of_chunk found', Option.isSome_some]
    · rw [assigned]
      rfl
  evict s n protectedKeys h := by
    obtain ⟨s', inv, what⟩ := evict_run order h n protectedKeys
    split at what
    next enough =>
      obtain ⟨evicted, ran, keys, chunks, drops⟩ := what
      have inside : ∀ pair ∈ evicted, pair.1 ∈ s.evictionOrder protectedKeys := by
        intro pair hpair
        have := mem_map_of_mem (f := Prod.fst) hpair
        rw [keys] at this
        exact mem_of_mem_take this
      refine ⟨some evicted, s', ran, inv, ?_, ?_, fun pair hpair => ?_, ?_⟩
      · have := congrArg List.length keys
        rw [length_map, length_take] at this
        omega
      · rw [keys]
        exact (evictionOrder_nodup h.toRanked).sublist (take_sublist _ _)
      · obtain ⟨evictable, free⟩ := mem_evictionOrder.mp (inside pair hpair)
        obtain ⟨chunk, found, idle⟩ := (h.idle pair.1).mp evictable
        have same := chunks pair hpair
        rw [found] at same
        cases same
        exact ⟨free, chunks pair hpair, idle⟩
      · funext key
        exact drops.chunks key
    next few =>
      obtain ⟨ran, same⟩ := what
      exact ⟨none, s', ran, inv, by unfold get; rw [same.chunks]⟩

/-- The manager's runs over this policy; each call may see its sets in another order. -/
def managerRuns {R : Type} [DecidableEq R] (groupIdx : K → Nat) :
    TransitionSystem (CPUOffloadingManager R K (LRUCachePolicy K))
      (KeyOrder K × CPUOffloadingManager.Call R K) :=
  CPUOffloadingManager.runs policy groupIdx fun _ => new

theorem inv_of_reachable {R : Type} [DecidableEq R] {groupIdx : K → Nat}
    {m : CPUOffloadingManager R K (LRUCachePolicy K)} (h : (managerRuns groupIdx).Reachable m) :
    Inv m.policy :=
  (CPUOffloadingManager.coherent_of_reachable policy_sound
    (fun _ => ⟨inv_new, fun _ => rfl⟩) h).policy

section

variable {R : Type} [DecidableEq R]

def AtEviction (m : CPUOffloadingManager R K (LRUCachePolicy K)) (p : LRUCachePolicy K) : Prop :=
  p = m.policy ∨ ∃ order misses, p = ((touch order misses).run m.policy).2

/-- After every run of the manager the lazy heap is an exact LRU: an eviction takes the
evictable keys outside the protected ones that have the smallest ranks, in their order, or
changes nothing that can be told when there are too few, and no compaction and no rebuild
loses an evictable key. -/
theorem manager_evictions {groupIdx : K → Nat}
    {m : CPUOffloadingManager R K (LRUCachePolicy K)} (h : (managerRuns groupIdx).Reachable m)
    {p : LRUCachePolicy K} (found : AtEviction m p) :
    (∀ key, key ∈ p.evictable ↔ ∃ chunk, p.chunks.get? key = some chunk ∧ chunk.refCnt = 0) ∧
      Covered p ∧
      (∀ order, ∃ heap, (maybeCompactHeap order).run p = (.ok (), { p with heap := heap }) ∧
        Covered { p with heap := heap }) ∧
      (∀ order keys, ∃ p', (updateRecency order keys).run p = (.ok (), p') ∧
        p'.evictable = p.evictable ∧ Covered p') ∧
      ∀ order n protectedKeys, ∃ p',
        if n ≤ (p.evictionOrder protectedKeys).length then
          ∃ evicted, (evict order n protectedKeys).run p = (.ok (some evicted), p') ∧
            evicted.map Prod.fst = (p.evictionOrder protectedKeys).take n ∧
            (∀ pair ∈ evicted, p.chunks.get? pair.1 = some pair.2) ∧
            Drops (evicted.map Prod.fst) p p'
        else
          (evict order n protectedKeys).run p = (.ok none, p') ∧ SameObservables p p' := by
  have inv : Inv p := by
    have reached := inv_of_reachable h
    rcases found with rfl | ⟨order, misses, rfl⟩
    · exact reached
    · obtain ⟨s', ran, inv, _⟩ := updateRecency_run order reached misses.reverse
      rw [touch, ran]
      exact inv
  refine ⟨inv.idle, inv.covered, fun order => ?_, fun order keys => ?_,
    fun order n protectedKeys => ?_⟩
  · obtain ⟨heap, ran, after⟩ := maybeCompactHeap_run order inv
    exact ⟨heap, ran, after.covered⟩
  · obtain ⟨p', ran, after, _, same⟩ := updateRecency_run order inv keys
    exact ⟨p', ran, same, after.covered⟩
  · obtain ⟨p', _, what⟩ := evict_run order inv n protectedKeys
    exact ⟨p', what⟩

end

def twoStored : CPUOffloadingManager Nat Nat (LRUCachePolicy Nat) :=
  (CPUOffloadingManager.new new 4 false 1 64000
    |> fun m => CPUOffloadingManager.call (policy .inserted) (fun _ => 0) m
      (.prepareStore [1, 2] ⟨0, fun _ => none⟩))
    |> fun m => CPUOffloadingManager.call (policy .inserted) (fun _ => 0) m
      (.completeStore [1, 2] true)

theorem twoStored_reachable : (managerRuns fun _ => 0).Reachable twoStored :=
  .step (a := (.inserted, .completeStore [1, 2] true))
    (.step (a := (.inserted, .prepareStore [1, 2] ⟨0, fun _ => none⟩))
      (.init ⟨4, false, 1, 64000, rfl⟩) rfl) rfl

theorem twoStored_evictions : twoStored.policy.evictable = [1, 2] ∧ Covered twoStored.policy :=
  ⟨by decide +kernel, (manager_evictions twoStored_reachable (.inl rfl)).2.1⟩

open CPUOffloadingManager in
/-- Room for a store is found exactly when enough idle chunks are outside its keys: the count
that the manager keeps refuses none too early, and no assertion on it fails. -/
theorem makeRoom_iff {R : Type} [DecidableEq R] {groupIdx : K → Nat}
    {m : CPUOffloadingManager R K (LRUCachePolicy K)} (h : (managerRuns groupIdx).Reachable m)
    (order : KeyOrder K) (n : Int) (keys : List K) : ((makeRoom (policy order) n keys).run m).1 =
      .ok (if n ≤ (m.policy.evictionOrder keys).length then
        some ((m.policy.evictionOrder keys).take n.toNat) else none) := by
  have ⟨inv, idle, same, count⟩ := coherent_of_reachable policy_sound
    (fun _ => ⟨inv_new, fun _ => rfl⟩) h
  have fewer : ((m.policy.evictionOrder keys).length : Int) ≤ m.numEvictableCacheChunks := by
    rw [count, ← toFinset_card_of_nodup (evictionOrder_nodup inv.toRanked)]
    refine Int.ofNat_le.mpr (Finset.card_le_card fun key hkey => (same key).mpr ?_)
    exact (inv.idle key).mp (mem_evictionOrder.mp (mem_toFinset.mp hkey)).1
  unfold makeRoom
  split
  · rw [PyM.run_get_bind]
    split
    · rw [if_neg (by omega)]
      rfl
    · obtain ⟨p, -, what⟩ := evict_run order inv n.toNat keys
      dsimp only [policy]
      split at what
      · obtain ⟨evicted, ran, taken, -⟩ := what
        have length := congrArg length taken
        rw [length_map, length_take] at length
        rw [run_onPolicy_bind ran]
        dsimp only
        rw [PyM.run_modify_bind, PyM.run_get_bind, pyAssert, if_pos (by grind),
          PyM.run_lift_ok_bind, if_pos (by omega), ← taken]
        generalize evicted.map Prod.fst = found
        suffices freed : ∀ m : CPUOffloadingManager R K (LRUCachePolicy K), ((do
          PyM.forEach (fun pair => PyM.modify (freeChunk pair.2)) evicted
          pure (some found) : PyM _ _).run m).1 = .ok (some found) from freed _
        clear * -
        induction evicted with
        | nil => exact fun _ => rfl
        | cons _ _ ih => exact fun _ => ih _
      · rw [run_onPolicy_bind what.1, if_neg (by omega)]
        rfl
  · rw [if_pos (by omega), Int.toNat_of_nonpos (by omega)]
    rfl

theorem twoStored_room :
    ((CPUOffloadingManager.makeRoom (policy .inserted) 2 [1]).run twoStored).1 = .ok none :=
  (makeRoom_iff twoStored_reachable .inserted 2 [1]).trans (by decide +kernel)

end VllmAmpere.KVOffload.LRUCachePolicy
