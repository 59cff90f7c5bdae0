import VllmAmpere.ARCCachePolicy

/-! Evictions of the ARC policy: the two scans choose the least recently used candidates of
the lists, over every run of the manager. -/

open List Function

namespace VllmAmpere.KVOffload.ARCCachePolicy

section

variable {α : Type}

/-- Items taken from the fronts of two lists, each with whether it is of the first. -/
inductive TakesFronts : List α → List α → List (α × Bool) → Prop
  | done (l₁ l₂ : List α) : TakesFronts l₁ l₂ []
  | first {a : α} {l₁ l₂ : List α} {out : List (α × Bool)} :
      TakesFronts l₁ l₂ out → TakesFronts (a :: l₁) l₂ ((a, true) :: out)
  | second {a : α} {l₁ l₂ : List α} {out : List (α × Bool)} :
      TakesFronts l₁ l₂ out → TakesFronts l₁ (a :: l₂) ((a, false) :: out)

variable {l₁ l₂ : List α} {out : List (α × Bool)}

theorem TakesFronts.mem (h : TakesFronts l₁ l₂ out) {item : α × Bool} (hitem : item ∈ out) :
    item.1 ∈ if item.2 then l₁ else l₂ := by
  induction h with
  | done => cases hitem
  | @first a l₁ l₂ out _ ih =>
    cases mem_cons.mp hitem with
    | inl same => rw [same]; exact mem_cons_self
    | inr rest =>
      have inside := ih rest
      by_cases which : item.2 = true
      · rw [if_pos which] at inside ⊢
        exact mem_cons_of_mem _ inside
      · rw [if_neg which] at inside ⊢
        exact inside
  | @second a l₁ l₂ out _ ih =>
    cases mem_cons.mp hitem with
    | inl same => rw [same]; exact mem_cons_self
    | inr rest =>
      have inside := ih rest
      by_cases which : item.2 = true
      · rw [if_pos which] at inside ⊢
        exact inside
      · rw [if_neg which] at inside ⊢
        exact mem_cons_of_mem _ inside

theorem TakesFronts.nodup (h : TakesFronts l₁ l₂ out) (distinct : (l₁ ++ l₂).Nodup) :
    (out.map Prod.fst).Nodup := by
  induction h with
  | done => exact .nil
  | @first a l₁ l₂ out taken ih =>
    rw [cons_append, nodup_cons] at distinct
    rw [map_cons, nodup_cons]
    refine ⟨fun again => ?_, ih distinct.2⟩
    obtain ⟨item, hitem, same⟩ := mem_map.mp again
    have inside := taken.mem hitem
    rw [same] at inside
    refine distinct.1 (mem_append.mpr ?_)
    split at inside
    · exact .inl inside
    · exact .inr inside
  | @second a l₁ l₂ out taken ih =>
    have moved : (a :: (l₁ ++ l₂)).Nodup := perm_middle.nodup_iff.mp distinct
    rw [nodup_cons] at moved
    rw [map_cons, nodup_cons]
    refine ⟨fun again => ?_, ih moved.2⟩
    obtain ⟨item, hitem, same⟩ := mem_map.mp again
    have inside := taken.mem hitem
    rw [same] at inside
    refine moved.1 (mem_append.mpr ?_)
    split at inside
    · exact .inl inside
    · exact .inr inside

variable [BEq α] [LawfulBEq α]

theorem filter_not_cons {l : List α} {a : α} (out : a ∉ l) (pre : List α) :
    (l.filter fun x => x ∉ a :: pre) = l.filter fun x => x ∉ pre := by
  refine filter_congr fun x hx => ?_
  have ne : x ≠ a := fun same => out (same ▸ hx)
  simp [ne]

theorem TakesFronts.front (h : TakesFronts l₁ l₂ out) (distinct : (l₁ ++ l₂).Nodup)
    {pre post : List α} {a : α} (placed : out.map Prod.fst = pre ++ a :: post) :
    (l₁.filter fun x => x ∉ pre).head? = some a ∨ (l₂.filter fun x => x ∉ pre).head? = some a := by
  induction h generalizing pre with
  | done => exact absurd placed (by simp)
  | @first b l₁ l₂ out _ ih =>
    rw [cons_append, nodup_cons, mem_append, not_or] at distinct
    rw [map_cons] at placed
    cases pre with
    | nil =>
      rw [nil_append] at placed
      obtain ⟨same, _⟩ := List.cons.inj placed
      exact .inl (by rw [← same]; simp)
    | cons c pre =>
      obtain ⟨same, rest⟩ := List.cons.inj placed
      cases same
      rw [List.filter_cons, if_neg (by simp), filter_not_cons distinct.1.1,
        filter_not_cons distinct.1.2]
      exact ih distinct.2 rest
  | @second b l₁ l₂ out _ ih =>
    have moved : (b :: (l₁ ++ l₂)).Nodup := perm_middle.nodup_iff.mp distinct
    rw [nodup_cons, mem_append, not_or] at moved
    rw [map_cons] at placed
    cases pre with
    | nil =>
      rw [nil_append] at placed
      obtain ⟨same, _⟩ := List.cons.inj placed
      exact .inr (by rw [← same]; simp)
    | cons c pre =>
      obtain ⟨same, rest⟩ := List.cons.inj placed
      cases same
      rw [List.filter_cons (x := b), if_neg (by simp), filter_not_cons moved.1.1,
        filter_not_cons moved.1.2]
      exact ih moved.2 rest

end

variable {K : Type} [DecidableEq K]

def candidates (protectedKeys : List K) (entries : List (K × ChunkStatus)) :
    List (K × ChunkStatus) :=
  entries.filter fun entry => IsCandidate protectedKeys entry

variable {protectedKeys : List K}

theorem nextCandidate_some {entries rest : List (K × ChunkStatus)} {entry : K × ChunkStatus}
    (h : nextCandidate protectedKeys entries = (some entry, rest)) :
    candidates protectedKeys entries = entry :: candidates protectedKeys rest := by
  induction entries with
  | nil => cases h
  | cons first entries ih =>
    rw [nextCandidate] at h
    rw [candidates, List.filter_cons]
    by_cases candidate : IsCandidate protectedKeys first
    · rw [if_pos candidate] at h
      cases h
      rw [if_pos (decide_eq_true candidate)]
      rfl
    · rw [if_neg candidate] at h
      rw [if_neg (by simp [candidate])]
      exact ih h

theorem nextCandidate_none {entries rest : List (K × ChunkStatus)}
    (h : nextCandidate protectedKeys entries = (none, rest)) :
    candidates protectedKeys entries = [] ∧ rest = [] := by
  induction entries with
  | nil =>
    cases h
    exact ⟨rfl, rfl⟩
  | cons first entries ih =>
    rw [nextCandidate] at h
    rw [candidates, List.filter_cons]
    by_cases candidate : IsCandidate protectedKeys first
    · rw [if_pos candidate] at h
      cases h
    · rw [if_neg candidate] at h
      rw [if_neg (by simp [candidate])]
      exact ih h

/-- How a selection moves the scans: by one candidate of one of them. -/
inductive Selects (protectedKeys : List K) (scans : Scans K) :
    Option (((K × ChunkStatus) × Bool) × Scans K) → Prop
  | t1 {entry : K × ChunkStatus} {scans' : Scans K}
      (front : candidates protectedKeys scans.t1Iter =
        entry :: candidates protectedKeys scans'.t1Iter)
      (other : candidates protectedKeys scans'.t2Iter = candidates protectedKeys scans.t2Iter) :
      Selects protectedKeys scans (some ((entry, true), scans'))
  | t2 {entry : K × ChunkStatus} {scans' : Scans K}
      (front : candidates protectedKeys scans.t2Iter =
        entry :: candidates protectedKeys scans'.t2Iter)
      (other : candidates protectedKeys scans'.t1Iter = candidates protectedKeys scans.t1Iter) :
      Selects protectedKeys scans (some ((entry, false), scans'))
  | none (t1 : candidates protectedKeys scans.t1Iter = [])
      (t2 : candidates protectedKeys scans.t2Iter = []) : Selects protectedKeys scans none

theorem selects_behind (scans : Scans K) :
    Selects protectedKeys scans (selectBehind protectedKeys scans) := by
  unfold selectBehind
  cases second : nextCandidate protectedKeys scans.t2Iter with
  | mk found t2Iter =>
    cases found with
    | some entry => exact .t2 (nextCandidate_some second) rfl
    | none =>
      obtain ⟨empty2, left2⟩ := nextCandidate_none second
      dsimp only
      cases first : nextCandidate protectedKeys scans.t1Iter with
      | mk found t1Iter =>
        cases found with
        | some entry =>
          refine .t1 (nextCandidate_some first) ?_
          rw [empty2, left2]
          rfl
        | none => exact .none (nextCandidate_none first).1 empty2

theorem selects_next (target : Int) (scans : Scans K) :
    Selects protectedKeys scans (selectNext target protectedKeys scans) := by
  unfold selectNext
  split
  · cases first : nextCandidate protectedKeys scans.t1Iter with
    | mk found t1Iter =>
      cases found with
      | some entry => exact .t1 (nextCandidate_some first) rfl
      | none =>
        obtain ⟨empty, left⟩ := nextCandidate_none first
        -- the scan of T1 is over, and so it is for the fall-backs
        have behind := @selects_behind K _ protectedKeys
          { scans with t1Iter := t1Iter }
        dsimp only
        generalize selectBehind protectedKeys { scans with t1Iter := t1Iter } = result at behind
        cases behind with
        | t1 front _ =>
          dsimp only at front
          rw [left] at front
          cases front
        | t2 front other =>
          refine .t2 front ?_
          rw [other]
          dsimp only
          rw [left, empty]
          rfl
        | none _ empty2 => exact .none empty empty2
  · exact selects_behind scans

/-- A selection of `n` chunks, which fails only for want of candidates. -/
theorem selectCandidates_spec (target : Int) (n : Nat) (scans : Scans K) :
    match selectCandidates target protectedKeys n scans with
    | none => (candidates protectedKeys scans.t1Iter).length +
        (candidates protectedKeys scans.t2Iter).length < n
    | some chosen => chosen.length = n ∧
        TakesFronts (candidates protectedKeys scans.t1Iter)
          (candidates protectedKeys scans.t2Iter) chosen := by
  induction n generalizing scans with
  | zero => exact ⟨rfl, .done _ _⟩
  | succ n ih =>
    have step := @selects_next K _ protectedKeys target scans
    rw [selectCandidates]
    generalize selectNext target protectedKeys scans = result at step
    cases step with
    | none empty1 empty2 =>
      rw [empty1, empty2]
      exact Nat.succ_pos n
    | @t1 entry scans' front other =>
      have rest := ih scans'
      rw [other] at rest
      rw [front]
      dsimp only
      cases later : selectCandidates target protectedKeys n scans' with
      | none =>
        rw [later] at rest
        dsimp only [Option.map_none] at rest ⊢
        rw [length_cons]
        omega
      | some chosen =>
        rw [later] at rest
        exact ⟨congrArg Nat.succ rest.1, .first rest.2⟩
    | @t2 entry scans' front other =>
      have rest := ih scans'
      rw [other] at rest
      rw [front]
      dsimp only
      cases later : selectCandidates target protectedKeys n scans' with
      | none =>
        rw [later] at rest
        dsimp only [Option.map_none] at rest ⊢
        rw [length_cons]
        omega
      | some chosen =>
        rw [later] at rest
        exact ⟨congrArg Nat.succ rest.1, .second rest.2⟩

/-! The ARC policy under the calls of a manager: what holds of its lists after every run, and
the evictions it makes there. -/

variable {s : ARCCachePolicy K}

def Chosen (s : ARCCachePolicy K) (candidate : (K × ChunkStatus) × Bool) : Prop :=
  (if candidate.2 then s.t1 else s.t2).get? candidate.1.1 = some candidate.1.2

theorem applyEviction_other (candidate : (K × ChunkStatus) × Bool) {key : K}
    (other : key ≠ candidate.1.1) :
    (applyEviction candidate s).t1.get? key = s.t1.get? key ∧
    (applyEviction candidate s).t2.get? key = s.t2.get? key ∧
    (applyEviction candidate s).occurrences key = s.occurrences key := by
  obtain ⟨⟨evicted, chunk⟩, fromT1⟩ := candidate
  cases fromT1 <;> simp [applyEviction, occurrences, PyDict.get?_pop, PyDict.get?_set, other]

theorem applyEviction_evicted {candidate : (K × ChunkStatus) × Bool}
    (apart : s.occurrences candidate.1.1 ≤ 1) (chosen : Chosen s candidate) :
    get (applyEviction candidate s) candidate.1.1 = none ∧
    (applyEviction candidate s).occurrences candidate.1.1 = 1 := by
  obtain ⟨⟨key, chunk⟩, fromT1⟩ := candidate
  change s.occurrences key ≤ 1 at apart
  unfold occurrences at apart
  cases fromT1 with
  | true =>
    change s.t1.get? key = some chunk at chosen
    rw [chosen, held_some] at apart
    have t2 : s.t2.get? key = none := none_of_held (by omega)
    have b2 : s.b2.get? key = none := none_of_held (by omega)
    simp [applyEviction, get, occurrences, PyDict.get?_pop, t2, b2]
  | false =>
    change s.t2.get? key = some chunk at chosen
    rw [chosen, held_some] at apart
    have t1 : s.t1.get? key = none := none_of_held (by omega)
    have b1 : s.b1.get? key = none := none_of_held (by omega)
    simp [applyEviction, get, occurrences, PyDict.get?_pop, t1, b1]

theorem applyEviction_spec (apart : ∀ key, s.occurrences key ≤ 1)
    {candidate : (K × ChunkStatus) × Bool} (chosen : Chosen s candidate) :
    (∀ key, (applyEviction candidate s).occurrences key ≤ 1) ∧
    (applyEviction candidate s).cacheCapacity = s.cacheCapacity ∧
    (applyEviction candidate s).targetT1Size = s.targetT1Size ∧
    (∀ key, get (applyEviction candidate s) key = if key = candidate.1.1 then none else get s key) ∧
    ∀ other, other.1.1 ≠ candidate.1.1 → Chosen s other →
    Chosen (applyEviction candidate s) other := by
  obtain ⟨gone, once⟩ := applyEviction_evicted (apart _) chosen
  have sizes : (applyEviction candidate s).cacheCapacity = s.cacheCapacity ∧
      (applyEviction candidate s).targetT1Size = s.targetT1Size := by
    obtain ⟨-, _ | _⟩ := candidate <;> exact ⟨rfl, rfl⟩
  refine ⟨fun key => ?_, sizes.1, sizes.2, fun key => ?_, fun other ne found => ?_⟩
  · by_cases same : key = candidate.1.1
    · rw [same, once]
    · rw [(applyEviction_other candidate same).2.2]
      exact apart key
  · split
    · rename_i same
      rw [same, gone]
    · rename_i other
      obtain ⟨t1, t2, -⟩ := applyEviction_other (s := s) candidate other
      rw [get, get, t1, t2]
  · obtain ⟨t1, t2, -⟩ := applyEviction_other (s := s) candidate ne
    unfold Chosen at found ⊢
    cases which : other.2 <;> simp_all

theorem applyEvictions_spec {chosen : List ((K × ChunkStatus) × Bool)}
    (apart : ∀ key, s.occurrences key ≤ 1) (found : ∀ candidate ∈ chosen, Chosen s candidate)
    (nodup : (chosen.map fun candidate => candidate.1.1).Nodup) :
    (∀ key, (chosen.foldl (fun s candidate => applyEviction candidate s) s).occurrences key ≤ 1) ∧
    (chosen.foldl (fun s candidate => applyEviction candidate s) s).cacheCapacity =
    s.cacheCapacity ∧ (chosen.foldl (fun s candidate => applyEviction candidate s) s).targetT1Size =
    s.targetT1Size ∧
    ∀ key, get (chosen.foldl (fun s candidate => applyEviction candidate s) s) key =
    if key ∈ chosen.map fun candidate => candidate.1.1 then none else get s key := by
  induction chosen generalizing s with
  | nil => exact ⟨apart, rfl, rfl, fun key => by simp⟩
  | cons candidate chosen ih =>
    rw [map_cons, nodup_cons] at nodup
    obtain ⟨apart', capacity, target, view, others⟩ :=
      applyEviction_spec apart (found candidate mem_cons_self)
    have found' : ∀ other ∈ chosen, Chosen (applyEviction candidate s) other := by
      intro other hother
      refine others other (fun same => nodup.1 ?_) (found other (mem_cons_of_mem _ hother))
      exact mem_map.mpr ⟨other, hother, same⟩
    obtain ⟨apart'', capacity', target', view'⟩ := ih apart' found' nodup.2
    refine ⟨apart'', capacity'.trans capacity, target'.trans target, fun key => ?_⟩
    rw [foldl_cons, view', view, map_cons]
    by_cases same : key = candidate.1.1
    · simp only [same, mem_cons, true_or, ↓reduceIte, ite_self]
    · simp only [same, mem_cons, false_or, ↓reduceIte]

theorem inv_trimGhosts (apart : ∀ key, s.occurrences key ≤ 1) (nonneg : 0 ≤ s.targetT1Size)
    (bounded : s.targetT1Size ≤ s.cacheCapacity) : Inv (trimGhosts s) := by
  refine ⟨fun key => ?_, ?_, ?_, nonneg, bounded⟩
  · have less1 := held_or (get?_popOldest (s.b1.len - s.cacheCapacity) s.b1 key)
    have less2 := held_or (get?_popOldest (s.b2.len - s.cacheCapacity) s.b2 key)
    have := apart key
    unfold occurrences at this ⊢
    unfold trimGhosts
    dsimp only
    omega
  · unfold trimGhosts
    dsimp only
    rw [len_popOldest]
    omega
  · unfold trimGhosts
    dsimp only
    rw [len_popOldest]
    omega

theorem Inv.entries_nodup (h : Inv s) : (s.t1.items ++ s.t2.items).Nodup := by
  refine nodup_append.mpr ⟨s.t1.nodup_items, s.t2.nodup_items, fun a ha b hb same => ?_⟩
  have found1 := (s.t1.mem_items a.1 a.2).mp ha
  have found2 := (s.t2.mem_items b.1 b.2).mp hb
  rw [← same, (h.only_t1 found1).1] at found2
  cases found2

theorem candidates_sublist (entries : List (K × ChunkStatus)) :
    (candidates protectedKeys entries).Sublist entries := filter_sublist

theorem mem_candidates {entries : List (K × ChunkStatus)} {entry : K × ChunkStatus} :
    entry ∈ candidates protectedKeys entries ↔ entry ∈ entries ∧ IsCandidate protectedKeys entry := by
  rw [candidates, mem_filter, decide_eq_true_iff]

/-- The least recently used candidate of a list that is not among `taken`. -/
def LeastRecent (protectedKeys : List K) (d : PyDict K ChunkStatus)
    (taken : List (K × ChunkStatus)) (entry : K × ChunkStatus) : Prop :=
  (d.items.filter fun other => IsCandidate protectedKeys other ∧ other ∉ taken).head? = some entry

theorem leastRecent_iff {d : PyDict K ChunkStatus} {taken : List (K × ChunkStatus)}
    {entry : K × ChunkStatus} : LeastRecent protectedKeys d taken entry ↔
    ((candidates protectedKeys d.items).filter fun other => other ∉ taken).head? = some entry := by
  rw [LeastRecent, candidates, filter_filter]
  have same : (fun other : K × ChunkStatus =>
      decide (IsCandidate protectedKeys other ∧ other ∉ taken)) =
        fun other => decide (other ∉ taken) && decide (IsCandidate protectedKeys other) := by
    funext other
    rw [Bool.decide_and, Bool.and_comm]
  rw [same]

def numCandidates (protectedKeys : List K) (s : ARCCachePolicy K) : Nat :=
  (candidates protectedKeys s.t1.items).length + (candidates protectedKeys s.t2.items).length

/-- What an eviction takes. -/
structure Evicts (s : ARCCachePolicy K) (n : Nat) (protectedKeys : List K)
    (evicted : List (K × ChunkStatus)) (s' : ARCCachePolicy K) : Prop where
  length : evicted.length = n
  distinct : (evicted.map Prod.fst).Nodup
  idle : ∀ entry ∈ evicted, entry.2.refCnt = 0 ∧ entry.1 ∉ protectedKeys ∧
    get s entry.1 = some entry.2
  front : ∀ taken entry rest, evicted = taken ++ entry :: rest →
    LeastRecent protectedKeys s.t1 taken entry ∨ LeastRecent protectedKeys s.t2 taken entry
  gone : ∀ key, get s' key = if key ∈ evicted.map Prod.fst then none else get s key

/-- An eviction takes the least recently used candidates of the lists, or finds too few. -/
theorem evict_spec (h : Inv s) (n : Nat) (protectedKeys : List K) :
    match evict n protectedKeys s with
    | (none, s') => s' = s ∧ numCandidates protectedKeys s < n
    | (some evicted, s') => Inv s' ∧ Evicts s n protectedKeys evicted s' ∧
        n ≤ numCandidates protectedKeys s := by
  unfold evict
  by_cases zero : n = 0
  · rw [if_pos zero, zero]
    refine ⟨h, ⟨rfl, .nil, by simp, fun taken entry rest e => ?_, by simp⟩, Nat.zero_le _⟩
    simp at e
  · rw [if_neg zero]
    have spec := @selectCandidates_spec K _ protectedKeys s.targetSize n
      ⟨s.t1.len, s.t1.items, s.t2.items⟩
    cases selected : selectCandidates s.targetSize protectedKeys n
      ⟨s.t1.len, s.t1.items, s.t2.items⟩ with
    | none =>
      rw [selected] at spec
      exact ⟨rfl, spec⟩
    | some chosen =>
      rw [selected] at spec
      obtain ⟨length, fronts⟩ := spec
      have distinct : (candidates protectedKeys s.t1.items ++
          candidates protectedKeys s.t2.items).Nodup :=
        h.entries_nodup.sublist ((candidates_sublist _).append (candidates_sublist _))
      have inList : ∀ candidate ∈ chosen, Chosen s candidate ∧
          IsCandidate protectedKeys candidate.1 := by
        intro candidate hcandidate
        have inside := fronts.mem hcandidate
        unfold Chosen
        by_cases which : candidate.2 = true
        · rw [if_pos which] at inside ⊢
          obtain ⟨listed, candidate'⟩ := mem_candidates.mp inside
          exact ⟨(s.t1.mem_items _ _).mp listed, candidate'⟩
        · rw [if_neg which] at inside ⊢
          obtain ⟨listed, candidate'⟩ := mem_candidates.mp inside
          exact ⟨(s.t2.mem_items _ _).mp listed, candidate'⟩
      have view : ∀ candidate ∈ chosen, get s candidate.1.1 = some candidate.1.2 := by
        intro candidate hcandidate
        have found := (inList candidate hcandidate).1
        unfold Chosen at found
        by_cases which : candidate.2 = true
        · rw [if_pos which] at found
          rw [get, found]
          rfl
        · rw [if_neg which] at found
          rw [get, (h.only_t2 found).1, found]
          rfl
      have keys : (chosen.map Prod.fst).map Prod.fst =
          chosen.map fun candidate => candidate.1.1 := by
        rw [map_map]
        rfl
      have nodup : (chosen.map fun candidate => candidate.1.1).Nodup := by
        rw [← keys]
        refine List.Nodup.map_on (fun a ha b hb same => ?_) (fronts.nodup distinct)
        obtain ⟨c, hc, rfl⟩ := mem_map.mp ha
        obtain ⟨c', hc', rfl⟩ := mem_map.mp hb
        have first := view c hc
        rw [same, view c' hc'] at first
        exact Prod.ext same (Option.some.inj first).symm
      obtain ⟨apart, capacity, target, gone⟩ :=
        applyEvictions_spec h.apart (fun candidate hc => (inList candidate hc).1) nodup
      refine ⟨inv_trimGhosts apart (target ▸ h.nonneg) ?_, ⟨?_, keys ▸ nodup,
        fun entry hentry => ?_, fun taken entry rest e => ?_, fun key => ?_⟩, ?_⟩
      · rw [target, capacity]
        exact h.bounded
      · rw [length_map, length]
      · obtain ⟨candidate, hcandidate, rfl⟩ := mem_map.mp hentry
        obtain ⟨_, idle, free⟩ := inList candidate hcandidate
        exact ⟨idle, free, view candidate hcandidate⟩
      · rw [leastRecent_iff, leastRecent_iff]
        exact fronts.front distinct e
      · rw [keys]
        exact gone key
      · have inside : (chosen.map Prod.fst).Subperm (candidates protectedKeys s.t1.items ++
            candidates protectedKeys s.t2.items) := by
          refine (fronts.nodup distinct).subperm fun entry hentry => ?_
          obtain ⟨candidate, hcandidate, rfl⟩ := mem_map.mp hentry
          have := fronts.mem hcandidate
          rw [mem_append]
          split at this
          · exact .inl this
          · exact .inr this
        have := inside.length_le
        rw [length_map, length_append, length] at this
        exact this

theorem get_setRefCnt (s : ARCCachePolicy K) (key : K) (refCnt : Int32) :
    get (setRefCnt key refCnt s) = update (get s) key
    ((get s key).map fun chunk => { chunk with refCnt := refCnt }) := by
  funext k
  unfold setRefCnt
  rw [update_apply]
  cases t1 : s.t1.get? key with
  | some chunk =>
    rw [get, get, get]
    dsimp only
    rw [PyDict.get?_set, t1]
    split
    · rfl
    · rfl
  | none =>
    cases t2 : s.t2.get? key with
    | some chunk =>
      rw [get, get, get]
      dsimp only
      rw [PyDict.get?_set, t1, t2]
      by_cases same : k = key
      · rw [if_pos same, if_pos same, same, t1]
        rfl
      · rw [if_neg same, if_neg same]
    | none =>
      dsimp only
      by_cases same : k = key
      · rw [if_pos same, same, get, t1, t2]
        rfl
      · rw [if_neg same]

theorem Inv.setRefCnt (h : Inv s) (key : K) (refCnt : Int32) : Inv (setRefCnt key refCnt s) := by
  unfold ARCCachePolicy.setRefCnt
  have still : ∀ (d : PyDict K ChunkStatus) (chunk : ChunkStatus) {old : ChunkStatus},
      d.get? key = some old → ∀ k, held ((d.set key chunk).get? k) = held (d.get? k) := by
    intro d chunk old found k
    rw [PyDict.get?_set]
    split
    next same => rw [same, found, held_some, held_some]
    · rfl
  cases t1 : s.t1.get? key with
  | some chunk =>
    refine ⟨fun k => ?_, h.ghost1, h.ghost2, h.nonneg, h.bounded⟩
    unfold occurrences
    dsimp only
    rw [still s.t1 _ t1]
    exact h.apart k
  | none =>
    cases t2 : s.t2.get? key with
    | some chunk =>
      refine ⟨fun k => ?_, h.ghost1, h.ghost2, h.nonneg, h.bounded⟩
      unfold occurrences
      dsimp only
      rw [still s.t2 _ t2]
      exact h.apart k
    | none => exact h

theorem Inv.insert (h : Inv s) {key : K} (out : s.t2.get? key = none) (chunk : ChunkStatus) :
    Inv (insert key chunk s) := by
  refine ⟨fun k => ?_, (len_pop_le _ _).trans h.ghost1, (len_pop_le _ _).trans h.ghost2, h.nonneg,
    h.bounded⟩
  unfold occurrences ARCCachePolicy.insert
  dsimp only
  rw [PyDict.get?_set, PyDict.get?_pop, PyDict.get?_pop]
  by_cases same : k = key
  · rw [if_pos same, if_pos same, if_pos same, same, out]
    exact le_rfl
  · rw [if_neg same, if_neg same, if_neg same]
    exact h.apart k

theorem Inv.inserts (h : Inv s) {pairs : List (K × Nat)}
    (out : ∀ pair ∈ pairs, s.t2.get? pair.1 = none) :
    ∃ s', (PyM.forEach (fun pair : K × Nat => PyM.modify
    (ARCCachePolicy.insert pair.1 (ChunkStatus.new pair.2))) pairs).run s = (.ok (), s') ∧
    Inv s' ∧ (∀ key, key ∉ pairs.map Prod.fst → get s' key = get s key) ∧
    ∀ key ∈ pairs.map Prod.fst, ∃ chunkId, get s' key = some (ChunkStatus.new chunkId) := by
  induction pairs generalizing s with
  | nil => exact ⟨s, rfl, h, fun _ _ => rfl, by simp⟩
  | cons pair pairs ih =>
    have inv := h.insert (out pair mem_cons_self) (ChunkStatus.new pair.2)
    obtain ⟨t, ran, inv', others, new⟩ :=
      ih inv fun pair' hpair => out pair' (mem_cons_of_mem _ hpair)
    refine ⟨t, ran, inv', fun key hkey => ?_, fun key hkey => ?_⟩
    · rw [map_cons, mem_cons, not_or] at hkey
      rw [others key hkey.2, get, get, ARCCachePolicy.insert]
      dsimp only
      rw [PyDict.get?_set, if_neg hkey.1]
    · by_cases later : key ∈ pairs.map Prod.fst
      · exact new key later
      · have same : key = pair.1 := by
          rw [map_cons, mem_cons] at hkey
          exact hkey.resolve_right later
        refine ⟨pair.2, ?_⟩
        rw [others key later, get, ARCCachePolicy.insert, same]
        dsimp only
        rw [PyDict.get?_set_self]
        rfl

theorem Inv.remove (h : Inv s) (key : K) :
    Inv (remove key s) ∧ get (ARCCachePolicy.remove key s) = update (get s) key none := by
  have less : ∀ (d : PyDict K ChunkStatus) k, held ((d.pop key).get? k) ≤ held (d.get? k) := by
    intro d k
    refine held_or ?_
    rw [PyDict.get?_pop]
    split
    · exact .inl rfl
    · exact .inr rfl
  unfold ARCCachePolicy.remove
  cases t1 : s.t1.get? key with
  | some chunk =>
    refine ⟨⟨fun k => ?_, h.ghost1, h.ghost2, h.nonneg, h.bounded⟩, funext fun k => ?_⟩
    · have := h.apart k
      have := less s.t1 k
      unfold occurrences at *
      dsimp only
      omega
    · rw [update_apply, get, get]
      dsimp only
      rw [PyDict.get?_pop]
      by_cases same : k = key
      · rw [if_pos same, if_pos same, same, (h.only_t1 t1).1]
        rfl
      · rw [if_neg same, if_neg same]
  | none =>
    refine ⟨⟨fun k => ?_, h.ghost1, h.ghost2, h.nonneg, h.bounded⟩, funext fun k => ?_⟩
    · have := h.apart k
      have := less s.t2 k
      unfold occurrences at *
      dsimp only
      omega
    · rw [update_apply, get, get]
      dsimp only
      rw [PyDict.get?_pop]
      by_cases same : k = key
      · rw [if_pos same, if_pos same, same, t1]
        rfl
      · rw [if_neg same, if_neg same]

theorem policy_sound (rounding : FloatRounding) : (policy rounding).Sound (K := K) get Inv where
  get_eq := rfl
  view_setRefCnt := get_setRefCnt
  touch keys s h := by
    obtain ⟨inv, same⟩ := h.walk (fun s key h => h.touchKey rounding key) keys.reverse
    exact ⟨(), _, rfl, inv, same⟩
  onStoreMiss keys s h := by
    obtain ⟨inv, same⟩ := h.walk (fun s key h => h.adaptToGhostHit rounding key) keys.reverse
    exact ⟨(), _, rfl, inv, same⟩
  onRequestFinished keyGroups insertionOnlyKeys reusedKeys position s h := by
    obtain ⟨inv, same⟩ := h.walk
      (fun s key h => h.finishKey insertionOnlyKeys reusedKeys key)
      (orderRequestKeys keyGroups position).reverse
    exact ⟨(), _, rfl, inv, same⟩
  clear s _ := ⟨inv_new _, fun key => rfl⟩
  insert s pairs h missing := by
    refine h.inserts fun pair hpair => ?_
    have none := missing pair hpair
    rw [get, Option.or_eq_none_iff] at none
    exact none.2
  remove s key chunk h _ _ := ⟨_, rfl, h.remove key⟩
  pin s key chunk refCnt h _ _ _ := ⟨s, rfl, rfl, h.setRefCnt key refCnt⟩
  reuse s key chunk refCnt h _ _ _ := h.setRefCnt key refCnt
  release s key chunk h _ _ := ⟨_, rfl, h.setRefCnt key 0, rfl⟩
  evict s n protectedKeys h := by
    have spec := evict_spec h n protectedKeys
    refine ⟨(evict n protectedKeys s).1, (evict n protectedKeys s).2, rfl, ?_⟩
    generalize evict n protectedKeys s = result at spec
    obtain ⟨result, s'⟩ := result
    cases result with
    | none =>
      obtain ⟨rfl, _⟩ := spec
      exact ⟨h, rfl⟩
    | some evicted =>
      obtain ⟨inv, evicts, _⟩ := spec
      refine ⟨inv, evicts.length, evicts.distinct, fun pair hpair => ?_, funext evicts.gone⟩
      obtain ⟨idle, free, found⟩ := evicts.idle pair hpair
      exact ⟨free, found, idle⟩

def managerRuns {R : Type} [DecidableEq R] (rounding : FloatRounding) (groupIdx : K → Nat) :
    TransitionSystem (CPUOffloadingManager R K (ARCCachePolicy K))
      (Unit × CPUOffloadingManager.Call R K) :=
  CPUOffloadingManager.runs (fun _ => policy rounding) groupIdx new

section

variable {R : Type} [DecidableEq R] {rounding : FloatRounding} {groupIdx : K → Nat}
  {m : CPUOffloadingManager R K (ARCCachePolicy K)}

theorem inv_of_reachable (h : (managerRuns rounding groupIdx).Reachable m) : Inv m.policy :=
  (CPUOffloadingManager.coherent_of_reachable (fun _ => policy_sound rounding)
    (fun numChunks => ⟨inv_new numChunks, fun _ => rfl⟩) h).policy

def AtEviction (rounding : FloatRounding) (m : CPUOffloadingManager R K (ARCCachePolicy K))
    (p : ARCCachePolicy K) : Prop :=
  p = m.policy ∨ ∃ misses, p = onStoreMiss rounding misses m.policy

theorem Inv.disjoint (h : Inv s) :
    [s.t1.keys, s.t2.keys, s.b1.keys, s.b2.keys].Pairwise List.Disjoint := by
  have apart : ∀ {α β : Type} (d : PyDict K α) (e : PyDict K β),
      (∀ key, held (d.get? key) + held (e.get? key) ≤ 1) → d.keys.Disjoint e.keys := by
    intro α β d e both key hd he
    rw [PyDict.mem_keys] at hd he
    have := both key
    rw [held, held, if_pos hd, if_pos he] at this
    omega
  have all := h.apart
  unfold occurrences at all
  refine pairwise_cons.mpr ⟨?_, pairwise_cons.mpr ⟨?_, pairwise_pair.mpr ?_⟩⟩
  · intro keys hkeys
    simp only [mem_cons, not_mem_nil, or_false] at hkeys
    rcases hkeys with rfl | rfl | rfl
    · exact apart _ _ fun key => by have := all key; omega
    · exact apart _ _ fun key => by have := all key; omega
    · exact apart _ _ fun key => by have := all key; omega
  · intro keys hkeys
    simp only [mem_cons, not_mem_nil, or_false] at hkeys
    rcases hkeys with rfl | rfl
    · exact apart _ _ fun key => by have := all key; omega
    · exact apart _ _ fun key => by have := all key; omega
  · exact apart _ _ fun key => by have := all key; omega

/-- After every run of the manager the lists are apart, the ghost lists are bounded and the
target is between 0 and the capacity, and they stay so over an eviction, which takes the least
recently used candidates of T1 and T2 or, exactly when there are too few, changes nothing. -/
theorem manager_lists (h : (managerRuns rounding groupIdx).Reachable m) {p : ARCCachePolicy K}
    (found : AtEviction rounding m p) (n : Nat) (protectedKeys : List K) :
    (∀ p' ∈ [p, (evict n protectedKeys p).2],
    [p'.t1.keys, p'.t2.keys, p'.b1.keys, p'.b2.keys].Pairwise List.Disjoint ∧
    p'.b1.len ≤ p'.cacheCapacity ∧ p'.b2.len ≤ p'.cacheCapacity ∧
    0 ≤ p'.targetT1Size ∧ p'.targetT1Size ≤ p'.cacheCapacity) ∧
    ((evict n protectedKeys p).1 = none ↔ numCandidates protectedKeys p < n) ∧
    ((evict n protectedKeys p).1 = none → (evict n protectedKeys p).2 = p) ∧
    ∀ evicted, (evict n protectedKeys p).1 = some evicted →
    Evicts p n protectedKeys evicted (evict n protectedKeys p).2 := by
  have inv : Inv p := by
    have reached := inv_of_reachable h
    rcases found with rfl | ⟨misses, rfl⟩
    · exact reached
    · exact (reached.walk (fun s key h => h.adaptToGhostHit rounding key) misses.reverse).1
  have lists : ∀ {p' : ARCCachePolicy K}, Inv p' →
      [p'.t1.keys, p'.t2.keys, p'.b1.keys, p'.b2.keys].Pairwise List.Disjoint ∧
        p'.b1.len ≤ p'.cacheCapacity ∧ p'.b2.len ≤ p'.cacheCapacity ∧
        0 ≤ p'.targetT1Size ∧ p'.targetT1Size ≤ p'.cacheCapacity :=
    fun inv => ⟨inv.disjoint, inv.ghost1, inv.ghost2, inv.nonneg, inv.bounded⟩
  have spec := evict_spec inv n protectedKeys
  generalize evict n protectedKeys p = result at spec
  obtain ⟨result, p'⟩ := result
  cases result with
  | none =>
    obtain ⟨rfl, few⟩ := spec
    refine ⟨fun q hq => ?_, ⟨fun _ => few, fun _ => rfl⟩, fun _ => rfl, by simp⟩
    simp only [mem_cons, not_mem_nil, or_false, or_self] at hq
    exact hq ▸ lists inv
  | some evicted =>
    obtain ⟨inv', evicts, enough⟩ := spec
    refine ⟨fun q hq => ?_, ⟨by simp, fun few => by omega⟩, by simp, fun taken e => ?_⟩
    · simp only [mem_cons, not_mem_nil, or_false] at hq
      rcases hq with rfl | rfl
      · exact lists inv
      · exact lists inv'
    · cases e
      exact evicts

end

def twoStored : CPUOffloadingManager Nat Nat (ARCCachePolicy Nat) :=
  (CPUOffloadingManager.new (new 4) 4 false 1 64000
    |> fun m => CPUOffloadingManager.call (policy .exact) (fun _ => 0) m
      (.prepareStore [1, 2] ⟨0, fun _ => none⟩))
    |> fun m => CPUOffloadingManager.call (policy .exact) (fun _ => 0) m
      (.completeStore [1, 2] true)

theorem twoStored_reachable : (managerRuns .exact fun _ => 0).Reachable twoStored :=
  .step (a := ((), .completeStore [1, 2] true))
    (.step (a := ((), .prepareStore [1, 2] ⟨0, fun _ => none⟩))
      (.init ⟨4, false, 1, 64000, rfl⟩) rfl) rfl

theorem twoStored_lists : numCandidates [1] twoStored.policy = 1 ∧
    (evict 2 [1] twoStored.policy).1 = none :=
  have one : numCandidates [1] twoStored.policy = 1 := by decide +kernel
  ⟨one, ((manager_lists twoStored_reachable (.inl rfl) 2 [1]).2.1).mpr (one ▸ Nat.one_lt_two)⟩

end VllmAmpere.KVOffload.ARCCachePolicy
