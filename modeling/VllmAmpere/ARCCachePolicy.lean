import Mathlib.Data.Rat.Floor
import VllmAmpere.CPUOffloadingRuns

/-! The ARC policy of the CPU offload cache: two lists of chunks, two ghost lists of evicted
keys and the adaptive target for the first list. -/

namespace VllmAmpere.KVOffload

/-- How a float operation rounds. Counts of chunks are below 2^53 and are floats themselves. -/
structure FloatRounding where
  round : ℚ → ℚ
  monotone : Monotone round
  integer : ∀ z : ℤ, round z = z

def FloatRounding.exact : FloatRounding := ⟨id, monotone_id, fun _ => rfl⟩

structure ARCCachePolicy (K : Type) where
  cacheCapacity : Nat
  targetT1Size : ℚ
  t1 : PyDict K ChunkStatus
  t2 : PyDict K ChunkStatus
  b1 : PyDict K Unit
  b2 : PyDict K Unit

namespace ARCCachePolicy

def new {K : Type} (cacheCapacity : Nat) : ARCCachePolicy K :=
  ⟨cacheCapacity, 0, PyDict.empty, PyDict.empty, PyDict.empty, PyDict.empty⟩

section

variable {K : Type} [DecidableEq K]

/-- `d.move_to_end(key)`, of a key that is there. -/
def moveToEnd {α : Type} (d : PyDict K α) (key : K) : PyDict K α :=
  match d.get? key with
  | some value => (d.pop key).set key value
  | none => d

def get (s : ARCCachePolicy K) (key : K) : Option ChunkStatus :=
  (s.t1.get? key).or (s.t2.get? key)

/-- Assigns to the count of the chunk that `get` finds. -/
def setRefCnt (key : K) (refCnt : Int32) (s : ARCCachePolicy K) : ARCCachePolicy K :=
  match s.t1.get? key with
  | some chunk => { s with t1 := s.t1.set key { chunk with refCnt := refCnt } }
  | none =>
    match s.t2.get? key with
    | some chunk => { s with t2 := s.t2.set key { chunk with refCnt := refCnt } }
    | none => s

def insert (key : K) (chunk : ChunkStatus) (s : ARCCachePolicy K) : ARCCachePolicy K :=
  { s with t1 := s.t1.set key chunk, b1 := s.b1.pop key, b2 := s.b2.pop key }

def remove (key : K) (s : ARCCachePolicy K) : ARCCachePolicy K :=
  match s.t1.get? key with
  | some _ => { s with t1 := s.t1.pop key }
  | none => { s with t2 := s.t2.pop key }

section

variable (rounding : FloatRounding)

/-- `max(1, more / fewer)`. -/
def adaptDelta (more fewer : Nat) : ℚ := max 1 (rounding.round (more / fewer))

def adaptToGhostHit (key : K) (s : ARCCachePolicy K) : ARCCachePolicy K :=
  if (s.b1.get? key).isSome then
    { s with
      targetT1Size := min
        (rounding.round (s.targetT1Size + adaptDelta rounding s.b2.len s.b1.len)) s.cacheCapacity
      b1 := moveToEnd s.b1 key }
  else if (s.b2.get? key).isSome then
    { s with
      targetT1Size := max
        (rounding.round (s.targetT1Size - adaptDelta rounding s.b1.len s.b2.len)) 0
      b2 := moveToEnd s.b2 key }
  else s

def onStoreMiss (keys : List K) (s : ARCCachePolicy K) : ARCCachePolicy K :=
  keys.reverse.foldl (fun s key => adaptToGhostHit rounding key s) s

def touchKey (key : K) (s : ARCCachePolicy K) : ARCCachePolicy K :=
  match s.t1.get? key with
  | some chunk =>
    -- a chunk that is being stored stays in T1
    if ¬chunk.IsReady then { s with t1 := (s.t1.pop key).set key chunk }
    else { s with t1 := s.t1.pop key, t2 := s.t2.set key chunk }
  | none =>
    if (s.t2.get? key).isSome then { s with t2 := moveToEnd s.t2 key }
    else adaptToGhostHit rounding key s

def touch (keys : List K) (s : ARCCachePolicy K) : ARCCachePolicy K :=
  keys.reverse.foldl (fun s key => touchKey rounding key s) s

end

def finishKey (insertionOnlyKeys reusedKeys : List K) (key : K) (s : ARCCachePolicy K) :
    ARCCachePolicy K :=
  if key ∈ insertionOnlyKeys then
    if (s.t1.get? key).isSome then { s with t1 := moveToEnd s.t1 key }
    else if (s.t2.get? key).isSome then { s with t2 := moveToEnd s.t2 key }
    else s
  else if key ∈ reusedKeys then
    match s.t1.get? key with
    | some chunk => { s with t1 := s.t1.pop key, t2 := s.t2.set key chunk }
    | none =>
      if (s.t2.get? key).isSome then { s with t2 := moveToEnd s.t2 key }
      else s
  else s

def onRequestFinished (keyGroups : List (List K)) (insertionOnlyKeys reusedKeys : List K)
    (position : K → Option Int) (s : ARCCachePolicy K) : ARCCachePolicy K :=
  (orderRequestKeys keyGroups position).reverse.foldl
    (fun s key => finishKey insertionOnlyKeys reusedKeys key s) s

variable (s : ARCCachePolicy K)

def clear : ARCCachePolicy K := new s.cacheCapacity

def IsCandidate (protectedKeys : List K) (entry : K × ChunkStatus) : Prop :=
  entry.2.refCnt = 0 ∧ entry.1 ∉ protectedKeys

instance instDecidableIsCandidate (protectedKeys : List K) (entry : K × ChunkStatus) :
    Decidable (IsCandidate protectedKeys entry) :=
  inferInstanceAs (Decidable (_ ∧ _))

/-- The next candidate of an iterator and what is left of it. -/
def nextCandidate (protectedKeys : List K) :
    List (K × ChunkStatus) → Option (K × ChunkStatus) × List (K × ChunkStatus)
  | [] => (none, [])
  | entry :: entries =>
    if IsCandidate protectedKeys entry then (some entry, entries)
    else nextCandidate protectedKeys entries

/-- Where the scans of an eviction are. -/
structure Scans (K : Type) where
  virtualT1Size : Int
  t1Iter : List (K × ChunkStatus)
  t2Iter : List (K × ChunkStatus)

def selectBehind (protectedKeys : List K) (scans : Scans K) :
    Option (((K × ChunkStatus) × Bool) × Scans K) :=
  match nextCandidate protectedKeys scans.t2Iter with
  | (some entry, t2Iter) => some ((entry, false), { scans with t2Iter := t2Iter })
  | (none, t2Iter) =>
    match nextCandidate protectedKeys scans.t1Iter with
    | (some entry, t1Iter) =>
      some ((entry, true), ⟨scans.virtualT1Size - 1, t1Iter, t2Iter⟩)
    | (none, _) => none

/-- The next chunk to evict, and whether it is one of T1. -/
def selectNext (target : Int) (protectedKeys : List K) (scans : Scans K) :
    Option (((K × ChunkStatus) × Bool) × Scans K) :=
  if scans.virtualT1Size ≥ target then
    match nextCandidate protectedKeys scans.t1Iter with
    | (some entry, t1Iter) =>
      some ((entry, true), ⟨scans.virtualT1Size - 1, t1Iter, scans.t2Iter⟩)
    | (none, t1Iter) => selectBehind protectedKeys { scans with t1Iter := t1Iter }
  else selectBehind protectedKeys scans

def selectCandidates (target : Int) (protectedKeys : List K) :
    Nat → Scans K → Option (List ((K × ChunkStatus) × Bool))
  | 0, _ => some []
  | n + 1, scans =>
    match selectNext target protectedKeys scans with
    | none => none
    | some (candidate, scans) =>
      (selectCandidates target protectedKeys n scans).map (candidate :: ·)

def applyEviction (candidate : (K × ChunkStatus) × Bool) (s : ARCCachePolicy K) :
    ARCCachePolicy K :=
  if candidate.2 then
    { s with t1 := s.t1.pop candidate.1.1, b1 := s.b1.set candidate.1.1 () }
  else { s with t2 := s.t2.pop candidate.1.1, b2 := s.b2.set candidate.1.1 () }

/-- `popitem(last=False)`, a number of times. -/
def popOldest {α : Type} : Nat → PyDict K α → PyDict K α
  | 0, d => d
  | n + 1, d =>
    match d.items with
    | [] => d
    | oldest :: _ => popOldest n (d.pop oldest.1)

def trimGhosts : ARCCachePolicy K :=
  { s with
    b1 := popOldest (s.b1.len - s.cacheCapacity) s.b1
    b2 := popOldest (s.b2.len - s.cacheCapacity) s.b2 }

/-- `int(self.target_t1_size)`, which is not negative. -/
def targetSize : Int :=
  if 0 ≤ s.targetT1Size then ⌊s.targetT1Size⌋ else ⌈s.targetT1Size⌉

def evict (n : Nat) (protectedKeys : List K) (s : ARCCachePolicy K) :
    Option (List (K × ChunkStatus)) × ARCCachePolicy K :=
  if n = 0 then (some [], s)
  else
    match selectCandidates s.targetSize protectedKeys n ⟨s.t1.len, s.t1.items, s.t2.items⟩ with
    | none => (none, s)
    | some candidates =>
      (some (candidates.map Prod.fst),
        trimGhosts (candidates.foldl (fun s candidate => applyEviction candidate s) s))

def policy (rounding : FloatRounding) : CachePolicy K (ARCCachePolicy K) where
  get := get
  setRefCnt := setRefCnt
  insert key chunk := PyM.modify (insert key chunk)
  remove key := PyM.modify (remove key)
  touch keys := PyM.modify (touch rounding keys)
  onStoreMiss keys := PyM.modify (onStoreMiss rounding keys)
  onRequestFinished keyGroups insertionOnlyKeys reusedKeys position :=
    PyM.modify (onRequestFinished keyGroups insertionOnlyKeys reusedKeys position)
  evict n protectedKeys := PyM.update (evict n protectedKeys)
  clear := clear
  markEvictable _ := pure ()
  markNonEvictable _ := pure ()

end

end ARCCachePolicy

end VllmAmpere.KVOffload

/-! The invariant of the ARC policy: a key is in one of the four lists at most, the ghost
lists are bounded and the target is between 0 and the capacity. -/

namespace VllmAmpere.KVOffload.ARCCachePolicy

variable {K : Type} [DecidableEq K]

section

variable {α : Type} (d : PyDict K α)

@[simp] theorem get?_moveToEnd (key k : K) : (moveToEnd d key).get? k = d.get? k := by
  unfold moveToEnd
  cases found : d.get? key with
  | none => rfl
  | some value =>
    dsimp only
    rw [PyDict.get?_set, PyDict.get?_pop]
    split
    next same => rw [same, found]
    · rfl

theorem len_set_new {key : K} (value : α) (new : d.get? key = none) :
    (d.set key value).len = d.len + 1 := by
  rw [PyDict.len, PyDict.items_set_new d value new, List.length_append]
  rfl

theorem len_pop_le (key : K) : (d.pop key).len ≤ d.len :=
  List.length_filter_le _ _

@[simp] theorem len_moveToEnd (key : K) : (moveToEnd d key).len = d.len := by
  unfold moveToEnd
  cases found : d.get? key with
  | none => rfl
  | some value =>
    have gone : (d.pop key).get? key = none := by rw [PyDict.get?_pop, if_pos rfl]
    have size := PyDict.len_pop d found
    dsimp only
    rw [len_set_new _ value gone]
    omega

theorem len_popOldest (n : Nat) (d : PyDict K α) : (popOldest n d).len = d.len - n := by
  induction n generalizing d with
  | zero => rfl
  | succ n ih =>
    rw [popOldest]
    cases items : d.items with
    | nil => simp [PyDict.len, items]
    | cons oldest rest =>
      have left := PyDict.pop_first d items
      dsimp only
      rw [ih, PyDict.len, PyDict.len, left, items, List.length_cons]
      omega

theorem get?_popOldest (n : Nat) (d : PyDict K α) (key : K) :
    (popOldest n d).get? key = none ∨ (popOldest n d).get? key = d.get? key := by
  induction n generalizing d with
  | zero => exact .inr rfl
  | succ n ih =>
    rw [popOldest]
    cases d.items with
    | nil => exact .inr rfl
    | cons oldest rest =>
      dsimp only
      cases ih (d.pop oldest.1) with
      | inl gone => exact .inl gone
      | inr same =>
        rw [same, PyDict.get?_pop]
        split
        · exact .inl rfl
        · exact .inr rfl

end

def held {α : Type} (found : Option α) : Nat := if found.isSome then 1 else 0

@[simp] theorem held_none {α : Type} : held (none : Option α) = 0 := rfl

@[simp] theorem held_some {α : Type} (value : α) : held (some value) = 1 := rfl

theorem none_of_held {α : Type} {found : Option α} (h : held found = 0) : found = none := by
  cases found with
  | none => rfl
  | some _ => cases h

theorem held_or {α : Type} {a b : Option α} (h : a = none ∨ a = b) : held a ≤ held b := by
  cases h with
  | inl none => rw [none]; exact Nat.zero_le _
  | inr same => rw [same]

def occurrences (s : ARCCachePolicy K) (key : K) : Nat :=
  held (s.t1.get? key) + held (s.t2.get? key) + held (s.b1.get? key) + held (s.b2.get? key)

structure Inv (s : ARCCachePolicy K) : Prop where
  apart : ∀ key, s.occurrences key ≤ 1
  ghost1 : s.b1.len ≤ s.cacheCapacity
  ghost2 : s.b2.len ≤ s.cacheCapacity
  nonneg : 0 ≤ s.targetT1Size
  bounded : s.targetT1Size ≤ s.cacheCapacity

variable {s : ARCCachePolicy K}

theorem inv_new (cacheCapacity : Nat) : Inv (new cacheCapacity : ARCCachePolicy K) where
  apart key := by simp [new, occurrences]
  ghost1 := Nat.zero_le _
  ghost2 := Nat.zero_le _
  nonneg := le_rfl
  bounded := Nat.cast_nonneg _

variable {chunk : ChunkStatus}

theorem Inv.only_t1 (h : Inv s) {key : K} (found : s.t1.get? key = some chunk) :
    s.t2.get? key = none ∧ s.b1.get? key = none ∧ s.b2.get? key = none := by
  have apart := h.apart key
  rw [occurrences, found, held_some] at apart
  exact ⟨none_of_held (by omega), none_of_held (by omega), none_of_held (by omega)⟩

theorem Inv.only_t2 (h : Inv s) {key : K} (found : s.t2.get? key = some chunk) :
    s.t1.get? key = none ∧ s.b1.get? key = none ∧ s.b2.get? key = none := by
  have apart := h.apart key
  rw [occurrences, found, held_some] at apart
  exact ⟨none_of_held (by omega), none_of_held (by omega), none_of_held (by omega)⟩

theorem Inv.reorder (h : Inv s) {s' : ARCCachePolicy K}
    (capacity : s'.cacheCapacity = s.cacheCapacity)
    (t1 : ∀ key, s'.t1.get? key = s.t1.get? key) (t2 : ∀ key, s'.t2.get? key = s.t2.get? key)
    (b1 : ∀ key, s'.b1.get? key = s.b1.get? key) (b2 : ∀ key, s'.b2.get? key = s.b2.get? key)
    (len1 : s'.b1.len = s.b1.len) (len2 : s'.b2.len = s.b2.len)
    (nonneg : 0 ≤ s'.targetT1Size) (bounded : s'.targetT1Size ≤ s.cacheCapacity) :
    Inv s' ∧ get s' = get s := by
  refine ⟨⟨fun key => ?_, ?_, ?_, nonneg, capacity ▸ bounded⟩, ?_⟩
  · rw [occurrences, t1, t2, b1, b2]
    exact h.apart key
  · rw [len1, capacity]
    exact h.ghost1
  · rw [len2, capacity]
    exact h.ghost2
  · funext key
    rw [get, get, t1, t2]

theorem Inv.promote (h : Inv s) {key : K} (found : s.t1.get? key = some chunk) :
    Inv { s with t1 := s.t1.pop key, t2 := s.t2.set key chunk } ∧
      get { s with t1 := s.t1.pop key, t2 := s.t2.set key chunk } = get s := by
  obtain ⟨t2, b1, b2⟩ := h.only_t1 found
  refine ⟨⟨fun k => ?_, h.ghost1, h.ghost2, h.nonneg, h.bounded⟩, ?_⟩
  · rw [occurrences]
    dsimp only
    rw [PyDict.get?_pop, PyDict.get?_set]
    by_cases same : k = key
    · rw [if_pos same, if_pos same, same, b1, b2]
      exact le_rfl
    · rw [if_neg same, if_neg same]
      exact h.apart k
  · funext k
    rw [get, get]
    dsimp only
    rw [PyDict.get?_pop, PyDict.get?_set]
    by_cases same : k = key
    · rw [if_pos same, if_pos same, same, found]
      rfl
    · rw [if_neg same, if_neg same]

variable (rounding : FloatRounding)

theorem one_le_adaptDelta (more fewer : Nat) : 1 ≤ adaptDelta rounding more fewer :=
  le_max_left _ _

theorem round_nonneg {q : ℚ} (h : 0 ≤ q) : 0 ≤ rounding.round q := by
  have zero := rounding.integer 0
  rw [Int.cast_zero] at zero
  rw [← zero]
  exact rounding.monotone h

theorem round_le {q : ℚ} {n : Nat} (h : q ≤ n) : rounding.round q ≤ n := by
  have same := rounding.integer n
  rw [Int.cast_natCast] at same
  rw [← same]
  exact rounding.monotone h

theorem Inv.adaptToGhostHit (h : Inv s) (key : K) : Inv (adaptToGhostHit rounding key s) ∧
    get (ARCCachePolicy.adaptToGhostHit rounding key s) = get s := by
  have nonneg := h.nonneg
  have bounded := h.bounded
  unfold ARCCachePolicy.adaptToGhostHit
  split
  · have delta := one_le_adaptDelta rounding s.b2.len s.b1.len
    refine h.reorder rfl (fun _ => rfl) (fun _ => rfl) (get?_moveToEnd _ _) (fun _ => rfl)
      (len_moveToEnd _ _) rfl (le_min ?_ (Nat.cast_nonneg _)) (min_le_right _ _)
    exact round_nonneg rounding (by linarith)
  · split
    · have delta := one_le_adaptDelta rounding s.b1.len s.b2.len
      refine h.reorder rfl (fun _ => rfl) (fun _ => rfl) (fun _ => rfl) (get?_moveToEnd _ _)
        rfl (len_moveToEnd _ _) (le_max_right _ _) (max_le ?_ (Nat.cast_nonneg _))
      exact round_le rounding (by linarith)
    · exact ⟨h, rfl⟩

theorem Inv.touchKey (h : Inv s) (key : K) :
    Inv (touchKey rounding key s) ∧ get (ARCCachePolicy.touchKey rounding key s) = get s := by
  unfold ARCCachePolicy.touchKey
  cases found : s.t1.get? key with
  | some chunk =>
    dsimp only
    split
    · refine h.reorder rfl (fun k => ?_) (fun _ => rfl) (fun _ => rfl) (fun _ => rfl) rfl rfl
        h.nonneg h.bounded
      dsimp only
      rw [PyDict.get?_set, PyDict.get?_pop]
      split
      next same => rw [same, found]
      · rfl
    · exact h.promote found
  | none =>
    dsimp only
    split
    · exact h.reorder rfl (fun _ => rfl) (get?_moveToEnd _ _) (fun _ => rfl) (fun _ => rfl) rfl rfl
        h.nonneg h.bounded
    · exact h.adaptToGhostHit rounding key

omit rounding in
theorem Inv.finishKey (h : Inv s) (insertionOnlyKeys reusedKeys : List K) (key : K) :
    Inv (finishKey insertionOnlyKeys reusedKeys key s) ∧
    get (ARCCachePolicy.finishKey insertionOnlyKeys reusedKeys key s) = get s := by
  have moved1 : Inv { s with t1 := moveToEnd s.t1 key } ∧
      get { s with t1 := moveToEnd s.t1 key } = get s :=
    h.reorder rfl (get?_moveToEnd _ _) (fun _ => rfl) (fun _ => rfl) (fun _ => rfl) rfl rfl
      h.nonneg h.bounded
  have moved2 : Inv { s with t2 := moveToEnd s.t2 key } ∧
      get { s with t2 := moveToEnd s.t2 key } = get s :=
    h.reorder rfl (fun _ => rfl) (get?_moveToEnd _ _) (fun _ => rfl) (fun _ => rfl) rfl rfl
      h.nonneg h.bounded
  unfold ARCCachePolicy.finishKey
  split
  · split
    · exact moved1
    · split
      · exact moved2
      · exact ⟨h, rfl⟩
  · split
    · cases found : s.t1.get? key with
      | some chunk => exact h.promote found
      | none =>
        dsimp only
        split
        · exact moved2
        · exact ⟨h, rfl⟩
    · exact ⟨h, rfl⟩

omit rounding in
theorem Inv.walk {step : ARCCachePolicy K → K → ARCCachePolicy K}
    (keep : ∀ s key, Inv s → Inv (step s key) ∧ get (step s key) = get s) (keys : List K)
    (h : Inv s) : Inv (keys.foldl step s) ∧ get (keys.foldl step s) = get s := by
  induction keys generalizing s with
  | nil => exact ⟨h, rfl⟩
  | cons key keys ih =>
    obtain ⟨inv, same⟩ := keep s key h
    obtain ⟨inv', same'⟩ := ih inv
    exact ⟨inv', same'.trans same⟩

end VllmAmpere.KVOffload.ARCCachePolicy
