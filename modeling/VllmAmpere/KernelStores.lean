import Mathlib.Data.List.Flatten
import Mathlib.Data.List.Nodup

/-! Flat device buffers. A program of a launch is the list of its stores, each a value with its
address; the programs run in no fixed order, and where their addresses differ the order is not
seen. -/

open List

namespace VllmAmpere

variable {α : Type*} (buf : List α)

/-- `tl.store` inside the buffer. -/
def store (s : α × Nat) : Option (List α) :=
  if s.2 < buf.length then some (buf.set s.2 s.1) else none

def storeAll (stores : List (α × Nat)) : Option (List α) :=
  stores.foldlM store buf

@[simp] theorem storeAll_nil : storeAll buf [] = some buf := rfl

theorem storeAll_cons (s : α × Nat) (stores : List (α × Nat)) :
    storeAll buf (s :: stores) = (store buf s).bind fun buf => storeAll buf stores := rfl

theorem storeAll_append (xs ys : List (α × Nat)) :
    storeAll buf (xs ++ ys) = (storeAll buf xs).bind fun buf => storeAll buf ys := by
  simp [storeAll, foldlM_append]

theorem storeAll_eq_some {buf buf' : List α} {stores : List (α × Nat)} :
    storeAll buf stores = some buf' ↔ (∀ s ∈ stores, s.2 < buf.length) ∧
    stores.foldl (fun buf s => buf.set s.2 s.1) buf = buf' := by
  induction stores generalizing buf with
  | nil => simp
  | cons s stores ih =>
    rw [storeAll_cons, store]
    by_cases inside : s.2 < buf.length
    · simp [inside, ih]
    · simp [inside]

theorem storeAll_perm {buf buf' : List α} {order stores : List (α × Nat)}
    (distinct : (stores.map Prod.snd).Nodup) (perm : order.Perm stores) :
    storeAll buf order = some buf' ↔ storeAll buf stores = some buf' := by
  have inside : (∀ s ∈ order, s.2 < buf.length) ↔ ∀ s ∈ stores, s.2 < buf.length :=
    forall_congr' fun s => by rw [perm.mem_iff]
  have same : order.foldl (fun buf s => buf.set s.2 s.1) buf =
      stores.foldl (fun buf s => buf.set s.2 s.1) buf := by
    apply perm.foldl_eq'
    intro s hs t ht buf
    by_cases address : s.2 = t.2
    · have one : s = t :=
        inj_on_of_nodup_map distinct (perm.mem_iff.mp hs) (perm.mem_iff.mp ht) address
      rw [one]
    · exact (set_comm _ _ address)
  rw [storeAll_eq_some, storeAll_eq_some, inside, same]

def Launched (programs : List (List (α × Nat))) (buf buf' : List α) : Prop :=
  ∃ order : List (α × Nat), order.Perm programs.flatten ∧ storeAll buf order = some buf'

theorem launched_iff {programs : List (List (α × Nat))} {buf buf' : List α}
    (distinct : (programs.flatten.map Prod.snd).Nodup) :
    Launched programs buf buf' ↔ storeAll buf programs.flatten = some buf' := by
  constructor
  · rintro ⟨order, perm, done⟩
    exact (storeAll_perm distinct perm).mp done
  · intro done
    exact ⟨programs.flatten, List.Perm.refl _, done⟩

def overwrite (news row : List α) : List α := news ++ row.drop news.length

@[simp] theorem overwrite_nil (row : List α) : overwrite [] row = row := rfl

theorem overwrite_length {news row : List α} (fits : news.length ≤ row.length) :
    (overwrite news row).length = row.length := by
  rw [overwrite, length_append, length_drop]
  omega

theorem storeAll_segment (pre news row post : List α) (fits : news.length ≤ row.length) :
    storeAll (pre ++ row ++ post) (news.zipIdx pre.length) =
    some (pre ++ overwrite news row ++ post) := by
  induction news generalizing pre row with
  | nil => rfl
  | cons x news ih =>
    cases row with
    | nil => simp at fits
    | cons y row =>
      have first : store (pre ++ y :: row ++ post) (x, pre.length) =
          some ((pre ++ [x]) ++ row ++ post) := by
        simp [store]
      have rest := ih (pre ++ [x]) row (by simpa using fits)
      rw [length_append, length_singleton] at rest
      rw [zipIdx_cons, storeAll_cons, first, Option.bind_some, rest]
      simp [overwrite]

/-- The stores that write each segment's new values at its head, the segments lying one behind the
other from `k` on. -/
def segmentStores : Nat → List (List α × List α) → List (List (α × Nat))
  | _, [] => []
  | k, (news, row) :: rest => news.zipIdx k :: segmentStores (k + row.length) rest

theorem storeAll_segments (pre : List α) (segments : List (List α × List α))
    (fits : ∀ s ∈ segments, s.1.length ≤ s.2.length) :
    storeAll (pre ++ (segments.map Prod.snd).flatten) (segmentStores pre.length segments).flatten =
    some (pre ++ (segments.map fun s => overwrite s.1 s.2).flatten) := by
  induction segments generalizing pre with
  | nil => simp [segmentStores]
  | cons s rest ih =>
    obtain ⟨news, row⟩ := s
    have fit : news.length ≤ row.length := fits _ mem_cons_self
    have first := storeAll_segment pre news row (rest.map Prod.snd).flatten fit
    have later := ih (pre ++ overwrite news row) fun s hs => fits s (mem_cons_of_mem _ hs)
    rw [length_append, overwrite_length fit] at later
    simp only [segmentStores, map_cons, flatten_cons, storeAll_append]
    rw [← append_assoc, first, Option.bind_some, later, append_assoc]

variable {segments : List (List α × List α)}

theorem segmentStores_address {k : Nat} {s : α × Nat}
    (mem : s ∈ (segmentStores k segments).flatten) : k ≤ s.2 := by
  induction segments generalizing k with
  | nil => simp [segmentStores] at mem
  | cons segment rest ih =>
    obtain ⟨news, row⟩ := segment
    simp only [segmentStores, flatten_cons, mem_append] at mem
    cases mem with
    | inl here => exact le_snd_of_mem_zipIdx here
    | inr later =>
      have := ih later
      omega

theorem segmentStores_distinct (k : Nat) (fits : ∀ s ∈ segments, s.1.length ≤ s.2.length) :
    ((segmentStores k segments).flatten.map Prod.snd).Nodup := by
  induction segments generalizing k with
  | nil => simp [segmentStores]
  | cons segment rest ih =>
    obtain ⟨news, row⟩ := segment
    have fit : news.length ≤ row.length := fits _ mem_cons_self
    simp only [segmentStores, flatten_cons, map_append]
    apply List.Nodup.append
    · rw [zipIdx_map_snd]
      exact nodup_range'
    · exact ih (k + row.length) fun s hs => fits s (mem_cons_of_mem _ hs)
    · intro address here later
      rw [zipIdx_map_snd, mem_range'_1] at here
      obtain ⟨s, hs, rfl⟩ := mem_map.mp later
      have := segmentStores_address hs
      omega

theorem launched_segments {buf' : List α} (fits : ∀ s ∈ segments, s.1.length ≤ s.2.length) :
    Launched (segmentStores 0 segments) (segments.map Prod.snd).flatten buf' ↔
    buf' = (segments.map fun s => overwrite s.1 s.2).flatten := by
  have done := storeAll_segments [] segments fits
  simp only [nil_append, length_nil] at done
  rw [launched_iff (segmentStores_distinct 0 fits), done, Option.some.injEq, eq_comm]

end VllmAmpere
