import Mathlib.Data.List.Nodup
import Mathlib.Data.List.Range
import VllmAmpere.PyDict
import VllmAmpere.RowReplay

/-! A dict that says in which row each value is, beside the rows. Nothing here is
about a particular program. -/

open List

namespace VllmAmpere

universe u

def Inverse {R : Type u} [DecidableEq R] (d : PyDict R Nat) (c : Rows R) : Prop :=
  ∀ id i, d.get? id = some i ↔ c i = some id

namespace Inverse

variable {R : Type u} [DecidableEq R] {d : PyDict R Nat} {c : Rows R}

theorem empty : Inverse (PyDict.empty : PyDict R Nat) fun _ => none := by
  intro id i
  constructor <;> exact nofun

section

variable (h : Inverse d c)
include h

theorem unique {i j : Nat} {id : R} (first : c i = some id)
    (second : c j = some id) : i = j := by
  rw [← h] at first second
  exact Option.some.inj (first.symm.trans second)

theorem absent {id : R} (missing : d.get? id = none) (i : Nat) :
    c i ≠ some id := by
  intro there
  rw [(h id i).mpr there] at missing
  cases missing

theorem pop {id : R} {i : Nat} (there : c i = some id) :
    Inverse (d.pop id) (Function.update c i none) := by
  intro id' j
  rw [PyDict.get?_pop, Rows.update_at]
  by_cases same : id' = id
  · rw [if_pos same]
    subst same
    refine ⟨nofun, fun here => ?_⟩
    split at here
    · cases here
    next other => exact absurd (h.unique here there) other
  · rw [if_neg same, h id' j]
    refine ⟨fun here => ?_, fun here => ?_⟩
    · rw [if_neg, here]
      rintro rfl
      exact same (Option.some.inj (here.symm.trans there))
    · split at here
      · cases here
      · exact here

theorem set_new {id : R} {i : Nat} (missing : d.get? id = none)
    (free : c i = none) : Inverse (d.set id i) (Function.update c i (some id)) := by
  intro id' j
  rw [PyDict.get?_set, Rows.update_at]
  by_cases same : id' = id
  · subst same
    rw [if_pos rfl]
    refine ⟨fun here => if_pos (Option.some.inj here).symm, fun here => ?_⟩
    split at here
    next e => rw [e]
    · exact absurd here (h.absent missing j)
  · rw [if_neg same, h id' j]
    refine ⟨fun here => ?_, fun here => ?_⟩
    · rw [if_neg, here]
      rintro rfl
      rw [free] at here
      cases here
    · split at here
      · exact absurd (Option.some.inj here).symm same
      · exact here

theorem slide {id : R} {a b : Nat} (there : c a = some id)
    (free : c b = none) : Inverse (d.set id b) (c.slide a b) := by
  intro id' j
  rw [PyDict.get?_set, Rows.slide_at, there]
  by_cases same : id' = id
  · subst same
    rw [if_pos rfl]
    refine ⟨fun here => if_pos (Option.some.inj here).symm, fun here => ?_⟩
    split at here
    next e => rw [e]
    · split at here
      · cases here
      next other => exact absurd (h.unique here there) other
  · rw [if_neg same, h id' j]
    refine ⟨fun here => ?_, fun here => ?_⟩
    · rw [if_neg, if_neg, here]
      · rintro rfl
        exact same (Option.some.inj (here.symm.trans there))
      · rintro rfl
        rw [free] at here
        cases here
    · split at here
      · exact absurd (Option.some.inj here).symm same
      · split at here
        · cases here
        · exact here

theorem swap {x y : R} {a b : Nat} (first : c a = some x)
    (second : c b = some y) : Inverse ((d.set x b).set y a) (c.swap a b) := by
  intro id j
  rw [PyDict.get?_set, PyDict.get?_set, Rows.swap_at, first, second]
  by_cases is_y : id = y
  · subst is_y
    rw [if_pos rfl]
    by_cases at_b : j = b
    · rw [if_pos at_b]
      refine ⟨fun here => ?_, fun here => ?_⟩
      · cases here
        rw [← first, ← second, at_b]
      · cases here
        rw [h.unique first second, at_b]
    · rw [if_neg at_b]
      refine ⟨fun here => if_pos (Option.some.inj here).symm, fun here => ?_⟩
      split at here
      next e => rw [e]
      · exact absurd (h.unique here second) at_b
  · rw [if_neg is_y]
    by_cases is_x : id = x
    · subst is_x
      rw [if_pos rfl]
      refine ⟨fun here => if_pos (Option.some.inj here).symm, fun here => ?_⟩
      split at here
      next e => rw [e]
      · split at here
        · exact absurd (Option.some.inj here).symm is_y
        next other => exact absurd (h.unique here first) other
    · rw [if_neg is_x, h id j]
      refine ⟨fun here => ?_, fun here => ?_⟩
      · rw [if_neg, if_neg, here]
        · rintro rfl
          exact is_x (Option.some.inj (here.symm.trans first))
        · rintro rfl
          exact is_y (Option.some.inj (here.symm.trans second))
      · split at here
        · exact absurd (Option.some.inj here).symm is_x
        · split at here
          · exact absurd (Option.some.inj here).symm is_y
          · exact here

end

theorem length_of_range {l : List Nat} (nodup : l.Nodup) {n : Nat} (range : ∀ i, i ∈ l ↔ i < n) :
    l.length = n := by
  have perm : l.Perm (List.range n) :=
    (perm_ext_iff_of_nodup nodup nodup_range).mpr fun i => by
      rw [range i, mem_range]
  rw [perm.length_eq, length_range]

theorem mem_values (h : Inverse d c) (i : Nat) : i ∈ d.values ↔ c i ≠ none := by
  rw [PyDict.values, mem_map]
  constructor
  · rintro ⟨⟨id, j⟩, mem, rfl⟩
    rw [d.mem_items, h] at mem
    rw [mem]
    exact nofun
  · intro there
    obtain ⟨id, found⟩ := Option.ne_none_iff_exists'.mp there
    exact ⟨(id, i), (d.mem_items id i).mpr ((h id i).mpr found), rfl⟩

theorem nodup_values (h : Inverse d c) : d.values.Nodup := by
  refine d.nodup_items.map_on ?_
  rintro ⟨id, i⟩ mem ⟨id', j⟩ mem' (rfl : i = j)
  rw [d.mem_items, h] at mem mem'
  rw [Option.some.inj (mem.symm.trans mem')]

/-- The rows in use and the free ones below `n` are all the rows below `n`. -/
theorem count (h : Inverse d c) (free : List Nat) (nodup : free.Nodup) {n : Nat}
    (rows : ∀ i, i < n ↔ i ∈ free ∨ c i ≠ none) (apart : ∀ i ∈ free, c i = none) :
    d.len + free.length = n := by
  have length : d.len = d.values.length := (length_map _).symm
  rw [length, ← length_append]
  refine length_of_range (nodup_append.mpr ⟨h.nodup_values, nodup, ?_⟩) fun i => ?_
  · rintro i used j unused rfl
    exact (h.mem_values i).mp used (apart i unused)
  · rw [mem_append, h.mem_values, rows i, or_comm]

end Inverse

end VllmAmpere
