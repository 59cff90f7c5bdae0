import Mathlib.Data.List.Basic

/-! Occurrences of patterns in a text, by where they end, and the first of several patterns
to end. Nothing here is about a particular program. -/

open List

namespace VllmAmpere

variable {α : Type}

/-- `text.find(sub, start)`; a negative start counts from the end. -/
def pyFind [DecidableEq α] (text sub : List α) (start : Int) : Option Nat :=
  let first := if start < 0 then (text.length + start).toNat else start.toNat
  (List.range (text.length + 1)).find? fun i => first ≤ i && sub.isPrefixOf (text.drop i)

/-- An occurrence of a pattern that ends behind `e` letters of a text. -/
def EndsAt (text sub : List α) (e : Nat) : Prop := ∃ i, i + sub.length = e ∧ sub <+: text.drop i

section endsAt

variable {text sub : List α} {e : Nat}

theorem EndsAt.le_length (h : EndsAt text sub e) (some : sub ≠ []) : e ≤ text.length := by
  obtain ⟨i, rfl, occurs⟩ := h
  have fits := occurs.length_le
  have positive := length_pos_iff.mpr some
  rw [length_drop] at fits
  omega

theorem EndsAt.append (h : EndsAt text sub e) (some : sub ≠ []) (more : List α) :
    EndsAt (text ++ more) sub e := by
  have bound := h.le_length some
  have ⟨i, ends, occurs⟩ := h
  refine ⟨i, ends, ?_⟩
  rw [drop_append_of_le_length (by omega)]
  exact occurs.trans (prefix_append _ _)

theorem EndsAt.of_append {more : List α} (h : EndsAt (text ++ more) sub e)
    (inside : e ≤ text.length) : EndsAt text sub e := by
  have ⟨i, ends, occurs⟩ := h
  refine ⟨i, ends, ?_⟩
  rw [drop_append_of_le_length (by omega)] at occurs
  refine prefix_of_prefix_length_le occurs (prefix_append _ _) ?_
  rw [length_drop]
  omega

end endsAt

section find

variable {text sub : List α} {b n : Nat}

theorem window_start (last : b + n = text.length) (positive : 0 < n) (some : sub ≠ []) (i : Nat) :
    (if (1 - n - sub.length : Int) < 0 then (text.length + (1 - n - sub.length : Int)).toNat
    else (1 - n - sub.length : Int).toNat) ≤ i ↔ b < i + sub.length := by
  have length := length_pos_iff.mpr some
  rw [if_pos (by omega)]
  omega

variable [DecidableEq α]

theorem pyFind_eq_some {start : Int} {i : Nat} (h : pyFind text sub start = some i) :
    (if start < 0 then (text.length + start).toNat else start.toNat) ≤ i ∧ sub <+: text.drop i ∧
    ∀ j < i, (if start < 0 then (text.length + start).toNat else start.toNat) ≤ j →
    ¬sub <+: text.drop j := by
  have ⟨found, bound, before⟩ := find?_range_eq_some.mp h
  rw [Bool.and_eq_true, decide_eq_true_eq, List.isPrefixOf_iff_prefix] at found
  refine ⟨found.1, found.2, fun j less late occurs => ?_⟩
  have missed := before j less
  simp only [Bool.not_and, Bool.or_eq_true, Bool.not_eq_true', decide_eq_false_iff_not] at missed
  rcases missed with early | absent
  · exact early late
  · rw [← Bool.not_eq_true, List.isPrefixOf_iff_prefix] at absent
    exact absent occurs

theorem pyFind_eq_none {start : Int} (h : pyFind text sub start = none) (j : Nat)
    (bound : j ≤ text.length)
    (late : (if start < 0 then (text.length + start).toNat else start.toNat) ≤ j) :
    ¬sub <+: text.drop j := by
  have missed := find?_eq_none.mp h j (mem_range.mpr (by omega))
  rw [Bool.and_eq_true, decide_eq_true_eq, List.isPrefixOf_iff_prefix] at missed
  exact fun occurs => missed ⟨late, occurs⟩

theorem pyFind_window_some (last : b + n = text.length) (positive : 0 < n) (some : sub ≠ [])
    {i : Nat} (h : pyFind text sub (1 - n - sub.length) = Option.some i) :
    EndsAt text sub (i + sub.length) ∧ b < i + sub.length ∧
    ∀ e, EndsAt text sub e → b < e → i + sub.length ≤ e := by
  have ⟨late, occurs, first⟩ := pyFind_eq_some h
  rw [window_start last positive some] at late
  refine ⟨⟨i, rfl, occurs⟩, late, ?_⟩
  rintro e ⟨j, rfl, occurs'⟩ late'
  by_contra earlier
  refine first j (by omega) ?_ occurs'
  rw [window_start last positive some]
  exact late'

theorem pyFind_window_none (last : b + n = text.length) (positive : 0 < n) (some : sub ≠ [])
    (h : pyFind text sub (1 - n - sub.length) = none) {e : Nat} (ends : EndsAt text sub e) :
    e ≤ b := by
  have bound := ends.le_length some
  obtain ⟨j, rfl, occurs⟩ := ends
  by_contra late
  refine pyFind_eq_none h j (by omega) ?_ occurs
  rw [window_start last positive some]
  omega

end find

/-- A pattern is the first of a list to end behind `b` letters of a text; of those that end
together, the one that is listed first. -/
structure FirstEnd (text : List α) (stops : List (List α)) (b : Nat) (sub : List α) (e : Nat) :
    Prop where
  ends : EndsAt text sub e
  late : b < e
  first : ∀ other ∈ stops, ∀ e', EndsAt text other e' → b < e' → e ≤ e'
  listed : ∃ before after, stops = before ++ sub :: after ∧
    ∀ other ∈ before, ¬EndsAt text other e

section firstEnd

variable {text sub : List α} {stops : List (List α)} {b e : Nat}

theorem FirstEnd.mem (h : FirstEnd text stops b sub e) : sub ∈ stops := by
  obtain ⟨before, after, rfl, _⟩ := h.listed
  exact mem_append_right _ mem_cons_self

theorem FirstEnd.unique {sub' : List α} {e' : Nat} (h : FirstEnd text stops b sub e)
    (h' : FirstEnd text stops b sub' e') : sub = sub' ∧ e = e' := by
  have same : e = e' :=
    Nat.le_antisymm (h.first sub' h'.mem e' h'.ends h'.late) (h'.first sub h.mem e h.ends h.late)
  subst same
  refine ⟨?_, rfl⟩
  obtain ⟨before, after, rfl, none⟩ := h.listed
  obtain ⟨before', after', split, none'⟩ := h'.listed
  rcases append_eq_append_iff.mp split with ⟨more, left, right⟩ | ⟨more, left, right⟩
  · cases more with
    | nil => exact (List.cons.inj right).1
    | cons x rest =>
      obtain ⟨rfl, _⟩ := List.cons.inj right
      rw [left] at none'
      exact absurd h.ends (none' sub (mem_append_right _ mem_cons_self))
  · cases more with
    | nil => exact (List.cons.inj right).1.symm
    | cons x rest =>
      obtain ⟨rfl, _⟩ := List.cons.inj right
      rw [left] at none
      exact absurd h'.ends (none sub' (mem_append_right _ mem_cons_self))

theorem FirstEnd.append (h : FirstEnd text stops b sub e) (some : ∀ s ∈ stops, s ≠ [])
    (more : List α) : FirstEnd (text ++ more) stops b sub e := by
  have bound := h.ends.le_length (some sub h.mem)
  refine ⟨h.ends.append (some sub h.mem) more, h.late, fun other listed e' ends late => ?_, ?_⟩
  · by_contra earlier
    exact earlier (h.first other listed e' (ends.of_append (by omega)) late)
  · have ⟨before, after, split, absent⟩ := h.listed
    exact ⟨before, after, split, fun other listed ends => absent other listed (ends.of_append bound)⟩

theorem FirstEnd.earlier {b' : Nat} (h : FirstEnd text stops b sub e) (le : b' ≤ b)
    (none : ∀ other ∈ stops, ∀ e', EndsAt text other e' → e' ≤ b → e' ≤ b') :
    FirstEnd text stops b' sub e := by
  refine ⟨h.ends, by have := h.late; omega, fun other listed e' ends late => ?_, h.listed⟩
  by_cases early : e' ≤ b
  · have := none other listed e' ends early
    omega
  · exact h.first other listed e' ends (by omega)

theorem FirstEnd.snoc {sub' : List α} (h : FirstEnd text stops b sub e)
    (later : ∀ e', EndsAt text sub' e' → b < e' → e ≤ e') :
    FirstEnd text (stops ++ [sub']) b sub e := by
  refine ⟨h.ends, h.late, fun other listed e' ends late => ?_, ?_⟩
  · rcases mem_append.mp listed with listed | same
    · exact h.first other listed e' ends late
    · exact later e' (mem_singleton.mp same ▸ ends) late
  · have ⟨before, after, split, absent⟩ := h.listed
    exact ⟨before, after ++ [sub'], by rw [split, append_assoc, cons_append], absent⟩

theorem FirstEnd.of_last (ends : EndsAt text sub e) (late : b < e)
    (first : ∀ e', EndsAt text sub e' → b < e' → e ≤ e')
    (before : ∀ other ∈ stops, ∀ e', EndsAt text other e' → b < e' → e < e') :
    FirstEnd text (stops ++ [sub]) b sub e := by
  refine ⟨ends, late, fun other listed e' ends late => ?_, stops, [], rfl, fun other listed ends' => ?_⟩
  · rcases mem_append.mp listed with listed | same
    · exact Nat.le_of_lt (before other listed e' ends late)
    · exact first e' (mem_singleton.mp same ▸ ends) late
  · exact Nat.lt_irrefl e (before other listed e ends' late)

end firstEnd

end VllmAmpere
