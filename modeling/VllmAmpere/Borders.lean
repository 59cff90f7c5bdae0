import Mathlib.Data.List.Basic
import Mathlib.Order.Bounds.Basic

/-! Borders: the proper prefixes of a prefix of a list that are suffixes of it as well. -/

open List

namespace Borders

variable {α : Type} {w : List α}

/-- The first `v` entries are a proper border of the first `p`. -/
structure IsBorder (w : List α) (v p : Nat) : Prop where
  proper : v < p
  suffix : w.take v <:+ w.take p

theorem isBorder_zero {p : Nat} (h : 0 < p) : IsBorder w 0 p :=
  ⟨h, nil_suffix⟩

theorem IsBorder.trans {v u p : Nat} (h : IsBorder w v u) (h' : IsBorder w u p) : IsBorder w v p :=
  ⟨h.proper.trans h'.proper, h.suffix.trans h'.suffix⟩

theorem IsBorder.of_lt {v u p : Nat} (h : IsBorder w v p) (h' : IsBorder w u p) (lt : v < u) :
    IsBorder w v u := by
  refine ⟨lt, suffix_of_suffix_length_le h.suffix h'.suffix ?_⟩
  rw [length_take, length_take]
  omega

theorem suffix_concat {xs ys : List α} {x y : α} : xs ++ [x] <:+ ys ++ [y] ↔ xs <:+ ys ∧ x = y := by
  rw [suffix_concat_iff]
  constructor
  · rintro (nil | ⟨t, joined, suffix⟩)
    · simp at nil
    · obtain ⟨rfl, rfl⟩ := append_inj' joined rfl |>.imp_right (fun h => head_eq_of_cons_eq h)
      exact ⟨suffix, rfl⟩
  · rintro ⟨suffix, rfl⟩
    exact .inr ⟨xs, rfl, suffix⟩

theorem isBorder_succ {v p : Nat} (h : p < w.length) :
    IsBorder w (v + 1) (p + 1) ↔ IsBorder w v p ∧ w[v]? = w[p]? := by
  constructor
  · intro border
    have inside : v < p := Nat.lt_of_succ_lt_succ border.proper
    have grown := border.suffix
    rw [take_add_one, take_add_one, getElem?_eq_getElem h,
      getElem?_eq_getElem (inside.trans h), Option.toList_some, Option.toList_some,
      suffix_concat] at grown
    refine ⟨⟨inside, grown.1⟩, ?_⟩
    rw [getElem?_eq_getElem h, getElem?_eq_getElem (inside.trans h), grown.2]
  · rintro ⟨border, same⟩
    refine ⟨Nat.succ_lt_succ border.proper, ?_⟩
    rw [take_add_one, take_add_one, same, getElem?_eq_getElem h,
      Option.toList_some, suffix_concat]
    exact ⟨border.suffix, rfl⟩

theorem isBorder_reverse {v p : Nat} (h : p ≤ w.length) : IsBorder w.reverse v p ↔
    v < p ∧ w.drop (w.length - v) <+: w.drop (w.length - p) := by
  constructor
  · intro border
    have suffix := border.suffix
    rw [take_reverse, take_reverse, reverse_suffix] at suffix
    exact ⟨border.proper, suffix⟩
  · rintro ⟨proper, starts⟩
    refine ⟨proper, ?_⟩
    rw [take_reverse, take_reverse, reverse_suffix]
    exact starts

end Borders
