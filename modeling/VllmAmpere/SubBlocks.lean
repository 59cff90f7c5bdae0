import Mathlib.Data.List.Flatten
import Mathlib.Data.List.Induction
import Mathlib.Data.List.Nodup

/-! Chunks cut into sub-blocks, and the elements that a filter keeps of a list: when they are
one run of neighbours. -/

open List

namespace VllmAmpere

variable {α β : Type*} (k : Nat) (chunks : List α)

/-- The chunks, each as its `k` sub-blocks. -/
def subBlocks : List (α × Nat) :=
  chunks.flatMap fun c => (List.range k).map fun j => (c, j)

@[simp] theorem subBlocks_nil : subBlocks k ([] : List α) = [] := rfl

theorem subBlocks_cons (c : α) (chunks : List α) :
    subBlocks k (c :: chunks) = (List.range k).map (fun j => (c, j)) ++ subBlocks k chunks := by
  simp [subBlocks]

@[simp] theorem subBlocks_length :
    (subBlocks k chunks).length = chunks.length * k := by
  induction chunks with
  | nil => simp
  | cons c rest ih =>
    rw [subBlocks_cons, length_append, ih, length_map, length_range,
      length_cons, Nat.succ_mul, Nat.add_comm]

theorem subBlocks_take (k m : Nat) (chunks : List α) :
    subBlocks k (chunks.take m) = (subBlocks k chunks).take (m * k) := by
  induction chunks generalizing m with
  | nil => simp
  | cons c rest ih =>
    cases m with
    | zero => simp
    | succ m =>
      obtain ⟨first, hfirst⟩ : ∃ xs, xs = (List.range k).map fun j => (c, j) := ⟨_, rfl⟩
      have length : first.length = k := by simp [hfirst]
      have all : first.take ((m + 1) * k) = first :=
        take_of_length_le (by rw [length, Nat.succ_mul]; omega)
      have left : (m + 1) * k - first.length = m * k := by
        rw [length, Nat.succ_mul, Nat.add_sub_cancel]
      rw [take_succ_cons, subBlocks_cons, subBlocks_cons, ih, ← hfirst, take_append, all,
        left]

theorem subBlocks_append (xs ys : List α) :
    subBlocks k (xs ++ ys) = subBlocks k xs ++ subBlocks k ys := by
  simp [subBlocks]

variable {k : Nat}

theorem subBlocks_getLast? (hk : 0 < k) (chunks : List α) :
    (subBlocks k chunks).getLast? = chunks.getLast?.map fun c => (c, k - 1) := by
  cases chunks using List.reverseRecOn with
  | nil => rfl
  | append_singleton rest c =>
    obtain ⟨j, rfl⟩ : ∃ j, k = j + 1 := ⟨k - 1, by omega⟩
    rw [subBlocks_append, subBlocks_cons, subBlocks_nil, range_succ]
    simp [← append_assoc]

theorem subBlocks_getElem? (hk : 0 < k) (chunks : List α) (i : Nat) :
    (subBlocks k chunks)[i]? = chunks[i / k]?.map fun c => (c, i % k) := by
  induction chunks generalizing i with
  | nil => simp
  | cons c rest ih =>
    have length : ((List.range k).map fun j => (c, j)).length = k := by simp
    rw [subBlocks_cons]
    by_cases first : i < k
    · rw [getElem?_append_left (by omega), Nat.div_eq_of_lt first, Nat.mod_eq_of_lt first]
      simp [first]
    · obtain ⟨j, rfl⟩ : ∃ j, i = j + k := ⟨i - k, by omega⟩
      rw [getElem?_append_right (by omega), length, Nat.add_sub_cancel, ih,
        Nat.add_div_right _ hk, Nat.add_mod_right, getElem?_cons_succ]

theorem subBlocks_one : subBlocks 1 chunks = chunks.map fun c => (c, 0) := by
  induction chunks with
  | nil => rfl
  | cons c rest ih => rw [subBlocks_cons, ih]; rfl

theorem subBlocks_map (k : Nat) (f : α → β) (chunks : List α) :
    subBlocks k (chunks.map f) = (subBlocks k chunks).map fun s => (f s.1, s.2) := by
  induction chunks with
  | nil => rfl
  | cons c rest ih =>
    rw [map_cons, subBlocks_cons, subBlocks_cons, ih, map_append, map_map]
    rfl

theorem mem_subBlocks {chunks : List α} {s : α × Nat} :
    s ∈ subBlocks k chunks ↔ s.1 ∈ chunks ∧ s.2 < k := by
  simp only [subBlocks, mem_flatMap, mem_map, mem_range]
  constructor
  · rintro ⟨c, hc, j, hj, rfl⟩
    exact ⟨hc, hj⟩
  · rintro ⟨hc, hj⟩
    exact ⟨s.1, hc, s.2, hj, rfl⟩

theorem subBlocks_nodup (k : Nat) {chunks : List α} (distinct : chunks.Nodup) :
    (subBlocks k chunks).Nodup := by
  induction chunks with
  | nil => exact nodup_nil
  | cons c rest ih =>
    rw [nodup_cons] at distinct
    rw [subBlocks_cons, nodup_append]
    refine ⟨?_, ih distinct.2, ?_⟩
    · apply List.Nodup.map
      · intro i j h
        exact (Prod.mk.inj h).2
      · exact nodup_range
    · intro a ha b hb hab
      obtain ⟨j, -, rfl⟩ := mem_map.mp ha
      subst hab
      exact distinct.1 (mem_subBlocks.mp hb).1

/-! What a filter keeps -/

theorem filter_mem_kept [DecidableEq α] {kept xs : List α} (distinct : xs.Nodup)
    (h : kept.Sublist xs) : xs.filter (· ∈ kept) = kept := by
  have within : kept.Sublist (xs.filter (· ∈ kept)) := by
    have := h.filter (· ∈ kept)
    rwa [filter_eq_self.mpr (by simp)] at this
  have same : kept.Perm (xs.filter (· ∈ kept)) := by
    rw [perm_ext_iff_of_nodup (distinct.sublist h) (distinct.filter _)]
    intro x
    have : x ∈ kept → x ∈ xs := fun hx => h.subset hx
    simpa using this
  exact (within.eq_of_length same.length_eq).symm

variable {p : α → Bool} {xs : List α}

theorem filter_drop_of_take (h : xs.take (xs.filter p).length = xs.filter p) :
    (∀ x ∈ xs.take (xs.filter p).length, p x = true) ∧
    ∀ x ∈ xs.drop (xs.filter p).length, p x = false := by
  obtain ⟨n, hn⟩ : ∃ n, (xs.filter p).length = n := ⟨_, rfl⟩
  rw [hn] at h ⊢
  have first : ∀ x ∈ xs.take n, p x = true := by
    intro x hx
    rw [h] at hx
    exact (mem_filter.mp hx).2
  refine ⟨first, ?_⟩
  have split : xs.filter p = xs.take n ++ (xs.drop n).filter p := by
    conv_lhs => rw [← take_append_drop n xs, filter_append]
    rw [filter_eq_self.mpr first]
  have none_left : (xs.drop n).filter p = [] := by
    rw [h] at split
    exact append_cancel_left (split.symm.trans (append_nil _).symm)
  intro x hx
  have := filter_eq_nil_iff.mp none_left x hx
  simpa using this

theorem eq_of_map_eq {f : α → β} {xs ys zs : List α} (distinct : (zs.map f).Nodup)
    (hxs : ∀ x ∈ xs, x ∈ zs) (hys : ∀ y ∈ ys, y ∈ zs) (h : xs.map f = ys.map f) : xs = ys := by
  induction xs generalizing ys with
  | nil => exact (map_eq_nil_iff.mp h.symm).symm
  | cons x xs ih =>
    cases ys with
    | nil => cases h
    | cons y ys =>
      obtain ⟨head, tail⟩ := List.cons.inj h
      have same := inj_on_of_nodup_map distinct (hxs x mem_cons_self)
        (hys y mem_cons_self) head
      rw [same, ih (fun a ha => hxs a (mem_cons_of_mem _ ha))
        (fun a ha => hys a (mem_cons_of_mem _ ha)) tail]

theorem filter_drop_findIdx (p : α → Bool) (xs : List α) :
    (xs.drop (xs.findIdx p)).filter p = xs.filter p := by
  induction xs with
  | nil => rfl
  | cons x xs ih =>
    rw [findIdx_cons]
    cases kept : p x with
    | true => simp
    | false => simp [kept, ih]

theorem subBlocks_first (hk : 0 < k) {c : α} {rest : List α} {p : α × Nat → Bool}
    (last : p (c, k - 1) = true) : (subBlocks k (c :: rest)).findIdx p < k ∧
    (subBlocks k (c :: rest)).find? p = some (c, (subBlocks k (c :: rest)).findIdx p) := by
  obtain ⟨xs, hxs⟩ : ∃ xs, xs = subBlocks k (c :: rest) := ⟨_, rfl⟩
  have at' : ∀ i < k, xs[i]? = some (c, i) := by
    intro i hi
    rw [hxs, subBlocks_cons, getElem?_append_left (by simpa using hi)]
    simp [hi]
  have bound : xs.findIdx p < k := by
    have here := at' (k - 1) (by omega)
    have inside : k - 1 < xs.length := (List.getElem?_eq_some_iff.mp here).1
    have value : xs[k - 1] = (c, k - 1) := (List.getElem?_eq_some_iff.mp here).2
    by_contra far
    have := not_of_lt_findIdx (show k - 1 < xs.findIdx p by omega)
    rw [value, last] at this
    cases this
  rw [← hxs]
  refine ⟨bound, ?_⟩
  have here := at' _ bound
  rw [← here, find?_eq_getElem?_findIdx]

theorem run_of_no_gap (f : α → β) (noGap : ∀ x ∈ xs.drop (xs.findIdx p), p x = true) :
    ((xs.drop (xs.findIdx p)).map f).take (xs.filter p).length = (xs.filter p).map f := by
  have same : xs.filter p = xs.drop (xs.findIdx p) := by
    rw [← filter_drop_findIdx]
    exact filter_eq_self.mpr noGap
  rw [same, take_of_length_le]
  simp

theorem no_gap_of_run {f : α → β} (distinct : (xs.map f).Nodup)
    (last : ∀ x, xs.getLast? = some x → p x = true)
    (run : ((xs.drop (xs.findIdx p)).map f).take (xs.filter p).length = (xs.filter p).map f) :
    ∀ x ∈ xs.drop (xs.findIdx p), p x = true := by
  obtain ⟨ys, hys⟩ : ∃ ys, ys = xs.drop (xs.findIdx p) := ⟨_, rfl⟩
  have kept : ys.filter p = xs.filter p := by rw [hys, filter_drop_findIdx]
  rw [← hys, ← kept, ← map_take] at run
  have first : ys.take (ys.filter p).length = ys.filter p := by
    have own : (ys.map f).Nodup := by
      rw [hys]
      exact distinct.sublist ((drop_sublist _ _).map f)
    exact eq_of_map_eq own (fun y hy => mem_of_mem_take hy)
      (fun y hy => mem_of_mem_filter hy) run
  have ⟨taken, left⟩ := filter_drop_of_take first
  have nothingLeft : ys.drop (ys.filter p).length = [] := by
    by_contra some_left
    have mem := getLast_mem some_left
    have whole : xs.getLast? = some ((ys.drop (ys.filter p).length).getLast some_left) := by
      have shorter : (ys.drop (ys.filter p).length).getLast? = xs.getLast? := by
        rw [hys, drop_drop, getLast?_drop, if_neg]
        intro short
        apply some_left
        rw [hys, drop_drop]
        exact drop_eq_nil_of_le short
      rw [← shorter, getLast?_eq_some_getLast some_left]
    have out := left _ mem
    rw [last _ whole] at out
    cases out
  intro x hx
  rw [← hys, ← take_append_drop (ys.filter p).length ys, nothingLeft, append_nil] at hx
  exact taken x hx

end VllmAmpere
