import Mathlib.Algebra.BigOperators.Group.List.Basic
import VllmAmpere.Python

/-! Python dicts: their items in insertion order, no key twice, and sums over
their values. Nothing here is about a particular program. -/

open List

namespace VllmAmpere

universe u v

variable {κ : Type u} {α : Type v}

theorem lookup_cons_if [DecidableEq κ] (k : κ) (item : κ × α) (rest : List (κ × α)) :
    (item :: rest).lookup k = if k = item.1 then some item.2 else rest.lookup k := by
  rw [lookup_cons]
  by_cases hk : k = item.1
  · rw [if_pos hk, beq_iff_eq.mpr hk]
  · rw [if_neg hk, beq_eq_false_iff_ne.mpr hk]

theorem lookup_dictSet [DecidableEq κ] (key k : κ) (value : α) (items : List (κ × α)) :
    (dictSet key value items).lookup k = if k = key then some value else items.lookup k := by
  induction items with
  | nil =>
    rw [dictSet, lookup_cons_if]
  | cons item rest ih =>
    unfold dictSet
    by_cases hkey : item.1 = key
    · simp only [hkey, if_true, lookup_cons_if]
      split <;> rfl
    · simp only [hkey, if_false, lookup_cons_if, ih]
      by_cases hk : k = item.1
      · simp [hk, hkey]
      · simp [hk]

theorem map_fst_dictSet [DecidableEq κ] (key : κ) (value : α)
    (items : List (κ × α)) : (dictSet key value items).map Prod.fst =
    if key ∈ items.map Prod.fst then items.map Prod.fst else items.map Prod.fst ++ [key] := by
  induction items with
  | nil => simp [dictSet]
  | cons item rest ih =>
    unfold dictSet
    by_cases hkey : item.1 = key
    · simp [hkey]
    · simp only [hkey, if_false, map_cons, ih, mem_cons, Ne.symm hkey, false_or]
      split <;> simp

theorem sum_dictSet [DecidableEq κ] (f : α → Nat) (key : κ) (value : α) (items : List (κ × α)) :
    ((dictSet key value items).map fun item => f item.2).sum + (items.lookup key).elim 0 f =
    (items.map fun item => f item.2).sum + f value := by
  induction items with
  | nil => simp [dictSet]
  | cons item rest ih =>
    unfold dictSet
    by_cases hkey : item.1 = key
    · simp [lookup_cons_if, hkey]
      omega
    · simp only [hkey, if_false, map_cons, sum_cons, lookup_cons_if,
        Ne.symm hkey]
      omega

theorem sum_dictPop [DecidableEq κ] (f : α → Nat) (key : κ)
    (items : List (κ × α)) (nodup : (items.map Prod.fst).Nodup) :
    ((dictPop key items).2.map fun item => f item.2).sum + (items.lookup key).elim 0 f =
    (items.map fun item => f item.2).sum := by
  induction items with
  | nil => simp [dictPop]
  | cons item rest ih =>
    rw [map_cons, nodup_cons] at nodup
    have tail := ih nodup.2
    simp only [dictPop] at tail ⊢
    by_cases hkey : item.1 = key
    · have absent : rest.filter (fun other => other.1 ≠ key) = rest := by
        refine filter_eq_self.mpr fun other hother => ?_
        have := mem_map_of_mem (f := Prod.fst) hother
        simp only [ne_eq, decide_eq_true_eq]
        rintro e
        exact nodup.1 (by rw [hkey, ← e]; exact this)
      simp only [List.filter_cons, hkey, ne_eq, not_true, decide_false, map_cons,
        sum_cons, lookup_cons_if, if_true, Option.elim_some] at absent ⊢
      simp only [Bool.false_eq_true, if_false, absent]
      omega
    · simp only [List.filter_cons, hkey, ne_eq, not_false_eq_true, decide_true, if_true,
        map_cons, sum_cons, lookup_cons_if, Ne.symm hkey, if_false]
        at tail ⊢
      omega

theorem lookup_dictPop [DecidableEq κ] (key k : κ) (items : List (κ × α)) :
    (dictPop key items).2.lookup k = if k = key then none else items.lookup k := by
  induction items with
  | nil => simp [dictPop]
  | cons item rest ih =>
    simp only [dictPop] at ih ⊢
    by_cases hkey : item.1 = key
    · rw [List.filter_cons, if_neg (by simp [hkey]), ih, lookup_cons_if, hkey]
      by_cases hk : k = key <;> simp [hk]
    · rw [List.filter_cons, if_pos (by simp [hkey]), lookup_cons_if, lookup_cons_if, ih]
      by_cases hk : k = item.1
      · simp [hk, hkey]
      · simp [hk]

theorem mem_iff_lookup [DecidableEq κ] {items : List (κ × α)}
    (nodup : (items.map Prod.fst).Nodup) (key : κ) (value : α) :
    (key, value) ∈ items ↔ items.lookup key = some value := by
  induction items with
  | nil => simp
  | cons item rest ih =>
    rw [map_cons, nodup_cons] at nodup
    rw [mem_cons, ih nodup.2, lookup_cons_if]
    by_cases hkey : key = item.1
    · subst hkey
      have absent : rest.lookup item.1 ≠ some value := by
        intro found
        have := (ih nodup.2).mpr found
        exact nodup.1 (mem_map.mpr ⟨_, this, rfl⟩)
      simp [Prod.ext_iff, absent, eq_comm]
    · simp [Prod.ext_iff, hkey]

/-! ### Values listed by a key -/

section

variable [DecidableEq κ]

theorem dictAppend_items (key : κ) (value : α) (groups : List (κ × List α)) :
    ((dictAppend key value groups).flatMap Prod.snd).Perm (value :: groups.flatMap Prod.snd) := by
  induction groups with
  | nil => exact .refl _
  | cons group groups ih =>
    rw [dictAppend]
    split
    · rw [flatMap_cons, flatMap_cons, append_assoc]
      exact perm_middle
    · rw [flatMap_cons, flatMap_cons]
      exact (ih.append_left _).trans perm_middle

theorem dictAppend_keys (key : κ) (value : α) (groups : List (κ × List α)) :
    (dictAppend key value groups).map Prod.fst =
    if key ∈ groups.map Prod.fst then groups.map Prod.fst else groups.map Prod.fst ++ [key] := by
  induction groups with
  | nil => rfl
  | cons group groups ih =>
    rw [dictAppend]
    by_cases same : group.1 = key
    · rw [if_pos same, if_pos (by simp [same])]
      rfl
    · rw [if_neg same, map_cons, ih, map_cons]
      by_cases later : key ∈ groups.map Prod.fst
      · rw [if_pos later, if_pos (mem_cons_of_mem _ later)]
      · rw [if_neg later, if_neg (by simp [Ne.symm same]; simpa using later), cons_append]

theorem dictAppend_all {P : κ → α → Prop} {key : κ} {value : α} {groups : List (κ × List α)}
    (new : P key value) (old : ∀ group ∈ groups, group.2 ≠ [] ∧ ∀ x ∈ group.2, P group.1 x) :
    ∀ group ∈ dictAppend key value groups, group.2 ≠ [] ∧ ∀ x ∈ group.2, P group.1 x := by
  induction groups with
  | nil =>
    intro group hg
    rw [mem_singleton.mp hg]
    exact ⟨by simp, fun x hx => mem_singleton.mp hx ▸ new⟩
  | cons first groups ih =>
    intro group hg
    have rest := ih fun g hg => old g (mem_cons_of_mem _ hg)
    obtain ⟨some, all⟩ := old first mem_cons_self
    rw [dictAppend] at hg
    split at hg
    next same =>
      cases mem_cons.mp hg with
      | inl here =>
        rw [here]
        refine ⟨by simp, fun x hx => ?_⟩
        cases mem_append.mp hx with
        | inl before => exact all x before
        | inr last => rw [mem_singleton.mp last]; exact same ▸ new
      | inr later => exact old group (mem_cons_of_mem _ later)
    next =>
      cases mem_cons.mp hg with
      | inl here => rw [here]; exact ⟨some, all⟩
      | inr later => exact rest group later

end

/-- A dict. -/
structure PyDict (κ : Type u) (α : Type v) where
  items : List (κ × α)
  nodup : (items.map Prod.fst).Nodup

namespace PyDict

def empty : PyDict κ α := ⟨[], nodup_nil⟩

/-- `len(d)`. -/
def len (d : PyDict κ α) : Nat := d.items.length

def keys (d : PyDict κ α) : List κ := d.items.map Prod.fst

def values (d : PyDict κ α) : List α := d.items.map Prod.snd

def total (d : PyDict κ α) (f : α → Nat) : Nat := (d.items.map fun item => f item.2).sum

theorem nodup_items (d : PyDict κ α) : d.items.Nodup :=
  List.Pairwise.of_map Prod.fst (fun _ _ ne e => ne (congrArg Prod.fst e)) d.nodup

@[simp] theorem total_empty (f : α → Nat) : (empty : PyDict κ α).total f = 0 := rfl

variable [DecidableEq κ] (d : PyDict κ α)

/-- `d.get(key)`. -/
def get? (key : κ) : Option α := d.items.lookup key

/-- `d[key] = value`. -/
def set (key : κ) (value : α) : PyDict κ α where
  items := dictSet key value d.items
  nodup := by
    rw [map_fst_dictSet]
    split
    · exact d.nodup
    · exact nodup_append.mpr ⟨d.nodup, by simp, by simp; grind⟩

/-- `d.pop(key, None)`, without the value it returns. -/
def pop (key : κ) : PyDict κ α where
  items := (dictPop key d.items).2
  nodup := (d.nodup.sublist ((filter_sublist).map _))

/-- `d[key]`. -/
def getItem (key : κ) : Except PyError α :=
  match d.get? key with
  | some value => .ok value
  | none => .error .key

variable {key : κ} {value : α}

theorem getItem_ok {d : PyDict κ α} : d.getItem key = .ok value ↔ d.get? key = some value := by
  unfold getItem
  split <;> simp [*]

@[simp] theorem get?_empty (key : κ) : (empty : PyDict κ α).get? key = none := rfl

theorem get?_set (key k : κ) (value : α) :
    (d.set key value).get? k = if k = key then some value else d.get? k :=
  lookup_dictSet key k value d.items

@[simp] theorem get?_set_self (key : κ) (value : α) :
    (d.set key value).get? key = some value := by
  rw [get?_set, if_pos rfl]

theorem len_set_of_mem {old : α} (h : d.get? key = some old)
    (value : α) : (d.set key value).len = d.len := by
  have tracked : key ∈ d.items.map Prod.fst :=
    mem_map.mpr ⟨_, (mem_iff_lookup d.nodup key old).mpr h, rfl⟩
  have keys := map_fst_dictSet key value d.items
  rw [if_pos tracked] at keys
  have := congrArg List.length keys
  rwa [length_map, length_map] at this

theorem get?_pop (key k : κ) :
    (d.pop key).get? k = if k = key then none else d.get? k :=
  lookup_dictPop key k d.items

/-- `popitem(last=False)` leaves the items behind the first. -/
theorem pop_first {rest : List (κ × α)}
    (first : d.items = (key, value) :: rest) : (d.pop key).items = rest := by
  have nodup := d.nodup
  rw [first, map_cons, nodup_cons] at nodup
  have others : rest.filter (fun item => item.1 ≠ key) = rest := by
    refine filter_eq_self.mpr fun item hitem => ?_
    have := mem_map_of_mem (f := Prod.fst) hitem
    simp only [ne_eq, decide_eq_true_eq]
    exact fun e => nodup.1 (e ▸ this)
  simp only [pop, dictPop, first]
  rw [List.filter_cons, if_neg (by simp), others]

theorem mem_items (key : κ) (value : α) :
    (key, value) ∈ d.items ↔ d.get? key = some value :=
  mem_iff_lookup d.nodup key value

theorem mem_keys (key : κ) : key ∈ d.keys ↔ (d.get? key).isSome := by
  rw [Option.isSome_iff_exists]
  constructor
  · intro h
    have ⟨item, hitem, hkey⟩ := mem_map.mp h
    exact ⟨item.2, hkey ▸ (d.mem_items item.1 item.2).mp hitem⟩
  · rintro ⟨value, h⟩
    exact mem_map.mpr ⟨(key, value), (d.mem_items key value).mpr h, rfl⟩

theorem count_keys (key : κ) :
    d.keys.count key = if (d.get? key).isSome then 1 else 0 := by
  have distinct : d.keys.Nodup := d.nodup
  rw [distinct.count]
  simp only [d.mem_keys]

theorem items_eq_nil (none : ∀ key, d.get? key = none) : d.items = [] := by
  refine eq_nil_iff_forall_not_mem.mpr fun item mem => ?_
  rw [mem_items d item.1 item.2, none] at mem
  cases mem

theorem total_set (f : α → Nat) (key : κ) (value : α) :
    (d.set key value).total f + (d.get? key).elim 0 f = d.total f + f value :=
  sum_dictSet f key value d.items

theorem total_pop (f : α → Nat) (key : κ) :
    (d.pop key).total f + (d.get? key).elim 0 f = d.total f :=
  sum_dictPop f key d.items d.nodup

theorem items_set_new (value : α) (new : d.get? key = none) :
    (d.set key value).items = d.items ++ [(key, value)] := by
  have appended : ∀ items : List (κ × α), items.lookup key = none →
      dictSet key value items = items ++ [(key, value)] := by
    intro items
    induction items with
    | nil => exact fun _ => rfl
    | cons item rest ih =>
      intro absent
      rw [lookup_cons_if] at absent
      split at absent
      · cases absent
      next ne => rw [dictSet, if_neg (Ne.symm ne), ih absent, cons_append]
  exact appended d.items new

theorem items_perm_pop (found : d.get? key = some value) :
    d.items.Perm ((key, value) :: (d.pop key).items) := by
  refine (perm_ext_iff_of_nodup d.nodup_items ?_).mpr fun item => ?_
  · refine nodup_cons.mpr ⟨fun mem => ?_, (d.pop key).nodup_items⟩
    rw [mem_items, get?_pop, if_pos rfl] at mem
    cases mem
  · rw [mem_cons, mem_items d item.1 item.2, mem_items (d.pop key) item.1 item.2, get?_pop]
    split
    next same =>
      rw [same, found]
      constructor
      · intro h
        exact .inl (Prod.ext same (Option.some.inj h).symm)
      · rintro (rfl | h)
        · rfl
        · cases h
    next ne =>
      constructor
      · exact .inr
      · rintro (rfl | h)
        · exact absurd rfl ne
        · exact h

theorem len_pop (found : d.get? key = some value) : (d.pop key).len + 1 = d.len :=
  (d.items_perm_pop found).length_eq.symm

theorem len_le_total (f : α → Nat)
    (one : ∀ key value, d.get? key = some value → 1 ≤ f value) : d.len ≤ d.total f := by
  have bound := length_le_sum_of_one_le (d.items.map fun item => f item.2) fun n hn => by
    have ⟨item, hitem, hf⟩ := mem_map.mp hn
    exact hf ▸ one item.1 item.2 ((d.mem_items item.1 item.2).mp hitem)
  rwa [length_map] at bound

theorem all_one_of_total (f : α → Nat)
    (once : ∀ key value, d.get? key = some value → f value ≤ 1) (sum : d.total f = d.len)
    (h : d.get? key = some value) : f value = 1 := by
  have bound : ∀ item ∈ d.items, f item.2 ≤ 1 := fun item hitem =>
    once item.1 item.2 ((d.mem_items item.1 item.2).mp hitem)
  have all : ∀ items : List (κ × α), (∀ item ∈ items, f item.2 ≤ 1) →
      (items.map fun item => f item.2).sum ≤ items.length ∧
        ((items.map fun item => f item.2).sum = items.length → ∀ item ∈ items, f item.2 = 1) := by
    intro items
    induction items with
    | nil => simp
    | cons item rest ih =>
      intro small
      have first := small item (by simp)
      obtain ⟨le, one⟩ := ih fun other hother => small other (by simp [hother])
      rw [map_cons, sum_cons, length_cons]
      refine ⟨by omega, fun eq other hother => ?_⟩
      rcases mem_cons.mp hother with rfl | hother
      · omega
      · exact one (by omega) other hother
  exact (all d.items bound).2 sum (key, value) ((d.mem_items key value).mpr h)

end PyDict

end VllmAmpere
