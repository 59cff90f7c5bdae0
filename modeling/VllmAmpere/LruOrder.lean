import Mathlib.Algebra.GroupWithZero.Nat
import Mathlib.Algebra.Order.BigOperators.Group.Finset

/-! Entries with sizes in the order of their last use, the oldest first: moving an entry to the
end, evicting from the front, and entries of a group that are behind all others and so stay as
long as the group fits. Nothing here is about a particular program. -/

namespace VllmAmpere.LruOrder

variable {κ : Type*}

/-- Keys with the sizes of their values, the least recently used first. -/
abbrev Entries (κ : Type*) := List (κ × Nat)

namespace Entries

def keys (es : Entries κ) : List κ := es.map Prod.fst

def total (es : Entries κ) : Nat := (es.map Prod.snd).sum

/-- The oldest entries go until `size` fits. -/
def evict (cap size : Nat) : Entries κ → Entries κ
  | [] => []
  | e :: rest => if total (e :: rest) + size ≤ cap then e :: rest else evict cap size rest

variable [DecidableEq κ]

def without (key : κ) (es : Entries κ) : Entries κ := es.filter fun e => e.1 ≠ key

def moveToEnd (key : κ) (es : Entries κ) : Entries κ :=
  es.without key ++ es.filter fun e => e.1 = key

/-- A use of a key: an entry goes to the end, a new one is put there if it fits at all. -/
def use (cap : Nat) (es : Entries κ) (key : κ) (size : Nat) : Entries κ :=
  if key ∈ es.keys then es.moveToEnd key
  else if size ≤ cap then es.evict cap size ++ [(key, size)] else es

variable {es : Entries κ} {key k : κ} {cap size : Nat}

theorem perm_moveToEnd (key : κ) (es : Entries κ) : (es.moveToEnd key).Perm es := by
  have split := List.filter_append_perm (fun e : κ × Nat => decide (e.1 ≠ key)) es
  refine List.Perm.trans (List.Perm.of_eq ?_) split
  rw [moveToEnd, without]
  congr 1
  exact List.filter_congr fun e _ => by by_cases same : e.1 = key <;> simp [same]

omit [DecidableEq κ] in
theorem evict_append (old : Entries κ) {recent : Entries κ} (fits : recent.total + size ≤ cap) :
    ∃ left, evict cap size (old ++ recent) = left ++ recent ∧ left <:+ old := by
  induction old with
  | nil =>
    refine ⟨[], ?_, List.suffix_rfl⟩
    cases recent with
    | nil => rfl
    | cons e rest =>
      rw [List.nil_append, evict, if_pos fits]
  | cons e old ih =>
    rw [List.cons_append, evict]
    split
    · exact ⟨e :: old, rfl, List.suffix_rfl⟩
    · obtain ⟨left, eq, suffix⟩ := ih
      exact ⟨left, eq, suffix.trans (List.suffix_cons e old)⟩

omit [DecidableEq κ] in
theorem nodup_append_new (nodup : es.keys.Nodup) (absent : key ∉ es.keys) :
    (es ++ [(key, size)] : Entries κ).keys.Nodup := by
  rw [keys, List.map_append, List.map_singleton, List.nodup_append]
  refine ⟨nodup, List.nodup_singleton _, ?_⟩
  rintro k mem _ last rfl
  rw [List.mem_singleton.mp last] at mem
  exact absent mem

end Entries

open Entries

variable [DecidableEq κ]

/-- The entries of a group are behind all others, and have at most the sizes `w`. -/
def Recent (group : κ → Prop) (w : κ → Nat) (es : Entries κ) : Prop :=
  es.keys.Nodup ∧ ∃ old recent, es = old ++ recent ∧ (∀ e ∈ old, ¬group e.1) ∧
    ∀ e ∈ recent, group e.1 ∧ e.2 ≤ w e.1

namespace Recent

variable {group : κ → Prop} {w : κ → Nat} {es : Entries κ} {key k : κ} {cap size : Nat}

omit [DecidableEq κ] in
theorem none (nodup : es.keys.Nodup) : Recent (fun _ => False) w es :=
  ⟨nodup, es, [], (List.append_nil es).symm, fun _ _ => id, nofun⟩

theorem moveToEnd (h : Recent group w es) (bound : ∀ e ∈ es, e.1 = key → e.2 ≤ w key) :
    Recent (fun k => group k ∨ k = key) w (es.moveToEnd key) := by
  obtain ⟨nodup, old, recent, rfl, before, behind⟩ := h
  refine ⟨((perm_moveToEnd key _).map Prod.fst).nodup_iff.mpr nodup, old.without key,
    recent.without key ++ (old ++ recent).filter (fun e => e.1 = key), ?_, ?_, ?_⟩
  · rw [Entries.moveToEnd, without, List.filter_append, List.append_assoc]
    rfl
  · intro e mem
    obtain ⟨mem, ne⟩ := List.mem_filter.mp mem
    exact not_or.mpr ⟨before e mem, of_decide_eq_true ne⟩
  · intro e mem
    rcases List.mem_append.mp mem with mem | mem
    · have := behind e (List.mem_filter.mp mem).1
      exact ⟨.inl this.1, this.2⟩
    · obtain ⟨mem, same⟩ := List.mem_filter.mp mem
      have same : e.1 = key := of_decide_eq_true same
      exact ⟨.inr same, same ▸ bound e mem same⟩

omit [DecidableEq κ] in
theorem congr {group' : κ → Prop} (h : Recent group w es) (same : ∀ k, group k ↔ group' k) :
    Recent group' w es := by
  rwa [← funext fun k => propext (same k)]

omit [DecidableEq κ] in
theorem bound (h : Recent group w es) {e : κ × Nat} (mem : e ∈ es) (of : group e.1) :
    e.2 ≤ w e.1 := by
  obtain ⟨-, old, recent, rfl, before, behind⟩ := h
  rcases List.mem_append.mp mem with mem | mem
  · exact absurd of (before e mem)
  · exact (behind e mem).2

theorem move (h : Recent group w es) (of : group key) : Recent group w (es.moveToEnd key) :=
  (h.moveToEnd fun _ mem same => same ▸ h.bound mem (same ▸ of)).congr fun _ =>
    ⟨fun either => either.elim id fun same => same ▸ of, .inl⟩

theorem without (h : Recent group w es) : Recent group w (es.without key) := by
  obtain ⟨nodup, old, recent, rfl, before, behind⟩ := h
  refine ⟨nodup.sublist (List.filter_sublist.map _), old.without key, recent.without key, ?_,
    fun e mem => before e (List.mem_filter.mp mem).1,
    fun e mem => behind e (List.mem_filter.mp mem).1⟩
  rw [Entries.without, List.filter_append]
  rfl

/-- A group that fits as a whole loses no entry when one of its keys is put at the end. -/
theorem put {members : Finset κ} (h : Recent (· ∈ members) w es) (of : key ∈ members)
    (absent : key ∉ es.keys) (small : size ≤ w key) (fits : ∑ k ∈ members, w k ≤ cap) :
    Recent (· ∈ members) w (es.evict cap size ++ [(key, size)]) ∧
    ∀ k ∈ members, k ∈ es.keys → k ∈ (es.evict cap size ++ [(key, size)] : Entries κ).keys := by
  obtain ⟨nodup, old, recent, rfl, before, behind⟩ := h
  have distinct : recent.keys.Nodup := nodup.sublist ((List.sublist_append_right old recent).map _)
  have room : recent.total + size ≤ cap := by
    have least : recent.total ≤ ∑ k ∈ recent.keys.toFinset, w k := by
      rw [List.sum_toFinset w distinct, keys, List.map_map, total]
      exact List.sum_le_sum fun e mem => (behind e mem).2
    have others : recent.keys.toFinset ⊆ members.erase key := fun k mem => by
      obtain ⟨e, he, rfl⟩ := List.mem_map.mp (List.mem_toFinset.mp mem)
      refine Finset.mem_erase.mpr ⟨fun same => absent ?_, (behind e he).1⟩
      exact same ▸ List.mem_map_of_mem (List.mem_append_right old he)
    have whole := Finset.add_sum_erase members w of
    have part := Finset.sum_le_sum_of_subset (f := w) others
    omega
  obtain ⟨left, evicted, suffix⟩ := evict_append old room
  rw [evicted]
  have fresh : (left ++ recent).keys.Nodup ∧ key ∉ (left ++ recent).keys := by
    have sub : (left ++ recent).Sublist (old ++ recent) := suffix.sublist.append_right recent
    exact ⟨nodup.sublist (sub.map _), fun mem => absent ((sub.map Prod.fst).subset mem)⟩
  refine ⟨⟨nodup_append_new fresh.1 fresh.2, left, recent ++ [(key, size)],
    List.append_assoc .., fun e mem => before e (suffix.subset mem), fun e mem => ?_⟩,
    fun k of mem => ?_⟩
  · rcases List.mem_append.mp mem with mem | mem
    · exact behind e mem
    · rw [List.mem_singleton.mp mem]
      exact ⟨of, small⟩
  · obtain ⟨e, he, rfl⟩ := List.mem_map.mp mem
    rcases List.mem_append.mp he with he | he
    · exact absurd of (before e he)
    · exact List.mem_map_of_mem (List.mem_append_left _ (List.mem_append_right left he))

end Recent

end VllmAmpere.LruOrder
