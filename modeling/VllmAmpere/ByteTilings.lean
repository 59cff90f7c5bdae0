import Mathlib.Data.List.Perm.Subperm
import Mathlib.Data.List.Range

/-! Half open intervals that tile an initial segment, and the digits of numbers in mixed
radix. Nothing here is about a particular program. -/

open List

namespace VllmAmpere.Tilings

/-- The order of pairs, as `sorted` has it. -/
def pairLe (a b : Nat × Nat) : Bool := a.1 < b.1 || (a.1 == b.1 && a.2 ≤ b.2)

variable (intervals : List (Nat × Nat))

def sorted : List (Nat × Nat) := intervals.mergeSort pairLe

def points (interval : Nat × Nat) : List Nat := List.range' interval.1 (interval.2 - interval.1)

theorem mem_points {interval : Nat × Nat} {x : Nat} :
    x ∈ points interval ↔ interval.1 ≤ x ∧ x < interval.2 := by
  rw [points, mem_range'_1]
  omega

theorem sorted_perm : (sorted intervals).Perm intervals :=
  mergeSort_perm intervals pairLe

theorem sorted_pairwise :
    (sorted intervals).Pairwise fun a b => a.1 ≤ b.1 := by
  have ordered : (sorted intervals).Pairwise fun a b => pairLe a b := by
    apply pairwise_mergeSort
    · intro a b c first second
      unfold pairLe at *
      simp only [Bool.or_eq_true, decide_eq_true_eq, Bool.and_eq_true, beq_iff_eq] at *
      omega
    · intro a b
      unfold pairLe
      simp only [Bool.or_eq_true, decide_eq_true_eq, Bool.and_eq_true, beq_iff_eq]
      omega
  refine ordered.imp fun {a b} le => ?_
  unfold pairLe at le
  simp only [Bool.or_eq_true, decide_eq_true_eq, Bool.and_eq_true, beq_iff_eq] at le
  omega

def Chained : Nat → List (Nat × Nat) → Nat → Prop
  | start, [], stop => start = stop
  | start, (left, right) :: rest, stop => left = start ∧ Chained right rest stop

theorem chained_of_points {intervals : List (Nat × Nat)} {start size : Nat}
    (ordered : intervals.Pairwise fun a b => a.1 ≤ b.1) (nonempty : ∀ i ∈ intervals, i.1 < i.2)
    (h : (intervals.flatMap points).Perm (List.range' start size)) :
    Chained start intervals (start + size) := by
  induction intervals generalizing start size with
  | nil =>
    have none : size = 0 := by
      have same := h.length_eq
      rw [length_range'] at same
      exact same.symm
    rw [none]
    rfl
  | cons head rest ih =>
    obtain ⟨left, right⟩ := head
    have wide : left < right := nonempty (left, right) mem_cons_self
    have ⟨before, ordered⟩ := pairwise_cons.mp ordered
    have cover : ∀ x, x ∈ ((left, right) :: rest).flatMap points ↔ start ≤ x ∧ x < start + size :=
      fun x => h.mem_iff.trans mem_range'_1
    have first := (cover left).mp (mem_flatMap.mpr
      ⟨(left, right), mem_cons_self, mem_points.mpr ⟨Nat.le_refl left, wide⟩⟩)
    have last := (cover (right - 1)).mp (mem_flatMap.mpr
      ⟨(left, right), mem_cons_self, mem_points.mpr ⟨by omega, by omega⟩⟩)
    have begins : left = start := by
      have ⟨i, mem, inside⟩ := mem_flatMap.mp ((cover start).mpr ⟨by omega, by omega⟩)
      rw [mem_points] at inside
      rcases mem_cons.mp mem with rfl | mem
      · omega
      · have := before i mem
        dsimp only at this
        omega
    subst begins
    refine ⟨rfl, ?_⟩
    have split : List.range' left size =
        points (left, right) ++ List.range' right (left + size - right) := by
      have joined := range'_append_1 (s := left) (m := right - left) (n := left + size - right)
      rw [Nat.add_sub_of_le (Nat.le_of_lt wide)] at joined
      rw [points, joined]
      congr 1
      omega
    rw [flatMap_cons, split] at h
    have others := ih ordered (fun i mem => nonempty i (mem_cons_of_mem _ mem))
      ((perm_append_left_iff _).mp h)
    have same : right + (left + size - right) = left + size := by omega
    rwa [same] at others

theorem flatMap_range_mul {α : Type} (a b : Nat) (f : Nat → List α) :
    (List.range a).flatMap (fun i => (List.range b).flatMap fun j => f (i * b + j)) =
    (List.range (a * b)).flatMap f := by
  induction a with
  | zero => rw [Nat.zero_mul]; rfl
  | succ a ih =>
    rw [range_succ, flatMap_append, ih, Nat.succ_mul, range_add,
      flatMap_append, flatMap_map, flatMap_singleton]

theorem map_range_mul {α : Type} (a b : Nat) (f : Nat → α) :
    (List.range a).flatMap (fun i => (List.range b).map fun j => f (i * b + j)) =
    (List.range (a * b)).map f := by
  have joined := flatMap_range_mul a b fun x => [f x]
  rw [← map_eq_flatMap] at joined
  rw [← joined]
  congr 1
  funext i
  rw [map_eq_flatMap]

section digits

variable {n a b a' b' : Nat}

theorem digit_unique (h : a * n + b = a' * n + b') (less : b < n) (less' : b' < n) :
    a = a' ∧ b = b' := by
  have quotient := congrArg (· / n) h
  have remainder := congrArg (· % n) h
  have positive : 0 < n := by omega
  rw [Nat.mul_comm a, Nat.mul_comm a', Nat.mul_add_div positive, Nat.mul_add_div positive,
    Nat.div_eq_of_lt less, Nat.div_eq_of_lt less'] at quotient
  rw [Nat.mul_comm a, Nat.mul_comm a', Nat.mul_add_mod, Nat.mul_add_mod, Nat.mod_eq_of_lt less,
    Nat.mod_eq_of_lt less'] at remainder
  exact ⟨quotient, remainder⟩

theorem digit_lt {m : Nat} (first : a < m) (second : b < n) : a * n + b < m * n := by
  have above : (a + 1) * n ≤ m * n := Nat.mul_le_mul_right n first
  rw [Nat.succ_mul] at above
  omega

theorem digit_div (less : b < n) : (a * n + b) / n = a := by
  rw [Nat.mul_comm, Nat.mul_add_div (by omega), Nat.div_eq_of_lt less, Nat.add_zero]

theorem digit_mod (less : b < n) : (a * n + b) % n = b := by
  rw [Nat.mul_comm, Nat.mul_add_mod, Nat.mod_eq_of_lt less]

end digits

/-- Numbers of triples below the given sizes: each number below the product is that of one. -/
structure Enumerates (first second third : Nat) (key : Nat → Nat → Nat → Nat) : Prop where
  bound : ∀ {i j k}, i < first → j < second → k < third → key i j k < first * second * third
  unique : ∀ {i j k i' j' k'}, i < first → j < second → k < third → i' < first → j' < second →
    k' < third → key i j k = key i' j' k' → i = i' ∧ j = j' ∧ k = k'
  reach : ∀ n < first * second * third, ∃ i < first, ∃ j < second, ∃ k < third, key i j k = n

theorem enumerates_first (first second third : Nat) :
    Enumerates first second third fun i j k => (j * third + k) * first + i where
  bound := fun {i j k} hi hj hk => by
    have inner := digit_lt (digit_lt hj hk) hi
    rwa [Nat.mul_comm first, Nat.mul_right_comm]
  unique := fun {i j k i' j' k'} hi hj hk hi' hj' hk' same => by
    have ⟨outer, low⟩ := digit_unique same hi hi'
    have ⟨high, mid⟩ := digit_unique outer hk hk'
    exact ⟨low, high, mid⟩
  reach := fun n less => by
    rw [Nat.mul_comm first, Nat.mul_right_comm] at less
    have quotient : n / first < second * third := Nat.div_lt_of_lt_mul (by rwa [Nat.mul_comm])
    have positive : 0 < first := Nat.pos_of_ne_zero fun none => by simp [none] at less
    have positive' : 0 < third := Nat.pos_of_ne_zero fun none => by simp [none] at less
    refine ⟨n % first, Nat.mod_lt _ positive, n / first / third,
      Nat.div_lt_of_lt_mul (by rwa [Nat.mul_comm]), n / first % third, Nat.mod_lt _ positive', ?_⟩
    rw [Nat.div_add_mod', Nat.div_add_mod']

theorem enumerates_between (first high low third : Nat) :
    Enumerates first (high * low) third
      fun i j k => ((j / low * first + i) * low + j % low) * third + k where
  bound := fun {i j k} hi hj hk => by
    have positive : 0 < low := Nat.pos_of_ne_zero fun none => by simp [none] at hj
    have top : j / low < high := Nat.div_lt_of_lt_mul (by rwa [Nat.mul_comm])
    have inner := digit_lt (digit_lt (digit_lt top hi) (Nat.mod_lt j positive)) hk
    rwa [← Nat.mul_assoc, Nat.mul_comm first]
  unique := fun {i j k i' j' k'} hi hj hk hi' hj' hk' same => by
    have positive : 0 < low := Nat.pos_of_ne_zero fun none => by simp [none] at hj
    have ⟨outer, last⟩ := digit_unique same hk hk'
    have ⟨outer, mid⟩ := digit_unique outer (Nat.mod_lt j positive) (Nat.mod_lt j' positive)
    have ⟨top, one⟩ := digit_unique outer hi hi'
    refine ⟨one, ?_, last⟩
    rw [← Nat.div_add_mod' j low, ← Nat.div_add_mod' j' low, top, mid]
  reach := fun n less => by
    have positive : 0 < third := Nat.pos_of_ne_zero fun none => by simp [none] at less
    have positive' : 0 < low := Nat.pos_of_ne_zero fun none => by simp [none] at less
    have positive'' : 0 < first := Nat.pos_of_ne_zero fun none => by simp [none] at less
    have one : n / third < high * first * low :=
      Nat.div_lt_of_lt_mul (by rwa [Nat.mul_comm, Nat.mul_comm high, Nat.mul_assoc first])
    have two : n / third / low < high * first := Nat.div_lt_of_lt_mul (by rwa [Nat.mul_comm])
    have three : n / third / low / first < high := Nat.div_lt_of_lt_mul (by rwa [Nat.mul_comm])
    have digit := Nat.mod_lt (n / third) positive'
    refine ⟨n / third / low % first, Nat.mod_lt _ positive'',
      n / third / low / first * low + n / third % low, digit_lt three digit,
      n % third, Nat.mod_lt _ positive, ?_⟩
    rw [digit_div digit, digit_mod digit, Nat.div_add_mod', Nat.div_add_mod', Nat.div_add_mod']

end VllmAmpere.Tilings
