import Mathlib.Algebra.Ring.Int.Defs
import Mathlib.Algebra.Ring.Nat
import Mathlib.Data.List.Forall2

/-! The parts of the Python runtime the sources rely on: raised errors, slices
and the ceiling division of `vllm.utils.math_utils`. -/

namespace VllmAmpere

universe v

/-- The exceptions the modelled code raises, with their messages where it sets one. -/
inductive PyError
  | assertion (message : String)
  | value (message : String)
  | runtime (message : String)
  | index
  | key
  deriving DecidableEq, Repr

def cdiv (a b : Nat) : Nat := (a + b - 1) / b

/-- `xs[start:stop]`, both bounds clipped as Python does. -/
def slice {α : Type*} (xs : List α) (start stop : Nat) : List α :=
  (xs.take stop).drop start

/-- `xs[i]`. -/
def pyGet {α : Type*} (xs : List α) (i : Nat) : Except PyError α :=
  match xs[i]? with
  | some x => .ok x
  | none => .error .index

def pyAssert (p : Prop) [Decidable p] (message : String) : Except PyError Unit :=
  if p then .ok () else .error (.assertion message)

/-- `d[key] = value` on a dict kept as its items in insertion order. -/
def dictSet {κ : Type*} {α : Type*} [DecidableEq κ] (key : κ) (value : α) :
    List (κ × α) → List (κ × α)
  | [] => [(key, value)]
  | (k, v) :: rest => if k = key then (k, value) :: rest else (k, v) :: dictSet key value rest

/-- `d.pop(key, None)`. -/
def dictPop {κ : Type*} {α : Type*} [DecidableEq κ] (key : κ) (items : List (κ × α)) :
    Option α × List (κ × α) :=
  (items.lookup key, items.filter fun item => item.1 ≠ key)

/-- `d.setdefault(key, []).append(value)`. -/
def dictAppend {κ : Type*} {α : Type*} [DecidableEq κ] (key : κ) (value : α) :
    List (κ × List α) → List (κ × List α)
  | [] => [(key, [value])]
  | (k, vs) :: rest =>
    if k = key then (k, vs ++ [value]) :: rest else (k, vs) :: dictAppend key value rest

theorem bind_eq_ok {ε : Type*} {α β : Type v} {x : Except ε α} {f : α → Except ε β} {b : β} :
    x >>= f = .ok b ↔ ∃ a, x = .ok a ∧ f a = .ok b := by
  cases x <;> simp [bind, Except.bind]

theorem mapM_eq_ok {ε : Type*} {α : Type*} {β : Type v} {f : α → Except ε β} {xs : List α}
    {ys : List β} : xs.mapM f = .ok ys ↔ List.Forall₂ (fun x y => f x = .ok y) xs ys := by
  induction xs generalizing ys with
  | nil =>
    rw [List.mapM_nil, List.forall₂_nil_left_iff]
    exact ⟨fun h => (Except.ok.inj h).symm, fun h => h ▸ rfl⟩
  | cons x xs ih =>
    rw [List.mapM_cons, bind_eq_ok, List.forall₂_cons_left_iff]
    constructor
    · rintro ⟨y, hy, hrest⟩
      obtain ⟨rest, hr, hys⟩ := bind_eq_ok.mp hrest
      exact ⟨y, rest, hy, ih.mp hr, (Except.ok.inj hys).symm⟩
    · rintro ⟨y, rest, hy, hr, rfl⟩
      exact ⟨y, hy, bind_eq_ok.mpr ⟨rest, ih.mpr hr, rfl⟩⟩

theorem toOption_get {ε α : Type*} {x : Except ε α} (h : x.toOption.isSome) :
    x = .ok (x.toOption.get h) := by
  cases x with
  | error e => cases h
  | ok a => rfl

theorem pyAssert_ok {p : Prop} [Decidable p] {message : String} {u : Unit} :
    pyAssert p message = .ok u ↔ p := by
  unfold pyAssert
  split <;> simp [*]

theorem pyGet_ok {α : Type*} {xs : List α} {i : Nat} {x : α} :
    pyGet xs i = .ok x ↔ xs[i]? = some x := by
  unfold pyGet
  split <;> simp [*]

theorem slice_length {α : Type*} (xs : List α) (start stop : Nat) :
    (slice xs start stop).length = min stop xs.length - start := by
  simp [slice]

theorem slice_getElem? {α : Type*} (xs : List α) (start stop i : Nat) :
    (slice xs start stop)[i]? = if start + i < stop then xs[start + i]? else none := by
  simp [slice, List.getElem?_take]

theorem cdiv_mul_ge {a b : Nat} (hb : 0 < b) : a ≤ cdiv a b * b := by
  have h := Nat.div_add_mod (a + b - 1) b
  have hm := Nat.mod_lt (a + b - 1) hb
  rw [Nat.mul_comm] at h
  unfold cdiv
  omega

theorem cdiv_le_iff {a b c : Nat} (hb : 0 < b) : cdiv a b ≤ c ↔ a ≤ c * b := by
  constructor
  · intro h
    exact Nat.le_trans (cdiv_mul_ge hb) (Nat.mul_le_mul_right b h)
  · intro h
    unfold cdiv
    have : a + b - 1 < (c + 1) * b := by
      rw [Nat.add_mul]
      omega
    exact Nat.lt_succ_iff.mp ((Nat.div_lt_iff_lt_mul hb).mpr this)

theorem lt_cdiv_iff {a b c : Nat} (hb : 0 < b) : c < cdiv a b ↔ c * b < a := by
  have h := cdiv_le_iff (a := a) (c := c) hb
  omega

theorem cdiv_mono {a a' b : Nat} (h : a ≤ a') : cdiv a b ≤ cdiv a' b :=
  Nat.div_le_div_right (by omega)

theorem cdiv_mul_self {b : Nat} (hb : 0 < b) (k : Nat) : cdiv (k * b) b = k := by
  apply Nat.le_antisymm
  · exact (cdiv_le_iff hb).mpr (Nat.le_refl _)
  · by_contra h
    have := (cdiv_le_iff (a := k * b) (c := k - 1) hb).mp (by omega)
    have : k - 1 < k := by omega
    have := Nat.mul_lt_mul_of_pos_right this hb
    omega

theorem le_foldl_max (xs : List Nat) (start : Nat) :
    start ≤ xs.foldl max start ∧ ∀ n ∈ xs, n ≤ xs.foldl max start := by
  induction xs generalizing start with
  | nil => exact ⟨Nat.le_refl _, by simp⟩
  | cons n rest ih =>
    obtain ⟨left, right⟩ := ih (max start n)
    refine ⟨Nat.le_trans (Nat.le_max_left _ _) left, fun m mem => ?_⟩
    cases List.mem_cons.mp mem with
    | inl same =>
      rw [same]
      exact Nat.le_trans (Nat.le_max_right start n) left
    | inr mem => exact right m mem

end VllmAmpere
