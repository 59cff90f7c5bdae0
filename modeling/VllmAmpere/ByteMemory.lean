import Mathlib.Data.List.Basic
import Mathlib.Tactic.Linarith

/-! Bytes at addresses, loads and stores of byte strings, and signed integers as
little-endian bytes. Nothing here is about a particular program. -/

open List

namespace VllmAmpere

/-- A memory, a byte at each address. -/
abbrev ByteMemory := Int → UInt8

namespace ByteMemory

def load (m : ByteMemory) (address : Int) (length : Nat) : List UInt8 :=
  (List.range length).map fun k : Nat => m (address + k)

def store (m : ByteMemory) (address : Int) (bytes : List UInt8) : ByteMemory := fun i =>
  if address ≤ i ∧ i < address + bytes.length then bytes.getD (i - address).toNat 0 else m i

@[simp] theorem length_load (m : ByteMemory) (address : Int) (length : Nat) :
    (m.load address length).length = length := by
  simp [load]

theorem load_congr {m m' : ByteMemory} {address : Int} {length : Nat}
    (same : ∀ i, address ≤ i → i < address + length → m' i = m i) :
    m'.load address length = m.load address length := by
  refine map_congr_left fun k hk => ?_
  have := mem_range.mp hk
  exact same _ (by omega) (by omega)

section

variable (m : ByteMemory)
include m

variable (address : Int)

theorem take_load {k length : Nat} (le : k ≤ length) :
    (m.load address length).take k = m.load address k := by
  simp only [load, ← map_take, take_range, Nat.min_eq_left le]

theorem store_apart {address i : Int} {bytes : List UInt8}
    (apart : i < address ∨ address + bytes.length ≤ i) : m.store address bytes i = m i :=
  if_neg (by omega)

theorem load_store_apart {address at' : Int} {bytes : List UInt8} {length : Nat}
    (apart : at' + length ≤ address ∨ address + bytes.length ≤ at') :
    (m.store address bytes).load at' length = m.load at' length :=
  load_congr fun _ _ _ => m.store_apart (by omega)

theorem load_store (bytes : List UInt8) :
    (m.store address bytes).load address bytes.length = bytes := by
  refine ext_getElem (by simp) fun k _ bound => ?_
  simp only [load, getElem_map, getElem_range, store]
  rw [if_pos (by omega), add_sub_cancel_left, Int.toNat_natCast,
    getD_eq_getElem?_getD, getElem?_eq_getElem bound, Option.getD_some]

theorem load_add (k n : Nat) :
    m.load address (k + n) = m.load address k ++ m.load (address + k) n := by
  rw [load, range_add, map_append, map_map]
  congr 1
  refine map_congr_left fun i _ => ?_
  rw [Function.comp_apply, Int.natCast_add, Int.add_assoc]

theorem load_store_append (bytes rest : List UInt8) :
    (m.store address (bytes ++ rest)).load address bytes.length = bytes ∧
    (m.store address (bytes ++ rest)).load (address + bytes.length) rest.length = rest := by
  have both := m.load_store address (bytes ++ rest)
  rw [length_append, load_add] at both
  exact append_inj both (length_load ..)

end

end ByteMemory

def lowBytes : Nat → Nat → List UInt8
  | 0, _ => []
  | length + 1, n => UInt8.ofNat (n % 256) :: lowBytes length (n / 256)

@[simp] theorem length_lowBytes (length n : Nat) : (lowBytes length n).length = length := by
  induction length generalizing n with
  | zero => rfl
  | succ length ih => rw [lowBytes, length_cons, ih]

def ofLowBytes : List UInt8 → Nat
  | [] => 0
  | b :: bytes => b.toNat + 256 * ofLowBytes bytes

theorem ofLowBytes_lowBytes (length n : Nat) : ofLowBytes (lowBytes length n) = n % 256 ^ length := by
  induction length generalizing n with
  | zero => rw [lowBytes, ofLowBytes, Nat.pow_zero, Nat.mod_one]
  | succ length ih =>
    rw [lowBytes, ofLowBytes, ih, Nat.pow_succ', Nat.mod_mul, UInt8.toNat_ofNat_of_lt']
    exact Nat.mod_lt n (by decide)

def signedFits (length : Nat) : Int → Bool
  | .ofNat n => 2 * n < 256 ^ length
  | .negSucc n => 2 * (n + 1) ≤ 256 ^ length

variable {length : Nat} {i : Int}

theorem signedFits_iff :
    signedFits length i = true ↔ -(256 ^ length : Int) ≤ 2 * i ∧ 2 * i < 256 ^ length := by
  have pos : (0 : Int) < 256 ^ length := by positivity
  cases i with
  | ofNat n =>
    rw [signedFits, decide_eq_true_eq, Int.ofNat_eq_natCast, ← Int.ofNat_lt]
    push_cast
    omega
  | negSucc n =>
    rw [signedFits, decide_eq_true_eq, Int.negSucc_eq, ← Int.ofNat_le]
    push_cast
    omega

/-- `i.to_bytes(length, "little", signed=True)`, which raises for an integer out of range. -/
def toBytes (length : Nat) (i : Int) : Option (List UInt8) :=
  if signedFits length i then some (lowBytes length (i % 256 ^ length).toNat) else none

/-- `int.from_bytes(bytes, "little", signed=True)`. -/
def fromBytes (bytes : List UInt8) : Int :=
  if 2 * ofLowBytes bytes < 256 ^ bytes.length then ofLowBytes bytes
  else ofLowBytes bytes - 256 ^ bytes.length

theorem neg_le_fromBytes (bytes : List UInt8) : -(256 ^ bytes.length : Int) ≤ 2 * fromBytes bytes := by
  unfold fromBytes
  split
  next small =>
    have pos : (0 : Int) < 256 ^ bytes.length := by positivity
    omega
  next large =>
    have large' : (256 ^ bytes.length : Int) ≤ 2 * ofLowBytes bytes := by
      exact_mod_cast not_lt.mp large
    omega

theorem toBytes_isSome {length : Nat}
    (bounds : -(256 ^ length : Int) ≤ 2 * i ∧ 2 * i < 256 ^ length) :
    ∃ bytes, toBytes length i = some bytes :=
  ⟨_, if_pos (signedFits_iff.mpr bounds)⟩

theorem length_toBytes {bytes : List UInt8}
    (h : toBytes length i = some bytes) : bytes.length = length := by
  unfold toBytes at h
  split at h
  · rw [← Option.some.inj h, length_lowBytes]
  · cases h

theorem fromBytes_toBytes {bytes : List UInt8}
    (h : toBytes length i = some bytes) : fromBytes bytes = i := by
  have len := length_toBytes h
  unfold toBytes at h
  split at h
  next fitting =>
    have bounds := signedFits_iff.mp fitting
    have pos : (0 : Int) < 256 ^ length := by positivity
    have nonneg := Int.emod_nonneg i (ne_of_gt pos)
    have low := Int.emod_lt_of_pos i pos
    have value : (ofLowBytes bytes : Int) = i % 256 ^ length := by
      rw [← Option.some.inj h, ofLowBytes_lowBytes, Nat.mod_eq_of_lt, Int.toNat_of_nonneg nonneg]
      have : ((i % 256 ^ length).toNat : Int) < ((256 ^ length : Nat) : Int) := by
        rw [Int.toNat_of_nonneg nonneg]
        exact_mod_cast low
      exact_mod_cast this
    have half : (2 * ofLowBytes bytes < 256 ^ bytes.length) ↔
        2 * (i % 256 ^ length) < 256 ^ length := by
      rw [len, ← value]
      exact_mod_cast Iff.rfl
    unfold fromBytes
    rw [if_congr half rfl rfl, value, len]
    by_cases neg : i < 0
    · have wound : i % 256 ^ length = i + 256 ^ length := by
        rw [← Int.add_emod_right, Int.emod_eq_of_lt (by omega) (by omega)]
      rw [wound, if_neg (by omega), Int.add_sub_cancel]
    · rw [Int.emod_eq_of_lt (by omega) (by omega), if_pos (by omega)]
  · cases h

end VllmAmpere
