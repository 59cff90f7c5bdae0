import Mathlib.Data.List.Basic
import Mathlib.Tactic.Linarith

/-! Intervals laid one behind the other on a line that is wound around a ring: when the
line is no longer than the ring, intervals that do not cross the seam stay apart on it.
Nothing here is about a particular program. -/

namespace VllmAmpere.RingLayout

def Laid : Int → List (Int × Int) → Int → Prop
  | lo, [], hi => lo ≤ hi
  | lo, piece :: rest, hi => lo ≤ piece.1 ∧ 0 < piece.2 ∧ Laid (piece.1 + piece.2) rest hi

def Apart (a b : Int × Int) : Prop := a.1 + a.2 ≤ b.1 ∨ b.1 + b.2 ≤ a.1

/-- The way around the ring from a start to an address. -/
def offset (ring start address : Int) : Int := (address - start) % ring

variable {lo hi lo' hi' : Int} {pieces : List (Int × Int)} {a b : Int × Int}

namespace Laid

section

variable (h : Laid lo pieces hi)
include h

theorem le : lo ≤ hi := by
  induction pieces generalizing lo with
  | nil => exact h
  | cons piece rest ih =>
    have := ih h.2.2
    have := h.1
    have := h.2.1
    omega

theorem weaken (low : lo' ≤ lo) (high : hi ≤ hi') :
    Laid lo' pieces hi' := by
  induction pieces generalizing lo lo' with
  | nil => exact low.trans (h.trans high)
  | cons piece rest ih => exact ⟨low.trans h.1, h.2.1, ih h.2.2 le_rfl⟩

theorem within (mem : a ∈ pieces) :
    lo ≤ a.1 ∧ 0 < a.2 ∧ a.1 + a.2 ≤ hi := by
  induction pieces generalizing lo with
  | nil => cases mem
  | cons piece rest ih =>
    obtain ⟨low, pos, laid⟩ := h
    cases mem with
    | head => exact ⟨low, pos, laid.le⟩
    | tail _ mem =>
      have ⟨low', pos', high⟩ := ih laid mem
      exact ⟨by omega, pos', high⟩

theorem pairwise : pieces.Pairwise fun a b => a.1 + a.2 ≤ b.1 := by
  induction pieces generalizing lo with
  | nil => exact .nil
  | cons piece rest ih => exact .cons (fun b mem => (h.2.2.within mem).1) (ih h.2.2)

theorem append (behind : hi ≤ a.1) (pos : 0 < a.2)
    (high : a.1 + a.2 ≤ hi') : Laid lo (pieces ++ [a]) hi' := by
  induction pieces generalizing lo with
  | nil => exact ⟨h.trans behind, pos, high⟩
  | cons piece rest ih => exact ⟨h.1, h.2.1, ih h.2.2⟩

theorem shift (d : Int) :
    Laid (lo - d) (pieces.map fun piece => (piece.1 - d, piece.2)) (hi - d) := by
  induction pieces generalizing lo with
  | nil => exact Int.sub_le_sub_right h d
  | cons piece rest ih =>
    refine ⟨Int.sub_le_sub_right h.1 d, h.2.1, ?_⟩
    rw [show piece.1 - d + piece.2 = piece.1 + piece.2 - d by omega]
    exact ih h.2.2

theorem sum_le : (pieces.map Prod.snd).sum ≤ hi - lo := by
  induction pieces generalizing lo with
  | nil =>
    have := h.le
    rw [List.map_nil, List.sum_nil]
    omega
  | cons piece rest ih =>
    have := ih h.2.2
    have := h.1
    rw [List.map_cons, List.sum_cons]
    omega

end

end Laid

section Winding

variable {ring start address : Int}

theorem offset_bounds (pos : 0 < ring) (start address : Int) :
    0 ≤ offset ring start address ∧ offset ring start address < ring :=
  ⟨Int.emod_nonneg _ (ne_of_gt pos), Int.emod_lt_of_pos _ pos⟩

theorem start_add_offset (ring start address : Int) :
    (start + offset ring start address) % ring = address % ring := by
  rw [offset, Int.add_emod_emod, add_sub_cancel]

theorem offset_of_emod (bounds : 0 ≤ address ∧ address < ring) (wound : Int) (start : Int)
    (same : (start + address) % ring = wound % ring) : offset ring start wound = address := by
  rw [offset, Int.sub_emod, ← same, ← Int.sub_emod, add_sub_cancel_left,
    Int.emod_eq_of_lt bounds.1 bounds.2]

theorem offset_advance (ring start d address : Int) (ahead : d ≤ offset ring start address)
    (nonneg : 0 ≤ d) (pos : 0 < ring) :
    offset ring (start + d) address = offset ring start address - d := by
  have bounds := offset_bounds pos start address
  refine offset_of_emod (by omega) _ _ ?_
  rw [show start + d + (offset ring start address - d) = start + offset ring start address by omega]
  exact start_add_offset ring start address

theorem offset_unwind (ring start address : Int) :
    offset ring (start - ring) address = offset ring start address := by
  rw [offset, offset, show address - (start - ring) = address - start + ring by omega,
    Int.add_emod_right]

theorem apart_of_laid (pos : 0 < ring) {x y m n : Int} (pm : 0 < m)
    (before : offset ring start x + m ≤ offset ring start y)
    (short : offset ring start y + n ≤ ring) : Apart (x % ring, m) (y % ring, n) := by
  have ox := offset_bounds pos start x
  have oy := offset_bounds pos start y
  rw [← start_add_offset ring start x, ← start_add_offset ring start y] at *
  generalize offset ring start x = p at *
  generalize offset ring start y = q at *
  have mp := Int.emod_nonneg (start + p) (ne_of_gt pos)
  have mq := Int.emod_nonneg (start + q) (ne_of_gt pos)
  have lp := Int.emod_lt_of_pos (start + p) pos
  have lq := Int.emod_lt_of_pos (start + q) pos
  have ep := Int.emod_add_mul_ediv (start + p) ring
  have eq := Int.emod_add_mul_ediv (start + q) ring
  -- Both lie in one winding, or the later one in the next.
  have windings : (start + q) / ring = (start + p) / ring ∨
      (start + q) / ring = (start + p) / ring + 1 := by
    have up : (start + p) / ring ≤ (start + q) / ring := Int.ediv_le_ediv pos (by omega)
    have down : (start + q) / ring ≤ (start + p + ring) / ring := Int.ediv_le_ediv pos (by omega)
    rw [Int.add_ediv_of_dvd_right (dvd_refl ring), Int.ediv_self (ne_of_gt pos)] at down
    omega
  unfold Apart
  rcases windings with same | next
  · rw [same] at eq
    exact .inl (by simp only; omega)
  · rw [next, Int.mul_add, Int.mul_one] at eq
    exact .inr (by simp only; omega)

end Winding

end VllmAmpere.RingLayout
