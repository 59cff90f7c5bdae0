import Mathlib.MeasureTheory.Measure.Lebesgue.Basic

/-! Uniform draws beside a noise drawn once. The first draw is independent of the others and of
the noise, so an event that the first draw chooses between is split into a sum of products. -/

namespace VllmAmpere

open MeasureTheory

/-- The uniform law on `[0, 1)`. -/
noncomputable def uniform01 : Measure ℝ := volume.restrict (Set.Ico 0 1)

instance : IsProbabilityMeasure uniform01 := by
  constructor
  rw [uniform01, Measure.restrict_apply MeasurableSet.univ, Set.univ_inter, Real.volume_Ico]
  simp

theorem uniform01_Iic (r : ℝ) : uniform01 (Set.Iic r) = ENNReal.ofReal (min 1 r) := by
  rw [uniform01, Measure.restrict_apply measurableSet_Iic]
  by_cases le : r < 1
  · have interval : Set.Iic r ∩ Set.Ico 0 1 = Set.Icc 0 r := by
      ext u
      simp only [Set.mem_inter_iff, Set.mem_Iic, Set.mem_Ico, Set.mem_Icc]
      constructor
      · rintro ⟨upper, lower, -⟩
        exact ⟨lower, upper⟩
      · rintro ⟨lower, upper⟩
        exact ⟨upper, lower, upper.trans_lt le⟩
    rw [interval, Real.volume_Icc, sub_zero, min_eq_right le.le]
  · have interval : Set.Iic r ∩ Set.Ico 0 1 = Set.Ico 0 1 := by
      ext u
      simp only [Set.mem_inter_iff, Set.mem_Iic, Set.mem_Ico, and_iff_right_iff_imp]
      rintro ⟨-, upper⟩
      exact upper.le.trans (not_lt.mp le)
    rw [interval, Real.volume_Ico, sub_zero, min_eq_left (not_lt.mp le)]

section Draws

variable {N : Type} [MeasurableSpace N]

/-- `n` independent uniform draws and the noise. -/
noncomputable def draws (n : Nat) (ν : Measure N) : Measure ((Fin n → ℝ) × N) :=
  (Measure.pi fun _ => uniform01).prod ν

instance (n : Nat) (ν : Measure N) [IsProbabilityMeasure ν] : IsProbabilityMeasure (draws n ν) := by
  rw [draws]
  infer_instance

def firstDraw (n : Nat) : ((Fin (n + 1) → ℝ) × N) ≃ᵐ ℝ × (Fin n → ℝ) × N :=
  ((MeasurableEquiv.piFinSuccAbove (fun _ => ℝ) 0).prodCongr (MeasurableEquiv.refl N)).trans
    MeasurableEquiv.prodAssoc

theorem firstDraw_apply (n : Nat) (z : (Fin (n + 1) → ℝ) × N) :
    firstDraw n z = (z.1 0, Fin.tail z.1, z.2) := rfl

theorem firstDraw_preserving (n : Nat) (ν : Measure N) [IsProbabilityMeasure ν] :
    MeasurePreserving (firstDraw n) (draws (n + 1) ν) (uniform01.prod (draws n ν)) := by
  have split := measurePreserving_piFinSuccAbove (fun _ : Fin (n + 1) => uniform01) 0
  have beside := split.prod (MeasurePreserving.id ν)
  exact (measurePreserving_prodAssoc uniform01 (Measure.pi fun _ : Fin n => uniform01) ν).comp
    beside

theorem draws_split {n : Nat} {ν : Measure N} [IsProbabilityMeasure ν] {S : Set ℝ}
    (measurable : MeasurableSet S) (later : Set ((Fin n → ℝ) × N)) (noise : Set N) :
    draws (n + 1) ν {z | (z.1 0 ∈ S ∧ (Fin.tail z.1, z.2) ∈ later) ∨ (z.1 0 ∉ S ∧ z.2 ∈ noise)} =
    uniform01 S * draws n ν later + uniform01 Sᶜ * ν noise := by
  obtain ⟨event, hevent⟩ : ∃ event : Set (ℝ × (Fin n → ℝ) × N),
      event = S ×ˢ later ∪ Sᶜ ×ˢ (Set.univ ×ˢ noise) := ⟨_, rfl⟩
  have preimage : {z : (Fin (n + 1) → ℝ) × N |
      (z.1 0 ∈ S ∧ (Fin.tail z.1, z.2) ∈ later) ∨ (z.1 0 ∉ S ∧ z.2 ∈ noise)} =
      Set.preimage (firstDraw n) event := by
    ext z
    simp [hevent, firstDraw_apply]
  have inside : event ∩ S ×ˢ Set.univ = S ×ˢ later := by
    ext z
    simp only [hevent, Set.mem_inter_iff, Set.mem_union, Set.mem_prod, Set.mem_compl_iff,
      Set.mem_univ, and_true]
    tauto
  have outside : event \ S ×ˢ Set.univ = Sᶜ ×ˢ (Set.univ ×ˢ noise) := by
    ext z
    simp only [hevent, Set.mem_sdiff, Set.mem_union, Set.mem_prod, Set.mem_compl_iff,
      Set.mem_univ, and_true, true_and]
    tauto
  have parts : uniform01.prod (draws n ν) (event ∩ S ×ˢ Set.univ) +
      uniform01.prod (draws n ν) (event \ S ×ˢ Set.univ) = uniform01.prod (draws n ν) event :=
    measure_inter_add_sdiff event (measurable.prod MeasurableSet.univ)
  rw [inside, outside, Measure.prod_prod, Measure.prod_prod] at parts
  have alone : draws n ν (Set.univ ×ˢ noise) = ν noise := by
    rw [draws, Measure.prod_prod, measure_univ, one_mul]
  rw [preimage, (firstDraw_preserving n ν).measure_preimage_equiv, ← parts, alone]

end Draws

end VllmAmpere
