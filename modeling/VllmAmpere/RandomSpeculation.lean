import VllmAmpere.RejectionOutputs
import VllmAmpere.UniformDraws

/-! Speculative decoding of a random request: its drafts drawn one behind the other from a draft
model, uniform numbers and a noise row for the kernels, a bonus token drawn from the target. The
law of what `parse_output` keeps of its row, beside any other rows in the batch. -/

namespace VllmAmpere.RejectionSampler

open MeasureTheory

section Models

/-- A distribution over the vocabulary as the kernels hold it. -/
structure Distribution (vocabSize : Nat) where
  probs : List ℝ
  length_eq : probs.length = vocabSize
  nonneg : ∀ x ∈ probs, 0 ≤ x
  sum_eq_one : probs.sum = 1

variable {vocabSize : Nat} (d : Distribution vocabSize)

def Distribution.prob (v : Nat) : ℝ := d.probs.getD v 0

theorem Distribution.prob_nonneg (v : Nat) : 0 ≤ d.prob v := by
  rw [Distribution.prob]
  by_cases inside : v < d.probs.length
  · rw [List.getD_eq_getElem _ _ inside]
    exact d.nonneg _ (List.getElem_mem inside)
  · rw [List.getD_eq_default _ _ (not_lt.mp inside)]

theorem Distribution.sum_prob : ∑ v : Fin vocabSize, d.prob v = 1 := by
  obtain ⟨probs, rfl, nonneg, total⟩ := d
  rw [← total, ← Fin.sum_univ_getElem]
  apply Finset.sum_congr rfl
  intro v _
  exact List.getD_eq_getElem _ _ v.isLt

theorem Distribution.prob_le_one (v : Fin vocabSize) :
    d.prob v ≤ 1 := by
  rw [← d.sum_prob]
  exact Finset.single_le_sum (f := fun x : Fin vocabSize => d.prob x)
    (fun x _ => d.prob_nonneg x) (Finset.mem_univ v)

/-- A target model: the logits it gives behind a prefix and the distribution they stand for. -/
structure TargetModel (softmax : Softmax ℝ) (vocabSize : Nat) where
  logits : List Int → List ℝ
  dist : List Int → Distribution vocabSize
  softmax_eq : ∀ h, softmax.toFun (logits h) = (dist h).probs

theorem TargetModel.logits_length {softmax : Softmax ℝ} (t : TargetModel softmax vocabSize)
    (h : List Int) : (t.logits h).length = vocabSize := by
  rw [← softmax.length_eq, t.softmax_eq, (t.dist h).length_eq]

/-- A draft model gives the distribution of the next draft behind a prefix. -/
abbrev DraftModel (vocabSize : Nat) := List Int → Distribution vocabSize

def DraftModel.Deterministic (draft : DraftModel vocabSize) : Prop :=
  ∀ h, ∃ d : Fin vocabSize, ∀ v : Fin vocabSize, (draft h).prob v = if v = d then 1 else 0

/-- The expectation of `f` over `n` drafts drawn one behind the other. -/
noncomputable def draftExpect (draft : DraftModel vocabSize) :
    (n : Nat) → List Int → ((Fin n → Fin vocabSize) → ℝ) → ℝ
  | 0, _, f => f Fin.elim0
  | n + 1, h, f =>
    ∑ x : Fin vocabSize, (draft h).prob x *
      draftExpect draft n (h ++ [(x : Int)]) fun xs => f (Fin.cons x xs)

theorem draftExpect_linear (draft : DraftModel vocabSize) (a c : ℝ) (n : Nat) (h : List Int)
    (f : (Fin n → Fin vocabSize) → ℝ) :
    draftExpect draft n h (fun xs => a * f xs + c) = a * draftExpect draft n h f + c := by
  induction n generalizing h with
  | zero => rfl
  | succ n ih =>
    simp only [draftExpect, ih, mul_add, Finset.sum_add_distrib, ← Finset.sum_mul,
      (draft h).sum_prob, one_mul, Finset.mul_sum]
    congr 1
    apply Finset.sum_congr rfl
    intro x _
    ring

/-- `arg max (prob / Exp(1))` draws proportionally to the weights. -/
def DrawsProportionally (ν : Measure (Fin vocabSize → ℝ)) : Prop :=
  ∀ w : Fin vocabSize → ℝ, (∀ v, 0 ≤ w v) → 0 < ∑ v, w v → ∀ A : Set Nat,
    (ν {q | argmax (List.ofFn fun v => w v * (q v)⁻¹) ∈ A}).toReal =
      (∑ v : Fin vocabSize, Set.indicator {v : Fin vocabSize | (v : Nat) ∈ A} w v) / ∑ v, w v

end Models

section Emission

variable {softmax : Softmax ℝ} {vocabSize maxSpecLen : Nat} (withDraftProbs : Bool)
  (target : TargetModel softmax vocabSize) (draft : DraftModel vocabSize)

def position (h : List Int) (x : Fin vocabSize) (u : ℝ) : Position ℝ vocabSize where
  draftTokenId := x
  draftProbs := (draft h).probs
  targetLogits := target.logits h
  uniformProb := u
  emptyRecovered := 0
  draft_lt := by exact_mod_cast x.isLt
  draftProbs_length := (draft h).length_eq
  targetLogits_length := target.logits_length h

/-- The positions of a request behind `h` with the drafts `x` and the uniform numbers `u`. -/
def positions : (n : Nat) → List Int → (Fin n → Fin vocabSize) → (Fin n → ℝ) →
    List (Position ℝ vocabSize)
  | 0, _, _, _ => []
  | n + 1, h, x, u =>
    position target draft h (x ⟨0, n.succ_pos⟩) (u ⟨0, n.succ_pos⟩) ::
      positions n (h ++ [(x ⟨0, n.succ_pos⟩ : Int)]) (Fin.tail x) (Fin.tail u)

theorem positions_length (n : Nat) (h : List Int) (x : Fin n → Fin vocabSize) (u : Fin n → ℝ) :
    (positions target draft n h x u).length = n := by
  induction n generalizing h with
  | zero => rfl
  | succ n ih => rw [positions, List.length_cons, ih]

def drafted {n : Nat} (x : Fin n → Fin vocabSize) : List Int := List.ofFn fun j => (x j : Int)

theorem drafted_cons {n : Nat} (x : Fin vocabSize) (xs : Fin n → Fin vocabSize) :
    drafted (Fin.cons x xs) = (x : Int) :: drafted xs := by
  simp [drafted, List.ofFn_succ]

/-- The row of the request, with its noise and bonus token. -/
def randomRow {n : Nat} (fits : n ≤ maxSpecLen) (temperature : ℝ) (h : List Int)
    (x : Fin n → Fin vocabSize) (bonus : Fin vocabSize)
    (z : (Fin n → ℝ) × (Fin vocabSize → ℝ)) : Row ℝ vocabSize maxSpecLen where
  positions := positions target draft n h x z.1
  bonusTokenId := bonus
  temperature := temperature
  q := List.ofFn z.2
  positions_le := (positions_length target draft n h x z.1).le.trans fits
  q_length := List.length_ofFn
  bonus_valid := ⟨by exact_mod_cast Nat.zero_le _, by exact_mod_cast bonus.isLt⟩

/-- The draws for which `parse_output` keeps one of `A` of the request's row, with `before` and
`after` as the other rows of the batch. -/
def emits (before after : List (Row ℝ vocabSize maxSpecLen)) {n : Nat} (fits : n ≤ maxSpecLen)
    (temperature : ℝ) (h : List Int) (A : Set (List Int)) (x : Fin n → Fin vocabSize)
    (bonus : Fin vocabSize) : Set ((Fin n → ℝ) × (Fin vocabSize → ℝ)) :=
  {z | ∃ out, RejectionSample softmax.toFun 8192
      (batchArgs withDraftProbs
        (before ++ randomRow target draft fits temperature h x bonus z :: after)) out ∧
    ∃ e ∈ A, (parseOutput (rowsOf (before.length + 1 + after.length) (maxSpecLen + 1) out)
      vocabSize [])[before.length]? = some e}

/-- The probability that the request emits one of `A`. -/
noncomputable def emissionLaw (ν : Measure (Fin vocabSize → ℝ))
    (before after : List (Row ℝ vocabSize maxSpecLen)) {n : Nat} (fits : n ≤ maxSpecLen)
    (temperature : ℝ) (h : List Int) (A : Set (List Int)) : ℝ :=
  draftExpect draft n h fun x => ∑ bonus : Fin vocabSize,
    (target.dist (h ++ drafted x)).prob bonus *
      (draws n ν (emits withDraftProbs target draft before after fits temperature h A x
        bonus)).toReal

noncomputable def emittedTokens {n : Nat} (h : List Int) (x : Fin n → Fin vocabSize) (bonus : Fin vocabSize)
    (z : (Fin n → ℝ) × (Fin vocabSize → ℝ)) : List Int :=
  emitted ((positions target draft n h x z.1).map
    (Position.randomVerdict withDraftProbs softmax · (List.ofFn z.2))) bonus

theorem emits_eq {before after : List (Row ℝ vocabSize maxSpecLen)} {n : Nat}
    {fits : n ≤ maxSpecLen} {temperature : ℝ} (random : temperature ≠ 0) (h : List Int)
    (A : Set (List Int)) (x : Fin n → Fin vocabSize) (bonus : Fin vocabSize) :
    emits withDraftProbs target draft before after fits temperature h A x bonus =
    {z | emittedTokens withDraftProbs target draft h x bonus z ∈ A} := by
  ext z
  obtain ⟨row, hrow⟩ : ∃ row, row = randomRow target draft fits temperature h x bonus z := ⟨_, rfl⟩
  have tokens : row.tokens withDraftProbs softmax =
      emittedTokens withDraftProbs target draft h x bonus z := by
    rw [hrow, Row.tokens, randomRow, if_neg random]
    rfl
  have length : (before ++ row :: after).length = before.length + 1 + after.length := by
    rw [List.length_append, List.length_cons]
    omega
  have kept : ∀ out, RejectionSample softmax.toFun 8192
      (batchArgs withDraftProbs (before ++ row :: after)) out →
      (parseOutput (rowsOf (before.length + 1 + after.length) (maxSpecLen + 1) out)
        vocabSize [])[before.length]? =
        some (emittedTokens withDraftProbs target draft h x bonus z) := by
    intro out call
    rw [← length, parseOutput_rows (by decide) call]
    simp [tokens]
  simp only [emits, Set.mem_ofPred_eq, ← hrow]
  constructor
  · rintro ⟨out, call, e, mem, found⟩
    rw [kept out call, Option.some.injEq] at found
    exact found ▸ mem
  · intro mem
    obtain ⟨out, call⟩ := @rejectionSample_exists ℝ _ _ vocabSize maxSpecLen withDraftProbs
      softmax 8192 (by decide) (before ++ row :: after)
    exact ⟨out, call, _, mem, kept out call⟩

end Emission

section FirstPosition

variable {softmax : Softmax ℝ} {vocabSize : Nat} (withDraftProbs : Bool)
  (target : TargetModel softmax vocabSize) (draft : DraftModel vocabSize) (h : List Int)

def acceptSet (x : Fin vocabSize) : Set ℝ :=
  {u | (position target draft h x u).accepted withDraftProbs softmax = true}

noncomputable def divisor (x : Fin vocabSize) : ℝ :=
  if withDraftProbs then (draft h).prob x else 1

theorem acceptSet_eq (x : Fin vocabSize) : acceptSet withDraftProbs target draft h x =
    if 0 < divisor withDraftProbs draft h x then
    Set.Iic ((target.dist h).prob x / divisor withDraftProbs draft h x) else ∅ := by
  have targetProb : ∀ u, (position target draft h x u).targetProb softmax x =
      (target.dist h).prob x := by
    intro u
    rw [Position.targetProb, position, target.softmax_eq, Distribution.prob]
  have draftProb : ∀ u, (position target draft h x u).draftProb withDraftProbs x =
      divisor withDraftProbs draft h x := fun u => rfl
  have unpadded : ¬ (x : Int) < 0 := by omega
  ext u
  have draft_eq : (position target draft h x u).draftTokenId = x := rfl
  have uniform_eq : (position target draft h x u).uniformProb = u := rfl
  simp only [acceptSet, Set.mem_ofPred_eq, Position.accepted, draft_eq, uniform_eq, unpadded,
    if_false, Int.toNat_natCast, targetProb, draftProb, Bool.and_eq_true, decide_eq_true_eq]
  by_cases pos : 0 < divisor withDraftProbs draft h x
  · simp [pos]
  · simp [pos]

theorem acceptSet_measurable (x : Fin vocabSize) :
    MeasurableSet (acceptSet withDraftProbs target draft h x) := by
  rw [acceptSet_eq]
  split
  · exact measurableSet_Iic
  · exact MeasurableSet.empty

section

variable (deterministic : withDraftProbs = false → draft.Deterministic) (x : Fin vocabSize)
include deterministic x

theorem drawn_accepted :
    (draft h).prob x * (uniform01 (acceptSet withDraftProbs target draft h x)).toReal =
    min ((draft h).prob x) ((target.dist h).prob x) := by
  have p_nonneg := (target.dist h).prob_nonneg x
  have q_nonneg := (draft h).prob_nonneg x
  rw [acceptSet_eq]
  by_cases none_drawn : (draft h).prob x = 0
  · rw [none_drawn, zero_mul, min_eq_left p_nonneg]
  · have q_pos : 0 < (draft h).prob x := lt_of_le_of_ne q_nonneg (Ne.symm none_drawn)
    have divides : divisor withDraftProbs draft h x = (draft h).prob x := by
      cases withDraftProbs with
      | true => rfl
      | false =>
        obtain ⟨d, point⟩ := deterministic rfl h
        have one : (draft h).prob x = 1 := by
          by_cases is_d : x = d
          · rw [point, if_pos is_d]
          · exact absurd ((point x).trans (if_neg is_d)) none_drawn
        rw [one]
        rfl
    have ratio_nonneg : 0 ≤ min 1 ((target.dist h).prob x / (draft h).prob x) :=
      le_min zero_le_one (div_nonneg p_nonneg q_nonneg)
    rw [divides, if_pos q_pos, uniform01_Iic, ENNReal.toReal_ofReal ratio_nonneg,
      mul_min_of_nonneg _ _ q_nonneg, mul_one, mul_div_cancel₀ _ none_drawn]

theorem drawn_rejected :
    (draft h).prob x * (uniform01 (acceptSet withDraftProbs target draft h x)ᶜ).toReal =
    (draft h).prob x - min ((draft h).prob x) ((target.dist h).prob x) := by
  have measurable := acceptSet_measurable withDraftProbs target draft h x
  rw [prob_compl_eq_one_sub measurable, ENNReal.toReal_sub_of_le prob_le_one ENNReal.one_ne_top,
    ENNReal.toReal_one, mul_sub, mul_one, drawn_accepted withDraftProbs target draft h deterministic]

end

variable (t : Fin vocabSize)

noncomputable def excess : ℝ :=
  max ((target.dist h).prob t - (draft h).prob t) 0

theorem excess_nonneg : 0 ≤ excess target draft h t := le_max_right _ _

theorem min_add_excess :
    min ((draft h).prob t) ((target.dist h).prob t) + excess target draft h t =
    (target.dist h).prob t := by
  rw [excess]
  rcases le_total ((draft h).prob t) ((target.dist h).prob t) with le | le
  · rw [min_eq_left le, max_eq_left (sub_nonneg.mpr le)]
    ring
  · rw [min_eq_right le, max_eq_right (sub_nonpos.mpr le), add_zero]

theorem sum_excess : ∑ t, excess target draft h t =
    ∑ x : Fin vocabSize, ((draft h).prob x - min ((draft h).prob x) ((target.dist h).prob x)) := by
  have whole : ∑ t : Fin vocabSize, (min ((draft h).prob t) ((target.dist h).prob t) +
      excess target draft h t) = 1 := by
    rw [← (target.dist h).sum_prob]
    exact Finset.sum_congr rfl fun t _ => min_add_excess target draft h t
  rw [Finset.sum_add_distrib] at whole
  rw [Finset.sum_sub_distrib, (draft h).sum_prob]
  linarith

noncomputable def recoveredToken (x : Fin vocabSize) (q : Fin vocabSize → ℝ) : Nat :=
  (position target draft h x 0).recovered withDraftProbs softmax (List.ofFn q)

theorem recoveredToken_eq (deterministic : withDraftProbs = false → draft.Deterministic)
    {x : Fin vocabSize} (drawn : (draft h).prob x ≠ 0) (q : Fin vocabSize → ℝ) :
    recoveredToken withDraftProbs target draft h x q =
    argmax (List.ofFn fun v => excess target draft h v * (q v)⁻¹) := by
  have targetProb : ∀ v, (position target draft h x 0).targetProb softmax v =
      (target.dist h).prob v := by
    intro v
    rw [Position.targetProb, position, target.softmax_eq, Distribution.prob]
  have residual : ∀ v : Fin vocabSize,
      (position target draft h x 0).residual withDraftProbs softmax v = excess target draft h v := by
    intro v
    cases withDraftProbs with
    | true =>
      rw [Position.residual, if_pos rfl, targetProb]
      rfl
    | false =>
      obtain ⟨d, point⟩ := deterministic rfl h
      have is_d : x = d := by
        by_contra other
        exact drawn ((point x).trans (if_neg other))
      have draft_eq : (position target draft h x 0).draftTokenId = x := rfl
      rw [Position.residual, if_neg Bool.false_ne_true, targetProb, draft_eq, excess, point]
      by_cases same : v = d
      · rw [if_pos (by rw [same, is_d]), if_pos same, max_eq_right]
        exact sub_nonpos.mpr ((target.dist h).prob_le_one v)
      · have apart : ¬ ((v : Nat) : Int) = (x : Nat) := by
          intro eq
          exact same (is_d ▸ Fin.ext (by exact_mod_cast eq))
        rw [if_neg apart, if_neg same, sub_zero, max_eq_left ((target.dist h).prob_nonneg v)]
  have scores : ((List.range vocabSize).map fun v =>
      (position target draft h x 0).residual withDraftProbs softmax v *
        ((List.ofFn q).getD v 0)⁻¹) =
      List.ofFn fun v => excess target draft h v * (q v)⁻¹ := by
    apply List.ext_getElem
    · simp
    · intro v inside _
      have bound : v < vocabSize := by simpa using inside
      simp [residual ⟨v, bound⟩, bound]
  rw [recoveredToken, Position.recovered, scores]

theorem rejected_law {ν : Measure (Fin vocabSize → ℝ)} (race : DrawsProportionally ν)
    (deterministic : withDraftProbs = false → draft.Deterministic) (A : Set Nat) :
    ∑ x : Fin vocabSize, (draft h).prob x *
    ((uniform01 (acceptSet withDraftProbs target draft h x)ᶜ).toReal *
    (ν {q | recoveredToken withDraftProbs target draft h x q ∈ A}).toReal) = ∑ t : Fin vocabSize,
    Set.indicator {t : Fin vocabSize | (t : Nat) ∈ A} (excess target draft h) t := by
  obtain ⟨total, htotal⟩ : ∃ total, total = ∑ t, excess target draft h t := ⟨_, rfl⟩
  obtain ⟨part, hpart⟩ : ∃ part, part = ∑ t : Fin vocabSize,
    Set.indicator {t : Fin vocabSize | (t : Nat) ∈ A} (excess target draft h) t := ⟨_, rfl⟩
  have nonneg : 0 ≤ total := by
    rw [htotal]
    exact Finset.sum_nonneg fun t _ => excess_nonneg target draft h t
  have left : ∀ x : Fin vocabSize,
      0 ≤ (draft h).prob x - min ((draft h).prob x) ((target.dist h).prob x) :=
    fun x => sub_nonneg.mpr (min_le_left _ _)
  have part_le : 0 ≤ part ∧ part ≤ total := by
    rw [hpart, htotal]
    constructor
    · exact Finset.sum_nonneg fun t _ =>
        Set.indicator_nonneg (fun t _ => excess_nonneg target draft h t) t
    · exact Finset.sum_le_sum fun t _ =>
        Set.indicator_le_self' (fun t _ => excess_nonneg target draft h t) t
  have each : ∀ x : Fin vocabSize, (draft h).prob x *
      ((uniform01 (acceptSet withDraftProbs target draft h x)ᶜ).toReal *
        (ν {q | recoveredToken withDraftProbs target draft h x q ∈ A}).toReal) =
      ((draft h).prob x - min ((draft h).prob x) ((target.dist h).prob x)) * (part / total) := by
    intro x
    rw [← mul_assoc, drawn_rejected withDraftProbs target draft h deterministic]
    by_cases drawn : (draft h).prob x = 0
    · rw [drawn, min_eq_left ((target.dist h).prob_nonneg x), sub_zero, zero_mul, zero_mul]
    · by_cases some_excess : 0 < total
      · have law := race (excess target draft h) (excess_nonneg target draft h)
          (htotal ▸ some_excess) A
        have same : {q | recoveredToken withDraftProbs target draft h x q ∈ A} =
            {q | argmax (List.ofFn fun v => excess target draft h v * (q v)⁻¹) ∈ A} := by
          ext q
          simp only [Set.mem_ofPred_eq,
            recoveredToken_eq withDraftProbs target draft h deterministic drawn q]
        rw [same, law, hpart, htotal]
      · have zero : total = 0 := le_antisymm (not_lt.mp some_excess) nonneg
        rw [htotal, sum_excess] at zero
        have own := (Finset.sum_eq_zero_iff_of_nonneg fun x _ => left x).mp zero x
          (Finset.mem_univ x)
        rw [own, zero_mul, zero_mul]
  rw [Finset.sum_congr rfl fun x _ => each x, ← Finset.sum_mul, ← sum_excess, ← htotal, ← hpart]
  by_cases zero : total = 0
  · rw [zero, zero_mul, le_antisymm (part_le.2.trans zero.le) part_le.1]
  · exact mul_div_cancel₀ part zero

end FirstPosition

end VllmAmpere.RejectionSampler
