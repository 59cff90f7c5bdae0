import VllmAmpere.RandomSpeculation

/-! The law of the tokens a random request emits: each token that is emitted has, behind those
before it, the law of the target. -/

namespace VllmAmpere.RejectionSampler

open MeasureTheory

variable {softmax : Softmax ℝ} {vocabSize : Nat} (withDraftProbs : Bool)
  (target : TargetModel softmax vocabSize) (draft : DraftModel vocabSize)

section Recursion

theorem emittedTokens_succ {n : Nat} (h : List Int) (x : Fin vocabSize)
    (xs : Fin n → Fin vocabSize) (bonus : Fin vocabSize)
    (z : (Fin (n + 1) → ℝ) × (Fin vocabSize → ℝ)) :
    (z.1 0 ∈ acceptSet withDraftProbs target draft h x ∧
    emittedTokens withDraftProbs target draft h (Fin.cons x xs) bonus z =
    (x : Int) :: emittedTokens withDraftProbs target draft (h ++ [(x : Int)]) xs bonus
    (Fin.tail z.1, z.2)) ∨ (z.1 0 ∉ acceptSet withDraftProbs target draft h x ∧
    emittedTokens withDraftProbs target draft h (Fin.cons x xs) bonus z =
    [(recoveredToken withDraftProbs target draft h x z.2 : Int)]) := by
  have first : positions target draft (n + 1) h (Fin.cons x xs) z.1 =
      position target draft h x (z.1 0) ::
        positions target draft n (h ++ [(x : Int)]) xs (Fin.tail z.1) := by
    rw [positions, Fin.tail_cons]
    rfl
  have recovered : (position target draft h x (z.1 0)).recovered withDraftProbs softmax
      (List.ofFn z.2) = recoveredToken withDraftProbs target draft h x z.2 := rfl
  rw [emittedTokens, first, List.map_cons, Position.randomVerdict]
  by_cases accepted : (position target draft h x (z.1 0)).accepted withDraftProbs softmax = true
  · left
    refine ⟨accepted, ?_⟩
    rw [if_pos accepted, emitted]
    rfl
  · right
    refine ⟨accepted, ?_⟩
    rw [if_neg accepted, emitted, recovered]

variable (ν : Measure (Fin vocabSize → ℝ))

/-- The law of the tokens a request emits from its own draws. -/
noncomputable def tokensLaw (n : Nat) (h : List Int) (A : Set (List Int)) : ℝ :=
  draftExpect draft n h fun x => ∑ bonus : Fin vocabSize,
    (target.dist (h ++ drafted x)).prob bonus *
      (draws n ν {z | emittedTokens withDraftProbs target draft h x bonus z ∈ A}).toReal

theorem emissionLaw_eq {maxSpecLen : Nat} {before after : List (Row ℝ vocabSize maxSpecLen)}
    {n : Nat} {fits : n ≤ maxSpecLen} {temperature : ℝ} (random : temperature ≠ 0) (h : List Int)
    (A : Set (List Int)) :
    emissionLaw withDraftProbs target draft ν before after fits temperature h A =
    tokensLaw withDraftProbs target draft ν n h A := by
  simp only [emissionLaw, tokensLaw, emits_eq withDraftProbs target draft random]

variable [IsProbabilityMeasure ν]

theorem draws_succ {n : Nat} (h : List Int) (x : Fin vocabSize) (xs : Fin n → Fin vocabSize)
    (bonus : Fin vocabSize) (A : Set (List Int)) : (draws (n + 1) ν {z |
    emittedTokens withDraftProbs target draft h (Fin.cons x xs) bonus z ∈ A}).toReal =
    (uniform01 (acceptSet withDraftProbs target draft h x)).toReal *
    (draws n ν {z | emittedTokens withDraftProbs target draft (h ++ [(x : Int)]) xs bonus z ∈
    {e | (x : Int) :: e ∈ A}}).toReal +
    (uniform01 (acceptSet withDraftProbs target draft h x)ᶜ).toReal *
    (ν {q | recoveredToken withDraftProbs target draft h x q ∈
    {t : Nat | [(t : Int)] ∈ A}}).toReal := by
  have event : {z | emittedTokens withDraftProbs target draft h (Fin.cons x xs) bonus z ∈ A} =
      {z : (Fin (n + 1) → ℝ) × (Fin vocabSize → ℝ) |
        (z.1 0 ∈ acceptSet withDraftProbs target draft h x ∧ (Fin.tail z.1, z.2) ∈
          {z | emittedTokens withDraftProbs target draft (h ++ [(x : Int)]) xs bonus z ∈
            {e | (x : Int) :: e ∈ A}}) ∨
        (z.1 0 ∉ acceptSet withDraftProbs target draft h x ∧ z.2 ∈
          {q | recoveredToken withDraftProbs target draft h x q ∈
            {t : Nat | [(t : Int)] ∈ A}})} := by
    ext z
    simp only [Set.mem_ofPred_eq]
    cases emittedTokens_succ withDraftProbs target draft h x xs bonus z with
    | inl accepted => simp [accepted.1, accepted.2]
    | inr rejected => simp [rejected.1, rejected.2]
  rw [event, draws_split (acceptSet_measurable withDraftProbs target draft h x),
    ENNReal.toReal_add (ENNReal.mul_ne_top (measure_ne_top _ _) (measure_ne_top _ _))
      (ENNReal.mul_ne_top (measure_ne_top _ _) (measure_ne_top _ _)),
    ENNReal.toReal_mul, ENNReal.toReal_mul]

theorem tokensLaw_zero (h : List Int) (A : Set (List Int)) :
    tokensLaw withDraftProbs target draft ν 0 h A =
    ∑ bonus : Fin vocabSize, Set.indicator {b : Fin vocabSize | [((b : Nat) : Int)] ∈ A}
    (fun b => (target.dist h).prob b) bonus := by
  have none_drafted : h ++ drafted (Fin.elim0 : Fin 0 → Fin vocabSize) = h := by
    simp [drafted]
  rw [tokensLaw, draftExpect, none_drafted]
  apply Finset.sum_congr rfl
  intro bonus _
  have tokens : ∀ z, emittedTokens withDraftProbs target draft h Fin.elim0 bonus z =
      [((bonus : Nat) : Int)] := fun z => rfl
  simp only [tokens]
  by_cases mem : [((bonus : Nat) : Int)] ∈ A
  · rw [Set.indicator_of_mem (by exact mem)]
    simp [mem]
  · rw [Set.indicator_of_notMem (by exact mem)]
    simp [mem]

theorem tokensLaw_succ (race : DrawsProportionally ν)
    (deterministic : withDraftProbs = false → draft.Deterministic) (n : Nat) (h : List Int)
    (A : Set (List Int)) : tokensLaw withDraftProbs target draft ν (n + 1) h A =
    (∑ x : Fin vocabSize, min ((draft h).prob x) ((target.dist h).prob x) *
    tokensLaw withDraftProbs target draft ν n (h ++ [(x : Int)]) {e | (x : Int) :: e ∈ A}) +
    ∑ t : Fin vocabSize, Set.indicator {t : Fin vocabSize | [((t : Nat) : Int)] ∈ A}
    (excess target draft h) t := by
  have recovered := rejected_law withDraftProbs target draft h race deterministic
    {t : Nat | [(t : Int)] ∈ A}
  have each : ∀ x : Fin vocabSize, (draft h).prob x *
      draftExpect draft n (h ++ [(x : Int)]) (fun xs => ∑ bonus : Fin vocabSize,
        (target.dist (h ++ drafted (Fin.cons x xs))).prob bonus *
          (draws (n + 1) ν {z | emittedTokens withDraftProbs target draft h (Fin.cons x xs) bonus z
            ∈ A}).toReal) =
      min ((draft h).prob x) ((target.dist h).prob x) *
        tokensLaw withDraftProbs target draft ν n (h ++ [(x : Int)]) {e | (x : Int) :: e ∈ A} +
      (draft h).prob x * ((uniform01 (acceptSet withDraftProbs target draft h x)ᶜ).toReal *
        (ν {q | recoveredToken withDraftProbs target draft h x q ∈
          {t : Nat | [(t : Int)] ∈ A}}).toReal) := by
    intro x
    have behind : ∀ xs : Fin n → Fin vocabSize, h ++ drafted (Fin.cons x xs) =
        (h ++ [(x : Int)]) ++ drafted xs := by
      intro xs
      rw [drafted_cons, List.append_assoc, List.singleton_append]
    simp only [draws_succ, behind, mul_add, Finset.sum_add_distrib]
    simp only [← Finset.sum_mul, Distribution.sum_prob, one_mul, mul_left_comm _
      (uniform01 (acceptSet withDraftProbs target draft h x)).toReal, ← Finset.mul_sum]
    rw [draftExpect_linear, mul_add, ← mul_assoc,
      drawn_accepted withDraftProbs target draft h deterministic]
    rfl
  rw [tokensLaw, draftExpect, Finset.sum_congr rfl fun x _ => each x, Finset.sum_add_distrib,
    recovered]
  rfl

end Recursion

section Sequences

variable {ν : Measure (Fin vocabSize → ℝ)} [IsProbabilityMeasure ν] (race : DrawsProportionally ν)
  (deterministic : withDraftProbs = false → draft.Deterministic)

include race deterministic

theorem tokensLaw_none {n : Nat} {h : List Int} {A : Set (List Int)}
    (none : ∀ x e, x :: e ∉ A) : tokensLaw withDraftProbs target draft ν n h A = 0 := by
  induction n generalizing h A with
  | zero => simp [tokensLaw_zero, Set.indicator, none]
  | succ n ih =>
    have later : ∀ x : Fin vocabSize, tokensLaw withDraftProbs target draft ν n
        (h ++ [(x : Int)]) {e | (x : Int) :: e ∈ A} = 0 := fun x => ih fun y e => none _ _
    rw [tokensLaw_succ withDraftProbs target draft ν race deterministic]
    simp only [later, mul_zero, Finset.sum_const_zero, zero_add]
    simp [Set.indicator, none]

theorem tokensLaw_some {n : Nat} {h : List Int} {A : Set (List Int)}
    (all : ∀ x e, x :: e ∈ A) : tokensLaw withDraftProbs target draft ν n h A = 1 := by
  induction n generalizing h A with
  | zero => simp [tokensLaw_zero, Set.indicator, all, Distribution.sum_prob]
  | succ n ih =>
    have later : ∀ x : Fin vocabSize, tokensLaw withDraftProbs target draft ν n
        (h ++ [(x : Int)]) {e | (x : Int) :: e ∈ A} = 1 := fun x => ih fun y e => all _ _
    rw [tokensLaw_succ withDraftProbs target draft ν race deterministic]
    simp only [later, mul_one]
    simp only [Set.indicator, Set.mem_ofPred_eq, all, if_true]
    rw [← Finset.sum_add_distrib, ← (target.dist h).sum_prob]
    exact Finset.sum_congr rfl fun t _ => min_add_excess target draft h t

/-- Behind the tokens `y` the next emitted token has the target's law. -/
theorem tokensLaw_next (n : Nat) (h y : List Int) (t : Fin vocabSize) :
    tokensLaw withDraftProbs target draft ν n h {e | y ++ [(t : Int)] <+: e} =
    tokensLaw withDraftProbs target draft ν n h {e | y <+: e ∧ y.length < e.length} *
    (target.dist (h ++ y)).prob t := by
  induction y generalizing n h with
  | nil =>
    have any : tokensLaw withDraftProbs target draft ν n h
        {e | [] <+: e ∧ ([] : List Int).length < e.length} = 1 :=
      tokensLaw_some withDraftProbs target draft race deterministic fun x e => by simp
    rw [any, one_mul, List.nil_append, List.append_nil]
    cases n with
    | zero =>
      rw [tokensLaw_zero]
      have only : ∀ b : Fin vocabSize, Set.indicator
          {b : Fin vocabSize | [((b : Nat) : Int)] ∈ {e : List Int | [(t : Int)] <+: e}}
          (fun b => (target.dist h).prob b) b = if t = b then (target.dist h).prob b else 0 := by
        intro b
        have same : [(t : Int)] <+: [((b : Nat) : Int)] ↔ t = b := by
          simp [List.cons_prefix_cons, Fin.ext_iff]
        simp only [Set.indicator, Set.mem_ofPred_eq, same]
      rw [Finset.sum_congr rfl fun b _ => only b]
      simp
    | succ n =>
      rw [tokensLaw_succ withDraftProbs target draft ν race deterministic]
      have accepted : ∀ x : Fin vocabSize, min ((draft h).prob x) ((target.dist h).prob x) *
          tokensLaw withDraftProbs target draft ν n (h ++ [(x : Int)])
            {e | (x : Int) :: e ∈ {e : List Int | [(t : Int)] <+: e}} =
          if t = x then min ((draft h).prob x) ((target.dist h).prob x) else 0 := by
        intro x
        by_cases same : t = x
        · rw [if_pos same, same, tokensLaw_some withDraftProbs target draft race deterministic,
            mul_one]
          simp
        · rw [if_neg same, tokensLaw_none withDraftProbs target draft race deterministic, mul_zero]
          intro y e mem
          have eq := (List.cons_prefix_cons.mp mem).1
          exact same (Fin.ext (by exact_mod_cast eq))
      have rejected : ∀ v : Fin vocabSize, Set.indicator
          {v : Fin vocabSize | [((v : Nat) : Int)] ∈ {e : List Int | [(t : Int)] <+: e}}
          (excess target draft h) v = if t = v then excess target draft h v else 0 := by
        intro v
        have same : [(t : Int)] <+: [((v : Nat) : Int)] ↔ t = v := by
          simp [List.cons_prefix_cons, Fin.ext_iff]
        simp only [Set.indicator, Set.mem_ofPred_eq, same]
      rw [Finset.sum_congr rfl fun x _ => accepted x, Finset.sum_congr rfl fun v _ => rejected v]
      simp only [Finset.sum_ite_eq, Finset.mem_univ, if_true]
      exact min_add_excess target draft h t
  | cons a y ih =>
    cases n with
    | zero =>
      rw [tokensLaw_zero, tokensLaw_zero]
      simp [Set.indicator, List.cons_prefix_cons]
    | succ n =>
      rw [tokensLaw_succ withDraftProbs target draft ν race deterministic,
        tokensLaw_succ withDraftProbs target draft ν race deterministic]
      have short : ∀ v : Fin vocabSize,
          ¬ (a :: y) ++ [(t : Int)] <+: [((v : Nat) : Int)] := by
        intro v le
        have := le.length_le
        simp at this
      have short' : ∀ v : Fin vocabSize, ¬ (a :: y).length < [((v : Nat) : Int)].length := by
        intro v
        simp
      simp only [Set.indicator, Set.mem_ofPred_eq, short, short', and_false, if_false,
        Finset.sum_const_zero, add_zero, Finset.sum_mul]
      apply Finset.sum_congr rfl
      intro x _
      rw [mul_assoc]
      congr 1
      by_cases first : a = (x : Int)
      · have left : {e | (a :: y) ++ [(t : Int)] <+: (x : Int) :: e} =
            {e | y ++ [(t : Int)] <+: e} := by
          ext e
          simp [first, List.cons_prefix_cons]
        have right : {e | a :: y <+: (x : Int) :: e ∧ (a :: y).length < ((x : Int) :: e).length} =
            {e | y <+: e ∧ y.length < e.length} := by
          ext e
          simp [first, List.cons_prefix_cons]
        rw [left, right, ih, first, List.append_assoc, List.singleton_append]
      · rw [tokensLaw_none withDraftProbs target draft race deterministic,
          tokensLaw_none withDraftProbs target draft race deterministic, zero_mul]
        · rintro b e ⟨le, -⟩
          exact first (List.cons_prefix_cons.mp le).1
        · intro b e le
          exact first (List.cons_prefix_cons.mp le).1

omit race deterministic in
noncomputable def sequenceProb : List Int → List (Fin vocabSize) → ℝ
  | _, [] => 1
  | h, t :: ts => (target.dist h).prob t * sequenceProb (h ++ [(t : Int)]) ts

omit race deterministic in
def tokenIds (y : List (Fin vocabSize)) : List Int := y.map fun t => (t : Int)

omit race deterministic in
theorem tokenIds_cons (t : Fin vocabSize) (ts : List (Fin vocabSize)) :
    tokenIds (t :: ts) = (t : Int) :: tokenIds ts := rfl

theorem tokensLaw_first {n : Nat} {h e : List Int} (t : Fin vocabSize) :
    tokensLaw withDraftProbs target draft ν (n + 1) h {(t : Int) :: e} =
    min ((draft h).prob t) ((target.dist h).prob t) *
    tokensLaw withDraftProbs target draft ν n (h ++ [(t : Int)]) {e} +
    if e = [] then excess target draft h t else 0 := by
  have accepted : ∀ x : Fin vocabSize, min ((draft h).prob x) ((target.dist h).prob x) *
      tokensLaw withDraftProbs target draft ν n (h ++ [(x : Int)])
        {e' | (x : Int) :: e' ∈ ({(t : Int) :: e} : Set (List Int))} =
      if t = x then min ((draft h).prob x) ((target.dist h).prob x) *
        tokensLaw withDraftProbs target draft ν n (h ++ [(x : Int)]) {e} else 0 := by
    intro x
    by_cases same : t = x
    · have only : {e' | (x : Int) :: e' ∈ ({(t : Int) :: e} : Set (List Int))} = {e} := by
        ext e'
        simp [same]
      rw [if_pos same, only]
    · rw [if_neg same, tokensLaw_none withDraftProbs target draft race deterministic, mul_zero]
      intro y e' mem
      have eq := List.head_eq_of_cons_eq mem
      exact same (Fin.ext (by exact_mod_cast eq.symm))
  have rejected : ∀ v : Fin vocabSize, Set.indicator
      {v : Fin vocabSize | [((v : Nat) : Int)] ∈ ({(t : Int) :: e} : Set (List Int))}
      (excess target draft h) v =
      if t = v then (if e = [] then excess target draft h v else 0) else 0 := by
    intro v
    have same : [((v : Nat) : Int)] ∈ ({(t : Int) :: e} : Set (List Int)) ↔ t = v ∧ e = [] := by
      simp only [Set.mem_singleton_iff, List.cons.injEq, Nat.cast_inj, Fin.ext_iff]
      constructor
      · rintro ⟨eq, rest⟩
        exact ⟨eq.symm, rest.symm⟩
      · rintro ⟨eq, rest⟩
        exact ⟨eq.symm, rest.symm⟩
    simp only [Set.indicator, Set.mem_ofPred_eq, same, ite_and]
  rw [tokensLaw_succ withDraftProbs target draft ν race deterministic,
    Finset.sum_congr rfl fun x _ => accepted x, Finset.sum_congr rfl fun v _ => rejected v]
  simp

theorem tokensLaw_completed {n : Nat} (h : List Int) {y : List (Fin vocabSize)}
    (length : y.length = n + 1) : ∑ k ∈ Finset.range (y.length + 1),
    tokensLaw withDraftProbs target draft ν n h {(tokenIds y).take k} *
    sequenceProb target (h ++ (tokenIds y).take k) (y.drop k) = sequenceProb target h y := by
  induction n generalizing h y with
  | zero =>
    obtain ⟨t, rfl⟩ := List.length_eq_one_iff.mp length
    have only : ∀ b : Fin vocabSize, Set.indicator
        {b : Fin vocabSize | [((b : Nat) : Int)] ∈ ({[(t : Int)]} : Set (List Int))}
        (fun b => (target.dist h).prob b) b = if t = b then (target.dist h).prob b else 0 := by
      intro b
      have same : [((b : Nat) : Int)] ∈ ({[(t : Int)]} : Set (List Int)) ↔ t = b := by
        simp [Fin.ext_iff, eq_comm]
      simp only [Set.indicator, Set.mem_ofPred_eq, same]
    have last : tokensLaw withDraftProbs target draft ν 0 h {[(t : Int)]} =
        (target.dist h).prob t := by
      rw [tokensLaw_zero, Finset.sum_congr rfl fun b _ => only b]
      simp
    have nothing : tokensLaw withDraftProbs target draft ν 0 h {[]} = 0 :=
      tokensLaw_none withDraftProbs target draft race deterministic fun x e => by simp
    simp [Finset.sum_range_succ, tokenIds, nothing, last, sequenceProb]
  | succ n ih =>
    cases y with
    | nil => simp at length
    | cons t ts =>
      have shorter : ts.length = n + 1 := Nat.succ.inj length
      have nothing : tokensLaw withDraftProbs target draft ν (n + 1) h {[]} = 0 :=
        tokensLaw_none withDraftProbs target draft race deterministic fun x e => by simp
      have each : ∀ k ∈ Finset.range (ts.length + 1),
          tokensLaw withDraftProbs target draft ν (n + 1) h
              {(tokenIds (t :: ts)).take (k + 1)} *
            sequenceProb target (h ++ (tokenIds (t :: ts)).take (k + 1))
              ((t :: ts).drop (k + 1)) =
          min ((draft h).prob t) ((target.dist h).prob t) *
            (tokensLaw withDraftProbs target draft ν n (h ++ [(t : Int)])
              {(tokenIds ts).take k} *
            sequenceProb target ((h ++ [(t : Int)]) ++ (tokenIds ts).take k) (ts.drop k)) +
          if k = 0 then excess target draft h t * sequenceProb target (h ++ [(t : Int)]) ts
            else 0 := by
        intro k _
        have ends : (tokenIds ts).take k = [] ↔ k = 0 := by
          rw [List.take_eq_nil_iff]
          constructor
          · rintro (zero | empty)
            · exact zero
            · have := congrArg List.length empty
              simp [tokenIds, shorter] at this
          · exact Or.inl
        rw [tokenIds_cons, List.take_succ_cons,
          tokensLaw_first withDraftProbs target draft race deterministic, List.drop_succ_cons]
        by_cases zero : k = 0
        · subst zero
          simp [add_mul, mul_assoc]
        · rw [if_neg (fun eq => zero (ends.mp eq)), if_neg zero, add_zero, add_zero, mul_assoc,
            List.append_assoc, List.singleton_append]
      rw [List.length_cons, Finset.sum_range_succ', Finset.sum_congr rfl each,
        Finset.sum_add_distrib, ← Finset.mul_sum, ih _ shorter, List.take_zero, nothing]
      have excess_once : ∑ k ∈ Finset.range (ts.length + 1),
          (if k = 0 then excess target draft h t * sequenceProb target (h ++ [(t : Int)]) ts
            else 0) = excess target draft h t * sequenceProb target (h ++ [(t : Int)]) ts := by
        simp
      rw [excess_once, zero_mul, add_zero, ← add_mul, min_add_excess]
      rfl

end Sequences

/-! Random rejection sampling through the kernels keeps the law of the target. -/

/-- Whatever the other rows of the batch, the first token kept for a random request has the law of
the target, each further one has the law of the target behind the tokens before it, and the tokens
completed from the target have the law of drawing from the target one token at a time. -/
theorem random_speculation_lossless {softmax : Softmax ℝ} {vocabSize maxSpecLen n : Nat}
    (withDraftProbs : Bool) (target : TargetModel softmax vocabSize)
    (draft : DraftModel vocabSize) (deterministic : withDraftProbs = false → draft.Deterministic)
    (ν : Measure (Fin vocabSize → ℝ)) [IsProbabilityMeasure ν] (race : DrawsProportionally ν)
    (before after : List (Row ℝ vocabSize maxSpecLen)) (fits : n ≤ maxSpecLen)
    {temperature : ℝ} (random : temperature ≠ 0) (h : List Int) : (∀ t : Fin vocabSize,
    emissionLaw withDraftProbs target draft ν before after fits temperature h
    {e | e.head? = some (t : Int)} = (target.dist h).prob t) ∧
    (∀ (y : List Int) (t : Fin vocabSize),
    emissionLaw withDraftProbs target draft ν before after fits temperature h
    {e | y ++ [(t : Int)] <+: e} =
    emissionLaw withDraftProbs target draft ν before after fits temperature h
    {e | y <+: e ∧ y.length < e.length} * (target.dist (h ++ y)).prob t) ∧
    ∀ y : List (Fin vocabSize), y.length = n + 1 → ∑ k ∈ Finset.range (y.length + 1),
    emissionLaw withDraftProbs target draft ν before after fits temperature h
    {(tokenIds y).take k} * sequenceProb target (h ++ (tokenIds y).take k) (y.drop k) =
    sequenceProb target h y := by
  simp only [emissionLaw_eq withDraftProbs target draft ν random]
  have next := tokensLaw_next withDraftProbs target draft race deterministic n h
  refine ⟨?_, next, fun y length =>
    tokensLaw_completed withDraftProbs target draft race deterministic h length⟩
  intro t
  have first := next [] t
  have some_token : tokensLaw withDraftProbs target draft ν n h
      {e | [] <+: e ∧ ([] : List Int).length < e.length} = 1 :=
    tokensLaw_some withDraftProbs target draft race deterministic fun x e => by simp
  have head : {e : List Int | e.head? = some (t : Int)} = {e | [] ++ [(t : Int)] <+: e} := by
    ext e
    cases e with
    | nil => simp
    | cons x e => simp [List.cons_prefix_cons, eq_comm]
  rw [head, first, some_token, one_mul, List.append_nil]

section Instances

noncomputable def twoRace : Measure (Fin 2 → ℝ) :=
  (volume.restrict (Set.Ioo 0 1)).map fun t : ℝ => ![t, 1 - t]

theorem twoRace_measurable : Measurable fun t : ℝ => ![t, 1 - t] := by
  apply measurable_pi_lambda
  intro v
  fin_cases v
  · exact measurable_id
  · exact measurable_const.sub measurable_id

instance uniform_isProbabilityMeasure :
    IsProbabilityMeasure (volume.restrict (Set.Ioo (0 : ℝ) 1)) := by
  constructor
  rw [Measure.restrict_apply MeasurableSet.univ, Set.univ_inter, Real.volume_Ioo]
  simp

instance : IsProbabilityMeasure twoRace :=
  Measure.isProbabilityMeasure_map twoRace_measurable.aemeasurable

theorem argmax_two (a b : ℝ) : argmax [a, b] = if a < b then 1 else 0 := by
  by_cases lt : a < b
  · simp [argmax, maxIndex, lt]
  · simp [argmax, maxIndex, lt]

theorem twoRace_wins {w : Fin 2 → ℝ} (nonneg : ∀ v, 0 ≤ w v) (total : 0 < ∑ v, w v) :
    (twoRace {q | w 0 * (q 0)⁻¹ < w 1 * (q 1)⁻¹}).toReal = w 1 / ∑ v, w v := by
  have measurable : MeasurableSet {q : Fin 2 → ℝ | w 0 * (q 0)⁻¹ < w 1 * (q 1)⁻¹} :=
    measurableSet_lt ((measurable_pi_apply 0).inv.const_mul _)
      ((measurable_pi_apply 1).inv.const_mul _)
  rw [Fin.sum_univ_two] at total ⊢
  have share : w 0 / (w 0 + w 1) ≤ 1 := by
    rw [div_le_one total]
    linarith [nonneg 1]
  have event : Set.preimage (fun t : ℝ => ![t, 1 - t])
      {q : Fin 2 → ℝ | w 0 * (q 0)⁻¹ < w 1 * (q 1)⁻¹} ∩ Set.Ioo 0 1 =
      Set.Ioo (w 0 / (w 0 + w 1)) 1 := by
    ext t
    simp only [Set.mem_inter_iff, Set.mem_preimage, Set.mem_ofPred_eq, Set.mem_Ioo,
      Matrix.cons_val_zero, Matrix.cons_val_one]
    have wins : 0 < t → t < 1 →
        (w 0 * t⁻¹ < w 1 * (1 - t)⁻¹ ↔ w 0 / (w 0 + w 1) < t) := by
      intro pos lt
      rw [← div_eq_mul_inv, ← div_eq_mul_inv, div_lt_div_iff₀ pos (sub_pos.mpr lt),
        div_lt_iff₀ total]
      constructor
      · intro le
        linarith
      · intro le
        linarith
    constructor
    · rintro ⟨won, pos, lt⟩
      exact ⟨(wins pos lt).mp won, lt⟩
    · rintro ⟨behind, lt⟩
      have pos : 0 < t := (div_nonneg (nonneg 0) total.le).trans_lt behind
      exact ⟨(wins pos lt).mpr behind, pos, lt⟩
  rw [twoRace, Measure.map_apply twoRace_measurable measurable,
    Measure.restrict_apply (twoRace_measurable measurable), event, Real.volume_Ioo,
    ENNReal.toReal_ofReal (sub_nonneg.mpr share)]
  field_simp
  ring

theorem twoRace_draws : DrawsProportionally twoRace := by
  intro w nonneg total A
  obtain ⟨S, hS⟩ : ∃ S : Set (Fin 2 → ℝ), S = {q | w 0 * (q 0)⁻¹ < w 1 * (q 1)⁻¹} := ⟨_, rfl⟩
  have measurable : MeasurableSet S := by
    rw [hS]
    exact measurableSet_lt ((measurable_pi_apply 0).inv.const_mul _)
      ((measurable_pi_apply 1).inv.const_mul _)
  have second : (twoRace S).toReal = w 1 / ∑ v, w v := hS ▸ twoRace_wins nonneg total
  have first : (twoRace Sᶜ).toReal = w 0 / ∑ v, w v := by
    rw [prob_compl_eq_one_sub measurable,
      ENNReal.toReal_sub_of_le prob_le_one ENNReal.one_ne_top, ENNReal.toReal_one, second]
    rw [Fin.sum_univ_two] at total ⊢
    field_simp
    ring
  have chosen : ∀ q : Fin 2 → ℝ, argmax (List.ofFn fun v => w v * (q v)⁻¹) ∈ A ↔
      (q ∈ S ∧ 1 ∈ A) ∨ (q ∉ S ∧ 0 ∈ A) := by
    intro q
    have scores : (List.ofFn fun v => w v * (q v)⁻¹) = [w 0 * (q 0)⁻¹, w 1 * (q 1)⁻¹] := by
      simp [List.ofFn_succ]
    rw [scores, argmax_two, hS, Set.mem_ofPred_eq]
    by_cases won : w 0 * (q 0)⁻¹ < w 1 * (q 1)⁻¹
    · simp [won]
    · simp [won]
  have event : {q : Fin 2 → ℝ | argmax (List.ofFn fun v => w v * (q v)⁻¹) ∈ A} =
      {q | (q ∈ S ∧ 1 ∈ A) ∨ (q ∉ S ∧ 0 ∈ A)} := Set.ext chosen
  have whole : (twoRace Set.univ).toReal = (∑ v, w v) / ∑ v, w v := by
    rw [measure_univ, ENNReal.toReal_one, div_self total.ne']
  rw [event]
  by_cases zero_in : 0 ∈ A
  · by_cases one_in : 1 ∈ A
    · have both : {q | (q ∈ S ∧ 1 ∈ A) ∨ (q ∉ S ∧ 0 ∈ A)} = Set.univ := by
        ext q
        simp [zero_in, one_in, em]
      rw [both, whole]
      simp [Set.indicator, zero_in, one_in, Fin.sum_univ_two]
    · have only : {q | (q ∈ S ∧ 1 ∈ A) ∨ (q ∉ S ∧ 0 ∈ A)} = Sᶜ := by
        ext q
        simp [zero_in, one_in]
      rw [only, first]
      simp [Set.indicator, zero_in, one_in, Fin.sum_univ_two]
  · by_cases one_in : 1 ∈ A
    · have only : {q | (q ∈ S ∧ 1 ∈ A) ∨ (q ∉ S ∧ 0 ∈ A)} = S := by
        ext q
        simp [zero_in, one_in]
      rw [only, second]
      simp [Set.indicator, zero_in, one_in, Fin.sum_univ_two]
    · have neither : {q | (q ∈ S ∧ 1 ∈ A) ∨ (q ∉ S ∧ 0 ∈ A)} = ∅ := by
        ext q
        simp [zero_in, one_in]
      rw [neither]
      simp [Set.indicator, zero_in, one_in, Fin.sum_univ_two]

def identity : Softmax ℝ := ⟨id, fun _ => rfl⟩

noncomputable def evenDistribution : Distribution 2 where
  probs := [1 / 2, 1 / 2]
  length_eq := rfl
  nonneg := by simp
  sum_eq_one := by norm_num

noncomputable def skewDistribution : Distribution 2 where
  probs := [1 / 4, 3 / 4]
  length_eq := rfl
  nonneg := by
    intro x hx
    fin_cases hx <;> norm_num
  sum_eq_one := by norm_num

/-- A target over two tokens, for which each is as likely as the other. -/
noncomputable def evenTarget : TargetModel identity 2 where
  logits _ := [1 / 2, 1 / 2]
  dist _ := evenDistribution
  softmax_eq _ := rfl

/-- Three drafts of a model that prefers the second token. -/
theorem even_target_kept : emissionLaw true evenTarget (fun _ => skewDistribution) twoRace
    ([] : List (Row ℝ 2 3)) [] (le_refl 3) 1 [] {e | e.head? = some 0} = 1 / 2 := by
  have kept := (random_speculation_lossless true evenTarget (fun _ => skewDistribution)
    (fun h => by cases h) twoRace twoRace_draws ([] : List (Row ℝ 2 3)) [] (le_refl 3)
    one_ne_zero []).1 0
  have prob : (evenTarget.dist []).prob (0 : Fin 2) = 1 / 2 := rfl
  rw [prob] at kept
  exact kept

end Instances

end VllmAmpere.RejectionSampler
