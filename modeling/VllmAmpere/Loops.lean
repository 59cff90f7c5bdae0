import VllmAmpere.Python

/-! `while` loops whose body may raise, run for a bounded number of rounds: the
invariant rule and the rule that enough rounds end the loop. Nothing here is about
a particular program. -/

namespace VllmAmpere

universe u v

/-- How a round of a loop ends: with another round, or by leaving the loop. -/
inductive Round (σ : Type u)
  | next (s : σ)
  | leave (s : σ)

/-- At most `fuel` rounds of `body`; `none` when these do not leave the loop. -/
def iterate {ε : Type v} {σ : Type u} (body : σ → Except ε (Round σ)) :
    Nat → σ → Except ε (Option σ)
  | 0, _ => .ok none
  | fuel + 1, s =>
    match body s with
    | .error e => .error e
    | .ok (.leave s) => .ok (some s)
    | .ok (.next s) => iterate body fuel s

variable {ε : Type v} {σ : Type u} {body : σ → Except ε (Round σ)}

theorem iterate_next {s s' : σ} (h : body s = .ok (.next s')) (fuel : Nat) :
    iterate body (fuel + 1) s = iterate body fuel s' := by
  rw [iterate, h]

theorem iterate_leave {s s' : σ} (h : body s = .ok (.leave s')) (fuel : Nat) :
    iterate body (fuel + 1) s = .ok (some s') := by
  rw [iterate, h]

theorem iterate_error {s : σ} {e : ε} (h : body s = .error e) (fuel : Nat) :
    iterate body (fuel + 1) s = .error e := by
  rw [iterate, h]

theorem iterate_rule {P Q : σ → Prop} (next : ∀ s s', P s → body s = .ok (.next s') → P s')
    (leave : ∀ s s', P s → body s = .ok (.leave s') → Q s') {fuel : Nat} {s s' : σ} (start : P s)
    (h : iterate body fuel s = .ok (some s')) : Q s' := by
  induction fuel generalizing s with
  | zero => cases h
  | succ fuel ih =>
    cases hb : body s with
    | error e => rw [iterate_error hb] at h; cases h
    | ok round =>
      cases round with
      | next t => exact ih (next s t start hb) (iterate_next hb fuel ▸ h)
      | leave t =>
        rw [iterate_leave hb] at h
        cases h
        exact leave s _ start hb

theorem iterate_ends {P : σ → Prop} (measure : σ → Nat)
    (next : ∀ s s', P s → body s = .ok (.next s') → P s' ∧ measure s' < measure s)
    {fuel : Nat} {s : σ} (start : P s) (enough : measure s < fuel) :
    iterate body fuel s ≠ .ok none := by
  induction fuel generalizing s with
  | zero => omega
  | succ fuel ih =>
    cases hb : body s with
    | error e => rw [iterate_error hb]; exact nofun
    | ok round =>
      cases round with
      | next t =>
        have ⟨ht, less⟩ := next s t start hb
        rw [iterate_next hb]
        exact ih ht (by omega)
      | leave t => rw [iterate_leave hb]; exact nofun

end VllmAmpere
