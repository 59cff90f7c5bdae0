import Mathlib.Logic.Relation

/-! Labelled transition systems, their runs and the induction principle of an
invariant. Nothing here is about a particular program. -/

namespace VllmAmpere

universe u v

/-- A transition system: its initial states and its labelled steps. -/
structure TransitionSystem (σ : Type u) (ι : Type v) where
  init : σ → Prop
  step : σ → ι → σ → Prop

namespace TransitionSystem

variable {σ : Type u} {ι : Type v}

inductive Reachable (S : TransitionSystem σ ι) : σ → Prop
  | init {s : σ} : S.init s → Reachable S s
  | step {s s' : σ} {a : ι} : Reachable S s → S.step s a s' → Reachable S s'

variable {S : TransitionSystem σ ι} {s : σ}

/-- A property of the initial states that each step from a reachable state keeps
holds in every reachable state. -/
theorem Reachable.invariant {P : σ → Prop} (start : ∀ s, S.init s → P s)
    (keep : ∀ s a s', S.Reachable s → P s → S.step s a s' → P s') (h : S.Reachable s) : P s := by
  induction h with
  | init h => exact start _ h
  | step hr hs ih => exact keep _ _ _ hr ih hs

theorem Reachable.mono {S T : TransitionSystem σ ι} (init : ∀ s, S.init s → T.init s)
    (step : ∀ s a s', S.step s a s' → T.step s a s') (h : S.Reachable s) : T.Reachable s :=
  h.invariant (fun s hs => .init (init s hs)) (fun _ _ _ _ ih hs => .step ih (step _ _ _ hs))

def meeting (S : TransitionSystem σ ι) (P : σ → ι → Prop) : TransitionSystem σ ι where
  init := S.init
  step s a s' := P s a ∧ S.step s a s'

theorem Reachable.of_meeting {P : σ → ι → Prop} (h : (S.meeting P).Reachable s) : S.Reachable s := by
  induction h with
  | init start => exact .init start
  | step _ step ih => exact .step ih step.2

section Exec

variable (exec : σ → ι → Option σ) (P : σ → ι → Prop) [∀ s a, Decidable (P s a)]

/-- The steps one after the other, each under a condition. -/
def execAll (s : σ) : List ι → Option σ
  | [] => some s
  | a :: rest =>
    if P s a then
      match exec s a with
      | some s => execAll s rest
      | none => none
    else none

theorem Reachable.execAll {S : TransitionSystem σ ι}
    (sound : ∀ s a s', exec s a = some s' → S.step s a s') {s s' : σ} {labels : List ι}
    (h : (S.meeting P).Reachable s) (ok : TransitionSystem.execAll exec P s labels = some s') :
    (S.meeting P).Reachable s' := by
  induction labels generalizing s with
  | nil =>
    cases ok
    exact h
  | cons a rest ih =>
    rw [TransitionSystem.execAll] at ok
    split at ok
    next met =>
      split at ok
      next ran => exact ih (.step h ⟨met, sound _ _ _ ran⟩) ok
      · cases ok
    · cases ok

theorem exists_reachable {S : TransitionSystem σ ι}
    (sound : ∀ s a s', exec s a = some s' → S.step s a s') {s : σ} (start : S.init s)
    (labels : List ι) (check : σ → Bool)
    (ok : (TransitionSystem.execAll exec P s labels).any check = true) :
    ∃ s', (S.meeting P).Reachable s' ∧ check s' = true := by
  obtain ⟨s', ran, checked⟩ := (Option.any_eq_true ..).mp ok
  exact ⟨s', .execAll exec P sound (.init start) ran, checked⟩

end Exec

def Leads (S : TransitionSystem σ ι) : σ → σ → Prop :=
  Relation.ReflTransGen fun s s' => ∃ a, S.step s a s'

theorem Reachable.leads {s s' : σ} (h : S.Reachable s) (hrun : S.Leads s s') : S.Reachable s' := by
  induction hrun with
  | refl => exact h
  | tail _ hstep ih =>
    have ⟨_, hs⟩ := hstep
    exact .step ih hs

end TransitionSystem

end VllmAmpere
