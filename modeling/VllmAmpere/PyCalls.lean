import VllmAmpere.Python

/-! Calls on a Python object: a call returns a value or raises, and what it changed
stays changed either way. Nothing here is about a particular program. -/

namespace VllmAmpere

structure PyM (σ α : Type) where
  run : σ → Except PyError α × σ

namespace PyM

variable {σ τ α β : Type}

instance : Monad (PyM σ) where
  pure a := ⟨fun s => (.ok a, s)⟩
  bind x f := ⟨fun s =>
    match x.run s with
    | (.ok a, s) => (f a).run s
    | (.error e, s) => (.error e, s)⟩

def get : PyM σ σ := ⟨fun s => (.ok s, s)⟩

def set (s : σ) : PyM σ Unit := ⟨fun _ => (.ok (), s)⟩

def update (f : σ → α × σ) : PyM σ α := ⟨fun s => (.ok (f s).1, (f s).2)⟩

def modify (f : σ → σ) : PyM σ Unit := ⟨fun s => (.ok (), f s)⟩

def lift (x : Except PyError α) : PyM σ α := ⟨fun s => (x, s)⟩

/-- `for x in xs`. -/
def forEach (f : α → PyM σ Unit) : List α → PyM σ Unit
  | [] => pure ()
  | x :: rest => do
    f x
    forEach f rest

/-- `for x in xs`, with what the rounds add to a list. -/
def collect (f : α → PyM σ (List β)) : List α → PyM σ (List β)
  | [] => pure []
  | x :: rest => do
    let found ← f x
    let others ← collect f rest
    pure (found ++ others)

theorem forEach_map (f : β → PyM σ Unit) (g : α → β) (xs : List α) :
    forEach f (xs.map g) = forEach (fun x => f (g x)) xs := by
  induction xs with
  | nil => rfl
  | cons x rest ih => rw [List.map_cons, forEach, ih, forEach]

theorem run_bind (x : PyM σ α) (f : α → PyM σ β) (s : σ) :
    (x >>= f).run s = match x.run s with
      | (.ok a, s) => (f a).run s
      | (.error e, s) => (.error e, s) := rfl

@[simp] theorem run_pure (a : α) (s : σ) : (pure a : PyM σ α).run s = (.ok a, s) := rfl

@[simp] theorem run_get (s : σ) : (get : PyM σ σ).run s = (.ok s, s) := rfl

@[simp] theorem run_set (s t : σ) : (set t).run s = (.ok (), t) := rfl

@[simp] theorem run_lift (x : Except PyError α) (s : σ) : (lift x).run s = (x, s) := rfl

@[simp] theorem run_update (f : σ → α × σ) (s : σ) :
    (update f).run s = (.ok (f s).1, (f s).2) := rfl

@[simp] theorem run_modify (f : σ → σ) (s : σ) : (modify f).run s = (.ok (), f s) := rfl

@[simp] theorem run_pure_bind (a : α) (f : α → PyM σ β) (s : σ) :
    ((pure a : PyM σ α) >>= f).run s = (f a).run s := rfl

@[simp] theorem run_get_bind (f : σ → PyM σ β) (s : σ) : (get >>= f).run s = (f s).run s := rfl

@[simp] theorem run_set_bind (t : σ) (f : Unit → PyM σ β) (s : σ) :
    (set t >>= f).run s = (f ()).run t := rfl

@[simp] theorem run_update_bind (g : σ → α × σ) (f : α → PyM σ β) (s : σ) :
    (update g >>= f).run s = (f (g s).1).run (g s).2 := rfl

@[simp] theorem run_modify_bind (g : σ → σ) (f : Unit → PyM σ β) (s : σ) :
    (modify g >>= f).run s = (f ()).run (g s) := rfl

@[simp] theorem run_lift_ok_bind (a : α) (f : α → PyM σ β) (s : σ) :
    (lift (.ok a) >>= f).run s = (f a).run s := rfl

@[simp] theorem run_lift_error_bind (e : PyError) (f : α → PyM σ β) (s : σ) :
    (lift (.error e) >>= f).run s = (.error e, s) := rfl

/-- What a call does to its object, whether it returns or raises. -/
def Keeps (R : σ → σ → Prop) (x : PyM σ α) : Prop := ∀ s, R s (x.run s).2

theorem Keeps.of_run {R : σ → σ → Prop} {x : PyM σ α} (hx : Keeps R x) {s s' : σ}
    {result : Except PyError α} (h : x.run s = (result, s')) : R s s' := by
  have kept := hx s
  rwa [h] at kept

section

variable {R : σ → σ → Prop} [IsRefl σ R] [IsTrans σ R] {x : PyM σ α} {f : α → PyM σ β}

theorem keeps_pure (a : α) : Keeps R (pure a) := fun s => refl s

theorem keeps_lift (x : Except PyError α) : Keeps R (lift x : PyM σ α) := fun s => refl s

theorem keeps_behind {s : σ} (hx : R s (x.run s).2) (hf : ∀ a, Keeps R (f a)) :
    R s ((x >>= f).run s).2 := by
  rw [run_bind]
  generalize x.run s = result at hx
  match result with
  | (.ok a, s') => exact IsTrans.trans s s' _ hx (hf a s')
  | (.error e, s') => exact hx

theorem Keeps.bind (hx : Keeps R x) (hf : ∀ a, Keeps R (f a)) : Keeps R (x >>= f) :=
  fun s => keeps_behind (hx s) hf

theorem keeps_forEach {f : α → PyM σ Unit} (hf : ∀ a, Keeps R (f a)) (xs : List α) :
    Keeps R (forEach f xs) := by
  induction xs with
  | nil => exact keeps_pure ()
  | cons x rest ih => exact (hf x).bind fun _ => ih

theorem keeps_collect {f : α → PyM σ (List β)} (hf : ∀ a, Keeps R (f a)) (xs : List α) :
    Keeps R (collect f xs) := by
  induction xs with
  | nil => exact keeps_pure []
  | cons x rest ih => exact (hf x).bind fun _ => ih.bind fun _ => keeps_pure _

end

/-- What a call does to an object that meets a condition, which it keeps. -/
def Under (cond : σ → Prop) (R : σ → σ → Prop) (s s' : σ) : Prop := cond s → R s s' ∧ cond s'

section

variable {cond : σ → Prop} {R : σ → σ → Prop}

instance [IsRefl σ R] : IsRefl σ (Under cond R) := ⟨fun s h => ⟨refl s, h⟩⟩

instance [IsTrans σ R] : IsTrans σ (Under cond R) := by
  refine ⟨fun s s' t first second h => ?_⟩
  have ⟨left, holds⟩ := first h
  have ⟨right, holds⟩ := second holds
  exact ⟨IsTrans.trans s s' t left right, holds⟩

end

theorem bind_ok {x : PyM σ α} {f : α → PyM σ β} {s t : σ} {b : β} :
    (x >>= f).run s = (.ok b, t) ↔ ∃ a s', x.run s = (.ok a, s') ∧ (f a).run s' = (.ok b, t) := by
  rw [run_bind]
  split
  next a s' h => simp [h]
  next e s' h => simp [h]

end PyM

end VllmAmpere
