import Mathlib.Logic.Function.Basic

/-! Rows that hold at most one value each, a step that frees, fills, moves and
swaps rows, and the log of such a step that does not say which freed row was
filled again. Replaying the log (the rows still free, then the additions, then the
moves) gives the rows after the step. Nothing here is about a particular program. -/

open List Function

namespace VllmAmpere

universe u v

/-- A move between two rows. -/
inductive RowMove
  | slide (a b : Nat)
  | swap (a b : Nat)
  deriving DecidableEq, Repr

namespace RowMove

def src : RowMove → Nat
  | slide a _ => a
  | swap a _ => a

def dst : RowMove → Nat
  | slide _ b => b
  | swap _ b => b

end RowMove

/-- The value of at most one kind in each row. -/
abbrev Rows (D : Type u) := Nat → Option D

namespace Rows

variable {D : Type u} {T : Type v} (c : Rows D)

def slide (a b : Nat) : Rows D :=
  update (update c a none) b (c a)

def swap (a b : Nat) : Rows D :=
  update (update c a (c b)) b (c a)

def move : RowMove → Rows D
  | .slide a b => c.slide a b
  | .swap a b => c.swap a b

def moves (moved : List RowMove) : Rows D := moved.foldl move c

/-- The rows that an addition fills take its value, or none. -/
def adds (added : List (Nat × Option D)) : Rows D :=
  added.foldl (fun c x => update c x.1 x.2) c

def clears (removed : List Nat) : Rows D :=
  removed.foldl (fun c i => update c i none) c

variable (f : D → Option T)

def project (c : Rows D) : Rows T := fun i => (c i).bind f

theorem moves_cons (m : RowMove) (moved : List RowMove) :
    c.moves (m :: moved) = (c.move m).moves moved :=
  rfl

theorem adds_cons (x : Nat × Option D) (added : List (Nat × Option D)) :
    c.adds (x :: added) = Rows.adds (update c x.1 x.2) added :=
  rfl

theorem clears_cons (i : Nat) (removed : List Nat) :
    c.clears (i :: removed) = Rows.clears (update c i none) removed :=
  rfl

theorem update_at (i : Nat) (x : Option D) (j : Nat) :
    update c i x j = if j = i then x else c j :=
  update_apply c i x j

theorem slide_at (a b j : Nat) :
    c.slide a b j = if j = b then c a else if j = a then none else c j := by
  rw [slide, update_at, update_at]

theorem swap_at (a b j : Nat) :
    c.swap a b j = if j = b then c a else if j = a then c b else c j := by
  rw [swap, update_at, update_at]

variable {c : Rows D}

theorem move_off {m : RowMove} {j : Nat} (src : j ≠ m.src) (dst : j ≠ m.dst) :
    c.move m j = c j := by
  cases m with
  | slide a b => rw [move, slide_at, if_neg (show j ≠ b from dst), if_neg (show j ≠ a from src)]
  | swap a b => rw [move, swap_at, if_neg (show j ≠ b from dst), if_neg (show j ≠ a from src)]

theorem clears_at (c : Rows D) (removed : List Nat) (j : Nat) :
    c.clears removed j = if j ∈ removed then none else c j := by
  induction removed generalizing c with
  | nil => rfl
  | cons i removed ih =>
    rw [clears_cons, ih, update_at]
    by_cases here : j ∈ removed
    · rw [if_pos here, if_pos (mem_cons_of_mem _ here)]
    · by_cases first : j = i
      · rw [if_neg here, if_pos first, if_pos (first ▸ mem_cons_self)]
      · rw [if_neg here, if_neg first, if_neg (by simp [here, first])]

theorem adds_off {added : List (Nat × Option D)} {j : Nat}
    (off : ∀ x ∈ added, x.1 ≠ j) : c.adds added j = c j := by
  induction added generalizing c with
  | nil => rfl
  | cons x added ih =>
    rw [adds_cons, ih fun y mem => off y (mem_cons_of_mem _ mem), update_at,
      if_neg (off x mem_cons_self).symm]

theorem moves_congr {c d : Rows D} {moved : List RowMove} {P : Nat → Prop}
    (agree : ∀ j, P j → c j = d j) (among : ∀ m ∈ moved, P m.src ∧ P m.dst) :
    ∀ j, P j → c.moves moved j = d.moves moved j := by
  induction moved generalizing c d with
  | nil => exact agree
  | cons m moved ih =>
    rw [moves_cons, moves_cons]
    have ⟨src, dst⟩ := among m mem_cons_self
    refine ih ?_ fun m mem => among m (mem_cons_of_mem _ mem)
    intro j inside
    cases m with
    | slide a b =>
      rw [move, move, slide_at, slide_at, agree j inside, agree a src]
    | swap a b =>
      rw [move, move, swap_at, swap_at, agree j inside, agree a src, agree b dst]

theorem moves_off {moved : List RowMove} {j : Nat}
    (off : ∀ m ∈ moved, j ≠ m.src ∧ j ≠ m.dst) : c.moves moved j = c j := by
  induction moved generalizing c with
  | nil => rfl
  | cons m moved ih =>
    have ⟨src, dst⟩ := off m mem_cons_self
    rw [moves_cons, ih fun m mem => off m (mem_cons_of_mem _ mem), move_off src dst]

theorem moves_append (c : Rows D) (moved more : List RowMove) :
    c.moves (moved ++ more) = (c.moves moved).moves more :=
  foldl_append

theorem adds_append (c : Rows D) (added more : List (Nat × Option D)) :
    c.adds (added ++ more) = (c.adds added).adds more :=
  foldl_append

theorem project_move (c : Rows D) (m : RowMove) :
    project f (c.move m) = (project f c).move m := by
  funext j
  cases m with
  | slide a b =>
    simp only [project, move, slide_at]
    split
    · rfl
    · split <;> rfl
  | swap a b =>
    simp only [project, move, swap_at]
    split
    · rfl
    · split <;> rfl

theorem project_moves (c : Rows D) (moved : List RowMove) :
    project f (c.moves moved) = (project f c).moves moved := by
  induction moved generalizing c with
  | nil => rfl
  | cons m moved ih =>
    rw [moves_cons, ih, project_move, moves_cons]

theorem project_adds (c : Rows D) (added : List (Nat × Option D)) :
    project f (c.adds added) = (project f c).adds (added.map fun x => (x.1, x.2.bind f)) := by
  induction added generalizing c with
  | nil => rfl
  | cons x added ih =>
    have updated : project f (update c x.1 x.2) =
        update (project f c) x.1 (x.2.bind f) := by
      funext j
      simp only [project, update_at]
      split <;> rfl
    rw [adds_cons, ih, updated]
    rfl

theorem project_clears (c : Rows D) (removed : List Nat) :
    project f (c.clears removed) = (project f c).clears removed := by
  funext j
  simp only [project, clears_at]
  split <;> rfl

variable (l : List (Option D))

def ofList : Rows D := fun i => l.getD i none

variable {l : List (Option D)}

theorem ofList_behind {i : Nat} (behind : l.length ≤ i) : ofList l i = none := by
  rw [ofList, getD_eq_getElem?_getD, getElem?_eq_none behind]
  rfl

theorem lt_of_ofList {i : Nat} {d : D} (there : ofList l i = some d) : i < l.length := by
  by_contra outside
  rw [ofList_behind (Nat.le_of_not_lt outside)] at there
  cases there

theorem ofList_set (l : List (Option D)) {i : Nat} (inside : i < l.length) (x : Option D) :
    ofList (l.set i x) = update (ofList l) i x := by
  funext j
  rw [update_at, ofList, getD_eq_getElem?_getD, getElem?_set]
  by_cases here : i = j
  · rw [if_pos here, if_pos inside, if_pos here.symm]
    rfl
  · rw [if_neg here, if_neg (Ne.symm here), ofList, getD_eq_getElem?_getD]

theorem ofList_append (l : List (Option D)) (x : Option D) :
    ofList (l ++ [x]) = update (ofList l) l.length x := by
  funext j
  rw [update_at, ofList, getD_eq_getElem?_getD]
  rcases Nat.lt_trichotomy j l.length with before | here | behind
  · rw [getElem?_append_left before, if_neg (Nat.ne_of_lt before), ofList,
      getD_eq_getElem?_getD]
  · rw [if_pos here, here, getElem?_append_right (Nat.le_refl _), Nat.sub_self]
    rfl
  · rw [if_neg (Nat.ne_of_gt behind), ofList_behind (Nat.le_of_lt behind),
      getElem?_eq_none (by rw [length_append]; exact behind)]
    rfl

theorem ofList_take {n : Nat} (only : ∀ i, n ≤ i → ofList l i = none) :
    ofList (l.take n) = ofList l := by
  funext j
  rcases Nat.lt_or_ge j n with before | behind
  · rw [ofList, ofList, getD_eq_getElem?_getD, getD_eq_getElem?_getD,
      getElem?_take_of_lt before]
  · rw [only j behind, ofList_behind (by rw [length_take]; omega)]

def Apart (m m' : RowMove) : Prop :=
  m.src ≠ m'.src ∧ m.src ≠ m'.dst ∧ m.dst ≠ m'.src ∧ m.dst ≠ m'.dst

end Rows

/-- The log of a step, from the rows `c₀` before it to the rows `c`: replaying it
gives the rows that are not still free. -/
structure RowLog {D : Type u} (c₀ : Rows D) (removed : List Nat) (added : List (Nat × Option D))
    (moved : List RowMove) (c : Rows D) : Prop where
  kept : ∀ i, i ∉ removed → (c₀.adds added).moves moved i = c i
  free : ∀ i ∈ removed, c i = none
  added_live : ∀ x ∈ added, x.1 ∉ removed
  moved_live : ∀ m ∈ moved, m.src ∉ removed ∧ m.dst ∉ removed

namespace RowLog

variable {D : Type u} {c₀ c : Rows D} {removed : List Nat} {added : List (Nat × Option D)}
  {moved : List RowMove}

theorem start (c : Rows D) : RowLog c [] [] [] c :=
  ⟨fun _ _ => rfl, nofun, nofun, nofun⟩

theorem remove (h : RowLog c₀ removed [] [] c) (i : Nat) :
    RowLog c₀ (removed ++ [i]) [] [] (update c i none) where
  kept := by
    intro j live
    rw [mem_append, not_or, mem_singleton] at live
    rw [Rows.update_at, if_neg live.2]
    exact h.kept j live.1
  free := by
    intro j mem
    rw [Rows.update_at]
    split
    · rfl
    next other =>
      rw [mem_append, mem_singleton] at mem
      exact h.free j (mem.resolve_right other)
  added_live := nofun
  moved_live := nofun

variable {removed' : List Nat}

theorem perm (h : RowLog c₀ removed added moved c)
    (same : ∀ i, i ∈ removed' ↔ i ∈ removed) : RowLog c₀ removed' added moved c where
  kept i live := h.kept i fun mem => live ((same i).mpr mem)
  free i mem := h.free i ((same i).mp mem)
  added_live x mem inside := h.added_live x mem ((same x.1).mp inside)
  moved_live m mem := ⟨fun inside => (h.moved_live m mem).1 ((same _).mp inside),
    fun inside => (h.moved_live m mem).2 ((same _).mp inside)⟩

theorem add (h : RowLog c₀ removed added [] c) {i : Nat} (x : Option D)
    (left : ∀ j, j ∈ removed' ↔ j ∈ removed ∧ j ≠ i) :
    RowLog c₀ removed' (added ++ [(i, x)]) [] (update c i x) where
  kept := by
    intro j live
    have filled : (c₀.adds (added ++ [(i, x)])).moves [] j =
        update (c₀.adds added) i x j := by
      rw [Rows.adds_append]
      rfl
    rw [filled, Rows.update_at, Rows.update_at]
    split
    · rfl
    next other => exact h.kept j fun mem => live ((left j).mpr ⟨mem, other⟩)
  free := by
    intro j mem
    have ⟨before, other⟩ := (left j).mp mem
    rw [Rows.update_at, if_neg other]
    exact h.free j before
  added_live := by
    intro y mem inside
    have ⟨before, other⟩ := (left y.1).mp inside
    rcases mem_append.mp mem with old | new
    · exact h.added_live y old before
    · exact other (congrArg Prod.fst (mem_singleton.mp new))
  moved_live := nofun

section

variable (h : RowLog c₀ removed added moved c)
include h

theorem slide {a b : Nat}
    (live : a ∉ removed) (left : ∀ j, j ∈ removed' ↔ j ∈ removed ∧ j ≠ b) :
    RowLog c₀ removed' added (moved ++ [.slide a b]) (c.slide a b) where
  kept := by
    intro j outside
    rw [Rows.moves_append]
    have last : ∀ d : Rows D, d.moves [.slide a b] = d.slide a b := fun _ => rfl
    rw [last, Rows.slide_at, Rows.slide_at, h.kept a live]
    split
    · rfl
    next other =>
      split
      · rfl
      · exact h.kept j fun mem => outside ((left j).mpr ⟨mem, other⟩)
  free := by
    intro j mem
    have ⟨before, other⟩ := (left j).mp mem
    rw [Rows.slide_at, if_neg other]
    split
    · rfl
    · exact h.free j before
  added_live x mem inside := h.added_live x mem ((left _).mp inside).1
  moved_live := by
    intro m mem
    rcases mem_append.mp mem with old | new
    · have ⟨src, dst⟩ := h.moved_live m old
      exact ⟨fun inside => src ((left _).mp inside).1, fun inside => dst ((left _).mp inside).1⟩
    · cases mem_singleton.mp new
      exact ⟨fun inside => live ((left _).mp inside).1, fun inside => ((left _).mp inside).2 rfl⟩

theorem swap {a b : Nat} (live_a : a ∉ removed)
    (live_b : b ∉ removed) : RowLog c₀ removed added (moved ++ [.swap a b]) (c.swap a b) where
  kept := by
    intro j outside
    rw [Rows.moves_append]
    have last : ∀ d : Rows D, d.moves [.swap a b] = d.swap a b := fun _ => rfl
    rw [last, Rows.swap_at, Rows.swap_at, h.kept a live_a, h.kept b live_b, h.kept j outside]
  free := by
    intro j mem
    have not_a : j ≠ a := fun e => live_a (e ▸ mem)
    have not_b : j ≠ b := fun e => live_b (e ▸ mem)
    rw [Rows.swap_at, if_neg not_b, if_neg not_a]
    exact h.free j mem
  added_live := h.added_live
  moved_live := by
    intro m mem
    rcases mem_append.mp mem with old | new
    · exact h.moved_live m old
    · cases mem_singleton.mp new
      exact ⟨live_a, live_b⟩

theorem replay :
    ((c₀.adds added).clears removed).moves moved = c := by
  funext j
  by_cases freed : j ∈ removed
  · have off : ∀ m ∈ moved, j ≠ m.src ∧ j ≠ m.dst := fun m mem =>
      ⟨fun e => (h.moved_live m mem).1 (e ▸ freed), fun e => (h.moved_live m mem).2 (e ▸ freed)⟩
    rw [Rows.moves_off off, Rows.clears_at, if_pos freed, h.free j freed]
  · have agree : ∀ i, i ∉ removed → (c₀.adds added).clears removed i = c₀.adds added i :=
      fun i live => by rw [Rows.clears_at, if_neg live]
    rw [Rows.moves_congr agree h.moved_live j freed, h.kept j freed]

theorem clears_adds :
    (c₀.clears removed).adds added = (c₀.adds added).clears removed := by
  have swap : ∀ (added : List (Nat × Option D)) (c₀ : Rows D), (∀ x ∈ added, x.1 ∉ removed) →
      (c₀.clears removed).adds added = (c₀.adds added).clears removed := by
    intro added
    induction added with
    | nil => exact fun _ _ => rfl
    | cons x added ih =>
      intro c₀ live
      have here := live x mem_cons_self
      have updated : update (c₀.clears removed) x.1 x.2 =
          Rows.clears (update c₀ x.1 x.2) removed := by
        funext j
        rw [Rows.update_at, Rows.clears_at, Rows.clears_at, Rows.update_at]
        split
        next same => rw [if_neg (same ▸ here)]
        next other => rfl
      rw [Rows.adds_cons, Rows.adds_cons, updated]
      exact ih _ fun y mem => live y (mem_cons_of_mem _ mem)
  exact swap added c₀ h.added_live

theorem replay_cleared_first :
    ((c₀.clears removed).adds added).moves moved = c := by
  rw [h.clears_adds, h.replay]

end

end RowLog

end VllmAmpere
