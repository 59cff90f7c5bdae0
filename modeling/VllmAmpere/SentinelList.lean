import Mathlib.Data.List.Nodup

/-! Doubly linked lists between two sentinel nodes, over an arbitrary type of
items. A pointer map is canonical when it is `ofList l`: walking `next` from the
head sentinel spells `l`, `prev` is its converse, and every other node has both
pointers empty. Pointer surgery is stated as `linkAll` and `unlinkAll` on a path
of nodes, so that each concrete queue operation is one of the two. -/

open List Function

namespace VllmAmpere.SentinelList

variable {α : Type*}

inductive Node (α : Type*)
  | head
  | item (a : α)
  | tail
  deriving DecidableEq

structure Links (α : Type*) where
  next : Node α → Option (Node α)
  prev : Node α → Option (Node α)

theorem Links.ext' {L M : Links α} (hn : ∀ z, L.next z = M.next z)
    (hp : ∀ z, L.prev z = M.prev z) : L = M := by
  cases L
  cases M
  simp only [Links.mk.injEq]
  exact ⟨funext hn, funext hp⟩

section Pointers

variable [DecidableEq α] (L : Links α)

def Links.setNext (x : Node α) (y : Option (Node α)) : Links α :=
  { L with next := update L.next x y }

def Links.setPrev (x : Node α) (y : Option (Node α)) : Links α :=
  { L with prev := update L.prev x y }

def Links.empty : Links α := ⟨fun _ => none, fun _ => none⟩

/-- `x` is directly before `y`. -/
def Links.link (x y : Node α) : Links α :=
  (L.setNext x (some y)).setPrev y (some x)

def Links.unlink (x : Node α) : Links α :=
  (L.setPrev x none).setNext x none

def Links.linkAll (L : Links α) : List (Node α) → Links α
  | x :: y :: rest => (L.link x y).linkAll (y :: rest)
  | _ => L

def Links.unlinkAll (path : List (Node α)) : Links α :=
  path.foldl Links.unlink L

end Pointers

/-- The nodes of the list `l`, both sentinels included. -/
def path (l : List α) : List (Node α) :=
  .head :: l.map .item ++ [.tail]

theorem path_nodup {l : List α} (h : l.Nodup) : (path l).Nodup := by
  have inj : Function.Injective (Node.item : α → Node α) := fun a b h => by cases h; rfl
  simp [path, nodup_append, h.map inj]

variable [DecidableEq α]

def Links.ofList (l : List α) : Links α := Links.empty.linkAll (path l)

/-- The node after `z` on a path. -/
def succ : List (Node α) → Node α → Option (Node α)
  | x :: y :: rest, z => if z = x then some y else succ (y :: rest) z
  | _, _ => none

/-- The node before `z` on a path. -/
def pred : List (Node α) → Node α → Option (Node α)
  | x :: y :: rest, z => if z = y then some x else pred (y :: rest) z
  | _, _ => none

variable {z : Node α}

theorem succ_eq_none : ∀ {p : List (Node α)}, z ∉ p → succ p z = none
  | [], _ => rfl
  | [_], _ => rfl
  | x :: y :: rest, h => by
    simp only [mem_cons, not_or] at h
    simp only [succ, h.1, if_false]
    exact succ_eq_none (p := y :: rest) (by simp [h.2.1, h.2.2])

theorem pred_eq_none : ∀ {p : List (Node α)}, z ∉ p → pred p z = none
  | [], _ => rfl
  | [_], _ => rfl
  | x :: y :: rest, h => by
    simp only [mem_cons, not_or] at h
    simp only [pred, h.2.1, if_false]
    exact pred_eq_none (p := y :: rest) (by simp [h.2.1, h.2.2])

theorem succ_last : ∀ {p : List (Node α)}, (p ++ [z]).Nodup → succ (p ++ [z]) z = none
  | [], _ => rfl
  | [x], h => by
    have hx : z ≠ x := by
      intro e
      simp [e] at h
    simp [succ, hx]
  | x :: y :: rest, h => by
    simp only [cons_append, nodup_cons, mem_cons, mem_append, not_or] at h
    have hx : z ≠ x := fun e => h.1.2.2.1 e.symm
    simp only [cons_append, succ, hx, if_false]
    exact succ_last (p := y :: rest) (by simpa using h.2)

variable {p : List (Node α)}

theorem pred_first {z : Node α} (h : (z :: p).Nodup) : pred (z :: p) z = none := by
  cases p with
  | nil => rfl
  | cons y rest =>
    simp only [nodup_cons, mem_cons, not_or] at h
    simp only [pred, h.1.1, if_false]
    exact pred_eq_none (by simp [h.1.1, h.1.2])

theorem linkAll_next : ∀ (p : List (Node α)) (L : Links α), p.Nodup →
    (L.linkAll p).next z = if z ∈ p.dropLast then succ p z else L.next z
  | [], L, _ => by simp [Links.linkAll]
  | [x], L, _ => by simp [Links.linkAll]
  | x :: y :: rest, L, h => by
    rw [Links.linkAll, linkAll_next (y :: rest) _ (nodup_cons.mp h).2]
    have hx : x ∉ (y :: rest).dropLast := fun hm =>
      (nodup_cons.mp h).1 (dropLast_subset _ hm)
    by_cases hz : z = x
    · subst hz
      simp [hx, succ, Links.link, Links.setNext, Links.setPrev]
    · have hmem : z ∈ (x :: y :: rest).dropLast ↔ z ∈ (y :: rest).dropLast := by
        simp [hz]
      simp only [hmem, succ, hz, if_false, Links.link, Links.setNext, Links.setPrev,
        update_of_ne hz]

theorem linkAll_prev : ∀ (p : List (Node α)) (L : Links α), p.Nodup →
    (L.linkAll p).prev z = if z ∈ p.tail then pred p z else L.prev z
  | [], L, _ => by simp [Links.linkAll]
  | [x], L, _ => by simp [Links.linkAll]
  | x :: y :: rest, L, h => by
    rw [Links.linkAll, linkAll_prev (y :: rest) _ (nodup_cons.mp h).2]
    have hy : y ∉ rest := (nodup_cons.mp (nodup_cons.mp h).2).1
    by_cases hz : z = y
    · subst hz
      simp [hy, pred, Links.link, Links.setNext, Links.setPrev]
    · simp [hz, pred, Links.link, Links.setNext, Links.setPrev]

theorem ofPath_next (h : p.Nodup) (z : Node α) :
    ((Links.empty : Links α).linkAll p).next z = succ p z := by
  rw [linkAll_next p _ h]
  split
  · rfl
  · rename_i hz
    rcases eq_nil_or_concat p with rfl | ⟨q, x, rfl⟩
    · rfl
    · rw [concat_eq_append] at hz h ⊢
      rw [dropLast_concat] at hz
      by_cases hx : z = x
      · subst hx
        exact (succ_last h).symm
      · exact (succ_eq_none (by simp [hz, hx])).symm

theorem ofPath_prev (h : p.Nodup) (z : Node α) :
    ((Links.empty : Links α).linkAll p).prev z = pred p z := by
  rw [linkAll_prev p _ h]
  split
  · rfl
  · rename_i hz
    cases p with
    | nil => rfl
    | cons x q =>
      rw [tail_cons] at hz
      by_cases hx : z = x
      · subst hx
        exact (pred_first h).symm
      · exact (pred_eq_none (by simp [hz, hx])).symm

theorem succ_append {z a : Node α} : ∀ {p r : List (Node α)}, (p ++ a :: r).Nodup →
    succ (p ++ a :: r) z = if z ∈ p then succ (p ++ [a]) z else succ (a :: r) z
  | [], _, _ => by simp
  | [x], r, h => by
    by_cases hz : z = x <;> simp [succ, hz]
  | x :: y :: p, r, h => by
    have ih := succ_append (z := z) (p := y :: p) (r := r) (nodup_cons.mp h).2
    simp only [cons_append] at ih
    by_cases hz : z = x
    · simp [succ, hz]
    · simp only [cons_append, succ, hz, if_false, ih, mem_cons, false_or]

theorem pred_append {z a : Node α} : ∀ {p r : List (Node α)}, (p ++ a :: r).Nodup →
    pred (p ++ a :: r) z = if z ∈ r then pred (a :: r) z else pred (p ++ [a]) z
  | [], r, h => by
    by_cases hz : z ∈ r
    · simp [hz]
    · by_cases ha : z = a
      · subst ha
        simp only [nil_append, hz, if_false]
        exact pred_first h
      · simp only [nil_append, hz, if_false]
        rw [pred_eq_none (by simp [ha, hz])]
        rfl
  | [x], r, h => by
    have hx := (nodup_cons.mp h).1
    have ha := (nodup_cons.mp (nodup_cons.mp h).2).1
    by_cases hz : z = a
    · subst hz
      simp [pred, ha]
    · by_cases hr : z ∈ r
      · simp [pred, hz, hr]
      · simp only [cons_append, nil_append, pred, hz, if_false, hr]
        exact pred_eq_none (by simp [hz, hr])
  | x :: y :: p, r, h => by
    have ih := pred_append (z := z) (p := y :: p) (r := r) (nodup_cons.mp h).2
    have hy := (nodup_cons.mp (nodup_cons.mp h).2).1
    simp only [cons_append] at ih
    by_cases hz : z = y
    · subst hz
      have hr : z ∉ r := fun hr => hy (by simp [hr])
      simp [pred, hr]
    · simp only [cons_append, pred, hz, if_false, ih]

theorem succ_concat {z x y : Node α} (h : (p ++ [x, y]).Nodup) :
    succ (p ++ [x, y]) z = if z = x then some y else succ (p ++ [x]) z := by
  rw [succ_append h]
  by_cases hp : z ∈ p
  · have hx : z ≠ x := fun e => (nodup_append.mp h).2.2 z hp x (by simp) e
    rw [if_pos hp, if_neg hx]
  · rw [if_neg hp]
    by_cases hx : z = x
    · simp [succ, hx]
    · rw [if_neg hx, succ_eq_none (p := p ++ [x]) (by simp [hp, hx])]
      simp [succ, hx]

theorem pred_concat {z x y : Node α} (h : (p ++ [x, y]).Nodup) :
    pred (p ++ [x, y]) z = if z = y then some x else pred (p ++ [x]) z := by
  rw [pred_append h]
  by_cases hy : z = y <;> simp [hy, pred]

theorem unlinkAll_next (z : Node α) (xs : List (Node α)) (L : Links α) :
    (L.unlinkAll xs).next z = if z ∈ xs then none else L.next z := by
  induction xs generalizing L with
  | nil => simp [Links.unlinkAll]
  | cons x xs ih =>
    have step : (L.unlinkAll (x :: xs)).next z = ((L.unlink x).unlinkAll xs).next z := rfl
    rw [step, ih]
    by_cases hx : z = x <;> simp [hx, Links.unlink, Links.setNext, Links.setPrev]

theorem unlinkAll_prev (z : Node α) (xs : List (Node α)) (L : Links α) :
    (L.unlinkAll xs).prev z = if z ∈ xs then none else L.prev z := by
  induction xs generalizing L with
  | nil => simp [Links.unlinkAll]
  | cons x xs ih =>
    have step : (L.unlinkAll (x :: xs)).prev z = ((L.unlink x).unlinkAll xs).prev z := rfl
    rw [step, ih]
    by_cases hx : z = x <;> simp [hx, Links.unlink, Links.setNext, Links.setPrev]

section Splice

variable {p xs r : List (Node α)} {a b : Node α}

section

variable (h : (p ++ a :: (xs ++ b :: r)).Nodup)
include h

theorem succ_splice (z : Node α) :
    succ (p ++ a :: (xs ++ b :: r)) z =
    if z ∈ a :: xs then succ (a :: xs ++ [b]) z else succ (p ++ a :: b :: r) z := by
  have short : (p ++ a :: b :: r).Nodup := by
    refine h.sublist ((List.Sublist.refl p).append ?_)
    exact (sublist_append_right xs (b :: r)).cons_cons a
  have inner : (a :: xs ++ b :: r).Nodup := (nodup_append.mp h).2.1
  rw [succ_append h, succ_append short, ← cons_append, succ_append inner]
  have apart : z ∈ p → z ∉ a :: xs := fun hp hx =>
    (nodup_append.mp h).2.2 z hp z
      (mem_append_left (b :: r) hx) rfl
  by_cases hp : z ∈ p
  · simp only [hp, if_true, apart hp, if_false]
  · by_cases hx : z ∈ a :: xs
    · simp only [hp, if_false, hx, if_true]
    · have ha : z ≠ a := fun e => hx (by simp [e])
      simp only [hp, if_false, hx, succ, ha]

theorem pred_splice (z : Node α) :
    pred (p ++ a :: (xs ++ b :: r)) z =
    if z ∈ xs ++ [b] then pred (a :: xs ++ [b]) z else pred (p ++ a :: b :: r) z := by
  have short : (p ++ a :: b :: r).Nodup := by
    refine h.sublist ((List.Sublist.refl p).append ?_)
    exact (sublist_append_right xs (b :: r)).cons_cons a
  have inner : (a :: xs ++ b :: r).Nodup := (nodup_append.mp h).2.1
  have tailNodup : (xs ++ b :: r).Nodup := (nodup_cons.mp inner).2
  rw [pred_append h, pred_append short, ← cons_append, pred_append inner]
  by_cases hr : z ∈ r
  · have hb : z ≠ b := by
      rintro rfl
      exact (nodup_cons.mp (nodup_append.mp tailNodup).2.1).1 hr
    have hx : z ∉ xs := fun hx =>
      (nodup_append.mp tailNodup).2.2 z hx z (by simp [hr]) rfl
    simp [hr, hb, hx, pred]
  · by_cases hx : z ∈ xs ++ [b]
    · have hm : z ∈ xs ++ b :: r := by
        simp only [mem_append, mem_cons] at hx ⊢
        tauto
      simp only [hm, if_true, hr, if_false, hx]
    · simp only [mem_append, mem_singleton, not_or] at hx
      have hm : z ∉ xs ++ b :: r := by simp [hx.1, hx.2, hr]
      simp [hm, hx.1, hx.2, hr]

theorem linkAll_insert :
    ((Links.empty : Links α).linkAll (p ++ a :: b :: r)).linkAll (a :: xs ++ [b]) =
    Links.empty.linkAll (p ++ a :: (xs ++ b :: r)) := by
  have short : (p ++ a :: b :: r).Nodup := by
    refine h.sublist ((List.Sublist.refl p).append ?_)
    exact (sublist_append_right xs (b :: r)).cons_cons a
  have middle : (a :: xs ++ [b]).Nodup := by
    refine h.sublist (List.Sublist.trans ?_ (sublist_append_right p _))
    simp
  apply Links.ext' <;> intro z
  · rw [linkAll_next _ _ middle, ofPath_next short, ofPath_next h, succ_splice h]
    simp only [dropLast_concat]
  · rw [linkAll_prev _ _ middle, ofPath_prev short, ofPath_prev h, pred_splice h]
    have tails : z ∈ (a :: xs ++ [b]).tail ↔ z ∈ xs ++ [b] := Iff.rfl
    by_cases hz : z ∈ xs ++ [b]
    · rw [if_pos (tails.mpr hz), if_pos hz]
    · rw [if_neg (tails.not.mpr hz), if_neg hz]

theorem linkAll_remove :
    (((Links.empty : Links α).linkAll (p ++ a :: (xs ++ b :: r))).link a b).unlinkAll xs =
    Links.empty.linkAll (p ++ a :: b :: r) := by
  have short : (p ++ a :: b :: r).Nodup := by
    refine h.sublist ((List.Sublist.refl p).append ?_)
    exact (sublist_append_right xs (b :: r)).cons_cons a
  have gone : ∀ z ∈ xs, z ∉ p ++ a :: b :: r := by
    intro z hz
    have h1 := nodup_append.mp h
    have h2 := nodup_cons.mp h1.2.1
    have h3 := nodup_append.mp h2.2
    simp only [mem_append, mem_cons, not_or]
    refine ⟨fun hp => h1.2.2 z hp z (by simp [hz]) rfl, ?_,
      fun e => h3.2.2 z hz z (by simp [e]) rfl, fun hr => h3.2.2 z hz z (by simp [hr]) rfl⟩
    rintro rfl
    exact h2.1 (by simp [hz])
  apply Links.ext' <;> intro z
  · rw [unlinkAll_next, ofPath_next short]
    by_cases hz : z ∈ xs
    · simp only [hz, if_true]
      exact (succ_eq_none (gone z hz)).symm
    · simp only [hz, if_false, Links.link, Links.setNext, Links.setPrev]
      by_cases ha : z = a
      · subst ha
        have hp : z ∉ p := fun hp => (nodup_append.mp h).2.2 z hp z (by simp) rfl
        rw [update_self, succ_append short]
        simp [hp, succ]
      · rw [update_of_ne ha, ofPath_next h, succ_splice h]
        simp [ha, hz]
  · rw [unlinkAll_prev, ofPath_prev short]
    by_cases hz : z ∈ xs
    · simp only [hz, if_true]
      exact (pred_eq_none (gone z hz)).symm
    · simp only [hz, if_false, Links.link, Links.setNext, Links.setPrev]
      by_cases hb : z = b
      · subst hb
        have hr : z ∉ r := (nodup_cons.mp (nodup_cons.mp
          (nodup_append.mp short).2.1).2).1
        rw [update_self, pred_append short]
        simp [pred]
      · rw [update_of_ne hb, ofPath_prev h, pred_splice h]
        simp [hb, hz]

end

end Splice

end VllmAmpere.SentinelList
