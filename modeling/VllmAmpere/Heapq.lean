import Mathlib.Data.List.Sort

/-! Binary heaps kept in a list, with the sifting of the standard `heapq` module:
a push bubbles up, a pop moves the smaller children up to a leaf and bubbles the
displaced item up from there. Items are ordered by a key. -/

open List Function

namespace VllmAmpere.Heapq

universe u v

variable {α : Type u} {κ : Type v} [LinearOrder κ] (key : α → κ)

def parent (i : Nat) : Nat := (i - 1) / 2

/-- The loop of `_siftdown`: parents larger than `newitem` move down. -/
def siftdownLoop (startpos : Nat) (newitem : α) : Nat → List α → Nat → List α
  | 0, heap, pos => heap.set pos newitem
  | fuel + 1, heap, pos =>
    match heap[parent pos]? with
    | some p =>
      if startpos < pos ∧ key newitem < key p then
        siftdownLoop startpos newitem fuel (heap.set pos p) (parent pos)
      else heap.set pos newitem
    | none => heap.set pos newitem

variable (heap : List α)

/-- The smaller child of a position, the right one of two equal ones. -/
def smallerChild (pos : Nat) : Option (α × Nat) :=
  match heap[2 * pos + 1]?, heap[2 * pos + 2]? with
  | some l, some r => if key l < key r then some (l, 2 * pos + 1) else some (r, 2 * pos + 2)
  | some l, none => some (l, 2 * pos + 1)
  | none, _ => none

/-- The loop of `_siftup`: smaller children move up until a leaf is free. -/
def siftupLoop : Nat → List α → Nat → List α × Nat
  | 0, heap, pos => (heap, pos)
  | fuel + 1, heap, pos =>
    match smallerChild key heap pos with
    | some (c, childpos) => siftupLoop fuel (heap.set pos c) childpos
    | none => (heap, pos)

def siftup (pos : Nat) : List α :=
  match heap[pos]? with
  | some newitem =>
    let (heap, leaf) := siftupLoop key heap.length heap pos
    siftdownLoop key pos newitem (leaf + 1) heap leaf
  | none => heap

def heappush (item : α) : List α :=
  siftdownLoop key 0 item (heap.length + 1) (heap ++ [item]) heap.length

def heappop : Option (α × List α) :=
  match heap.getLast?, heap.dropLast with
  | none, _ => none
  | some lastelt, [] => some (lastelt, [])
  | some lastelt, returnitem :: rest => some (returnitem, siftup key (lastelt :: rest) 0)

def heapifyFrom : Nat → List α → List α
  | 0, heap => heap
  | i + 1, heap => heapifyFrom i (siftup key heap i)

def heapify : List α := heapifyFrom key (heap.length / 2) heap

def drain : Nat → List α → List α
  | 0, _ => []
  | n + 1, heap =>
    match heappop key heap with
    | some (x, rest) => x :: drain n rest
    | none => []

/-- Every item from position `s` on is at or before its children. -/
def OrderedFrom (s : Nat) (heap : List α) : Prop :=
  ∀ i x y, 0 < i → s ≤ parent i → heap[parent i]? = some x → heap[i]? = some y → key x ≤ key y

def IsHeap : Prop := OrderedFrom key 0 heap

/-- The positions of the subtree under `s`. -/
inductive Below (s : Nat) : Nat → Prop
  | refl : Below s s
  | left {i : Nat} : Below s i → Below s (2 * i + 1)
  | right {i : Nat} : Below s i → Below s (2 * i + 2)

theorem Below.le {s i : Nat} (h : Below s i) : s ≤ i := by
  induction h with
  | refl => exact Nat.le_refl s
  | left _ ih => omega
  | right _ ih => omega

theorem Below.parent {s i : Nat} (h : Below s i) (hi : s < i) : Below s (parent i) := by
  cases h with
  | refl => omega
  | @left i h =>
    have e : Heapq.parent (2 * i + 1) = i := by unfold Heapq.parent; omega
    exact e.symm ▸ h
  | @right i h =>
    have e : Heapq.parent (2 * i + 2) = i := by unfold Heapq.parent; omega
    exact e.symm ▸ h

theorem parent_lt {i : Nat} (h : 0 < i) : parent i < i := by
  unfold parent
  omega

/-- A heap from `s` on but for the item at `hole`: the pairs that do not touch the
hole are in order, and so are its parent and its children. -/
structure Hole (s hole : Nat) (heap : List α) : Prop where
  valid : hole < heap.length
  within : Below s hole
  off : ∀ i x y, 0 < i → s ≤ parent i → i ≠ hole → parent i ≠ hole →
    heap[parent i]? = some x → heap[i]? = some y → key x ≤ key y
  grand : ∀ i x y, 0 < i → s < hole → parent i = hole → heap[parent hole]? = some x →
    heap[i]? = some y → key x ≤ key y

variable {key} {s hole : Nat} {heap : List α} {newitem : α}

theorem Hole.ordered (h : Hole key s hole heap)
    (above : ∀ p, s < hole → heap[parent hole]? = some p → key p ≤ key newitem)
    (below : ∀ i y, 0 < i → parent i = hole → heap[i]? = some y → key newitem ≤ key y) :
    OrderedFrom key s (heap.set hole newitem) := by
  intro i x y hi hs hx hy
  have hp := parent_lt hi
  rw [getElem?_set] at hx hy
  by_cases hih : hole = i
  · have apart : ¬hole = parent i := by omega
    rw [if_pos hih, if_pos h.valid] at hy
    rw [if_neg apart] at hx
    cases hy
    exact above x (by omega) (by rw [hih]; exact hx)
  · rw [if_neg hih] at hy
    by_cases hph : hole = parent i
    · rw [if_pos hph, if_pos h.valid] at hx
      cases hx
      exact below i y hi hph.symm hy
    · rw [if_neg hph] at hx
      exact h.off i x y hi hs (Ne.symm hih) (Ne.symm hph) hx hy

theorem Hole.raise (h : Hole key s hole heap) (hs : s < hole) {p : α}
    (hp : heap[parent hole]? = some p) : Hole key s (parent hole) (heap.set hole p) where
  valid := by
    rw [length_set]
    exact (parent_lt (by omega)).trans h.valid
  within := h.within.parent hs
  off i x y hi hsi hne hpne hx hy := by
    rw [getElem?_set] at hx hy
    have apart : ¬hole = i := fun e => hpne (congrArg parent e.symm)
    rw [if_neg apart] at hy
    by_cases hph : hole = parent i
    · rw [if_pos hph, if_pos h.valid] at hx
      cases hx
      exact h.grand i p y hi hs hph.symm hp hy
    · rw [if_neg hph] at hx
      exact h.off i x y hi hsi (Ne.symm apart) (Ne.symm hph) hx hy
  grand i x y hi hsp hpi hx hy := by
    have hlt := parent_lt (i := hole) (by omega)
    have hlt' := parent_lt (i := parent hole) (by omega)
    have top : key x ≤ key p := by
      have apart : ¬hole = parent (parent hole) := by omega
      have hle := (h.within.parent hs).parent hsp
      rw [getElem?_set, if_neg apart] at hx
      exact h.off (parent hole) x p (by omega) hle.le (by omega) (Ne.symm apart) hx hp
    rw [getElem?_set] at hy
    by_cases hih : hole = i
    · rw [if_pos hih, if_pos h.valid] at hy
      cases hy
      exact top
    · rw [if_neg hih] at hy
      have hle := (h.within.parent hs).le
      exact top.trans (h.off i p y hi (by omega) (Ne.symm hih) (by omega) (hpi ▸ hp) hy)

theorem siftdownLoop_ordered {fuel : Nat} (h : Hole key s hole heap) (enough : hole < fuel)
    (below : ∀ i y, 0 < i → parent i = hole → heap[i]? = some y → key newitem ≤ key y) :
    OrderedFrom key s (siftdownLoop key s newitem fuel heap hole) := by
  induction fuel generalizing heap hole with
  | zero => omega
  | succ fuel ih =>
    rw [siftdownLoop]
    split
    · rename_i p hp
      split
      · rename_i hmove
        have ⟨hs, hlt⟩ := hmove
        have smaller := parent_lt (i := hole) (by omega)
        refine ih (h.raise hs hp) (by omega) fun i y hi hpi hy => ?_
        rw [getElem?_set] at hy
        by_cases hih : hole = i
        · rw [if_pos hih, if_pos h.valid] at hy
          cases hy
          exact hlt.le
        · rw [if_neg hih] at hy
          have hle := (h.within.parent hs).le
          exact hlt.le.trans
            (h.off i p y hi (by omega) (Ne.symm hih) (by omega) (hpi ▸ hp) hy)
      · rename_i hstop
        refine h.ordered (fun q hs hq => ?_) below
        have hqp : q = p := Option.some.inj (hq.symm.trans hp)
        rw [hqp]
        exact le_of_not_gt fun hlt => hstop ⟨hs, hlt⟩
    · rename_i hnone
      refine h.ordered (fun q hs hq => ?_) below
      rw [hnone] at hq
      cases hq

theorem set_moved_perm {i j : Nat} {x : α} (hi : i < heap.length) (hij : i ≠ j)
    (hx : heap[j]? = some x) : ((heap.set i x).set j newitem).Perm (heap.set i newitem) := by
  have ⟨hj, e⟩ := List.getElem?_eq_some_iff.mp hx
  have swap := @set_set_perm _ (heap.set i newitem) i j
    (by rwa [length_set]) (by rwa [length_set])
  rw [getElem_set_self, getElem_set_ne hij, e, set_set] at swap
  exact swap

theorem siftdownLoop_perm (key : α → κ) (s fuel : Nat) (newitem : α) (heap : List α) (hole : Nat)
    (valid : hole < heap.length) :
    (siftdownLoop key s newitem fuel heap hole).Perm (heap.set hole newitem) := by
  induction fuel generalizing heap hole with
  | zero => exact .refl _
  | succ fuel ih =>
    rw [siftdownLoop]
    split
    · rename_i p hp
      split
      · rename_i hmove
        have smaller := parent_lt (i := hole) (by omega)
        have rest := ih (heap.set hole p) (parent hole) (by rw [length_set]; omega)
        exact rest.trans (set_moved_perm valid (by omega) hp)
      · exact .refl _
    · exact .refl _

theorem smallerChild_some {c : α} {childpos : Nat}
    (h : smallerChild key heap hole = some (c, childpos)) :
    0 < childpos ∧ parent childpos = hole ∧ hole < childpos ∧
    (childpos = 2 * hole + 1 ∨ childpos = 2 * hole + 2) ∧ heap[childpos]? = some c ∧
    ∀ i y, 0 < i → parent i = hole → heap[i]? = some y → key c ≤ key y := by
  have kids : ∀ i, 0 < i → parent i = hole → i = 2 * hole + 1 ∨ i = 2 * hole + 2 := by
    intro i hi hp
    unfold parent at hp
    omega
  have left : parent (2 * hole + 1) = hole := by unfold parent; omega
  have right : parent (2 * hole + 2) = hole := by unfold parent; omega
  unfold smallerChild at h
  split at h
  · rename_i l r hl hr
    split at h
    · rename_i hlt
      cases h
      refine ⟨by omega, left, by omega, .inl rfl, hl, fun i y hi hp hy => ?_⟩
      rcases kids i hi hp with rfl | rfl
      · rw [Option.some.inj (hl.symm.trans hy)]
      · rw [← Option.some.inj (hr.symm.trans hy)]
        exact hlt.le
    · rename_i hlt
      cases h
      refine ⟨by omega, right, by omega, .inr rfl, hr, fun i y hi hp hy => ?_⟩
      rcases kids i hi hp with rfl | rfl
      · rw [← Option.some.inj (hl.symm.trans hy)]
        exact le_of_not_gt hlt
      · rw [Option.some.inj (hr.symm.trans hy)]
  · rename_i l hl hr
    cases h
    refine ⟨by omega, left, by omega, .inl rfl, hl, fun i y hi hp hy => ?_⟩
    rcases kids i hi hp with rfl | rfl
    · rw [Option.some.inj (hl.symm.trans hy)]
    · rw [hr] at hy
      cases hy
  · cases h

theorem smallerChild_none (h : smallerChild key heap hole = none) {i : Nat} (hi : 0 < i)
    (hp : parent i = hole) : heap[i]? = none := by
  have hleft : heap[2 * hole + 1]? = none := by
    unfold smallerChild at h
    split at h
    · split at h <;> cases h
    · cases h
    · assumption
  have hlen := List.getElem?_eq_none_iff.mp hleft
  unfold parent at hp
  exact List.getElem?_eq_none_iff.mpr (by omega)

theorem Hole.lower (h : Hole key s hole heap) {c : α} {childpos : Nat}
    (hc : smallerChild key heap hole = some (c, childpos)) :
    Hole key s childpos (heap.set hole c) := by
  have ⟨hpos, hparent, hlt, hkid, hat, least⟩ := smallerChild_some hc
  have hvalid : childpos < heap.length := (List.getElem?_eq_some_iff.mp hat).1
  refine ⟨by rwa [length_set], ?_, ?_, ?_⟩
  · rcases hkid with rfl | rfl
    · exact h.within.left
    · exact h.within.right
  · intro i x y hi hs hne hpne hx hy
    have hp := parent_lt hi
    rw [getElem?_set] at hx hy
    by_cases hih : hole = i
    · have apart : ¬hole = parent i := by omega
      rw [if_pos hih, if_pos h.valid] at hy
      rw [if_neg apart] at hx
      cases hy
      exact h.grand childpos x c hpos (by omega) hparent (by rw [hih]; exact hx) hat
    · rw [if_neg hih] at hy
      by_cases hph : hole = parent i
      · rw [if_pos hph, if_pos h.valid] at hx
        cases hx
        exact least i y hi hph.symm hy
      · rw [if_neg hph] at hx
        exact h.off i x y hi hs (Ne.symm hih) (Ne.symm hph) hx hy
  · intro i x y hi hs hpi hx hy
    have hp := parent_lt hi
    have hle := h.within.le
    rw [hparent, getElem?_set, if_pos rfl, if_pos h.valid] at hx
    rw [getElem?_set, if_neg (by omega)] at hy
    cases hx
    exact h.off i c y hi (by omega) (by omega) (by omega) (hpi ▸ hat) hy

theorem siftupLoop_hole (fuel : Nat) (h : Hole key s hole heap)
    (enough : heap.length ≤ hole + fuel) :
    Hole key s (siftupLoop key fuel heap hole).2 (siftupLoop key fuel heap hole).1 ∧
    ∀ i, 0 < i → parent i = (siftupLoop key fuel heap hole).2 →
    (siftupLoop key fuel heap hole).1[i]? = none := by
  induction fuel generalizing heap hole with
  | zero =>
    have := h.valid
    omega
  | succ fuel ih =>
    rw [siftupLoop]
    split
    · rename_i c childpos hc
      have lower := (smallerChild_some hc).2.2.1
      exact ih (h.lower hc) (by rw [length_set]; omega)
    · rename_i hc
      exact ⟨h, fun i hi hp => smallerChild_none hc hi hp⟩

theorem siftupLoop_perm (key : α → κ) (fuel : Nat) (heap : List α) (hole : Nat)
    (valid : hole < heap.length) (newitem : α) :
    ((siftupLoop key fuel heap hole).1.set (siftupLoop key fuel heap hole).2 newitem).Perm
    (heap.set hole newitem) ∧
    (siftupLoop key fuel heap hole).2 < (siftupLoop key fuel heap hole).1.length := by
  induction fuel generalizing heap hole with
  | zero => exact ⟨.refl _, valid⟩
  | succ fuel ih =>
    rw [siftupLoop]
    split
    · rename_i c childpos hc
      have ⟨_, _, hlt, _, hat, _⟩ := smallerChild_some hc
      have hvalid : childpos < heap.length := (List.getElem?_eq_some_iff.mp hat).1
      have ⟨perm, valid'⟩ := ih (heap.set hole c) childpos (by rwa [length_set])
      exact ⟨perm.trans (set_moved_perm valid (by omega) hat), valid'⟩
    · exact ⟨.refl _, valid⟩

theorem siftup_perm (key : α → κ) (heap : List α) (pos : Nat) :
    (siftup key heap pos).Perm heap := by
  unfold siftup
  split
  · rename_i newitem hnew
    have ⟨hpos, e⟩ := List.getElem?_eq_some_iff.mp hnew
    have ⟨perm, valid⟩ := siftupLoop_perm key heap.length heap pos hpos newitem
    have self : heap.set pos newitem = heap := by rw [← e, set_getElem_self]
    rw [self] at perm
    exact (siftdownLoop_perm key _ _ _ _ _ valid).trans perm
  · exact .refl _

theorem siftup_ordered {pos : Nat} (h : OrderedFrom key (pos + 1) heap) :
    OrderedFrom key pos (siftup key heap pos) := by
  unfold siftup
  split
  · rename_i newitem hnew
    have hpos := (List.getElem?_eq_some_iff.mp hnew).1
    have start : Hole key pos pos heap := by
      refine ⟨hpos, .refl, fun i x y hi hs _ hpne hx hy => ?_, fun _ _ _ _ hs => by omega⟩
      exact h i x y hi (by omega) hx hy
    have ⟨hole, leaf⟩ := siftupLoop_hole heap.length start (by omega)
    refine siftdownLoop_ordered hole (by omega) fun i y hi hp hy => ?_
    rw [leaf i hi hp] at hy
    cases hy
  · rename_i hnone
    intro i x y hi hs hx hy
    have hlen := List.getElem?_eq_none_iff.mp hnone
    have hxlen := (List.getElem?_eq_some_iff.mp hx).1
    omega

theorem heappush_perm (heap : List α) (item : α) :
    (heappush key heap item).Perm (item :: heap) := by
  have perm := siftdownLoop_perm key 0 (heap.length + 1) item (heap ++ [item]) heap.length
    (by simp)
  have self : (heap ++ [item]).set heap.length item = heap ++ [item] := by simp
  rw [self] at perm
  exact perm.trans (perm_append_singleton item heap)

theorem heappush_isHeap (h : IsHeap key heap) (item : α) : IsHeap key (heappush key heap item) := by
  have hole : Hole key 0 heap.length (heap ++ [item]) := by
    have old : ∀ (i : Nat) x, i ≠ heap.length → (heap ++ [item])[i]? = some x →
        heap[i]? = some x := by
      intro i x hne hx
      have hlen := (List.getElem?_eq_some_iff.mp hx).1
      rw [length_append, length_singleton] at hlen
      rwa [getElem?_append_left (by omega)] at hx
    have inside : Below 0 heap.length := by
      have all : ∀ n, Below 0 n := by
        intro n
        induction n using Nat.strongRecOn with
        | ind n ih =>
          by_cases hn : n = 0
          · exact hn ▸ .refl
          · by_cases odd : n % 2 = 1
            · have e : 2 * (n / 2) + 1 = n := by omega
              exact e ▸ (ih (n / 2) (by omega)).left
            · have e : 2 * (n / 2 - 1) + 2 = n := by omega
              exact e ▸ (ih (n / 2 - 1) (by omega)).right
      exact all _
    refine ⟨by simp, inside, fun i x y hi hs hne hpne hx hy => ?_, fun i x y hi hs hp hx hy => ?_⟩
    · exact h i x y hi hs (old _ _ hpne hx) (old _ _ hne hy)
    · have hlen := (List.getElem?_eq_some_iff.mp hy).1
      have := parent_lt hi
      rw [length_append, length_singleton] at hlen
      omega
  refine siftdownLoop_ordered hole (by omega) fun i y hi hp hy => ?_
  have hlen := (List.getElem?_eq_some_iff.mp hy).1
  have := parent_lt hi
  rw [length_append, length_singleton] at hlen
  omega

theorem IsHeap.head_le (h : IsHeap key heap) {x : α} (hx : heap.head? = some x) {y : α}
    (hy : y ∈ heap) : key x ≤ key y := by
  have along : ∀ (i : Nat) z, heap[i]? = some z → key x ≤ key z := by
    intro i
    induction i using Nat.strongRecOn with
    | ind i ih =>
      intro z hz
      by_cases hi : i = 0
      · subst hi
        rw [← head?_eq_getElem?, hx] at hz
        cases hz
        exact le_refl _
      · have hlen := (List.getElem?_eq_some_iff.mp hz).1
        have hp := parent_lt (i := i) (by omega)
        have hq : heap[parent i]? = some heap[parent i] := getElem?_eq_getElem (by omega)
        exact (ih (parent i) hp _ hq).trans
          (h i _ z (by omega) (Nat.zero_le _) hq hz)
  have ⟨i, hi⟩ := mem_iff_getElem?.mp hy
  exact along i y hi

theorem IsHeap.of_cons_rest {x lastelt : α} {rest : List α}
    (h : IsHeap key (x :: rest ++ [lastelt])) : OrderedFrom key 1 (lastelt :: rest) := by
  have old : ∀ (i : Nat) z, 0 < i → (lastelt :: rest)[i]? = some z →
      (x :: rest ++ [lastelt])[i]? = some z := by
    intro i z hi hz
    have hlen := (List.getElem?_eq_some_iff.mp hz).1
    rw [length_cons] at hlen
    rw [getElem?_append_left (by rw [length_cons]; omega)]
    cases i with
    | zero => omega
    | succ i => simpa using hz
  intro i a b hi hs ha hb
  exact h i a b hi (Nat.zero_le _) (old _ _ (by omega) ha) (old _ _ hi hb)

theorem heappop_perm {x : α} {rest : List α} (h : heappop key heap = some (x, rest)) :
    heap.head? = some x ∧ (x :: rest).Perm heap := by
  by_cases hne : heap = []
  · subst hne
    cases h
  · have ⟨front, lastelt, e⟩ : ∃ front lastelt, heap = front ++ [lastelt] :=
      ⟨_, _, (dropLast_append_getLast hne).symm⟩
    subst e
    rw [heappop, getLast?_concat, dropLast_concat] at h
    cases front with
    | nil =>
      cases h
      exact ⟨rfl, .refl _⟩
    | cons first front =>
      cases h
      have perm := (siftup_perm key (lastelt :: front) 0).cons x
      exact ⟨rfl, perm.trans ((perm_append_singleton lastelt front).symm.cons x)⟩

theorem heappop_ok (h : IsHeap key heap) (hne : heap ≠ []) :
    ∃ x rest, heappop key heap = some (x, rest) ∧ heap.head? = some x ∧ IsHeap key rest ∧
    (x :: rest).Perm heap ∧ ∀ y ∈ heap, key x ≤ key y := by
  have ⟨front, lastelt, e⟩ : ∃ front lastelt, heap = front ++ [lastelt] :=
    ⟨_, _, (dropLast_append_getLast hne).symm⟩
  subst e
  have popped : ∃ x rest, heappop key (front ++ [lastelt]) = some (x, rest) ∧
      IsHeap key rest := by
    rw [heappop, getLast?_concat, dropLast_concat]
    cases front with
    | nil =>
      refine ⟨lastelt, [], rfl, ?_⟩
      intro i x y _ _ hx
      simp at hx
    | cons x rest => exact ⟨x, _, rfl, siftup_ordered h.of_cons_rest⟩
  have ⟨x, rest, hpop, hrest⟩ := popped
  have ⟨hx, perm⟩ := heappop_perm hpop
  exact ⟨x, rest, hpop, hx, hrest, perm, fun y hy => h.head_le hx hy⟩

theorem heapifyFrom_perm (n : Nat) (heap : List α) : (heapifyFrom key n heap).Perm heap := by
  induction n generalizing heap with
  | zero => exact .refl _
  | succ n ih => exact (ih _).trans (siftup_perm _ _ _)

theorem heapifyFrom_isHeap {n : Nat} (h : OrderedFrom key n heap) :
    IsHeap key (heapifyFrom key n heap) := by
  induction n generalizing heap with
  | zero => exact h
  | succ n ih => exact ih (siftup_ordered h)

theorem heapify_perm (heap : List α) : (heapify key heap).Perm heap := heapifyFrom_perm _ _

theorem heapify_isHeap (heap : List α) : IsHeap key (heapify key heap) := by
  refine heapifyFrom_isHeap fun i x y hi hs _ hy => ?_
  have hlen := (List.getElem?_eq_some_iff.mp hy).1
  unfold parent at hs
  omega

theorem drain_sorted (n : Nat) (h : IsHeap key heap) (hn : heap.length = n) :
    (drain key n heap).Pairwise (fun x y => key x ≤ key y) ∧ (drain key n heap).Perm heap := by
  induction n generalizing heap with
  | zero =>
    rw [length_eq_zero_iff] at hn
    subst hn
    exact ⟨.nil, .refl _⟩
  | succ n ih =>
    have hne : heap ≠ [] := by
      rintro rfl
      simp at hn
    have ⟨x, rest, hpop, _, hrest, perm, least⟩ := heappop_ok h hne
    have hlen : rest.length = n := by
      have := perm.length_eq
      rw [length_cons] at this
      omega
    have ⟨sorted, tail⟩ := ih hrest hlen
    simp only [drain, hpop]
    refine ⟨pairwise_cons.mpr ⟨fun y hy => ?_, sorted⟩, (tail.cons x).trans perm⟩
    exact least y (perm.subset (mem_cons_of_mem x (tail.subset hy)))

theorem IsHeap.congr {key' : α → κ} (h : IsHeap key heap) (same : ∀ x ∈ heap, key' x = key x) :
    IsHeap key' heap := by
  intro i x y hi hs hx hy
  rw [same x (mem_of_getElem? hx), same y (mem_of_getElem? hy)]
  exact h i x y hi hs hx hy

/-- The key `k` lies between those of the parent and of the children of an item. -/
def Fits (key : α → κ) (heap : List α) (item : α) (k : κ) : Prop :=
  ∀ i, heap[i]? = some item →
    (∀ p, 0 < i → heap[parent i]? = some p → key p ≤ k) ∧
      ∀ j c, 0 < j → parent j = i → heap[j]? = some c → k ≤ key c

theorem isHeap_update_iff [DecidableEq α] (nodup : heap.Nodup) (h : IsHeap key heap) (item : α)
    (k : κ) : IsHeap (update key item k) heap ↔ Fits key heap item k := by
  have apart : ∀ {i x y}, 0 < i → heap[parent i]? = some x → heap[i]? = some y → x ≠ y := by
    rintro i x y hi hx hy rfl
    have hlt := parent_lt hi
    have hlen := (List.getElem?_eq_some_iff.mp hx).1
    have same := (getElem?_inj hlen nodup).mp (hx.trans hy.symm)
    omega
  constructor
  · intro h' i hitem
    refine ⟨fun p hi hp => ?_, fun j c hj hpj hc => ?_⟩
    · have le := h' i p item hi (Nat.zero_le _) hp hitem
      rwa [update_of_ne (apart hi hp hitem), update_self] at le
    · have hitem : heap[parent j]? = some item := hpj.symm ▸ hitem
      have le := h' j item c hj (Nat.zero_le _) hitem hc
      rwa [update_self, update_of_ne (apart hj hitem hc).symm] at le
  · intro fits i x y hi hs hx hy
    have hne := apart hi hx hy
    by_cases hyitem : y = item
    · subst hyitem
      rw [update_self, update_of_ne hne]
      exact (fits i hy).1 x hi hx
    · rw [update_of_ne hyitem]
      by_cases hxitem : x = item
      · subst hxitem
        rw [update_self]
        exact (fits _ hx).2 i y hi rfl hy
      · rw [update_of_ne hxitem]
        exact h i x y hi hs hx hy

end VllmAmpere.Heapq
