import VllmAmpere.BatchRuns

/-! Which rows the additions of a step fill: the rows of the removed requests in ascending
order, and then the rows behind all others. -/

open List

namespace VllmAmpere.PersistentBatch

variable {F S T : Type}

section Refills

def ascending (u : BatchUpdateBuilder (SamplingParams F)) : List Nat :=
  u.removedRows.insertionSort (· ≤ ·)

theorem ascending_of_perm {l l' : List Nat} (same : l.Perm l') :
    l.insertionSort (· ≤ ·) = l'.insertionSort (· ≤ ·) := by
  refine List.Perm.eq_of_pairwise' (pairwise_insertionSort _ _)
    (pairwise_insertionSort _ _) ?_
  exact (perm_insertionSort _ _).trans (same.trans (perm_insertionSort _ _).symm)

theorem ascending_popped {u u' : BatchUpdateBuilder (SamplingParams F)} {low : Nat}
    (h : BatchUpdateBuilder.Popped u u' low) (nodup : u.removedRows.Nodup) :
    ascending u = low :: ascending u' := by
  have not_left : low ∉ u'.removedRows := fun mem => ((h.left low).mp mem).2 rfl
  have perm : u.removedRows.Perm (low :: u'.removedRows) := by
    refine (perm_ext_iff_of_nodup nodup
      (nodup_cons.mpr ⟨not_left, h.tidy.nodup⟩)).mpr fun i => ?_
    rw [mem_cons, h.left]
    by_cases here : i = low
    · exact ⟨fun _ => .inl here, fun _ => here ▸ h.mem⟩
    · exact ⟨fun mem => .inr ⟨mem, here⟩, fun mem => (mem.resolve_left here).1⟩
  rw [ascending, ascending_of_perm perm, ascending]
  refine insertionSort_cons_of_forall_rel _ fun i mem => ?_
  exact h.least i ((h.left i).mp mem).1

def AddOp.request? : AddOp F → Option (CachedRequestState F)
  | .add request => some request
  | .draft _ _ => none

def freedRows (b : InputBatch F S) (removals : List ReqId) : List Nat :=
  (List.range b.reqIds.length).filter fun i => (b.idAt i).any removals.contains

def refills (b : InputBatch F S) (input : StepInput F) : List (Nat × CachedRequestState F) :=
  (freedRows b input.removals).zip (input.adds.filterMap AddOp.request?)

variable {removals : List ReqId}

theorem mem_freedRows {b : InputBatch F S} {i : Nat} :
    i ∈ freedRows b removals ↔ ∃ id ∈ removals, b.idAt i = some id := by
  rw [freedRows, mem_filter, mem_range, Option.any_eq_true]
  constructor
  · rintro ⟨-, id, there, mem⟩
    exact ⟨id, contains_iff_mem.mp mem, there⟩
  · rintro ⟨id, mem, there⟩
    exact ⟨Rows.lt_of_ofList there, id, there, contains_iff_mem.mpr mem⟩

variable {config : BatchConfig F S} {c₀ : Rows (RowRequest F)}

/-- What the removals of a step leave to its additions. -/
structure Freed (s t : Runner.Batch F S) (removals : List ReqId) : Prop where
  rows : ∀ i, i ∈ t.1.batchUpdateBuilder.removedRows ↔
    i ∈ s.1.batchUpdateBuilder.removedRows ∨ ∃ id ∈ removals, s.1.idAt i = some id
  length : t.1.reqIds.length = s.1.reqIds.length
  added : t.1.batchUpdateBuilder.added = s.1.batchUpdateBuilder.added

theorem FillPhase.freed_one {s t : Runner.Batch F S} {id : ReqId} (h : FillPhase config c₀ s)
    (removed : Runner.removeOne config s id = some t) :
    Freed s t [id] ∧ ∀ i id', t.1.idAt i = some id' ↔ s.1.idAt i = some id' ∧ id' ≠ id := by
  obtain ⟨b, gone, rfl⟩ := Option.map_eq_some_iff.mp removed
  rcases removeRequest_some gone with ⟨absent, rfl⟩ | ⟨k, found, ids, builder⟩
  · have nowhere := h.coherent.index.absent absent
    refine ⟨⟨fun i => ?_, rfl, rfl⟩, fun i id' => ?_⟩
    · refine ⟨.inl, fun mem => mem.resolve_right ?_⟩
      rintro ⟨id', mem, there⟩
      cases mem_singleton.mp mem
      exact nowhere i there
    · refine ⟨fun there => ⟨there, ?_⟩, And.left⟩
      rintro rfl
      exact nowhere i there
  · have there := (h.coherent.index id k).mp found
    have inside : k < s.1.reqIds.length := Rows.lt_of_ofList there
    have rows : b.idAt = Function.update s.1.idAt k none := by
      rw [InputBatch.idAt, ids]
      exact Rows.ofList_set _ inside _
    refine ⟨⟨fun i => ?_, by rw [ids, length_set], by rw [builder]⟩, fun i id' => ?_⟩
    · rw [builder]
      simp only [mem_append, mem_singleton]
      refine or_congr_right ⟨?_, ?_⟩
      · rintro rfl
        exact ⟨id, rfl, there⟩
      · rintro ⟨id', rfl, here⟩
        exact h.coherent.index.unique here there
    · rw [rows, Rows.update_at]
      split
      next at_k =>
        refine ⟨(by simp), fun both => ?_⟩
        rw [at_k, there] at both
        exact absurd (Option.some.inj both.1).symm both.2
      next other =>
        refine ⟨fun here => ⟨here, ?_⟩, And.left⟩
        rintro rfl
        exact other (h.coherent.index.unique here there)

theorem FillPhase.freed {s t : Runner.Batch F S}
    (h : FillPhase config c₀ s) (none_added : s.1.batchUpdateBuilder.added = [])
    (run : removals.foldlM (Runner.removeOne config) s = some t) : Freed s t removals := by
  induction removals generalizing s with
  | nil =>
    cases run
    exact ⟨fun i => ⟨.inl, fun mem => mem.resolve_right nofun⟩, rfl, rfl⟩
  | cons id removals ih =>
    rw [foldlM_cons] at run
    obtain ⟨r, first, rest⟩ := Option.bind_eq_some_iff.mp run
    have ⟨phase, still_none⟩ := h.removeOne none_added first
    obtain ⟨one, left⟩ := h.freed_one first
    have more := ih phase still_none rest
    refine ⟨fun i => ?_, more.length.trans one.length, more.added.trans one.added⟩
    rw [more.rows, one.rows]
    constructor
    · rintro ((old | ⟨id', mem, there⟩) | ⟨id', mem, there⟩)
      · exact .inl old
      · cases mem_singleton.mp mem
        exact .inr ⟨id, mem_cons_self, there⟩
      · exact .inr ⟨id', mem_cons_of_mem _ mem, ((left i id').mp there).1⟩
    · rintro (old | ⟨id', mem, there⟩)
      · exact .inl (.inl old)
      · by_cases same : id' = id
        · exact .inl (.inr ⟨id, mem_singleton_self _, same ▸ there⟩)
        · exact .inr ⟨id', mem_of_ne_of_mem same mem, (left i id').mpr ⟨there, same⟩⟩

theorem Freed.ascending {s t : Runner.Batch F S}
    (h : Freed s t removals) (start : s.1.batchUpdateBuilder.removedRows = [])
    (tidy : t.1.batchUpdateBuilder.Tidy) :
    ascending t.1.batchUpdateBuilder = freedRows s.1 removals := by
  have sorted : (freedRows s.1 removals).Pairwise (· ≤ ·) :=
    (pairwise_le_range ..).filter _
  have perm : t.1.batchUpdateBuilder.removedRows.Perm (freedRows s.1 removals) := by
    refine (perm_ext_iff_of_nodup tidy.nodup (nodup_range.filter _)).mpr fun i => ?_
    refine (h.rows i).trans (Iff.trans ?_ mem_freedRows.symm)
    rw [start]
    exact ⟨fun mem => mem.resolve_left nofun, .inr⟩
  rw [PersistentBatch.ascending, ascending_of_perm perm]
  exact sorted.insertionSort_eq

theorem FillPhase.add_row {s : Runner.Batch F S} {b₁ b₂ : InputBatch F S} {i : Nat}
    {request : CachedRequestState F} (h : FillPhase config c₀ s)
    (registered : s.1.registerAddRequest config request = some (i, b₁))
    (placed : b₁.placeRequest i request = some b₂) :
    (∃ rest, ascending s.1.batchUpdateBuilder = i :: rest ∧
    ascending b₂.batchUpdateBuilder = rest ∧ b₂.reqIds.length = s.1.reqIds.length) ∨
    (ascending s.1.batchUpdateBuilder = [] ∧ ascending b₂.batchUpdateBuilder = [] ∧
    s.1.reqIds.length ≤ i ∧ s.1.reqIds.length ≤ b₂.reqIds.length) := by
  have p := h.coherent.place h.filling registered placed
  have reach : ∀ n, n < b₂.reqIds.length ↔ n = i ∨ n < s.1.reqIds.length := p.grows
  by_cases empty : s.1.batchUpdateBuilder.removedRows = []
  · have none_left : b₂.batchUpdateBuilder.removedRows = [] := by
      refine eq_nil_iff_forall_not_mem.mpr fun j mem => ?_
      rw [p.left, empty] at mem
      exact absurd mem.1 not_mem_nil
    refine .inr ⟨by rw [ascending, empty]; rfl, by rw [ascending, none_left]; rfl, ?_, ?_⟩
    · by_contra inside
      have inner := (h.filling i).mp (Nat.lt_of_not_le inside)
      rw [empty] at inner
      exact inner.resolve_left not_mem_nil p.row_free
    · by_contra shorter
      exact Nat.lt_irrefl _ ((reach _).mpr (.inr (Nat.lt_of_not_le shorter)))
  · obtain ⟨low, -, popped, spec⟩ := BatchUpdateBuilder.popRemoved_some h.coherent.tidy empty
    have row : i = low := by
      unfold InputBatch.registerAddRequest at registered
      simp only [Option.ite_none_right_eq_some, Option.some.injEq, Prod.mk.injEq] at registered
      rw [← registered.2.1, popped]
      rfl
    subst row
    have perm : b₂.batchUpdateBuilder.removedRows.Perm
        s.1.batchUpdateBuilder.popRemoved.2.removedRows :=
      (perm_ext_iff_of_nodup p.tidy.nodup spec.tidy.nodup).mpr fun j =>
        (p.left j).trans (spec.left j).symm
    refine .inl ⟨_, ascending_popped spec h.coherent.tidy.nodup, ascending_of_perm perm, ?_⟩
    have inside := (h.filling i).mpr (.inl spec.mem)
    refine Nat.le_antisymm (Nat.le_of_not_lt fun longer => ?_) (Nat.le_of_not_lt fun shorter => ?_)
    · rcases (reach _).mp longer with here | impossible
      · exact absurd inside (here ▸ Nat.lt_irrefl _)
      · exact Nat.lt_irrefl _ impossible
    · exact Nat.lt_irrefl _ ((reach _).mpr (.inr shorter))

/-- What the additions of a step record: rows that were filled again and rows behind. -/
theorem FillPhase.filled [Zero S] {heap : Heap} {adds : List (AddOp F)}
    {s t : Runner.Batch F S} (h : FillPhase config c₀ s)
    (run : adds.foldlM (Runner.addOne config heap) s = some t) :
    ∀ x ∈ t.1.batchUpdateBuilder.added, x ∈ s.1.batchUpdateBuilder.added ∨
    (∃ request, (x.index, request) ∈
    (ascending s.1.batchUpdateBuilder).zip (adds.filterMap AddOp.request?) ∧
    request.samplingParams = some x.params) ∨ s.1.reqIds.length ≤ x.index := by
  induction adds generalizing s with
  | nil =>
    cases run
    exact fun x mem => .inl mem
  | cons op adds ih =>
    intro x mem
    rw [foldlM_cons] at run
    obtain ⟨r, first, rest⟩ := Option.bind_eq_some_iff.mp run
    have later := ih (h.addOne first) rest x mem
    cases op with
    | draft id specTokenIds =>
      obtain ⟨b, updated, rfl⟩ := Option.map_eq_some_iff.mp first
      obtain ⟨i, d⟩ := updateReqSpecTokenIds_some updated
      rw [d.rest] at later
      exact later
    | add request =>
      simp only [Runner.addOne, Option.ite_none_right_eq_some] at first
      obtain ⟨-, first⟩ := first
      obtain ⟨b, added, rfl⟩ := Option.map_eq_some_iff.mp first
      obtain ⟨i, b₁, b₂, tokens, sampling, registered, placed, -, -, rfl⟩ := addRequest_some added
      have p := h.coherent.place h.filling registered placed
      have here : x ∈ b₂.batchUpdateBuilder.added → x ∈ s.1.batchUpdateBuilder.added ∨
          x.index = i ∧ request.samplingParams = some x.params := by
        intro recorded
        rw [p.added, mem_append] at recorded
        refine recorded.imp id fun last => ?_
        obtain ⟨params, given, rfl⟩ := Option.map_eq_some_iff.mp (Option.mem_toList.mp last)
        exact ⟨rfl, given⟩
      rw [filterMap_cons_some (show AddOp.request? (.add request) = some request from rfl)]
      rcases h.add_row registered placed with
        ⟨rest_rows, now, after, length⟩ | ⟨now, after, behind, length⟩
      · rw [now]
        rcases later with old | ⟨request', mem', given⟩ | far
        · rcases here old with old | ⟨at_i, given⟩
          · exact .inl old
          · exact .inr (.inl ⟨request, by rw [at_i]; exact mem_cons_self, given⟩)
        · change (_, _) ∈ List.zip (ascending b₂.batchUpdateBuilder) _ at mem'
          rw [after] at mem'
          exact .inr (.inl ⟨request', mem_cons_of_mem _ mem', given⟩)
        · exact .inr (.inr (length ▸ far))
      · rcases later with old | ⟨request', mem', given⟩ | far
        · rcases here old with old | ⟨at_i, given⟩
          · exact .inl old
          · exact .inr (.inr (at_i ▸ behind))
        · change (_, _) ∈ List.zip (ascending b₂.batchUpdateBuilder) _ at mem'
          rw [after] at mem'
          cases mem'
        · exact .inr (.inr (Nat.le_trans length far))

theorem Runner.Rested.added_row [Zero S]
    {config : RunConfig F S T} {s : Runner F S T} {input : StepInput F} {filled : Runner.Batch F S}
    (h : Runner.Rested config s)
    (fill : Runner.fill config.batch (s.batch, s.kept) input = some filled) :
    ∀ x ∈ filled.1.batchUpdateBuilder.added,
    (∃ request, (x.index, request) ∈ refills s.batch input ∧
    request.samplingParams = some x.params) ∨ s.batch.reqIds.length ≤ x.index := by
  intro x mem
  obtain ⟨removed, removals, adds⟩ := Option.bind_eq_some_iff.mp fill
  have start := h.fillPhase
  have freed := start.freed h.added removals
  have phase := start.removals h.added removals
  rcases phase.filled adds x mem with old | refilled | far
  · rw [freed.added, h.added] at old
    cases old
  · rw [freed.ascending h.removed phase.coherent.tidy] at refilled
    exact .inl refilled
  · exact .inr (freed.length ▸ far)

end Refills

/-! Which requests `condense` moves: the last rows whose requests stay go, from the last
one down, to the rows that stayed free, from the first one up. -/

variable {config : BatchConfig F S} {c₀ : Rows (RowRequest F)}

/-- The rows below `n` whose requests stay, from the last one down. -/
def descending (freed : List Nat) (n : Nat) : List Nat :=
  ((List.range n).filter fun i => i ∉ freed).reverse

variable {freed : List Nat}

theorem descending_top {k : Nat} (stays : k ∉ freed) :
    descending freed (k + 1) = k :: descending freed k := by
  simp [descending, range_succ, stays]

theorem descending_skip {k n : Nat} (le : k ≤ n)
    (between : ∀ i < n, k ≤ i → i ∈ freed) : descending freed n = descending freed k := by
  induction le with
  | refl => rfl
  | @step n le ih =>
    rw [← ih fun i inside => between i (Nat.lt_succ_of_lt inside)]
    simp [descending, range_succ, between n (Nat.lt_succ_self n) le]

theorem mem_descending {n i : Nat} : i ∈ descending freed n ↔ i < n ∧ i ∉ freed := by
  simp [descending]

theorem mem_ascending {u : BatchUpdateBuilder (SamplingParams F)} {i : Nat} :
    i ∈ ascending u ↔ i ∈ u.removedRows :=
  mem_insertionSort _

section Condense

variable {kept : KeptRequests F S}

/-- What the rounds of `condense` have done: they have passed as many of the rows `holes`
as of the rows whose requests stay. -/
structure Paired (freed holes : List Nat) (n : Nat) (b : InputBatch F S) (top : Nat) : Prop where
  sorted : freed.Pairwise (· < ·)
  last : ∃ refilled, freed = refilled ++ holes
  passed : ∃ p q, p.length = q.length ∧ holes = p ++ ascending b.batchUpdateBuilder ∧
    descending freed n = q ++ descending freed (top + 1)

theorem Paired.slide {freed holes : List Nat} {n top last free : Nat} {b b' : InputBatch F S}
    (h : Coherent config b kept) (paired : Paired freed holes n b top) (bound : last ≤ top)
    (live : last ∉ b.batchUpdateBuilder.removedRows)
    (between : ∀ i ≤ top, last < i → i ∈ b.batchUpdateBuilder.removedRows)
    (lower : free < last) (slid : Slid config b b' last free) :
    (free, last) ∈ holes.zip (descending freed n) ∧ Paired freed holes n b' (last - 1) := by
  obtain ⟨refilled, freed_eq⟩ := paired.last
  obtain ⟨p, q, same_length, holes_eq, staying⟩ := paired.passed
  have popped := ascending_popped slid.popped h.tidy.nodup
  have rest : ascending b'.batchUpdateBuilder =
      ascending b.batchUpdateBuilder.popRemoved.2 := by
    rw [ascending, slid.removed]
    rfl
  have in_freed : ∀ i ∈ b.batchUpdateBuilder.removedRows, i ∈ freed := by
    intro i mem
    rw [freed_eq, holes_eq]
    exact mem_append_right _ (mem_append_right _ (mem_ascending.mpr mem))
  have stays : last ∉ freed := by
    intro mem
    have sorted := paired.sorted
    rw [freed_eq, holes_eq, ← append_assoc] at mem sorted
    rcases mem_append.mp mem with passed | ahead
    · have before := (pairwise_append.mp sorted).2.2 last passed free
        (popped ▸ mem_cons_self)
      exact Nat.lt_asymm before lower
    · exact live (mem_ascending.mp ahead)
  have positive : last - 1 + 1 = last := Nat.sub_add_cancel (Nat.lt_of_le_of_lt (Nat.zero_le _) lower)
  have next : descending freed (top + 1) = last :: descending freed (last - 1 + 1) := by
    rw [descending_skip (Nat.succ_le_succ bound) fun i inside above =>
      in_freed i (between i (Nat.lt_succ_iff.mp inside) above), descending_top stays, positive]
  rw [popped, ← rest] at holes_eq
  rw [next] at staying
  constructor
  · rw [holes_eq, staying, zip_append same_length]
    exact mem_append_right _ mem_cons_self
  · exact {
      sorted := paired.sorted
      last := paired.last
      passed := by
        refine ⟨p ++ [free], q ++ [last], ?_, ?_, ?_⟩
        · rw [length_append, length_append, same_length]
          rfl
        · rw [holes_eq, append_assoc, singleton_append]
        · rw [staying, append_assoc, singleton_append] }

theorem condenseLoop_paired {freed holes : List Nat} {n rounds : Nat} :
    ∀ {b b' : InputBatch F S} {top : Nat}, Coherent config b kept → Paired freed holes n b top →
    InputBatch.condenseLoop config rounds b top = some b' →
    ∀ m ∈ b'.batchUpdateBuilder.moved, m ∈ b.batchUpdateBuilder.moved ∨
    (m.i2, m.i1) ∈ holes.zip (descending freed n) := by
  induction rounds with
  | zero =>
    intro b b' top _ _ run m mem
    cases run
    exact .inl mem
  | succ rounds ih =>
    intro b b' top h paired run m mem
    have same := BatchUpdateBuilder.mem_ensureRemovedSorted b.batchUpdateBuilder
    unfold InputBatch.condenseLoop at run
    split at run
    · cases run
      exact .inl mem
    next last found =>
      have ⟨bound, live, between⟩ := findNonEmpty_some found
      split at run
      · cases run
      next free peeked =>
        split at run
        · cases run
          exact .inl mem
        next apart =>
          have lower : free < last := Nat.lt_of_not_le apart
          split at run
          · cases run
          next b₁ slide =>
            have some_removed : b.batchUpdateBuilder.removedRows ≠ [] := by
              intro empty
              rw [BatchUpdateBuilder.peekRemoved,
                if_neg (by rw [BatchUpdateBuilder.hasRemoved_iff]; exact fun some => some empty)]
                at peeked
              cases peeked
            obtain ⟨low, peeked', -, popped⟩ :=
              BatchUpdateBuilder.popRemoved_some h.tidy some_removed
            cases peeked.symm.trans peeked'
            obtain ⟨id, there⟩ : ∃ id, b.idAt last = some id := by
              unfold InputBatch.slideRow at slide
              split at slide
              next id there => exact ⟨id, there⟩
              · cases slide
            have inside := Nat.lt_trans lower (Rows.lt_of_ofList there)
            obtain ⟨b₂, slide', slid, coherent⟩ := h.slide popped there inside
            cases slide.symm.trans slide'
            obtain ⟨pair, next⟩ := paired.slide h bound (fun mem => live ((same last).mpr mem))
              (fun i le above => (same i).mp (between i le above)) lower slid
            rcases ih coherent next run m mem with old | filled
            · rw [slid.moved] at old
              refine (mem_append.mp old).imp_right fun new => ?_
              rw [mem_recorded new]
              exact pair
            · exact .inr filled

/-- `condense` moves requests from the last rows that stay to the first free rows. -/
theorem condense_paired {freed refilled : List Nat} {b b' : InputBatch F S}
    (h : Coherent config b kept) (filling : Filling b)
    (still : b.batchUpdateBuilder.moved = []) (sorted : freed.Pairwise (· < ·))
    (last : freed = refilled ++ ascending b.batchUpdateBuilder)
    (run : b.condense config = some b') : ∀ m ∈ b'.batchUpdateBuilder.moved, (m.i2, m.i1) ∈
    (ascending b.batchUpdateBuilder).zip (descending freed b.reqIds.length) := by
  obtain ⟨e, he⟩ : ∃ e : InputBatch F S, e = { b with
    batchUpdateBuilder := b.batchUpdateBuilder.ensureRemovedSorted } := ⟨_, rfl⟩
  have ensured : Coherent config e kept := he ▸ h.ensured
  have perm : e.batchUpdateBuilder.removedRows.Perm b.batchUpdateBuilder.removedRows := by
    refine (perm_ext_iff_of_nodup ensured.tidy.nodup h.tidy.nodup).mpr fun i => ?_
    rw [he]
    exact BatchUpdateBuilder.mem_ensureRemovedSorted _ i
  have unmoved : e.batchUpdateBuilder.moved = [] := by
    rw [he]
    exact (BatchUpdateBuilder.ensureRemovedSorted_moved _).trans still
  have count : b.numReqs + b.batchUpdateBuilder.removedRows.length = b.reqIds.length :=
    h.index.count _ h.tidy.nodup filling h.freed
  intro m mem
  rw [condense_eq he] at run
  split at run
  · cases run
    rw [unmoved] at mem
    cases mem
  next some_removed =>
    split at run
    · cases run
      rw [unmoved] at mem
      cases mem
    · obtain ⟨c, loop, rfl⟩ := Option.map_eq_some_iff.mp run
      have positive := length_pos_of_ne_nil some_removed
      have top : b.numReqs + e.batchUpdateBuilder.removedRows.length - 1 + 1 =
          b.reqIds.length := by
        rw [perm.length_eq] at positive ⊢
        omega
      have paired : Paired freed (ascending b.batchUpdateBuilder) b.reqIds.length e
          (b.numReqs + e.batchUpdateBuilder.removedRows.length - 1) := {
        sorted := sorted
        last := ⟨refilled, last⟩
        passed := ⟨[], [], rfl, ascending_of_perm perm.symm, by rw [top]; rfl⟩ }
      rcases condenseLoop_paired ensured paired loop m mem with old | pair
      · rw [unmoved] at old
        cases old
      · exact pair

end Condense

section Step

def unfilledRows (b : InputBatch F S) (input : StepInput F) : List Nat :=
  (freedRows b input.removals).drop (input.adds.filterMap AddOp.request?).length

def condensedRows (b : InputBatch F S) (input : StepInput F) : List (Nat × Nat) :=
  ((unfilledRows b input).zip (descending (freedRows b input.removals) b.reqIds.length)).filter
    fun x => x.1 < x.2

theorem FillPhase.unfilled [Zero S] {heap : Heap} {adds : List (AddOp F)}
    {s t : Runner.Batch F S} (h : FillPhase config c₀ s)
    (run : adds.foldlM (Runner.addOne config heap) s = some t) : ascending t.1.batchUpdateBuilder =
    (ascending s.1.batchUpdateBuilder).drop (adds.filterMap AddOp.request?).length ∧
    (ascending t.1.batchUpdateBuilder ≠ [] → t.1.reqIds.length = s.1.reqIds.length) := by
  induction adds generalizing s with
  | nil =>
    cases run
    exact ⟨rfl, fun _ => rfl⟩
  | cons op adds ih =>
    rw [foldlM_cons] at run
    obtain ⟨r, first, rest⟩ := Option.bind_eq_some_iff.mp run
    have ⟨rows, length⟩ := ih (h.addOne first) rest
    cases op with
    | draft id specTokenIds =>
      obtain ⟨b, updated, rfl⟩ := Option.map_eq_some_iff.mp first
      obtain ⟨i, d⟩ := updateReqSpecTokenIds_some updated
      rw [d.rest] at rows length
      exact ⟨rows, length⟩
    | add request =>
      simp only [Runner.addOne, Option.ite_none_right_eq_some] at first
      obtain ⟨b, added, rfl⟩ := Option.map_eq_some_iff.mp first.2
      obtain ⟨i, b₁, b₂, tokens, sampling, registered, placed, -, -, rfl⟩ := addRequest_some added
      rw [filterMap_cons_some (show AddOp.request? (.add request) = some request from rfl),
        length_cons]
      rcases h.add_row registered placed with ⟨left, now, after, same⟩ | ⟨now, after, -, -⟩
      · rw [now, drop_succ_cons, ← after]
        exact ⟨rows, fun some => (length some).trans same⟩
      · have none_left : ascending t.1.batchUpdateBuilder = [] := by
          rw [rows]
          exact (congrArg _ after).trans drop_nil
        rw [now, none_left, drop_nil]
        exact ⟨rfl, fun some => absurd rfl some⟩

end Step

end VllmAmpere.PersistentBatch
