import Mathlib.Data.List.Count
import Mathlib.Data.List.Nodup
import Mathlib.Data.List.Perm.Basic

/-! Who waits and who runs: the members of a system, the stage of each and the lists that
hold them. A roster is sound when each live member is in the one list of its stage,
once. Lists count up to permutation. Nothing here is about a particular program. -/

open List Function

namespace VllmAmpere

universe u

/-- A member waits, runs or is done. -/
inductive Stage
  | waits
  | runs
  | done
  deriving DecidableEq, Repr

structure Roster (κ : Type u) where
  stage : κ → Stage
  known : List κ
  running : List κ
  waiting : List κ
  deferred : List κ

namespace Roster

variable {κ : Type u} [DecidableEq κ] {lost : List κ} {r r' : Roster κ} {id : κ}

def Live (r : Roster κ) (id : κ) : Prop := id ∈ r.known ∧ r.stage id ≠ .done

instance (r : Roster κ) (id : κ) : Decidable (r.Live id) :=
  inferInstanceAs (Decidable (_ ∧ _))

/-- Each live member is in the list of its stage, once, and nobody else is; the `lost`
ones wait, but in no list. -/
structure Sound (lost : List κ) (r : Roster κ) : Prop where
  known : r.known.Nodup
  place : ∀ id, r.running.count id + r.waiting.count id =
    if r.Live id ∧ id ∉ lost then 1 else 0
  runs : ∀ id ∈ r.running, r.stage id = .runs
  waits : ∀ id ∈ r.waiting, r.stage id = .waits
  lost : ∀ id ∈ lost, r.Live id → r.stage id = .waits
  deferred : ∀ id ∈ r.deferred, id ∈ r.waiting

section

variable (h : Sound lost r)
include h

theorem Sound.live_of_running (hid : id ∈ r.running) :
    r.Live id ∧ id ∉ lost := by
  by_contra hnot
  have place := h.place id
  rw [if_neg hnot] at place
  have := count_pos_iff.mpr hid
  omega

theorem Sound.live_of_waiting (hid : id ∈ r.waiting) :
    r.Live id ∧ id ∉ lost := by
  by_contra hnot
  have place := h.place id
  rw [if_neg hnot] at place
  have := count_pos_iff.mpr hid
  omega

theorem Sound.mem_running (known : id ∈ r.known) (runs : r.stage id = .runs) :
    id ∈ r.running := by
  have live : r.Live id := ⟨known, by rw [runs]; decide⟩
  have kept : id ∉ lost := by
    intro hlost
    have waits := h.lost id hlost live
    rw [runs] at waits
    cases waits
  have place := h.place id
  rw [if_pos ⟨live, kept⟩] at place
  by_contra hrun
  have none := count_eq_zero.mpr hrun
  have waits := h.waits id (count_pos_iff.mp (by omega))
  rw [runs] at waits
  cases waits

theorem Sound.running_nodup : r.running.Nodup := by
  refine nodup_iff_count_le_one.mpr fun id => ?_
  have place := h.place id
  split at place <;> omega

theorem Sound.waiting_nodup : r.waiting.Nodup := by
  refine nodup_iff_count_le_one.mpr fun id => ?_
  have place := h.place id
  split at place <;> omega

/-- The order of the lists does not matter; a deferred mark may go, and a waiting member
may get one. -/
theorem Sound.congr (stage : r'.stage = r.stage) (known : r'.known = r.known)
    (running : r'.running.Perm r.running) (waiting : r'.waiting.Perm r.waiting)
    (deferred : ∀ id ∈ r'.deferred, id ∈ r.deferred ∨ id ∈ r.waiting) : Sound lost r' := by
  have live : ∀ id, r'.Live id ↔ r.Live id := by
    intro id
    unfold Live
    rw [stage, known]
  constructor
  · exact known ▸ h.known
  · intro id
    rw [running.count_eq, waiting.count_eq, h.place]
    simp only [live]
  · intro id hid
    rw [stage]
    exact h.runs id (running.subset hid)
  · intro id hid
    rw [stage]
    exact h.waits id (waiting.subset hid)
  · intro id hid hlive
    rw [stage]
    exact h.lost id hid ((live id).mp hlive)
  · intro id hid
    exact waiting.symm.subset ((deferred id hid).elim (h.deferred id) fun hid => hid)

theorem Sound.start (id : κ) (waiting : (id :: r'.waiting).Perm r.waiting)
    (running : r'.running.Perm (id :: r.running))
    (stage : r'.stage = update r.stage id .runs) (known : r'.known = r.known)
    (deferred : ∀ i ∈ r'.deferred, i ∈ r.deferred ∧ i ≠ id) : Sound lost r' := by
  have hid : id ∈ r.waiting := waiting.subset mem_cons_self
  have was := h.waits id hid
  have live : ∀ i, r'.Live i ↔ r.Live i := by
    intro i
    unfold Live
    rw [stage, known]
    by_cases hi : i = id
    · subst hi
      simp [was]
    · simp [hi]
  have gone : id ∉ r'.waiting := by
    have nodup := waiting.nodup_iff.mpr h.waiting_nodup
    exact (nodup_cons.mp nodup).1
  have away : id ∉ r.running := by
    intro hrun
    rw [h.runs id hrun] at was
    cases was
  constructor
  · exact known ▸ h.known
  · intro i
    have place := h.place i
    have run := running.count_eq i
    have wait := waiting.count_eq i
    rw [count_cons] at run wait
    simp only [live]
    rw [← place]
    omega
  · intro i hi
    rw [stage]
    rcases mem_cons.mp (running.subset hi) with rfl | hi
    · simp
    · rw [update_of_ne]
      · exact h.runs i hi
      · rintro rfl
        exact away hi
  · intro i hi
    rw [stage, update_of_ne]
    · exact h.waits i (waiting.subset (mem_cons_of_mem id hi))
    · rintro rfl
      exact gone hi
  · intro i hi hlive
    rw [stage, update_of_ne]
    · exact h.lost i hi ((live i).mp hlive)
    · rintro rfl
      exact (h.live_of_waiting hid).2 hi
  · intro i hi
    have ⟨hdef, hne⟩ := deferred i hi
    rcases mem_cons.mp (waiting.symm.subset (h.deferred i hdef)) with rfl | hmem
    · exact absurd rfl hne
    · exact hmem

theorem Sound.stop (id : κ) (running : (id :: r'.running).Perm r.running)
    (waiting : r'.waiting.Perm (id :: r.waiting))
    (stage : r'.stage = update r.stage id .waits) (known : r'.known = r.known)
    (deferred : ∀ i ∈ r'.deferred, i = id ∨ i ∈ r.deferred) : Sound lost r' := by
  have hid : id ∈ r.running := running.subset mem_cons_self
  have was := h.runs id hid
  have live : ∀ i, r'.Live i ↔ r.Live i := by
    intro i
    unfold Live
    rw [stage, known]
    by_cases hi : i = id
    · subst hi
      simp [was]
    · simp [hi]
  have gone : id ∉ r'.running := by
    have nodup := running.nodup_iff.mpr h.running_nodup
    exact (nodup_cons.mp nodup).1
  have away : id ∉ r.waiting := by
    intro hwait
    rw [h.waits id hwait] at was
    cases was
  constructor
  · exact known ▸ h.known
  · intro i
    have place := h.place i
    have run := running.count_eq i
    have wait := waiting.count_eq i
    rw [count_cons] at run wait
    simp only [live]
    rw [← place]
    omega
  · intro i hi
    rw [stage, update_of_ne]
    · exact h.runs i (running.subset (mem_cons_of_mem id hi))
    · rintro rfl
      exact gone hi
  · intro i hi
    rw [stage]
    rcases mem_cons.mp (waiting.subset hi) with rfl | hi
    · simp
    · rw [update_of_ne]
      · exact h.waits i hi
      · rintro rfl
        exact away hi
  · intro i hi hlive
    rw [stage, update_of_ne]
    · exact h.lost i hi ((live i).mp hlive)
    · rintro rfl
      exact (h.live_of_running hid).2 hi
  · intro i hi
    rcases deferred i hi with rfl | hi
    · exact waiting.symm.subset mem_cons_self
    · exact waiting.symm.subset (mem_cons_of_mem id (h.deferred i hi))

theorem Sound.enter (id : κ) (fresh : id ∉ r.known) (kept : id ∉ lost)
    (known : r'.known.Perm (id :: r.known)) (running : r'.running = r.running)
    (waiting : r'.waiting.Perm (id :: r.waiting))
    (stage : r'.stage = update r.stage id .waits)
    (deferred : ∀ i ∈ r'.deferred, i = id ∨ i ∈ r.deferred) : Sound lost r' := by
  have unlive : ¬r.Live id := fun live => fresh live.1
  have away : id ∉ r.running := fun hid => unlive (h.live_of_running hid).1
  have absent : id ∉ r.waiting := fun hid => unlive (h.live_of_waiting hid).1
  have live : ∀ i, i ≠ id → (r'.Live i ↔ r.Live i) := by
    intro i hi
    unfold Live
    rw [stage, known.mem_iff, mem_cons, update_of_ne hi]
    simp [hi]
  constructor
  · exact known.nodup_iff.mpr (nodup_cons.mpr ⟨fresh, h.known⟩)
  · intro i
    have wait := waiting.count_eq i
    rw [count_cons] at wait
    by_cases hi : i = id
    · subst hi
      have now : r'.Live i := by
        refine ⟨known.symm.subset mem_cons_self, ?_⟩
        rw [stage]
        simp
      rw [if_pos ⟨now, kept⟩, running, count_eq_zero.mpr away, wait,
        count_eq_zero.mpr absent]
      simp
    · have place := h.place i
      simp only [live i hi]
      rw [← place, running, wait]
      simp [Ne.symm hi]
  · intro i hi
    rw [running] at hi
    rw [stage, update_of_ne]
    · exact h.runs i hi
    · rintro rfl
      exact away hi
  · intro i hi
    rw [stage]
    rcases mem_cons.mp (waiting.subset hi) with rfl | hi
    · simp
    · rw [update_of_ne]
      · exact h.waits i hi
      · rintro rfl
        exact absent hi
  · intro i hi hlive
    have hne : i ≠ id := fun heq => kept (heq ▸ hi)
    rw [stage, update_of_ne hne]
    exact h.lost i hi ((live i hne).mp hlive)
  · intro i hi
    rcases deferred i hi with rfl | hi
    · exact waiting.symm.subset mem_cons_self
    · exact waiting.symm.subset (mem_cons_of_mem id (h.deferred i hi))

theorem Sound.shrink : Sound (lost.filter fun id => r.Live id) r := by
  have live : ∀ i, (r.Live i ∧ i ∉ lost.filter fun id => r.Live id) ↔ (r.Live i ∧ i ∉ lost) := by
    intro i
    simp only [mem_filter, decide_eq_true_eq, not_and]
    tauto
  refine ⟨h.known, fun i => ?_, h.runs, h.waits, fun i hi => ?_, h.deferred⟩
  · rw [h.place]
    simp only [live]
  · exact h.lost i (mem_of_mem_filter hi)

theorem Sound.leave (ids : List κ)
    (stage : ∀ i, r'.stage i = if i ∈ ids then .done else r.stage i) (known : r'.known = r.known)
    (running : r'.running.Perm (r.running.filter (· ∉ ids)))
    (waiting : r'.waiting.Perm (r.waiting.filter (· ∉ ids)))
    (deferred : ∀ i ∈ r'.deferred, i ∈ r.deferred ∧ i ∉ ids) : Sound lost r' := by
  have gone : ∀ {i}, i ∈ ids → ¬r'.Live i := by
    intro i hi live
    exact live.2 (by rw [stage, if_pos hi])
  have live : ∀ {i}, i ∉ ids → (r'.Live i ↔ r.Live i) := by
    intro i hi
    unfold Live
    rw [stage, if_neg hi, known]
  constructor
  · exact known ▸ h.known
  · intro i
    rw [running.count_eq, waiting.count_eq]
    by_cases hi : i ∈ ids
    · rw [count_eq_zero.mpr (by simp [hi]), count_eq_zero.mpr (by simp [hi]),
        if_neg fun hlive => gone hi hlive.1]
    · rw [count_filter (by simp [hi]), count_filter (by simp [hi]), h.place]
      simp only [live hi]
  · intro i hi
    have hmem := mem_filter.mp (running.subset hi)
    rw [stage, if_neg (by simpa using hmem.2)]
    exact h.runs i hmem.1
  · intro i hi
    have hmem := mem_filter.mp (waiting.subset hi)
    rw [stage, if_neg (by simpa using hmem.2)]
    exact h.waits i hmem.1
  · intro i hi hlive
    have hne : i ∉ ids := fun hids => gone hids hlive
    rw [stage, if_neg hne]
    exact h.lost i hi ((live hne).mp hlive)
  · intro i hi
    have ⟨hdef, hne⟩ := deferred i hi
    exact waiting.symm.subset (mem_filter.mpr ⟨h.deferred i hdef, by simp [hne]⟩)

theorem Sound.forget (id : κ) (done : r.stage id = .done)
    (known : r'.known = r.known.erase id) (stage : r'.stage = r.stage)
    (running : r'.running = r.running) (waiting : r'.waiting = r.waiting)
    (deferred : r'.deferred = r.deferred) : Sound lost r' := by
  have live : ∀ i, r'.Live i ↔ r.Live i := by
    intro i
    unfold Live
    rw [stage, known]
    by_cases hi : i = id
    · subst hi
      simp [done]
    · rw [mem_erase_of_ne hi]
  constructor
  · exact known ▸ h.known.erase id
  · intro i
    rw [running, waiting, h.place]
    simp only [live]
  · rw [running, stage]
    exact h.runs
  · rw [waiting, stage]
    exact h.waits
  · intro i hi hlive
    rw [stage]
    exact h.lost i hi ((live i).mp hlive)
  · rw [deferred, waiting]
    exact h.deferred

theorem Sound.lose (waits : r.stage id = .waits) (stage : r'.stage = r.stage)
    (known : r'.known = r.known) (running : r'.running = r.running)
    (waiting : r'.waiting.Perm (r.waiting.filter (· ≠ id)))
    (deferred : ∀ i ∈ r'.deferred, i ∈ r.deferred ∧ i ≠ id) : Sound (id :: lost) r' := by
  have live : ∀ i, r'.Live i ↔ r.Live i := by
    intro i
    unfold Live
    rw [stage, known]
  have away : id ∉ r.running := by
    intro hid
    rw [h.runs id hid] at waits
    cases waits
  constructor
  · exact known ▸ h.known
  · intro i
    rw [running, waiting.count_eq]
    by_cases hi : i = id
    · subst hi
      rw [count_eq_zero.mpr away, count_eq_zero.mpr (by simp), if_neg (by simp)]
    · rw [count_filter (by simp [hi]), h.place]
      simp [live, hi]
  · intro i hi
    rw [stage]
    exact h.runs i (running ▸ hi)
  · intro i hi
    rw [stage]
    exact h.waits i (mem_of_mem_filter (waiting.subset hi))
  · intro i hi hlive
    rw [stage]
    rcases mem_cons.mp hi with rfl | hi
    · exact waits
    · exact h.lost i hi ((live i).mp hlive)
  · intro i hi
    have ⟨hdef, hne⟩ := deferred i hi
    exact waiting.symm.subset (mem_filter.mpr ⟨h.deferred i hdef, by simp [hne]⟩)

end

/-- A roster without the members that are marked to be taken from its lists. -/
def without (r : Roster κ) (stopped preempted : List κ) : Roster κ :=
  { r with
    running := r.running.filter (· ∉ stopped)
    waiting := r.waiting.filter (· ∉ preempted)
    deferred := r.deferred.filter (· ∉ preempted) }

variable {stopped stopped' preempted preempted' : List κ}

section

variable (h : Sound lost (r.without stopped preempted))
include h

theorem Sound.finish (id : κ)
    (stage : r'.stage = update r.stage id .done) (known : r'.known = r.known)
    (running : r'.running = r.running) (waiting : r'.waiting = r.waiting)
    (deferred : r'.deferred = r.deferred)
    (marked : ∀ i, i ∈ stopped' ↔ (i = id ∧ r.stage id = .runs) ∨ i ∈ stopped)
    (marked' : ∀ i, i ∈ preempted' ↔ (i = id ∧ r.stage id ≠ .runs) ∨ i ∈ preempted) :
    Sound lost (r'.without stopped' preempted') := by
  have waits : ∀ i ∈ r.waiting, i ∉ preempted → r.stage i = .waits := fun i hi hp =>
    h.waits i (mem_filter.mpr ⟨hi, by simpa using hp⟩)
  have runs : ∀ i ∈ r.running, i ∉ stopped → r.stage i = .runs := fun i hi hp =>
    h.runs i (mem_filter.mpr ⟨hi, by simpa using hp⟩)
  have left : ∀ i ∈ r.waiting, i ∉ preempted' ↔ i ∉ preempted ∧ i ≠ id := by
    intro i hi
    rw [marked', not_or, and_comm]
    refine and_congr_right fun hp => ?_
    have was := waits i hi hp
    constructor
    · rintro hnot rfl
      exact hnot ⟨rfl, by rw [was]; decide⟩
    · exact fun hne hnot => hne hnot.1
  refine h.leave [id] (fun i => ?_) known ?_ ?_ fun i hi => ?_
  · show r'.stage i = _
    rw [stage]
    by_cases hi : i = id
    · subst hi
      simp
    · rw [update_of_ne hi, if_neg (by simpa using hi)]
      rfl
  · refine .of_eq ?_
    simp only [without, running, filter_filter]
    refine filter_congr fun i hi => ?_
    simp only [mem_singleton, ← Bool.decide_and, decide_eq_decide]
    rw [marked, not_or]
    constructor
    · rintro ⟨hnot, hs⟩
      refine ⟨?_, hs⟩
      rintro rfl
      exact hnot ⟨rfl, runs i hi hs⟩
    · exact fun ⟨hne, hs⟩ => ⟨fun hnot => hne hnot.1, hs⟩
  · refine .of_eq ?_
    simp only [without, waiting, filter_filter]
    refine filter_congr fun i hi => ?_
    simp only [mem_singleton, ← Bool.decide_and, decide_eq_decide]
    rw [left i hi, and_comm]
  · simp only [without, deferred, mem_filter, decide_eq_true_eq] at hi ⊢
    have hp : i ∉ preempted := fun hp => hi.2 ((marked' i).mpr (.inr hp))
    have hwait := h.deferred i (mem_filter.mpr ⟨hi.1, by simpa using hp⟩)
    have hwait : i ∈ r.waiting := mem_of_mem_filter hwait
    exact ⟨⟨hi.1, hp⟩, by simpa using ((left i hwait).mp hi.2).2⟩

theorem Sound.turnBack (known : id ∈ r.known)
    (runs : r.stage id = .runs) (stage : r'.stage = update r.stage id .waits)
    (same : r'.known = r.known) (running : r'.running = r.running)
    (waiting : r'.waiting.Perm (id :: r.waiting))
    (deferred : ∀ i ∈ r'.deferred, i = id ∨ i ∈ r.deferred)
    (marked : ∀ i, i ∈ stopped' ↔ i = id ∨ i ∈ stopped)
    (unmarked : id ∉ preempted) : Sound lost (r'.without stopped' preempted) := by
  have hid : id ∈ (r.without stopped preempted).running := h.mem_running known runs
  refine h.stop id ?_ ?_ stage same fun i hi => ?_
  · have erased : (r'.without stopped' preempted).running =
        (r.without stopped preempted).running.erase id := by
      rw [h.running_nodup.erase_eq_filter]
      simp only [without, running, filter_filter]
      refine filter_congr fun i _ => ?_
      by_cases hi : i = id <;> simp [marked, hi]
    rw [erased]
    exact (perm_cons_erase hid).symm
  · refine (waiting.filter _).trans ?_
    rw [filter_cons_of_pos (by simpa using unmarked)]
    exact .refl _
  · simp only [without, mem_filter] at hi ⊢
    exact (deferred i hi.1).imp_right fun hdef => ⟨hdef, hi.2⟩

theorem Sound.dropOut (waits : r.stage id = .waits)
    (stage : r'.stage = update r.stage id .waits) (known : r'.known = r.known)
    (running : r'.running = r.running) (waiting : r'.waiting.Perm (id :: r.waiting))
    (deferred : ∀ i ∈ r'.deferred, i = id ∨ i ∈ r.deferred)
    (marked : ∀ i, i ∈ preempted' ↔ i = id ∨ i ∈ preempted) :
    Sound (id :: lost) (r'.without stopped preempted') := by
  have same : r'.stage = r.stage := by
    rw [stage, ← waits, update_eq_self]
  refine h.lose waits same known (by rw [without, without, running]) ?_ fun i hi => ?_
  · refine (waiting.filter _).trans (.of_eq ?_)
    rw [filter_cons_of_neg (by simp [marked])]
    simp only [without, filter_filter]
    refine filter_congr fun i _ => ?_
    simp [marked, not_or]
  · simp only [without, mem_filter, decide_eq_true_eq] at hi ⊢
    rw [marked, not_or] at hi
    exact ⟨⟨(deferred i hi.1).resolve_left hi.2.1, hi.2.2⟩, hi.2.1⟩

end

end Roster

end VllmAmpere
