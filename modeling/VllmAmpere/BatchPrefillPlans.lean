import Mathlib.Data.List.Induction
import VllmAmpere.Python

/-! The plan of a batched prefill, made once a step and kept under a fingerprint of the attention
metadata. -/

namespace VllmAmpere.BatchPrefill

/-- What a plan is computed from: the CPU twins and the device tensors of the metadata. -/
structure Contents where
  qslCpu : List Nat
  slCpu : List Nat
  seqLens : List Nat
  blockTable : List (List Nat)
  deriving DecidableEq

/-- Attention metadata with its `id`, which a later object may have again. -/
structure Metadata where
  id : Nat
  contents : Contents

/-- The arguments of `wrapper.plan` that change from step to step. -/
structure PlanArgs where
  qoIndptr : List Nat
  kvIndptr : List Nat
  kvIndices : List Nat
  lastPageLen : List Nat

/-- The plan of the wrapper, and what it was computed from. -/
structure Plan where
  source : Contents
  args : PlanArgs

/-- The wrapper: whether it raises for arguments, and what plan it then has. -/
structure Wrapper where
  raises : PlanArgs → Bool
  left : Option Plan → PlanArgs → Option Plan

abbrev Key := Nat × Nat × Nat × Nat

structure State where
  planned : Option Key
  plan : Option Plan
  col : Option (List Nat)

def State.start : State := ⟨none, none, none⟩

/-- `(id(m), B, int(qsl_cpu[-1]), int(sl_cpu.sum()))`. -/
def key (m : Metadata) : Except PyError Key :=
  match m.contents.qslCpu.getLast? with
  | none => .error .index
  | some last => .ok (m.id, m.contents.slCpu.length, last, m.contents.slCpu.sum)

section

variable (ps : Nat)

/-- The column numbers of a block table of `mb` columns, kept while there are enough of them. -/
def columns (B mb : Nat) (col : Option (List Nat)) : List Nat :=
  match col with
  | some col => if col.length < B * mb then (List.replicate (max B 8) (List.range mb)).flatten else col
  | none => (List.replicate (max B 8) (List.range mb)).flatten

/-- The block ids in use, scattered to the front of zeros, the others to the last place. -/
def scatter (col : List Nat) (B mb : Nat) (c : Contents) (size : Nat) : List Nat :=
  let npg := (c.seqLens.map fun n => cdiv n ps).flatMap (List.replicate mb)
  let valid := ((col.take (B * mb)).zip npg).map fun entry => decide (entry.1 < entry.2)
  let entries := valid.zip c.blockTable.flatten
  let used := (entries.filter Prod.fst).map Prod.snd
  let unused := (entries.filter fun entry => !entry.1).map Prod.snd
  used ++ List.replicate (size - 1 - used.length) 0 ++ [unused.getLastD 0]

/-- What `plan_step` hands to the wrapper for metadata. -/
def planArgs (c : Contents) (col : List Nat) : PlanArgs :=
  let npg := c.slCpu.map fun n => cdiv n ps
  let kvIndptr := npg.scanl (· + ·) 0
  let mb := (c.blockTable.head?.getD []).length
  { qoIndptr := c.qslCpu
    kvIndptr := kvIndptr
    kvIndices := (scatter ps col c.slCpu.length mb c (col.length + 1)).take (kvIndptr.getLastD 0)
    lastPageLen := c.slCpu.zipWith (fun n pages => n - (pages - 1) * ps) npg }

variable (w : Wrapper) (s : State) (m : Metadata)

/-- `plan_step`; a wrapper that raises declines the step. -/
def planStep : State × Except PyError Unit :=
  match key m with
  | .error e => (s, .error e)
  | .ok k =>
    if s.planned = some k then (s, .ok ())
    else
      let col := columns m.contents.slCpu.length (m.contents.blockTable.head?.getD []).length s.col
      let args := planArgs ps m.contents col
      if w.raises args then
        ({ s with plan := w.left s.plan args, col := some col }, .error (.runtime "KernelDecline"))
      else (⟨some k, some ⟨m.contents, args⟩, some col⟩, .ok ())

def planSteps (ms : List Metadata) : State :=
  ms.foldl (fun s m => (planStep ps w s m).1) State.start

/-- The fingerprint that is kept is that of metadata that was planned, from which the plan was
computed unless the wrapper has raised since. -/
theorem planned_source (keeps : ∀ plan args, w.left plan args = plan) (ms : List Metadata) (k : Key)
    (h : (planSteps ps w ms).planned = some k) :
    ∃ m ∈ ms, key m = .ok k ∧ (planSteps ps w ms).plan.map Plan.source = some m.contents := by
  induction ms using List.reverseRecOn with
  | nil => cases h
  | append_singleton ms m ih =>
    rw [planSteps, List.foldl_concat] at h ⊢
    change (planStep ps w (planSteps ps w ms) m).1.planned = some k at h
    change ∃ m' ∈ ms ++ [m], key m' = .ok k ∧
      (planStep ps w (planSteps ps w ms) m).1.plan.map Plan.source = some m'.contents
    have earlier : (planSteps ps w ms).planned = some k →
        ∃ m' ∈ ms ++ [m], key m' = .ok k ∧
          (planSteps ps w ms).plan.map Plan.source = some m'.contents := by
      intro kept
      obtain ⟨m', inside, same, source⟩ := ih kept
      exact ⟨m', List.mem_append_left _ inside, same, source⟩
    unfold planStep at h ⊢
    cases hkey : key m with
    | error e =>
      rw [hkey] at h
      exact earlier h
    | ok k' =>
      rw [hkey] at h
      dsimp only at h ⊢
      split at h
      · rw [if_pos ‹_›]
        exact earlier h
      · rw [if_neg ‹_›]
        split at h
        · rw [if_pos ‹_›, keeps]
          exact earlier h
        · rw [if_neg ‹_›]
          obtain rfl := Option.some.inj h
          exact ⟨m, by simp, hkey, rfl⟩

end

end VllmAmpere.BatchPrefill
