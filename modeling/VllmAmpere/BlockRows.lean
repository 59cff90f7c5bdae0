import VllmAmpere.SlotMapping
import VllmAmpere.TransitionSystem

/-! The block tables that the slot mappings are computed from: `BlockTable` of
`v1/worker/block_table.py`, and a group of `BlockTables` of `v1/worker/gpu/block_table.py`, whose
writes are staged. -/

open List Function

namespace VllmAmpere.SlotMapping

def kernelIds (c : SlotConfig) (blockIds : List Nat) : List Nat :=
  blockIds.flatMap fun b => (List.range c.blocksPerKvBlock).map fun k => b * c.blocksPerKvBlock + k

section KernelIds

variable {c : SlotConfig} {blockIds rest : List Nat}

end KernelIds

/-- `map_to_kernel_blocks`. -/
def mapToKernelBlocks (blockIds : List Nat) (blocksPerKvBlock : Nat) : List Nat :=
  if blocksPerKvBlock = 1 then blockIds
  else blockIds.flatMap fun b => (List.range blocksPerKvBlock).map fun k => b * blocksPerKvBlock + k

/-- The rows of a table of 32 bits, and how many entries of each are in use. -/
structure BlockTable where
  maxNumBlocksPerReq : Nat
  np : Nat → Nat → Int
  numBlocksPerRow : Nat → Nat

namespace BlockTable

def create (maxNumBlocksPerReq : Nat) : BlockTable := ⟨maxNumBlocksPerReq, fun _ _ => 0, fun _ => 0⟩

variable (t : BlockTable)

/-- Some ids from an entry of a row on; where the row is too short this raises, unless it is one id
for a slice of none. -/
def store (rowIdx start : Nat) (ids : List Nat) : Option BlockTable :=
  if start + ids.length ≤ t.maxNumBlocksPerReq then
    some { t with
      np := fun row i =>
        if row = rowIdx ∧ start ≤ i ∧ i < start + ids.length then int32 (ids.getD (i - start) 0)
        else t.np row i }
  else if ids.length = 1 then some t
  else none

def appendRow (c : SlotConfig) (t : BlockTable) (blockIds : List Nat) (rowIdx : Nat) :
    Option BlockTable :=
  if blockIds = [] then some t
  else
    let ids :=
      if c.kernelBlockSize = c.kvBlockSize then blockIds
      else mapToKernelBlocks blockIds c.blocksPerKvBlock
    let start := t.numBlocksPerRow rowIdx
    store { t with
      numBlocksPerRow := update t.numBlocksPerRow rowIdx (start + ids.length) }
      rowIdx start ids

def addRow (c : SlotConfig) (t : BlockTable) (blockIds : List Nat) (rowIdx : Nat) :
    Option BlockTable :=
  appendRow c { t with numBlocksPerRow := update t.numBlocksPerRow rowIdx 0 } blockIds rowIdx

def clearRow (rowIdx : Nat) : BlockTable :=
  { t with
    np := fun row i => if row = rowIdx ∧ i < t.numBlocksPerRow rowIdx then 0 else t.np row i
    numBlocksPerRow := update t.numBlocksPerRow rowIdx 0 }

def moveRow (src tgt : Nat) : BlockTable :=
  let numBlocks := t.numBlocksPerRow src
  let t := { t with
    np := fun row i => if row = tgt ∧ i < numBlocks then t.np src i else t.np row i
    numBlocksPerRow := update t.numBlocksPerRow tgt numBlocks }
  { t with
    np := fun row i => if row = src ∧ i < numBlocks then 0 else t.np row i
    numBlocksPerRow := update t.numBlocksPerRow src 0 }

def swapRow (src tgt : Nat) : BlockTable :=
  { t with
    np := fun row => if row = src then t.np tgt else if row = tgt then t.np src else t.np row
    numBlocksPerRow := fun row =>
      if row = src then t.numBlocksPerRow tgt
      else if row = tgt then t.numBlocksPerRow src else t.numBlocksPerRow row }

end BlockTable

/-- What the runner does with the rows of a `BlockTable`. -/
inductive RowOp
  | append (blockIds : List Nat) (rowIdx : Nat)
  | add (blockIds : List Nat) (rowIdx : Nat)
  | clear (rowIdx : Nat)
  | move (src tgt : Nat)
  | swap (src tgt : Nat)

namespace RowOp

def run (c : SlotConfig) (t : BlockTable) : RowOp → Option BlockTable
  | .append blockIds rowIdx => t.appendRow c blockIds rowIdx
  | .add blockIds rowIdx => t.addRow c blockIds rowIdx
  | .clear rowIdx => some (t.clearRow rowIdx)
  | .move src tgt => some (t.moveRow src tgt)
  | .swap src tgt => some (t.swapRow src tgt)

/-- The blocks that the rows stand for, behind an operation. -/
def blocks (rows : Nat → List Nat) : RowOp → Nat → List Nat
  | .append blockIds rowIdx => update rows rowIdx (rows rowIdx ++ blockIds)
  | .add blockIds rowIdx => update rows rowIdx blockIds
  | .clear rowIdx => update rows rowIdx []
  | .move src tgt => update (update rows tgt (rows src)) src []
  | .swap src tgt => fun row =>
    if row = src then rows tgt else if row = tgt then rows src else rows row

end RowOp

namespace BlockTable

/-- A table with the blocks that its rows stand for; no row gets more than fit. -/
def runs (c : SlotConfig) (maxNumBlocksPerReq : Nat) :
    TransitionSystem (BlockTable × (Nat → List Nat)) RowOp where
  init s := s = (create maxNumBlocksPerReq, fun _ => [])
  step s op s' := op.run c s.1 = some s'.1 ∧ s'.2 = op.blocks s.2 ∧
    ∀ row, (kernelIds c (s'.2 row)).length ≤ maxNumBlocksPerReq

/-- A row stands for some blocks. -/
structure Row (c : SlotConfig) (t : BlockTable) (row : Nat) (blockIds : List Nat) : Prop where
  count : t.numBlocksPerRow row = (kernelIds c blockIds).length
  entry : ∀ i (k : Nat), (kernelIds c blockIds)[i]? = some k → t.np row i = int32 k

variable {c : SlotConfig} {t t' : BlockTable} {rows : Nat → List Nat} {blockIds : List Nat}
  {rowIdx src tgt : Nat}

section

variable (fits : (kernelIds c (rows rowIdx ++ blockIds)).length ≤ t.maxNumBlocksPerReq)
  (h : ∀ row, Row c t row (rows row)) (ok : t.appendRow c blockIds rowIdx = some t')
include fits h ok

end

section

variable (h : ∀ row, Row c t row (rows row)) (row : Nat)
include h row

end

end BlockTable

/-! A group of `BlockTables` of `v1/worker/gpu/block_table.py`: the ids of new blocks are staged, and
written into the table of 32 bits with the next launch. -/

/-- Some values that are to be written from an entry of a row on. -/
structure StagedWrite where
  index : Nat
  start : Nat
  contents : List Nat

structure GroupTable where
  rowCapacity : Nat
  gpu : Nat → Nat → Int
  numBlocks : Nat → Nat
  staged : List StagedWrite

namespace GroupTable

def create (rowCapacity : Nat) : GroupTable := ⟨rowCapacity, fun _ _ => 0, fun _ => 0, []⟩

/-- `append_block_ids` for the group; it raises where the row is too short. -/
def appendBlockIds (c : SlotConfig) (t : GroupTable) (reqIndex : Nat) (newBlockIds : List Nat)
    (overwrite : Bool) : Option GroupTable :=
  let start := if overwrite then 0 else t.numBlocks reqIndex
  let blockIds :=
    if c.blocksPerKvBlock > 1 then
      newBlockIds.flatMap fun b =>
        (List.range c.blocksPerKvBlock).map fun k => b * c.blocksPerKvBlock + k
    else newBlockIds
  let stop := start + blockIds.length
  if stop > t.rowCapacity then none
  else
    some { t with
      staged := if blockIds = [] then t.staged else t.staged ++ [⟨reqIndex, start, blockIds⟩]
      numBlocks := update t.numBlocks reqIndex stop }

def writeRow (gpu : Nat → Nat → Int) (w : StagedWrite) : Nat → Nat → Int := fun row i =>
  if row = w.index ∧ w.start ≤ i ∧ i < w.start + w.contents.length
  then w.contents.getD (i - w.start) 0 else gpu row i

/-- `apply_staged_writes`; values of more than 32 bits raise. -/
def applyStagedWrites (t : GroupTable) : Option GroupTable :=
  if t.staged.all fun w => w.contents.all fun k => k < 2 ^ 31 then
    some { t with gpu := t.staged.foldl writeRow t.gpu, staged := [] }
  else none

end GroupTable

inductive GroupOp
  | appendBlockIds (reqIndex : Nat) (newBlockIds : List Nat) (overwrite : Bool)
  | applyStagedWrites

namespace GroupOp

def run (c : SlotConfig) (t : GroupTable) : GroupOp → Option GroupTable
  | .appendBlockIds reqIndex newBlockIds overwrite =>
    t.appendBlockIds c reqIndex newBlockIds overwrite
  | .applyStagedWrites => t.applyStagedWrites

/-- The blocks that the rows stand for, behind an operation. -/
def blocks (rows : Nat → List Nat) : GroupOp → Nat → List Nat
  | .appendBlockIds reqIndex newBlockIds overwrite =>
    update rows reqIndex ((if overwrite then [] else rows reqIndex) ++ newBlockIds)
  | .applyStagedWrites => rows

end GroupOp

namespace GroupTable

def runs (c : SlotConfig) (rowCapacity : Nat) :
    TransitionSystem (GroupTable × (Nat → List Nat)) GroupOp where
  init s := s = (create rowCapacity, fun _ => [])
  step s op s' := op.run c s.1 = some s'.1 ∧ s'.2 = op.blocks s.2

/-- A row stands for some blocks, once the staged writes are applied. -/
structure Row (c : SlotConfig) (t : GroupTable) (row : Nat) (blockIds : List Nat) : Prop where
  count : t.numBlocks row = (kernelIds c blockIds).length
  fits : (kernelIds c blockIds).length ≤ t.rowCapacity
  entry : ∀ i (k : Nat), (kernelIds c blockIds)[i]? = some k →
    t.staged.foldl writeRow t.gpu row i = k ∧ (k < 2 ^ 31 ∨ ∃ w ∈ t.staged, k ∈ w.contents)

variable {c : SlotConfig} {t t' : GroupTable} {rows : Nat → List Nat} {reqIndex row : Nat}
  {newBlockIds : List Nat} {overwrite : Bool}

end GroupTable

/-! The launches of the two slot mapping kernels, and what the mapping is: one rank for each
position, one slot for each position of a rank, in the block that was allocated for it. -/

/-- The masked offsets of `for i in range(start, stop, size)` with a tile of `size`. -/
def tileOffsets (start stop size : Nat) : List Nat :=
  (List.range ((stop - start + (size - 1)) / size)).flatMap fun j =>
    ((List.range size).map fun k => start + j * size + k).filter (· < stop)

theorem mem_tileOffsets {start stop size o : Nat} (pos : 0 < size) :
    o ∈ tileOffsets start stop size ↔ start ≤ o ∧ o < stop := by
  simp only [tileOffsets, mem_flatMap, mem_range, mem_filter, mem_map,
    decide_eq_true_eq]
  constructor
  · rintro ⟨j, -, ⟨k, -, rfl⟩, lt⟩
    exact ⟨by omega, lt⟩
  · rintro ⟨le, lt⟩
    have split := Nat.div_add_mod' (o - start) size
    have mod := Nat.mod_lt (o - start) pos
    refine ⟨(o - start) / size, ?_, ⟨(o - start) % size, mod, by omega⟩, lt⟩
    rw [Nat.lt_div_iff_mul_lt pos]
    omega

/-- The stores of some programs, one program after the other. -/
def launch (program : Nat → List (Nat × Int)) (order : List Nat) (out : Nat → Int) : Nat → Int :=
  (order.flatMap program).foldl (fun out s => update out s.1 s.2) out

theorem launch_eq {program : Nat → List (Nat × Int)} {order : List Nat} {out : Nat → Int} {o : Nat}
    {v : Int} (some' : ∃ p ∈ order, (o, v) ∈ program p)
    (only : ∀ p ∈ order, ∀ w, (o, w) ∈ program p → w = v) : launch program order out o = v := by
  have stores : ∀ (stores : List (Nat × Int)) (out : Nat → Int), (∀ w, (o, w) ∈ stores → w = v) →
      ((o, v) ∈ stores ∨ out o = v) →
      stores.foldl (fun out s => update out s.1 s.2) out o = v := by
    intro stores
    induction stores with
    | nil => exact fun out _ either => either.resolve_left not_mem_nil
    | cons s stores ih =>
      intro out only either
      refine ih _ (fun w mem => only w (mem_cons_of_mem _ mem)) ?_
      by_cases here : s.1 = o
      · have value : s.2 = v := only s.2 (by rw [← here]; exact mem_cons_self)
        refine .inr ?_
        show update out s.1 s.2 o = v
        rw [← here, update_self, value]
      · rcases either with mem | done
        · rcases mem_cons.mp mem with rfl | mem
          · exact absurd rfl here
          · exact .inl mem
        · exact .inr ((update_of_ne (Ne.symm here) _ _).trans done)
  obtain ⟨p, mem, stored⟩ := some'
  refine stores _ out (fun w mem => ?_) (.inl (mem_flatMap.mpr ⟨p, mem, stored⟩))
  obtain ⟨p', mem', stored'⟩ := mem_flatMap.mp mem
  exact only p' mem' w stored'

def TRITON_BLOCK_SIZE : Nat := 1024

/-- A batch of requests: where the tokens of each begin, and their positions. -/
structure Batch (numReqs : Nat) where
  queryStartLoc : Nat → Nat
  positions : Nat → Nat
  maxNumTokens : Nat
  ascending : ∀ r < numReqs, queryStartLoc r ≤ queryStartLoc (r + 1)

/-- The stores of a program of `ComputeSlotMappingKernel.kernel`; the last one pads. -/
def ComputeSlotMappingKernel.program {numReqs : Nat} (batch : Batch numReqs) (numTokens : Nat)
    (slotId : Nat → Nat → Int) (reqIdx : Nat) : List (Nat × Int) :=
  if reqIdx = numReqs then
    (tileOffsets numTokens batch.maxNumTokens TRITON_BLOCK_SIZE).map fun o => (o, PAD_SLOT_ID)
  else
    (tileOffsets (batch.queryStartLoc reqIdx) (batch.queryStartLoc (reqIdx + 1))
      TRITON_BLOCK_SIZE).map fun o => (o, slotId reqIdx (batch.positions o))

/-- The stores of a program of `_compute_slot_mappings_kernel` for a group; the last one pads, from
the last token on. -/
def BlockTables.program {numReqs : Nat} (batch : Batch numReqs) (slotId : Nat → Nat → Int)
    (batchIdx : Nat) : List (Nat × Int) :=
  if batchIdx = numReqs then
    (tileOffsets (batch.queryStartLoc batchIdx) batch.maxNumTokens TRITON_BLOCK_SIZE).map
      fun o => (o, PAD_SLOT_ID)
  else
    (tileOffsets (batch.queryStartLoc batchIdx) (batch.queryStartLoc (batchIdx + 1))
      TRITON_BLOCK_SIZE).map fun o => (o, slotId batchIdx (batch.positions o))

namespace Batch

variable {numReqs : Nat} (batch : Batch numReqs)

theorem start_le {r r' : Nat} (le : r ≤ r') (lt : r' ≤ numReqs) :
    batch.queryStartLoc r ≤ batch.queryStartLoc r' := by
  induction r', le using Nat.le_induction with
  | base => exact le_rfl
  | succ r' le ih => exact (ih (by omega)).trans (batch.ascending r' (by omega))

theorem request_unique {r r' o : Nat} (lt : r < numReqs) (lt' : r' < numReqs)
    (start : batch.queryStartLoc r ≤ o) (stop : o < batch.queryStartLoc (r + 1))
    (start' : batch.queryStartLoc r' ≤ o) (stop' : o < batch.queryStartLoc (r' + 1)) : r = r' := by
  rcases Nat.lt_trichotomy r r' with less | same | less
  · have := batch.start_le (show r + 1 ≤ r' from less) lt'.le
    omega
  · exact same
  · have := batch.start_le (show r' + 1 ≤ r from less) lt.le
    omega

/-- The slot of each token is stored for it, and the rest is padded, whatever was there before and
in whatever order the programs run. -/
theorem launched (slotId : Nat → Nat → Int) {order : List Nat}
    (all : order.Perm (List.range (numReqs + 1))) (out : Nat → Int) :
    (∀ r < numReqs, ∀ o, batch.queryStartLoc r ≤ o → o < batch.queryStartLoc (r + 1) →
    launch (BlockTables.program batch slotId) order out o = slotId r (batch.positions o)) ∧
    ∀ o, batch.queryStartLoc numReqs ≤ o → o < batch.maxNumTokens →
    launch (BlockTables.program batch slotId) order out o = PAD_SLOT_ID := by
  have pos : 0 < TRITON_BLOCK_SIZE := by decide
  have stored : ∀ {p o w}, (o, w) ∈ BlockTables.program batch slotId p ↔
      if p = numReqs then
        (batch.queryStartLoc p ≤ o ∧ o < batch.maxNumTokens) ∧ w = PAD_SLOT_ID
      else (batch.queryStartLoc p ≤ o ∧ o < batch.queryStartLoc (p + 1)) ∧
        w = slotId p (batch.positions o) := by
    intro p o w
    unfold BlockTables.program
    split <;> simp only [mem_map, mem_tileOffsets pos, Prod.mk.injEq]
    all_goals
      constructor
      · rintro ⟨_, within, rfl, value⟩
        exact ⟨within, value.symm⟩
      · exact fun ⟨within, value⟩ => ⟨o, within, rfl, value.symm⟩
  have mem : ∀ {p}, p ∈ order ↔ p < numReqs + 1 := all.mem_iff.trans mem_range
  constructor
  · intro r lt o start stop
    have before := batch.start_le (show r + 1 ≤ numReqs from lt) le_rfl
    refine launch_eq ⟨r, mem.mpr (by omega), stored.mpr ?_⟩ fun p below w here => ?_
    · rw [if_neg (by omega)]
      exact ⟨⟨start, stop⟩, rfl⟩
    · have here := stored.mp here
      split at here
      next last =>
        rw [last] at here
        omega
      next not =>
        have lt' : p < numReqs := by
          have := mem.mp below
          omega
        rw [batch.request_unique lt lt' start stop here.1.1 here.1.2]
        exact here.2
  · intro o start stop
    refine launch_eq ⟨numReqs, mem.mpr (by omega), stored.mpr ?_⟩ fun p below w here => ?_
    · rw [if_pos rfl]
      exact ⟨⟨start, stop⟩, rfl⟩
    · have here := stored.mp here
      split at here
      · exact here.2
      next not =>
        have lt' : p < numReqs := by
          have := mem.mp below
          omega
        have := batch.start_le (show p + 1 ≤ numReqs from lt') le_rfl
        omega

end Batch

end VllmAmpere.SlotMapping
