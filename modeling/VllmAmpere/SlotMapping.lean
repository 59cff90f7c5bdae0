import Mathlib.Data.Nat.Cast.Order.Ring
import VllmAmpere.Interleaving

/-! One element of the slot mapping, as the two kernels compute it: `ComputeSlotMappingKernel` of
`v1/worker/block_table.py` and `_compute_slot_mappings_kernel` of `v1/worker/gpu/block_table.py`. -/

namespace VllmAmpere.SlotMapping

open Interleaving

def PAD_SLOT_ID : Int := -1

def int32 (i : Int) : Int := i.bmod (2 ^ 32)

/-- The sizes of a group of caches: the blocks of the KV manager and those of the kernel, and how
positions are dealt out to the ranks of context parallelism. -/
structure SlotConfig where
  kvBlockSize : Nat
  kernelBlockSize : Nat
  cpSize : Nat
  interleave : Nat
  kvBlockSize_pos : 0 < kvBlockSize
  cpSize_pos : 0 < cpSize
  kernel_dvd : kernelBlockSize ∣ kvBlockSize
  interleave_dvd : interleave ∣ kvBlockSize

namespace SlotConfig

variable (c : SlotConfig)

def blocksPerKvBlock : Nat := c.kvBlockSize / c.kernelBlockSize

variable (pos : Nat)

/-- The block of a position, among those of its request. -/
def blockIndex : Nat := pos / (c.kvBlockSize * c.cpSize)

def virtualOffset : Nat := pos % (c.kvBlockSize * c.cpSize)

def localOffset : Nat := place c.interleave c.cpSize (c.virtualOffset pos)

variable {c} {pos : Nat}

end SlotConfig

/-- An element of `ComputeSlotMappingKernel.kernel`: `load` reads the block table, which is flat. -/
def ComputeSlotMappingKernel.slotId (c : SlotConfig) (rank : Nat) (load : Int → Int)
    (blockTableStride reqIdx pos : Nat) : Int :=
  let virtualBlockSize := c.kvBlockSize * c.cpSize
  let rowOffset := int32 (reqIdx * blockTableStride : Nat)
  let virtualBlockIndices := pos / virtualBlockSize
  let virtualBlockOffsets := pos - virtualBlockIndices * virtualBlockSize
  let isLocal := virtualBlockOffsets / c.interleave % c.cpSize = rank
  let localBlockOffsets :=
    virtualBlockOffsets / (c.cpSize * c.interleave) * c.interleave +
      virtualBlockOffsets % c.interleave
  let blockIndices :=
    virtualBlockIndices * c.blocksPerKvBlock + localBlockOffsets / c.kernelBlockSize
  -- as 64 bits
  let blockNumbers := if isLocal then load (rowOffset + blockIndices) else 0
  let slotOffsets := localBlockOffsets % c.kernelBlockSize
  let slotIds := blockNumbers * c.kernelBlockSize + slotOffsets
  if isLocal then slotIds else PAD_SLOT_ID

/-- An element of `_compute_slot_mappings_kernel` for a group; `sharded` is read where there is
context parallelism. -/
def BlockTables.slotId (c : SlotConfig) (rank : Nat) (mappingEnabled sharded : Bool)
    (load : Int → Int) (blockTableStride : Nat) (reqStateIdx : Int) (pos : Nat) : Int :=
  let isRealReq := 0 ≤ reqStateIdx
  let virtualBlockSize := c.kvBlockSize * c.cpSize
  let virtualBlockIndices := pos / virtualBlockSize
  let virtualBlockOffsets := pos % virtualBlockSize
  let rounds := virtualBlockOffsets / (c.interleave * c.cpSize)
  let remainder := virtualBlockOffsets % c.interleave
  let localOffsets := rounds * c.interleave + remainder
  let localPositions :=
    if c.cpSize = 1 then pos
    else if sharded then virtualBlockIndices * c.kvBlockSize + localOffsets else pos
  let isLocal :=
    c.cpSize = 1 ∨ ¬sharded ∨ virtualBlockOffsets / c.interleave % c.cpSize = rank
  let blockIndices := if mappingEnabled then localPositions / c.kernelBlockSize else 0
  let blockOffsets := localPositions % c.kernelBlockSize
  let blockNumbers :=
    if isLocal ∧ isRealReq then load (reqStateIdx * blockTableStride + blockIndices) else 0
  -- the product of two integers of 32 bits
  let slotIds := int32 (blockNumbers * c.kernelBlockSize) + blockOffsets
  let slotIds := if c.cpSize ≠ 1 then if isLocal then slotIds else PAD_SLOT_ID else slotIds
  if mappingEnabled ∧ isRealReq then slotIds else PAD_SLOT_ID

variable {c : SlotConfig} {rank pos : Nat}

end VllmAmpere.SlotMapping
