import VllmAmpere.BlockRows

/-! Both slot mappings of the same requests, and when they are the same bijection. -/

open Function

namespace VllmAmpere.SlotMapping

/-- A table of some rows in memory, with what lies around it. -/
def flat (np : Nat → Nat → Int) (rows width : Nat) (around : Int → Int) (address : Int) : Int :=
  if 0 ≤ address ∧ address < (rows * width : Nat) then
    np (address.toNat / width) (address.toNat % width)
  else around address

/-- The tables of the two runners for the same requests, which own disjoint blocks: the rows of the
batch in one of them, and rows by a mapping in the other. -/
structure Tables (c : SlotConfig) where
  blockTable : BlockTable
  rows : Nat → List Nat
  blockTable_reached : (BlockTable.runs c blockTable.maxNumBlocksPerReq).Reachable (blockTable, rows)
  group : GroupTable
  groupRows : Nat → List Nat
  group_reached : (GroupTable.runs c group.rowCapacity).Reachable (group, groupRows)
  group_applied : group.staged = []
  maxNumReqs : Nat
  numReqs : Nat
  numReqs_le : numReqs ≤ maxNumReqs
  idxMapping : Nat → Nat
  idxMapping_lt : ∀ r < numReqs, idxMapping r < maxNumReqs
  groupRows_eq : ∀ r < numReqs, groupRows (idxMapping r) = rows r
  disjoint : ∀ r < numReqs, ∀ r' < numReqs, ∀ (i i' b : Nat),
    (rows r)[i]? = some b → (rows r')[i']? = some b → r = r' ∧ i = i'
  /-- The flat table has no more entries than 31 bits count. -/
  small : maxNumReqs * blockTable.maxNumBlocksPerReq ≤ 2 ^ 31
  around : Int → Int

namespace Tables

variable {c : SlotConfig} (T : Tables c)

/-- The slot of a position of a request on a rank, by `BlockTable`. -/
def slotId (rank reqIdx pos : Nat) : Int :=
  ComputeSlotMappingKernel.slotId c rank
    (flat T.blockTable.np T.maxNumReqs T.blockTable.maxNumBlocksPerReq T.around)
    T.blockTable.maxNumBlocksPerReq reqIdx pos

variable {T} {r pos rank : Nat}

section Wide

theorem sixteenTokens_pos : 0 < 16 := by decide

theorem sixteenTokens_dvd : 16 ∣ 16 := Nat.dvd_refl 16

theorem oneToken_dvd : 1 ∣ 16 := Nat.one_dvd 16

def sixteen : SlotConfig :=
  ⟨16, 16, 1, 1, sixteenTokens_pos, Nat.one_pos, sixteenTokens_dvd, oneToken_dvd⟩

def single (b : Nat) (lt : b < 2 ^ 31) : Tables sixteen where
  blockTable := ⟨1, fun row i => if row = 0 ∧ 0 ≤ i ∧ i < 1 then int32 ([b].getD i 0) else 0,
    update (fun _ => 0) 0 1⟩
  rows := update (fun _ => []) 0 [b]
  blockTable_reached := by
    refine .step (s := (BlockTable.create 1, fun _ => [])) (a := .append [b] 0) (.init rfl)
      ⟨rfl, rfl, fun row => ?_⟩
    by_cases first : row = 0
    · rw [first]
      exact le_rfl
    · show (kernelIds sixteen (update (fun _ => []) 0 [b] row)).length ≤ 1
      rw [update_of_ne first]
      exact Nat.zero_le _
  group := ⟨1, GroupTable.writeRow (fun _ _ => 0) ⟨0, 0, [b]⟩, update (fun _ => 0) 0 1, []⟩
  groupRows := update (fun _ => []) 0 [b]
  group_reached := by
    have staged : (GroupTable.runs sixteen 1).Reachable
        (⟨1, fun _ _ => 0, update (fun _ => 0) 0 1, [⟨0, 0, [b]⟩]⟩,
          update (fun _ => []) 0 [b]) :=
      .step (s := (GroupTable.create 1, fun _ => [])) (a := .appendBlockIds 0 [b] true) (.init rfl)
        ⟨rfl, rfl⟩
    refine .step (a := .applyStagedWrites) staged ⟨?_, rfl⟩
    exact if_pos (by simpa using lt)
  group_applied := rfl
  maxNumReqs := 1
  numReqs := 1
  numReqs_le := le_rfl
  idxMapping := fun _ => 0
  idxMapping_lt := fun _ _ => Nat.one_pos
  groupRows_eq := fun r lt => by rw [Nat.lt_one_iff.mp lt]
  disjoint := fun r lt r' lt' i i' b there there' => by
    rw [Nat.lt_one_iff.mp lt] at there ⊢
    rw [Nat.lt_one_iff.mp lt'] at there' ⊢
    have bound := (List.getElem?_eq_some_iff.mp there).1
    have bound' := (List.getElem?_eq_some_iff.mp there').1
    rw [update_self, List.length_singleton] at bound bound'
    exact ⟨rfl, by omega⟩
  small := show 1 * 1 ≤ 2 ^ 31 by decide
  around := fun _ => 0

end Wide

end Tables

end VllmAmpere.SlotMapping
