import VllmAmpere.FullAttentionRun

/-! The common prefix that the reference counts of a full-attention manager show:
it is shared exactly when the counted blocks are referenced by the tables alone. -/

open List

namespace VllmAmpere

namespace FullAttentionManager

variable (pool : BlockPool) (numRequests : Nat)

theorem lt_numCommonPrefixLoop_iff (blocks : List BlockId) (i : Nat) :
    i < numCommonPrefixLoop pool numRequests blocks ↔ i < blocks.length ∧
    ∀ j ≤ i, ∀ c, blocks[j]? = some c → (pool.blocks c).refCnt = numRequests := by
  induction blocks generalizing i with
  | nil => simp [numCommonPrefixLoop]
  | cons b rest ih =>
    unfold numCommonPrefixLoop
    by_cases hb : (pool.blocks b).refCnt = numRequests
    · rw [if_pos hb]
      cases i with
      | zero =>
        refine ⟨fun _ => ⟨by simp, fun j hj c hc => ?_⟩, fun _ => Nat.succ_pos _⟩
        rw [Nat.le_zero.mp hj, getElem?_cons_zero, Option.some.injEq] at hc
        rw [← hc]
        exact hb
      | succ i =>
        rw [Nat.succ_lt_succ_iff, ih, length_cons, Nat.succ_lt_succ_iff]
        refine and_congr_right fun _ => ⟨fun h j hj c hc => ?_, fun h j hj c hc => ?_⟩
        · cases j with
          | zero =>
            rw [getElem?_cons_zero, Option.some.injEq] at hc
            rw [← hc]
            exact hb
          | succ j =>
            rw [getElem?_cons_succ] at hc
            exact h j (by omega) c hc
        · exact h (j + 1) (by omega) c (by rwa [getElem?_cons_succ])
    · rw [if_neg hb]
      refine ⟨fun h => absurd h (Nat.not_lt_zero _), fun h => ?_⟩
      exact absurd (h.2 0 (Nat.zero_le _) b getElem?_cons_zero) hb

end FullAttentionManager

namespace ManagerState

open FullAttentionManager SingleTypeKVCacheManager

variable {s : ManagerState}

/-- The counted blocks of `r` are the first blocks of every tracked request. -/
def SharedPrefix (s : ManagerState) (r : String) : Prop :=
  ∀ r' blocks, s.manager.reqToBlocks.get? r' = some blocks →
    blocks.take (getNumCommonPrefixBlocks s.manager s.pool r).1 =
      (s.manager.reqBlocks r).take (getNumCommonPrefixBlocks s.manager s.pool r).1

/-- A block of `r` is referenced by the tables alone if, like all blocks of `r`
before it, it has as many references as there are tracked requests. -/
def CountedInTables (s : ManagerState) (r : String) : Prop :=
  ∀ (i : Nat) (b : BlockId), (s.manager.reqBlocks r)[i]? = some b →
    (∀ j ≤ i, ∀ c : BlockId, (s.manager.reqBlocks r)[j]? = some c →
      (s.pool.blocks c).refCnt = s.manager.reqToBlocks.len) →
    s.engine.refs s.poolId b = 0

theorem lt_getNumCommonPrefixBlocks_iff (s : ManagerState) (r : String) (i : Nat) :
    i < (getNumCommonPrefixBlocks s.manager s.pool r).1 ↔ i < (s.manager.reqBlocks r).length ∧
    ∀ j ≤ i, ∀ c, (s.manager.reqBlocks r)[j]? = some c →
    (s.pool.blocks c).refCnt = s.manager.reqToBlocks.len := by
  simp only [getNumCommonPrefixBlocks, lt_numCommonPrefixLoop_iff, reqBlocks_readBlocks]
  refine and_congr_right fun hi => ?_
  have len : (s.manager.readBlocks r).reqToBlocks.len = s.manager.reqToBlocks.len := by
    unfold reqBlocks at hi
    cases tracked : s.manager.reqToBlocks.get? r with
    | none => simp [tracked] at hi
    | some blocks => exact s.manager.reqToBlocks.len_set_of_mem tracked _
  rw [len]

theorem Inv.refCnt (inv : Inv s) {r : String} {b : BlockId} (hb : b ∈ s.manager.reqBlocks r) :
    (s.pool.blocks b).refCnt = (s.engine.refs s.poolId b + s.manager.tableCount b : Nat) := by
  have ⟨_, refs⟩ := inv.refInv
  have ⟨hlt, hnull⟩ := inv.table_valid hb
  exact refs.refCnt b hlt hnull

theorem reqBlocks_of_get {m : SingleTypeKVCacheManager} {r : String} {blocks : List BlockId}
    (h : m.reqToBlocks.get? r = some blocks) : m.reqBlocks r = blocks := by
  rw [reqBlocks, h]
  rfl

theorem Placed.count_le_one {pos : BlockId → Nat} (h : Placed s.manager s.pool pos) (r : String)
    (b : BlockId) : (s.manager.reqBlocks r).count b ≤ 1 := by
  refine nodup_iff_count_le_one.mp (nodup_iff_getElem?_ne_getElem?.mpr ?_) b
  intro i j hij hj heq
  have ⟨c, hc⟩ : ∃ c, (s.manager.reqBlocks r)[i]? = some c :=
    ⟨_, getElem?_eq_getElem (by omega)⟩
  have hi := h.tables r i c hc
  have := h.tables r j c (heq ▸ hc)
  omega

/-- A block that all references in the tables count for every request is in every
table, at its one position. -/
theorem Placed.shared {pos : BlockId → Nat} (h : Placed s.manager s.pool pos) {b : BlockId}
    (all : s.manager.tableCount b = s.manager.reqToBlocks.len) {r : String}
    {blocks : List BlockId} (hr : s.manager.reqToBlocks.get? r = some blocks) :
    blocks[pos b]? = some b := by
  have one := s.manager.reqToBlocks.all_one_of_total (List.count b) (fun key value hkey => by
    rw [← reqBlocks_of_get hkey]
    exact h.count_le_one key b) all hr
  have ⟨i, hi⟩ := mem_iff_getElem?.mp (count_pos_iff.mp (by omega : 0 < blocks.count b))
  rw [h.tables r i b (reqBlocks_of_get hr ▸ hi)]
  exact hi

/-- The counted prefix is shared exactly when no counted block is referenced from
outside the tables: by a deferred free, a copy, a pin or another group. -/
theorem sharedPrefix_iff (h : system.Reachable s) (collisionFree : s.pool.hasher.CollisionFree)
    (r : String) : SharedPrefix s r ↔ CountedInTables s r := by
  have inv := reachable_inv h
  have ⟨pos, placed⟩ := inv.placed collisionFree
  generalize hn : (getNumCommonPrefixBlocks s.manager s.pool r).1 = n
  have counted (i : Nat) := lt_getNumCommonPrefixBlocks_iff s r i
  rw [hn] at counted
  unfold SharedPrefix
  rw [hn]
  constructor
  · intro shared i b hi run
    have hin : i < n := (counted i).mpr ⟨(List.getElem?_eq_some_iff.mp hi).1, run⟩
    have everywhere : s.manager.reqToBlocks.len ≤ s.manager.tableCount b := by
      refine s.manager.reqToBlocks.len_le_total _ fun r' blocks hr' => ?_
      have same := congrArg (fun blocks : List BlockId => blocks[i]?) (shared r' blocks hr')
      simp only [getElem?_take, hin, if_true, hi] at same
      exact count_pos_iff.mpr (mem_of_getElem? same)
    have total := inv.refCnt (mem_of_getElem? hi)
    rw [run i (Nat.le_refl i) b hi] at total
    omega
  · intro tablesOnly r' blocks hr'
    refine ext_getElem? fun i => ?_
    rw [getElem?_take, getElem?_take]
    by_cases hin : i < n
    · rw [if_pos hin, if_pos hin]
      have ⟨hlen, run⟩ := (counted i).mp hin
      have hi := getElem?_eq_getElem hlen
      generalize (s.manager.reqBlocks r)[i] = b at hi
      have total := inv.refCnt (mem_of_getElem? hi)
      rw [run i (Nat.le_refl i) b hi, tablesOnly i b hi run] at total
      rw [hi, ← placed.tables r i b hi]
      exact placed.shared (by omega) hr'
    · rw [if_neg hin, if_neg hin]

def taggedHasher : BlockHasher :=
  { BlockHasher.unaryHasher with
    hashFunction := fun t => 0 :: BlockHasher.unaryHasher.hashFunction t }

theorem taggedHasher_collisionFree : taggedHasher.CollisionFree where
  inj := fun _ _ same => BlockHasher.unaryHasher_injective (cons_inj_right 0 |>.mp same)
  fresh := fun _ same => absurd (cons_eq_cons.mp same).1 (by decide)
  nonempty := fun _ => cons_ne_nil _ _

def idlePool : BlockPool :=
  (BlockPool.new 4 true taggedHasher false false "GPU" .inserted).toOption.get rfl

theorem idleSpec_notChunked (chunk : Nat)
    (h : SpecKind.fullAttention = .chunkedLocalAttention chunk) : 0 < chunk := by
  cases h

def idleManager : SingleTypeKVCacheManager := .new
  { kvCacheSpec := ⟨.fullAttention, 16, false, true, 0, PoolState.sampleHash_pos,
      idleSpec_notChunked⟩
    dcpWorldSize := 1
    dcp_pos := Nat.one_pos
    cacheHitAlignmentTokens := 16
    enableCaching := true
    recordNewBlockIds := false
    maxAdmissionBlocksPerRequest := none
    kvCacheGroupId := 0
    useEagle := false }

def idle : ManagerState := ⟨⟨fun _ => idlePool, 0, fun _ => []⟩, 0, idleManager⟩

theorem idle_initial : Initial idle :=
  ⟨⟨fun _ => ⟨4, true, taggedHasher, false, false, "GPU", ⟨id, fun _ => .refl _⟩, rfl⟩, rfl,
    fun _ => rfl⟩, rfl, rfl, rfl⟩

def apart : ManagerState :=
  ((idle.apply (.allocateNewBlocks "day" 16 2)).toOption.get rfl |>.apply
    (.allocateNewBlocks "night" 16 2)).toOption.get rfl

/-- The block of one of them is pinned, as for an asynchronous store. -/
def pinned : ManagerState := (apart.apply (.elsewhere (.touch 0 3 [1]))).toOption.get rfl

theorem apart_reachable : system.Reachable apart :=
  .step (a := .allocateNewBlocks "night" 16 2)
    (.step (a := .allocateNewBlocks "day" 16 2) (.init idle_initial) ⟨trivial, rfl⟩) ⟨trivial, rfl⟩

theorem pinned_reachable : system.Reachable pinned :=
  .step (a := .elsewhere (.touch 0 3 [1])) apart_reachable
    ⟨⟨⟨forall_mem_singleton.mpr (by decide +kernel), by simp [PoolOp.registers]⟩, by simp,
      by simp [PoolOp.newKeys]⟩, rfl⟩

theorem apart_sharedPrefix : SharedPrefix apart "day" ↔ CountedInTables apart "day" :=
  sharedPrefix_iff apart_reachable taggedHasher_collisionFree "day"

/-- The pinned block is counted as common although the other request has another. -/
theorem pinned_not_shared : ¬∀ s, system.Reachable s → s.pool.hasher.CollisionFree →
    ∀ r blocks, s.manager.reqToBlocks.get? r = some blocks → SharedPrefix s r := by
  intro all
  have shared := all pinned pinned_reachable taggedHasher_collisionFree "day" [1] rfl "night" [2] rfl
  exact absurd shared (by decide +kernel)

end ManagerState

end VllmAmpere
