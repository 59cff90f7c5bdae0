import Mathlib.Algebra.Group.Pi.Basic
import VllmAmpere.BlockPool

/-! What each operation of the block pool does to reference counts and to the
free queue. Prefix cache bookkeeping does nothing to either. -/

open List

namespace VllmAmpere

namespace BlockPool

variable (p : BlockPool)

@[simp] theorem setBlock_blocks (b c : BlockId) (block : KVCacheBlock) :
    (p.setBlock b block).blocks c = if c = b then block else p.blocks c := by
  simp [setBlock, Function.update_apply]

/-- `q` is `p` with the reference counts moved by `d`: same configuration, same
free queue, same null block. -/
structure RefShift (p q : BlockPool) (d : BlockId → Int) : Prop where
  config : q.toBlockPoolConfig = p.toBlockPoolConfig
  queue : q.freeBlockQueue = p.freeBlockQueue
  refCnt : ∀ b, (q.blocks b).refCnt = (p.blocks b).refCnt + d b
  isNull : ∀ b, (q.blocks b).isNull = (p.blocks b).isNull

/-- Neither a reference count nor the free queue changed. -/
abbrev SameRefs (p q : BlockPool) : Prop := RefShift p q 0

theorem SameRefs.refl : SameRefs p p :=
  ⟨rfl, rfl, fun _ => (add_zero _).symm, fun _ => rfl⟩

theorem RefShift.trans {p q r : BlockPool} {d e : BlockId → Int} (h : RefShift p q d)
    (k : RefShift q r e) : RefShift p r (d + e) where
  config := k.config.trans h.config
  queue := k.queue.trans h.queue
  refCnt b := by rw [k.refCnt, h.refCnt, Pi.add_apply, add_assoc]
  isNull b := (k.isNull b).trans (h.isNull b)

theorem SameRefs.trans {p q r : BlockPool} (h : SameRefs p q) (k : SameRefs q r) :
    SameRefs p r := by
  have both := RefShift.trans h k
  rwa [add_zero] at both

theorem sameRefs_remove (b : BlockId) :
    SameRefs p (p.removeCachedBlockHashes b).2 := by
  unfold removeCachedBlockHashes
  simp only
  split
  · exact ⟨rfl, rfl, fun _ => (add_zero _).symm, fun _ => rfl⟩
  · refine ⟨rfl, rfl, fun c => ?_, fun c => ?_⟩ <;> rw [setBlock_blocks] <;> split <;>
      simp [*, KVCacheBlock.resetHash]

theorem sameRefs_emit (keys : List BlockHashWithGroupId) :
    SameRefs p (p.emitBlockRemovedEvents keys) := by
  unfold emitBlockRemovedEvents
  split <;> exact ⟨rfl, rfl, fun _ => (add_zero _).symm, fun _ => rfl⟩

theorem sameRefs_evictHashes (b : BlockId) : SameRefs p (p.evictHashes b) :=
  (sameRefs_remove p b).trans (sameRefs_emit _ _)

theorem maybeEvict_eq (b : BlockId) :
    (p.maybeEvictCachedBlock b).2 = p.evictHashes b := by
  simp only [maybeEvictCachedBlock, evictHashes]
  split
  · rename_i hnil
    simp [emitBlockRemovedEvents, hnil]
  · rfl

variable {key : BlockHashWithGroupId} {b : BlockId} {numTokens : Option Nat}

theorem sameRefs_recordHash {p q : BlockPool}
    (h : p.recordHash key b numTokens = .ok q) : SameRefs p q := by
  unfold recordHash at h
  split at h
  · have ⟨block, hb, h⟩ := bind_eq_ok.mp h
    have ⟨_, _, hb⟩ := bind_eq_ok.mp hb
    cases hb
    cases h
    refine ⟨rfl, rfl, fun c => ?_, fun c => ?_⟩ <;> simp only [setBlock_blocks] <;> split <;>
      simp [*]
  · cases h
    exact ⟨rfl, rfl, fun _ => (add_zero _).symm, fun _ => rfl⟩

theorem sameRefs_insert {p q : BlockPool}
    (h : p.insertBlockHash key b numTokens = .ok q) : SameRefs p q := by
  unfold insertBlockHash at h
  split at h
  · cases h
    exact SameRefs.refl _
  · split at h
    · cases h
      exact SameRefs.refl _
    · have ⟨r, hr, hq⟩ := bind_eq_ok.mp h
      cases hq
      exact (sameRefs_recordHash hr).trans ⟨rfl, rfl, fun _ => (add_zero _).symm, fun _ => rfl⟩

theorem sameRefs_cacheFullBlock {p q : BlockPool}
    {n : Nat} (h : p.cacheFullBlock b key n = .ok q) : SameRefs p q := by
  obtain ⟨r, hr, hq⟩ := bind_eq_ok.mp h
  refine SameRefs.trans ?_ (sameRefs_insert hq)
  split at hr
  · obtain ⟨_, _, hr⟩ := bind_eq_ok.mp hr
    cases hr
    exact sameRefs_evictHashes p b
  · cases hr
    exact SameRefs.refl _

theorem sameRefs_cacheFullLoop {hashes : List BlockHash} {mask : Option (List Bool)}
    {numCached blockSize group : Nat} (blocks : List BlockId) (i : Nat) {p q : BlockPool}
    {new : List BlockHash}
    (h : cacheFullLoop hashes mask numCached blockSize group blocks i p = .ok (new, q)) :
    SameRefs p q := by
  induction blocks generalizing i p new with
  | nil =>
    cases h
    exact SameRefs.refl _
  | cons blk rest ih =>
    unfold cacheFullLoop at h
    split at h
    · exact ih (i + 1) h
    · have ⟨hash, _, h⟩ := bind_eq_ok.mp h
      have ⟨r, hr, h⟩ := bind_eq_ok.mp h
      have ⟨⟨tail, s⟩, hs, h⟩ := bind_eq_ok.mp h
      cases h
      exact (sameRefs_cacheFullBlock hr).trans (ih (i + 1) hs)

theorem sameRefs_events (events : List KVCacheEvent) :
    SameRefs p { p with kvEventQueue := events } :=
  ⟨rfl, rfl, fun _ => (add_zero _).symm, fun _ => rfl⟩

theorem sameRefs_cacheFullBlocks {p q : BlockPool} {request : Request} {blocks : List BlockId}
    {numCached numFull blockSize group : Nat} {mask : Option (List Bool)}
    (h : p.cacheFullBlocks request blocks numCached numFull blockSize group mask = .ok q) :
    SameRefs p q := by
  unfold cacheFullBlocks at h
  split at h
  · cases h
    exact SameRefs.refl _
  · obtain ⟨_, _, h⟩ := bind_eq_ok.mp h
    obtain ⟨_, _, h⟩ := bind_eq_ok.mp h
    obtain ⟨⟨new, r⟩, hr, h⟩ := bind_eq_ok.mp h
    refine SameRefs.trans (sameRefs_cacheFullLoop _ _ hr) ?_
    simp only at h
    split at h
    · obtain ⟨_, _, h⟩ := bind_eq_ok.mp h
      obtain ⟨_, _, h⟩ := bind_eq_ok.mp h
      cases h
      exact sameRefs_events r _
    · cases h
      exact SameRefs.refl _

theorem sameRefs_cachePartialBlock {p q : BlockPool} {request : Request}
    {numTokens group blockSize : Nat} {replace : Bool} {key : Option BlockHashWithGroupId}
    (h : p.cachePartialBlock request b numTokens group blockSize replace = .ok (key, q)) :
    SameRefs p q := by
  unfold cachePartialBlock at h
  split at h
  · cases h
    exact SameRefs.refl _
  · obtain ⟨_, _, h⟩ := bind_eq_ok.mp h
    obtain ⟨_, _, h⟩ := bind_eq_ok.mp h
    obtain ⟨hash, _, h⟩ := bind_eq_ok.mp h
    obtain ⟨r, hr, h⟩ := bind_eq_ok.mp h
    refine SameRefs.trans (SameRefs.trans ?_ (sameRefs_insert hr)) ?_
    · split
      · exact sameRefs_evictHashes p b
      · exact SameRefs.refl _
    · split at h
      · obtain ⟨_, _, h⟩ := bind_eq_ok.mp h
        cases h
        exact sameRefs_events r _
      · cases h
        exact SameRefs.refl _

theorem sameRefs_insertHashes {dst : BlockId} (keys : List BlockHashWithGroupId) {p q : BlockPool}
    (h : insertHashes dst numTokens keys p = .ok q) : SameRefs p q := by
  induction keys generalizing p with
  | nil =>
    cases h
    exact SameRefs.refl _
  | cons key rest ih =>
    have ⟨r, hr, h⟩ := bind_eq_ok.mp h
    exact (sameRefs_insert hr).trans (ih h)

theorem sameRefs_moveBlockHashes {p q : BlockPool} {src dst : BlockId}
    (h : p.moveBlockHashes src dst = .ok q) : SameRefs p q := by
  have ⟨_, _, h⟩ := bind_eq_ok.mp h
  have ⟨_, _, h⟩ := bind_eq_ok.mp h
  exact (sameRefs_remove p src).trans (sameRefs_insertHashes _ h)

theorem sameRefs_notifyReuse (blocks : List BlockId) :
    SameRefs p (p.notifyReuse blocks) := by
  unfold notifyReuse
  induction blocks generalizing p with
  | nil => exact SameRefs.refl _
  | cons b rest ih =>
    refine SameRefs.trans ?_ (ih _)
    exact ⟨rfl, rfl, fun _ => (add_zero _).symm, fun _ => rfl⟩

theorem sameRefs_evictBlocks (ids : List BlockId) {p q : BlockPool}
    (h : evictBlocks ids p = .ok q) : SameRefs p q := by
  induction ids generalizing p with
  | nil =>
    cases h
    exact SameRefs.refl _
  | cons b rest ih =>
    have ⟨_, _, h⟩ := bind_eq_ok.mp h
    rw [maybeEvict_eq] at h
    exact (sameRefs_evictHashes p b).trans (ih h)

theorem sameRefs_resetPrefixCache : SameRefs p p.resetPrefixCache.2 := by
  unfold resetPrefixCache
  simp only
  split
  · exact SameRefs.refl _
  · have clear : SameRefs p { p with
        cachedBlockHashToBlock := .empty
        cachedBlockHashesByBlock := fun _ => none } :=
      ⟨rfl, rfl, fun _ => (add_zero _).symm, fun _ => rfl⟩
    refine (clear.trans (sameRefs_notifyReuse _ (p.reuseWatchers.map Prod.fst))).trans ?_
    split <;> exact ⟨rfl, rfl, fun _ => (add_zero _).symm, fun _ => rfl⟩

theorem sameRefs_takeEvents : SameRefs p p.takeEvents.2 := by
  unfold takeEvents
  split <;> exact ⟨rfl, rfl, fun _ => (add_zero _).symm, fun _ => rfl⟩

theorem refShift_setBlock (b : BlockId) (n : Int) :
    RefShift p (p.setBlock b { p.blocks b with refCnt := n })
      (fun c => if c = b then n - (p.blocks b).refCnt else 0) := by
  refine ⟨rfl, rfl, fun c => ?_, fun c => ?_⟩
  · rw [setBlock_blocks]
    split
    · rename_i hc
      rw [hc]
      simp only
      omega
    · omega
  · rw [setBlock_blocks]
    split <;> simp [*]

theorem RefShift.congr {p q : BlockPool} {d e : BlockId → Int} (h : RefShift p q d)
    (hde : ∀ b, d b = e b) : RefShift p q e := by
  have same : d = e := funext hde
  rwa [← same]

variable (bs : List BlockId)

theorem takeBlocks_ok (p : BlockPool) (nodup : bs.Nodup)
    (unused : ∀ b ∈ bs, (p.blocks b).refCnt = 0) :
    ∃ q, takeBlocks bs p = .ok q ∧ RefShift p q (fun b => bs.count b) := by
  induction bs generalizing p with
  | nil => exact ⟨p, rfl, (SameRefs.refl p).congr fun _ => rfl⟩
  | cons b rest ih =>
    have hb := nodup_cons.mp nodup
    have evict : SameRefs p (if p.enableCaching then (p.maybeEvictCachedBlock b).2 else p) := by
      split
      · rw [maybeEvict_eq]
        exact sameRefs_evictHashes p b
      · exact SameRefs.refl p
    obtain ⟨r, hr⟩ : ∃ r, r = if p.enableCaching then (p.maybeEvictCachedBlock b).2 else p :=
      ⟨_, rfl⟩
    rw [← hr] at evict
    have zero : (r.blocks b).refCnt = 0 := by
      rw [evict.refCnt, unused b (by simp)]
      rfl
    have taken := refShift_setBlock r b ((r.blocks b).refCnt + 1)
    have ⟨q, hq, shift⟩ := ih (r.setBlock b { r.blocks b with refCnt := (r.blocks b).refCnt + 1 })
      hb.2 (by
        intro c hc
        have hne : c ≠ b := fun e => hb.1 (e ▸ hc)
        rw [setBlock_blocks, if_neg hne, evict.refCnt, unused c (by simp [hc])]
        rfl)
    refine ⟨q, ?_, ((RefShift.trans evict taken).trans shift).congr ?_⟩
    · simp only [takeBlocks, ← hr]
      rw [pyAssert, if_pos zero]
      exact hq
    · intro c
      simp only [Pi.add_apply, Pi.zero_apply, count_cons, zero, beq_iff_eq]
      by_cases hc : c = b
      · simp only [hc, if_true]
        push_cast
        omega
      · simp only [hc, Ne.symm hc, if_false]
        push_cast
        omega

theorem refShift_dropRef (b : BlockId) :
    RefShift p (p.dropRef b) (fun c => if c = b then -1 else 0) :=
  (refShift_setBlock p b _).congr fun c => by
    split
    · omega
    · rfl

theorem refShift_unpinBlock (onReuse : Watcher) (b : BlockId) :
    RefShift p (p.unpinBlock onReuse b) (fun c => if c = b then -1 else 0) :=
  have drop := refShift_dropRef p b
  ⟨rfl, rfl, drop.refCnt, drop.isNull⟩

theorem neg_count_cons (b c : BlockId) (rest : List BlockId) :
    (if c = b then -1 else 0) + -(rest.count c : Int) = -((b :: rest).count c : Int) := by
  rw [count_cons]
  by_cases hc : c = b
  · subst hc
    simp only [if_true, beq_self_eq_true]
    push_cast
    omega
  · simp only [hc, if_false, beq_iff_eq, Ne.symm hc]
    push_cast
    omega

/-- Whether `bs` holds the last of the `n` references to `c`, as a count. -/
def lastRef (n : Int) (bs : List BlockId) (c : BlockId) : Nat :=
  if c ∈ bs ∧ n = bs.count c then 1 else 0

theorem lastRef_cons {n : Int} {b c : BlockId} {rest : List BlockId}
    (enough : c ∈ b :: rest → ((b :: rest).count c : Int) ≤ n) : lastRef n (b :: rest) c =
    lastRef (n + if c = b then -1 else 0) rest c + if c = b ∧ n = 1 then 1 else 0 := by
  unfold lastRef
  by_cases hc : c = b
  · subst hc
    simp only [count_cons_self, mem_cons, true_or, true_and, if_true,
      forall_const] at enough ⊢
    push_cast at enough ⊢
    by_cases hmem : c ∈ rest
    · have := count_pos_iff.mpr hmem
      simp only [hmem, true_and]
      split <;> split <;> split <;> omega
    · have hz := count_eq_zero_of_not_mem hmem
      simp only [hmem, false_and, if_false, hz]
      split <;> split <;> omega
  · have same : (c ∈ b :: rest) = (c ∈ rest) := by rw [mem_cons, eq_false hc, false_or]
    rw [show (if c = b then (-1 : Int) else 0) = 0 from if_neg hc,
      show (if c = b ∧ n = 1 then 1 else 0) = 0 from if_neg fun both => hc both.1,
      Int.add_zero, Nat.add_zero, count_cons_of_ne (Ne.symm hc)]
    simp only [same]

theorem freeLoop_shift (p : BlockPool) :
    RefShift p (freeLoop bs p).2 (fun b => -(bs.count b : Int)) := by
  induction bs generalizing p with
  | nil => exact (SameRefs.refl p).congr fun _ => rfl
  | cons b rest ih =>
    have shift := ((refShift_dropRef p b).trans (ih _)).congr fun c => neg_count_cons b c rest
    simp only [freeLoop]
    split
    · split <;> exact shift
    · exact shift

theorem enough_tail {p q : BlockPool} {b : BlockId} {rest : List BlockId}
    (shift : RefShift p q fun c => if c = b then -1 else 0) {c : BlockId}
    (enough : ((b :: rest).count c : Int) ≤ (p.blocks c).refCnt) :
    (rest.count c : Int) ≤ (q.blocks c).refCnt := by
  rw [shift.refCnt]
  by_cases hc : c = b
  · subst hc
    rw [count_cons_self] at enough
    simp only [if_true]
    push_cast at enough
    omega
  · rw [count_cons_of_ne (Ne.symm hc)] at enough
    simp only [hc, if_false]
    omega

theorem freeLoop_count (p : BlockPool)
    (enough : ∀ b ∈ bs, (p.blocks b).isNull = false → (bs.count b : Int) ≤ (p.blocks b).refCnt)
    (c : BlockId) : ((freeLoop bs p).1.1 ++ (freeLoop bs p).1.2).count c =
    if (p.blocks c).isNull = false then lastRef (p.blocks c).refCnt bs c else 0 := by
  induction bs generalizing p with
  | nil => simp [freeLoop, lastRef]
  | cons b rest ih =>
    have drop := refShift_dropRef p b
    have tail := ih (p.dropRef b) fun d hd hn =>
      enough_tail drop (enough d (by simp [hd]) (by rw [← drop.isNull]; exact hn))
    rcases hrest : freeLoop rest (p.dropRef b) with ⟨⟨first, last⟩, q⟩
    rw [hrest, drop.refCnt, drop.isNull] at tail
    have head : ((freeLoop (b :: rest) p).1.1 ++ (freeLoop (b :: rest) p).1.2).count c =
        (first ++ last).count c +
          if c = b ∧ (p.blocks b).refCnt = 1 ∧ (p.blocks b).isNull = false then 1 else 0 := by
      have front : ((b :: first) ++ last).count c =
          (first ++ last).count c + if c = b then 1 else 0 := by
        rw [cons_append, count_cons]
        simp only [beq_iff_eq, eq_comm (a := b)]
      have back : (first ++ b :: last).count c =
          (first ++ last).count c + if c = b then 1 else 0 := by
        rw [perm_middle.count_eq, ← cons_append, front]
      have one : (p.blocks b).refCnt + -1 = 0 ↔ (p.blocks b).refCnt = 1 := by omega
      simp only [freeLoop, hrest, Bool.not_eq_true', drop.refCnt, drop.isNull, if_true, one]
      by_cases hq : (p.blocks b).refCnt = 1 ∧ (p.blocks b).isNull = false
      · rw [if_pos hq]
        split <;> simp only [hq, and_true, front, back]
      · rw [if_neg hq, if_neg (by tauto)]
        rfl
    rw [head, tail]
    by_cases hnull : (p.blocks c).isNull = false
    · rw [if_pos hnull, if_pos hnull, lastRef_cons (fun hc => enough c hc hnull)]
      congr 1
      by_cases hc : c = b
      · subst hc
        simp [hnull]
      · simp [hc]
    · rw [if_neg hnull, if_neg hnull, if_neg]
      rintro ⟨rfl, _, h⟩
      exact hnull h

theorem unpinLoop_ok (onReuse : Watcher) (bs : List BlockId) (p : BlockPool)
    (nonnull : ∀ b ∈ bs, (p.blocks b).isNull = false)
    (enough : ∀ b ∈ bs, (bs.count b : Int) ≤ (p.blocks b).refCnt) :
    ∃ released q, unpinLoop onReuse bs p = .ok (released, q) ∧
    RefShift p q (fun b => -(bs.count b : Int)) ∧
    ∀ c, released.count c = lastRef (p.blocks c).refCnt bs c := by
  induction bs generalizing p with
  | nil => exact ⟨[], p, rfl, (SameRefs.refl p).congr fun _ => rfl, by simp [lastRef]⟩
  | cons b rest ih =>
    have drop := refShift_unpinBlock p onReuse b
    have positive : (p.blocks b).refCnt > 0 := by
      have := enough b (by simp)
      rw [count_cons_self] at this
      push_cast at this
      omega
    have ⟨released, q, hq, shift, count⟩ := ih (p.unpinBlock onReuse b)
      (fun c hc => by rw [drop.isNull]; exact nonnull c (by simp [hc]))
      (fun c hc => enough_tail drop (enough c (by simp [hc])))
    have one : ((p.unpinBlock onReuse b).blocks b).refCnt = 0 ↔ (p.blocks b).refCnt = 1 := by
      rw [drop.refCnt]
      simp only [if_true]
      omega
    refine ⟨if (p.blocks b).refCnt = 1 then b :: released else released, q, ?_,
      (drop.trans shift).congr fun c => neg_count_cons b c rest, fun c => ?_⟩
    · simp only [unpinLoop, pyAssert, positive, nonnull b (by simp), hq, one]
      rfl
    · rw [lastRef_cons (enough c), ← drop.refCnt, ← count]
      by_cases hc : c = b
      · subst hc
        split <;> simp [*]
      · split <;> simp [hc, count_cons_of_ne (Ne.symm hc)]

end BlockPool

end VllmAmpere
