import VllmAmpere.BlockPoolRefs

/-! The reference invariant of one pool: the free queue holds exactly the blocks
nobody references, and reference counts are the references handed out. Every
operation keeps it, and none of them raises on references that exist. -/

open List

namespace VllmAmpere

namespace BlockPool

/-- The free queue is `free` and the references in use are `refs`; the null block
takes no part. -/
structure RefInv (p : BlockPool) (refs : BlockId → Nat) (free : List BlockId) : Prop where
  queue : p.freeBlockQueue.Represents free
  mem_free : ∀ b, b ∈ free ↔ b < p.numGpuBlocks ∧ b ≠ p.nullBlock ∧ (p.blocks b).refCnt = 0
  refCnt : ∀ b < p.numGpuBlocks, b ≠ p.nullBlock → (p.blocks b).refCnt = refs b
  isNull : ∀ b, (p.blocks b).isNull = true ↔ b = p.nullBlock
  null_lt : p.nullBlock < p.numGpuBlocks

variable {p q : BlockPool} {refs : BlockId → Nat} {free : List BlockId}

section

variable (inv : RefInv p refs free)
include inv

theorem RefInv.sameRefs (same : SameRefs p q) :
    RefInv q refs free where
  queue := by
    rw [same.queue]
    exact inv.queue
  mem_free b := by
    rw [same.refCnt, same.config]
    simpa using inv.mem_free b
  refCnt b hb hn := by
    rw [same.config] at hb hn
    rw [same.refCnt]
    simpa using inv.refCnt b hb hn
  isNull b := by
    rw [same.isNull, same.config]
    exact inv.isNull b
  null_lt := by
    rw [same.config]
    exact inv.null_lt

theorem RefInv.congr {refs' : BlockId → Nat}
    (same : ∀ b, b ≠ p.nullBlock → refs b = refs' b) : RefInv p refs' free :=
  ⟨inv.queue, inv.mem_free, fun b hb hn => by rw [inv.refCnt b hb hn, same b hn],
    inv.isNull, inv.null_lt⟩

theorem RefInv.isNull_false {b : BlockId} :
    (p.blocks b).isNull = false ↔ b ≠ p.nullBlock := by
  rw [ne_eq, ← inv.isNull, Bool.not_eq_true]

theorem RefInv.numFree : p.getNumFreeBlocks = free.length :=
  inv.queue.count

theorem RefInv.count : free.length + ((List.range p.numGpuBlocks).filter
    fun b => b ≠ p.nullBlock ∧ 0 < (p.blocks b).refCnt).length + 1 = p.numGpuBlocks := by
  have perm : (free ++ (List.range p.numGpuBlocks).filter
      (fun b => b ≠ p.nullBlock ∧ 0 < (p.blocks b).refCnt) ++ [p.nullBlock]).Perm
      (List.range p.numGpuBlocks) := by
    have zero (b : BlockId) : b ∈ free → ¬ 0 < (p.blocks b).refCnt := fun hb => by
      have := ((inv.mem_free b).mp hb).2.2
      omega
    have notNull (b : BlockId) : b ∈ free → b ≠ p.nullBlock := fun hb =>
      ((inv.mem_free b).mp hb).2.1
    refine (perm_ext_iff_of_nodup ?_ nodup_range).mpr fun b => ?_
    · refine nodup_append.mpr ⟨nodup_append.mpr ⟨inv.queue.nodup,
        nodup_range.filter _, ?_⟩, nodup_singleton _, ?_⟩
      · rintro b hb c hc rfl
        simp only [mem_filter, decide_eq_true_eq] at hc
        exact zero b hb hc.2.2
      · rintro b hb c hc rfl
        rw [mem_singleton] at hc
        rcases mem_append.mp hb with hb | hb
        · exact notNull b hb hc
        · simp only [mem_filter, decide_eq_true_eq] at hb
          exact hb.2.1 hc
    · simp only [mem_append, inv.mem_free, mem_filter, mem_range,
        decide_eq_true_eq, mem_singleton]
      constructor
      · rintro ((h | h) | h)
        · exact h.1
        · exact h.1
        · exact h ▸ inv.null_lt
      · intro hb
        by_cases hn : b = p.nullBlock
        · exact .inr hn
        · have := inv.refCnt b hb hn
          by_cases hz : (p.blocks b).refCnt = 0
          · exact .inl (.inl ⟨hb, hn, hz⟩)
          · exact .inl (.inr ⟨hb, hn, by omega⟩)
  have total := perm.length_eq
  rwa [length_append, length_append, length_singleton, length_range] at total

theorem getNewBlocks_ok {n : Nat} (hn : n ≤ free.length) :
    ∃ q, p.getNewBlocks n = .ok (free.take n, q) ∧
    RefInv q (fun b => refs b + (free.take n).count b) (free.drop n) ∧
    q.toBlockPoolConfig = p.toBlockPoolConfig := by
  have len : (free.take n).length = n := by simp [hn]
  have whole : p.freeBlockQueue.Represents (free.take n ++ free.drop n) := by
    rw [take_append_drop]
    exact inv.queue
  have ⟨queue, hq, rep⟩ := FreeKVCacheBlockQueue.popleftN_ok whole
  rw [len] at hq
  obtain ⟨r, hr⟩ : ∃ r, r = { p with freeBlockQueue := queue }.notifyReuse (free.take n) :=
    ⟨_, rfl⟩
  have same : SameRefs { p with freeBlockQueue := queue } r := by
    rw [hr]
    exact sameRefs_notifyReuse _ _
  have nodup : (free.take n ++ free.drop n).Nodup := by simpa using inv.queue.nodup
  have parts := nodup_append.mp nodup
  have ⟨q, taken, shift⟩ := takeBlocks_ok (free.take n) r parts.1 fun b hb => by
    rw [same.refCnt]
    simpa using ((inv.mem_free b).mp (mem_of_mem_take hb)).2.2
  have both := RefShift.trans same shift
  have refCnt (b : BlockId) :
      (q.blocks b).refCnt = (p.blocks b).refCnt + ((free.take n).count b : Int) := by
    simpa using both.refCnt b
  refine ⟨q, ?_, ?_, both.config⟩
  · have enough : ¬ (n : Int) > p.getNumFreeBlocks := by
      rw [inv.numFree]
      omega
    simp only [getNewBlocks, if_neg enough]
    exact bind_eq_ok.mpr ⟨_, hq, bind_eq_ok.mpr ⟨q, hr ▸ taken, rfl⟩⟩
  · constructor
    · rw [both.queue]
      exact rep
    · intro b
      rw [both.config, refCnt]
      have hfree := inv.mem_free b
      have split : b ∈ free ↔ b ∈ free.take n ∨ b ∈ free.drop n := by
        rw [← mem_append, take_append_drop]
      have apart : b ∈ free.take n → b ∉ free.drop n := fun h k => parts.2.2 b h b k rfl
      by_cases ht : b ∈ free.take n
      · have := count_pos_iff.mpr ht
        have := (hfree.mp (split.mpr (.inl ht))).2.2
        constructor
        · exact fun h => absurd h (apart ht)
        · rintro ⟨_, _, h⟩
          omega
      · have hz := count_eq_zero_of_not_mem ht
        rw [hz]
        simp only [ht, false_or] at split
        rw [← split, hfree]
        simp
    · intro b hb hnull
      rw [both.config] at hb hnull
      rw [refCnt, inv.refCnt b hb hnull]
      push_cast
      rfl
    · intro b
      rw [both.isNull, both.config]
      exact inv.isNull b
    · rw [both.config]
      exact inv.null_lt

theorem getNewBlocks_error {n : Nat} (hn : free.length < n) :
    p.getNewBlocks n = .error (.value s!"Cannot get {n} free blocks from the pool") := by
  have short : (n : Int) > p.getNumFreeBlocks := by
    rw [inv.numFree]
    omega
  simp only [getNewBlocks, if_pos short]

/-- A queue that lost or gained `d` references, and the blocks freed with them. -/
theorem RefInv.release (bs front back : List BlockId)
    (shift : RefShift p q fun b => -(bs.count b : Int))
    (enough : ∀ b, b ≠ p.nullBlock → bs.count b ≤ refs b)
    (valid : ∀ b ∈ bs, b < p.numGpuBlocks)
    (count : ∀ b, (front ++ back).count b =
      if (p.blocks b).isNull = false then lastRef (p.blocks b).refCnt bs b else 0) :
    (front ++ free ++ back).Nodup ∧ ∀ queue : FreeKVCacheBlockQueue,
      queue.Represents (front ++ free ++ back) →
        RefInv { q with freeBlockQueue := queue } (fun b => refs b - bs.count b)
          (front ++ free ++ back) := by
  have released (b : BlockId) : b ∈ front ++ back ↔
      b ≠ p.nullBlock ∧ b ∈ bs ∧ (p.blocks b).refCnt = bs.count b := by
    rw [← count_pos_iff, count, lastRef, ← inv.isNull_false]
    split
    · split <;> simp [*]
    · simp [*]
  have perm : (front ++ free ++ back).Perm (free ++ (front ++ back)) := by
    rw [append_assoc]
    refine (perm_append_comm_assoc front free back)
  have apart (b : BlockId) : b ∈ free → b ∉ front ++ back := by
    intro hf hr
    have hz := ((inv.mem_free b).mp hf).2.2
    have hr := (released b).mp hr
    have := count_pos_iff.mpr hr.2.1
    omega
  have once : (front ++ back).Nodup := by
    refine nodup_iff_count_le_one.mpr fun b => ?_
    rw [count, lastRef]
    split <;> [split; skip] <;> omega
  refine ⟨?_, fun queue rep => ?_⟩
  · rw [perm.nodup_iff]
    exact nodup_append.mpr ⟨inv.queue.nodup, once, fun b hb c hc e => apart b hb (e ▸ hc)⟩
  · constructor
    · exact rep
    · intro b
      rw [perm.mem_iff, mem_append, released, inv.mem_free]
      simp only [shift.config, shift.refCnt]
      constructor
      · rintro (⟨hb, hn, hz⟩ | ⟨hn, hb, hc⟩)
        · have hbs : b ∉ bs := by
            intro hbs
            have := enough b hn
            have := inv.refCnt b hb hn
            have := count_pos_iff.mpr hbs
            omega
          exact ⟨hb, hn, by rw [hz, count_eq_zero_of_not_mem hbs]; rfl⟩
        · exact ⟨valid b hb, hn, by omega⟩
      · rintro ⟨hb, hn, hz⟩
        by_cases hbs : b ∈ bs
        · exact .inr ⟨hn, hbs, by omega⟩
        · rw [count_eq_zero_of_not_mem hbs] at hz
          exact .inl ⟨hb, hn, by simpa using hz⟩
    · intro b hb hn
      simp only [shift.config] at hb hn
      simp only [shift.refCnt]
      have := inv.refCnt b hb hn
      have := enough b hn
      omega
    · intro b
      simp only [shift.isNull, shift.config]
      exact inv.isNull b
    · simp only [shift.config]
      exact inv.null_lt

theorem RefInv.enough {bs : List BlockId}
    (enough : ∀ b, b ≠ p.nullBlock → bs.count b ≤ refs b)
    (valid : ∀ b ∈ bs, b < p.numGpuBlocks) (b : BlockId) (hb : b ∈ bs)
    (hn : (p.blocks b).isNull = false) : (bs.count b : Int) ≤ (p.blocks b).refCnt := by
  have hn := inv.isNull_false.mp hn
  rw [inv.refCnt b (valid b hb) hn]
  exact_mod_cast enough b hn

theorem freeOwnBlocks_ok (bs : List BlockId)
    (enough : ∀ b, b ≠ p.nullBlock → bs.count b ≤ refs b) (valid : ∀ b ∈ bs, b < p.numGpuBlocks) :
    ∃ q free', p.freeOwnBlocks bs = .ok q ∧ RefInv q (fun b => refs b - bs.count b) free' ∧
    q.toBlockPoolConfig = p.toBlockPoolConfig := by
  have shift := freeLoop_shift bs p
  have count := freeLoop_count bs p (inv.enough enough valid)
  rcases hl : freeLoop bs p with ⟨⟨first, last⟩, q⟩
  rw [hl] at shift count
  have ⟨nodup, rest⟩ := inv.release bs first last shift enough valid count
  have ⟨queue, hq, rep⟩ := FreeKVCacheBlockQueue.prependN_ok inv.queue
    (nodup_append.mp nodup).1
  have ⟨queue', hq', rep'⟩ := FreeKVCacheBlockQueue.appendN_ok rep nodup
  refine ⟨{ q with freeBlockQueue := queue' }, _, ?_, rest queue' rep', shift.config⟩
  simp only [freeOwnBlocks, hl]
  exact bind_eq_ok.mpr ⟨queue, shift.queue ▸ hq, bind_eq_ok.mpr ⟨queue', hq', rfl⟩⟩

theorem unpinBlocks_ok {bs : List BlockId} (onReuse : Watcher)
    (enough : ∀ b, b ≠ p.nullBlock → bs.count b ≤ refs b)
    (valid : ∀ b ∈ bs, b < p.numGpuBlocks) (nonnull : ∀ b ∈ bs, b ≠ p.nullBlock) :
    ∃ q free', p.unpinBlocks bs onReuse = .ok q ∧ RefInv q (fun b => refs b - bs.count b) free' ∧
    q.toBlockPoolConfig = p.toBlockPoolConfig := by
  have live (b : BlockId) (hb : b ∈ bs) : (p.blocks b).isNull = false :=
    inv.isNull_false.mpr (nonnull b hb)
  obtain ⟨released, q, hq, shift, count⟩ := unpinLoop_ok onReuse bs p live fun b hb =>
    inv.enough enough valid b hb (live b hb)
  obtain ⟨nodup, rest⟩ := inv.release bs [] released shift enough valid fun b => by
    rw [nil_append, count]
    by_cases hb : b ∈ bs
    · rw [if_pos (live b hb)]
    · rw [lastRef, if_neg (fun h => hb h.1), ite_self]
  rw [nil_append] at nodup rest
  obtain ⟨queue, happ, rep⟩ := FreeKVCacheBlockQueue.appendN_ok inv.queue nodup
  refine ⟨{ q with freeBlockQueue := queue }, _, ?_, rest queue rep, shift.config⟩
  exact bind_eq_ok.mpr ⟨_, hq, bind_eq_ok.mpr ⟨queue, shift.queue ▸ happ, rfl⟩⟩

/-- One round of `touch`: a free block leaves the queue, wherever it stands. -/
theorem RefInv.touch_one {b : BlockId} (hb : b < p.numGpuBlocks) :
    ∃ queue free', (if (p.blocks b).refCnt = 0 ∧ !(p.blocks b).isNull then
        p.freeBlockQueue.remove b else .ok p.freeBlockQueue) = .ok queue ∧
      RefInv ({ p with freeBlockQueue := queue }.setBlock b
        { p.blocks b with refCnt := (p.blocks b).refCnt + 1 })
        (fun c => refs c + if c = b then 1 else 0) free' := by
  have isNull (queue : FreeKVCacheBlockQueue) (c : BlockId) :
      ((({ p with freeBlockQueue := queue }.setBlock b
        { p.blocks b with refCnt := (p.blocks b).refCnt + 1 }).blocks c).isNull = true) ↔
        c = p.nullBlock := by
    rw [setBlock_blocks, ← inv.isNull]
    split <;> simp [*]
  have refCnt (queue : FreeKVCacheBlockQueue) (c : BlockId) (hc : c < p.numGpuBlocks)
      (hn : c ≠ p.nullBlock) : (({ p with freeBlockQueue := queue }.setBlock b
        { p.blocks b with refCnt := (p.blocks b).refCnt + 1 }).blocks c).refCnt =
          ((refs c + if c = b then 1 else 0 : Nat) : Int) := by
    have := inv.refCnt c hc hn
    rw [setBlock_blocks]
    by_cases hcb : c = b
    · subst hcb
      simp only [if_true]
      omega
    · simp only [hcb, if_false]
      omega
  by_cases hfree : b ∈ free
  · have unused := (inv.mem_free b).mp hfree
    have ⟨front, back, split⟩ := append_of_mem hfree
    have ⟨queue, hq, rep⟩ := FreeKVCacheBlockQueue.remove_ok (split ▸ inv.queue)
    refine ⟨queue, front ++ back, ?_, rep, fun c => ?_, refCnt queue, isNull queue, inv.null_lt⟩
    · rw [if_pos ⟨unused.2.2, by simp [inv.isNull_false.mpr unused.2.1]⟩]
      exact hq
    · have nodup := inv.queue.nodup
      rw [split] at nodup
      have hb' := (nodup_cons.mp (nodup_middle.mp nodup)).1
      have hmem := inv.mem_free c
      rw [split, perm_middle.mem_iff, mem_cons] at hmem
      rw [setBlock_blocks]
      by_cases hcb : c = b
      · subst hcb
        simp only [hb', if_true, false_iff]
        rintro ⟨_, _, h⟩
        have := unused.2.2
        omega
      · simp only [hcb, if_false, false_or] at hmem ⊢
        exact hmem
  · refine ⟨p.freeBlockQueue, free, ?_, inv.queue, fun c => ?_, refCnt _, isNull _, inv.null_lt⟩
    · rw [if_neg]
      rintro ⟨hz, hn⟩
      simp only [Bool.not_eq_true'] at hn
      exact hfree ((inv.mem_free b).mpr ⟨hb, inv.isNull_false.mp hn, hz⟩)
    · rw [setBlock_blocks]
      by_cases hcb : c = b
      · subst hcb
        simp only [hfree, if_true, false_iff]
        rintro ⟨_, hn, h⟩
        have := inv.refCnt c hb hn
        omega
      · simp only [hcb, if_false]
        exact inv.mem_free c

end

theorem touch_ok {bs : List BlockId} (inv : RefInv p refs free)
    (valid : ∀ b ∈ bs, b < p.numGpuBlocks) :
    ∃ q free', touch bs p = .ok q ∧ RefInv q (fun b => refs b + bs.count b) free' ∧
    q.toBlockPoolConfig = p.toBlockPoolConfig := by
  induction bs generalizing p refs free with
  | nil => exact ⟨p, free, rfl, inv.congr fun _ _ => rfl, rfl⟩
  | cons b rest ih =>
    have ⟨queue, free', hq, inv'⟩ := inv.touch_one (valid b (by simp))
    have ⟨q, free'', ht, inv'', hc⟩ := ih inv' fun c hc => valid c (by simp [hc])
    refine ⟨q, free'', bind_eq_ok.mpr ⟨queue, hq, ht⟩, inv''.congr fun c _ => ?_, hc⟩
    rw [count_cons]
    simp only [beq_iff_eq, eq_comm (a := b)]
    omega

end BlockPool

end VllmAmpere
