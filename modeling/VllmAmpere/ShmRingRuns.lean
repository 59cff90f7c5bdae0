import Mathlib.Algebra.Order.BigOperators.Group.List
import VllmAmpere.ShmRingChunks
import VllmAmpere.TransitionSystem

/-! Runs of a `SingleWriterShmRingBuffer`, with allocations, frees and writes to the data of
chunks in use: no chunk shares bytes with another, as long as fewer than `ID_MAX` chunks are
in use, and with all ids in use `free_buf` hides what it has freed. -/

open List

namespace VllmAmpere.ShmRingBuffer

open RingLayout

/-- A call on the buffer; chunk data is written through the views of `access_buf`. -/
inductive Call
  | allocate (size : Int)
  | free (isFree : Nat → List UInt8 → Bool) (nbytes : Option Int)
  | write (chunk : Chunk) (address : Int) (bytes : List UInt8)

namespace RingBuffer

def kept (s : RingBuffer) (chunks : List Chunk) : List Chunk :=
  chunks.filter fun c => s.metadata.get? c.id = some c.address

def handed (size : Int) : Except ShmError (Int × Nat) → List Chunk
  | .ok (address, id) => [⟨id, address, size + MD_SIZE⟩]
  | .error _ => []

/-- A call, from one buffer and its chunks, in the order of their allocation, to the next. -/
inductive Step : RingBuffer × List Chunk → Call → RingBuffer × List Chunk → Prop
  | allocate {s : RingBuffer} {live : List Chunk} {size : Int} : Step (s, live) (.allocate size)
      ((s.allocateBuf size).2,
        (s.allocateBuf size).2.kept (live ++ handed size (s.allocateBuf size).1))
  | free {s : RingBuffer} {live : List Chunk} {isFree : Nat → List UInt8 → Bool}
      {nbytes : Option Int} : Step (s, live) (.free isFree nbytes)
      ((s.freeBuf isFree nbytes).2, (s.freeBuf isFree nbytes).2.kept live)
  | write {s : RingBuffer} {live : List Chunk} {chunk : Chunk} {address : Int}
      {bytes : List UInt8} (used : chunk ∈ live)
      (low : chunk.address % s.dataBufferSize + MD_SIZE ≤ address)
      (high : address + bytes.length ≤ chunk.address % s.dataBufferSize + chunk.size) :
      Step (s, live) (.write chunk address bytes) (s.write address bytes, live)

def runs : TransitionSystem (RingBuffer × List Chunk) Call where
  init s := ∃ size buf, 0 < size ∧ s = (create size buf, [])
  step := Step

/-- No chunk shares a byte with another, and start and end cover them all. -/
structure Safe (s : RingBuffer) (live : List Chunk) : Prop where
  apart : live.Pairwise fun c d => Apart (s.room c) (s.room d)
  inside : ∀ c ∈ live, 0 ≤ (s.room c).1 ∧ 0 < c.size ∧ (s.room c).1 + c.size ≤ s.dataBufferSize
  bounded : s.dataBufferStart ≤ s.dataBufferEnd ∧
    s.dataBufferEnd - s.dataBufferStart ≤ s.dataBufferSize
  covers : ∀ c ∈ live, ∀ p, (s.room c).1 ≤ p → p < (s.room c).1 + c.size →
    ∃ v, s.dataBufferStart ≤ v ∧ v < s.dataBufferEnd ∧ v % s.dataBufferSize = p
  known : s.metadata.items = live.map Chunk.entry
  own : ∀ c ∈ live, (s.accessBuf c.address).2 = ((c.id : Int), c.size)

/-- `free_buf` takes the oldest chunks away and returns their ids. -/
def FreesInOrder (s : RingBuffer) (live : List Chunk) (isFree : Nat → List UInt8 → Bool)
    (nbytes : Option Int) : Prop :=
  ∃ k, (s.freeBuf isFree nbytes).1 = (live.take k).map Chunk.id ∧
    (s.freeBuf isFree nbytes).2.metadata.items = (live.drop k).map Chunk.entry

/-- `allocate_buf` refuses the size, for its sign, its four bytes or the room it takes. -/
def Refused (s : RingBuffer) (size : Int) : Prop :=
  size ≤ 0 ∨ (2 ^ 31 : Int) ≤ size + MD_SIZE ∨ s.dataBufferSize <
    s.bufferEndReset (size + MD_SIZE) + (size + MD_SIZE) - s.dataBufferStart

/-- The condition under which the ids tell the chunks apart: an allocation finds an unused id,
and a call of `free_buf` with all ids in use leaves a chunk. -/
def IdsLast (s : RingBuffer × List Chunk) : Call → Prop
  | .allocate size => s.1.metadata.len < ID_MAX ∨ Refused s.1 size
  | .free isFree nbytes => s.1.metadata.len < ID_MAX ∨
    (∃ c ∈ s.2, isFree c.id (s.1.data c) = false) ∨
    nbytes.getD s.1.dataBufferSize ≤ (s.2.dropLast.map Chunk.size).sum
  | .write _ _ _ => True

variable {s : RingBuffer} {live : List Chunk}

theorem Sound.safe (h : Sound s live) : Safe s live where
  apart := h.apart
  inside := fun c mem => ⟨Int.emod_nonneg _ h.size_pos.ne', (h.piece_within mem).2.1, h.fits c mem⟩
  bounded := ⟨Int.sub_nonneg.mp h.laid.le, h.short⟩
  covers := fun c mem p low high => by
    obtain ⟨nonneg, -, last⟩ := h.piece_within mem
    have fits := h.fits c mem
    have pos := Int.emod_nonneg c.address h.size_pos.ne'
    refine ⟨s.dataBufferStart + offset s.dataBufferSize s.dataBufferStart c.address +
      (p - c.address % s.dataBufferSize), ?_, ?_, ?_⟩
    · simp only [room] at low
      omega
    · simp only [room] at high
      omega
    · simp only [room] at low high
      rw [← Int.emod_add_emod, start_add_offset, add_sub_cancel,
        Int.emod_eq_of_lt (by omega) (by omega)]
  known := h.known
  own := h.own

theorem Sound.kept_all (h : Sound s live) {chunks : List Chunk} (sub : ∀ c ∈ chunks, c ∈ live) :
    s.kept chunks = chunks :=
  filter_eq_self.mpr fun c mem => decide_eq_true (h.get?_eq.mpr ⟨c, sub c mem, rfl⟩)

theorem Sound.kept_drop {t : RingBuffer} (h : Sound s live) {k : Nat} (after : Sound t (live.drop k)) :
    t.kept live = live.drop k := by
  have gone : t.kept (live.take k) = [] := filter_eq_nil_iff.mpr fun c mem found => by
    obtain ⟨d, hd, same⟩ := after.get?_eq.mp (of_decide_eq_true found)
    have nodup := h.ids_nodup
    rw [← take_append_drop k live, map_append, nodup_append] at nodup
    exact nodup.2.2 _ (mem_map_of_mem mem) _ (mem_map_of_mem hd)
      (congrArg Prod.fst same).symm
  have split : t.kept live = t.kept (live.take k) ++ t.kept (live.drop k) := by
    rw [kept, kept, kept, ← filter_append, take_append_drop]
  rw [split, gone, after.kept_all fun _ mem => mem, nil_append]

theorem Sound.freesInOrder (h : Sound s live) {isFree : Nat → List UInt8 → Bool}
    {nbytes : Option Int} (last : IdsLast (s, live) (.free isFree nbytes)) :
    FreesInOrder s live isFree nbytes := by
  obtain ⟨k, frees, returned⟩ := h.freeBuf isFree nbytes
  refine ⟨k, ?_, frees.sound.known⟩
  have few : k < ID_MAX := by
    have bound := h.few
    have le := frees.le
    rcases last with few | ⟨c, mem, held⟩ | enough
    · rw [h.len] at few
      omega
    · rcases Nat.lt_or_ge k live.length with lt | ge
      · omega
      · have free := frees.free c (by rwa [take_of_length_le ge])
        cases held.symm.trans free
    · rcases Nat.lt_or_ge k live.length with lt | ge
      · omega
      · by_cases none : live.length = 0
        · have : 0 < ID_MAX := by decide
          omega
        · have wanted := frees.wanted (live.length - 1) (by omega)
          rw [← dropLast_eq_take, Int.zero_add] at wanted
          exact absurd enough (not_le.mpr wanted)
  rw [returned, h.freed_ids frees.le few]

theorem Refused.raises {size : Int} (h : Refused s size) (handed : Int × Nat) :
    (s.allocateBuf size).1 ≠ .ok handed := by
  intro ok
  unfold allocateBuf at ok
  split at ok
  next pos =>
    dsimp only at ok
    split at ok
    · cases ok
    next room =>
      rcases h with neg | wide | full
      · omega
      · have long : toBytes ID_NBYTES (size + MD_SIZE) = none := by
          refine if_neg fun fits => ?_
          have := (signedFits_iff.mp fits).2
          simp only [ID_NBYTES] at this
          omega
        unfold place at ok
        dsimp only at ok
        split at ok
        · cases ok
        · rw [long] at ok
          cases ok
      · exact room full
  · cases ok

theorem Sound.step {call : Call} {t : RingBuffer × List Chunk} (h : Sound s live)
    (last : IdsLast (s, live) call) (step : Step (s, live) call t) : Sound t.1 t.2 := by
  cases step with
  | allocate =>
    rename_i size
    have few : ∀ handed, (s.allocateBuf size).1 = .ok handed → live.length < ID_MAX := by
      intro handed ok
      rcases last with few | refused
      · rwa [← h.len]
      · exact absurd ok (refused.raises handed)
    rcases h.allocateBuf size few with ⟨e, raised, sound⟩ | ⟨address, id, ok, sound⟩
    · rw [raised, handed, append_nil]
      dsimp only
      rw [sound.kept_all fun _ mem => mem]
      exact sound
    · rw [ok, handed]
      dsimp only
      rw [sound.kept_all fun _ mem => mem]
      exact sound
  | free =>
    obtain ⟨k, frees, -⟩ := h.freeBuf _ _
    dsimp only
    rw [h.kept_drop frees.sound]
    exact frees.sound
  | write used low high => exact h.write used low high

theorem reachable_sound {s : RingBuffer × List Chunk} (h : (runs.meeting IdsLast).Reachable s) :
    Sound s.1 s.2 := by
  refine h.invariant (P := fun s => Sound s.1 s.2) ?_ ?_
  · rintro s ⟨size, buf, pos, rfl⟩
    exact .created pos buf
  · rintro ⟨s, live⟩ call t - sound ⟨last, step⟩
    exact sound.step last step

/-- Where the ids tell the chunks apart, no live memory is handed out, whatever is freed is
the oldest, and an allocation without room changes nothing. -/
theorem reachable_guarded (h : (runs.meeting IdsLast).Reachable (s, live)) : Safe s live ∧
    (∀ size, (s.allocateBuf size).1 = .error .memory → (s.allocateBuf size).2 = s) ∧
    ∀ isFree nbytes, IdsLast (s, live) (.free isFree nbytes) →
    FreesInOrder s live isFree nbytes := by
  have sound := reachable_sound h
  exact ⟨sound.safe, fun size raised => Sound.allocateBuf_memory raised,
    fun isFree nbytes last => sound.freesInOrder last⟩

section Filled

/-- `k` chunks of one byte of data, in a buffer that `ID_MAX` of them fill. -/
structure Filled (s : RingBuffer) (live : List Chunk) (k : Nat) : Prop where
  reached : (runs.meeting IdsLast).Reachable (s, live)
  size : s.dataBufferSize = 9 * ID_MAX
  start : s.dataBufferStart = 0
  stop : s.dataBufferEnd = 9 * k
  count : live.length = k

theorem Filled.next {k : Nat} (h : Filled s live k) (few : k < ID_MAX) :
    ∃ t chunks, Filled t chunks (k + 1) := by
  have sound : Sound s live := reachable_sound h.reached
  have last : IdsLast (s, live) (.allocate 1) := by
    rw [IdsLast, sound.len, h.count]
    exact .inl few
  have reset : s.bufferEndReset 9 = s.dataBufferEnd := by
    unfold bufferEndReset
    rw [h.size, h.stop, Int.emod_eq_of_lt (by omega) (by omega), if_neg (by omega)]
  have id_lt : s.monotonicIdEnd < ID_MAX := by
    rw [sound.idEnd]
    exact Nat.mod_lt _ (by decide)
  obtain ⟨idBytes, wrote⟩ : ∃ bytes, toBytes ID_NBYTES s.monotonicIdEnd = some bytes :=
    toBytes_isSome (by simp only [ID_NBYTES, ID_MAX] at *; omega)
  obtain ⟨sizeBytes, wrote'⟩ : ∃ bytes, toBytes ID_NBYTES 9 = some bytes :=
    toBytes_isSome (by decide)
  have placed : (s.allocateBuf 1).1 = .ok (s.dataBufferEnd, s.monotonicIdEnd) ∧
      (s.allocateBuf 1).2.dataBufferSize = s.dataBufferSize ∧
      (s.allocateBuf 1).2.dataBufferStart = s.dataBufferStart ∧
      (s.allocateBuf 1).2.dataBufferEnd = s.dataBufferEnd + 9 := by
    have room : ¬s.dataBufferEnd + 9 - s.dataBufferStart > s.dataBufferSize := by
      rw [h.size, h.start, h.stop]
      omega
    unfold allocateBuf
    rw [if_pos (by decide), show (1 : Int) + MD_SIZE = 9 from rfl, reset]
    dsimp only
    rw [if_neg room]
    unfold place
    dsimp only
    rw [wrote]
    dsimp only
    rw [wrote']
    exact ⟨rfl, rfl, rfl, rfl⟩
  obtain ⟨ok, size, start, stop⟩ := placed
  have step : Step (s, live) (.allocate 1) _ := .allocate
  have after := sound.step last step
  have all : (s.allocateBuf 1).2.kept (live ++ handed 1 (s.allocateBuf 1).1) =
      live ++ [⟨s.monotonicIdEnd, s.dataBufferEnd, 1 + MD_SIZE⟩] := by
    rcases sound.allocateBuf 1 (fun _ _ => by rw [h.count]; exact few) with ⟨e, raised, -⟩ |
      ⟨address, id, handed', sound'⟩
    · cases raised.symm.trans ok
    · cases Except.ok.inj (handed'.symm.trans ok)
      rw [ok, handed]
      exact sound'.kept_all fun _ mem => mem
  refine ⟨_, _, .step h.reached ⟨last, step⟩, size.trans h.size, start.trans h.start, ?_, ?_⟩
  · rw [stop, h.stop]
    omega
  · rw [all, length_append, h.count, length_singleton]

theorem exists_filled {k : Nat} (few : k ≤ ID_MAX) : ∃ s live, Filled s live k := by
  induction k with
  | zero =>
    have pos : (0 : Int) < 9 * ID_MAX := by decide
    exact ⟨create (9 * ID_MAX) fun _ => 0, [], .init ⟨_, _, pos, rfl⟩, rfl, rfl, rfl, rfl⟩
  | succ k ih =>
    obtain ⟨s, live, filled⟩ := ih (Nat.le_of_succ_le few)
    exact filled.next few

/-- With all ids in use, a call that frees every chunk returns none of their ids. -/
theorem freed_ids_hidden : ∃ s live, runs.Reachable (s, live) ∧ live.length = ID_MAX ∧
    (s.freeBuf (fun _ _ => true) none).1 = [] ∧
    (s.freeBuf (fun _ _ => true) none).2.metadata.items = [] ∧
    ¬FreesInOrder s live (fun _ _ => true) none := by
  obtain ⟨s, live, filled⟩ := exists_filled le_rfl
  have sound : Sound s live := reachable_sound filled.reached
  obtain ⟨k, frees, returned⟩ := sound.freeBuf (fun _ _ => true) none
  have le := frees.le
  have all : k = live.length := by
    rcases Nat.lt_or_ge k live.length with lt | ge
    · rcases frees.stops _ (getElem?_eq_getElem lt) with held | enough
      · cases held
      · have laid := sound.laid.sum_le
        have behind : (s.pieces live).map Prod.snd = live.map Chunk.size := by
          rw [pieces, map_map]
          rfl
        have split : (live.map Chunk.size).sum =
            ((live.take k).map Chunk.size).sum + ((live.drop k).map Chunk.size).sum := by
          rw [← sum_append, ← map_append, take_append_drop]
        have one := sound.sized _ (getElem_mem lt)
        have rest : 0 ≤ ((live.drop (k + 1)).map Chunk.size).sum :=
          sum_nonneg fun n mem => by
            obtain ⟨c, hc, rfl⟩ := mem_map.mp mem
            exact (sound.piece_within (mem_of_mem_drop hc)).2.1.le
        rw [drop_eq_getElem_cons lt, map_cons, sum_cons] at split
        have short := sound.short
        rw [behind] at laid
        simp only [MD_SIZE, Option.getD_none] at *
        omega
    · omega
  have none : (s.freeBuf (fun _ _ => true) none).1 = [] := by
    rw [returned, all, filled.count, Nat.add_mod_right, Nat.mod_eq_of_lt sound.idStart, idRange,
      if_pos le_rfl, Nat.sub_self]
    rfl
  have freed : (s.freeBuf (fun _ _ => true) Option.none).2.metadata.items = [] := by
    rw [frees.sound.known, all, drop_length]
    rfl
  refine ⟨s, live, filled.reached.of_meeting, filled.count, none, freed, ?_⟩
  rintro ⟨j, ids, items⟩
  have full : live.length = ID_MAX := filled.count
  have many : 0 < ID_MAX := by decide
  have taken := congrArg List.length (none.symm.trans ids)
  have left := congrArg List.length (freed.symm.trans items)
  simp only [length_nil, length_map, length_take, length_drop] at taken left
  omega

/-- With one chunk in use, `free_buf` returns its id. -/
theorem reachable_guarded_filled : ∃ s live, live.length = 1 ∧ Safe s live ∧
    FreesInOrder s live (fun _ _ => true) none := by
  obtain ⟨s, live, filled⟩ := exists_filled (show 1 ≤ ID_MAX by decide)
  have last : IdsLast (s, live) (.free (fun _ _ => true) none) := by
    have sound : Sound s live := reachable_sound filled.reached
    refine .inl ?_
    rw [sound.len, filled.count]
    decide
  obtain ⟨safe, -, frees⟩ := reachable_guarded filled.reached
  exact ⟨s, live, filled.count, safe, frees _ _ last⟩

end Filled

end RingBuffer

end VllmAmpere.ShmRingBuffer
