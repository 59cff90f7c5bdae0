import Mathlib.Data.List.Pairwise
import Mathlib.Data.Nat.ModEq
import VllmAmpere.RingLayout
import VllmAmpere.ShmRingBuffer

/-! The chunks in use of a `SingleWriterShmRingBuffer`, in the order of their allocation: what
holds of them and of the buffer's indices, and what each call does to them. -/

open List

namespace VllmAmpere.ShmRingBuffer

open RingLayout

/-- A chunk in use, with its metadata. -/
structure Chunk where
  id : Nat
  address : Int
  size : Int
  deriving DecidableEq

def Chunk.entry (c : Chunk) : Nat × Int := (c.id, c.address)

namespace RingBuffer

def room (s : RingBuffer) (c : Chunk) : Int × Int := (c.address % s.dataBufferSize, c.size)

/-- The data of a chunk, as `is_free_fn` is given it. -/
def data (s : RingBuffer) (c : Chunk) : List UInt8 := s.read (s.accessBuf c.address).1

def pieces (s : RingBuffer) (live : List Chunk) : List (Int × Int) :=
  live.map fun c => (offset s.dataBufferSize s.dataBufferStart c.address, c.size)

variable (start count : Nat)

def idsFrom : List Nat := (List.range count).map fun k => (start + k) % ID_MAX

theorem idsFrom_succ :
    idsFrom start (count + 1) = idsFrom start count ++ [(start + count) % ID_MAX] := by
  simp only [idsFrom, range_succ, map_append, map_cons, map_nil]

theorem idsFrom_cons :
    idsFrom start (count + 1) = start % ID_MAX :: idsFrom ((start + 1) % ID_MAX) count := by
  simp only [idsFrom, range_succ_eq_map, map_cons, map_map, Nat.add_zero]
  congr 1
  refine map_congr_left fun k _ => ?_
  rw [Function.comp_apply, Nat.mod_add_mod, Nat.succ_eq_add_one, Nat.add_comm k 1, Nat.add_assoc]

theorem mem_idsFrom_new {start count : Nat} (few : count < ID_MAX) :
    (start + count) % ID_MAX ∉ idsFrom start count := by
  intro mem
  obtain ⟨k, hk, same⟩ := mem_map.mp mem
  have := mem_range.mp hk
  have close : (count - k) % ID_MAX = 0 := by
    have : Nat.ModEq ID_MAX (start + k + (count - k)) (start + k + 0) := by
      rw [Nat.add_zero, show start + k + (count - k) = start + count by omega]
      exact same.symm
    rw [Nat.ModEq.add_left_cancel' _ this, Nat.zero_mod]
  rw [Nat.mod_eq_of_lt (by omega)] at close
  omega

theorem idRange_eq {start count : Nat} (bound : start < ID_MAX) (few : count < ID_MAX) :
    idRange start ((start + count) % ID_MAX) = idsFrom start count := by
  have counted : ∀ n m, List.range' n m = (List.range m).map fun k => n + k := fun n m => by
    rw [range_eq_range', map_add_range', Nat.add_zero]
  unfold idRange idsFrom
  generalize ID_MAX = ids at *
  by_cases wraps : start + count < ids
  · rw [Nat.mod_eq_of_lt wraps, if_pos (by omega), Nat.add_sub_cancel_left, counted]
    refine map_congr_left fun k hk => ?_
    have := mem_range.mp hk
    rw [Nat.mod_eq_of_lt (by omega)]
  · have after : (start + count) % ids = start + count - ids := by
      rw [Nat.mod_eq_sub_mod (by omega), Nat.mod_eq_of_lt (by omega)]
    rw [after, if_neg (by omega), counted, counted,
      show count = ids - start + (start + count - ids) by omega, range_add,
      map_append, map_map]
    congr 1
    · refine map_congr_left fun k hk => ?_
      have := mem_range.mp hk
      rw [Nat.mod_eq_of_lt (by omega)]
    · rw [show start + (ids - start + (start + count - ids)) - ids =
        start + count - ids by omega]
      refine map_congr_left fun k hk => ?_
      have := mem_range.mp hk
      rw [Function.comp_apply, show start + (ids - start + k) = k + ids by omega,
        Nat.add_mod_right, Nat.mod_eq_of_lt (by omega), Nat.zero_add]

/-- The chunks in use lie one behind the other from start to end, no further apart than the
buffer is long; the metadata and the ids are theirs, and each has its own id and size. -/
structure Sound (s : RingBuffer) (live : List Chunk) : Prop where
  size_pos : 0 < s.dataBufferSize
  short : s.dataBufferEnd - s.dataBufferStart ≤ s.dataBufferSize
  laid : Laid 0 (s.pieces live) (s.dataBufferEnd - s.dataBufferStart)
  fits : ∀ c ∈ live, c.address % s.dataBufferSize + c.size ≤ s.dataBufferSize
  sized : ∀ c ∈ live, MD_SIZE < c.size
  known : s.metadata.items = live.map Chunk.entry
  ids : live.map Chunk.id = idsFrom s.monotonicIdStart live.length
  idStart : s.monotonicIdStart < ID_MAX
  idEnd : s.monotonicIdEnd = (s.monotonicIdStart + live.length) % ID_MAX
  few : live.length ≤ ID_MAX
  own : ∀ c ∈ live, (s.accessBuf c.address).2 = ((c.id : Int), c.size)

namespace Sound

variable {s s' : RingBuffer} {live : List Chunk} {c : Chunk} {size : Int}

theorem created (pos : 0 < size) (buf : ByteMemory) : Sound (create size buf) [] where
  size_pos := pos
  short := by
    simp only [create]
    omega
  laid := by
    simp [create, pieces, Laid]
  fits := nofun
  sized := nofun
  known := rfl
  ids := rfl
  idStart := show 0 < ID_MAX by decide
  idEnd := rfl
  few := Nat.zero_le _
  own := nofun

theorem piece_within (h : Sound s live) (mem : c ∈ live) :
    0 ≤ offset s.dataBufferSize s.dataBufferStart c.address ∧ 0 < c.size ∧
    offset s.dataBufferSize s.dataBufferStart c.address + c.size ≤
    s.dataBufferEnd - s.dataBufferStart :=
  h.laid.within (mem_map_of_mem (f := fun c : Chunk =>
    (offset s.dataBufferSize s.dataBufferStart c.address, c.size)) mem)

theorem apart (h : Sound s live) : live.Pairwise fun c d => Apart (s.room c) (s.room d) := by
  have order := pairwise_map.mp h.laid.pairwise
  refine order.imp_of_mem fun {c d} hc hd before => ?_
  have last := (h.piece_within hd).2.2
  exact apart_of_laid h.size_pos (h.piece_within hc).2.1 before (last.trans h.short)

theorem apart_of_ne {d : Chunk} (h : Sound s live) (hc : c ∈ live) (hd : d ∈ live) (ne : c ≠ d) :
    Apart (s.room c) (s.room d) := by
  have : Std.Symm fun c d => Apart (s.room c) (s.room d) := ⟨fun _ _ => Or.symm⟩
  exact h.apart.forall hc hd ne

variable {address : Int}

section

variable (h : Sound s live)
include h

theorem get?_eq {id : Nat} :
    s.metadata.get? id = some address ↔ ∃ c ∈ live, c.entry = (id, address) := by
  rw [← s.metadata.mem_items, h.known, mem_map]

theorem len : s.metadata.len = live.length := by
  rw [PyDict.len, h.known, length_map]

theorem ids_nodup : (live.map Chunk.id).Nodup := by
  have nodup := s.metadata.nodup
  rw [h.known, map_map] at nodup
  exact nodup

theorem freed_ids {k : Nat} (le : k ≤ live.length) (few : k < ID_MAX) :
    idRange s.monotonicIdStart ((s.monotonicIdStart + k) % ID_MAX) = (live.take k).map Chunk.id := by
  rw [idRange_eq h.idStart few, map_take, h.ids, idsFrom, idsFrom, ← map_take,
    take_range, Nat.min_eq_left le]

theorem of_buf (buf : ByteMemory)
    (heads : ∀ c ∈ live, ∀ i, c.address % s.dataBufferSize ≤ i →
    i < c.address % s.dataBufferSize + MD_SIZE → buf i = s.buf i) :
    Sound { s with buf := buf } live := by
  refine { h with own := fun c mem => ?_ }
  rw [← h.own c mem]
  have head := heads c mem
  simp only [MD_SIZE] at head
  simp only [accessBuf]
  rw [ByteMemory.load_congr (m := s.buf) fun i low high => head i low (by
      simp only [ID_NBYTES] at high; omega),
    ByteMemory.load_congr (m := s.buf) fun i low high => head i (by
      simp only [ID_NBYTES] at low; omega) (by simp only [ID_NBYTES] at high; omega)]

theorem write (mem : c ∈ live) {bytes : List UInt8}
    (low : c.address % s.dataBufferSize + MD_SIZE ≤ address)
    (high : address + bytes.length ≤ c.address % s.dataBufferSize + c.size) :
    Sound (s.write address bytes) live := by
  refine h.of_buf _ fun d hd i start stop => s.buf.store_apart ?_
  have size := h.sized d hd
  by_cases same : d = c
  · subst same
    exact .inl (by omega)
  · have apart := h.apart_of_ne hd mem same
    simp only [Apart, room] at apart
    omega

theorem reset
    (room : s.bufferEndReset size + size - s.dataBufferStart ≤ s.dataBufferSize) (pos : 0 < size) :
    s.dataBufferEnd ≤ s.bufferEndReset size ∧
    s.bufferEndReset size % s.dataBufferSize + size ≤ s.dataBufferSize ∧
    Sound { s with dataBufferEnd := s.bufferEndReset size } live := by
  have nonneg := h.laid.le
  have behind : s.dataBufferEnd ≤ s.bufferEndReset size ∧
      s.bufferEndReset size % s.dataBufferSize + size ≤ s.dataBufferSize := by
    unfold bufferEndReset at room ⊢
    split at room
    next past =>
      rw [if_pos past]
      have winding := Int.lt_ediv_add_one_mul_self s.dataBufferEnd h.size_pos
      rw [Int.mul_emod_left]
      omega
    next fitting =>
      rw [if_neg fitting]
      omega
  refine ⟨behind.1, behind.2, { h with short := ?_, laid := h.laid.weaken le_rfl ?_ }⟩
  · simp only
    omega
  · have := behind.1
    simp only
    omega

section

variable (pos : 0 < size) (room : s.dataBufferEnd + size - s.dataBufferStart ≤ s.dataBufferSize)
include pos room

theorem offset_end :
    offset s.dataBufferSize s.dataBufferStart s.dataBufferEnd =
    s.dataBufferEnd - s.dataBufferStart := by
  have nonneg := h.laid.le
  exact Int.emod_eq_of_lt nonneg (by omega)

theorem apart_end (mem : c ∈ live) :
    Apart (s.room c) (s.dataBufferEnd % s.dataBufferSize, size) := by
  have piece := h.piece_within mem
  have behind := h.offset_end pos room
  exact apart_of_laid h.size_pos piece.2.1 (by rw [behind]; exact piece.2.2) (by omega)

theorem write_behind
    {bytes : List UInt8} (low : s.dataBufferEnd % s.dataBufferSize ≤ address)
    (high : address + bytes.length ≤ s.dataBufferEnd % s.dataBufferSize + size) :
    Sound (s.write address bytes) live := by
  refine h.of_buf _ fun c mem i start stop => s.buf.store_apart ?_
  have sized := h.sized c mem
  have apart := h.apart_end pos room mem
  simp only [Apart, RingBuffer.room] at apart
  omega

end

theorem push (few : live.length < ID_MAX) (sized : MD_SIZE < size)
    (room : s.dataBufferEnd + size - s.dataBufferStart ≤ s.dataBufferSize)
    (fits : s.dataBufferEnd % s.dataBufferSize + size ≤ s.dataBufferSize)
    (head : (s.accessBuf s.dataBufferEnd).2 = ((s.monotonicIdEnd : Int), size)) :
    Sound { s with
      metadata := s.metadata.set (s.monotonicIdEnd % ID_MAX) s.dataBufferEnd
      dataBufferEnd := s.dataBufferEnd + size
      monotonicIdEnd := (s.monotonicIdEnd + 1) % ID_MAX }
      (live ++ [⟨s.monotonicIdEnd, s.dataBufferEnd, size⟩]) := by
  have idEnd : s.monotonicIdEnd % ID_MAX = s.monotonicIdEnd := by
    rw [h.idEnd, Nat.mod_mod]
  have new : s.metadata.get? (s.monotonicIdEnd % ID_MAX) = none := by
    refine Option.eq_none_iff_forall_ne_some.mpr fun address found => ?_
    obtain ⟨c, mem, entry⟩ := h.get?_eq.mp found
    have named : c.id = s.monotonicIdEnd % ID_MAX := congrArg Prod.fst entry
    have ids := mem_map_of_mem (f := Chunk.id) mem
    rw [h.ids, named, idEnd, h.idEnd] at ids
    exact mem_idsFrom_new few ids
  have nonneg := h.laid.le
  have wide : (0 : Int) < size := by
    simp only [MD_SIZE] at sized
    omega
  have piece := h.offset_end wide room
  refine
    { size_pos := h.size_pos
      short := ?_
      laid := ?_
      fits := ?_
      sized := ?_
      known := ?_
      ids := ?_
      idStart := h.idStart
      idEnd := ?_
      few := ?_
      own := ?_ }
  · simp only
    omega
  · simp only [pieces, map_append, map_cons, map_nil, piece]
    exact h.laid.append le_rfl wide (by simp only; omega)
  · rintro c mem
    rcases mem_append.mp mem with mem | mem
    · exact h.fits c mem
    · rw [mem_singleton.mp mem]
      exact fits
  · rintro c mem
    rcases mem_append.mp mem with mem | mem
    · exact h.sized c mem
    · rw [mem_singleton.mp mem]
      exact sized
  · simp only
    rw [s.metadata.items_set_new _ new, h.known, map_append, idEnd]
    rfl
  · rw [map_append, h.ids, length_append, length_singleton, idsFrom_succ, ← h.idEnd]
    rfl
  · simp only [length_append, length_singleton]
    rw [h.idEnd, Nat.mod_add_mod, Nat.add_assoc]
  · rw [length_append]
    exact few
  · rintro c mem
    rcases mem_append.mp mem with mem | mem
    · exact h.own c mem
    · rw [mem_singleton.mp mem]
      exact head

theorem place (sized : MD_SIZE < size)
    (few : ∀ handed, (s.place size).1 = .ok handed → live.length < ID_MAX)
    (room : s.dataBufferEnd + size - s.dataBufferStart ≤ s.dataBufferSize)
    (fits : s.dataBufferEnd % s.dataBufferSize + size ≤ s.dataBufferSize) :
    ((s.place size).1 = .error .overflow ∧ Sound (s.place size).2 live) ∨
    ∃ address id, (s.place size).1 = .ok (address, id) ∧
    Sound (s.place size).2 (live ++ [⟨id, address, size⟩]) := by
  have wide : (0 : Int) < size := by
    simp only [MD_SIZE] at sized
    omega
  unfold RingBuffer.place at few ⊢
  dsimp only at few ⊢
  split
  · exact .inl ⟨rfl, h⟩
  next idBytes wrote =>
    rw [wrote] at few
    dsimp only at few
    have len := length_toBytes wrote
    have named : Sound (s.write (s.dataBufferEnd % s.dataBufferSize) idBytes) live :=
      h.write_behind wide room le_rfl (by simp only [len, ID_NBYTES, MD_SIZE] at *; omega)
    split
    · exact .inl ⟨rfl, named⟩
    next sizeBytes wrote' =>
      rw [wrote'] at few
      have len' := length_toBytes wrote'
      refine .inr ⟨_, _, rfl, ?_⟩
      have headed : Sound ((s.write (s.dataBufferEnd % s.dataBufferSize) idBytes).write
          (s.dataBufferEnd % s.dataBufferSize + ID_NBYTES) sizeBytes) live :=
        named.write_behind wide room (by simp only [RingBuffer.write]; omega)
        (by simp only [RingBuffer.write, len', ID_NBYTES, MD_SIZE] at *; omega)
      refine headed.push (few _ rfl) sized room fits ?_
      simp only [accessBuf, RingBuffer.write]
      rw [ByteMemory.load_store_apart _ (.inl (by simp only [ID_NBYTES]; omega))]
      have first := s.buf.load_store (s.dataBufferEnd % s.dataBufferSize) idBytes
      have second := (s.buf.store (s.dataBufferEnd % s.dataBufferSize) idBytes).load_store
        (s.dataBufferEnd % s.dataBufferSize + ID_NBYTES) sizeBytes
      rw [len] at first
      rw [len'] at second
      rw [first, second, fromBytes_toBytes wrote, fromBytes_toBytes wrote']

/-- What `allocate_buf` hands out joins the chunks in use; where it raises, they stay. -/
theorem allocateBuf (size : Int)
    (few : ∀ handed, (s.allocateBuf size).1 = .ok handed → live.length < ID_MAX) :
    (∃ e, (s.allocateBuf size).1 = .error e ∧ Sound (s.allocateBuf size).2 live) ∨
    ∃ address id, (s.allocateBuf size).1 = .ok (address, id) ∧
    Sound (s.allocateBuf size).2 (live ++ [⟨id, address, size + MD_SIZE⟩]) := by
  unfold RingBuffer.allocateBuf at few ⊢
  split
  next pos =>
    rw [if_pos pos] at few
    dsimp only at few ⊢
    split
    · exact .inl ⟨_, rfl, h⟩
    next enough =>
      rw [if_neg enough] at few
      have wide : (MD_SIZE : Int) < size + MD_SIZE := by omega
      obtain ⟨-, fits, reset⟩ := h.reset (show s.bufferEndReset (size + MD_SIZE) +
        (size + MD_SIZE) - s.dataBufferStart ≤ s.dataBufferSize by omega) (by omega)
      rcases reset.place wide few (by simp only; omega) fits with ⟨raised, sound⟩ | placed
      · exact .inl ⟨_, raised, sound⟩
      · exact .inr placed
  · exact .inl ⟨_, rfl, h⟩

theorem allocateBuf_keeps (size : Int) :
    (s.allocateBuf size).2.dataBufferSize = s.dataBufferSize ∧ ∀ c ∈ live, ∀ i,
    (s.room c).1 ≤ i → i < (s.room c).1 + c.size → (s.allocateBuf size).2.buf i = s.buf i := by
  unfold RingBuffer.allocateBuf
  split
  next pos =>
    dsimp only
    split
    · exact ⟨rfl, fun _ _ _ _ _ => rfl⟩
    next enough =>
      have wide : (0 : Int) < size + MD_SIZE := by omega
      obtain ⟨-, fits, reset⟩ := h.reset (show s.bufferEndReset (size + MD_SIZE) +
        (size + MD_SIZE) - s.dataBufferStart ≤ s.dataBufferSize by omega) wide
      have apart : ∀ c ∈ live, Apart (s.room c)
          (s.bufferEndReset (size + MD_SIZE) % s.dataBufferSize, size + MD_SIZE) :=
        fun c mem => reset.apart_end wide (by simp only; omega) mem
      have off : ∀ (buf : ByteMemory) (address : Int) (bytes : List UInt8),
          s.bufferEndReset (size + MD_SIZE) % s.dataBufferSize ≤ address →
          address + bytes.length ≤ s.bufferEndReset (size + MD_SIZE) % s.dataBufferSize +
            (size + MD_SIZE) → ∀ c ∈ live, ∀ i, (s.room c).1 ≤ i →
          i < (s.room c).1 + c.size → buf.store address bytes i = buf i := by
        intro buf address bytes low high c mem i start stop
        have apart := apart c mem
        simp only [Apart, RingBuffer.room] at apart start stop
        exact buf.store_apart (by omega)
      unfold RingBuffer.place
      dsimp only
      split
      · exact ⟨rfl, fun _ _ _ _ _ => rfl⟩
      next idBytes wrote =>
        have len := length_toBytes wrote
        have first := off s.buf _ idBytes le_rfl (by simp only [len, ID_NBYTES, MD_SIZE] at *; omega)
        split
        · exact ⟨rfl, first⟩
        next sizeBytes wrote' =>
          have len' := length_toBytes wrote'
          refine ⟨rfl, fun c mem i start stop => ?_⟩
          refine (off (s.buf.store _ idBytes) _ sizeBytes ?_ ?_ c mem i start stop).trans
            (first c mem i start stop)
          · simp only [ID_NBYTES]
            omega
          · simp only [len', ID_NBYTES, MD_SIZE] at *
            omega
  · exact ⟨rfl, fun _ _ _ _ _ => rfl⟩

end

theorem allocateBuf_memory (raised : (s.allocateBuf size).1 = .error .memory) :
    (s.allocateBuf size).2 = s := by
  unfold RingBuffer.allocateBuf at raised ⊢
  split
  next pos =>
    rw [if_pos pos] at raised
    dsimp only at raised ⊢
    split
    · rfl
    next room =>
      rw [if_neg room] at raised
      unfold RingBuffer.place at raised
      dsimp only at raised
      split at raised
      · cases raised
      · split at raised
        · cases raised
        · cases raised
  · rfl

theorem allocateBuf_refused (h : Sound s live) {e : ShmError} (pos : 0 < size)
    (small : size + MD_SIZE < 2 ^ 31) (raised : (s.allocateBuf size).1 = .error e) :
    e = .memory := by
  have idEnd : s.monotonicIdEnd < ID_MAX := by
    rw [h.idEnd]
    exact Nat.mod_lt _ (by decide)
  obtain ⟨idBytes, wrote⟩ : ∃ bytes, toBytes ID_NBYTES s.monotonicIdEnd = some bytes :=
    toBytes_isSome (by simp only [ID_NBYTES, ID_MAX] at *; omega)
  obtain ⟨sizeBytes, wrote'⟩ : ∃ bytes, toBytes ID_NBYTES (size + MD_SIZE) = some bytes :=
    toBytes_isSome (by simp only [ID_NBYTES, MD_SIZE] at *; omega)
  unfold RingBuffer.allocateBuf at raised
  rw [if_pos pos] at raised
  dsimp only at raised
  split at raised
  · exact (Except.error.inj raised).symm
  · unfold RingBuffer.place at raised
    dsimp only at raised
    rw [wrote] at raised
    dsimp only at raised
    rw [wrote'] at raised
    cases raised

theorem get?_oldest {rest : List Chunk} (h : Sound s (c :: rest)) :
    c.id = s.monotonicIdStart ∧ s.metadata.get? s.monotonicIdStart = some c.address := by
  have ids := h.ids
  rw [length_cons, idsFrom_cons, map_cons, Nat.mod_eq_of_lt h.idStart] at ids
  have first := (List.cons.inj ids).1
  exact ⟨first, h.get?_eq.mpr ⟨c, mem_cons_self, by rw [Chunk.entry, first]⟩⟩

theorem release {rest : List Chunk} (h : Sound s (c :: rest)) : Sound s.release rest ∧
    s.release.monotonicIdStart = (s.monotonicIdStart + 1) % ID_MAX ∧
    s.release.buf = s.buf ∧ s.release.dataBufferSize = s.dataBufferSize := by
  have popped : (s.metadata.pop s.monotonicIdStart).items = rest.map Chunk.entry := by
    rw [← h.get?_oldest.1]
    exact s.metadata.pop_first h.known
  have ids : rest.map Chunk.id = idsFrom ((s.monotonicIdStart + 1) % ID_MAX) rest.length := by
    have ids := h.ids
    rw [length_cons, idsFrom_cons, map_cons] at ids
    exact (List.cons.inj ids).2
  have idEnd : s.monotonicIdEnd =
      ((s.monotonicIdStart + 1) % ID_MAX + rest.length) % ID_MAX := by
    rw [h.idEnd, Nat.mod_add_mod, length_cons, Nat.add_assoc, Nat.add_comm 1]
  have next_lt : (s.monotonicIdStart + 1) % ID_MAX < ID_MAX := Nat.mod_lt _ (by decide)
  have few : rest.length ≤ ID_MAX := (Nat.le_succ _).trans h.few
  have found : ∀ id address,
      (s.metadata.pop s.monotonicIdStart).get? id = some address ↔
        ∃ d ∈ rest, d.entry = (id, address) := fun id address => by
    rw [← PyDict.mem_items, popped, mem_map]
  cases rest with
  | nil =>
    have none : (s.metadata.pop s.monotonicIdStart).get? ((s.monotonicIdStart + 1) % ID_MAX) =
        none := Option.eq_none_iff_forall_ne_some.mpr fun address mem => by
      obtain ⟨d, hd, -⟩ := (found _ _).mp mem
      cases hd
    simp only [RingBuffer.release, none, and_true]
    exact
      { size_pos := h.size_pos
        short := by simpa using h.size_pos.le
        laid := le_refl (0 : Int)
        fits := by simp
        sized := by simp
        known := popped
        ids := ids
        idStart := next_lt
        idEnd := idEnd
        few := few
        own := by simp }
  | cons d rest =>
    have first : d.id = (s.monotonicIdStart + 1) % ID_MAX := by
      rw [length_cons, idsFrom_cons, map_cons, Nat.mod_eq_of_lt next_lt] at ids
      exact (List.cons.inj ids).1
    have next := (found _ _).mpr ⟨d, mem_cons_self, by rw [Chunk.entry, first]⟩
    simp only [RingBuffer.release, next, and_true]
    have ahead := (h.piece_within (mem_cons_of_mem c mem_cons_self)).1
    have short := h.short
    -- The chunks behind the next one are as far behind it as before.
    have behind : Laid (offset s.dataBufferSize s.dataBufferStart d.address)
        (s.pieces (d :: rest)) (s.dataBufferEnd - s.dataBufferStart) :=
      ⟨le_rfl, h.laid.2.2.2⟩
    have seen : (s.pieces (d :: rest)).map
          (fun piece => (piece.1 - offset s.dataBufferSize s.dataBufferStart d.address, piece.2)) =
        (d :: rest).map fun e => (offset s.dataBufferSize (s.dataBufferStart +
          offset s.dataBufferSize s.dataBufferStart d.address) e.address, e.size) := by
      rw [pieces, map_map]
      refine map_congr_left fun e mem => ?_
      have further := (behind.within (mem_map_of_mem (f := fun c : Chunk =>
        (offset s.dataBufferSize s.dataBufferStart c.address, c.size)) mem)).1
      rw [Function.comp_apply, offset_advance _ _ _ _ further ahead h.size_pos]
    have laid := behind.shift (offset s.dataBufferSize s.dataBufferStart d.address)
    rw [Int.sub_self, seen, Int.sub_sub] at laid
    exact
      { size_pos := h.size_pos
        short := by
          simp only [offset] at ahead
          simp only
          omega
        laid := laid
        fits := fun e mem => h.fits e (mem_cons_of_mem c mem)
        sized := fun e mem => h.sized e (mem_cons_of_mem c mem)
        known := popped
        ids := ids
        idStart := next_lt
        idEnd := idEnd
        few := few
        own := fun e mem => h.own e (mem_cons_of_mem c mem) }

end Sound

/-- The oldest `k` chunks are freed: `is_free_fn` says so of each, and it stops where it
does not or where enough bytes are free. -/
structure Frees (isFree : Nat → List UInt8 → Bool) (nbytes freed : Int) (s : RingBuffer)
    (live : List Chunk) (k : Nat) (t : RingBuffer) : Prop where
  le : k ≤ live.length
  sound : Sound t (live.drop k)
  start : t.monotonicIdStart = (s.monotonicIdStart + k) % ID_MAX
  buf : t.buf = s.buf
  size : t.dataBufferSize = s.dataBufferSize
  free : ∀ c ∈ live.take k, isFree c.id (s.data c) = true
  wanted : ∀ j < k, freed + ((live.take j).map Chunk.size).sum < nbytes
  stops : ∀ c, live[k]? = some c → isFree c.id (s.data c) = false ∨
    nbytes ≤ freed + ((live.take k).map Chunk.size).sum

namespace Frees

variable {isFree : Nat → List UInt8 → Bool} {nbytes freed : Int} {s t : RingBuffer}
  {c : Chunk} {live rest : List Chunk} {k : Nat}

theorem stay (h : Sound s live)
    (stops : ∀ c, live[0]? = some c → isFree c.id (s.data c) = false ∨ nbytes ≤ freed) :
    Frees isFree nbytes freed s live 0 s where
  le := Nat.zero_le _
  sound := h
  start := (Nat.mod_eq_of_lt h.idStart).symm
  buf := rfl
  size := rfl
  free := nofun
  wanted := nofun
  stops := fun c first => by
    rw [take_zero, map_nil, sum_nil, Int.add_zero]
    exact stops c first

theorem step (h : Sound s (c :: rest)) (free : isFree c.id (s.data c) = true)
    (wanted : freed < nbytes) (frees : Frees isFree nbytes (freed + c.size) s.release rest k t) :
    Frees isFree nbytes freed s (c :: rest) (k + 1) t := by
  obtain ⟨-, start, buf, size⟩ := h.release
  have same : ∀ d, s.release.data d = s.data d := fun d => by
    rw [data, data, read, read, accessBuf, accessBuf, buf, size]
  refine
    { le := Nat.succ_le_succ frees.le
      sound := frees.sound
      start := ?_
      buf := frees.buf.trans buf
      size := frees.size.trans size
      free := ?_
      wanted := ?_
      stops := ?_ }
  · rw [frees.start, start, Nat.mod_add_mod, Nat.add_assoc, Nat.add_comm 1]
  · rintro d (_ | ⟨_, mem⟩)
    · exact free
    · rw [← same]
      exact frees.free d mem
  · rintro (_ | j) bound
    · simpa using wanted
    · have := frees.wanted j (Nat.lt_of_succ_lt_succ bound)
      rw [take_succ_cons, map_cons, sum_cons]
      omega
  · intro d found
    have := frees.stops d found
    rw [same] at this
    rw [take_succ_cons, map_cons, sum_cons, ← Int.add_assoc]
    exact this

end Frees

variable {s : RingBuffer} {live : List Chunk}

theorem Sound.freeLoop (h : Sound s live) (isFree : Nat → List UInt8 → Bool) (nbytes freed : Int) :
    ∃ k, Frees isFree nbytes freed s live k (s.freeLoop isFree nbytes freed) := by
  induction live generalizing s freed with
  | nil =>
    have none : s.metadata.get? s.monotonicIdStart = none :=
      Option.eq_none_iff_forall_ne_some.mpr fun address mem => by
        obtain ⟨d, hd, -⟩ := h.get?_eq.mp mem
        cases hd
    rw [RingBuffer.freeLoop]
    split
    · exact ⟨0, .stay h (by simp)⟩
    next found => cases none.symm.trans found
  | cons c rest ih =>
    obtain ⟨named, oldest⟩ := h.get?_oldest
    rw [RingBuffer.freeLoop]
    split
    next absent => cases absent.symm.trans oldest
    next address found =>
      cases Option.some.inj (found.symm.trans oldest)
      rw [← named]
      split
      next wanted =>
        dsimp only
        split
        next free =>
          have size : (s.accessBuf c.address).2.2 = c.size := by
            rw [h.own c mem_cons_self]
          rw [size]
          obtain ⟨k, frees⟩ := ih h.release.1 (freed + c.size)
          exact ⟨k + 1, .step h free wanted frees⟩
        next held =>
          refine ⟨0, .stay h fun d first => ?_⟩
          cases first
          exact .inl (Bool.eq_false_iff.mpr held)
      next enough =>
        exact ⟨0, .stay h fun d first => .inr (not_lt.mp enough)⟩

theorem Sound.unwind (h : Sound s live) :
    Sound s.unwind live ∧ s.unwind.monotonicIdStart = s.monotonicIdStart ∧
    s.unwind.buf = s.buf ∧ s.unwind.dataBufferSize = s.dataBufferSize := by
  unfold RingBuffer.unwind
  split
  · refine ⟨{ h with short := ?_, laid := ?_ }, rfl, rfl, rfl⟩
    · have := h.short
      simp only
      omega
    · simp only [pieces, offset_unwind]
      rw [show s.dataBufferEnd - s.dataBufferSize - (s.dataBufferStart - s.dataBufferSize) =
        s.dataBufferEnd - s.dataBufferStart by omega]
      exact h.laid
  · exact ⟨h, rfl, rfl, rfl⟩

/-- `free_buf` frees the oldest chunks, and returns the ids up to the oldest that is left. -/
theorem Sound.freeBuf (h : Sound s live) (isFree : Nat → List UInt8 → Bool) (nbytes : Option Int) :
    ∃ k, Frees isFree (nbytes.getD s.dataBufferSize) 0 s live k (s.freeBuf isFree nbytes).2 ∧
    (s.freeBuf isFree nbytes).1 =
    idRange s.monotonicIdStart ((s.monotonicIdStart + k) % ID_MAX) := by
  obtain ⟨k, frees⟩ := h.freeLoop isFree (nbytes.getD s.dataBufferSize) 0
  obtain ⟨sound, start, buf, size⟩ := frees.sound.unwind
  refine ⟨k, { frees with
    sound := sound
    start := start.trans frees.start
    buf := buf.trans frees.buf
    size := size.trans frees.size }, ?_⟩
  simp only [RingBuffer.freeBuf]
  rw [start, frees.start]

end RingBuffer

end VllmAmpere.ShmRingBuffer
