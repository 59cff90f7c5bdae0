import Mathlib.Data.List.Nodup
import VllmAmpere.ShmCache
import VllmAmpere.ShmRingChunks

/-! The objects in a `SingleWriterShmObjectStorage`: its ring buffer, its dicts and its bytes say
the same about them, and what each operation of the writer and the readers does to them. -/

open List

namespace VllmAmpere.ShmObjectStore

open ShmRingBuffer RingLayout

variable {κ V : Type}

/-- An object, and how often the writer has counted it. -/
structure Obj (κ V : Type) where
  chunk : Chunk
  key : κ
  value : V
  writers : Nat

def flagAt (ring : RingBuffer) (address : Int) : Int := address % ring.dataBufferSize + MD_SIZE

theorem start_eq (ring : RingBuffer) (address : Int) :
    (ring.accessBuf address).1.start = flagAt ring address := rfl

/-- The bytes of the objects are in the ring buffer. -/
structure Stored (serde : Serde V) (ring : RingBuffer) (objs : List (Obj κ V)) : Prop where
  sound : RingBuffer.Sound ring (objs.map Obj.chunk)
  sized : ∀ o ∈ objs, o.chunk.size = MD_SIZE + FLAG_BYTES + (serde.bytes o.value).length
  content : ∀ o ∈ objs, ring.buf.load (flagAt ring o.chunk.address + FLAG_BYTES)
    (serde.bytes o.value).length = serde.bytes o.value

namespace Stored

variable {serde : Serde V} {ring : RingBuffer} {objs : List (Obj κ V)} {o : Obj κ V}

variable {ring' : RingBuffer}

section

variable (h : Stored serde ring objs)
include h

theorem same_bytes (mem : o ∈ objs)
    (size : ring'.dataBufferSize = ring.dataBufferSize)
    (same : ∀ i, (ring.room o.chunk).1 ≤ i → i < (ring.room o.chunk).1 + o.chunk.size →
    ring'.buf i = ring.buf i) :
    ring'.buf.load (flagAt ring' o.chunk.address + FLAG_BYTES) (serde.bytes o.value).length =
    serde.bytes o.value ∧ readerCount ring' o.chunk.address = readerCount ring o.chunk.address := by
  have wide := h.sized o mem
  have loads : ∀ at' length : Nat, MD_SIZE ≤ at' → (at' : Int) + length ≤ o.chunk.size →
      ring'.buf.load (o.chunk.address % ring.dataBufferSize + at') length =
        ring.buf.load (o.chunk.address % ring.dataBufferSize + at') length := by
    intro at' length low high
    refine ByteMemory.load_congr fun i start stop => same i ?_ ?_
    · simp only [RingBuffer.room]
      omega
    · simp only [RingBuffer.room]
      omega
  constructor
  · have content := h.content o mem
    have load := loads (MD_SIZE + FLAG_BYTES) (serde.bytes o.value).length
      (Nat.le_add_right ..) (by push_cast; omega)
    simp only [flagAt, size]
    push_cast at load
    rw [Int.add_assoc, load, ← Int.add_assoc]
    exact content
  · have load := loads MD_SIZE FLAG_BYTES le_rfl (by omega)
    rw [readerCount, readerCount, start_eq, start_eq, flagAt, flagAt, size, load]

theorem of_buf {objs' : List (Obj κ V)} (sub : ∀ o ∈ objs', o ∈ objs)
    (sound : RingBuffer.Sound ring' (objs'.map Obj.chunk))
    (size : ring'.dataBufferSize = ring.dataBufferSize) (same : ring'.buf = ring.buf) :
    Stored serde ring' objs' :=
  ⟨sound, fun o mem => h.sized o (sub o mem),
    fun o mem => (h.same_bytes (sub o mem) size fun i _ _ => congrFun same i).1⟩

theorem put (new : Obj κ V)
    (sound : RingBuffer.Sound ring' (objs.map Obj.chunk ++ [new.chunk]))
    (size : ring'.dataBufferSize = ring.dataBufferSize)
    (same : ∀ o ∈ objs, ∀ i, (ring.room o.chunk).1 ≤ i → i < (ring.room o.chunk).1 + o.chunk.size →
    ring'.buf i = ring.buf i)
    (wide : new.chunk.size = MD_SIZE + FLAG_BYTES + (serde.bytes new.value).length)
    {written : RingBuffer} (write : written = ring'.write (flagAt ring' new.chunk.address)
    (List.replicate FLAG_BYTES 0 ++ serde.bytes new.value)) :
    Stored serde written (objs ++ [new]) ∧ readerCount written new.chunk.address = 0 ∧
    ∀ o ∈ objs, readerCount written o.chunk.address = readerCount ring o.chunk.address := by
  have last : new.chunk ∈ objs.map Obj.chunk ++ [new.chunk] :=
    mem_append_right _ (mem_singleton_self _)
  have length : (List.replicate FLAG_BYTES 0 ++ serde.bytes new.value).length =
      FLAG_BYTES + (serde.bytes new.value).length := by
    rw [length_append, length_replicate]
  have after : RingBuffer.Sound written ((objs ++ [new]).map Obj.chunk) := by
    rw [map_append, map_singleton, write]
    refine sound.write last le_rfl ?_
    rw [length]
    simp only [flagAt]
    push_cast
    omega
  have others : ∀ o ∈ objs, ∀ i, (ring.room o.chunk).1 ≤ i →
      i < (ring.room o.chunk).1 + o.chunk.size → written.buf i = ring.buf i := by
    intro o mem i start stop
    rw [← same o mem i start stop, write]
    have apart := (pairwise_append.mp sound.apart).2.2 _ (mem_map_of_mem mem) _
      (mem_singleton_self _)
    simp only [Apart, RingBuffer.room, size] at apart start stop
    refine ring'.buf.store_apart ?_
    rw [length]
    simp only [flagAt, size]
    push_cast
    omega
  have size' : written.dataBufferSize = ring.dataBufferSize := by
    rw [write]
    exact size
  have both := ring'.buf.load_store_append (flagAt ring' new.chunk.address)
    (List.replicate FLAG_BYTES 0) (serde.bytes new.value)
  rw [length_replicate] at both
  refine ⟨⟨after, fun o mem => ?_, fun o mem => ?_⟩, ?_,
    fun o mem => (h.same_bytes mem size' (others o mem)).2⟩
  · rcases mem_append.mp mem with mem | mem
    · exact h.sized o mem
    · rw [mem_singleton.mp mem]
      exact wide
  · rcases mem_append.mp mem with mem | mem
    · exact (h.same_bytes mem size' (others o mem)).1
    · rw [mem_singleton.mp mem, write]
      exact both.2
  · rw [write, readerCount, start_eq]
    exact (congrArg fromBytes both.1).trans (by decide)

theorem apart_of_ne {o' : Obj κ V} (mem : o ∈ objs) (mem' : o' ∈ objs)
    (ne : o.chunk ≠ o'.chunk) : Apart (ring.room o.chunk) (ring.room o'.chunk) :=
  h.sound.apart_of_ne (mem_map_of_mem mem) (mem_map_of_mem mem') ne

theorem chunk_inj {o' : Obj κ V} (mem : o ∈ objs) (mem' : o' ∈ objs)
    (same : o.chunk.id = o'.chunk.id) : o = o' := by
  have nodup := h.sound.ids_nodup
  rw [map_map] at nodup
  exact inj_on_of_nodup_map nodup mem mem' same

theorem write_flag (mem : o ∈ objs) {bytes : List UInt8}
    (len : bytes.length = FLAG_BYTES) :
    Stored serde (ring.write (flagAt ring o.chunk.address) bytes) objs ∧
    readerCount (ring.write (flagAt ring o.chunk.address) bytes) o.chunk.address = fromBytes bytes ∧
    ∀ o' ∈ objs, o' ≠ o →
    readerCount (ring.write (flagAt ring o.chunk.address) bytes) o'.chunk.address =
    readerCount ring o'.chunk.address := by
  have wide := h.sized o mem
  have sound : RingBuffer.Sound (ring.write (flagAt ring o.chunk.address) bytes)
      (objs.map Obj.chunk) := by
    refine h.sound.write (mem_map_of_mem mem) le_rfl ?_
    simp only [flagAt, len]
    omega
  have others : ∀ o' ∈ objs, o' ≠ o → ∀ i, (ring.room o'.chunk).1 ≤ i →
      i < (ring.room o'.chunk).1 + o'.chunk.size →
      ring.buf.store (flagAt ring o.chunk.address) bytes i = ring.buf i := by
    intro o' mem' ne i start stop
    have apart := h.apart_of_ne mem' mem fun same => ne (h.chunk_inj mem' mem (by rw [same]))
    simp only [Apart, RingBuffer.room] at apart start stop
    simp only [flagAt]
    exact ring.buf.store_apart (by omega)
  refine ⟨⟨sound, h.sized, fun o' mem' => ?_⟩, ?_, fun o' mem' ne => ?_⟩
  · by_cases same : o' = o
    · subst same
      refine (ByteMemory.load_store_apart _ (.inr ?_)).trans (h.content o' mem')
      rw [len]
      rfl
    · have wide' := h.sized o' mem'
      refine (ByteMemory.load_congr fun i start stop => others o' mem' same i ?_ ?_).trans
        (h.content o' mem')
      · simp only [flagAt, RingBuffer.room, RingBuffer.write, MD_SIZE, FLAG_BYTES] at start ⊢
        omega
      · simp only [flagAt, RingBuffer.room, RingBuffer.write] at stop ⊢
        omega
  · have load := ring.buf.load_store (flagAt ring o.chunk.address) bytes
    rw [len] at load
    rw [readerCount, start_eq]
    exact congrArg fromBytes load
  · have wide' := h.sized o' mem'
    refine congrArg fromBytes (ByteMemory.load_congr fun i start stop => others o' mem' ne i ?_ ?_)
    · simp only [start_eq, flagAt, RingBuffer.room, RingBuffer.write, MD_SIZE] at start ⊢
      omega
    · simp only [start_eq, flagAt, RingBuffer.room, RingBuffer.write] at stop ⊢
      omega

theorem increment (mem : o ∈ objs)
    (ok : incrementReaderFlag ring o.chunk.address = .ok ring') : Stored serde ring' objs ∧
    readerCount ring' o.chunk.address = readerCount ring o.chunk.address + 1 ∧ ∀ o' ∈ objs, o' ≠ o →
    readerCount ring' o'.chunk.address = readerCount ring o'.chunk.address := by
  unfold incrementReaderFlag at ok
  split at ok
  next bytes wrote =>
    obtain ⟨stored, count, others⟩ := h.write_flag mem (length_toBytes wrote)
    rw [fromBytes_toBytes wrote] at count
    cases ok
    exact ⟨stored, count, others⟩
  · cases ok

end

theorem exists_increment {address : Int} (small : readerCount ring address + 1 < 2 ^ 31) :
    ∃ ring', incrementReaderFlag ring address = .ok ring' := by
  have low := neg_le_fromBytes (ring.buf.load (ring.accessBuf address).1.start FLAG_BYTES)
  rw [ByteMemory.length_load] at low
  obtain ⟨bytes, wrote⟩ : ∃ bytes, toBytes FLAG_BYTES (readerCount ring address + 1) = some bytes := by
    refine toBytes_isSome ⟨?_, ?_⟩ <;> simp only [readerCount, FLAG_BYTES] at * <;> omega
  exact ⟨_, by rw [incrementReaderFlag, wrote]⟩

theorem readObject (h : Stored serde ring objs) (mem : o ∈ objs) :
    readObject serde ring o.chunk.address o.chunk.id = .ok o.value := by
  have own := h.sound.own o.chunk (mem_map_of_mem mem)
  have wide := h.sized o mem
  have id : (ring.accessBuf o.chunk.address).2.1 = o.chunk.id := congrArg Prod.fst own
  have size : (ring.accessBuf o.chunk.address).2.2 = o.chunk.size := congrArg Prod.snd own
  have stop : (ring.accessBuf o.chunk.address).1.stop =
      o.chunk.address % ring.dataBufferSize + o.chunk.size := by
    rw [← size]
    rfl
  have read : ring.read ⟨(ring.accessBuf o.chunk.address).1.start + FLAG_BYTES,
      (ring.accessBuf o.chunk.address).1.stop⟩ = serde.bytes o.value := by
    rw [RingBuffer.read, stop, start_eq]
    have length : (o.chunk.address % ring.dataBufferSize + o.chunk.size -
        (flagAt ring o.chunk.address + FLAG_BYTES)).toNat = (serde.bytes o.value).length := by
      simp only [flagAt]
      omega
    rw [length]
    exact h.content o mem
  unfold ShmObjectStore.readObject
  dsimp only
  rw [if_neg (not_not.mpr id), read, Serde.bytes, serde.deserialize_serialize]

end Stored

variable [DecidableEq κ] {serde : Serde V} {s : Storage κ} {objs rest : List (Obj κ V)}
  {o : Obj κ V} {key : κ}

/-- The dicts have the objects and nothing else. -/
structure Dicts (s : Storage κ) (objs : List (Obj κ V)) : Prop where
  keys : (objs.map Obj.key).Nodup
  ids : (objs.map fun o => o.chunk.id).Nodup
  keyIndex : ∀ k x, s.keyIndex.get? k = some x ↔
    ∃ o ∈ objs, o.key = k ∧ (o.chunk.address, o.chunk.id) = x
  idIndex : ∀ id k, s.idIndex.get? id = some k ↔ ∃ o ∈ objs, o.chunk.id = id ∧ o.key = k
  writerFlag : ∀ id w, s.writerFlag.get? id = some w ↔ ∃ o ∈ objs, o.chunk.id = id ∧ o.writers = w

namespace Dicts

theorem key_inj (h : Dicts s objs) {o' : Obj κ V} (mem : o ∈ objs) (mem' : o' ∈ objs)
    (same : o.key = o'.key) : o = o' :=
  inj_on_of_nodup_map h.keys mem mem' same

theorem id_inj (h : Dicts s objs) {o' : Obj κ V} (mem : o ∈ objs) (mem' : o' ∈ objs)
    (same : o.chunk.id = o'.chunk.id) : o = o' :=
  inj_on_of_nodup_map h.ids mem mem' same

theorem isCached_iff (h : Dicts s objs) : s.isCached key = true ↔ ∃ o ∈ objs, o.key = key := by
  rw [Storage.isCached, Option.isSome_iff_exists]
  constructor
  · rintro ⟨x, found⟩
    obtain ⟨o, mem, same, -⟩ := (h.keyIndex key x).mp found
    exact ⟨o, mem, same⟩
  · rintro ⟨o, mem, same⟩
    exact ⟨_, (h.keyIndex key _).mpr ⟨o, mem, same, rfl⟩⟩

theorem pop_first (h : Dicts s (o :: rest)) : Dicts { s with
    keyIndex := s.keyIndex.pop o.key
    idIndex := s.idIndex.pop o.chunk.id
    writerFlag := s.writerFlag.pop o.chunk.id } rest := by
  have keys := nodup_cons.mp h.keys
  have ids := nodup_cons.mp h.ids
  have other_key : ∀ o' ∈ rest, o'.key ≠ o.key := fun o' mem same =>
    keys.1 (same ▸ mem_map_of_mem mem)
  have other_id : ∀ o' ∈ rest, o'.chunk.id ≠ o.chunk.id := fun o' mem same =>
    ids.1 (mem_map.mpr ⟨o', mem, same⟩)
  refine ⟨keys.2, ids.2, fun k x => ?_, fun id k => ?_, fun id w => ?_⟩
  · rw [PyDict.get?_pop]
    split
    next same =>
      refine ⟨(by simp), ?_⟩
      rintro ⟨o', mem, key, -⟩
      exact absurd (key.trans same) (other_key o' mem)
    next ne =>
      rw [h.keyIndex, exists_mem_cons_iff]
      exact or_iff_right fun first => ne first.1.symm
  · rw [PyDict.get?_pop]
    split
    next same =>
      refine ⟨(by simp), ?_⟩
      rintro ⟨o', mem, id, -⟩
      exact absurd (id.trans same) (other_id o' mem)
    next ne =>
      rw [h.idIndex, exists_mem_cons_iff]
      exact or_iff_right fun first => ne first.1.symm
  · rw [PyDict.get?_pop]
    split
    next same =>
      refine ⟨(by simp), ?_⟩
      rintro ⟨o', mem, id, -⟩
      exact absurd (id.trans same) (other_id o' mem)
    next ne =>
      rw [h.writerFlag, exists_mem_cons_iff]
      exact or_iff_right fun first => ne first.1.symm

theorem forget {freed : List (Obj κ V)} (h : Dicts s (freed ++ rest)) :
    ∃ s', s.forget (freed.map fun o => o.chunk.id) = .ok s' ∧ Dicts s' rest ∧
    s'.ring = s.ring ∧ s'.nReaders = s.nReaders ∧ s'.maxObjectSize = s.maxObjectSize := by
  induction freed generalizing s with
  | nil => exact ⟨s, rfl, h, rfl, rfl, rfl⟩
  | cons o freed ih =>
    have found : s.idIndex.get? o.chunk.id = some o.key :=
      (h.idIndex _ _).mpr ⟨o, mem_cons_self, rfl, rfl⟩
    obtain ⟨s', ok, dicts, same⟩ := ih h.pop_first
    refine ⟨s', ?_, dicts, same⟩
    rw [map_cons, Storage.forget, found]
    exact ok

end Dicts

def bump (key : κ) (objs : List (Obj κ V)) : List (Obj κ V) :=
  objs.map fun o => if o.key = key then { o with writers := o.writers + 1 } else o

theorem bump_map {α : Type} (f : Obj κ V → α) (key : κ) (objs : List (Obj κ V))
    (same : ∀ o w, f { o with writers := w } = f o) : (bump key objs).map f = objs.map f := by
  rw [bump, map_map]
  refine map_congr_left fun o _ => ?_
  rw [Function.comp_apply]
  split
  · exact same o _
  · rfl

theorem exists_mem_bump {key : κ} {objs : List (Obj κ V)} {P : Obj κ V → Prop} :
    (∃ o ∈ bump key objs, P o) ↔
    ∃ o ∈ objs, P (if o.key = key then { o with writers := o.writers + 1 } else o) := by
  constructor
  · rintro ⟨_, mem, p⟩
    obtain ⟨o, there, rfl⟩ := mem_map.mp mem
    exact ⟨o, there, p⟩
  · rintro ⟨o, mem, p⟩
    exact ⟨_, mem_map_of_mem mem, p⟩

/-- The objects of a store. -/
structure Holds (serde : Serde V) (s : Storage κ) (objs : List (Obj κ V)) : Prop where
  stored : Stored serde s.ring objs
  dicts : Dicts s objs

namespace Holds

theorem bump_stored {ring : RingBuffer} (h : Stored serde ring objs) (key : κ) :
    Stored serde ring (bump key objs) := by
  have of_mem : ∀ o ∈ bump key objs, ∃ o' ∈ objs, o.chunk = o'.chunk ∧ o.value = o'.value := by
    intro o mem
    obtain ⟨o', mem', rfl⟩ := mem_map.mp mem
    refine ⟨o', mem', ?_⟩
    split <;> exact ⟨rfl, rfl⟩
  refine ⟨?_, fun o mem => ?_, fun o mem => ?_⟩
  · rw [bump_map Obj.chunk key objs fun _ _ => rfl]
    exact h.sound
  · obtain ⟨o', mem', chunk, value⟩ := of_mem o mem
    rw [chunk, value]
    exact h.sized o' mem'
  · obtain ⟨o', mem', chunk, value⟩ := of_mem o mem
    rw [chunk, value]
    exact h.content o' mem'

theorem incrementWriterFlag (h : Holds serde s objs) (mem : o ∈ objs) :
    Holds serde (s.incrementWriterFlag o.chunk.id) (bump o.key objs) := by
  have known : s.writerFlag.get? o.chunk.id = some o.writers :=
    (h.dicts.writerFlag _ _).mpr ⟨o, mem, rfl, rfl⟩
  have kept : ∀ o' : Obj κ V,
      (if o'.key = o.key then { o' with writers := o'.writers + 1 } else o').key = o'.key ∧
      (if o'.key = o.key then { o' with writers := o'.writers + 1 } else o').chunk = o'.chunk :=
    fun o' => by split <;> exact ⟨rfl, rfl⟩
  refine ⟨bump_stored h.stored o.key, ?_, ?_, fun k x => ?_, fun id k => ?_, fun id w => ?_⟩
  · rw [bump_map Obj.key o.key objs fun _ _ => rfl]
    exact h.dicts.keys
  · rw [bump_map (fun o => o.chunk.id) o.key objs fun _ _ => rfl]
    exact h.dicts.ids
  · simp only [exists_mem_bump, (kept _).1, (kept _).2]
    exact h.dicts.keyIndex k x
  · simp only [exists_mem_bump, (kept _).1, (kept _).2]
    exact h.dicts.idIndex id k
  · simp only [exists_mem_bump, (kept _).2]
    rw [Storage.incrementWriterFlag, PyDict.get?_set, known, Option.getD_some]
    split
    next same =>
      constructor
      · intro count
        exact ⟨o, mem, same.symm, by rw [if_pos rfl]; exact Option.some.inj count⟩
      · rintro ⟨o', mem', id, count⟩
        rw [h.dicts.id_inj mem' mem (id.trans same), if_pos rfl] at count
        exact congrArg some count
    next ne =>
      rw [h.dicts.writerFlag]
      refine exists_congr fun o' => and_congr_right fun mem' => and_congr_right fun id => ?_
      rw [if_neg fun key => ne ?_]
      rw [← id, h.dicts.key_inj mem' mem key]

theorem touch (h : Holds serde s objs) (key : κ) : Holds serde (s.touch key) (bump key objs) := by
  unfold Storage.touch
  split
  next address id found =>
    obtain ⟨o, mem, rfl, same⟩ := (h.dicts.keyIndex _ _).mp found
    rw [← show o.chunk.id = id from congrArg Prod.snd same]
    exact h.incrementWriterFlag mem
  next absent =>
    have none : bump key objs = objs := by
      refine (map_congr_left fun o mem => if_neg fun same => ?_).trans (map_id objs)
      cases absent.symm.trans ((h.dicts.keyIndex key _).mpr ⟨o, mem, same, rfl⟩)
    rw [none]
    exact h

theorem freeUnused (h : Holds serde s objs) (few : objs.length < ID_MAX) :
    ∃ k s', s.freeUnused = .ok s' ∧ Holds serde s' (objs.drop k) ∧
    (∀ o ∈ objs.take k, (o.writers * s.nReaders : Nat) ≤ readerCount s.ring o.chunk.address) ∧
    (∀ address, readerCount s'.ring address = readerCount s.ring address) ∧
    s'.nReaders = s.nReaders ∧ s'.maxObjectSize = s.maxObjectSize := by
  obtain ⟨k, frees, returned⟩ :=
    h.stored.sound.freeBuf s.defaultIsFreeCheck (some (2 * s.maxObjectSize))
  have le := frees.le
  rw [length_map] at le
  have ids : (s.ring.freeBuf s.defaultIsFreeCheck (some (2 * s.maxObjectSize))).1 =
      (objs.take k).map fun o => o.chunk.id := by
    rw [returned, h.stored.sound.freed_ids frees.le (le.trans_lt few), ← map_take,
      map_map]
    rfl
  have dicts : Dicts { s with
      ring := (s.ring.freeBuf s.defaultIsFreeCheck (some (2 * s.maxObjectSize))).2 }
      (objs.take k ++ objs.drop k) := by
    rw [take_append_drop]
    exact { h.dicts with }
  obtain ⟨s', ok, left, ring, readers, size⟩ := dicts.forget
  have sound := frees.sound
  rw [← map_drop] at sound
  have stored := h.stored.of_buf (fun o => mem_of_mem_drop) sound frees.size frees.buf
  refine ⟨k, s', ?_, ⟨ring ▸ stored, left⟩, fun o mem => ?_, fun address => ?_, readers, size⟩
  · rw [← ids] at ok
    exact ok
  · have here := mem_of_mem_take mem
    have free := frees.free o.chunk (by rw [← map_take]; exact mem_map_of_mem mem)
    have known : s.writerFlag.get? o.chunk.id = some o.writers :=
      (h.dicts.writerFlag _ _).mpr ⟨o, here, rfl, rfl⟩
    rw [Storage.defaultIsFreeCheck, known] at free
    have count := of_decide_eq_true free
    have own := congrArg Prod.snd (h.stored.sound.own o.chunk (mem_map_of_mem here))
    have wide := h.stored.sized o here
    have stop : (s.ring.accessBuf o.chunk.address).1.stop =
        o.chunk.address % s.ring.dataBufferSize + o.chunk.size := by
      rw [← show (s.ring.accessBuf o.chunk.address).2.2 = o.chunk.size from own]
      rfl
    rw [RingBuffer.data, RingBuffer.read, ByteMemory.take_load] at count
    · exact count
    · rw [stop, start_eq, flagAt]
      omega
  · rw [readerCount, readerCount, start_eq, start_eq, flagAt, flagAt, ring, frees.buf, frees.size]

end Holds

namespace Dicts

theorem record (h : Dicts s objs) {new : Obj κ V} (key : ∀ o ∈ objs, o.key ≠ new.key)
    (id : ∀ o ∈ objs, o.chunk.id ≠ new.chunk.id) (once : new.writers = 1) (bytes : List UInt8) :
    Dicts (s.record new.key bytes new.chunk.address new.chunk.id) (objs ++ [new]) := by
  have fresh : s.writerFlag.get? new.chunk.id = none := by
    refine Option.eq_none_iff_forall_ne_some.mpr fun w found => ?_
    obtain ⟨o, mem, same, -⟩ := (h.writerFlag _ _).mp found
    exact id o mem same
  have either : ∀ P : Obj κ V → Prop, (∃ o ∈ objs ++ [new], P o) ↔ (∃ o ∈ objs, P o) ∨ P new :=
    fun P => by simp [or_and_right, exists_or]
  refine ⟨?_, ?_, fun k x => ?_, fun i k => ?_, fun i w => ?_⟩
  · rw [map_append, nodup_append]
    refine ⟨h.keys, nodup_singleton _, ?_⟩
    rintro k mem _ last rfl
    obtain ⟨o, mem, same⟩ := mem_map.mp mem
    exact key o mem (same.trans (mem_singleton.mp last))
  · rw [map_append, nodup_append]
    refine ⟨h.ids, nodup_singleton _, ?_⟩
    rintro k mem _ last rfl
    obtain ⟨o, mem, same⟩ := mem_map.mp mem
    exact id o mem (same.trans (mem_singleton.mp last))
  · simp only [Storage.record, Storage.incrementWriterFlag, PyDict.get?_set, either]
    split
    next same =>
      constructor
      · intro found
        exact .inr ⟨same.symm, Option.some.inj found⟩
      · rintro (⟨o, mem, there, -⟩ | ⟨-, there⟩)
        · exact absurd (there.trans same) (key o mem)
        · rw [there]
    next ne =>
      rw [h.keyIndex]
      exact (or_iff_left fun last => ne last.1.symm).symm
  · simp only [Storage.record, Storage.incrementWriterFlag, PyDict.get?_set, either]
    split
    next same =>
      constructor
      · intro found
        exact .inr ⟨same.symm, Option.some.inj found⟩
      · rintro (⟨o, mem, there, -⟩ | ⟨-, there⟩)
        · exact absurd (there.trans same) (id o mem)
        · rw [there]
    next ne =>
      rw [h.idIndex]
      exact (or_iff_left fun last => ne last.1.symm).symm
  · simp only [Storage.record, Storage.incrementWriterFlag, PyDict.get?_set, either, fresh,
      Option.getD_none, Nat.zero_add]
    split
    next same =>
      constructor
      · intro found
        exact .inr ⟨same.symm, once.trans (Option.some.inj found)⟩
      · rintro (⟨o, mem, there, -⟩ | ⟨-, there⟩)
        · exact absurd (there.trans same) (id o mem)
        · rw [← there, once]
    next ne =>
      rw [h.writerFlag]
      exact (or_iff_left fun last => ne last.1.symm).symm

end Dicts

namespace Holds

theorem allocate (h : Holds serde s objs) (few : objs.length < ID_MAX) {value : V}
    (new : ∀ o ∈ objs, o.key ≠ key)
    (small : (FLAG_BYTES + (serde.bytes value).length + MD_SIZE : Int) < 2 ^ 31) :
    (s.allocate key (serde.bytes value) = (.error .memory, s)) ∨
    ∃ address id s' chunk, s.allocate key (serde.bytes value) = (.ok (address, id), s') ∧
    chunk.address = address ∧ chunk.id = id ∧ Holds serde s' (objs ++ [⟨chunk, key, value, 1⟩]) ∧
    readerCount s'.ring address = 0 ∧
    (∀ o ∈ objs, readerCount s'.ring o.chunk.address = readerCount s.ring o.chunk.address) ∧
    s'.nReaders = s.nReaders ∧ s'.maxObjectSize = s.maxObjectSize := by
  have few' : (objs.map Obj.chunk).length < ID_MAX := by
    rwa [length_map]
  have pos : (0 : Int) < FLAG_BYTES + (serde.bytes value).length := by
    simp only [FLAG_BYTES]
    omega
  rcases h.stored.sound.allocateBuf (FLAG_BYTES + (serde.bytes value).length) fun _ _ => few' with
    ⟨e, raised, -⟩ | ⟨address, id, ok, sound⟩
  · have refused := h.stored.sound.allocateBuf_refused pos small raised
    rw [refused] at raised
    have same := RingBuffer.Sound.allocateBuf_memory raised
    refine .inl ?_
    rw [Storage.allocate, ← Prod.mk.eta (p := s.ring.allocateBuf _), raised, same]
  · obtain ⟨size, keeps⟩ := h.stored.sound.allocateBuf_keeps (FLAG_BYTES + (serde.bytes value).length)
    have ids := sound.ids_nodup
    rw [map_append, map_map, nodup_append] at ids
    have dicts : Dicts { s with
        ring := (s.ring.allocateBuf (FLAG_BYTES + (serde.bytes value).length)).2 } objs :=
      { h.dicts with }
    obtain ⟨stored, zero, others⟩ := h.stored.put ⟨⟨id, address,
        FLAG_BYTES + (serde.bytes value).length + MD_SIZE⟩, key, value, 1⟩ sound size
      (fun o mem => keeps o.chunk (mem_map_of_mem mem)) (by simp only; omega) rfl
    refine .inr ⟨address, id, _, _, ?_, rfl, rfl, ⟨stored, dicts.record new (fun o mem same => ?_) rfl
      (serde.bytes value)⟩, zero, others, rfl, rfl⟩
    · rw [Storage.allocate, ← Prod.mk.eta (p := s.ring.allocateBuf _), ok]
    · exact ids.2.2 _ (mem_map_of_mem mem) _ (mem_singleton_self _) same

/-- `put` of a new key frees objects that all readers have counted as often as the writer, if it
must, and puts the new one behind the others, if there is room then. -/
theorem put (h : Holds serde s objs) (few : objs.length < ID_MAX) {value : V}
    (new : ∀ o ∈ objs, o.key ≠ key)
    (small : (FLAG_BYTES + (serde.bytes value).length + MD_SIZE : Int) < 2 ^ 31) :
    ∃ k result s', s.put serde key value = (result, s') ∧
    (∀ o ∈ objs.take k, (o.writers * s.nReaders : Nat) ≤ readerCount s.ring o.chunk.address) ∧
    (∀ o ∈ objs.drop k, readerCount s'.ring o.chunk.address = readerCount s.ring o.chunk.address) ∧
    s'.nReaders = s.nReaders ∧
    (((result = .error .tooLarge ∨ result = .error (.shm .memory)) ∧ Holds serde s' (objs.drop k)) ∨
    ∃ chunk : Chunk, result = .ok (chunk.address, chunk.id) ∧
    Holds serde s' (objs.drop k ++ [⟨chunk, key, value, 1⟩]) ∧
    readerCount s'.ring chunk.address = 0) := by
  have absent : ¬s.isCached key = true := fun cached =>
    have ⟨o, mem, same⟩ := h.dicts.isCached_iff.mp cached
    new o mem same
  by_cases large : (FLAG_BYTES : Int) + (serde.bytes value).length > s.maxObjectSize
  · refine ⟨0, .error .tooLarge, s, ?_, nofun, fun _ _ => rfl, rfl, .inl ⟨.inl rfl, h⟩⟩
    rw [Storage.put, if_neg absent, if_pos large]
  · have start : s.put serde key value = s.allocateOrFree key (serde.bytes value) := by
      rw [Storage.put, if_neg absent, if_neg large]
    unfold Storage.allocateOrFree at start
    rcases h.allocate few new small with full | ⟨_, _, s₁, chunk, ok, rfl, rfl, holds, zero, others, readers, -⟩
    · rw [full] at start
      dsimp only at start
      obtain ⟨k, s₁, freed, holds, free, counts, readers, size⟩ := h.freeUnused few
      have few' : (objs.drop k).length < ID_MAX := by
        rw [length_drop]
        omega
      have new' : ∀ o ∈ objs.drop k, o.key ≠ key := fun o mem => new o (mem_of_mem_drop mem)
      rw [freed] at start
      dsimp only at start
      rcases holds.allocate few' new' small with
        full' | ⟨_, _, s₂, chunk, ok, rfl, rfl, holds', zero, others, readers', -⟩
      · rw [full'] at start
        exact ⟨k, _, _, start, free, fun o _ => counts _, readers, .inl ⟨.inr rfl, holds⟩⟩
      · rw [ok] at start
        exact ⟨k, _, _, start, free, fun o mem => (others o mem).trans (counts _),
          readers'.trans readers, .inr ⟨chunk, rfl, holds', zero⟩⟩
    · rw [ok] at start
      exact ⟨0, _, _, start, nofun, others, readers, .inr ⟨chunk, rfl, holds, zero⟩⟩

end Holds

end VllmAmpere.ShmObjectStore
