import VllmAmpere.ByteMemory
import VllmAmpere.PyDict

/-! `SingleWriterShmRingBuffer` of `distributed/device_communicators/shm_object_storage.py`:
the writer allocates chunks behind each other in a shared buffer and frees them from the
other end; `[4-byte id][4-byte size][data]` is the layout of a chunk. -/

namespace VllmAmpere.ShmRingBuffer

def ID_NBYTES : Nat := 4

/-- Exclusive, so that the ids fit in a signed integer of four bytes. -/
def ID_MAX : Nat := 2 ^ 31

def MD_SIZE : Nat := 8

inductive ShmError
  | assertion
  | memory
  | overflow
  deriving DecidableEq, Repr

/-- The writer's side, and the bytes that the writer and the readers share. -/
structure RingBuffer where
  dataBufferSize : Int
  monotonicIdStart : Nat
  monotonicIdEnd : Nat
  dataBufferStart : Int
  dataBufferEnd : Int
  /-- Monotonic id to start address. -/
  metadata : PyDict Nat Int
  buf : ByteMemory

/-- The bytes of the buffer that a `memoryview` shows. -/
structure View where
  start : Int
  stop : Int
  deriving DecidableEq

namespace RingBuffer

def create (dataBufferSize : Int) (buf : ByteMemory) : RingBuffer where
  dataBufferSize := dataBufferSize
  monotonicIdStart := 0
  monotonicIdEnd := 0
  dataBufferStart := 0
  dataBufferEnd := 0
  metadata := .empty
  buf := buf

variable (s : RingBuffer)

def read (view : View) : List UInt8 :=
  s.buf.load view.start (view.stop - view.start).toNat

def write (address : Int) (bytes : List UInt8) : RingBuffer :=
  { s with buf := s.buf.store address bytes }

/-- Where the end is before a chunk of `size` bytes is put there: a chunk that does not fit
behind the end goes to the start of the buffer, in the next winding. -/
def bufferEndReset (size : Int) : Int :=
  if s.dataBufferEnd % s.dataBufferSize + size > s.dataBufferSize
  then (s.dataBufferEnd / s.dataBufferSize + 1) * s.dataBufferSize
  else s.dataBufferEnd

/-- `allocate_buf` behind its checks: the id and the size go into the chunk, and the chunk
into the metadata. An integer of more than four bytes raises half way. -/
def place (size : Int) : Except ShmError (Int × Nat) × RingBuffer :=
  let bufIdx := s.dataBufferEnd % s.dataBufferSize
  match toBytes ID_NBYTES s.monotonicIdEnd with
  | none => (.error .overflow, s)
  | some idBytes =>
    let s := s.write bufIdx idBytes
    match toBytes ID_NBYTES size with
    | none => (.error .overflow, s)
    | some sizeBytes =>
      let s := s.write (bufIdx + ID_NBYTES) sizeBytes
      (.ok (s.dataBufferEnd, s.monotonicIdEnd),
        { s with
          metadata := s.metadata.set (s.monotonicIdEnd % ID_MAX) s.dataBufferEnd
          dataBufferEnd := s.dataBufferEnd + size
          monotonicIdEnd := (s.monotonicIdEnd + 1) % ID_MAX })

/-- `allocate_buf`, with the address and the id of the chunk, and the state also where it
raises. -/
def allocateBuf (size : Int) : Except ShmError (Int × Nat) × RingBuffer :=
  if 0 < size then
    let reset := s.bufferEndReset (size + MD_SIZE)
    if reset + (size + MD_SIZE) - s.dataBufferStart > s.dataBufferSize then (.error .memory, s)
    else place { s with dataBufferEnd := reset } (size + MD_SIZE)
  else (.error .assertion, s)

/-- `access_buf`: the data of a chunk, and its id and size as its first bytes have them. -/
def accessBuf (address : Int) : View × (Int × Int) :=
  let bufIdx := address % s.dataBufferSize
  let id := fromBytes (s.buf.load bufIdx ID_NBYTES)
  let size := fromBytes (s.buf.load (bufIdx + ID_NBYTES) ID_NBYTES)
  (⟨bufIdx + MD_SIZE, bufIdx + size⟩, (id, size))

/-- The oldest chunk leaves the metadata, and the start goes on to the next one. -/
def release : RingBuffer :=
  let metadata := s.metadata.pop s.monotonicIdStart
  let next := (s.monotonicIdStart + 1) % ID_MAX
  match metadata.get? next with
  | some address =>
    { s with
      metadata := metadata
      monotonicIdStart := next
      dataBufferStart := s.dataBufferStart + (address - s.dataBufferStart) % s.dataBufferSize }
  | none =>
    { s with
      metadata := metadata
      monotonicIdStart := next
      dataBufferStart := 0
      dataBufferEnd := 0 }

theorem release_metadata :
    s.release.metadata = s.metadata.pop s.monotonicIdStart := by
  unfold release
  dsimp only
  split <;> rfl

/-- The loop of `free_buf`: `is_free_fn` is asked about the oldest chunk and its data. -/
def freeLoop (isFree : Nat → List UInt8 → Bool) (nbytes : Int) (s : RingBuffer)
    (freed : Int) : RingBuffer :=
  match _known : s.metadata.get? s.monotonicIdStart with
  | none => s
  | some address =>
    if freed < nbytes then
      let (view, metadata) := s.accessBuf address
      if isFree s.monotonicIdStart (s.read view)
      then freeLoop isFree nbytes s.release (freed + metadata.2) else s
    else s
  termination_by s.metadata.len
  decreasing_by
    rw [release_metadata]
    exact Nat.lt_of_succ_le (s.metadata.len_pop _known).le

def unwind : RingBuffer :=
  if s.dataBufferStart ≥ s.dataBufferSize then
    { s with
      dataBufferStart := s.dataBufferStart - s.dataBufferSize
      dataBufferEnd := s.dataBufferEnd - s.dataBufferSize }
  else s

def idRange (before after : Nat) : List Nat :=
  if after ≥ before then List.range' before (after - before)
  else List.range' before (ID_MAX - before) ++ List.range' 0 after

/-- `free_buf`. -/
def freeBuf (isFree : Nat → List UInt8 → Bool) (nbytes : Option Int) :
    List Nat × RingBuffer :=
  let after := (s.freeLoop isFree (nbytes.getD s.dataBufferSize) 0).unwind
  (idRange s.monotonicIdStart after.monotonicIdStart, after)

end RingBuffer

end VllmAmpere.ShmRingBuffer
