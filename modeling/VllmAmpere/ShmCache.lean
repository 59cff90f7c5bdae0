import VllmAmpere.ShmRingBuffer
import VllmAmpere.TransitionSystem

/-! `SingleWriterShmObjectStorage` of `distributed/device_communicators/shm_object_storage.py`: a
writer puts objects into a shared ring buffer under keys, readers get them by address and id, and
an object may be freed when the readers have counted as often as the writer. -/

namespace VllmAmpere.ShmObjectStore

open ShmRingBuffer

/-- `ObjectSerde`: the metadata and the data of an object, from which it is read again. -/
structure Serde (V : Type) where
  serialize : V → List UInt8 × List UInt8
  deserialize : List UInt8 → Option V
  deserialize_serialize : ∀ v, deserialize ((serialize v).1 ++ (serialize v).2) = some v

def Serde.bytes {V : Type} (serde : Serde V) (value : V) : List UInt8 :=
  (serde.serialize value).1 ++ (serde.serialize value).2

def FLAG_BYTES : Nat := 4

inductive StoreError
  | exists
  | tooLarge
  | modified
  | key
  | shm (e : ShmError)
  deriving DecidableEq, Repr

section Readers

variable {V : Type} (serde : Serde V) (ring : RingBuffer) (address : Int)

/-- The in-use flag of the object at an address, as the readers count it. -/
def readerCount : Int :=
  fromBytes (ring.buf.load (ring.accessBuf address).1.start FLAG_BYTES)

/-- `increment_reader_flag`. -/
def incrementReaderFlag : Except StoreError RingBuffer :=
  match toBytes FLAG_BYTES (readerCount ring address + 1) with
  | some bytes => .ok (ring.write (ring.accessBuf address).1.start bytes)
  | none => .error (.shm .overflow)

/-- The part of `get` before the lock: the id is checked and the object read. -/
def readObject (monotonicId : Nat) : Except StoreError V :=
  let (view, (id, _)) := ring.accessBuf address
  if id ≠ monotonicId then .error .modified
  else
    match serde.deserialize (ring.read ⟨view.start + FLAG_BYTES, view.stop⟩) with
    | some value => .ok value
    | none => .error .modified

/-- `get` of a reader. -/
def get (monotonicId : Nat) : Except StoreError (V × RingBuffer) := do
  let value ← readObject serde ring address monotonicId
  let ring ← incrementReaderFlag ring address
  return (value, ring)

/-- `touch` of a reader: a count below `n_readers` is taken for that of a new object, which the
writer has not touched either. -/
def touchReader (nReaders : Nat) (address : Int) : Except StoreError RingBuffer :=
  if readerCount ring address ≥ nReaders then incrementReaderFlag ring address else .ok ring

end Readers

/-- The writer's side. -/
structure Storage (κ : Type) where
  maxObjectSize : Int
  nReaders : Nat
  ring : RingBuffer
  /-- Key to address and monotonic id. -/
  keyIndex : PyDict κ (Int × Nat)
  /-- Monotonic id to key. -/
  idIndex : PyDict Nat κ
  /-- How often the writer has counted an id. -/
  writerFlag : PyDict Nat Nat

namespace Storage

variable {κ V : Type} [DecidableEq κ] (s : Storage κ) (key : κ)

def isCached : Bool := (s.keyIndex.get? key).isSome

def incrementWriterFlag (id : Nat) : Storage κ :=
  { s with writerFlag := s.writerFlag.set id ((s.writerFlag.get? id).getD 0 + 1) }

/-- `touch` of the writer. -/
def touch : Storage κ :=
  match s.keyIndex.get? key with
  | some (_, id) => s.incrementWriterFlag id
  | none => s

/-- `default_is_free_check`; an id without a writer flag, on which it raises, is not in the ring
buffer. -/
def defaultIsFreeCheck (id : Nat) (buf : List UInt8) : Bool :=
  match s.writerFlag.get? id with
  | some writerCount => fromBytes (buf.take FLAG_BYTES) ≥ (writerCount * s.nReaders : Nat)
  | none => false

/-- The loop of `free_unused` over the freed ids, with the storage in which an unknown id raises. -/
def forget (s : Storage κ) : List Nat → Except (Storage κ) (Storage κ)
  | [] => .ok s
  | id :: rest =>
    match s.idIndex.get? id with
    | some key =>
      forget { s with
        keyIndex := s.keyIndex.pop key
        idIndex := s.idIndex.pop id
        writerFlag := s.writerFlag.pop id } rest
    | none => .error s

/-- `free_unused`. -/
def freeUnused : Except (Storage κ) (Storage κ) :=
  let (freedIds, ring) := s.ring.freeBuf s.defaultIsFreeCheck (some (2 * s.maxObjectSize))
  forget { s with ring := ring } freedIds

/-- `put` behind the allocation: the flag, the metadata and the data are written, and the object
enters the three dicts. -/
def record (bytes : List UInt8) (address : Int) (monotonicId : Nat) :
    Storage κ :=
  let view := (s.ring.accessBuf address).1
  let s := { s with ring := s.ring.write view.start (List.replicate FLAG_BYTES 0 ++ bytes) }
  let s := s.incrementWriterFlag monotonicId
  { s with
    keyIndex := s.keyIndex.set key (address, monotonicId)
    idIndex := s.idIndex.set monotonicId key }

def allocate (bytes : List UInt8) :
    Except ShmError (Int × Nat) × Storage κ :=
  match s.ring.allocateBuf (FLAG_BYTES + bytes.length) with
  | (.ok (address, id), ring) => (.ok (address, id), { s with ring := ring }.record key bytes address id)
  | (.error e, ring) => (.error e, { s with ring := ring })

/-- An allocation that frees what is unused and tries again where there is no room. -/
def allocateOrFree (bytes : List UInt8) :
    Except StoreError (Int × Nat) × Storage κ :=
  match s.allocate key bytes with
  | (.ok handed, s) => (.ok handed, s)
  | (.error .memory, s) =>
    match s.freeUnused with
    | .error s => (.error .key, s)
    | .ok s =>
      match s.allocate key bytes with
      | (.ok handed, s) => (.ok handed, s)
      | (.error e, s) => (.error (.shm e), s)
  | (.error e, s) => (.error (.shm e), s)

/-- `put`. -/
def put (serde : Serde V) (s : Storage κ) (key : κ) (value : V) :
    Except StoreError (Int × Nat) × Storage κ :=
  if s.isCached key then (.error .exists, s)
  else if (FLAG_BYTES : Int) + (serde.bytes value).length > s.maxObjectSize then (.error .tooLarge, s)
  else s.allocateOrFree key (serde.bytes value)

end Storage

/-! `ShmObjectStoreSenderCache` and `ShmObjectStoreReceiverCache` of `multimodal/cache/shm.py`: the
sender touches the hashes of a request and then gives each item as a reference into the shared
store, and each reader handles the requests in order, touching all references of one before it gets
them. -/

/-- An item of a request. -/
structure Item (κ V : Type) where
  mmHash : κ
  value : V

/-- A reference that the writer hands out, as the address and the id of an object. With it goes
what no reader sees: the object, and whether the writer counted the touch before it. -/
structure Ref (V : Type) where
  address : Int
  monotonicId : Nat
  value : Option V
  counted : Bool

/-- What a reader does with a reference: `touch`, and `get` as its read and, behind the lock, its
count. -/
inductive Op (V : Type)
  | touch (ref : Ref V)
  | read (ref : Ref V)
  | ack (ref : Ref V)

variable {κ V : Type} [DecidableEq κ]

namespace Op

def ref : Op V → Ref V
  | .touch ref | .read ref | .ack ref => ref

/-- `get_and_update_features` of a reader: all touches come first. -/
def handling (refs : List (Ref V)) : List (Op V) :=
  refs.map .touch ++ refs.flatMap fun ref => [.read ref, .ack ref]

def run (serde : Serde V) (nReaders : Nat) (ring : RingBuffer) : Op V → Except StoreError RingBuffer
  | .touch ref => touchReader ring nReaders ref.address
  | .read ref => (readObject serde ring ref.address ref.monotonicId).map fun _ => ring
  | .ack ref => incrementReaderFlag ring ref.address

end Op

/-- `get_and_update_item` of the sender: a reference, or `none` where the item goes on with its
data. It raises where an item that was cached when the request came no longer is, and where `put`
raises neither `ValueError` nor `MemoryError`. -/
def Storage.getAndUpdateItem (serde : Serde V) (s : Storage κ) (item : Item κ V) (wasCached : Bool) :
    Except StoreError (Option (Int × Nat)) × Storage κ :=
  match s.keyIndex.get? item.mmHash with
  | some (address, id) => (.ok (some (address, id)), s.incrementWriterFlag id)
  | none =>
    if wasCached then (.error (.shm .assertion), s)
    else
      match s.put serde item.mmHash item.value with
      | (.ok handed, s) => (.ok (some handed), s)
      | (.error .exists, s) | (.error .tooLarge, s) | (.error (.shm .memory), s) => (.ok none, s)
      | (.error e, s) => (.error e, s)

/-- Where the writer is in a request: it touches the items, noting which are cached, and then
updates them, collecting the references. -/
inductive Phase (κ V : Type)
  | idle
  | touching (done : List (Item κ V × Bool)) (left : List (Item κ V))
  | updating (refs : List (Ref V)) (left : List (Item κ V × Bool))

/-- The writer and its readers, each with what it has still to do. -/
structure System (κ V : Type) (n : Nat) where
  storage : Storage κ
  /-- The object put under a key last. -/
  shown : κ → Option V
  phase : Phase κ V
  todo : Fin n → List (Op V)

inductive Event (κ V : Type) (n : Nat)
  | request (items : List (Item κ V))
  | touch
  | turn
  | update
  | send
  | reader (r : Fin n)

namespace System

variable {n : Nat}

def create (n : Nat) (maxObjectSize dataBufferSize : Int) (buf : ByteMemory) : System κ V n where
  storage := {
    maxObjectSize := maxObjectSize
    nReaders := n
    ring := .create dataBufferSize buf
    keyIndex := .empty
    idIndex := .empty
    writerFlag := .empty }
  shown := fun _ => none
  phase := .idle
  todo := fun _ => []

variable (s : System κ V n)

def show' (item : Item κ V) : κ → Option V :=
  if s.storage.isCached item.mmHash then s.shown
  else Function.update s.shown item.mmHash (some item.value)

/-- A step of the writer or of a reader; a reader that raises takes no further step. -/
inductive Step (serde : Serde V) : System κ V n → Event κ V n → System κ V n → Prop
  | request {s : System κ V n} {items : List (Item κ V)} (idle : s.phase = .idle) :
      Step serde s (.request items) { s with phase := .touching [] items }
  | touch {s : System κ V n} {done : List (Item κ V × Bool)} {item : Item κ V}
      {left : List (Item κ V)} (touching : s.phase = .touching done (item :: left)) :
      Step serde s .touch { s with
        storage := s.storage.touch item.mmHash
        phase := .touching (done ++ [(item, s.storage.isCached item.mmHash)]) left }
  | turn {s : System κ V n} {done : List (Item κ V × Bool)} (touched : s.phase = .touching done []) :
      Step serde s .turn { s with phase := .updating [] done }
  | hand {s : System κ V n} {refs : List (Ref V)} {item : Item κ V} {was : Bool}
      {left : List (Item κ V × Bool)} {address : Int} {id : Nat} {storage : Storage κ}
      (updating : s.phase = .updating refs ((item, was) :: left))
      (ok : s.storage.getAndUpdateItem serde item was = (.ok (some (address, id)), storage)) :
      Step serde s .update { s with
        storage := storage
        shown := s.show' item
        phase := .updating (refs ++ [⟨address, id, s.show' item item.mmHash, was⟩]) left }
  | pass {s : System κ V n} {refs : List (Ref V)} {item : Item κ V} {was : Bool}
      {left : List (Item κ V × Bool)} {storage : Storage κ}
      (updating : s.phase = .updating refs ((item, was) :: left))
      (ok : s.storage.getAndUpdateItem serde item was = (.ok none, storage)) :
      Step serde s .update { s with storage := storage, phase := .updating refs left }
  | raise {s : System κ V n} {refs : List (Ref V)} {item : Item κ V} {was : Bool}
      {left : List (Item κ V × Bool)} {e : StoreError} {storage : Storage κ}
      (updating : s.phase = .updating refs ((item, was) :: left))
      (raised : s.storage.getAndUpdateItem serde item was = (.error e, storage)) :
      Step serde s .update { s with storage := storage, phase := .idle }
  | send {s : System κ V n} {refs : List (Ref V)} (updated : s.phase = .updating refs []) :
      Step serde s .send { s with
        phase := .idle
        todo := fun r => s.todo r ++ Op.handling refs }
  | reader {s : System κ V n} {r : Fin n} {op : Op V} {rest : List (Op V)} {ring : RingBuffer}
      (next : s.todo r = op :: rest) (ok : op.run serde n s.storage.ring = .ok ring) :
      Step serde s (.reader r) { s with
        storage := { s.storage with ring := ring }
        todo := Function.update s.todo r rest }

variable (serde : Serde V)

/-- The runs of one writer and `n` readers on a new buffer. -/
def runs (n : Nat) : TransitionSystem (System κ V n) (Event κ V n) where
  init s := ∃ maxObjectSize dataBufferSize buf, 0 < dataBufferSize ∧
    s = create n maxObjectSize dataBufferSize buf
  step := Step serde

/-- The item that the request comes to fits the four bytes of a size. -/
def Sized : Phase κ V → Prop
  | .updating _ ((item, _) :: _) =>
    (FLAG_BYTES + (serde.bytes item.value).length + MD_SIZE : Int) < 2 ^ 31
  | _ => True

/-- A reader finds `n` counts at its next touch exactly if the writer has counted that touch. -/
def RightGuess (n : Nat) (ring : RingBuffer) : List (Op V) → Prop
  | .touch ref :: _ => (n : Int) ≤ readerCount ring ref.address ↔ ref.counted = true
  | _ => True

/-- The condition under which no count goes wrong: no reader guesses wrong at a touch, and the ids
and the four-byte sizes suffice. -/
def Guessed (s : System κ V n) : Event κ V n → Prop
  | .update => s.storage.ring.metadata.len < ID_MAX ∧ Sized serde s.phase
  | .reader r => RightGuess n s.storage.ring (s.todo r)
  | .request _ | .touch | .turn | .send => True

/-- A reference whose turn it is to be read or counted is to the object put under it. -/
def Served (s : System κ V n) : Prop :=
  ∀ r ref rest, s.todo r = .read ref :: rest ∨ s.todo r = .ack ref :: rest →
    readerCount s.storage.ring ref.address + 1 < 2 ^ 31 →
    ∃ value ring, ref.value = some value ∧
      get serde s.storage.ring ref.address ref.monotonicId = .ok (value, ring)

def Drained : Prop := s.phase = .idle ∧ ∀ r, s.todo r = []

/-- The readers have counted every object as often as the writer, each of them. -/
def Balanced : Prop :=
  ∀ key address id, s.storage.keyIndex.get? key = some (address, id) →
    ∃ count, s.storage.writerFlag.get? id = some count ∧
      readerCount s.storage.ring address = (n * count : Nat)

end System

end VllmAmpere.ShmObjectStore
