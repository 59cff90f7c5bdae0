import VllmAmpere.ChunkFrames
import VllmAmpere.TransitionSystem

/-! `MessageQueue` of `distributed/device_communicators/shm_broadcast.py`: a writer and its local
readers share a ring of chunks with one flag for the writer and one for each reader, and a socket
for what is too large for a chunk. -/

open Function

namespace VllmAmpere.MessageQueue

/-- A queue; `highWater` is how many messages the publishing socket keeps for a reader, before it
drops them. -/
structure Queue (V : Type) where
  nReader : Nat
  maxChunkBytes : Nat
  maxChunks : Nat
  highWater : Nat
  pickle : Pickle V

variable {V : Type}

/-- Where the writer is in `enqueue`. -/
inductive Writer (V : Type)
  | idle
  /-- It sums the flags of the readers, up to a reader. -/
  | summing (obj : V) (k sum : Nat)
  /-- The chunk has not been read by all. -/
  | blocked (obj : V)
  /-- The chunk may be written. -/
  | clearing (obj : V)
  | writing (obj : V) (left : List (Option (List UInt8))) (offset : Nat)
  /-- It sets the flags of the readers back, up to a reader. -/
  | resetting (obj : V) (k : Nat)
  /-- The object has still to go through the socket. -/
  | sending (obj : V)

/-- Where a reader is in `dequeue`. -/
inductive Reader
  | idle
  | checking
  /-- It has read its own flag. -/
  | flagged (flag : Bool)
  /-- The chunk is not ready. -/
  | waiting
  | reading (parse : Parse)
  /-- It has read the chunk, and the object comes through the socket. -/
  | receiving

/-- The flags, the chunks, the sockets and where everyone is; and what was enqueued, and returned
to each reader. -/
structure State (q : Queue V) where
  written : Nat → Bool
  readFlag : Nat → Fin q.nReader → Bool
  chunk : Nat → List UInt8
  writer : Writer V
  writerIdx : Nat
  reader : Fin q.nReader → Reader
  readerIdx : Fin q.nReader → Nat
  socket : Fin q.nReader → List (List (List UInt8))
  enqueued : List V
  got : Fin q.nReader → List V

inductive Event (q : Queue V)
  | enqueue (obj : V)
  | writer
  | enqueueTimeout
  | dequeue (r : Fin q.nReader)
  | reader (r : Fin q.nReader)
  /-- In `acquire_read`. -/
  | dequeueTimeout (r : Fin q.nReader)
  /-- In `recv`. -/
  | recvTimeout (r : Fin q.nReader)

namespace State

variable {q : Queue V}

def overflows (q : Queue V) (obj : V) : Bool := q.pickle.overflows q.maxChunkBytes obj

variable (s : State q)

def writerStep : Option (State q) :=
  match s.writer with
  | .idle => none
  | .summing obj k sum =>
    if h : k < q.nReader then
      some { s with
        writer := .summing obj (k + 1) (sum + (s.readFlag s.writerIdx ⟨k, h⟩).toNat) }
    else if s.written s.writerIdx ∧ sum ≠ q.nReader then some { s with writer := .blocked obj }
    else some { s with writer := .clearing obj }
  | .blocked obj => some { s with writer := .summing obj 0 0 }
  | .clearing obj =>
    some { s with
      written := update s.written s.writerIdx false
      writer := .writing obj (q.pickle.pieces q.maxChunkBytes obj) 0 }
  | .writing obj (some bytes :: left) offset =>
    match splice (s.chunk s.writerIdx) offset bytes with
    | some buf =>
      some { s with
        chunk := update s.chunk s.writerIdx buf
        writer := .writing obj left (offset + bytes.length) }
    | none => some { s with writer := .idle }
  -- the exception leaves the chunk unwritten and the index where it is
  | .writing _ (none :: _) _ => some { s with writer := .idle }
  | .writing obj [] _ => some { s with writer := .resetting obj 0 }
  | .resetting obj k =>
    if h : k < q.nReader then
      some { s with
        readFlag := update s.readFlag s.writerIdx
          (update (s.readFlag s.writerIdx) ⟨k, h⟩ false)
        writer := .resetting obj (k + 1) }
    else
      some { s with
        written := update s.written s.writerIdx true
        writerIdx := (s.writerIdx + 1) % q.maxChunks
        enqueued := s.enqueued ++ [obj]
        writer := if overflows q obj then .sending obj else .idle }
  | .sending obj =>
    some { s with
      socket := fun r =>
        if (s.socket r).length < q.highWater then s.socket r ++ [q.pickle.allBuffers obj]
        else s.socket r
      writer := .idle }

variable (r : Fin q.nReader)

/-- `dequeue` of a reader returns, with what it has loaded. -/
def returns (loaded : Option V) : State q :=
  { s with
    reader := update s.reader r .idle
    got := update s.got r (s.got r ++ loaded.toList) }

/-- A reader has read its chunk: it sets its flag and goes on to the next chunk. -/
def take : State q :=
  { s with
    readFlag := update s.readFlag (s.readerIdx r)
      (update (s.readFlag (s.readerIdx r)) r true)
    readerIdx := update s.readerIdx r ((s.readerIdx r + 1) % q.maxChunks) }

def readerStep : Option (State q) :=
  match s.reader r with
  | .idle => none
  | .checking =>
    some { s with
      reader := update s.reader r (.flagged (s.readFlag (s.readerIdx r) r)) }
  | .flagged flag =>
    if s.written (s.readerIdx r) ∧ ¬flag then
      some { s with reader := update s.reader r (.reading .overflow) }
    else some { s with reader := update s.reader r .waiting }
  | .waiting => some { s with reader := update s.reader r .checking }
  | .reading (.done (some buffers)) => some ((s.take r).returns r (q.pickle.load buffers))
  | .reading (.done none) =>
    some { s.take r with reader := update s.reader r .receiving }
  | .reading parse =>
    some { s with
      reader := update s.reader r (.reading (parse.step (s.chunk (s.readerIdx r)))) }
  | .receiving =>
    match s.socket r with
    | [] => none
    | buffers :: rest =>
      some ({ s with socket := update s.socket r rest }.returns r
        (q.pickle.load buffers))

/-- The state behind an event, if the event can happen. -/
def step : Event q → Option (State q)
  | .enqueue obj =>
    match s.writer with
    | .idle => some { s with writer := .summing obj 0 0 }
    | _ => none
  | .writer => s.writerStep
  | .enqueueTimeout =>
    match s.writer with
    | .blocked _ => some { s with writer := .idle }
    | _ => none
  | .dequeue r =>
    match s.reader r with
    | .idle => some { s with reader := update s.reader r .checking }
    | _ => none
  | .reader r => s.readerStep r
  | .dequeueTimeout r =>
    match s.reader r with
    | .waiting => some { s with reader := update s.reader r .idle }
    | _ => none
  | .recvTimeout r =>
    match s.reader r with
    | .receiving => some { s with reader := update s.reader r .idle }
    | _ => none

def create (q : Queue V) (chunk : Nat → List UInt8) : State q where
  written := fun _ => false
  readFlag := fun _ _ => false
  chunk := chunk
  writer := .idle
  writerIdx := 0
  reader := fun _ => .idle
  readerIdx := fun _ => 0
  socket := fun _ => []
  enqueued := []
  got := fun _ => []

/-- The runs of a writer and its readers; shared memory of no bytes cannot be created. -/
def runs (q : Queue V) : TransitionSystem (State q) (Event q) where
  init s := 0 < q.maxChunks ∧
    ∃ chunk, (∀ k, (chunk k).length = q.maxChunkBytes) ∧ s = create q chunk
  step s event s' := s.step event = some s'

def HasRoom : Writer V → Prop
  | .sending _ => ∀ r, (s.socket r).length < q.highWater
  | .idle | .summing .. | .blocked _ | .clearing _ | .writing .. | .resetting .. => True

/-- The condition under which the ring and the socket stay in line: no reader gives up waiting for
an object that comes through the socket, and none is sent to a reader for which the socket has no
room. -/
def InLine : Event q → Prop
  | .recvTimeout _ => False
  | .writer => HasRoom s s.writer
  | .enqueue _ | .enqueueTimeout | .dequeue _ | .reader _ | .dequeueTimeout _ => True

end State

end VllmAmpere.MessageQueue
