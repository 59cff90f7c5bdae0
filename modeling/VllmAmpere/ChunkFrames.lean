import VllmAmpere.ByteMemory

/-! What `MessageQueue` of `distributed/device_communicators/shm_broadcast.py` writes into a chunk
of its ring buffer for an object, piece by piece, and how a reader reads it again, piece by
piece. -/

open List

namespace VllmAmpere.MessageQueue

/-- `to_bytes_big`; it raises where the value needs more bytes. -/
def toBytesBig (value size : Nat) : Option (List UInt8) :=
  if value < 256 ^ size then some (lowBytes size value).reverse else none

def fromBytesBig (bytes : List UInt8) : Nat := ofLowBytes bytes.reverse

theorem length_toBytesBig {value size : Nat} {bytes : List UInt8}
    (h : toBytesBig value size = some bytes) : bytes.length = size := by
  unfold toBytesBig at h
  split at h
  · rw [← Option.some.inj h, length_reverse, length_lowBytes]
  · cases h

theorem fromBytesBig_toBytesBig {value size : Nat} {bytes : List UInt8}
    (h : toBytesBig value size = some bytes) : fromBytesBig bytes = value := by
  unfold toBytesBig at h
  split at h
  next fits =>
    rw [← Option.some.inj h, fromBytesBig, reverse_reverse, ofLowBytes_lowBytes,
      Nat.mod_eq_of_lt fits]
  · cases h

/-- `buf[start:stop]`. -/
def slice (buf : List UInt8) (start stop : Nat) : List UInt8 := (buf.take stop).drop start

theorem slice_append (before bytes behind : List UInt8) :
    slice (before ++ bytes ++ behind) before.length (before.length + bytes.length) = bytes := by
  rw [slice, ← length_append, take_left, drop_left]

/-- `buf[start:start + len(bytes)] = bytes`; it raises where the bytes do not fit. -/
def splice (buf : List UInt8) (start : Nat) (bytes : List UInt8) : Option (List UInt8) :=
  if start + bytes.length ≤ buf.length then
    some (buf.take start ++ bytes ++ buf.drop (start + bytes.length))
  else none

theorem splice_written {written buf after : List UInt8} {bytes : List UInt8} (h : written <+: buf)
    (ok : splice buf written.length bytes = some after) :
    written ++ bytes <+: after ∧ after.length = buf.length := by
  unfold splice at ok
  split at ok
  next fits =>
    cases ok
    obtain ⟨rest, rfl⟩ := h
    rw [take_left]
    refine ⟨prefix_append _ _, ?_⟩
    simp only [length_append, length_drop] at fits ⊢
    omega
  · cases ok

/-- `pickle` with a callback that keeps a buffer in the stream: the stream and the buffers that
are not in it, from which the object is loaded again. -/
structure Pickle (V : Type) where
  dumps : (List UInt8 → Bool) → V → List UInt8 × List (List UInt8)
  loads : List UInt8 → List (List UInt8) → Option V
  loads_dumps : ∀ inBand v, loads (dumps inBand v).1 (dumps inBand v).2 = some v

/-- `oob_callback`: buffers of less than 1MiB go into the stream. -/
def oobCallback (raw : List UInt8) : Bool := raw.length < 1024 * 1024

namespace Pickle

variable {V : Type} (pickle : Pickle V)

def oobBuffers (obj : V) : List (List UInt8) := (pickle.dumps oobCallback obj).2

/-- `all_buffers`. -/
def allBuffers (obj : V) : List (List UInt8) :=
  (pickle.dumps oobCallback obj).1 :: pickle.oobBuffers obj

/-- `total_bytes`: two bytes for the count of the buffers, four for the size of the main one, and
for each other one its bytes and four for its size. -/
def totalBytes (obj : V) : Nat :=
  6 + ((pickle.oobBuffers obj).map fun raw => raw.length + 4).sum

def overflows (maxChunkBytes : Nat) (obj : V) : Bool :=
  pickle.totalBytes obj + (pickle.dumps oobCallback obj).1.length ≥ maxChunkBytes

def load : List (List UInt8) → Option V
  | main :: oob => pickle.loads main oob
  | [] => none

theorem load_allBuffers (obj : V) : pickle.load (pickle.allBuffers obj) = some obj :=
  pickle.loads_dumps oobCallback obj

/-- The pieces that are written for a list of buffers, where `none` raises. -/
def inlinePieces (buffers : List (List UInt8)) : List (Option (List UInt8)) :=
  some [0] :: toBytesBig buffers.length 2 ::
    buffers.flatMap fun buffer => [toBytesBig buffer.length 4, some buffer]

def pieces (maxChunkBytes : Nat) (obj : V) : List (Option (List UInt8)) :=
  if pickle.overflows maxChunkBytes obj then [some [1]] else inlinePieces (pickle.allBuffers obj)

end Pickle

/-- Where a reader is in a chunk. -/
inductive Parse
  | overflow
  | count
  | size (left offset : Nat) (buffers : List (List UInt8))
  | body (left offset length : Nat) (buffers : List (List UInt8))
  /-- All buffers, or none where the object comes through the socket. -/
  | done (result : Option (List (List UInt8)))

namespace Parse

variable (buf : List UInt8)

/-- The next read of `dequeue`. -/
def step : Parse → Parse
  | .overflow => if buf[0]? = some 1 then .done none else .count
  | .count => .size (fromBytesBig (slice buf 1 3)) 3 []
  | .size 0 _ buffers => .done (some buffers)
  | .size (left + 1) offset buffers =>
    .body left (offset + 4) (fromBytesBig (slice buf offset (offset + 4))) buffers
  | .body left offset length buffers =>
    .size left (offset + length) (buffers ++ [slice buf offset (offset + length)])
  | .done result => .done result

def buffers (buf : List UInt8) : Nat → Nat → List (List UInt8) → List (List UInt8)
  | 0, _, buffers => buffers
  | left + 1, offset, before =>
    let length := fromBytesBig (slice buf offset (offset + 4))
    buffers buf left (offset + 4 + length)
      (before ++ [slice buf (offset + 4) (offset + 4 + length)])

def finish : Parse → Option (List (List UInt8))
  | .overflow =>
    if buf[0]? = some 1 then none else some (buffers buf (fromBytesBig (slice buf 1 3)) 3 [])
  | .count => some (buffers buf (fromBytesBig (slice buf 1 3)) 3 [])
  | .size left offset before => some (buffers buf left offset before)
  | .body left offset length before =>
    some (buffers buf left (offset + length) (before ++ [slice buf offset (offset + length)]))
  | .done result => result

theorem finish_step (parse : Parse) :
    finish buf (parse.step buf) = finish buf parse := by
  cases parse with
  | overflow =>
    rw [step, finish]
    split <;> rfl
  | count => rfl
  | size left offset before =>
    cases left with
    | zero => rfl
    | succ left => rfl
  | body left offset length before => rfl
  | done result => rfl

theorem buffers_written {sized : List (List UInt8)} {written behind : List UInt8}
    {all : List (List UInt8)}
    (pieces : all.flatMap (fun buffer => [toBytesBig buffer.length 4, some buffer]) =
    sized.map some) (acc : List (List UInt8)) :
    buffers (written ++ sized.flatten ++ behind) all.length written.length acc = acc ++ all := by
  induction all generalizing sized written acc with
  | nil => rw [append_nil, length_nil, buffers]
  | cons buffer all ih =>
    rw [flatMap_cons] at pieces
    match sized, pieces with
    | [_], pieces => simp at pieces
    | head :: _ :: sized, pieces =>
      simp only [cons_append, nil_append, map_cons, List.cons.injEq,
        Option.some.injEq] at pieces
      obtain ⟨size, rfl, pieces⟩ := pieces
      have four := length_toBytesBig size
      have first : slice (written ++ (head :: buffer :: sized).flatten ++ behind) written.length
          (written.length + 4) = head := by
        rw [← four, flatten_cons, ← append_assoc, append_assoc (written ++ head)]
        exact slice_append written head _
      have body : slice (written ++ (head :: buffer :: sized).flatten ++ behind)
          (written.length + 4) (written.length + 4 + buffer.length) = buffer := by
        rw [← four, ← length_append, flatten_cons, flatten_cons,
          ← append_assoc written, ← append_assoc (written ++ head),
          append_assoc (written ++ head ++ buffer)]
        exact slice_append (written ++ head) buffer _
      have rest : written ++ (head :: buffer :: sized).flatten ++ behind =
          (written ++ head ++ buffer) ++ sized.flatten ++ behind := by
        simp only [flatten_cons, append_assoc]
      rw [length_cons, buffers]
      simp only [first, fromBytesBig_toBytesBig size, body]
      have here : written.length + 4 + buffer.length = (written ++ head ++ buffer).length := by
        rw [length_append, length_append, four]
      rw [rest, here, ih pieces, append_assoc]
      rfl

end Parse

def Framed {V : Type} (pickle : Pickle V) (maxChunkBytes : Nat) (obj : V) (buf : List UInt8) :
    Prop :=
  ∃ written : List (List UInt8), pickle.pieces maxChunkBytes obj = written.map some ∧
    written.flatten <+: buf

theorem Framed.finish {V : Type} {pickle : Pickle V} {maxChunkBytes : Nat} {obj : V}
    {buf : List UInt8} (h : Framed pickle maxChunkBytes obj buf) : Parse.overflow.finish buf =
    if pickle.overflows maxChunkBytes obj then none else some (pickle.allBuffers obj) := by
  obtain ⟨written, pieces, behind, rfl⟩ := h
  unfold Pickle.pieces at pieces
  split at pieces
  next overflows =>
    match written, pieces with
    | [one], pieces =>
      cases pieces
      rw [if_pos overflows, Parse.finish]
      exact if_pos rfl
  next inline =>
    match written, pieces with
    | _ :: count :: sized, pieces =>
      simp only [Pickle.inlinePieces, map_cons, List.cons.injEq, Option.some.injEq] at pieces
      obtain ⟨rfl, header, pieces⟩ := pieces
      have two := length_toBytesBig header
      have many : slice (([0] :: count :: sized).flatten ++ behind) 1 3 = count := by
        have read := slice_append [0] count (sized.flatten ++ behind)
        rw [two] at read
        simp only [flatten_cons, append_assoc] at read ⊢
        exact read
      have all : Parse.buffers (([0] ++ count) ++ sized.flatten ++ behind) _ ([0] ++ count).length [] =
          [] ++ _ := Parse.buffers_written pieces []
      rw [length_append, two, nil_append] at all
      rw [if_neg inline, Parse.finish, many, fromBytesBig_toBytesBig header, if_neg (by simp)]
      refine congrArg some (Eq.trans ?_ all)
      simp only [flatten_cons, append_assoc]
      rfl

end VllmAmpere.MessageQueue
