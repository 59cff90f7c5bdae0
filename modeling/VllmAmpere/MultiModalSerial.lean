import Mathlib.Data.List.Forall2

/-! Multimodal arguments over the wire: `MsgpackEncoder` and `MsgpackDecoder` of
`serial_utils.py` on `MultiModalKwargsItems`. -/

open List

namespace VllmAmpere.MultiModalSerial

abbrev Bytes := List UInt8

inductive Number where
  | bool (value : Bool)
  | int (value : Int)
  | float (bits : UInt64)

/-- The values that `msgpack` writes by itself; tuples are arrays too. -/
inductive Native where
  | none
  | number (value : Number)
  | str (value : String)
  | ext (code : Nat) (data : Bytes)
  | array (items : List Native)
  | map (items : List (String × Native))

/-- What `torch` says of its dtypes: `str` without its prefix, `getattr` and `itemsize`. -/
structure Torch (D : Type) where
  name : D → String
  dtype : String → Option D
  itemsize : D → Nat

structure Torch.Lawful {D : Type} (torch : Torch D) : Prop where
  dtype_name : ∀ d, torch.dtype (torch.name d) = some d
  itemsize_pos : ∀ d, 0 < torch.itemsize d

def numel : List Nat → Nat
  | [] => 1
  | n :: shape => n * numel shape

theorem numel_eq_zero {shape : List Nat} : numel shape = 0 ↔ 0 ∈ shape := by
  induction shape with
  | nil => simp [numel]
  | cons n shape ih => rw [numel, Nat.mul_eq_zero, ih, mem_cons, eq_comm]

/-- A tensor as its contiguous bytes. -/
structure Tensor {D : Type} (torch : Torch D) where
  dtype : D
  shape : List Nat
  data : Bytes
  nbytes : data.length = torch.itemsize dtype * numel shape

variable {D : Type} {torch : Torch D}

inductive NestedTensors (torch : Torch D) where
  | tensor (t : Tensor torch)
  | number (value : Number)
  | list (items : List (NestedTensors torch))

/-- A `slice`, or a sequence of such, which is a tuple or a list. -/
inductive Slices where
  | slice (start stop step : Option Int)
  | seq (tuple : Bool) (items : List Slices)

inductive MultiModalField where
  | batched (keepOnCpu : Bool)
  | flat (keepOnCpu : Bool) (slices : Slices) (dim : Int)
  | shared (keepOnCpu : Bool) (batchSize : Int)

structure MultiModalFieldElem (torch : Torch D) where
  data : Option (NestedTensors torch)
  field : MultiModalField

abbrev MultiModalKwargsItem (torch : Torch D) := List (String × MultiModalFieldElem torch)

abbrev MultiModalKwargsItems (torch : Torch D) := List (String × List (MultiModalKwargsItem torch))

def CUSTOM_TYPE_RAW_VIEW : Nat := 3

/-- `MsgpackEncoder` without a consumer of tensors. -/
structure MsgpackEncoder (torch : Torch D) where
  sizeThreshold : Nat
  isCpu : Tensor torch → Bool

namespace MsgpackEncoder

variable (e : MsgpackEncoder torch)

def encodeTensor (t : Tensor torch) : StateM (List Bytes) Native := do
  let data ←
    if t.data.length < e.sizeThreshold ∧ e.isCpu t then
      pure (.ext CUSTOM_TYPE_RAW_VIEW t.data)
    else
      modifyGet fun auxBuffers =>
        (.number (.int auxBuffers.length), auxBuffers ++ [t.data])
  return .array [.str (torch.name t.dtype), .array (t.shape.map fun n => .number (.int (.ofNat n))), data]

def encodeNestedTensors : NestedTensors torch → StateM (List Bytes) Native
  | .tensor t => e.encodeTensor t
  | .number value => return .number value
  | .list items => return .array (← items.mapM encodeNestedTensors)

def encodeBound : Option Int → Native
  | none => .none
  | some i => .number (.int i)

/-- What `msgpack` and the hook make of slices. -/
def encodeSlices : Slices → Native
  | .slice start stop step => .array [encodeBound start, encodeBound stop, encodeBound step]
  | .seq _ items => .array (items.map encodeSlices)

/-- `MMF_CLASS_TO_FACTORY`. -/
def factoryName : MultiModalField → String
  | .batched _ => "batched"
  | .flat .. => "flat"
  | .shared .. => "shared"

/-- The fields of the dataclass, in order. -/
def factoryKw : MultiModalField → List (String × Native)
  | .batched keepOnCpu => [("keep_on_cpu", .number (.bool keepOnCpu))]
  | .flat keepOnCpu slices dim => [("keep_on_cpu", .number (.bool keepOnCpu)),
      ("slices", encodeSlices slices), ("dim", .number (.int dim))]
  | .shared keepOnCpu batchSize => [("keep_on_cpu", .number (.bool keepOnCpu)),
      ("batch_size", .number (.int batchSize))]

def encodeMmField (field : MultiModalField) : Native :=
  .array [.str (factoryName field), .map (factoryKw field)]

def encodeData : Option (NestedTensors torch) → StateM (List Bytes) Native
  | none => return .none
  | some data => e.encodeNestedTensors data

def encodeMmFieldElem (elem : MultiModalFieldElem torch) : StateM (List Bytes) Native := do
  let data ← e.encodeData elem.data
  return .map [("data", data), ("field", encodeMmField elem.field)]

def encodeMmItem (item : MultiModalKwargsItem torch) : StateM (List Bytes) Native :=
  return .map (← item.mapM fun kv => (kv.1, ·) <$> e.encodeMmFieldElem kv.2)

def encodeItemlist (itemlist : List (MultiModalKwargsItem torch)) : StateM (List Bytes) Native :=
  return .array (← itemlist.mapM e.encodeMmItem)

def encodeMmItems (items : MultiModalKwargsItems torch) : StateM (List Bytes) Native :=
  return .map (← items.mapM fun kv => (kv.1, ·) <$> e.encodeItemlist kv.2)

/-- The message in front of the buffers that were set aside. -/
def encode (pack : Native → Bytes) (items : MultiModalKwargsItems torch) : List Bytes :=
  let (message, auxBuffers) := e.encodeMmItems items [[]]
  auxBuffers.set 0 (pack message)

end MsgpackEncoder

namespace MsgpackDecoder

/-- `isinstance(data, int)`. -/
def Number.asInt : Number → Option Int
  | .bool b => some b.toNat
  | .int i => some i
  | .float _ => none

/-- An element of a list; a negative index counts from the end. -/
def item (auxBuffers : List Bytes) : Int → Option Bytes
  | .ofNat i => auxBuffers[i]?
  | .negSucc i => auxBuffers.reverse[i]?

def asSize : Native → Option Nat
  | .number (.int (.ofNat n)) => some n
  | _ => none

/-- `view` with a dtype and a shape, or `empty` of no bytes. -/
def view (torch : Torch D) (dtype : D) (shape : List Nat) (buffer : Bytes) :
    Option (Tensor torch) :=
  if empty : buffer = [] then
    if zero : 0 ∈ shape then
      some ⟨dtype, shape, [], by rw [numel_eq_zero.mpr zero]; rfl⟩
    else none
  else if fits : buffer.length = torch.itemsize dtype * numel shape then
    some ⟨dtype, shape, buffer, fits⟩
  else none

/-- The data in the message, or the buffer that it stands for. -/
def bufferOf (auxBuffers : List Bytes) : Native → Option Bytes
  | .number value => (Number.asInt value).bind (item auxBuffers)
  | .ext _ data => some data
  | _ => none

def decodeTensor (torch : Torch D) (auxBuffers : List Bytes) :
    List Native → Option (Tensor torch)
  | [.str dtype, .array shape, data] => do
    let buffer ← bufferOf auxBuffers data
    view torch (← torch.dtype dtype) (← shape.mapM asSize) buffer
  | _ => none

def decodeNestedTensors (torch : Torch D) (auxBuffers : List Bytes) :
    Native → Option (NestedTensors torch)
  | .number value => some (.number value)
  | .array items =>
    match items.head? with
    | some (.str _) => (decodeTensor torch auxBuffers items).map .tensor
    | _ => (items.mapM (decodeNestedTensors torch auxBuffers)).map .list
  | _ => none

def asBound : Native → Option (Option Int)
  | .none => some none
  | .number (.int i) => some (some i)
  | _ => none

def decodeNestedSlices : Native → Option Slices
  | .array items =>
    match items.head? with
    | none | some (.array _) => (items.mapM decodeNestedSlices).map (.seq false)
    | _ =>
      match items.mapM asBound with
      | some [stop] => some (.slice none stop none)
      | some [start, stop] => some (.slice start stop none)
      | some [start, stop, step] => some (.slice start stop step)
      | _ => none
  | _ => none

def asBool : Native → Option Bool
  | .number (.bool b) => some b
  | _ => none

def asInt : Native → Option Int
  | .number (.int i) => some i
  | _ => none

/-- A keyword with a default. -/
def keyword {α : Type} (kw : List (String × Native)) (key : String) (default : α)
    (as : Native → Option α) : Option α :=
  match kw.lookup key with
  | none => some default
  | some value => as value

/-- The factories of `MultiModalFieldConfig`, which take no other keywords. -/
def factory (name : String) (kw : List (String × Native)) : Option MultiModalField := do
  let keepOnCpu ← keyword kw "keep_on_cpu" false asBool
  let keys := kw.map Prod.fst
  match name with
  | "batched" =>
    if keys ⊆ ["keep_on_cpu"] then some (.batched keepOnCpu) else none
  | "flat" =>
    let slices ← (← kw.lookup "slices") |> decodeNestedSlices
    if keys ⊆ ["slices", "dim", "keep_on_cpu"] then
      some (.flat keepOnCpu slices (← keyword kw "dim" 0 asInt))
    else none
  | "shared" =>
    let batchSize ← (← kw.lookup "batch_size") |> asInt
    if keys ⊆ ["batch_size", "keep_on_cpu"] then some (.shared keepOnCpu batchSize) else none
  | _ => none

def decodeData (torch : Torch D) (auxBuffers : List Bytes) :
    Native → Option (Option (NestedTensors torch))
  | .none => some none
  | data => (decodeNestedTensors torch auxBuffers data).map some

def decodeMmFieldElem (torch : Torch D) (auxBuffers : List Bytes) :
    Native → Option (MultiModalFieldElem torch)
  | .map obj => do
    let data ← decodeData torch auxBuffers (← obj.lookup "data")
    match (← obj.lookup "field") with
    | .array [.str name, .map kw] =>
      if obj.map Prod.fst ⊆ ["data", "field"] then some ⟨data, ← factory name kw⟩ else none
    | _ => none
  | _ => none

def decodeMmItem (torch : Torch D) (auxBuffers : List Bytes) :
    Native → Option (MultiModalKwargsItem torch)
  | .map obj => obj.mapM fun kv => (kv.1, ·) <$> decodeMmFieldElem torch auxBuffers kv.2
  | _ => none

def decodeItemlist (torch : Torch D) (auxBuffers : List Bytes) :
    Native → Option (List (MultiModalKwargsItem torch))
  | .array itemlist => itemlist.mapM (decodeMmItem torch auxBuffers)
  | _ => none

def decodeMmItems (torch : Torch D) (auxBuffers : List Bytes) :
    Native → Option (MultiModalKwargsItems torch)
  | .map obj => obj.mapM fun kv => (kv.1, ·) <$> decodeItemlist torch auxBuffers kv.2
  | _ => none

def decode (torch : Torch D) (unpack : Bytes → Option Native) (bufs : List Bytes) :
    Option (MultiModalKwargsItems torch) := do
  decodeMmItems torch bufs (← unpack (← bufs.head?))

end MsgpackDecoder

/-- The buffers that the tensors of a message refer to, in order. -/
def indexes : Native → List Nat
  | .array items =>
    match items with
    | .str _ :: rest =>
      match rest with
      | [_, .number (.int i)] => [i.toNat]
      | _ => []
    | items => items.flatMap indexes
  | .map items => items.flatMap fun kv => indexes kv.2
  | _ => []
termination_by value => sizeOf value
decreasing_by
  · have smaller := sizeOf_lt_of_mem ‹_›
    simp only [Native.array.sizeOf_spec]
    omega
  · have smaller := sizeOf_lt_of_mem ‹_›
    obtain ⟨key, value⟩ := kv
    simp only [Native.map.sizeOf_spec, Prod.mk.sizeOf_spec] at smaller ⊢
    omega

/-- An action whose value is decoded to `x`, with the buffers it sets aside; the value refers
to each of these once. -/
def Sends {α ω : Type} (refs : ω → List Nat) (dec : List Bytes → ω → Option α)
    (m : StateM (List Bytes) ω) (x : α) : Prop :=
  ∀ bufs, ∃ more, (m bufs).2 = bufs ++ more ∧
    refs (m bufs).1 = List.range' bufs.length more.length ∧
    ∀ before rest, before.length = bufs.length →
      dec (before ++ (more ++ rest)) (m bufs).1 = some x

section sends

variable {α β γ ω ω' : Type} {refs : ω → List Nat} {dec : List Bytes → ω → Option α}
  {m : StateM (List Bytes) ω} {x : α}

theorem Sends.map (h : Sends refs dec m x) {refs' : ω' → List Nat}
    {dec' : List Bytes → ω' → Option γ} {g : ω → ω'} {y : γ}
    (same : ∀ bufs, refs' (g (m bufs).1) = refs (m bufs).1)
    (read : ∀ bufs bufs', dec bufs (m bufs').1 = some x → dec' bufs (g (m bufs').1) = some y) :
    Sends refs' dec' (g <$> m) y := by
  intro bufs
  obtain ⟨more, state, own, decoded⟩ := h bufs
  exact ⟨more, state, (same bufs).trans own,
    fun before rest length => read _ bufs (decoded before rest length)⟩

theorem Sends.keyed (key : String) (h : Sends refs dec m x) :
    Sends (fun kv => refs kv.2) (fun bufs kv => (kv.1, ·) <$> dec bufs kv.2) ((key, ·) <$> m)
      (key, x) :=
  h.map (fun _ => rfl) fun _ _ read => by rw [read]; rfl

theorem Sends.each {enc : β → StateM (List Bytes) ω} {f : β → α} {xs : List β}
    (h : ∀ x ∈ xs, Sends refs dec (enc x) (f x)) :
    Sends (fun vs => vs.flatMap refs) (fun bufs vs => vs.mapM (dec bufs)) (xs.mapM enc)
      (xs.map f) := by
  induction xs with
  | nil => exact fun bufs => ⟨[], (append_nil bufs).symm, rfl, fun _ _ _ => rfl⟩
  | cons x xs ih =>
    obtain ⟨first, later⟩ := forall_mem_cons.mp h
    intro bufs
    obtain ⟨more, state, own, decoded⟩ := first bufs
    obtain ⟨more', state', own', decoded'⟩ := ih later (bufs ++ more)
    dsimp only at own' decoded' ⊢
    have run : (x :: xs).mapM enc bufs = ((enc x bufs).1 :: (xs.mapM enc (enc x bufs).2).1,
        (xs.mapM enc (enc x bufs).2).2) := by
      rw [mapM_cons]
      rfl
    rw [run, state]
    refine ⟨more ++ more', by rw [state', append_assoc], ?_, fun before rest length => ?_⟩
    · rw [flatMap_cons, own, own', length_append, length_append, range'_append_1]
    · have here := decoded before (more' ++ rest) length
      have there := decoded' (before ++ more) rest (by rw [length_append, length_append,
        length])
      rw [append_assoc] at there
      rw [append_assoc, mapM_cons, here, there]
      rfl

theorem mapM_map_some {f : β → α} {enc : β → ω} {dec : ω → Option α} {xs : List β}
    (h : ∀ x ∈ xs, dec (enc x) = some (f x)) : (xs.map enc).mapM dec = some (xs.map f) := by
  induction xs with
  | nil => rfl
  | cons x xs ih =>
    obtain ⟨first, later⟩ := forall_mem_cons.mp h
    rw [map_cons, mapM_cons, first, ih later]
    rfl

end sends

/-- What comes back: a list for every tuple of slices. -/
def Slices.listed : Slices → Slices
  | .slice start stop step => .slice start stop step
  | .seq _ items => .seq false (items.map listed)

def MultiModalField.listed : MultiModalField → MultiModalField
  | .flat keepOnCpu slices dim => .flat keepOnCpu slices.listed dim
  | field => field

def MultiModalFieldElem.listed (elem : MultiModalFieldElem torch) : MultiModalFieldElem torch :=
  { elem with field := elem.field.listed }

def MultiModalKwargsItem.listed (item : MultiModalKwargsItem torch) :
    MultiModalKwargsItem torch :=
  item.map fun kv => (kv.1, kv.2.listed)

def MultiModalKwargsItems.listed (items : MultiModalKwargsItems torch) :
    MultiModalKwargsItems torch :=
  items.map fun kv => (kv.1, kv.2.map MultiModalKwargsItem.listed)

open MsgpackEncoder MsgpackDecoder

section fields

theorem encodeSlices_array (s : Slices) : ∃ items, encodeSlices s = .array items := by
  cases s <;> rw [encodeSlices] <;> exact ⟨_, rfl⟩

theorem decode_encodeSlices (s : Slices) :
    decodeNestedSlices (encodeSlices s) = some s.listed := by
  induction s using encodeSlices.induct with
  | case1 start stop step =>
    rw [encodeSlices, decodeNestedSlices, Slices.listed]
    cases start <;> cases stop <;> cases step <;> rfl
  | case2 tuple items ih =>
    rw [encodeSlices, decodeNestedSlices, Slices.listed, mapM_map_some ih]
    cases items with
    | nil => rfl
    | cons s items =>
      obtain ⟨inner, array⟩ := encodeSlices_array s
      rw [map_cons, head?_cons, array]
      rfl

theorem factory_encode (field : MultiModalField) :
    factory (factoryName field) (factoryKw field) = some field.listed := by
  cases field <;> simp [factory, factoryName, factoryKw, keyword, MultiModalField.listed,
    lookup_cons, asBool, asInt, decode_encodeSlices]

theorem indexes_encodeMmField (field : MultiModalField) : indexes (encodeMmField field) = [] := by
  simp [encodeMmField, indexes]

end fields

section tensors

variable (e : MsgpackEncoder torch)

theorem view_self (lawful : torch.Lawful) (t : Tensor torch) :
    view torch t.dtype t.shape t.data = some t := by
  obtain ⟨dtype, shape, data, nbytes⟩ := t
  unfold view
  dsimp only
  by_cases empty : data = []
  · subst empty
    have pos := lawful.itemsize_pos dtype
    have none : numel shape = 0 :=
      (Nat.mul_eq_zero.mp nbytes.symm).resolve_left (Nat.ne_of_gt pos)
    rw [dif_pos rfl, dif_pos (numel_eq_zero.mp none)]
  · rw [dif_neg empty, dif_pos nbytes]

theorem decodeTensor_eq (lawful : torch.Lawful) (t : Tensor torch) {bufs : List Bytes}
    {data : Native} (read : bufferOf bufs data = some t.data) :
    decodeTensor torch bufs [.str (torch.name t.dtype),
      .array (t.shape.map fun n => .number (.int (.ofNat n))), data] = some t := by
  have shape : (t.shape.map fun n => Native.number (.int (.ofNat n))).mapM asSize =
      some (t.shape.map id) := mapM_map_some fun _ _ => rfl
  rw [decodeTensor, read, shape, lawful.dtype_name, map_id]
  exact view_self lawful t

theorem encodeTensor_run (t : Tensor torch) (bufs : List Bytes) :
    ∃ data, (e.encodeTensor t bufs).1 = .array [.str (torch.name t.dtype),
        .array (t.shape.map fun n => .number (.int (.ofNat n))), data] ∧
      (data = .ext CUSTOM_TYPE_RAW_VIEW t.data ∧ (e.encodeTensor t bufs).2 = bufs ∨
        data = .number (.int bufs.length) ∧ (e.encodeTensor t bufs).2 = bufs ++ [t.data]) := by
  unfold encodeTensor
  split
  · exact ⟨_, rfl, .inl ⟨rfl, rfl⟩⟩
  · exact ⟨_, rfl, .inr ⟨rfl, rfl⟩⟩

theorem sends_encodeTensor (lawful : torch.Lawful) (t : Tensor torch) :
    Sends indexes (decodeNestedTensors torch) (e.encodeTensor t) (.tensor t) := by
  intro bufs
  obtain ⟨data, value, ⟨rfl, state⟩ | ⟨rfl, state⟩⟩ := encodeTensor_run e t bufs <;>
    rw [value, state]
  · refine ⟨[], (append_nil bufs).symm, by simp [indexes], fun before rest _ => ?_⟩
    rw [decodeNestedTensors, head?_cons, decodeTensor_eq lawful t rfl]
    rfl
  · refine ⟨[t.data], rfl, by simp [indexes], fun before rest length => ?_⟩
    have here : bufferOf (before ++ ([t.data] ++ rest)) (.number (.int bufs.length)) =
        some t.data := by
      simp [bufferOf, Number.asInt, item, ← length]
    rw [decodeNestedTensors, head?_cons, decodeTensor_eq lawful t here]
    rfl

theorem encodeNestedTensors_ne (x : NestedTensors torch) (bufs : List Bytes) (s : String) :
    (e.encodeNestedTensors x bufs).1 ≠ .str s := by
  cases x with
  | tensor t =>
    obtain ⟨data, value, -⟩ := encodeTensor_run e t bufs
    rw [encodeNestedTensors, value]
    exact fun same => by cases same
  | number value =>
    rw [encodeNestedTensors]
    exact fun same => by cases same
  | list items =>
    rw [encodeNestedTensors]
    exact fun same => by cases same

theorem indexes_array {values : List Native} (head : ∀ s, values.head? ≠ some (.str s)) :
    indexes (.array values) = values.flatMap indexes := by
  rw [indexes]
  rintro s rest rfl
  exact head s rfl

theorem decodeNestedTensors_array {values : List Native}
    (head : ∀ s, values.head? ≠ some (.str s)) (bufs : List Bytes) :
    decodeNestedTensors torch bufs (.array values) =
      (values.mapM (decodeNestedTensors torch bufs)).map .list := by
  rw [decodeNestedTensors]
  split
  · exact absurd ‹_› (head _)
  · rfl

theorem head_mapM (items : List (NestedTensors torch)) (bufs : List Bytes) (s : String) :
    ((items.mapM e.encodeNestedTensors) bufs).1.head? ≠ some (.str s) := by
  cases items with
  | nil => exact fun same => by cases same
  | cons x items =>
    rw [mapM_cons]
    exact fun same => encodeNestedTensors_ne e x bufs s (Option.some.inj same)

section

variable (lawful : torch.Lawful)
include lawful

theorem sends_encodeNestedTensors (x : NestedTensors torch) :
    Sends indexes (decodeNestedTensors torch) (e.encodeNestedTensors x) x := by
  induction x using encodeNestedTensors.induct with
  | case1 t =>
    rw [encodeNestedTensors]
    exact sends_encodeTensor e lawful t
  | case2 value =>
    rw [encodeNestedTensors]
    refine fun bufs => ⟨[], (append_nil bufs).symm, ?_, fun _ _ _ => ?_⟩
    · exact indexes.eq_def _
    · exact decodeNestedTensors.eq_def ..
  | case3 items ih =>
    rw [encodeNestedTensors]
    have sent := Sends.each (f := id) ih
    rw [map_id] at sent
    refine sent.map (g := Native.array) (fun bufs => ?_) fun bufs bufs' read => ?_
    · exact indexes_array (head_mapM e items bufs)
    · rw [decodeNestedTensors_array (head_mapM e items bufs'), read]
      rfl

theorem sends_encodeData (data : Option (NestedTensors torch)) :
    Sends indexes (decodeData torch) (e.encodeData data) data := by
  cases data with
  | none =>
    exact fun bufs => ⟨[], (append_nil bufs).symm, indexes.eq_def _, fun _ _ _ => rfl⟩
  | some data =>
    refine (sends_encodeNestedTensors e lawful data).map (g := id) (fun _ => rfl)
      fun bufs bufs' read => ?_
    cases value : (e.encodeNestedTensors data bufs').1 <;> rw [value] at read <;>
      simp_all [decodeData, decodeNestedTensors]

theorem sends_encodeMmFieldElem (elem : MultiModalFieldElem torch) :
    Sends indexes (decodeMmFieldElem torch) (e.encodeMmFieldElem elem) elem.listed := by
  refine (sends_encodeData e lawful elem.data).map
    (g := fun data => Native.map [("data", data), ("field", encodeMmField elem.field)])
    (fun bufs => ?_) fun bufs bufs' read => ?_
  · rw [indexes]
    simp [indexes_encodeMmField]
  · simp [decodeMmFieldElem, lookup_cons, read, encodeMmField, factory_encode,
      MultiModalFieldElem.listed]

theorem sends_encodeMmItem (item : MultiModalKwargsItem torch) :
    Sends indexes (decodeMmItem torch) (e.encodeMmItem item)
      (MultiModalKwargsItem.listed item) :=
  Sends.map (g := Native.map) (Sends.each (f := fun kv => (kv.1, kv.2.listed))
    fun kv _ => (sends_encodeMmFieldElem e lawful kv.2).keyed kv.1)
    (fun bufs => by rw [indexes]) fun _ _ read => by exact read

theorem sends_encodeItemlist
    (itemlist : List (MultiModalKwargsItem torch)) :
    Sends indexes (decodeItemlist torch) (e.encodeItemlist itemlist)
      (itemlist.map MultiModalKwargsItem.listed) := by
  refine Sends.map (g := Native.array) (Sends.each fun item _ => sends_encodeMmItem e lawful item)
    (fun bufs => indexes_array fun s => ?_) fun _ _ read => by exact read
  cases itemlist with
  | nil => exact fun same => by cases same
  | cons item itemlist =>
    rw [mapM_cons]
    exact fun same => by cases same

theorem sends_encodeMmItems (items : MultiModalKwargsItems torch) :
    Sends indexes (decodeMmItems torch) (e.encodeMmItems items)
      (MultiModalKwargsItems.listed items) :=
  Sends.map (g := Native.map)
    (Sends.each (f := fun kv => (kv.1, kv.2.map MultiModalKwargsItem.listed))
      fun kv _ => (sends_encodeItemlist e lawful kv.2).keyed kv.1)
    (fun bufs => by rw [indexes]) fun _ _ read => by exact read

end

/-- `MultiModalFieldElem.__eq__`: the data, and the type of the field. -/
def MultiModalFieldElem.Equal (a b : MultiModalFieldElem torch) : Prop :=
  a.data = b.data ∧ factoryName a.field = factoryName b.field

/-- Equality of the dictionaries, their lists and the dictionaries in these. -/
def MultiModalKwargsItems.Equal : MultiModalKwargsItems torch → MultiModalKwargsItems torch → Prop :=
  List.Forall₂ fun a b => a.1 = b.1 ∧
    List.Forall₂ (List.Forall₂ fun a b => a.1 = b.1 ∧ a.2.Equal b.2) a.2 b.2

theorem MultiModalKwargsItems.equal_listed (items : MultiModalKwargsItems torch) :
    MultiModalKwargsItems.Equal items (MultiModalKwargsItems.listed items) := by
  refine forall₂_map_right_iff.mpr (forall₂_same.mpr fun kv _ => ⟨rfl, ?_⟩)
  refine forall₂_map_right_iff.mpr (forall₂_same.mpr fun item _ => ?_)
  refine forall₂_map_right_iff.mpr (forall₂_same.mpr fun kv _ => ⟨rfl, rfl, ?_⟩)
  obtain ⟨key, data, field⟩ := kv
  cases field <;> rfl

/-- What was encoded is decoded, but for tuples of slices that come back as lists, and the
buffers behind the message are each of one tensor. -/
theorem decode_encode (lawful : torch.Lawful) {pack : Native → Bytes}
    {unpack : Bytes → Option Native} (items : MultiModalKwargsItems torch)
    (packed : unpack (pack (e.encodeMmItems items [[]]).1) = some (e.encodeMmItems items [[]]).1) :
    decode torch unpack (e.encode pack items) = some (MultiModalKwargsItems.listed items) ∧
      MultiModalKwargsItems.Equal items (MultiModalKwargsItems.listed items) ∧
      indexes (e.encodeMmItems items [[]]).1 =
        List.range' 1 ((e.encode pack items).length - 1) := by
  obtain ⟨more, state, own, decoded⟩ := sends_encodeMmItems e lawful items [[]]
  have bufs : e.encode pack items = pack (e.encodeMmItems items [[]]).1 :: more := by
    have set : e.encode pack items = (e.encodeMmItems items [[]]).2.set 0
      (pack (e.encodeMmItems items [[]]).1) := rfl
    rw [set, state]
    rfl
  refine ⟨?_, MultiModalKwargsItems.equal_listed items, ?_⟩
  · have read := decoded [pack (e.encodeMmItems items [[]]).1] [] rfl
    rw [append_nil] at read
    rw [bufs, decode, head?_cons]
    simp only [Option.bind_eq_bind, Option.bind_some, packed]
    exact read
  · rw [own, bufs]
    rfl

end tensors

def uint8 : Torch Unit :=
  ⟨fun _ => "uint8", fun name => if name = "uint8" then some () else none, fun _ => 1⟩

def image : MultiModalKwargsItems uint8 :=
  [("image", [[("x", ⟨some (.tensor ⟨(), [2], [7, 9], rfl⟩),
    .flat false (.seq true [.slice none (some 2) none]) 0⟩)]])]

def imageEncoder : MsgpackEncoder uint8 := ⟨2, fun _ => true⟩

def imagePacked : Bytes :=
  [0x81, 0xA5, 0x69, 0x6D, 0x61, 0x67, 0x65, 0x91, 0x81, 0xA1, 0x78, 0x82, 0xA4, 0x64, 0x61, 0x74,
    0x61, 0x93, 0xA5, 0x75, 0x69, 0x6E, 0x74, 0x38, 0x91, 0x02, 0x01, 0xA5, 0x66, 0x69, 0x65,
    0x6C, 0x64, 0x92, 0xA4, 0x66, 0x6C, 0x61, 0x74, 0x83, 0xAB, 0x6B, 0x65, 0x65, 0x70, 0x5F,
    0x6F, 0x6E, 0x5F, 0x63, 0x70, 0x75, 0xC2, 0xA6, 0x73, 0x6C, 0x69, 0x63, 0x65, 0x73, 0x91,
    0x93, 0xC0, 0x02, 0xC0, 0xA3, 0x64, 0x69, 0x6D, 0x00]

theorem decode_encode_image :
    MsgpackDecoder.decode uint8 (fun packed =>
        if packed = imagePacked then some (imageEncoder.encodeMmItems image [[]]).1 else none)
      (imageEncoder.encode (fun _ => imagePacked) image) =
        some (MultiModalKwargsItems.listed image) ∧
    MultiModalKwargsItems.Equal image (MultiModalKwargsItems.listed image) ∧
    indexes (imageEncoder.encodeMmItems image [[]]).1 =
      List.range' 1 ((imageEncoder.encode (fun _ => imagePacked) image).length - 1) :=
  decode_encode imageEncoder ⟨fun _ => rfl, fun _ => Nat.one_pos⟩ image (if_pos rfl)

end VllmAmpere.MultiModalSerial
