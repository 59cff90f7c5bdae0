import Mathlib.Algebra.BigOperators.Fin
import Mathlib.Algebra.Order.BigOperators.Group.List
import VllmAmpere.ShmStoreObjects

/-! Where no reader guesses wrong at a touch, the readers' counts and what they have still to
count make up the writer's count, so that no object is freed under a reference and all are freeable
at the end; a guess goes wrong when a reader is ahead of another. -/

open List Function

namespace VllmAmpere.ShmObjectStore

open ShmRingBuffer

variable {κ V : Type} [DecidableEq κ]

namespace Op

def weight (id : Nat) : Op V → Nat
  | .touch ref => if ref.monotonicId = id ∧ ref.counted = true then 1 else 0
  | .read _ => 0
  | .ack ref => if ref.monotonicId = id then 1 else 0

def owed (id : Nat) (ops : List (Op V)) : Nat := (ops.map (weight id)).sum

theorem owed_append (id : Nat) (ops rest : List (Op V)) :
    owed id (ops ++ rest) = owed id ops + owed id rest := by
  rw [owed, map_append, sum_append, owed, owed]

theorem owed_cons (id : Nat) (op : Op V) (rest : List (Op V)) :
    owed id (op :: rest) = op.weight id + owed id rest := rfl

theorem one_le_owed {id : Nat} {ref : Ref V} {ops : List (Op V)} (mem : .ack ref ∈ ops)
    (same : ref.monotonicId = id) : 1 ≤ owed id ops := by
  have weight : weight id (.ack ref) = 1 := if_pos same
  rw [← weight]
  exact single_le_sum (fun _ _ => Nat.zero_le _) _ (mem_map_of_mem mem)

/-- Behind every operation its reference is still counted. -/
def Closed : List (Op V) → Prop
  | [] => True
  | op :: rest => (op = .ack op.ref ∨ .ack op.ref ∈ rest) ∧ Closed rest

theorem Closed.append {ops rest : List (Op V)} (h : Closed ops) (h' : Closed rest) :
    Closed (ops ++ rest) := by
  induction ops with
  | nil => exact h'
  | cons op ops ih =>
    exact ⟨h.1.imp_right fun mem => mem_append_left rest mem, ih h.2⟩

theorem Closed.ack_mem {ops : List (Op V)} (h : Closed ops) {op : Op V} (mem : op ∈ ops) :
    .ack op.ref ∈ ops := by
  induction ops with
  | nil => cases mem
  | cons first rest ih =>
    cases mem with
    | head =>
      rcases h.1 with same | behind
      · rw [← same]
        exact mem_cons_self
      · exact mem_cons_of_mem _ behind
    | tail _ mem => exact mem_cons_of_mem _ (ih h.2 mem)

theorem closed_handling (refs : List (Ref V)) : Closed (handling refs) := by
  have gets : ∀ refs : List (Ref V),
      Closed (refs.flatMap fun ref => [.read ref, .ack ref]) := fun refs => by
    induction refs with
    | nil => trivial
    | cons ref refs ih => exact ⟨.inr mem_cons_self, .inl rfl, ih⟩
  have touches : ∀ touched : List (Ref V), (∀ ref ∈ touched, ref ∈ refs) →
      Closed (touched.map .touch ++ refs.flatMap fun ref => [.read ref, .ack ref]) := by
    intro touched
    induction touched with
    | nil => exact fun _ => gets refs
    | cons ref touched ih =>
      intro sub
      refine ⟨.inr (mem_append_right _ ?_), ih fun ref mem => sub ref (mem_cons_of_mem _ mem)⟩
      exact mem_flatMap.mpr ⟨ref, sub ref mem_cons_self,
        mem_cons_of_mem _ mem_cons_self⟩
  exact touches refs fun _ mem => mem

theorem mem_handling {refs : List (Ref V)} {op : Op V} (mem : op ∈ handling refs) :
    op.ref ∈ refs := by
  rcases mem_append.mp mem with mem | mem
  · obtain ⟨ref, there, rfl⟩ := mem_map.mp mem
    exact there
  · obtain ⟨ref, there, mem⟩ := mem_flatMap.mp mem
    rcases mem_cons.mp mem with rfl | mem
    · exact there
    · rw [mem_singleton.mp mem]
      exact there

end Op

def Ref.weight (id : Nat) (ref : Ref V) : Nat :=
  if ref.monotonicId = id then 1 + ref.counted.toNat else 0

theorem Op.owed_handling (id : Nat) (refs : List (Ref V)) :
    owed id (handling refs) = (refs.map (Ref.weight id)).sum := by
  induction refs with
  | nil => rfl
  | cons ref refs ih =>
    rw [handling, owed_append] at ih ⊢
    rw [map_cons, flatMap_cons, owed_cons, cons_append, cons_append,
      nil_append, owed_cons, owed_cons, map_cons, sum_cons, ← ih]
    simp only [Op.weight, Ref.weight]
    cases ref.counted <;> by_cases same : ref.monotonicId = id <;> simp [same] <;> omega

def itemWeight (key : κ) (item : Item κ V × Bool) : Nat :=
  if item.1.mmHash = key ∧ item.2 = true then 1 else 0

namespace Phase

/-- What the request that is under way will add to the flag of an object, for each reader. -/
def pending (key : κ) (id : Nat) : Phase κ V → Nat
  | .idle => 0
  | .touching done _ => (done.map (itemWeight key)).sum
  | .updating refs left => (refs.map (Ref.weight id)).sum + (left.map (itemWeight key)).sum

def refs : Phase κ V → List (Ref V)
  | .idle | .touching _ _ => []
  | .updating refs _ => refs

def items : Phase κ V → List (Item κ V × Bool)
  | .idle => []
  | .touching done _ => done
  | .updating _ left => left

theorem one_le_pending_ref {phase : Phase κ V} {ref : Ref V} (mem : ref ∈ phase.refs) (key : κ) :
    1 ≤ phase.pending key ref.monotonicId := by
  cases phase with
  | idle => cases mem
  | touching done left => cases mem
  | updating refs left =>
    change ref ∈ refs at mem
    have one : 1 ≤ Ref.weight ref.monotonicId ref := by
      rw [Ref.weight, if_pos rfl]
      omega
    have le := single_le_sum (fun _ _ => Nat.zero_le _) _
      (mem_map_of_mem (f := Ref.weight ref.monotonicId) mem)
    rw [pending]
    omega

theorem one_le_pending_item {phase : Phase κ V} {item : Item κ V} (mem : (item, true) ∈ phase.items)
    (id : Nat) : 1 ≤ phase.pending item.mmHash id := by
  have one : itemWeight item.mmHash (item, true) = 1 := if_pos ⟨rfl, rfl⟩
  cases phase with
  | idle => cases mem
  | touching done left =>
    rw [← one]
    exact single_le_sum (fun _ _ => Nat.zero_le _) _ (mem_map_of_mem mem)
  | updating refs left =>
    change (item, true) ∈ left at mem
    have le := single_le_sum (fun _ _ => Nat.zero_le _) _
      (mem_map_of_mem (f := itemWeight item.mmHash) mem)
    rw [one] at le
    rw [pending]
    omega

end Phase

def Refers (objs : List (Obj κ V)) (ref : Ref V) : Prop :=
  ∃ o ∈ objs, o.chunk.address = ref.address ∧ o.chunk.id = ref.monotonicId ∧
    ref.value = some o.value

namespace System

variable {n : Nat} {serde : Serde V} {s s' : System κ V n} {objs : List (Obj κ V)}

/-- The counts of the readers, with what they and the request under way have still to add, are
those of the writer; no reference is to an object that has been freed. -/
structure Inv (serde : Serde V) (s : System κ V n) (objs : List (Obj κ V)) : Prop where
  holds : Holds serde s.storage objs
  readers : s.storage.nReaders = n
  shown : ∀ o ∈ objs, s.shown o.key = some o.value
  closed : ∀ r, Op.Closed (s.todo r)
  owed : ∀ r, ∀ op ∈ s.todo r, Refers objs op.ref
  collected : ∀ ref ∈ s.phase.refs, Refers objs ref
  touched : ∀ item, (item, true) ∈ s.phase.items → ∃ o ∈ objs, o.key = item.mmHash
  counts : ∀ o ∈ objs, readerCount s.storage.ring o.chunk.address +
    (∑ r, Op.owed o.chunk.id (s.todo r) + n * s.phase.pending o.key o.chunk.id : Nat) =
      (n * o.writers : Nat)

theorem Inv.created {maxObjectSize dataBufferSize : Int} (pos : 0 < dataBufferSize)
    (buf : ByteMemory) :
    Inv serde (System.create n maxObjectSize dataBufferSize buf : System κ V n) [] where
  holds :=
    { stored := ⟨.created pos buf, nofun, nofun⟩
      dicts := ⟨nodup_nil, nodup_nil, by simp [System.create], by simp [System.create],
        by simp [System.create]⟩ }
  readers := rfl
  shown := nofun
  closed := fun _ => trivial
  owed := nofun
  collected := nofun
  touched := nofun
  counts := nofun

variable {o : Obj κ V}

theorem Inv.unreferenced (h : Inv serde s objs) (pos : 0 < n) (mem : o ∈ objs)
    (free : (o.writers * s.storage.nReaders : Nat) ≤ readerCount s.storage.ring o.chunk.address) :
    (∀ r, Op.owed o.chunk.id (s.todo r) = 0) ∧ s.phase.pending o.key o.chunk.id = 0 := by
  have counts := h.counts o mem
  rw [h.readers, Nat.mul_comm] at free
  have none : ∑ r, Op.owed o.chunk.id (s.todo r) + n * s.phase.pending o.key o.chunk.id = 0 := by
    omega
  have both := Nat.add_eq_zero_iff.mp none
  refine ⟨fun r => ?_, ?_⟩
  · exact Finset.sum_eq_zero_iff.mp both.1 r (Finset.mem_univ r)
  · exact (Nat.mul_eq_zero.mp both.2).resolve_left pos.ne'

/-- After some unreferenced objects are freed, every reference is to one of the others. -/
theorem Inv.freed (h : Inv serde s objs) (pos : 0 < n) {k : Nat}
    (free : ∀ o ∈ objs.take k, (o.writers * s.storage.nReaders : Nat) ≤
    readerCount s.storage.ring o.chunk.address) :
    (∀ r, ∀ op ∈ s.todo r, Refers (objs.drop k) op.ref) ∧
    (∀ ref ∈ s.phase.refs, Refers (objs.drop k) ref) ∧
    ∀ item, (item, true) ∈ s.phase.items → ∃ o ∈ objs.drop k, o.key = item.mmHash := by
  have kept : ∀ o ∈ objs, ¬((∀ r, Op.owed o.chunk.id (s.todo r) = 0) ∧
      s.phase.pending o.key o.chunk.id = 0) → o ∈ objs.drop k := fun o mem referenced => by
    rw [← take_append_drop k objs, mem_append] at mem
    refine mem.resolve_left fun early => referenced ?_
    exact h.unreferenced pos (mem_of_mem_take early) (free o early)
  refine ⟨fun r op mem => ?_, fun ref mem => ?_, fun item mem => ?_⟩
  · obtain ⟨o, there, address, id, value⟩ := h.owed r op mem
    refine ⟨o, kept o there fun none => ?_, address, id, value⟩
    have one := Op.one_le_owed ((h.closed r).ack_mem mem) id.symm
    have := none.1 r
    omega
  · obtain ⟨o, there, address, id, value⟩ := h.collected ref mem
    refine ⟨o, kept o there fun none => ?_, address, id, value⟩
    have one := Phase.one_le_pending_ref mem o.key
    rw [← id, none.2] at one
    omega
  · obtain ⟨o, there, key⟩ := h.touched item mem
    refine ⟨o, kept o there fun none => ?_, key⟩
    have one := Phase.one_le_pending_item mem o.chunk.id
    rw [← key, none.2] at one
    omega

theorem refers_bump {ref : Ref V} (key : κ) (h : Refers objs ref) : Refers (bump key objs) ref := by
  obtain ⟨o, mem, address, id, value⟩ := h
  refine exists_mem_bump.mpr ⟨o, mem, ?_⟩
  split <;> exact ⟨address, id, value⟩

theorem exists_key_bump {key k : κ} (h : ∃ o ∈ objs, o.key = k) : ∃ o ∈ bump key objs, o.key = k := by
  obtain ⟨o, mem, same⟩ := h
  refine exists_mem_bump.mpr ⟨o, mem, ?_⟩
  split <;> exact same

variable {storage : Storage κ}

/-- The writer counts an object for a reader, and a touch or a reference that is due for it: what
is pending goes up by one for its object, and stays for the others. -/
theorem Inv.count (h : Inv serde s objs) {phase : Phase κ V}
    (holds : Holds serde storage (bump o.key objs)) (mem : o ∈ objs)
    (ring : storage.ring = s.storage.ring) (readers : storage.nReaders = s.storage.nReaders)
    (collected : ∀ ref ∈ phase.refs, Refers objs ref)
    (touched : ∀ item, (item, true) ∈ phase.items → ∃ o ∈ objs, o.key = item.mmHash)
    (one : phase.pending o.key o.chunk.id = s.phase.pending o.key o.chunk.id + 1)
    (others : ∀ o' ∈ objs, o'.key ≠ o.key →
      phase.pending o'.key o'.chunk.id = s.phase.pending o'.key o'.chunk.id) :
    Inv serde { s with storage := storage, phase := phase } (bump o.key objs) where
  holds := holds
  readers := readers.trans h.readers
  shown := fun o' mem' => by
    obtain ⟨o', there, rfl⟩ := mem_map.mp mem'
    have shown := h.shown o' there
    split <;> exact shown
  closed := h.closed
  owed := fun r op mem => refers_bump o.key (h.owed r op mem)
  collected := fun ref mem => refers_bump o.key (collected ref mem)
  touched := fun item mem => exists_key_bump (touched item mem)
  counts := fun o' mem' => by
    obtain ⟨o', there, rfl⟩ := mem_map.mp mem'
    have counts := h.counts o' there
    by_cases same : o'.key = o.key
    · rw [h.holds.dicts.key_inj there mem same] at counts ⊢
      rw [if_pos rfl]
      simp only [ring, one, Nat.mul_add, Nat.mul_one]
      omega
    · rw [if_neg same]
      simp only [ring, others o' there same]
      exact counts

theorem pending_touching (key : κ) (id : Nat) (done : List (Item κ V × Bool)) (item : Item κ V × Bool)
    (left left' : List (Item κ V)) : (Phase.touching (done ++ [item]) left).pending key id =
    (Phase.touching done left').pending key id + itemWeight key item := by
  simp only [Phase.pending, map_append, map_singleton, sum_append,
    sum_singleton]

theorem Inv.touch (h : Inv serde s objs) {done : List (Item κ V × Bool)} {item : Item κ V}
    {left : List (Item κ V)} (touching : s.phase = .touching done (item :: left)) :
    Inv serde { s with
      storage := s.storage.touch item.mmHash
      phase := .touching (done ++ [(item, s.storage.isCached item.mmHash)]) left }
      (bump item.mmHash objs) := by
  have touched := h.holds.touch item.mmHash
  have ring : (s.storage.touch item.mmHash).ring = s.storage.ring ∧
      (s.storage.touch item.mmHash).nReaders = s.storage.nReaders := by
    unfold Storage.touch
    split <;> exact ⟨rfl, rfl⟩
  have before : ∀ item', (item', true) ∈ done → ∃ o ∈ objs, o.key = item'.mmHash := fun item' mem =>
    h.touched item' (by rw [touching]; exact mem)
  cases cached : s.storage.isCached item.mmHash with
  | true =>
    obtain ⟨o, mem, key⟩ := h.holds.dicts.isCached_iff.mp cached
    rw [← key] at touched ⊢
    refine h.count touched mem (key ▸ ring.1) (key ▸ ring.2) nofun ?_ ?_ ?_
    · intro item' mem'
      rcases mem_append.mp mem' with mem' | mem'
      · exact before item' mem'
      · cases mem_singleton.mp mem'
        exact ⟨o, mem, key⟩
    · rw [pending_touching o.key o.chunk.id done (item, true) left (item :: left), ← touching,
        itemWeight, if_pos ⟨key.symm, rfl⟩]
    · intro o' _ ne
      rw [pending_touching o'.key o'.chunk.id done (item, true) left (item :: left), ← touching,
        itemWeight, if_neg fun same => ne (same.1.symm.trans key.symm)]
      rfl
  | false =>
    have absent : ∀ o ∈ objs, o.key ≠ item.mmHash := fun o mem same => by
      have there := h.holds.dicts.isCached_iff.mpr ⟨o, mem, same⟩
      cases there.symm.trans cached
    have same : bump item.mmHash objs = objs :=
      (map_congr_left fun o mem => if_neg (absent o mem)).trans (map_id objs)
    rw [same] at touched ⊢
    exact
      { h with
        holds := touched
        readers := ring.2.trans h.readers
        collected := nofun
        touched := fun item' mem' => by
          rcases mem_append.mp mem' with mem' | mem'
          · exact before item' mem'
          · cases mem_singleton.mp mem'
        counts := fun o mem => by
          have counts := h.counts o mem
          simp only [ring.1]
          rw [pending_touching o.key o.chunk.id done (item, false) left (item :: left), ← touching,
            itemWeight, if_neg (by simp)]
          exact counts }

theorem Inv.turn (h : Inv serde s objs) {done : List (Item κ V × Bool)}
    (touched : s.phase = .touching done []) :
    Inv serde { s with phase := .updating [] done } objs :=
  { h with
    collected := nofun
    touched := fun item mem => h.touched item (by rw [touched]; exact mem)
    counts := fun o mem => by
      have counts := h.counts o mem
      rw [touched] at counts
      simpa [Phase.pending] using counts }

variable {refs : List (Ref V)}

theorem Inv.send (h : Inv serde s objs) (updated : s.phase = .updating refs []) :
    Inv serde { s with
      phase := .idle
      todo := fun r => s.todo r ++ Op.handling refs } objs :=
  { h with
    closed := fun r => (h.closed r).append (Op.closed_handling refs)
    owed := fun r op mem => by
      rcases mem_append.mp mem with mem | mem
      · exact h.owed r op mem
      · exact h.collected _ (by rw [updated]; exact Op.mem_handling mem)
    collected := nofun
    touched := nofun
    counts := fun o mem => by
      have counts := h.counts o mem
      rw [updated] at counts
      simp only [Phase.pending, map_nil, sum_nil, Nat.add_zero, Nat.mul_zero] at counts ⊢
      simp only [Op.owed_append, Op.owed_handling, Finset.sum_add_distrib, Finset.sum_const,
        Finset.card_univ, Fintype.card_fin, smul_eq_mul]
      exact counts }

theorem sum_update (f : List (Op V) → Nat) (todo : Fin n → List (Op V)) (r : Fin n)
    (rest : List (Op V)) :
    ∑ r', f (update todo r rest r') + f (todo r) = ∑ r', f (todo r') + f rest := by
  rw [← Finset.add_sum_erase _ _ (Finset.mem_univ r), ← Finset.add_sum_erase _ _ (Finset.mem_univ r),
    update_self]
  have others : ∑ r' ∈ Finset.univ.erase r, f (update todo r rest r') =
      ∑ r' ∈ Finset.univ.erase r, f (todo r') :=
    Finset.sum_congr rfl fun r' mem => by
      rw [update_of_ne (Finset.ne_of_mem_erase mem)]
  omega

omit [DecidableEq κ] in
/-- An operation adds its weight to the flag of its object, unless a touch guesses wrong. -/
theorem run_counts {ring ring' : RingBuffer} (h : Stored serde ring objs) {op : Op V}
    (mem : o ∈ objs) (address : o.chunk.address = op.ref.address)
    (id : o.chunk.id = op.ref.monotonicId)
    {rest : List (Op V)} (guess : RightGuess n ring (op :: rest))
    (ok : op.run serde n ring = .ok ring') : Stored serde ring' objs ∧
    readerCount ring' o.chunk.address = readerCount ring o.chunk.address + op.weight o.chunk.id ∧
    ∀ o' ∈ objs, o' ≠ o →
    readerCount ring' o'.chunk.address = readerCount ring o'.chunk.address := by
  cases op with
  | touch ref =>
    change o.chunk.address = ref.address at address
    change o.chunk.id = ref.monotonicId at id
    change touchReader ring n ref.address = .ok ring' at ok
    have right : (n : Int) ≤ readerCount ring ref.address ↔ ref.counted = true := guess
    rw [← address] at ok right
    unfold touchReader at ok
    split at ok
    next reached =>
      rw [Op.weight, if_pos ⟨id.symm, right.mp reached⟩]
      exact h.increment mem ok
    next below =>
      cases ok
      rw [Op.weight, if_neg fun both => below (right.mpr both.2)]
      exact ⟨h, (Int.add_zero _).symm, fun _ _ _ => rfl⟩
  | read ref =>
    change (readObject serde ring ref.address ref.monotonicId).map _ = .ok ring' at ok
    have same : ring = ring' := by
      cases read : readObject serde ring ref.address ref.monotonicId with
      | error e =>
        rw [read] at ok
        cases ok
      | ok value =>
        rw [read] at ok
        exact Except.ok.inj ok
    subst same
    exact ⟨h, (Int.add_zero _).symm, fun _ _ _ => rfl⟩
  | ack ref =>
    change o.chunk.address = ref.address at address
    change o.chunk.id = ref.monotonicId at id
    change incrementReaderFlag ring ref.address = .ok ring' at ok
    rw [← address] at ok
    rw [Op.weight, if_pos id.symm]
    exact h.increment mem ok

theorem Inv.reader (h : Inv serde s objs) {r : Fin n} {op : Op V} {rest : List (Op V)}
    {ring : RingBuffer} (next : s.todo r = op :: rest)
    (guess : RightGuess n s.storage.ring (op :: rest)) (ok : op.run serde n s.storage.ring = .ok ring) :
    Inv serde { s with
      storage := { s.storage with ring := ring }
      todo := update s.todo r rest } objs := by
  obtain ⟨o, mem, address, id, value⟩ := h.owed r op (by rw [next]; exact mem_cons_self)
  obtain ⟨stored, count, others⟩ := run_counts h.holds.stored mem address id guess ok
  have closed := h.closed r
  rw [next] at closed
  have todo : ∀ r', ∀ op' ∈ update s.todo r rest r', op' ∈ s.todo r' := by
    intro r' op' mem'
    by_cases same : r' = r
    · rw [same, update_self] at mem'
      rw [same, next]
      exact mem_cons_of_mem _ mem'
    · rwa [update_of_ne same] at mem'
  refine { h with
    holds := ⟨stored, { h.holds.dicts with }⟩
    closed := fun r' => ?_
    owed := fun r' op' mem' => h.owed r' op' (todo r' op' mem')
    counts := fun o' mem' => ?_ }
  · show Op.Closed (update s.todo r rest r')
    by_cases same : r' = r
    · rw [same, update_self]
      exact closed.2
    · rw [update_of_ne same]
      exact h.closed r'
  · have counts := h.counts o' mem'
    have sum := sum_update (Op.owed o'.chunk.id) s.todo r rest
    rw [next, Op.owed_cons] at sum
    show readerCount ring o'.chunk.address +
      ((∑ r', Op.owed o'.chunk.id (update s.todo r rest r')) +
        n * s.phase.pending o'.key o'.chunk.id : Nat) = (n * o'.writers : Nat)
    by_cases same : o' = o
    · rw [same] at sum counts ⊢
      rw [count]
      omega
    · have none : op.weight o'.chunk.id = 0 := by
        have ne : op.ref.monotonicId ≠ o'.chunk.id := fun ids =>
          same (h.holds.dicts.id_inj mem' mem (ids.symm.trans id.symm))
        cases op with
        | touch ref => exact if_neg fun both => ne both.1
        | read ref => rfl
        | ack ref => exact if_neg ne
      rw [others o' mem' same]
      omega

theorem pending_pass (key : κ) (id : Nat) (refs : List (Ref V)) (item : Item κ V × Bool)
    (left : List (Item κ V × Bool)) :
    (Phase.updating refs left).pending key id + itemWeight key item =
    (Phase.updating refs (item :: left)).pending key id := by
  simp only [Phase.pending, map_cons, sum_cons]
  omega

theorem pending_hand (key : κ) (id : Nat) (refs : List (Ref V)) (ref : Ref V)
    (item : Item κ V × Bool) (left : List (Item κ V × Bool)) :
    (Phase.updating (refs ++ [ref]) left).pending key id + itemWeight key item =
    (Phase.updating refs (item :: left)).pending key id + ref.weight id := by
  rw [← pending_pass key id refs item left]
  simp only [Phase.pending, map_append, map_singleton, sum_append,
    sum_singleton]
  omega

variable {item : Item κ V} {was : Bool} {left : List (Item κ V × Bool)}

theorem Inv.handCached (h : Inv serde s objs)
    (updating : s.phase = .updating refs ((item, was) :: left)) (mem : o ∈ objs)
    (key : o.key = item.mmHash) :
    Inv serde { s with
      storage := s.storage.incrementWriterFlag o.chunk.id
      phase := .updating (refs ++ [⟨o.chunk.address, o.chunk.id, s.shown item.mmHash, was⟩]) left }
      (bump o.key objs) := by
  have value : s.shown item.mmHash = some o.value := key ▸ h.shown o mem
  refine h.count (h.holds.incrementWriterFlag mem) mem rfl rfl ?_ ?_ ?_ ?_
  · intro ref mem'
    rcases mem_append.mp mem' with mem' | mem'
    · exact h.collected ref (by rw [updating]; exact mem')
    · rw [mem_singleton.mp mem']
      exact ⟨o, mem, rfl, rfl, value⟩
  · intro item' mem'
    exact h.touched item' (by rw [updating]; exact mem_cons_of_mem _ mem')
  · have hand := pending_hand o.key o.chunk.id refs
      ⟨o.chunk.address, o.chunk.id, s.shown item.mmHash, was⟩ (item, was) left
    rw [updating]
    rw [Ref.weight, if_pos rfl, itemWeight] at hand
    cases was with
    | true =>
      rw [if_pos ⟨key.symm, rfl⟩, Bool.toNat_true] at hand
      omega
    | false =>
      rw [if_neg (by simp), Bool.toNat_false] at hand
      omega
  · intro o' mem' ne
    have hand := pending_hand o'.key o'.chunk.id refs
      ⟨o.chunk.address, o.chunk.id, s.shown item.mmHash, was⟩ (item, was) left
    have id_ne : o.chunk.id ≠ o'.chunk.id := fun ids =>
      ne (congrArg Obj.key (h.holds.dicts.id_inj mem' mem ids.symm))
    rw [updating]
    rw [Ref.weight, if_neg id_ne, itemWeight, if_neg fun same => ne (same.1.symm.trans key.symm)]
      at hand
    exact hand

/-- The item that the request comes to is not put: some unused objects may have been freed. -/
theorem Inv.pass (h : Inv serde s objs) (pos : 0 < n) {k : Nat}
    (updating : s.phase = .updating refs ((item, was) :: left))
    (new : ∀ o ∈ objs, o.key ≠ item.mmHash)
    (free : ∀ o ∈ objs.take k, (o.writers * s.storage.nReaders : Nat) ≤
    readerCount s.storage.ring o.chunk.address)
    (same : ∀ o ∈ objs.drop k, readerCount storage.ring o.chunk.address =
    readerCount s.storage.ring o.chunk.address) (readers : storage.nReaders = s.storage.nReaders)
    (holds : Holds serde storage (objs.drop k)) :
    Inv serde { s with storage := storage, phase := .updating refs left } (objs.drop k) := by
  obtain ⟨owed, collected, touched⟩ := h.freed pos free
  rw [updating] at collected touched
  exact
    { holds := holds
      readers := readers.trans h.readers
      shown := fun o mem => h.shown o (mem_of_mem_drop mem)
      closed := h.closed
      owed := owed
      collected := collected
      touched := fun item' mem => touched item' (mem_cons_of_mem _ mem)
      counts := fun o mem => by
        have counts := h.counts o (mem_of_mem_drop mem)
        have pass := pending_pass o.key o.chunk.id refs (item, was) left
        rw [itemWeight, if_neg fun same => new o (mem_of_mem_drop mem) same.1.symm] at pass
        rw [updating, ← pass] at counts
        show readerCount storage.ring o.chunk.address + _ = _
        rw [same o mem]
        exact counts }

theorem owed_eq_zero {id : Nat} {ops : List (Op V)} (none : ∀ op ∈ ops, op.ref.monotonicId ≠ id) :
    Op.owed id ops = 0 := by
  refine sum_eq_zero fun w mem => ?_
  obtain ⟨op, there, rfl⟩ := mem_map.mp mem
  have ne := none op there
  cases op with
  | touch ref => exact if_neg fun both => ne both.1
  | read ref => rfl
  | ack ref => exact if_neg ne

/-- The item that the request comes to is put, where some unused objects may have been freed. -/
theorem Inv.put (h : Inv serde s objs) (pos : 0 < n) {k : Nat} {chunk : Chunk}
    (updating : s.phase = .updating refs ((item, was) :: left))
    (new : ∀ o ∈ objs, o.key ≠ item.mmHash)
    (free : ∀ o ∈ objs.take k, (o.writers * s.storage.nReaders : Nat) ≤
      readerCount s.storage.ring o.chunk.address)
    (same : ∀ o ∈ objs.drop k, readerCount storage.ring o.chunk.address =
      readerCount s.storage.ring o.chunk.address) (readers : storage.nReaders = s.storage.nReaders)
    (holds : Holds serde storage (objs.drop k ++ [⟨chunk, item.mmHash, item.value, 1⟩]))
    (zero : readerCount storage.ring chunk.address = 0) :
    Inv serde { s with
      storage := storage
      shown := s.show' item
      phase := .updating (refs ++ [⟨chunk.address, chunk.id, s.show' item item.mmHash, was⟩]) left }
      (objs.drop k ++ [⟨chunk, item.mmHash, item.value, 1⟩]) := by
  obtain ⟨owed, collected, touched⟩ := h.freed pos free
  rw [updating] at collected touched
  have absent : ¬s.storage.isCached item.mmHash = true := fun cached =>
    have ⟨o, mem, key⟩ := h.holds.dicts.isCached_iff.mp cached
    new o mem key
  have shown : s.show' item = update s.shown item.mmHash (some item.value) := if_neg absent
  have value : s.show' item item.mmHash = some item.value := by
    rw [shown, update_self]
  have untouched : was = false := by
    cases was with
    | false => rfl
    | true =>
      obtain ⟨o, mem, key⟩ := h.touched item (by rw [updating]; exact mem_cons_self)
      exact absurd key (new o mem)
  have fresh : ∀ o ∈ objs.drop k, o.chunk.id ≠ chunk.id := fun o mem ids =>
    new o (mem_of_mem_drop mem) (congrArg Obj.key (holds.dicts.id_inj
      (mem_append_left _ mem) (mem_append_right _ (mem_singleton_self _)) ids))
  have others : ∀ ref, Refers (objs.drop k) ref → ref.monotonicId ≠ chunk.id := by
    rintro ref ⟨o, mem, -, id, -⟩
    rw [← id]
    exact fresh o mem
  have mono : ∀ ref, Refers (objs.drop k) ref →
      Refers (objs.drop k ++ [⟨chunk, item.mmHash, item.value, 1⟩]) ref :=
    fun ref ⟨o, mem, refers⟩ => ⟨o, mem_append_left _ mem, refers⟩
  exact
    { holds := holds
      readers := readers.trans h.readers
      shown := fun o mem => by
        rcases mem_append.mp mem with mem | mem
        · have there := mem_of_mem_drop mem
          show s.show' item o.key = some o.value
          rw [shown, update_of_ne (new o there)]
          exact h.shown o there
        · rw [mem_singleton.mp mem]
          exact value
      closed := h.closed
      owed := fun r op mem => mono _ (owed r op mem)
      collected := fun ref mem => by
        rcases mem_append.mp mem with mem | mem
        · exact mono ref (collected ref mem)
        · rw [mem_singleton.mp mem]
          exact ⟨_, mem_append_right _ (mem_singleton_self _), rfl, rfl, value⟩
      touched := fun item' mem => by
        obtain ⟨o, there, key⟩ := touched item' (mem_cons_of_mem _ mem)
        exact ⟨o, mem_append_left _ there, key⟩
      counts := fun o mem => by
        have hand := pending_hand o.key o.chunk.id refs
          ⟨chunk.address, chunk.id, s.show' item item.mmHash, was⟩ (item, was) left
        rw [itemWeight, if_neg (by simp [untouched]), Nat.add_zero] at hand
        rcases mem_append.mp mem with mem | mem
        · have counts := h.counts o (mem_of_mem_drop mem)
          rw [Ref.weight, if_neg fun id => fresh o mem id.symm, Nat.add_zero] at hand
          rw [updating, ← hand] at counts
          show readerCount storage.ring o.chunk.address + _ = _
          rw [same o mem]
          exact counts
        · cases mem_singleton.mp mem
          have none : ∑ r, Op.owed chunk.id (s.todo r) = 0 :=
            Finset.sum_eq_zero fun r _ =>
              owed_eq_zero fun op mem => others op.ref (owed r op mem)
          have before : (Phase.updating refs ((item, was) :: left)).pending item.mmHash chunk.id =
              0 := by
            refine Nat.add_eq_zero_iff.mpr ⟨sum_eq_zero ?_, sum_eq_zero ?_⟩
            · intro w mem
              obtain ⟨ref, there, rfl⟩ := mem_map.mp mem
              exact if_neg (others ref (collected ref there))
            · intro w mem
              obtain ⟨⟨item', was'⟩, there, rfl⟩ := mem_map.mp mem
              refine if_neg fun both => ?_
              obtain ⟨key, true⟩ := both
              cases true
              obtain ⟨o, mem', key'⟩ := touched item' there
              exact new o (mem_of_mem_drop mem') (key'.trans key)
          rw [before, Ref.weight, if_pos rfl] at hand
          show readerCount storage.ring chunk.address +
            ((∑ r, Op.owed chunk.id (s.todo r)) + n * (Phase.updating _ left).pending _ _ : Nat) =
              (n * 1 : Nat)
          rw [zero, none, hand, untouched]
          simp }

end System

end VllmAmpere.ShmObjectStore
